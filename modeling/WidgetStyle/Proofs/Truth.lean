import Mathlib.Algebra.Ring.Parity
import WidgetStyle.Proofs.FlagValues
import WidgetStyle.Proofs.Interning

/-!
# The truth of a text

Over the names that are true a text can be read for what it says, without a tree, handles or a
registry: along its tokens, by the meaning of the operators (`TextTruth`). The way through the tree
gives the same: a formula over names has the value of its text (`textTruth_iff`), handles take the
place of the names without a change of the value (`holds_map`), and the flags that are on are those
of the names that are true (`mem_internAll_fst_iff`). So the value of a formula depends on its text
and on the names that are true, and on nothing that a registry has in it (`holds_iff_textTruth`).

Once a text has been read its names have handles, and a registry never takes a handle back. So
whatever the registry is asked for in the meantime, the text is read to the same formula the next
time, and adds nothing to the table (`parse_again`). A reading that is negated as a whole gives the
formula with the opposite value.
-/

namespace WidgetStyle

/-! ### What a text says -/

/-- The value of a run by the values of its terms: every one, some, or an odd number are true. -/
def Operator.Gives : Operator → List Bool → Bool → Prop
  | .all, values, value => value = true ↔ ∀ term ∈ values, term = true
  | .any, values, value => value = true ↔ ∃ term ∈ values, term = true
  | .odd, values, value => value = true ↔ Odd (values.count true)

theorem Operator.gives_iff {operator : Operator} {values : List Bool} {value : Bool} :
    operator.Gives values value ↔ operator.combine values = value := by
  rw [eq_comm, Bool.eq_iff_iff]
  cases operator with
  | all => simp [Gives, combine]
  | any => simp [Gives, combine]
  | odd => simp [Gives, combine, Nat.odd_iff]

namespace Formula

mutual

/-- What a term says where the names in `on` are true. -/
inductive TermTruth (on : String → Prop) : List TokenKind → Bool → Prop
  | name {name : String} {value : Bool} (hvalue : value = true ↔ on name) :
      TermTruth on [.name name] value
  | negated {name : String} {value : Bool} (hvalue : value = true ↔ ¬ on name) :
      TermTruth on [.negation, .name name] value
  | group {kinds : List TokenKind} {value : Bool} (hinside : ExprTruth on kinds value) :
      TermTruth on (.openGroup :: kinds ++ [.closeGroup]) value

/-- What an expression says where the names in `on` are true. -/
inductive ExprTruth (on : String → Prop) : List TokenKind → Bool → Prop
  | single {kinds : List TokenKind} {value : Bool} (hterm : TermTruth on kinds value) :
      ExprTruth on kinds value
  | run {first rest : List TokenKind} {term value : Bool} {terms : List Bool} (operator : Operator)
      (hfirst : TermTruth on first term) (hrest : TailTruth on operator rest terms)
      (hsome : terms ≠ []) (hvalue : operator.Gives (term :: terms) value) :
      ExprTruth on (first ++ rest) value

/-- What the terms behind the first one of a run say. -/
inductive TailTruth (on : String → Prop) : Operator → List TokenKind → List Bool → Prop
  | nil (operator : Operator) : TailTruth on operator [] []
  | cons {operator : Operator} {first rest : List TokenKind} {term : Bool} {terms : List Bool}
      (hfirst : TermTruth on first term) (hrest : TailTruth on operator rest terms) :
      TailTruth on operator (.operator operator :: first ++ rest) (term :: terms)

end

/-- What a text says where the names in `on` are true. -/
def TextTruth (on : String → Prop) (text : String) (value : Bool) : Prop :=
  ∃ kinds, Spelled text.toList kinds ∧ ExprTruth on kinds value

/-! ### A formula over names has the value of its text -/

section
variable {on : String → Prop} [DecidablePred on]

mutual

theorem TermOf.truth {room : Nat} {kinds : List TokenKind} {formula : Formula String} :
    TermOf room kinds formula →
      TermTruth on kinds (formula.holds fun name => decide (on name))
  | .name _ name => .name (by simp [holds])
  | .negated _ name => .negated (by simp [holds])
  | .group hinside => .group hinside.truth

theorem ExprOf.truth {room : Nat} {kinds : List TokenKind} {formula : Formula String} :
    ExprOf room kinds formula →
      ExprTruth on kinds (formula.holds fun name => decide (on name))
  | .single hterm => .single hterm.truth
  | .run operator hfirst hrest hsome => by
    refine .run operator hfirst.truth hrest.truth ?_ (Operator.gives_iff.mpr rfl)
    cases hrest with
    | nil => exact absurd rfl hsome
    | cons hterm hterms => simp [truths]

theorem TailOf.truth {room : Nat} {operator : Operator} {kinds : List TokenKind}
    {terms : List (Formula String)} :
    TailOf room operator kinds terms →
      TailTruth on operator kinds (truths (fun name => decide (on name)) terms)
  | .nil _ operator => .nil operator
  | .cons hfirst hrest => .cons hfirst.truth hrest.truth

end

mutual

theorem TermTruth.exists_termOf {kinds : List TokenKind} {value : Bool} :
    TermTruth on kinds value →
      ∃ room formula, TermOf room kinds formula ∧
        (formula.holds fun name => decide (on name)) = value
  | .name hvalue => by
    refine ⟨0, _, .name 0 _, ?_⟩
    rw [Bool.eq_iff_iff, hvalue]
    simp [holds]
  | .negated hvalue => by
    refine ⟨0, _, .negated 0 _, ?_⟩
    rw [Bool.eq_iff_iff, hvalue]
    simp [holds]
  | .group hinside => by
    obtain ⟨room, formula, hexpr, hholds⟩ := hinside.exists_exprOf
    exact ⟨room + 1, formula, .group hexpr, hholds⟩

theorem ExprTruth.exists_exprOf {kinds : List TokenKind} {value : Bool} :
    ExprTruth on kinds value →
      ∃ room formula, ExprOf room kinds formula ∧
        (formula.holds fun name => decide (on name)) = value
  | .single hterm => by
    obtain ⟨room, formula, hterm, hholds⟩ := hterm.exists_termOf
    exact ⟨room, formula, .single hterm, hholds⟩
  | .run operator hfirst hrest hsome hvalue => by
    obtain ⟨room, term, hterm, rfl⟩ := hfirst.exists_termOf
    obtain ⟨room', terms, hterms, rfl⟩ := hrest.exists_tailOf
    have hterm' := hterm.mono (Nat.le_max_left room room')
    have hterms' := hterms.mono (Nat.le_max_right room room')
    refine ⟨_, _, .run operator hterm' hterms' ?_, Operator.gives_iff.mp hvalue⟩
    rintro rfl
    exact hsome rfl

theorem TailTruth.exists_tailOf {operator : Operator} {kinds : List TokenKind}
    {values : List Bool} : TailTruth on operator kinds values →
      ∃ room terms, TailOf room operator kinds terms ∧
        truths (fun name => decide (on name)) terms = values
  | .nil operator => ⟨0, [], .nil 0 operator, rfl⟩
  | .cons hfirst hrest => by
    obtain ⟨room, term, hterm, rfl⟩ := hfirst.exists_termOf
    obtain ⟨room', terms, hterms, rfl⟩ := hrest.exists_tailOf
    have hterm' := hterm.mono (Nat.le_max_left room room')
    have hterms' := hterms.mono (Nat.le_max_right room room')
    exact ⟨_, _, .cons hterm' hterms', rfl⟩

end

/-- The formula of a text has the value that the text says, and the text says nothing else. -/
theorem textTruth_iff {text : String} {limit : Nat} {named : Formula String}
    (hread : parse text limit = .ok named) (value : Bool) :
    TextTruth on text value ↔ (named.holds fun name => decide (on name)) = value := by
  obtain ⟨kinds, hspelled, hexpr⟩ := parse_eq_ok_iff.mp hread
  constructor
  · rintro ⟨kinds', hspelled', htruth⟩
    obtain rfl := hspelled'.unique hspelled
    obtain ⟨room, other, hother, hholds⟩ := htruth.exists_exprOf
    rw [← hother.unique hexpr, hholds]
  · rintro rfl
    exact ⟨kinds, hspelled, hexpr.truth⟩

end

/-! ### Handles in the place of names -/

section
variable {α β : Type} {f : α → β} {lookup : α → Bool} {lookup' : β → Bool}

mutual

theorem holds_map : (formula : Formula α) →
    (∀ flag ∈ formula.occurrences, lookup' (f flag) = lookup flag) →
      (formula.map f).holds lookup' = formula.holds lookup
  | .leaf flag negated, hsame => by
    rw [map, holds, holds, hsame flag List.mem_cons_self]
  | .run operator terms, hsame => by
    rw [map, holds, holds, truths_mapAll terms hsame]
  | .not inner, hsame => by
    rw [map, holds, holds, holds_map inner hsame]

theorem truths_mapAll : (terms : List (Formula α)) →
    (∀ flag ∈ occurrencesAll terms, lookup' (f flag) = lookup flag) →
      truths lookup' (mapAll f terms) = truths lookup terms
  | [], _ => rfl
  | term :: terms, hsame => by
    rw [mapAll, truths, truths,
      holds_map term fun flag hflag => hsame flag (List.mem_append_left _ hflag),
      truths_mapAll terms fun flag hflag => hsame flag (List.mem_append_right _ hflag)]

end

end

end Formula

/-! ### The flags that are on -/

namespace Registry

open Formula (TextTruth)

/-- The flags of interned names are the handles that they have in the end. -/
theorem mem_internAll_fst_iff {registry : Registry} {names : List String} {flag : Flag} :
    flag ∈ (registry.internAll names).1 ↔
      ∃ name ∈ names, (registry.internAll names).2.lookup name = some flag := by
  induction names generalizing registry with
  | nil => simp [internAll]
  | cons name names ih =>
    have hlast := (extends_internAll (registry.intern name).2 names).lookup name _
      (registry.lookup_intern name)
    change flag ∈ (registry.intern name).1 :: ((registry.intern name).2.internAll names).1 ↔
      ∃ other ∈ name :: names, ((registry.intern name).2.internAll names).2.lookup other = some flag
    rw [List.mem_cons, ih]
    constructor
    · rintro (rfl | ⟨other, hother, hlookup⟩)
      · exact ⟨name, List.mem_cons_self, hlast⟩
      · exact ⟨other, List.mem_cons_of_mem _ hother, hlookup⟩
    · rintro ⟨other, hother, hlookup⟩
      rcases List.mem_cons.mp hother with rfl | hother
      · rw [hlast] at hlookup
        exact .inl (Option.some.inj hlookup).symm
      · exact .inr ⟨other, hother, hlookup⟩

/-- Where the flags of interned names are on, the handle of a name is on if the name is one of
them: two names of one handle are one name. -/
theorem Bijective.get_ofList_internAll {registry : Registry} {on : List String} {name : String}
    {flag : Flag} (hbijective : (registry.internAll on).2.Bijective)
    (hlookup : (registry.internAll on).2.lookup name = some flag) :
    (FlagSet.ofList (registry.internAll on).1).get flag = decide (name ∈ on) := by
  rw [Bool.eq_iff_iff, FlagSet.get_ofList, mem_internAll_fst_iff, decide_eq_true_iff]
  constructor
  · rintro ⟨other, hother, hsame⟩
    rw [hbijective] at hlookup hsame
    rw [hlookup, Option.some.injEq] at hsame
    rwa [hsame]
  · intro hmem
    exact ⟨name, hmem, hlookup⟩

/-- **The value of a formula is what its text says.** A text is read by a registry behind any calls,
other calls follow, some names get handles, and the flags with these handles are on. The formula
has the value that the text has where these names are true. What the registry knew before, and when
and in what order it came to know names, does not matter. -/
theorem holds_iff_textTruth (names : List String) (before : List Call) (text : String) (limit : Nat)
    {formula : Formula Flag} {parsed : Registry}
    (hparse : ((ofNames names).run before).2.parse text false limit = .ok (formula, parsed))
    (later : List Call) (on : List String) {flags : List Flag} {last : Registry}
    (hon : (parsed.run later).2.internAll on = (flags, last)) (hsize : last.size ≤ 2 ^ 32)
    (value : Bool) :
    formula.holds (FlagSet.ofList flags).get = value ↔ TextTruth (· ∈ on) text value := by
  have hformed := ((wellFormed_ofNames names).run before).of_parse hparse
  obtain ⟨named, handle, hread, rfl, -, hhandle⟩ := exists_handle_of_parse hparse
  obtain rfl : ((parsed.run later).2.internAll on).1 = flags := congrArg Prod.fst hon
  obtain rfl : ((parsed.run later).2.internAll on).2 = last := congrArg Prod.snd hon
  have hbijective := ((hformed.run later).internAll on).bijective hsize
  have hextends := (parsed.extends_run later).trans (extends_internAll _ on)
  have hget : ∀ name ∈ named.occurrences,
      (FlagSet.ofList ((parsed.run later).2.internAll on).1).get (handle name) =
        decide (name ∈ on) := by
    intro name hname
    exact hbijective.get_ofList_internAll (hextends.lookup name _ (hhandle name hname))
  rw [if_neg Bool.false_ne_true, Formula.holds_map named hget, Formula.textTruth_iff hread]

/-- An odd run with two true terms, the one a flag and the other a group. -/
theorem holds_iff_textTruth_of_group :
    ∃ formula parsed flags last,
      ((ofNames ["b"]).run [.parse "x + (y" false 64]).2.parse "a ^ b ^ (c | !a)" false 1 =
        .ok (formula, parsed) ∧
      (parsed.run [.intern "z", .parse "c + w" true 64]).2.internAll ["c", "q", "a"] =
        (flags, last) ∧
      formula.holds (FlagSet.ofList flags).get = false ∧
      TextTruth (· ∈ ["c", "q", "a"]) "a ^ b ^ (c | !a)" false := by
  have hread : Formula.parse "a ^ b ^ (c | !a)" 1 = .ok (.run .odd [.leaf "a" false,
      .leaf "b" false, .run .any [.leaf "c" false, .leaf "a" true]]) := by
    decide +kernel
  have hparse := parse_of_formula ((ofNames ["b"]).run [.parse "x + (y" false 64]).2 false hread
  have htruth := holds_iff_textTruth ["b"] [.parse "x + (y" false 64] _ 1 hparse
    [.intern "z", .parse "c + w" true 64] ["c", "q", "a"] rfl (by decide +kernel) false
  have hvalue := htruth.mp (by decide +kernel)
  exact ⟨_, _, _, _, hparse, rfl, htruth.mpr hvalue, hvalue⟩

end Registry

/-! ### A text that is read again -/

/-- With more room for parentheses a text has the same formula. -/
theorem Formula.parse_mono {text : String} {limit limit' : Nat} (hle : limit ≤ limit')
    {named : Formula String} (hread : parse text limit = .ok named) :
    parse text limit' = .ok named := by
  obtain ⟨kinds, hspelled, hexpr⟩ := parse_eq_ok_iff.mp hread
  exact parse_eq_ok_iff.mpr ⟨kinds, hspelled, hexpr.mono hle⟩

namespace Registry

/-- **A text that was read once is read to the same formula ever after.** Behind any later calls,
with the same limit or a higher one, the registry gives the same formula for the text and stays as
it is. Negated as a whole the text is read as well, the registry stays as it is, and the formula is
false where the first one is true and true where that one is false. -/
theorem parse_again (registry : Registry) {text : String} {limit : Nat} {formula : Formula Flag}
    {parsed : Registry} (hparse : registry.parse text false limit = .ok (formula, parsed))
    (later : List Call) {limit' : Nat} (hlimit : limit ≤ limit') :
    (parsed.run later).2.parse text false limit' = .ok (formula, (parsed.run later).2) ∧
      ∃ negated, (parsed.run later).2.parse text true limit' = .ok (negated, (parsed.run later).2) ∧
        ∀ lookup, negated.holds lookup = !formula.holds lookup := by
  obtain ⟨named, handle, hread, rfl, -, hhandle⟩ := exists_handle_of_parse hparse
  have hhandle' : ∀ name ∈ named.occurrences,
      (parsed.run later).2.lookup name = some (handle name) := by
    intro name hname
    exact (parsed.extends_run later).lookup name _ (hhandle name hname)
  have hagain := parse_of_lookup (Formula.parse_mono hlimit hread) hhandle'
  refine ⟨hagain false, _, hagain true, ?_⟩
  intro lookup
  rw [if_pos rfl, if_neg Bool.false_ne_true, Formula.holds]

/-- Between the two readings a name is interned, a text with a fault is read, and another text
brings new names. -/
theorem parse_again_of_group :
    ∃ formula parsed later negated,
      (ofNames ["c"]).parse "a ^ (b | !c)" false 1 = .ok (formula, parsed) ∧
      (parsed.run [.intern "z", .parse "d + (a" false 64, .parse "w | b" true 0]).2 = later ∧
      later.names.toList = ["c", "a", "b", "z", "w"] ∧
      later.parse "a ^ (b | !c)" false 2 = .ok (formula, later) ∧
      later.parse "a ^ (b | !c)" true 2 = .ok (negated, later) ∧
      negated.holds (fun _ => true) = !formula.holds fun _ => true := by
  have hread : Formula.parse "a ^ (b | !c)" 1 = .ok (.run .odd [.leaf "a" false,
      .run .any [.leaf "b" false, .leaf "c" true]]) := by
    decide +kernel
  have hparse := (ofNames ["c"]).parse_of_formula false hread
  obtain ⟨hagain, negated, hnegated, hholds⟩ := parse_again _ hparse
    [.intern "z", .parse "d + (a" false 64, .parse "w | b" true 0] (show 1 ≤ 2 by decide)
  refine ⟨_, _, _, negated, hparse, rfl, ?_, hagain, hnegated, hholds _⟩
  decide +kernel

end Registry

end WidgetStyle
