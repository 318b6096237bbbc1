import WidgetStyle.Proofs.Interning

/-!
# Printing and reading back

A formula is printed with parentheses around each run that stands in another one, and nowhere else
(`kinds`). So the printed form is spelled as a row of tokens that has the formula for its derivation
(`Formula.spelled_chars`, `Formula.exprOf_kinds`), if there is no negation of a whole formula in it,
no run of less than two terms and no name that a text cannot have. A formula that comes from a text
is of this kind, and stands in no more parentheses than in its text, where some may be redundant
(`ExprOf.height_le`). So printing and reading back is the identity on such formulas, with one limit
for both (`parse_textIn`).
-/

namespace WidgetStyle

namespace Formula

/-! ### The shape of a formula -/

section
variable {α β : Type}

mutual

/-- Every run has two terms or more. -/
def Branching : Formula α → Prop
  | leaf _ _ => True
  | run _ terms => 2 ≤ terms.length ∧ AllBranching terms
  | not inner => inner.Branching

def AllBranching : List (Formula α) → Prop
  | [] => True
  | term :: terms => term.Branching ∧ AllBranching terms

end

mutual

/-- How many runs stand inside of each other. -/
def height : Formula α → Nat
  | leaf _ _ => 0
  | run _ terms => heightAll terms + 1
  | not inner => inner.height

def heightAll : List (Formula α) → Nat
  | [] => 0
  | term :: terms => max term.height (heightAll terms)

end

/-- How many levels below the root the runs stand, at most. -/
def nesting (formula : Formula α) : Nat :=
  formula.height - 1

theorem length_mapAll (f : α → β) (terms : List (Formula α)) :
    (mapAll f terms).length = terms.length := by
  induction terms with
  | nil => rfl
  | cons term terms ih => rw [mapAll, List.length_cons, List.length_cons, ih]

mutual

theorem branching_map (f : α → β) :
    (formula : Formula α) → formula.Branching → (formula.map f).Branching
  | .leaf _ _, _ => trivial
  | .run _ terms, hbranching => by
    refine ⟨?_, allBranching_mapAll f terms hbranching.2⟩
    rw [length_mapAll]
    exact hbranching.1
  | .not inner, hbranching => branching_map f inner hbranching

theorem allBranching_mapAll (f : α → β) :
    (terms : List (Formula α)) → AllBranching terms → AllBranching (mapAll f terms)
  | [], _ => trivial
  | term :: terms, hbranching =>
    ⟨branching_map f term hbranching.1, allBranching_mapAll f terms hbranching.2⟩

end

mutual

theorem height_map (f : α → β) : (formula : Formula α) → (formula.map f).height = formula.height
  | .leaf _ _ => rfl
  | .run _ terms => congrArg (· + 1) (heightAll_mapAll f terms)
  | .not inner => height_map f inner

theorem heightAll_mapAll (f : α → β) :
    (terms : List (Formula α)) → heightAll (mapAll f terms) = heightAll terms
  | [] => rfl
  | term :: terms => by
    rw [mapAll, heightAll, heightAll, height_map f term, heightAll_mapAll f terms]

end

mutual

/-- What is undone at every leaf is undone in the formula. -/
theorem map_map_eq_self {f : α → β} {g : β → α} : (formula : Formula α) →
    (∀ flag ∈ formula.occurrences, g (f flag) = flag) → (formula.map f).map g = formula
  | .leaf flag negated, hundone => by
    rw [map, map, hundone flag List.mem_cons_self]
  | .run operator terms, hundone => by
    rw [map, map, mapAll_mapAll_eq_self terms hundone]
  | .not inner, hundone => by
    rw [map, map, map_map_eq_self inner hundone]

theorem mapAll_mapAll_eq_self {f : α → β} {g : β → α} : (terms : List (Formula α)) →
    (∀ flag ∈ occurrencesAll terms, g (f flag) = flag) → mapAll g (mapAll f terms) = terms
  | [], _ => rfl
  | term :: terms, hundone => by
    rw [mapAll, mapAll, map_map_eq_self term fun flag hflag =>
        hundone flag (List.mem_append_left _ hflag),
      mapAll_mapAll_eq_self terms fun flag hflag => hundone flag (List.mem_append_right _ hflag)]

end

end

/-! ### The shape of a formula that is read -/

mutual

theorem TermOf.branching {room : Nat} {kinds : List TokenKind} {formula : Formula String} :
    TermOf room kinds formula → formula.Branching
  | .name _ _ => trivial
  | .negated _ _ => trivial
  | .group hinside => hinside.branching

theorem ExprOf.branching {room : Nat} {kinds : List TokenKind} {formula : Formula String} :
    ExprOf room kinds formula → formula.Branching
  | .single hterm => hterm.branching
  | .run operator hfirst hrest hsome => by
    refine ⟨?_, hfirst.branching, hrest.allBranching⟩
    have hlength := List.length_pos_iff.mpr hsome
    rw [List.length_cons]
    omega

theorem TailOf.allBranching {room : Nat} {operator : Operator} {kinds : List TokenKind}
    {terms : List (Formula String)} : TailOf room operator kinds terms → AllBranching terms
  | .nil _ _ => trivial
  | .cons hfirst hrest => ⟨hfirst.branching, hrest.allBranching⟩

end

mutual

theorem TermOf.height_le {room : Nat} {kinds : List TokenKind} {formula : Formula String} :
    TermOf room kinds formula → formula.height ≤ room
  | .name _ _ => Nat.zero_le _
  | .negated _ _ => Nat.zero_le _
  | .group hinside => hinside.height_le

/-- The outermost run needs no parentheses, and each further one has some around it. -/
theorem ExprOf.height_le {room : Nat} {kinds : List TokenKind} {formula : Formula String} :
    ExprOf room kinds formula → formula.height ≤ room + 1
  | .single hterm => Nat.le_succ_of_le hterm.height_le
  | .run operator hfirst hrest _ =>
    Nat.succ_le_succ (Nat.max_le.mpr ⟨hfirst.height_le, hrest.heightAll_le⟩)

theorem TailOf.heightAll_le {room : Nat} {operator : Operator} {kinds : List TokenKind}
    {terms : List (Formula String)} : TailOf room operator kinds terms → heightAll terms ≤ room
  | .nil _ _ => Nat.zero_le _
  | .cons hfirst hrest => Nat.max_le.mpr ⟨hfirst.height_le, hrest.heightAll_le⟩

end

/-- A name that a text can have. -/
def IsIdentifier (name : String) : Prop :=
  name ≠ "" ∧ ∀ c ∈ name.toList, isNameChar c = true

theorem Spelled.isIdentifier {cs : List Char} {kinds : List TokenKind}
    (hspelled : Spelled cs kinds) :
    ∀ name ∈ kinds.filterMap TokenKind.name?, IsIdentifier name := by
  induction hspelled with
  | nil => simp
  | blank hblank hrest ih => exact ih
  | mark hmark hrest ih =>
    rw [List.filterMap_cons_none (name?_of_mark? hmark)]
    exact ih
  | @name word cs kinds hsome hword hends hrest ih =>
    have hname : (TokenKind.name (String.ofList word)).name? = some (String.ofList word) := rfl
    rw [List.filterMap_cons_some hname]
    refine List.forall_mem_cons.mpr ⟨⟨?_, ?_⟩, ih⟩
    · simpa using hsome
    · simpa using hword

/-! ### The tokens of the printed form -/

mutual

/-- The tokens of a formula that is printed, with parentheses where it is a run that is `nested` in
another one. -/
def kinds (nested : Bool) : Formula String → List TokenKind
  | leaf name negated => (if negated then [.negation] else []) ++ [.name name]
  | run operator terms =>
    if nested then .openGroup :: kindsOfRun operator terms ++ [.closeGroup]
    else kindsOfRun operator terms
  | not inner => .negation :: .openGroup :: kinds false inner ++ [.closeGroup]

def kindsOfRun (operator : Operator) : List (Formula String) → List TokenKind
  | [] => []
  | term :: terms => kinds true term ++ kindsOfTail operator terms

def kindsOfTail (operator : Operator) : List (Formula String) → List TokenKind
  | [] => []
  | term :: terms => .operator operator :: kinds true term ++ kindsOfTail operator terms

end

theorem mark?_mark (operator : Operator) : mark? operator.mark = some (.operator operator) := by
  cases operator with
  | all => rfl
  | any => rfl
  | odd => rfl

theorem head?_close (rest : List Char) : ∀ c ∈ (')' :: rest).head?, isNameChar c = false := by
  intro c hc
  obtain rfl : ')' = c := Option.some.inj hc
  exact (of_mark? rfl).2

theorem isNameChar_space : isNameChar ' ' = false := by
  by_contra hname
  rw [Bool.not_eq_false] at hname
  exact absurd (isBlank_eq_false_of_isNameChar hname) (by decide)

/-- No name goes on behind a term of a run, if none goes on behind the run. -/
theorem head?_charsOfTail {operator : Operator} {rest : List Char}
    (hends : ∀ c ∈ rest.head?, isNameChar c = false) (terms : List (Formula String)) :
    ∀ c ∈ (charsOfTail operator terms ++ rest).head?, isNameChar c = false := by
  cases terms with
  | nil => exact hends
  | cons term terms =>
    intro c hc
    obtain rfl : ' ' = c := Option.some.inj hc
    exact isNameChar_space

mutual

theorem spelled_chars {rest : List Char} {more : List TokenKind} (hrest : Spelled rest more)
    (hends : ∀ c ∈ rest.head?, isNameChar c = false) (nested : Bool) :
    (formula : Formula String) → (∀ name ∈ formula.occurrences, IsIdentifier name) →
      Spelled (formula.chars nested ++ rest) (formula.kinds nested ++ more)
  | .leaf name negated, hnames => by
    obtain ⟨hsome, hword⟩ := hnames name List.mem_cons_self
    have hname := Spelled.name (by simpa using hsome) hword hends hrest
    rw [String.ofList_toList] at hname
    cases negated with
    | false => exact hname
    | true => exact .mark rfl hname
  | .run operator terms, hnames => by
    cases nested with
    | false => exact spelled_charsOfRun hrest hends operator terms hnames
    | true =>
      have hclose : Spelled (')' :: rest) (.closeGroup :: more) := .mark rfl hrest
      have hrun := spelled_charsOfRun hclose (head?_close rest) operator terms hnames
      simp only [chars, kinds, if_true, List.cons_append, List.append_assoc, List.nil_append]
      exact .mark rfl hrun
  | .not inner, hnames => by
    have hclose : Spelled (')' :: rest) (.closeGroup :: more) := .mark rfl hrest
    have hinner := spelled_chars hclose (head?_close rest) false inner hnames
    simp only [chars, kinds, List.cons_append, List.append_assoc, List.nil_append]
    exact .mark rfl (.mark rfl hinner)

theorem spelled_charsOfRun {rest : List Char} {more : List TokenKind} (hrest : Spelled rest more)
    (hends : ∀ c ∈ rest.head?, isNameChar c = false) (operator : Operator) :
    (terms : List (Formula String)) → (∀ name ∈ occurrencesAll terms, IsIdentifier name) →
      Spelled (charsOfRun operator terms ++ rest) (kindsOfRun operator terms ++ more)
  | [], _ => hrest
  | term :: terms, hnames => by
    have htail := spelled_charsOfTail hrest hends operator terms fun name hname =>
      hnames name (List.mem_append_right _ hname)
    have hterm := spelled_chars htail (head?_charsOfTail hends terms) true term fun name hname =>
      hnames name (List.mem_append_left _ hname)
    rw [charsOfRun, kindsOfRun, List.append_assoc, List.append_assoc]
    exact hterm

theorem spelled_charsOfTail {rest : List Char} {more : List TokenKind} (hrest : Spelled rest more)
    (hends : ∀ c ∈ rest.head?, isNameChar c = false) (operator : Operator) :
    (terms : List (Formula String)) → (∀ name ∈ occurrencesAll terms, IsIdentifier name) →
      Spelled (charsOfTail operator terms ++ rest) (kindsOfTail operator terms ++ more)
  | [], _ => hrest
  | term :: terms, hnames => by
    have htail := spelled_charsOfTail hrest hends operator terms fun name hname =>
      hnames name (List.mem_append_right _ hname)
    have hterm := spelled_chars htail (head?_charsOfTail hends terms) true term fun name hname =>
      hnames name (List.mem_append_left _ hname)
    simp only [charsOfTail, kindsOfTail, separator, List.cons_append, List.append_assoc,
      List.nil_append]
    exact .blank (by decide) (.mark (mark?_mark operator) (.blank (by decide) hterm))

end

mutual

theorem termOf_kinds {room : Nat} : (formula : Formula String) → formula.NotFree →
    formula.Branching → formula.height ≤ room → TermOf room (formula.kinds true) formula
  | .leaf name negated, _, _, _ => by
    cases negated with
    | false => exact .name room name
    | true => exact .negated room name
  | .run operator terms, .run _ hfree, hbranching, hheight => by
    rw [height] at hheight
    cases room with
    | zero => exact absurd hheight (Nat.not_succ_le_zero _)
    | succ room =>
      exact .group (exprOf_kindsOfRun operator terms hfree hbranching.1 hbranching.2
        (Nat.le_of_succ_le_succ hheight))

theorem exprOf_kindsOfRun {room : Nat} (operator : Operator) : (terms : List (Formula String)) →
    AllNotFree terms → 2 ≤ terms.length → AllBranching terms → heightAll terms ≤ room →
      ExprOf room (kindsOfRun operator terms) (.run operator terms)
  | [], _, hlength, _, _ => absurd hlength (by simp)
  | term :: terms, .cons hfree hfrees, hlength, hbranching, hheight => by
    obtain ⟨hterm, hterms⟩ := Nat.max_le.mp hheight
    refine .run operator (termOf_kinds term hfree hbranching.1 hterm)
      (tailOf_kindsOfTail operator terms hfrees hbranching.2 hterms) ?_
    rintro rfl
    exact absurd hlength (by simp)

theorem tailOf_kindsOfTail {room : Nat} (operator : Operator) : (terms : List (Formula String)) →
    AllNotFree terms → AllBranching terms → heightAll terms ≤ room →
      TailOf room operator (kindsOfTail operator terms) terms
  | [], _, _, _ => .nil room operator
  | term :: terms, .cons hfree hfrees, hbranching, hheight => by
    obtain ⟨hterm, hterms⟩ := Nat.max_le.mp hheight
    exact .cons (termOf_kinds term hfree hbranching.1 hterm)
      (tailOf_kindsOfTail operator terms hfrees hbranching.2 hterms)

end

/-- The tokens of the printed form have the formula for their derivation. -/
theorem exprOf_kinds {room : Nat} {formula : Formula String} (hfree : formula.NotFree)
    (hbranching : formula.Branching) (hnesting : formula.nesting ≤ room) :
    ExprOf room (formula.kinds false) formula := by
  rw [nesting] at hnesting
  cases hfree with
  | leaf name negated => exact .single (termOf_kinds _ (.leaf name negated) trivial (Nat.zero_le _))
  | run operator hfrees =>
    exact exprOf_kindsOfRun operator _ hfrees hbranching.1 hbranching.2 hnesting

/-- **A printed formula over names is read back.** -/
theorem parse_text {formula : Formula String} {limit : Nat} (hfree : formula.NotFree)
    (hbranching : formula.Branching) (hnesting : formula.nesting ≤ limit)
    (hnames : ∀ name ∈ formula.occurrences, IsIdentifier name) :
    parse formula.text limit = .ok formula := by
  have hspelled := spelled_chars .nil (by simp) false formula hnames
  rw [List.append_nil, List.append_nil] at hspelled
  refine parse_eq_ok_iff.mpr ⟨formula.kinds false, ?_, exprOf_kinds hfree hbranching hnesting⟩
  rw [text, String.toList_ofList]
  exact hspelled

end Formula

namespace Registry

open Formula (IsIdentifier)

/-! ### Names of a formula over handles -/

theorem Extends.size_le {registry other : Registry} (hextends : registry.Extends other) :
    registry.size ≤ other.size := by
  by_contra hless
  have hplace : other.size < registry.names.size := Nat.lt_of_not_le hless
  have hname := hextends.names other.size _ (Array.getElem?_eq_getElem hplace)
  exact Nat.lt_irrefl _ (Array.getElem?_eq_some_iff.mp hname).1

/-- If all places are handles, names and handles that lead to each other are all there is to it. -/
theorem Bijective.wellFormed {registry : Registry} (hbijective : registry.Bijective)
    (hsize : registry.size ≤ 2 ^ 32) : registry.WellFormed := by
  have hhandle : ∀ (place : Nat) (name : String), registry.names[place]? = some name →
      (Flag.ofPlace place).place = place ∧
        registry.lookup name = some (Flag.ofPlace place) := by
    intro place name hname
    obtain ⟨hbound, -⟩ := Array.getElem?_eq_some_iff.mp hname
    have hplace := place_ofPlace (Nat.lt_of_lt_of_le hbound hsize)
    refine ⟨hplace, (hbijective name _).mpr ?_⟩
    rw [Registry.name, hplace, hname]
  constructor
  · rw [List.nodup_iff_getElem?_ne_getElem?]
    intro place other hless hother hsame
    rw [Array.getElem?_toList, Array.getElem?_toList] at hsame
    have hname : registry.names[other]? = some registry.names[other] :=
      Array.getElem?_eq_getElem hother
    obtain ⟨hplace, hlookup⟩ := hhandle place _ (hsame.trans hname)
    obtain ⟨hplace', hlookup'⟩ := hhandle other _ hname
    rw [hlookup, Option.some.injEq] at hlookup'
    rw [hlookup', hplace'] at hplace
    exact Nat.ne_of_gt hless hplace
  · intro name flag
    constructor
    · intro hlookup
      refine ⟨flag.place, (hbijective name flag).mp hlookup, ?_⟩
      rw [Flag.place, Flag.ofPlace, UInt32.ofNat_toNat]
    · rintro ⟨place, hname, rfl⟩
      exact (hhandle place name hname).2

theorem Bijective.of_parse {registry registry' : Registry} (hbijective : registry.Bijective)
    {text : String} {negate : Bool} {limit : Nat} {formula : Formula Flag}
    (hparse : registry.parse text negate limit = .ok (formula, registry'))
    (hsize : registry'.size ≤ 2 ^ 32) : registry'.Bijective := by
  have hgrown : registry.Extends registry' := by
    obtain ⟨named, handle, -, -, rfl, -⟩ := exists_handle_of_parse hparse
    exact registry.extends_internAll named.occurrences
  have hformed := hbijective.wellFormed (hgrown.size_le.trans hsize)
  exact (hformed.of_parse hparse).bijective hsize

/-- A formula over handles with a printed form that is a formula text: it negates flags only, its
runs have two terms or more, its flags have names that a text can have, and its runs stand within
the limit for parentheses. -/
structure Printable (registry : Registry) (limit : Nat) (formula : Formula Flag) : Prop where
  notFree : formula.NotFree
  branching : formula.Branching
  named : ∀ flag ∈ formula.flags, ∃ name, registry.name flag = some name ∧ IsIdentifier name
  nested : formula.nesting ≤ limit

/-- The formula of a text has a printed form. -/
theorem printable_of_parse {registry registry' : Registry} {text : String} {limit : Nat}
    {formula : Formula Flag} (hparse : registry.parse text false limit = .ok (formula, registry'))
    (hbijective : registry'.Bijective) : Printable registry' limit formula := by
  obtain ⟨named, handle, hread, rfl, -, hhandle⟩ := exists_handle_of_parse hparse
  obtain ⟨kinds, hspelled, hexpr⟩ := Formula.parse_eq_ok_iff.mp hread
  simp only [Bool.false_eq_true, if_false]
  constructor
  · exact hexpr.notFree.map handle
  · exact Formula.branching_map handle named hexpr.branching
  · intro flag hflag
    rw [Formula.flags, List.mem_eraseDups, Formula.occurrences_map] at hflag
    obtain ⟨name, hname, rfl⟩ := List.mem_map.mp hflag
    refine ⟨name, (hbijective name _).mp (hhandle name hname), hspelled.isIdentifier name ?_⟩
    rwa [← hexpr.occurrences_eq]
  · rw [Formula.nesting, Formula.height_map]
    exact Nat.sub_le_of_le_add hexpr.height_le

/-- A formula with a printed form is read back from it. -/
theorem Printable.parse_eq {registry : Registry} {limit : Nat} {formula : Formula Flag}
    (hprintable : Printable registry limit formula) (hbijective : registry.Bijective) :
    registry.parse (formula.textIn registry) false limit = .ok (formula, registry) := by
  have hlabel : ∀ flag ∈ formula.occurrences, IsIdentifier (registry.label flag) ∧
      registry.lookup (registry.label flag) = some flag := by
    intro flag hflag
    obtain ⟨name, hname, hidentifier⟩ := hprintable.named flag (List.mem_eraseDups.mpr hflag)
    rw [label, hname]
    exact ⟨hidentifier, (hbijective name flag).mpr hname⟩
  have hread :
      Formula.parse (formula.textIn registry) limit = .ok (formula.map registry.label) := by
    apply Formula.parse_text
    · exact hprintable.notFree.map _
    · exact Formula.branching_map _ formula hprintable.branching
    · rw [Formula.nesting, Formula.height_map]
      exact hprintable.nested
    · rw [Formula.occurrences_map]
      exact List.forall_mem_map.mpr fun flag hflag => (hlabel flag hflag).1
  obtain ⟨found, registry', hparse⟩ : ∃ found registry',
      registry.parse (formula.textIn registry) false limit = .ok (found, registry') :=
    ⟨_, _, registry.parse_of_formula false hread⟩
  obtain ⟨named, handle, hread', hfound, hregistry, hhandle⟩ := exists_handle_of_parse hparse
  obtain rfl := Except.ok.inj (hread.symm.trans hread')
  rw [Formula.occurrences_map] at hregistry hhandle
  have hsame : registry' = registry := by
    rw [hregistry]
    apply internAll_of_lookup
    intro name hname
    obtain ⟨flag, hflag, rfl⟩ := List.mem_map.mp hname
    exact ⟨flag, (hlabel flag hflag).2⟩
  have hundone : ∀ flag ∈ formula.occurrences, handle (registry.label flag) = flag := by
    intro flag hflag
    have hlookup := hhandle _ (List.mem_map_of_mem hflag)
    rw [hsame, (hlabel flag hflag).2] at hlookup
    exact (Option.some.inj hlookup).symm
  rw [hparse, hsame, hfound, if_neg Bool.false_ne_true, Formula.map_map_eq_self formula hundone]

/-- **A formula is read back from its printed form**, as the same formula and by a registry that
stays as it is, if the form can be a formula text at all. The form of a formula that was read
before always can, with the limit with which it was read: no more parentheses are printed than the
text had. -/
theorem parse_textIn (registry : Registry) (limit : Nat) (formula : Formula Flag) :
    (registry.Bijective → Printable registry limit formula →
        registry.parse (formula.textIn registry) false limit = .ok (formula, registry)) ∧
      ∀ text registry', registry.parse text false limit = .ok (formula, registry') →
        (registry.Bijective → registry'.size ≤ 2 ^ 32 → registry'.Bijective) ∧
        (registry'.Bijective → Printable registry' limit formula ∧
          registry'.parse (formula.textIn registry') false limit = .ok (formula, registry')) := by
  refine ⟨fun hbijective hprintable => hprintable.parse_eq hbijective, ?_⟩
  intro text registry' hparse
  refine ⟨fun hbijective hsize => hbijective.of_parse hparse hsize, ?_⟩
  intro hbijective
  have hprintable := printable_of_parse hparse hbijective
  exact ⟨hprintable, hprintable.parse_eq hbijective⟩

/-- A group that needs its parentheses, built by hand and read with some more around it. -/
theorem parse_textIn_of_group :
    (∃ (registry : Registry) (formula : Formula Flag),
      formula.textIn registry = "hover ^ (!pressed + focus)" ∧
      registry.parse (formula.textIn registry) false 1 = .ok (formula, registry)) ∧
    ∃ formula registry', empty.parse "(hover) ^ ((!pressed + focus))" false 2 =
        .ok (formula, registry') ∧
      registry'.parse (formula.textIn registry') false 2 = .ok (formula, registry') := by
  constructor
  · let registry := ofNames ["hover", "pressed", "focus"]
    let formula : Formula Flag := .run .odd [.leaf ⟨0⟩ false,
      .run .all [.leaf ⟨1⟩ true, .leaf ⟨2⟩ false]]
    have hbijective : registry.Bijective :=
      (wellFormed_ofNames _).bijective (by decide +kernel)
    have hprintable : Printable registry 1 formula := by
      constructor
      · exact .run .odd (.cons (.leaf _ _) (.cons (.run .all (.cons (.leaf _ _)
          (.cons (.leaf _ _) .nil))) .nil))
      · exact ⟨by decide, trivial, ⟨by decide, trivial, trivial, trivial⟩, trivial⟩
      · have hflags : formula.flags = [⟨0⟩, ⟨1⟩, ⟨2⟩] := by decide
        rw [hflags]
        simp only [List.forall_mem_cons, List.not_mem_nil, false_implies, implies_true, and_true]
        exact ⟨⟨"hover", by decide +kernel, by decide, List.all_eq_true.mp (by decide +kernel)⟩,
          ⟨"pressed", by decide +kernel, by decide, List.all_eq_true.mp (by decide +kernel)⟩,
          ⟨"focus", by decide +kernel, by decide, List.all_eq_true.mp (by decide +kernel)⟩⟩
      · decide
    exact ⟨registry, formula, by decide +kernel,
      (parse_textIn registry 1 formula).1 hbijective hprintable⟩
  · have hread : Formula.parse "(hover) ^ ((!pressed + focus))" 2 = .ok (.run .odd
        [.leaf "hover" false, .run .all [.leaf "pressed" true, .leaf "focus" false]]) := by
      decide +kernel
    have hparse := empty.parse_of_formula false hread
    have hback := (parse_textIn empty 2 _).2 _ _ hparse
    have hbijective := hback.1 (wellFormed_empty.bijective (by decide)) (by decide +kernel)
    exact ⟨_, _, hparse, (hback.2 hbijective).2⟩

end Registry

end WidgetStyle
