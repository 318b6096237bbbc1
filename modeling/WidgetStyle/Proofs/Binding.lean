import WidgetStyle.Flag.Registry
import WidgetStyle.Proofs.FormulaReading
import WidgetStyle.Proofs.Registry
import WidgetStyle.Switch

/-!
# What a formula text stands for

Binding puts the names of a formula into the registry in the order of the text (`bind_snd`), and
each leaf gets the handle that its name has then (`bind_fst`). With what is known of reading, this
says which texts are formulas and what each of them gives (`parse_iff_derivation`): the formula of
the one derivation that its tokens have, over handles.
-/

namespace WidgetStyle

namespace Formula

mutual

/-- The registry has the names of the formula, in their order. -/
theorem bind_snd (registry : Registry) :
    (formula : Formula String) →
      (formula.bind registry).2 = (registry.internAll formula.occurrences).2
  | .leaf _ _ => rfl
  | .run _ terms => bindAll_snd registry terms
  | .not inner => bind_snd registry inner

theorem bindAll_snd (registry : Registry) :
    (terms : List (Formula String)) →
      (bindAll registry terms).2 = (registry.internAll (occurrencesAll terms)).2
  | [] => rfl
  | term :: terms => by
    rw [occurrencesAll, Registry.internAll_append, ← bind_snd registry term,
      ← bindAll_snd (term.bind registry).2 terms]
    rfl

end

mutual

/-- The leaves have the handles that their names have in the end. -/
theorem bind_fst {handle : String → Flag} {last : Registry} (registry : Registry) :
    (formula : Formula String) → (formula.bind registry).2.Extends last →
      (∀ name ∈ formula.occurrences, last.lookup name = some (handle name)) →
      (formula.bind registry).1 = formula.map handle
  | .leaf name negated, hextends, hhandle => by
    have hlookup := hextends.lookup name _ (registry.lookup_intern name)
    rw [hhandle name List.mem_cons_self, Option.some.injEq] at hlookup
    rw [map, hlookup]
    rfl
  | .run operator terms, hextends, hhandle => by
    have hterms := bindAll_fst registry terms hextends hhandle
    rw [map, ← hterms]
    rfl
  | .not inner, hextends, hhandle => by
    have hinner := bind_fst registry inner hextends hhandle
    rw [map, ← hinner]
    rfl

theorem bindAll_fst {handle : String → Flag} {last : Registry} (registry : Registry) :
    (terms : List (Formula String)) → (bindAll registry terms).2.Extends last →
      (∀ name ∈ occurrencesAll terms, last.lookup name = some (handle name)) →
      (bindAll registry terms).1 = mapAll handle terms
  | [], _, _ => rfl
  | term :: terms, hextends, hhandle => by
    have hrest : (bindAll (term.bind registry).2 terms).2.Extends last := hextends
    have hfirst : (term.bind registry).2.Extends last := by
      apply Registry.Extends.trans _ hrest
      rw [bindAll_snd]
      exact Registry.extends_internAll _ _
    have hterm := bind_fst registry term hfirst fun name hname =>
      hhandle name (List.mem_append_left _ hname)
    have hterms := bindAll_fst (term.bind registry).2 terms hrest fun name hname =>
      hhandle name (List.mem_append_right _ hname)
    rw [mapAll, ← hterm, ← hterms]
    rfl

end

mutual

theorem NotFree.map {α β : Type} (f : α → β) {formula : Formula α} :
    formula.NotFree → (formula.map f).NotFree
  | .leaf flag negated => .leaf (f flag) negated
  | .run operator hterms => .run operator (hterms.mapAll f)

theorem AllNotFree.mapAll {α β : Type} (f : α → β) {terms : List (Formula α)} :
    AllNotFree terms → AllNotFree (Formula.mapAll f terms)
  | .nil => .nil
  | .cons hterm hterms => .cons (hterm.map f) (hterms.mapAll f)

end

end Formula

namespace Registry

open Formula

theorem parse_of_formula (registry : Registry) {text : String} (negate : Bool) {limit : Nat}
    {named : Formula String} (hparse : Formula.parse text limit = .ok named) :
    registry.parse text negate limit = .ok
      (if negate then .not (named.bind registry).1 else (named.bind registry).1,
        (named.bind registry).2) := by
  rw [parse, hparse]

theorem exists_formula_of_parse {registry : Registry} {text : String} {negate : Bool} {limit : Nat}
    {found : Formula Flag × Registry} (hparse : registry.parse text negate limit = .ok found) :
    ∃ named, Formula.parse text limit = .ok named := by
  cases hnamed : Formula.parse text limit with
  | error e => simp [parse, hnamed] at hparse
  | ok named => exact ⟨named, rfl⟩

/-- What a text that is read gives: its formula with the handles that its names have then, in the
registry that has all of its names. -/
theorem exists_handle_of_parse {registry registry' : Registry} {text : String} {negate : Bool}
    {limit : Nat} {formula : Formula Flag}
    (hparse : registry.parse text negate limit = .ok (formula, registry')) :
    ∃ (named : Formula String) (handle : String → Flag), Formula.parse text limit = .ok named ∧
      formula = (if negate then .not (named.map handle) else named.map handle) ∧
      registry' = (registry.internAll named.occurrences).2 ∧
      ∀ name ∈ named.occurrences, registry'.lookup name = some (handle name) := by
  obtain ⟨named, hnamed⟩ := exists_formula_of_parse hparse
  rw [registry.parse_of_formula negate hnamed, Except.ok.injEq, Prod.mk.injEq] at hparse
  obtain ⟨rfl, rfl⟩ := hparse
  have hhandle : ∀ name ∈ named.occurrences, (named.bind registry).2.lookup name =
      some (((named.bind registry).2.lookup name).getD (Flag.ofPlace 0)) := by
    intro name hname
    obtain ⟨flag, hlookup⟩ := registry.exists_lookup_internAll hname
    rw [bind_snd, hlookup]
    rfl
  refine ⟨named, _, hnamed, ?_, bind_snd registry named, hhandle⟩
  rw [bind_fst registry named (.refl _) hhandle]

theorem WellFormed.of_parse {registry registry' : Registry} (hformed : registry.WellFormed)
    {text : String} {negate : Bool} {limit : Nat} {formula : Formula Flag}
    (hparse : registry.parse text negate limit = .ok (formula, registry')) :
    registry'.WellFormed := by
  obtain ⟨named, handle, -, -, rfl, -⟩ := exists_handle_of_parse hparse
  exact hformed.internAll named.occurrences

/-- **Which texts are formulas, and what each of them gives.** A text is read exactly if it has
known characters only and its tokens have a derivation whose parentheses are within the limit. It
gives the formula of this derivation, the only one there is, with the handles of its names, and
negated as a whole where that is asked for. Another limit gives the same or a fault. -/
theorem parse_iff_derivation (registry : Registry) (text : String) (negate : Bool) (limit : Nat) :
    ((∃ found, registry.parse text negate limit = .ok found) ↔
      (∀ c ∈ text.toList, Known c) ∧
        ∀ kinds, Spelled text.toList kinds → ∃ tree, ExprOf limit kinds tree) ∧
    ∀ formula registry', registry.parse text negate limit = .ok (formula, registry') →
      ∃ kinds tree handle, Spelled text.toList kinds ∧ ExprOf limit kinds tree ∧
        (∀ room other, ExprOf room kinds other → other = tree) ∧
        formula = (if negate then .not (tree.map handle) else tree.map handle) ∧
        (tree.map handle).NotFree ∧
        (∀ name ∈ tree.occurrences, registry'.lookup name = some (handle name)) ∧
        (registry.WellFormed → registry'.size ≤ 2 ^ 32 →
          ∀ name ∈ tree.occurrences, registry'.name (handle name) = some name) ∧
        ∀ limit', (∃ found, registry.parse text negate limit' = .ok found) →
          registry.parse text negate limit' = .ok (formula, registry') := by
  refine ⟨⟨?_, ?_⟩, ?_⟩
  · rintro ⟨found, hparse⟩
    obtain ⟨named, hnamed⟩ := exists_formula_of_parse hparse
    obtain ⟨kinds, hspelled, hexpr⟩ := Formula.parse_eq_ok_iff.mp hnamed
    refine ⟨hspelled.known, ?_⟩
    intro kinds' hspelled'
    rw [hspelled'.unique hspelled]
    exact ⟨named, hexpr⟩
  · rintro ⟨hknown, hderivation⟩
    obtain ⟨kinds, hspelled⟩ := (exists_spelled_iff text.toList).mpr hknown
    obtain ⟨tree, hexpr⟩ := hderivation kinds hspelled
    exact ⟨_, registry.parse_of_formula negate
      (Formula.parse_eq_ok_iff.mpr ⟨kinds, hspelled, hexpr⟩)⟩
  · intro formula registry' hparse
    obtain ⟨named, hnamed⟩ := exists_formula_of_parse hparse
    obtain ⟨kinds, hspelled, hexpr⟩ := Formula.parse_eq_ok_iff.mp hnamed
    rw [registry.parse_of_formula negate hnamed, Except.ok.injEq, Prod.mk.injEq] at hparse
    obtain ⟨rfl, rfl⟩ := hparse
    have hhandle : ∀ name ∈ named.occurrences, (named.bind registry).2.lookup name =
        some (((named.bind registry).2.lookup name).getD (Flag.ofPlace 0)) := by
      intro name hname
      obtain ⟨flag, hlookup⟩ := registry.exists_lookup_internAll hname
      rw [bind_snd, hlookup]
      rfl
    have hbound := bind_fst registry named (.refl _) hhandle
    refine ⟨kinds, named, _, hspelled, hexpr, fun room other hother => hother.unique hexpr, ?_,
      hexpr.notFree.map _, hhandle, ?_, ?_⟩
    · rw [hbound]
    · intro hformed hsize name hname
      have hformed' : (named.bind registry).2.WellFormed := by
        rw [bind_snd]
        exact hformed.internAll _
      exact hformed'.name_eq hsize (hhandle name hname)
    · rintro limit' ⟨found, hparse⟩
      obtain ⟨named', hnamed'⟩ := exists_formula_of_parse hparse
      obtain ⟨kinds', hspelled', hexpr'⟩ := Formula.parse_eq_ok_iff.mp hnamed'
      obtain rfl := hspelled'.unique hspelled
      obtain rfl := hexpr'.unique hexpr
      exact registry.parse_of_formula negate hnamed'

/-- A group within a run of another operator, read with the least limit that lets it in. -/
theorem parse_iff_derivation_of_group :
    ∃ formula registry', empty.parse "!b|(a+b)" true 1 = .ok (formula, registry') ∧
      empty.parse "!b|(a+b)" true 64 = .ok (formula, registry') ∧
      ∃ handle : String → Flag,
        formula = .not (.run .any [.leaf (handle "b") true,
          .run .all [.leaf (handle "a") false, .leaf (handle "b") false]]) ∧
        registry'.name (handle "a") = some "a" ∧ registry'.name (handle "b") = some "b" := by
  have hread : ∀ limit ∈ [1, 64], Formula.parse "!b|(a+b)" limit = .ok (.run .any [.leaf "b" true,
      .run .all [.leaf "a" false, .leaf "b" false]]) := by
    decide +kernel
  have hparse := empty.parse_of_formula true (hread 1 (by decide))
  have hparse' := empty.parse_of_formula true (hread 64 (by decide))
  obtain ⟨kinds, hspelled, hexpr⟩ := Formula.parse_eq_ok_iff.mp (hread 1 (by decide))
  obtain ⟨-, hall⟩ := parse_iff_derivation empty "!b|(a+b)" true 1
  obtain ⟨kinds', tree, handle, hspelled', -, hunique, hformula, -, -, hname, hlimit⟩ :=
    hall _ _ hparse
  obtain rfl := hspelled.unique hspelled'
  obtain rfl := hunique 1 _ hexpr
  refine ⟨_, _, hparse, hlimit 64 ⟨_, hparse'⟩, handle, hformula, ?_, ?_⟩
  · exact hname wellFormed_empty (by decide +kernel) "a" (by decide)
  · exact hname wellFormed_empty (by decide +kernel) "b" (by decide)

end Registry

end WidgetStyle
