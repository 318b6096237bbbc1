import WidgetStyle.Proofs.FormulaReading
import WidgetStyle.Switch

/-!
# The identifiers of a text

The identifiers of a text are its longest rows of characters of names, whatever stands between
them (`identifiers`). In a text that is read they are the names of the tokens, and these are the
names in the leaves of the formula, from left to right (`occurrences_of_parse`). So neither the
scanner nor the reader loses, repeats or reorders a name. Which of them come first is not changed
where some names are left out or all get handles (`eraseDups_filter`, `eraseDups_map`).
-/

namespace WidgetStyle

/-! ### Lists without repetitions -/

section
variable {α β : Type} [DecidableEq α] [DecidableEq β]

theorem eraseDups_filter (p : α → Bool) (list : List α) :
    (list.filter p).eraseDups = list.eraseDups.filter p := by
  match list with
  | [] => rfl
  | first :: rest =>
    have hshorter : (rest.filter fun a => !a == first).length < rest.length + 1 :=
      Nat.lt_succ_of_le (List.length_filter_le _ _)
    have ih := eraseDups_filter p (rest.filter fun a => !a == first)
    by_cases hfirst : p first = true
    · rw [List.filter_cons_of_pos hfirst, List.eraseDups_cons, List.eraseDups_cons,
        List.filter_cons_of_pos hfirst, ← ih, List.filter_comm]
    · rw [List.filter_cons_of_neg hfirst, List.eraseDups_cons, List.filter_cons_of_neg hfirst, ← ih,
        List.filter_filter]
      -- what `p` keeps is not the first member anyway
      congr 1
      refine List.filter_congr fun a _ => ?_
      by_cases hsame : a = first
      · simp [hsame, hfirst]
      · simp [hsame]
termination_by list.length

theorem eraseDups_cons_eq_filter (first : α) (rest : List α) :
    (first :: rest).eraseDups = first :: rest.eraseDups.filter fun a => !a == first := by
  rw [List.eraseDups_cons, eraseDups_filter]

theorem nodup_eraseDups (list : List α) : list.eraseDups.Nodup := by
  induction list with
  | nil => exact List.nodup_nil
  | cons first rest ih =>
    rw [eraseDups_cons_eq_filter, List.nodup_cons]
    exact ⟨fun hmem => by simp at hmem, ih.filter _⟩

/-- A map that tells the members of a list apart keeps which of them come first. -/
theorem eraseDups_map {f : α → β} {list : List α}
    (hinj : ∀ a ∈ list, ∀ b ∈ list, f a = f b → a = b) :
    (list.map f).eraseDups = list.eraseDups.map f := by
  induction list with
  | nil => rfl
  | cons first rest ih =>
    have hrest : ∀ a ∈ rest, ∀ b ∈ rest, f a = f b → a = b := fun a ha b hb =>
      hinj a (List.mem_cons_of_mem _ ha) b (List.mem_cons_of_mem _ hb)
    rw [List.map_cons, eraseDups_cons_eq_filter, eraseDups_cons_eq_filter, List.map_cons, ih hrest,
      List.filter_map]
    congr 2
    refine List.filter_congr fun a ha => ?_
    have hapart : f a = f first ↔ a = first :=
      ⟨hinj a (List.mem_cons_of_mem _ (List.mem_eraseDups.mp ha)) first List.mem_cons_self,
        fun hsame => congrArg f hsame⟩
    simp [hapart]

end

namespace Formula

/-! ### Names of tokens -/

/-- The longest rows of characters of names in a text, from left to right. -/
def identifiers (text : String) : List String :=
  ((text.toList.splitOnP fun c => !isNameChar c).filter (· ≠ [])).map String.ofList

/-- The rows of characters of names are the names that are spelled. -/
theorem Spelled.words_eq {cs : List Char} {kinds : List TokenKind} (hspelled : Spelled cs kinds) :
    ((cs.splitOnP fun c => !isNameChar c).filter (· ≠ [])).map String.ofList =
      kinds.filterMap TokenKind.name? := by
  induction hspelled with
  | nil => rfl
  | @blank c cs kinds hblank hrest ih =>
    have hstop : isNameChar c = false := by
      by_contra hname
      rw [Bool.not_eq_false] at hname
      rw [isBlank_eq_false_of_isNameChar hname] at hblank
      cases hblank
    rw [List.splitOnP_cons_eq_if_modifyHead, hstop, ← ih]
    rfl
  | @mark c cs kind kinds hmark hrest ih =>
    rw [List.splitOnP_cons_eq_if_modifyHead, (of_mark? hmark).2,
      List.filterMap_cons_none (name?_of_mark? hmark), ← ih]
    rfl
  | @name word cs kinds hsome hword hends hrest ih =>
    have hinside : ∀ c ∈ word, (!isNameChar c) = false := by
      intro c hc
      rw [hword c hc]
      rfl
    have hname : (TokenKind.name (String.ofList word)).name? = some (String.ofList word) := rfl
    rw [List.filterMap_cons_some hname, ← ih]
    cases cs with
    | nil =>
      rw [List.append_nil, List.splitOnP_eq_singleton hinside]
      simp [hsome]
    | cons c cs =>
      have hstop : isNameChar c = false := hends c rfl
      rw [List.splitOnP_append_cons_of_forall_mem hinside c (by rw [hstop]; rfl),
        List.splitOnP_cons_eq_if_modifyHead, hstop, List.filter_cons_of_pos (by simpa using hsome)]
      rfl

theorem Spelled.identifiers_eq {text : String} {kinds : List TokenKind}
    (hspelled : Spelled text.toList kinds) :
    identifiers text = kinds.filterMap TokenKind.name? :=
  hspelled.words_eq

/-! ### Names of leaves -/

section
variable {α β : Type}

mutual

theorem occurrences_map (f : α → β) :
    (formula : Formula α) → (formula.map f).occurrences = formula.occurrences.map f
  | .leaf _ _ => rfl
  | .run _ terms => occurrencesAll_mapAll f terms
  | .not inner => occurrences_map f inner

theorem occurrencesAll_mapAll (f : α → β) :
    (terms : List (Formula α)) → occurrencesAll (mapAll f terms) = (occurrencesAll terms).map f
  | [] => rfl
  | term :: terms => by
    rw [mapAll, occurrencesAll, occurrencesAll, List.map_append, occurrences_map f term,
      occurrencesAll_mapAll f terms]

end

end

mutual

theorem TermOf.occurrences_eq {room : Nat} {kinds : List TokenKind} {formula : Formula String} :
    TermOf room kinds formula → formula.occurrences = kinds.filterMap TokenKind.name?
  | .name _ _ => rfl
  | .negated _ _ => rfl
  | @TermOf.group _ kinds _ hinside => by
    rw [List.cons_append, List.filterMap_cons_none rfl, List.filterMap_append,
      hinside.occurrences_eq]
    exact (List.append_nil _).symm

theorem ExprOf.occurrences_eq {room : Nat} {kinds : List TokenKind} {formula : Formula String} :
    ExprOf room kinds formula → formula.occurrences = kinds.filterMap TokenKind.name?
  | .single hterm => hterm.occurrences_eq
  | .run operator hfirst hrest _ => by
    rw [List.filterMap_append, ← hfirst.occurrences_eq, ← hrest.occurrences_eq]
    rfl

theorem TailOf.occurrences_eq {room : Nat} {operator : Operator} {kinds : List TokenKind}
    {terms : List (Formula String)} :
    TailOf room operator kinds terms → occurrencesAll terms = kinds.filterMap TokenKind.name?
  | .nil _ _ => rfl
  | .cons hfirst hrest => by
    rw [List.cons_append, List.filterMap_cons_none rfl, List.filterMap_append,
      ← hfirst.occurrences_eq, ← hrest.occurrences_eq]
    rfl

end

/-- **The names in the leaves of a formula are the identifiers of its text**, in their order and as
often as they occur. -/
theorem occurrences_of_parse {text : String} {limit : Nat} {formula : Formula String}
    (hparse : parse text limit = .ok formula) : formula.occurrences = identifiers text := by
  obtain ⟨kinds, hspelled, hexpr⟩ := parse_eq_ok_iff.mp hparse
  rw [hexpr.occurrences_eq, hspelled.identifiers_eq]

end Formula

end WidgetStyle
