import WidgetStyle.Proofs.Concatenation
import WidgetStyle.Proofs.Precedence

/-!
# Two sheets as one

The cascade weighs the place of a sheet before the place of a rule in it. Where the rules of a
second sheet stand behind all rules of the first, a later place in the one sheet counts as much as
the later sheet did: the weights are in the same order (`Candidate.merged_lt_merged_iff`), and so
the same value wins.
-/

namespace WidgetStyle

/-! ### Candidates -/

/-- The candidate that a rule puts forward where its sheet stands at the end of the first one,
which has `n` rules. -/
def Candidate.merged (n : Nat) (candidate : Candidate) : Candidate :=
  if candidate.weight.sheet = 0 then candidate
  else ⟨⟨candidate.weight.specificity, 0, candidate.weight.order + n⟩, candidate.value⟩

theorem Candidate.merged_value (n : Nat) (candidate : Candidate) :
    (candidate.merged n).value = candidate.value := by
  unfold merged
  split <;> rfl

/-- The candidate is of the first sheet, which has `n` rules, or of the second one. -/
def Candidate.OfTwo (n : Nat) (candidate : Candidate) : Prop :=
  candidate.weight.sheet = 0 ∧ candidate.weight.order < n ∨ candidate.weight.sheet = 1

theorem Candidate.merged_lt_merged_iff {n : Nat} {a b : Candidate} (ha : a.OfTwo n)
    (hb : b.OfTwo n) : (a.merged n).weight < (b.merged n).weight ↔ a.weight < b.weight := by
  obtain ⟨⟨specificity, sheet, order⟩, value⟩ := a
  obtain ⟨⟨specificity', sheet', order'⟩, value'⟩ := b
  simp only [OfTwo] at ha hb
  rcases ha with ⟨rfl, horder⟩ | rfl
  · rcases hb with ⟨rfl, horder'⟩ | rfl
    · rfl
    · have hbefore : order < order' + n := by omega
      simp [merged, Weight.lt_iff, hbefore]
  · rcases hb with ⟨rfl, horder'⟩ | rfl
    · have hbehind : ¬ order + n < order' := by omega
      simp [merged, Weight.lt_iff, hbehind]
    · simp [merged, Weight.lt_iff]

theorem Rule.candidate?_behind (rule : Rule) (n : Nat) (target : Attribute) (path : Path) :
    (rule.behind n).candidate? 0 target path =
      (rule.candidate? 1 target path).map (Candidate.merged n) := by
  have hdeclaration : (rule.behind n).declaration target = rule.declaration target := rfl
  have hmatching : (rule.behind n).matchingSpecificity path = rule.matchingSpecificity path := rfl
  rw [candidate?, candidate?, hdeclaration, hmatching]
  cases rule.declaration target with
  | none => rfl
  | some value => cases rule.matchingSpecificity path <;> rfl

/-- What the first sheet puts forward stays as it is. -/
theorem Rule.candidate?_merged (rule : Rule) (n : Nat) (target : Attribute) (path : Path) :
    (rule.candidate? 0 target path).map (Candidate.merged n) = rule.candidate? 0 target path := by
  rw [candidate?]
  cases rule.declaration target with
  | none => rfl
  | some value => cases rule.matchingSpecificity path <;> rfl

theorem Sheet.Parsed.order_lt_size {sheet : Sheet} (hparsed : sheet.Parsed) {rule : Rule}
    (hrule : rule ∈ sheet.rules) : rule.order < sheet.size := by
  obtain ⟨place, hplace⟩ := Array.mem_iff_getElem?.mp hrule
  obtain ⟨hbound, -⟩ := Array.getElem?_eq_some_iff.mp hplace
  rw [hparsed.order_eq hplace]
  exact hbound

section TwoSheets

variable {first second whole : Sheet} {target : Attribute} {path : Path}

theorem ofTwo_of_mem_candidatesFrom (hfirst : first.Parsed) {candidate : Candidate}
    (hcandidate : candidate ∈ candidatesFrom false target path 0 [first, second]) :
    candidate.OfTwo first.size := by
  obtain ⟨place, sheet, rule, hsheet, hrule, hputs⟩ := mem_candidatesFrom.mp hcandidate
  obtain ⟨hplace, horder⟩ := Rule.weight_of_candidate? hputs
  rcases place with _ | _ | place
  · left
    obtain rfl : first = sheet := by simpa using hsheet
    exact ⟨hplace, horder ▸ hfirst.order_lt_size hrule⟩
  · right
    exact hplace
  · simp at hsheet

theorem candidatesFrom_merged
    (hrules : whole.rules.toList =
      first.rules.toList ++ second.rules.toList.map (Rule.behind first.size)) :
    candidatesFrom false target path 0 [whole] =
      (candidatesFrom false target path 0 [first, second]).map (Candidate.merged first.size) := by
  simp only [candidatesFrom, Sheet.visited, Bool.false_eq_true, if_false, List.append_nil, hrules,
    List.filterMap_append, List.map_append, List.filterMap_map, List.map_filterMap,
    Function.comp_def, Rule.candidate?_behind, Rule.candidate?_merged]

/-- Whether two sheets are kept apart or read as one, the same value wins. -/
theorem winner_merged (hfirst : first.Parsed)
    (hrules : whole.rules.toList =
      first.rules.toList ++ second.rules.toList.map (Rule.behind first.size)) :
    winner [first, second] false target path = winner [whole] false target path := by
  have hall : ∀ candidate ∈ candidatesFrom false target path 0 [first, second],
      candidate.OfTwo first.size :=
    fun _ hcandidate => ofTwo_of_mem_candidatesFrom hfirst hcandidate
  have hnone : ∀ candidate ∈ (none : Option Candidate), candidate.OfTwo first.size := by simp
  have hkept := Candidate.foldl_better_map (fun _ _ => Candidate.merged_lt_merged_iff) hall hnone
  have hvalue : Candidate.value ∘ Candidate.merged first.size = Candidate.value :=
    funext fun candidate => candidate.merged_value first.size
  rw [Option.map_none] at hkept
  rw [winner, winner, candidatesFrom_merged hrules, hkept, Option.map_map, hvalue]

end TwoSheets

/-- **Two stylesheets in one text.** Where the first of two texts is a stylesheet, the two together
are one exactly if the second is. Its rules are those of the first and then those of the second,
whose places count on from the first; the first has the same diagnostics, and the second the same
complaints. A resolver cannot tell the two sheets from the one. -/
theorem parse_append (front back : String) (record : Bool) {first : Sheet}
    (hfirst : Sheet.parse front record = .ok first) :
    ((∃ whole, Sheet.parse (front ++ back) record = .ok whole) ↔
      ∃ second, Sheet.parse back record = .ok second) ∧
    ∀ whole second, Sheet.parse (front ++ back) record = .ok whole →
      Sheet.parse back record = .ok second →
      whole.rules.toList =
        first.rules.toList ++ second.rules.toList.map (Rule.behind first.size) ∧
      (∃ moved, whole.diagnostics = first.diagnostics ++ moved ∧
        moved.map Sheet.Diagnostic.complaint =
          second.diagnostics.map Sheet.Diagnostic.complaint) ∧
      ∀ indexed indexed' target path,
        Resolver.winning ⟨[first, second], indexed⟩ target path =
          Resolver.winning ⟨[whole], indexed'⟩ target path := by
  obtain ⟨found, hfound, hfirst'⟩ := Sheet.exists_written_of_parse hfirst
  have hwritten : Sheet.written (front ++ back).toList =
      (Sheet.written back.toList).map
        (found.map (Sheet.WrittenRule.moved (Text.byteLength back.toList)) ++ ·) := by
    rw [String.toList_append]
    exact Sheet.written_append hfound back.toList
  refine ⟨⟨?_, ?_⟩, ?_⟩
  · rintro ⟨whole, hwhole⟩
    obtain ⟨all, hall, -⟩ := Sheet.exists_written_of_parse hwhole
    cases hback : Sheet.written back.toList with
    | error refusal =>
      rw [hwritten, hback] at hall
      cases hall
    | ok more => exact ⟨_, Sheet.parse_of_written record hback⟩
  · rintro ⟨second, hsecond⟩
    obtain ⟨more, hmore, -⟩ := Sheet.exists_written_of_parse hsecond
    rw [hmore] at hwritten
    exact ⟨_, Sheet.parse_of_written record hwritten⟩
  · intro whole second hwhole hsecond
    obtain ⟨more, hmore, rfl⟩ := Sheet.exists_written_of_parse hsecond
    obtain ⟨all, hall, rfl⟩ := Sheet.exists_written_of_parse hwhole
    rw [hwritten, hmore] at hall
    cases hall
    subst hfirst'
    have hrules := Sheet.rulesFrom_moved_append found more (Text.byteLength back.toList)
    refine ⟨hrules, ?_, ?_⟩
    · cases record with
      | false => exact ⟨[], rfl, rfl⟩
      | true =>
        refine ⟨Sheet.diagnose (front ++ back).toList more, ?_, Sheet.complaints_diagnose _ _ _⟩
        rw [String.toList_append]
        exact Sheet.diagnose_append front.toList back.toList found more
    · intro indexed indexed' target path
      rw [Resolver.winning_indexed, Resolver.winning_indexed]
      exact winner_merged ⟨front, record, hfirst⟩ hrules

/-- Blanks and comments at the seam, and a declaration that is skipped in the first sheet. -/
theorem parse_append_of_blanks :
    ∃ first second whole : Sheet, Sheet.parse "a{x:y}b{font:body}/**/ " = .ok first ∧
      Sheet.parse " /**/b{font:link}" = .ok second ∧
      Sheet.parse ("a{x:y}b{font:body}/**/ " ++ " /**/b{font:link}") = .ok whole ∧
      whole.rules.toList.map Rule.order = [0, 1, 2] ∧
      whole.diagnostics = first.diagnostics ∧
      Resolver.winning ⟨[first, second], true⟩ .font [⟨"b", none, none⟩] =
        Resolver.winning ⟨[whole], false⟩ .font [⟨"b", none, none⟩] ∧
      Resolver.winning ⟨[whole], false⟩ .font [⟨"b", none, none⟩] = some (.keyword "link") := by
  have hfirst : Sheet.written "a{x:y}b{font:body}/**/ ".toList = .ok
      [⟨[.single ⟨some "a", none, none⟩], [⟨"x", [⟨.word "y", ['y']⟩], 21⟩]⟩,
        ⟨[.single ⟨some "b", none, none⟩],
          [⟨"font", [⟨.word "body", ['b', 'o', 'd', 'y']⟩], 15⟩]⟩] := by decide +kernel
  have hsecond : Sheet.written " /**/b{font:link}".toList = .ok
      [⟨[.single ⟨some "b", none, none⟩],
        [⟨"font", [⟨.word "link", ['l', 'i', 'n', 'k']⟩], 10⟩]⟩] := by decide +kernel
  have hparse := Sheet.parse_of_written true hfirst
  have hparse' := Sheet.parse_of_written true hsecond
  obtain ⟨haccepted, hall⟩ := parse_append _ " /**/b{font:link}" true hparse
  obtain ⟨whole, hwhole⟩ := haccepted.mpr ⟨_, hparse'⟩
  obtain ⟨hrules, ⟨moved, hdiagnostics, hcomplaints⟩, hwinning⟩ := hall whole _ hwhole hparse'
  refine ⟨_, _, whole, hparse, hparse', hwhole, ?_, ?_, hwinning true false .font _, ?_⟩
  · rw [hrules]
    decide +kernel
  · have hnone : moved = [] := List.map_eq_nil_iff.mp (hcomplaints.trans (by decide +kernel))
    rw [hdiagnostics, hnone, List.append_nil]
  · rw [← hwinning true false .font _]
    decide +kernel

end WidgetStyle
