import Mathlib.Data.List.Basic
import WidgetStyle.Sheet

/-!
# The rules of a stylesheet that was read from a text

Reading a text numbers its rules from nought in the order of the text, and it leaves at most one
declaration for each attribute in a rule. So a rule knows its own place, and the value that it
gives to an attribute is the only one it holds for it.
-/

namespace WidgetStyle

namespace Sheet

/-- A stylesheet that was read from a text. -/
def Parsed (sheet : Sheet) : Prop :=
  ∃ source record, parse source record = .ok sheet

/-- A text that has written rules is read, and its rules are held against the catalog. -/
theorem parse_of_written {source : String} {rules : List WrittenRule} (record : Bool)
    (hwritten : written source.toList = .ok rules) :
    parse source record = .ok (ofRules (rulesFrom 0 rules).toArray
      (if record then diagnose source.toList rules else [])) := by
  simp only [parse, hwritten]

theorem parse_of_refused {source : String} {refusal : Refusal} (record : Bool)
    (hwritten : written source.toList = .error refusal) :
    parse source record = .error (refusal.place source.toList) := by
  simp only [parse, hwritten]

theorem exists_written_of_parse {source : String} {record : Bool} {sheet : Sheet}
    (hparse : parse source record = .ok sheet) :
    ∃ rules, written source.toList = .ok rules ∧
      sheet = ofRules (rulesFrom 0 rules).toArray
        (if record then diagnose source.toList rules else []) := by
  unfold parse at hparse
  split at hparse
  · cases hparse
  · next rules hwritten =>
    cases hparse
    exact ⟨rules, hwritten, rfl⟩

theorem getElem?_rulesFrom (number place : Nat) (rules : List WrittenRule) :
    (rulesFrom number rules)[place]? = rules[place]?.map fun rule => rule.rule (number + place) := by
  induction rules generalizing number place with
  | nil => rfl
  | cons rule rules ih =>
    cases place with
    | zero => rfl
    | succ place =>
      rw [rulesFrom, List.getElem?_cons_succ, List.getElem?_cons_succ, ih]
      simp only [Nat.add_assoc, Nat.add_comm 1 place]

theorem length_rulesFrom (number : Nat) (found : List WrittenRule) :
    (rulesFrom number found).length = found.length := by
  induction found generalizing number with
  | nil => rfl
  | cons written found ih => rw [rulesFrom, List.length_cons, List.length_cons, ih]

theorem rulesFrom_append (number : Nat) (found more : List WrittenRule) :
    rulesFrom number (found ++ more) =
      rulesFrom number found ++ rulesFrom (number + found.length) more := by
  induction found generalizing number with
  | nil => rfl
  | cons written found ih =>
    rw [List.cons_append, rulesFrom, rulesFrom, ih, List.length_cons, List.cons_append,
      Nat.add_right_comm, Nat.add_assoc]

theorem Parsed.exists_rule_eq {sheet : Sheet} (hparsed : sheet.Parsed) {place : Nat} {rule : Rule}
    (hrule : sheet.rules[place]? = some rule) : ∃ written : WrittenRule, written.rule place = rule := by
  obtain ⟨source, record, hparse⟩ := hparsed
  obtain ⟨rules, -, rfl⟩ := exists_written_of_parse hparse
  simp only [ofRules, List.getElem?_toArray, getElem?_rulesFrom, Option.map_eq_some_iff,
    Nat.zero_add] at hrule
  obtain ⟨written, -, hwritten⟩ := hrule
  exact ⟨written, hwritten⟩

theorem Parsed.order_eq {sheet : Sheet} (hparsed : sheet.Parsed) {place : Nat} {rule : Rule}
    (hrule : sheet.rules[place]? = some rule) : rule.order = place := by
  obtain ⟨written, rfl⟩ := hparsed.exists_rule_eq hrule
  rfl

/-! ### One declaration for each attribute -/

theorem pairwise_declare {declarations : List Declaration} (next : Declaration)
    (hdistinct : declarations.Pairwise fun a b => a.target ≠ b.target) :
    (declare declarations next).Pairwise fun a b => a.target ≠ b.target := by
  refine List.pairwise_append.mpr ⟨hdistinct.filter _, List.pairwise_singleton _ _, ?_⟩
  intro declared hdeclared last hlast
  obtain rfl := List.mem_singleton.mp hlast
  simpa using (List.mem_filter.mp hdeclared).2

theorem pairwise_foldl_declare (accepted : List Declaration) {declarations : List Declaration}
    (hdistinct : declarations.Pairwise fun a b => a.target ≠ b.target) :
    (accepted.foldl declare declarations).Pairwise fun a b => a.target ≠ b.target := by
  induction accepted generalizing declarations with
  | nil => exact hdistinct
  | cons next accepted ih => exact ih (pairwise_declare next hdistinct)

theorem Parsed.pairwise_declarations {sheet : Sheet} (hparsed : sheet.Parsed) {rule : Rule}
    (hrule : rule ∈ sheet.rules) :
    rule.declarations.Pairwise fun a b => a.target ≠ b.target := by
  obtain ⟨place, hplace⟩ := Array.mem_iff_getElem?.mp hrule
  obtain ⟨written, rfl⟩ := hparsed.exists_rule_eq hplace
  exact pairwise_foldl_declare _ List.Pairwise.nil

end Sheet

/-- Where no attribute is declared twice, the value of an attribute is the one declared for it. -/
theorem Rule.declaration_eq_some_iff {rule : Rule}
    (hdistinct : rule.declarations.Pairwise fun a b => a.target ≠ b.target) {target : Attribute}
    {value : Value} :
    rule.declaration target = some value ↔ ⟨target, value⟩ ∈ rule.declarations := by
  unfold declaration
  generalize rule.declarations = declarations at hdistinct ⊢
  induction declarations with
  | nil => simp
  | cons first declarations ih =>
    obtain ⟨hfirst, hrest⟩ := List.pairwise_cons.mp hdistinct
    obtain ⟨declared, given⟩ := first
    by_cases htarget : declared = target
    · -- the search stops at the first declaration, and no later one has the attribute
      subst htarget
      have hnot : ⟨declared, value⟩ ∉ declarations := fun hmem => hfirst _ hmem rfl
      simp [hnot, eq_comm]
    · simp [htarget, Ne.symm htarget, ih hrest]

end WidgetStyle
