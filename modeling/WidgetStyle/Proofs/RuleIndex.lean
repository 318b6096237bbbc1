import Mathlib.Data.List.Dedup
import Mathlib.Data.List.Sort
import WidgetStyle.Proofs.Memo
import WidgetStyle.Rule

/-!
# What the rule index holds and finds

Filing a rule touches the bucket of one key and leaves all others alone. From this step two facts
follow about an index built from a list of rules, by going through the rules from the last to the
first: a bucket lists exactly the rules that have a selector with its key, and it lists them in
ascending order. A query merges the buckets of the node's own keys, so its answer is ascending
too, and it holds every rule whose selectors could select the node: what selects a node has its
key among the keys of the node. Said without keys, a query lists the rules with a subject that the
node hits through the most selective part of the subject (`candidates_exact`).
-/

namespace WidgetStyle

/-- A rule has a selector that is filed under a key. -/
def Rule.HasKey (rule : Rule) (key : Key) : Prop :=
  ∃ chain ∈ rule.selectors, chain.subject.key = key

/-- The most selective part of a selector is a part of every node that it selects. -/
theorem SimpleSelector.key_mem_keys {selector : SimpleSelector} {node : Node}
    (hselects : selector.selects node = true) : selector.key ∈ node.keys := by
  obtain ⟨helement, hclass, hid⟩ := selects_iff.mp hselects
  obtain ⟨element, className, id⟩ := selector
  cases id with
  | some name => simp [key, Node.keys, hid name rfl]
  | none =>
    cases className with
    | some name => simp [key, Node.keys, hclass name rfl]
    | none =>
      cases element with
      | some name => simp [key, Node.keys, helement name rfl]
      | none => simp [key, Node.keys]

/-- A rule that selects a node is filed under a key of the node. -/
theorem Rule.hasKey_of_selects {rule : Rule} {chain : Chain} {path : Path}
    (hchain : chain ∈ rule.selectors) (hselects : chain.selects path = true) :
    ∃ leaf, path.getLast? = some leaf ∧ ∃ key ∈ leaf.keys, rule.HasKey key := by
  obtain ⟨leaf, hleaf, hsubject⟩ := Chain.subject_selects_of_selects hselects
  exact ⟨leaf, hleaf, _, SimpleSelector.key_mem_keys hsubject, chain, hchain, rfl⟩

/-- A leaf hits a selector through the most selective part that the selector names: its id, else
its class, else its element; one that names nothing is hit by every leaf. -/
inductive SimpleSelector.HitBy (leaf : Node) : SimpleSelector → Prop
  | id {name : String} (element className : Option String) (hid : leaf.id = some name) :
      HitBy leaf ⟨element, className, some name⟩
  | className {name : String} (element : Option String) (hclass : leaf.className = some name) :
      HitBy leaf ⟨element, some name, none⟩
  | element {name : String} (helement : leaf.element = name) : HitBy leaf ⟨some name, none, none⟩
  | any : HitBy leaf ⟨none, none, none⟩

/-- The most selective part of a selector is a part of the leaf exactly if the leaf hits it. -/
theorem SimpleSelector.key_mem_keys_iff {selector : SimpleSelector} {leaf : Node} :
    selector.key ∈ leaf.keys ↔ selector.HitBy leaf := by
  constructor
  · intro hkey
    obtain ⟨element, className, id⟩ := selector
    cases id with
    | some name =>
      have hid : leaf.id = some name := by simpa [key, Node.keys] using hkey
      exact .id element className hid
    | none =>
      cases className with
      | some name =>
        have hclass : leaf.className = some name := by simpa [key, Node.keys] using hkey
        exact .className element hclass
      | none =>
        cases element with
        | some name =>
          have helement : name = leaf.element := by simpa [key, Node.keys] using hkey
          exact .element helement.symm
        | none => exact .any
  · intro hhit
    cases hhit with
    | id element className hid => simp [key, Node.keys, hid]
    | className element hclass => simp [key, Node.keys, hclass]
    | element helement => simp [key, Node.keys, helement]
    | any => simp [key, Node.keys]

namespace Index

/-! ### Filing one rule -/

@[simp] theorem bucket_empty (key : Key) : empty.bucket key = [] := by
  simp [bucket, empty]

/-- Filing under a key changes the bucket of that key only. -/
theorem bucket_file (number : Nat) (index : Index) (filed key : Key) :
    (file number index filed).bucket key =
      if filed = key then lead number (index.bucket key) else index.bucket key := by
  simp only [file, bucket, Std.TreeMap.getD_insert, Std.LawfulEqCmp.compare_eq_iff_eq]
  split
  · next hkey => rw [hkey]
  · rfl

@[simp] theorem mem_lead {number : Nat} {list : List Nat} {i : Nat} :
    i ∈ lead number list ↔ i = number ∨ i ∈ list := by
  unfold lead
  split
  · next hhead =>
    have hmem : number ∈ list := List.mem_of_head? hhead
    constructor
    · exact Or.inr
    · rintro (rfl | hi)
      · exact hmem
      · exact hi
  · exact List.mem_cons

/-- Every bucket is ascending and holds no number below `number`. -/
def AscendingFrom (number : Nat) (index : Index) : Prop :=
  ∀ key, (index.bucket key).Pairwise (· < ·) ∧ ∀ i ∈ index.bucket key, number ≤ i

theorem pairwise_lead {number : Nat} {list : List Nat} (hlist : list.Pairwise (· < ·))
    (hfrom : ∀ i ∈ list, number ≤ i) : (lead number list).Pairwise (· < ·) := by
  unfold lead
  split
  · exact hlist
  · next hhead =>
    cases list with
    | nil => exact List.pairwise_singleton _ _
    | cons first rest =>
      -- the first entry is another rule, and all that follow it are above it
      have hfirst : number < first := by
        have hle := hfrom first List.mem_cons_self
        have hne : first ≠ number := by simpa using hhead
        omega
      refine List.pairwise_cons.mpr ⟨?_, hlist⟩
      intro i hi
      rcases List.mem_cons.mp hi with rfl | hi
      · exact hfirst
      · exact Nat.lt_trans hfirst (List.rel_of_pairwise_cons hlist hi)

theorem ascendingFrom_file {number : Nat} {index : Index} (filed : Key)
    (hindex : index.AscendingFrom number) : (file number index filed).AscendingFrom number := by
  intro key
  obtain ⟨hlist, hfrom⟩ := hindex key
  rw [bucket_file]
  split
  · refine ⟨pairwise_lead hlist hfrom, ?_⟩
    intro i hi
    rcases mem_lead.mp hi with rfl | hi
    · exact Nat.le_refl _
    · exact hfrom i hi
  · exact ⟨hlist, hfrom⟩

/-! ### The index of a list of rules -/

theorem ascendingFrom_foldl_file {number : Nat} (keys : List Key) {index : Index}
    (hindex : index.AscendingFrom number) :
    (keys.foldl (file number) index).AscendingFrom number := by
  induction keys generalizing index with
  | nil => exact hindex
  | cons filed keys ih => exact ih (ascendingFrom_file filed hindex)

theorem mem_bucket_foldl_file {number : Nat} (keys : List Key) {index : Index} {key : Key}
    {i : Nat} :
    i ∈ (keys.foldl (file number) index).bucket key ↔
      (i = number ∧ key ∈ keys) ∨ i ∈ index.bucket key := by
  induction keys generalizing index with
  | nil => simp
  | cons filed keys ih =>
    rw [List.foldl_cons, ih, bucket_file]
    by_cases hkey : filed = key
    · simp [hkey]
      tauto
    · simp [hkey, Ne.symm hkey]

theorem ascendingFrom_ofRulesFrom (number : Nat) (rules : List Rule) :
    (ofRulesFrom number rules).AscendingFrom number := by
  induction rules generalizing number with
  | nil =>
    intro key
    simp [ofRulesFrom]
  | cons rule rules ih =>
    refine ascendingFrom_foldl_file _ ?_
    intro key
    obtain ⟨hlist, hfrom⟩ := ih (number + 1) key
    exact ⟨hlist, fun i hi => Nat.le_of_succ_le (hfrom i hi)⟩

theorem mem_bucket_ofRulesFrom {number : Nat} {rules : List Rule} {key : Key} {i : Nat} :
    i ∈ (ofRulesFrom number rules).bucket key ↔
      ∃ place rule, rules[place]? = some rule ∧ i = number + place ∧ rule.HasKey key := by
  induction rules generalizing number with
  | nil => simp [ofRulesFrom]
  | cons rule rules ih =>
    rw [ofRulesFrom, mem_bucket_foldl_file, ih]
    constructor
    · rintro (⟨rfl, hkey⟩ | ⟨place, later, hlater, rfl, hkey⟩)
      · exact ⟨0, rule, rfl, rfl, by simpa [Rule.HasKey] using hkey⟩
      · exact ⟨place + 1, later, hlater, by omega, hkey⟩
    · rintro ⟨place, found, hfound, rfl, hkey⟩
      cases place with
      | zero =>
        obtain rfl : rule = found := by simpa using hfound
        exact .inl ⟨rfl, by simpa [Rule.HasKey] using hkey⟩
      | succ place => exact .inr ⟨place, found, hfound, by omega, hkey⟩

/-- **A bucket lists exactly the rules that have a selector with its key.** -/
theorem mem_bucket_ofRules {rules : List Rule} {key : Key} {i : Nat} :
    i ∈ (ofRules rules).bucket key ↔ ∃ rule, rules[i]? = some rule ∧ rule.HasKey key := by
  rw [ofRules, mem_bucket_ofRulesFrom]
  constructor
  · rintro ⟨place, rule, hrule, rfl, hkey⟩
    exact ⟨rule, by simpa using hrule, hkey⟩
  · rintro ⟨rule, hrule, hkey⟩
    exact ⟨i, rule, hrule, by omega, hkey⟩

/-! ### Queries -/

@[simp] theorem mem_union {xs ys : List Nat} {i : Nat} : i ∈ union xs ys ↔ i ∈ xs ∨ i ∈ ys := by
  fun_induction union xs ys with
  | case1 ys => simp
  | case2 xs => simp
  | case3 x xs y ys hlt ih =>
    simp only [List.mem_cons, ih]
    tauto
  | case4 x xs y ys hnlt hlt ih =>
    simp only [List.mem_cons, ih]
    tauto
  | case5 x xs y ys hnlt hngt ih =>
    obtain rfl : x = y := by omega
    simp only [List.mem_cons, ih]
    tauto

theorem pairwise_union {xs ys : List Nat} (hxs : xs.Pairwise (· < ·)) (hys : ys.Pairwise (· < ·)) :
    (union xs ys).Pairwise (· < ·) := by
  fun_induction union xs ys with
  | case1 ys => exact hys
  | case2 xs => exact hxs
  | case3 x xs y ys hlt ih =>
    have hx := List.pairwise_cons.mp hxs
    have hy := List.pairwise_cons.mp hys
    refine List.pairwise_cons.mpr ⟨?_, ih hx.2 hys⟩
    intro i hi
    rcases mem_union.mp hi with hi | hi
    · exact hx.1 i hi
    · rcases List.mem_cons.mp hi with rfl | hi
      · exact hlt
      · exact Nat.lt_trans hlt (hy.1 i hi)
  | case4 x xs y ys hnlt hlt ih =>
    have hx := List.pairwise_cons.mp hxs
    have hy := List.pairwise_cons.mp hys
    refine List.pairwise_cons.mpr ⟨?_, ih hxs hy.2⟩
    intro i hi
    rcases mem_union.mp hi with hi | hi
    · rcases List.mem_cons.mp hi with rfl | hi
      · exact hlt
      · exact Nat.lt_trans hlt (hx.1 i hi)
    · exact hy.1 i hi
  | case5 x xs y ys hnlt hngt ih =>
    obtain rfl : x = y := by omega
    have hx := List.pairwise_cons.mp hxs
    have hy := List.pairwise_cons.mp hys
    refine List.pairwise_cons.mpr ⟨?_, ih hx.2 hy.2⟩
    intro i hi
    rcases mem_union.mp hi with hi | hi
    · exact hx.1 i hi
    · exact hy.1 i hi

theorem mem_foldl_union (index : Index) (keys : List Key) {found : List Nat} {i : Nat} :
    i ∈ keys.foldl (fun found key => union found (index.bucket key)) found ↔
      i ∈ found ∨ ∃ key ∈ keys, i ∈ index.bucket key := by
  induction keys generalizing found with
  | nil => simp
  | cons key keys ih => simp [ih, or_assoc]

theorem pairwise_foldl_union {index : Index} {number : Nat} (hindex : index.AscendingFrom number)
    (keys : List Key) {found : List Nat} (hfound : found.Pairwise (· < ·)) :
    (keys.foldl (fun found key => union found (index.bucket key)) found).Pairwise (· < ·) := by
  induction keys generalizing found with
  | nil => exact hfound
  | cons key keys ih => exact ih (pairwise_union hfound (hindex key).1)

/-- **A query finds exactly the rules that are filed under a key of the node.** -/
theorem mem_candidates {rules : List Rule} {node : Node} {i : Nat} :
    i ∈ (ofRules rules).candidates node ↔
      ∃ rule, rules[i]? = some rule ∧ ∃ key ∈ node.keys, rule.HasKey key := by
  rw [candidates, mem_foldl_union]
  constructor
  · rintro (hi | ⟨key, hkey, hi⟩)
    · cases hi
    · obtain ⟨rule, hrule, hhas⟩ := mem_bucket_ofRules.mp hi
      exact ⟨rule, hrule, key, hkey, hhas⟩
  · rintro ⟨rule, hrule, key, hkey, hhas⟩
    exact .inr ⟨key, hkey, mem_bucket_ofRules.mpr ⟨rule, hrule, hhas⟩⟩

/-- The answer to a query is ascending, so no rule is listed twice. -/
theorem pairwise_candidates (rules : List Rule) (node : Node) :
    ((ofRules rules).candidates node).Pairwise (· < ·) :=
  pairwise_foldl_union (ascendingFrom_ofRulesFrom 0 rules) _ List.Pairwise.nil

theorem lt_length_of_mem_bucket {rules : List Rule} {key : Key} {i : Nat}
    (hi : i ∈ (ofRules rules).bucket key) : i < rules.length := by
  obtain ⟨rule, hrule, _⟩ := mem_bucket_ofRules.mp hi
  exact (List.getElem?_eq_some_iff.mp hrule).1

/-- The buckets grow at their ends: a rule behind the others puts its number behind all others in
the buckets of its own keys, and no other bucket changes. -/
theorem bucket_ofRules_concat (rules : List Rule) (rule : Rule) (key : Key)
    [Decidable (rule.HasKey key)] :
    (ofRules (rules ++ [rule])).bucket key =
      (ofRules rules).bucket key ++ if rule.HasKey key then [rules.length] else [] := by
  have hbefore : ((ofRules rules).bucket key).Pairwise (· < ·) :=
    (ascendingFrom_ofRulesFrom 0 rules key).1
  refine (ascendingFrom_ofRulesFrom 0 _ key).1.eq_of_mem_iff ?_ ?_
  · refine List.pairwise_append.mpr ⟨hbefore, by split <;> simp, ?_⟩
    intro i hi last hlast
    obtain rfl : last = rules.length := by
      split at hlast
      · simpa using hlast
      · cases hlast
    exact lt_length_of_mem_bucket hi
  · intro i
    have hlast : (∃ found, (rules ++ [rule])[i]? = some found ∧ found.HasKey key) ↔
        (∃ found, rules[i]? = some found ∧ found.HasKey key) ∨
          (i = rules.length ∧ rule.HasKey key) := by
      rcases Nat.lt_trichotomy i rules.length with hlt | rfl | hgt
      · simp [List.getElem?_append_left hlt, hlt.ne]
      · simp
      · simp [List.getElem?_append_right hgt.le, List.getElem?_eq_none hgt.le, hgt.ne',
          Nat.sub_ne_zero_of_lt hgt]
    change i ∈ (ofRules (rules ++ [rule])).bucket key ↔ _
    rw [mem_bucket_ofRules, List.mem_append, mem_bucket_ofRules, hlast]
    split <;> simp_all

/-- A query gives what stands in the buckets of the node's keys, put in order and each number
once. -/
theorem candidates_eq_dedup_mergeSort (rules : List Rule) (node : Node) :
    (ofRules rules).candidates node =
      ((node.keys.flatMap (ofRules rules).bucket).mergeSort (· ≤ ·)).dedup := by
  refine (pairwise_candidates rules node).eq_of_mem_iff ?_ ?_
  · have hsorted := (List.pairwise_mergeSort' (· ≤ ·)
      (node.keys.flatMap (ofRules rules).bucket)).sublist (List.dedup_sublist _)
    exact hsorted.imp₂ (fun _ _ hle hne => lt_of_le_of_ne hle hne) (List.nodup_dedup _)
  · intro i
    rw [List.mem_dedup, List.mem_mergeSort, List.mem_flatMap, candidates, mem_foldl_union]
    simp

/-! ### The rules that a leaf hits -/

theorem mem_candidates_iff_hitBy {rules : List Rule} {leaf : Node} {i : Nat} :
    i ∈ (ofRules rules).candidates leaf ↔
      ∃ rule, rules[i]? = some rule ∧ ∃ chain ∈ rule.selectors, chain.subject.HitBy leaf := by
  rw [mem_candidates]
  apply exists_congr
  intro rule
  apply and_congr_right
  intro _
  constructor
  · rintro ⟨key, hkey, chain, hchain, rfl⟩
    exact ⟨chain, hchain, SimpleSelector.key_mem_keys_iff.mp hkey⟩
  · rintro ⟨chain, hchain, hhit⟩
    exact ⟨_, SimpleSelector.key_mem_keys_iff.mpr hhit, chain, hchain, rfl⟩

/-- **A query lists exactly the rules that the leaf hits**, in ascending order and each of them
once. So it lists every rule with a selector that selects a path ending in the leaf. -/
theorem candidates_exact (rules : List Rule) (leaf : Node) :
    ((ofRules rules).candidates leaf).Pairwise (· < ·) ∧
    (∀ i, i ∈ (ofRules rules).candidates leaf ↔
      ∃ rule, rules[i]? = some rule ∧ ∃ chain ∈ rule.selectors, chain.subject.HitBy leaf) ∧
    (∀ i ∈ (ofRules rules).candidates leaf, ((ofRules rules).candidates leaf).count i = 1) ∧
    ∀ i rule path chain, rules[i]? = some rule → path.getLast? = some leaf →
      chain ∈ rule.selectors → chain.selects path = true → i ∈ (ofRules rules).candidates leaf := by
  have hascending := pairwise_candidates rules leaf
  refine ⟨hascending, fun i => mem_candidates_iff_hitBy, ?_, ?_⟩
  · intro i hi
    exact List.count_eq_one_of_mem (hascending.imp Nat.ne_of_lt) hi
  · intro i rule path chain hrule hpath hchain hselects
    obtain ⟨last, hlast, hkey⟩ := Rule.hasKey_of_selects hchain hselects
    obtain rfl : last = leaf := Option.some.inj (hlast.symm.trans hpath)
    exact mem_candidates.mpr ⟨rule, hrule, hkey⟩

/-- A rule is filed twice, under an id and under a class. A leaf that has only the class finds the
rule once, and the second selector does select the path. -/
theorem candidates_exact_of_second_selector :
    let leaf : Node := ⟨"a", some "c", none⟩
    let chain : Chain := .extend (.single ⟨some "p", none, none⟩) .child ⟨some "a", some "c", none⟩
    let rules : List Rule := [⟨[.single ⟨none, none, some "x"⟩, chain], [], 0⟩]
    chain.selects [⟨"p", none, none⟩, leaf] = true ∧ 0 ∈ (ofRules rules).candidates leaf ∧
      ((ofRules rules).candidates leaf).count 0 = 1 := by
  intro leaf chain rules
  obtain ⟨_, _, honce, hselected⟩ := candidates_exact rules leaf
  have hselects : chain.selects [⟨"p", none, none⟩, leaf] = true := by decide +kernel
  have hlisted := hselected 0 _ _ chain rfl rfl (by simp) hselects
  exact ⟨hselects, hlisted, honce 0 hlisted⟩

end Index

end WidgetStyle
