import WidgetStyle.Selector.Matching

/-!
# What the matcher remembers

The matcher settles the last selector of a chain on the node itself before it looks at any
ancestor. So a chain that selects a node has a subject that selects it too, whatever stands to the
left of the subject and whatever the memo went through on the way (`subject_selects_of_selects`).

The matcher answers questions of one form: do the first links of a chain fit, with the last of
them on a given node. What an answer has to say is told by `Chain.FitsAt`, which follows the chain
from right to left and asks for some node above where the matcher looks for one. The memo is looked
at before a question is settled and written to afterwards, and the search among the ancestors stops
at the first yes, so which questions are asked at all depends on the answers to others. None of this
can be seen in the answers as long as every remembered one is right (`Memo.Truthful`), and a run
that starts from such a memo ends with one (`Chain.decides_settle`).
-/

namespace WidgetStyle

/-! ### The subject -/

namespace Memo

variable {links places : Nat}

@[simp] theorem get_empty (link : Fin links) (place : Fin places) :
    (empty links places).get link place = none := by
  simp [get, empty]

/-- A question without a remembered answer is settled. -/
theorem consult_fst_of_get_eq_none {memo : Memo links places} {link : Fin links}
    {place : Fin places} (settle : Memo links places → Bool × Memo links places)
    (hget : memo.get link place = none) :
    (memo.consult link place settle).1 = (settle memo).1 := by
  simp only [consult, hget]

end Memo

namespace Chain

/-- From an empty memo, a chain fits at a place only if its subject selects the node there. -/
theorem subject_selects_of_settle {links : Nat} {path : Array Node} {chain : Chain}
    {room : chain.length ≤ links} {place : Fin path.size}
    (hsettle : (chain.settle path room place (.empty _ _)).1 = true) :
    chain.subject.selects path[place] = true := by
  cases chain with
  | single selector =>
    rw [settle, Memo.consult_fst_of_get_eq_none _ (Memo.get_empty _ _)] at hsettle
    exact hsettle
  | extend left combinator selector =>
    rw [settle, Memo.consult_fst_of_get_eq_none _ (Memo.get_empty _ _)] at hsettle
    by_cases hselects : selector.selects path[place] = true
    · exact hselects
    · rw [if_neg hselects] at hsettle
      cases hsettle

/-- A chain selects the last node of a path only if its subject does. -/
theorem subject_selects_of_selects {chain : Chain} {path : Path}
    (hselects : chain.selects path = true) :
    ∃ leaf, path.getLast? = some leaf ∧ chain.subject.selects leaf = true := by
  unfold selects at hselects
  split at hselects
  · next hinside =>
    refine ⟨path.toArray[path.toArray.size - 1], ?_, ?_⟩
    · simp at hinside
      simp [List.getLast?_eq_getElem?, hinside]
    · cases chain with
      | single selector => exact hselects
      | extend left combinator selector => exact subject_selects_of_settle hselects
  · cases hselects

end Chain

/-- A selector that selects a node names nothing but parts that the node has. -/
theorem SimpleSelector.selects_iff {selector : SimpleSelector} {node : Node} :
    selector.selects node = true ↔
      (∀ name ∈ selector.element, node.element = name) ∧
      (∀ name ∈ selector.className, node.className = some name) ∧
      (∀ name ∈ selector.id, node.id = some name) := by
  simp [selects, Option.all_eq_true, and_assoc]

/-! ### Answers -/

/-- Where the node for the selector on the left may be. -/
def Combinator.Reaches : Combinator → (above place : Nat) → Prop
  | .child, above, place => above + 1 = place
  | .descendant, above, place => above < place

namespace Chain

/-- The chain fits with its last selector on the node at `place`. -/
def FitsAt (path : Array Node) : Chain → Fin path.size → Prop
  | single selector, place => selector.selects path[place] = true
  | extend left combinator selector, place =>
    selector.selects path[place] = true ∧
      ∃ above : Fin path.size, combinator.Reaches above place ∧ left.FitsAt path above

/-- The first `count` links of a chain, or all of them where there are fewer. -/
def leading (count : Nat) : Chain → Chain
  | single selector => single selector
  | extend left combinator selector =>
    if left.length < count then extend left combinator selector else left.leading count

theorem length_pos (chain : Chain) : 0 < chain.length := by
  cases chain with
  | single selector => exact Nat.one_pos
  | extend left combinator selector => exact Nat.succ_pos _

theorem leading_of_length_le {chain : Chain} {count : Nat} (hlength : chain.length ≤ count) :
    chain.leading count = chain := by
  cases chain with
  | single selector => rfl
  | extend left combinator selector => exact if_pos hlength

theorem leading_leading {count few : Nat} (hfew : few ≤ count) (chain : Chain) :
    (chain.leading count).leading few = chain.leading few := by
  induction chain with
  | single selector => rfl
  | extend left combinator selector ih =>
    by_cases hcount : left.length < count
    · rw [leading, if_pos hcount]
    · have hless : ¬left.length < few := fun hlt => hcount (Nat.lt_of_lt_of_le hlt hfew)
      rw [leading, if_neg hcount, leading, if_neg hless, ih]

/-- Where a chain with a last selector leads, so does the chain without it. -/
theorem leading_of_extend {whole left : Chain} {combinator : Combinator}
    {selector : SimpleSelector}
    (hleads : whole.leading (left.length + 1) = left.extend combinator selector) :
    whole.leading left.length = left := by
  have hless : ¬left.length < left.length := Nat.lt_irrefl _
  rw [← leading_leading (Nat.le_succ left.length) whole, hleads, leading, if_neg hless,
    leading_of_length_le (Nat.le_refl _)]

end Chain

namespace Memo

variable {links places : Nat}

/-! ### Slots -/

/-- No two questions share a slot. -/
theorem slot_inj (link link' : Fin links) (place place' : Fin places) :
    slot link place = slot link' place' ↔ link = link' ∧ place = place' := by
  constructor
  · intro hslot
    have hval : link.val * places + place.val = link'.val * places + place'.val :=
      congrArg Fin.val hslot
    have hplace : place.val = place'.val := by
      have hmod := congrArg (· % places) hval
      simpa [Nat.mul_add_mod_of_lt place.isLt, Nat.mul_add_mod_of_lt place'.isLt] using hmod
    have hlink : link.val = link'.val := by
      rw [hplace] at hval
      exact Nat.eq_of_mul_eq_mul_right place.pos (Nat.add_right_cancel hval)
    exact ⟨Fin.ext hlink, Fin.ext hplace⟩
  · rintro ⟨rfl, rfl⟩
    rfl

theorem get_set (memo : Memo links places) (link link' : Fin links) (place place' : Fin places)
    (answer : Bool) :
    (memo.set link place answer).get link' place' =
      if link = link' ∧ place = place' then some answer else memo.get link' place' := by
  simp only [get, set, ← slot_inj link]
  simp [Vector.getElem_set, Fin.ext_iff]

/-! ### Asking -/

/-- From every memo with the property `P`, `ask` finds out whether `truth` holds, and leaves a
memo with the property. -/
def Decides (P : Memo links places → Prop) (ask : Memo links places → Bool × Memo links places)
    (truth : Prop) : Prop :=
  ∀ memo, P memo → ((ask memo).1 = true ↔ truth) ∧ P (ask memo).2

variable {P : Memo links places → Prop}

theorem decides_pure {answer : Bool} {truth : Prop} (hanswer : answer = true ↔ truth) :
    Decides P (fun memo => (answer, memo)) truth :=
  fun _ hmemo => ⟨hanswer, hmemo⟩

/-- The search among the places below `count` finds out whether one of them has the answer yes. -/
theorem decides_anyBelow {ask : Fin places → Memo links places → Bool × Memo links places}
    {truth : Fin places → Prop} (hask : ∀ place, Decides P (ask place) (truth place)) (count : Nat)
    (bound : count ≤ places) :
    Decides P (anyBelow ask count bound) (∃ place, place.val < count ∧ truth place) := by
  induction count with
  | zero => exact decides_pure (by simp)
  | succ count ih =>
    intro memo hmemo
    obtain ⟨hanswer, hafter⟩ := hask ⟨count, bound⟩ memo hmemo
    rw [anyBelow]
    rcases hrun : ask ⟨count, bound⟩ memo with ⟨answer, after⟩
    rw [hrun] at hanswer hafter
    cases answer with
    | true =>
      exact ⟨iff_of_true rfl ⟨⟨count, bound⟩, Nat.lt_succ_self count, hanswer.mp rfl⟩, hafter⟩
    | false =>
      -- the place asked last is out, so a place with the answer yes is among those before it
      have hno : ¬truth ⟨count, bound⟩ := fun htruth => Bool.false_ne_true (hanswer.mpr htruth)
      obtain ⟨hbelow, hrest⟩ := ih (Nat.le_of_lt bound) after hafter
      refine ⟨hbelow.trans ⟨?_, ?_⟩, hrest⟩
      · rintro ⟨place, hplace, htruth⟩
        exact ⟨place, Nat.lt_succ_of_lt hplace, htruth⟩
      · rintro ⟨place, hplace, htruth⟩
        rcases Nat.lt_succ_iff_lt_or_eq.mp hplace with hless | hsame
        · exact ⟨place, hless, htruth⟩
        · have heq : place = ⟨count, bound⟩ := Fin.ext hsame
          rw [heq] at htruth
          exact absurd htruth hno

/-! ### Right answers -/

/-- Every remembered answer says whether the first links of the chain fit at its place. -/
def Truthful (chain : Chain) (path : Array Node) (memo : Memo links path.size) : Prop :=
  ∀ link place answer, memo.get link place = some answer →
    (answer = true ↔ (chain.leading (link.val + 1)).FitsAt path place)

variable {chain : Chain} {path : Array Node}

theorem truthful_empty : Truthful chain path (empty links path.size) := by
  intro link place answer hget
  rw [get_empty] at hget
  cases hget

/-- A right answer may be written into the memo. -/
theorem Truthful.set {memo : Memo links path.size} (hmemo : memo.Truthful chain path)
    {link : Fin links} {place : Fin path.size} {answer : Bool}
    (hanswer : answer = true ↔ (chain.leading (link.val + 1)).FitsAt path place) :
    (memo.set link place answer).Truthful chain path := by
  intro link' place' answer' hget
  rw [get_set] at hget
  split at hget
  · next hsame =>
    obtain ⟨rfl, rfl⟩ := hsame
    cases hget
    exact hanswer
  · exact hmemo link' place' answer' hget

/-- A question is decided by looking at the memo first where it is decided without. -/
theorem decides_consult {settle : Memo links path.size → Bool × Memo links path.size}
    (link : Fin links) {place : Fin path.size}
    (hsettle : Decides (Truthful chain path) settle
      ((chain.leading (link.val + 1)).FitsAt path place)) :
    Decides (Truthful chain path) (fun memo => memo.consult link place settle)
      ((chain.leading (link.val + 1)).FitsAt path place) := by
  intro memo hmemo
  simp only [consult]
  rcases hget : memo.get link place with _ | answer
  · obtain ⟨hanswer, hafter⟩ := hsettle memo hmemo
    exact ⟨hanswer, hafter.set hanswer⟩
  · exact ⟨hmemo link place answer hget, hmemo⟩

end Memo

namespace Chain

open Memo (Decides Truthful)

/-- The matcher decides whether the first links of a chain fit at a place, and what it remembers
stays right. -/
theorem decides_settle {links : Nat} {whole part : Chain} {path : Array Node}
    (hleads : whole.leading part.length = part) (room : part.length ≤ links)
    (place : Fin path.size) :
    Decides (Truthful whole path) (part.settle path room place) (part.FitsAt path place) := by
  induction part generalizing place with
  | single selector =>
    have htruth : (whole.leading (0 + 1)).FitsAt path place ↔
        (single selector).FitsAt path place := by
      rw [show whole.leading (0 + 1) = single selector from hleads]
    rw [← htruth]
    exact Memo.decides_consult ⟨0, room⟩ (Memo.decides_pure htruth.symm)
  | extend left combinator selector ih =>
    have hleft := ih (leading_of_extend hleads) (Nat.le_of_succ_le room)
    have htruth : (whole.leading (left.length + 1)).FitsAt path place ↔
        (left.extend combinator selector).FitsAt path place := by
      rw [show whole.leading (left.length + 1) = left.extend combinator selector from hleads]
    rw [← htruth]
    refine Memo.decides_consult ⟨left.length, room⟩ ?_
    rw [htruth]
    by_cases hselects : selector.selects path[place] = true
    · simp only [FitsAt, hselects, true_and, ↓reduceIte]
      cases combinator with
      | child =>
        rcases place with ⟨_ | parent, bound⟩
        · exact Memo.decides_pure (by simp [Combinator.Reaches])
        · intro memo hmemo
          obtain ⟨hanswer, hafter⟩ := hleft ⟨parent, Nat.lt_of_succ_lt bound⟩ memo hmemo
          refine ⟨hanswer.trans ⟨?_, ?_⟩, hafter⟩
          · intro hfits
            exact ⟨⟨parent, Nat.lt_of_succ_lt bound⟩, rfl, hfits⟩
          · rintro ⟨above, habove, hfits⟩
            have heq : above = ⟨parent, Nat.lt_of_succ_lt bound⟩ :=
              Fin.ext (Nat.succ.inj habove)
            rw [heq] at hfits
            exact hfits
      | descendant => exact Memo.decides_anyBelow hleft place.val (Nat.le_of_lt place.isLt)
    · have hfits : ¬(left.extend combinator selector).FitsAt path place :=
        fun hfits => hselects hfits.1
      simp only [hselects, Bool.false_eq_true, ↓reduceIte]
      exact Memo.decides_pure (iff_of_false Bool.false_ne_true hfits)

/-- A chain selects the last node of a path where it fits with its last selector on it. -/
theorem selects_iff_fitsAt {chain : Chain} {path : Path} :
    chain.selects path = true ↔
      ∃ last : Fin path.toArray.size, last.val + 1 = path.toArray.size ∧
        chain.FitsAt path.toArray last := by
  by_cases hinside : path.toArray.size - 1 < path.toArray.size
  · have hlast : ∀ last : Fin path.toArray.size, last.val + 1 = path.toArray.size ↔
        last = ⟨path.toArray.size - 1, hinside⟩ := by
      intro last
      rw [Fin.ext_iff]
      show last.val + 1 = path.toArray.size ↔ last.val = path.toArray.size - 1
      omega
    simp only [hlast, exists_eq_left]
    rw [selects, dif_pos hinside]
    cases chain with
    | single selector => exact Iff.rfl
    | extend left combinator selector =>
      exact (decides_settle (leading_of_length_le (Nat.le_refl _)) (Nat.le_refl _) _ _
        Memo.truthful_empty).1
  · rw [selects, dif_neg hinside]
    constructor
    · intro habsurd
      cases habsurd
    · rintro ⟨last, -, -⟩
      exact absurd (Nat.sub_lt last.pos Nat.one_pos) hinside

end Chain

end WidgetStyle
