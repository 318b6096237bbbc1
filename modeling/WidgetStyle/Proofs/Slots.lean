import WidgetStyle.Proofs.Embedding
import WidgetStyle.Selector.Slots

/-!
# Every question is settled once

A search by numbers could go wrong where the matcher cannot: by a number for which there is no
slot, link or node, or by two questions that share a slot. It does neither. Step by step it does
what the matcher does (`Follows`), and it writes only to open slots and to none of them twice
(`Fills`). What keeps a slot from being written to while its own question is being settled is a
bound: the questions on the way are about fewer links, and those have the smaller numbers.

The answers are measured by what they are about (`Chain.EndsAt`), which mentions no search.
-/

namespace WidgetStyle

namespace Slots

/-! ### What was written -/

/-- The writes lead from the answers `before` to those `after`, each to an open slot with a number
below the bound, and none to the slot of another. -/
structure Fills (bound : Nat) (before after : Array (Option Bool)) (writes : List (Nat × Bool)) :
    Prop where
  once : (writes.map Prod.fst).Nodup
  below : ∀ write ∈ writes, write.1 < bound
  opened : ∀ write ∈ writes, before[write.1]? = some none
  filled : ∀ write ∈ writes, after[write.1]? = some (some write.2)
  kept : ∀ number, number ∉ writes.map Prod.fst → after[number]? = before[number]?

namespace Fills

variable {bound : Nat} {before between after : Array (Option Bool)}
  {writes earlier later : List (Nat × Bool)}

theorem refl (bound : Nat) (answers : Array (Option Bool)) : Fills bound answers answers [] :=
  ⟨List.nodup_nil, nofun, nofun, nofun, fun _ _ => rfl⟩

theorem mono {more : Nat} (hfills : Fills bound before after writes) (hmore : bound ≤ more) :
    Fills more before after writes :=
  { hfills with below := fun write hwrite => Nat.lt_of_lt_of_le (hfills.below write hwrite) hmore }

/-- What was filled before stays. -/
theorem known (hfills : Fills bound before after writes) {number : Nat} {answer : Bool}
    (hanswer : before[number]? = some (some answer)) :
    number ∉ writes.map Prod.fst ∧ after[number]? = some (some answer) := by
  have hnot : number ∉ writes.map Prod.fst := by
    intro hmem
    obtain ⟨write, hwrite, rfl⟩ := List.mem_map.mp hmem
    rw [hfills.opened write hwrite] at hanswer
    cases hanswer
  exact ⟨hnot, (hfills.kept number hnot).trans hanswer⟩

/-- What is new was written. -/
theorem mem_iff (hfills : Fills bound before after writes) {number : Nat} {answer : Bool} :
    (number, answer) ∈ writes ↔
      before[number]? = some none ∧ after[number]? = some (some answer) := by
  constructor
  · intro hmem
    exact ⟨hfills.opened _ hmem, hfills.filled _ hmem⟩
  · rintro ⟨hopen, hanswer⟩
    by_cases hmem : number ∈ writes.map Prod.fst
    · obtain ⟨⟨number, written⟩, hwrite, rfl⟩ := List.mem_map.mp hmem
      have hwritten : some (some answer) = some (some written) :=
        hanswer.symm.trans (hfills.filled _ hwrite)
      cases hwritten
      exact hwrite
    · rw [hfills.kept number hmem, hopen] at hanswer
      cases hanswer

theorem trans (hearlier : Fills bound before between earlier)
    (hlater : Fills bound between after later) : Fills bound before after (later ++ earlier) := by
  -- a slot that was filled first is not open any more when the later writes come
  have hapart : ∀ write ∈ earlier, write.1 ∉ later.map Prod.fst :=
    fun write hwrite => (hlater.known (hearlier.filled write hwrite)).1
  have hapart' : ∀ write ∈ later, write.1 ∉ earlier.map Prod.fst := by
    intro write hwrite hmem
    obtain ⟨other, hother, heq⟩ := List.mem_map.mp hmem
    exact hapart other hother (heq ▸ List.mem_map_of_mem hwrite)
  constructor
  · rw [List.map_append, List.nodup_append]
    refine ⟨hlater.once, hearlier.once, ?_⟩
    rintro _ hmem number hmem' rfl
    obtain ⟨write, hwrite, rfl⟩ := List.mem_map.mp hmem'
    exact hapart write hwrite hmem
  · intro write hwrite
    rcases List.mem_append.mp hwrite with hwrite | hwrite
    · exact hlater.below write hwrite
    · exact hearlier.below write hwrite
  · intro write hwrite
    rcases List.mem_append.mp hwrite with hwrite | hwrite
    · rw [← hearlier.kept write.1 (hapart' write hwrite)]
      exact hlater.opened write hwrite
    · exact hearlier.opened write hwrite
  · intro write hwrite
    rcases List.mem_append.mp hwrite with hwrite | hwrite
    · exact hlater.filled write hwrite
    · exact (hlater.known (hearlier.filled write hwrite)).2
  · intro number hnot
    rw [List.map_append, List.mem_append, not_or] at hnot
    rw [hlater.kept number hnot.1, hearlier.kept number hnot.2]

/-- One write to an open slot. -/
theorem single {number : Nat} (hopen : before[number]? = some none) (hbound : number < bound)
    (answer : Bool) :
    Fills bound before (before.setIfInBounds number (some answer)) [(number, answer)] := by
  have hsize : number < before.size := (Array.getElem?_eq_some_iff.mp hopen).1
  constructor
  · exact List.pairwise_singleton _ _
  · intro write hwrite
    cases List.mem_singleton.mp hwrite
    exact hbound
  · intro write hwrite
    cases List.mem_singleton.mp hwrite
    exact hopen
  · intro write hwrite
    cases List.mem_singleton.mp hwrite
    exact Array.getElem?_setIfInBounds_self_of_lt hsize
  · intro other hother
    exact Array.getElem?_setIfInBounds_ne fun hsame => hother (by simp [hsame])

end Fills

/-! ### Going along with the matcher -/

variable {links places : Nat}

/-- From every memo, `flat` finds the answer that `run` finds and leaves the slots that `run`
leaves; on the way it fills open slots with numbers below the bound. -/
def Follows (bound : Nat) (flat : Slots → Except Overrun (Bool × Slots))
    (run : Memo links places → Bool × Memo links places) : Prop :=
  ∀ memo writes, ∃ added,
    flat ⟨memo.slots.toArray, writes⟩ =
      .ok ((run memo).1, ⟨(run memo).2.slots.toArray, added ++ writes⟩) ∧
    Fills bound memo.slots.toArray (run memo).2.slots.toArray added

theorem follows_pure (bound : Nat) (answer : Bool) :
    Follows bound (fun slots => .ok (answer, slots))
      (fun memo : Memo links places => (answer, memo)) :=
  fun memo _ => ⟨[], rfl, Fills.refl bound memo.slots.toArray⟩

theorem follows_anyBelow {bound : Nat} {flat : Nat → Slots → Except Overrun (Bool × Slots)}
    {run : Fin places → Memo links places → Bool × Memo links places}
    (hflat : ∀ place, Follows bound (flat place.val) (run place)) (count : Nat)
    (room : count ≤ places) :
    Follows bound (anyBelow flat count) (Memo.anyBelow run count room) := by
  induction count with
  | zero => exact follows_pure bound false
  | succ count ih =>
    intro memo writes
    obtain ⟨added, hrun, hfills⟩ := hflat ⟨count, room⟩ memo writes
    rcases hlast : run ⟨count, room⟩ memo with ⟨answer, between⟩
    rw [hlast] at hrun hfills
    rw [anyBelow, hrun, Memo.anyBelow, hlast]
    cases answer with
    | true => exact ⟨added, rfl, hfills⟩
    | false =>
      obtain ⟨more, hrest, hfills'⟩ := ih (Nat.le_of_lt room) between (added ++ writes)
      exact ⟨more ++ added, by rw [List.append_assoc]; exact hrest, hfills.trans hfills'⟩

theorem getElem?_toArray (memo : Memo links places) (link : Fin links) (place : Fin places) :
    memo.slots.toArray[link.val * places + place.val]? = some (memo.get link place) := by
  have hslot : (Memo.slot link place).val < memo.slots.toArray.size :=
    Nat.lt_of_lt_of_eq (Memo.slot link place).isLt memo.slots.size_toArray.symm
  exact Array.getElem?_eq_getElem hslot

theorem toArray_set (memo : Memo links places) (link : Fin links) (place : Fin places)
    (answer : Bool) :
    (memo.set link place answer).slots.toArray =
      memo.slots.toArray.setIfInBounds (link.val * places + place.val) (some answer) := by
  have hslot : link.val * places + place.val < memo.slots.toArray.size :=
    Nat.lt_of_lt_of_eq (Memo.slot link place).isLt memo.slots.size_toArray.symm
  rw [Array.setIfInBounds, dif_pos hslot]
  rfl

/-- The slot of a question lies behind those of all questions about fewer links, so it is still
open when its own question is settled. -/
theorem follows_consult {flat : Slots → Except Overrun (Bool × Slots)}
    {run : Memo links places → Bool × Memo links places} (link : Fin links) (place : Fin places)
    (hflat : Follows (link.val * places) flat run) :
    Follows ((link.val + 1) * places)
      (fun slots => slots.consult (link.val * places + place.val) flat)
      (fun memo => memo.consult link place run) := by
  intro memo writes
  have hslot := getElem?_toArray memo link place
  have hbound : link.val * places + place.val < (link.val + 1) * places := by
    rw [Nat.succ_mul]
    exact Nat.add_lt_add_left place.isLt _
  simp only [consult, read, hslot, Memo.consult]
  rcases hget : memo.get link place with _ | known
  · obtain ⟨added, hrun, hfills⟩ := hflat memo writes
    rcases hsettle : run memo with ⟨answer, between⟩
    rw [hsettle] at hrun hfills
    have hnew : link.val * places + place.val ∉ added.map Prod.fst := by
      intro hmem
      obtain ⟨write, hwrite, hnumber⟩ := List.mem_map.mp hmem
      have hless := hfills.below write hwrite
      rw [hnumber] at hless
      exact absurd hless (Nat.not_lt.mpr (Nat.le_add_right _ _))
    have hopen : between.slots.toArray[link.val * places + place.val]? = some none := by
      rw [hfills.kept _ hnew, hslot, hget]
    have hsize : link.val * places + place.val < between.slots.toArray.size :=
      (Array.getElem?_eq_some_iff.mp hopen).1
    refine ⟨(link.val * places + place.val, answer) :: added, ?_, ?_⟩
    · simp only [hrun, write, hsize, ↓reduceIte, toArray_set, List.cons_append]
    · rw [toArray_set]
      have hbefore : link.val * places ≤ (link.val + 1) * places :=
        Nat.mul_le_mul_right places (Nat.le_succ link.val)
      exact (hfills.mono hbefore).trans (Fills.single hopen hbound answer)
  · exact ⟨[], rfl, Fills.refl _ _⟩

end Slots

/-- The answer to a question is in its slot afterwards, whether it was there before or not. -/
theorem Memo.get_consult {links places : Nat} (memo : Memo links places) (link : Fin links)
    (place : Fin places) (settle : Memo links places → Bool × Memo links places) :
    (memo.consult link place settle).2.get link place =
      some (memo.consult link place settle).1 := by
  rcases hget : memo.get link place with _ | answer
  · simp [consult, hget, get_set]
  · simp [consult, hget]

/-! ### The first links of a chain -/

namespace Chain

theorem length_leading {count : Nat} (hcount : 0 < count) {chain : Chain}
    (hlength : count ≤ chain.length) : (chain.leading count).length = count := by
  induction chain with
  | single selector => exact Nat.le_antisymm hcount hlength
  | extend left combinator selector ih =>
    by_cases hless : left.length < count
    · rw [leading, if_pos hless]
      exact Nat.le_antisymm hless hlength
    · rw [leading, if_neg hless]
      exact ih (Nat.not_lt.mp hless)

theorem length_leading_le (count : Nat) (chain : Chain) :
    (chain.leading count).length ≤ chain.length := by
  induction chain with
  | single selector => exact Nat.le_refl _
  | extend left combinator selector ih =>
    rw [leading]
    split
    · exact Nat.le_refl _
    · exact Nat.le_succ_of_le ih

theorem links_leading {count : Nat} (hcount : 0 < count) (chain : Chain) :
    (chain.leading count).links = chain.links.take count := by
  induction chain with
  | single selector =>
    rw [leading, List.take_of_length_le hcount]
  | extend left combinator selector ih =>
    by_cases hless : left.length < count
    · have hall : (left.extend combinator selector).links.length ≤ count := by
        rw [length_links]
        exact hless
      rw [leading, if_pos hless, List.take_of_length_le hall]
    · have hinside : count ≤ left.links.length := by
        rw [length_links]
        exact Nat.not_lt.mp hless
      rw [leading, if_neg hless, ih, links, List.take_append_of_le_length hinside]

/-- A link of a leading part has the same number in the whole chain. -/
theorem getElem?_links_of_leading {whole part : Chain} {number : Nat} {link : Link}
    (hleads : whole.leading part.length = part) (hlink : part.links[number]? = some link) :
    whole.links[number]? = some link := by
  have hnumber : number < part.length := lt_length_of_links hlink
  rw [← hleads, links_leading part.length_pos, List.getElem?_take_of_lt hnumber] at hlink
  exact hlink

/-! ### The search by numbers and the matcher -/

/-- On the first links of a chain, the search by numbers does what the matcher does. -/
theorem follows_ask {links : Nat} {whole part : Chain} {path : Array Node}
    (hleads : whole.leading part.length = part) (room : part.length ≤ links)
    (place : Fin path.size) :
    Slots.Follows (part.length * path.size)
      (Slots.ask whole.links.toArray path part.length place.val)
      (part.settle path room place) := by
  have hnode : path[place.val]? = some path[place] := Array.getElem?_eq_getElem place.isLt
  -- the leading part gets shorter; the links are those of the whole chain throughout
  induction part generalizing place with
  | single selector =>
    have hlink : whole.links.toArray[0]? = some ⟨.descendant, selector⟩ := by
      rw [List.getElem?_toArray]
      exact getElem?_links_of_leading hleads rfl
    refine Slots.follows_consult ⟨0, room⟩ place ?_
    simp only [hlink, hnode, ↓reduceIte]
    cases hselects : selector.selects path[place] with
    | true => exact Slots.follows_pure _ true
    | false => exact Slots.follows_pure _ false
  | extend left combinator selector ih =>
    have hlink : whole.links.toArray[left.length]? = some ⟨combinator, selector⟩ := by
      rw [List.getElem?_toArray]
      exact getElem?_links_of_leading hleads (links_extend_length left combinator selector)
    have hmany : ¬left.length = 0 := Nat.ne_of_gt left.length_pos
    have hleft := fun above : Fin path.size =>
      ih (leading_of_extend hleads) (Nat.le_of_succ_le room) above
        (Array.getElem?_eq_getElem above.isLt)
    refine Slots.follows_consult ⟨left.length, room⟩ place ?_
    simp only [hlink, hnode, hmany, ↓reduceIte]
    cases hselects : selector.selects path[place] with
    | false => exact Slots.follows_pure _ false
    | true =>
      cases combinator with
      | child =>
        rcases place with ⟨_ | parent, bound⟩
        · exact Slots.follows_pure _ false
        · exact hleft ⟨parent, Nat.lt_of_succ_lt bound⟩
      | descendant =>
        exact Slots.follows_anyBelow hleft place.val (Nat.le_of_lt place.isLt)

/-- Whatever was remembered before, the answer to a question is remembered afterwards. -/
theorem get_settle {links : Nat} (part : Chain) {path : Array Node} (room : part.length ≤ links)
    (place : Fin path.size) (memo : Memo links path.size) {link : Fin links}
    (hlink : link.val + 1 = part.length) :
    (part.settle path room place memo).2.get link place =
      some (part.settle path room place memo).1 := by
  cases part with
  | single selector =>
    obtain rfl : link = ⟨0, room⟩ := Fin.ext (Nat.succ.inj hlink)
    exact Memo.get_consult memo ⟨0, room⟩ place _
  | extend left combinator selector =>
    obtain rfl : link = ⟨left.length, room⟩ := Fin.ext (Nat.succ.inj hlink)
    exact Memo.get_consult memo ⟨left.length, room⟩ place _

/-! ### What the questions are about -/

/-- The first `count` links fit with the last of them on the node at `place`: they can be put on
the nodes from the root down to that one. -/
def EndsAt (chain : Chain) (path : Path) (count place : Nat) : Prop :=
  Nonempty ((chain.leading count).Embedding (path.take (place + 1)))

variable {chain : Chain} {path : Path}

theorem nonempty_embedding_iff_fitsAt {last : Fin path.length}
    (hlast : last.val + 1 = path.length) :
    Nonempty (chain.Embedding path) ↔ chain.FitsAt path.toArray last := by
  rw [fitsAt_iff_row]
  constructor
  · rintro ⟨embedding⟩
    obtain ⟨place, hrow, hend⟩ := embedding.exists_row
    exact ⟨place, hrow, Fin.ext (Nat.succ.inj (hend.trans hlast.symm))⟩
  · rintro ⟨place, hrow, rfl⟩
    exact hrow.nonempty_embedding hlast

/-- Nodes below the one for the last link do not matter. -/
theorem fitsAt_take {size place : Nat} (hplace : place < path.length)
    (hplace' : place < (path.take size).length) :
    chain.FitsAt (path.take size).toArray ⟨place, hplace'⟩ ↔
      chain.FitsAt path.toArray ⟨place, hplace⟩ := by
  have hnode : ∀ (above : Nat) (habove : above < path.length)
      (habove' : above < (path.take size).length),
      (path.take size).toArray[above] = path.toArray[above] := by
    intro above habove habove'
    simp
  induction chain generalizing place with
  | single selector =>
    simp only [FitsAt, Fin.getElem_fin, hnode place hplace hplace']
  | extend left combinator selector ih =>
    simp only [FitsAt, Fin.getElem_fin, hnode place hplace hplace']
    refine and_congr_right fun _ => ⟨?_, ?_⟩
    · rintro ⟨⟨above, habove'⟩, hreaches, hfits⟩
      have habove : above < path.length := Nat.lt_trans hreaches.lt hplace
      exact ⟨⟨above, habove⟩, hreaches, (ih habove habove').mp hfits⟩
    · rintro ⟨⟨above, habove⟩, hreaches, hfits⟩
      have habove' : above < (path.take size).length := Nat.lt_trans hreaches.lt hplace'
      exact ⟨⟨above, habove'⟩, hreaches, (ih habove habove').mpr hfits⟩

/-- What the matcher is asked, told without the matcher. -/
theorem endsAt_iff_fitsAt {count : Nat} (place : Fin path.length) :
    chain.EndsAt path count place.val ↔ (chain.leading count).FitsAt path.toArray place := by
  have hlength : place.val + 1 = (path.take (place.val + 1)).length :=
    (List.length_take_of_le place.isLt).symm
  have hplace' : place.val < (path.take (place.val + 1)).length :=
    Nat.lt_of_succ_le (Nat.le_of_eq hlength)
  exact (@nonempty_embedding_iff_fitsAt _ _ ⟨place.val, hplace'⟩ hlength).trans
    (fitsAt_take place.isLt hplace')

end Chain

namespace Memo

/-- Every filled slot holds the truth about its question. -/
def Right {links : Nat} (chain : Chain) (path : Path) (memo : Memo links path.length) : Prop :=
  ∀ link place answer, memo.get link place = some answer →
    (answer = true ↔ chain.EndsAt path (link.val + 1) place.val)

theorem right_iff_truthful {links : Nat} {chain : Chain} {path : Path}
    {memo : Memo links path.length} :
    memo.Right chain path ↔ @Truthful links chain path.toArray memo := by
  simp only [Right, Truthful, Chain.endsAt_iff_fitsAt]
  exact Iff.rfl

end Memo

namespace Chain

/-- **A question settles each slot at most once.** From every memo whose filled slots are right, a
question about the first `count` links and the node at `place` goes through without a number for
which there is no slot, link or node, just as the matcher settles it. The answer is the truth, and
so is what is remembered afterwards. No slot is written to twice, and none that was filled before;
what is written is what is new, and the slot of the question itself is filled with the answer. -/
theorem settles_each_slot_once (chain : Chain) (path : Path)
    (memo : Memo chain.length path.length) (hmemo : memo.Right chain path) (count place : Nat)
    (hcount : 0 < count) (hlength : count ≤ chain.length) (hplace : place < path.length) :
    ∃ (answer : Bool) (after : Memo chain.length path.length) (writes : List (Nat × Bool)),
      Slots.ask chain.links.toArray path.toArray count place ⟨memo.slots.toArray, []⟩ =
        .ok (answer, ⟨after.slots.toArray, writes⟩) ∧
      (chain.leading count).settle path.toArray (length_leading_le count chain) ⟨place, hplace⟩
        memo = (answer, after) ∧
      (answer = true ↔ chain.EndsAt path count place) ∧
      after.Right chain path ∧
      (writes.map Prod.fst).Nodup ∧
      (∀ number known, memo.slots.toArray[number]? = some (some known) →
        number ∉ writes.map Prod.fst ∧ after.slots.toArray[number]? = some (some known)) ∧
      (∀ number found, (number, found) ∈ writes ↔
        memo.slots.toArray[number]? = some none ∧
          after.slots.toArray[number]? = some (some found)) ∧
      after.slots.toArray[(count - 1) * path.length + place]? = some (some answer) := by
  have hpart := length_leading hcount hlength
  have hleads : chain.leading (chain.leading count).length = chain.leading count := by rw [hpart]
  have hlast : count - 1 + 1 = count := Nat.sub_add_cancel hcount
  have hlink : count - 1 < chain.length := Nat.lt_of_succ_le (hlast ▸ hlength)
  obtain ⟨writes, hask, hfills⟩ :=
    follows_ask hleads (length_leading_le count chain) ⟨place, hplace⟩ memo []
  rw [hpart, List.append_nil] at hask
  obtain ⟨htruth, hafter⟩ := decides_settle hleads (length_leading_le count chain) ⟨place, hplace⟩
    memo (Memo.right_iff_truthful.mp hmemo)
  refine ⟨_, _, writes, hask, rfl, ?_, Memo.right_iff_truthful.mpr hafter, hfills.once, ?_, ?_, ?_⟩
  · exact htruth.trans (endsAt_iff_fitsAt ⟨place, hplace⟩).symm
  · exact fun number known hknown => hfills.known hknown
  · exact fun number found => hfills.mem_iff
  · rw [Slots.getElem?_toArray _ ⟨count - 1, hlink⟩ ⟨place, hplace⟩]
    exact congrArg some (get_settle _ _ _ _ (hlast.trans hpart.symm))

/-- The nearest ancestor is known not to fit, so the search goes on to the one above it. -/
theorem settles_each_slot_once_of_known_answer :
    ∃ (chain : Chain) (path : Path) (memo : Memo chain.length path.length),
      memo.slots.toArray = #[none, some false, none, none, none, none] ∧ memo.Right chain path ∧
      Slots.ask chain.links.toArray path.toArray 2 2 ⟨memo.slots.toArray, []⟩ =
        .ok (true, ⟨#[some true, some false, none, none, none, some true],
          [(5, true), (0, true)]⟩) ∧
      chain.EndsAt path 2 2 ∧
      ∀ number found, (number, found) ∈ [(5, true), (0, true)] →
        memo.slots.toArray[number]? = some none := by
  let chain : Chain := .extend (.single ⟨some "div", none, none⟩) .descendant ⟨some "a", none, none⟩
  let path : Path := [⟨"div", none, none⟩, ⟨"p", none, none⟩, ⟨"a", none, none⟩]
  let memo : Memo chain.length path.length := (Memo.empty 2 3).set 0 1 false
  have hother : SimpleSelector.selects ⟨some "div", none, none⟩ ⟨"p", none, none⟩ = false := by
    decide
  have hno : ¬(chain.leading 1).FitsAt path.toArray ⟨1, by decide⟩ := Bool.eq_false_iff.mp hother
  have hright : memo.Right chain path :=
    Memo.right_iff_truthful.mpr (Memo.truthful_empty.set (iff_of_false Bool.false_ne_true hno))
  have hrun : Slots.ask chain.links.toArray path.toArray 2 2 ⟨memo.slots.toArray, []⟩ =
      .ok (true, ⟨#[some true, some false, none, none, none, some true],
        [(5, true), (0, true)]⟩) := by
    rfl
  obtain ⟨answer, after, writes, hask, -, htruth, -, -, -, hnew, -⟩ :=
    settles_each_slot_once chain path memo hright 2 2 (by decide) (by decide) (by decide)
  rw [hrun] at hask
  simp only [Except.ok.injEq, Prod.mk.injEq, Slots.mk.injEq] at hask
  obtain ⟨rfl, -, rfl⟩ := hask
  refine ⟨chain, path, memo, rfl, hright, hrun, htruth.mp rfl, ?_⟩
  exact fun number found hmem => ((hnew number found).mp hmem).1

end Chain

end WidgetStyle
