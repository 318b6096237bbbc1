import WidgetStyle.Proofs.Offsets

/-!
# Paired parentheses

Two parentheses of a text are partners if all parentheses between them are paired among themselves
(`Partners`). A text in which all are paired can be split off the front of another one
(`Balanced.split`), so whether an opening parenthesis has a partner is told by the next parenthesis
that is not paired behind it (`Balanced.exists_partners_iff`), and a closing one has none behind a
text with paired parentheses (`Balanced.not_partners`). In a text that has been read in part some
parentheses are open (`Pending`).
-/

namespace WidgetStyle.Formula

open Text (append_inj_of_byteLength byteLength)

/-! ### Paired parentheses -/

/-- All parentheses of the text are paired in it. -/
inductive Balanced : List Char → Prop
  | nil : Balanced []
  | other {c : Char} {cs : List Char} (hopening : c ≠ '(') (hclosing : c ≠ ')')
      (hrest : Balanced cs) : Balanced (c :: cs)
  | group {inside rest : List Char} (hinside : Balanced inside) (hrest : Balanced rest) :
      Balanced ('(' :: (inside ++ ')' :: rest))

/-- The parentheses at the two offsets of the text are partners. -/
def Partners (text : List Char) (opening closing : Nat) : Prop :=
  ∃ front inside back, text = front ++ '(' :: (inside ++ ')' :: back) ∧ Balanced inside ∧
    byteLength front = opening ∧ byteLength (front ++ '(' :: inside) = closing

theorem Balanced.append {front back : List Char} (hfront : Balanced front)
    (hback : Balanced back) : Balanced (front ++ back) := by
  induction hfront with
  | nil => exact hback
  | other hopening hclosing hrest ih => exact .other hopening hclosing ih
  | group hinside hrest _ ih =>
    rw [List.cons_append, List.append_assoc]
    exact .group hinside ih

theorem Balanced.of_others {text : List Char} (hothers : ∀ c ∈ text, c ≠ '(' ∧ c ≠ ')') :
    Balanced text := by
  induction text with
  | nil => exact .nil
  | cons c text ih =>
    obtain ⟨⟨hopening, hclosing⟩, hrest⟩ := List.forall_mem_cons.mp hothers
    exact .other hopening hclosing (ih hrest)

theorem Balanced.head_ne {c : Char} {cs : List Char} (hbalanced : Balanced (c :: cs)) :
    c ≠ ')' := by
  cases hbalanced with
  | other hopening hclosing hrest => exact hclosing
  | group hinside hrest => decide

/-- Up to a closing parenthesis that is not among its own, a text with paired parentheses starts
with each of its fronts in which they are paired, and they are paired in what is left of it. -/
theorem Balanced.split {inside inside' stop back : List Char} (hinside : Balanced inside)
    (hinside' : Balanced inside') (hall : inside ++ stop = inside' ++ ')' :: back) :
    ∃ more, inside' = inside ++ more ∧ Balanced more ∧ stop = more ++ ')' :: back := by
  induction hinside generalizing inside' stop back with
  | nil => exact ⟨inside', rfl, hinside', hall⟩
  | @other c cs hopening hclosing hrest ih =>
    cases hinside' with
    | nil => exact absurd (List.cons.inj hall).1 hclosing
    | other hopening' hclosing' hrest' =>
      obtain ⟨rfl, htail⟩ := List.cons.inj hall
      obtain ⟨more, rfl, hmore, hstop⟩ := ih hrest' htail
      exact ⟨more, rfl, hmore, hstop⟩
    | group hgroup hrest' => exact absurd (List.cons.inj hall).1 hopening
  | @group group rest hgroup hrest ihgroup ihrest =>
    cases hinside' with
    | nil => exact absurd (List.cons.inj hall).1 (by decide)
    | other hopening' hclosing' hrest' => exact absurd (List.cons.inj hall).1.symm hopening'
    | @group group' rest' hgroup' hrest' =>
      have htail : group ++ ')' :: (rest ++ stop) = group' ++ ')' :: (rest' ++ ')' :: back) := by
        simpa using hall
      obtain ⟨more, rfl, hmore, hbehind⟩ := ihgroup hgroup' htail
      -- both groups end at the first closing parenthesis that is not their own
      cases more with
      | cons c more =>
        obtain ⟨rfl, -⟩ := List.cons.inj hbehind
        exact absurd rfl hmore.head_ne
      | nil =>
        obtain ⟨more, rfl, hmore, hstop⟩ := ihrest hrest' (List.cons.inj hbehind).2
        exact ⟨more, by simp, hmore, hstop⟩

/-- How many parentheses wait for a partner behind a text, when some do in front of it; nothing if
one is closed where none waits. -/
def depthBehind : Nat → List Char → Option Nat
  | depth, [] => some depth
  | depth, c :: cs =>
    if c = '(' then depthBehind (depth + 1) cs
    else if c = ')' then
      if depth = 0 then none else depthBehind (depth - 1) cs
    else depthBehind depth cs

theorem depthBehind_append (depth : Nat) (front back : List Char) :
    depthBehind depth (front ++ back) =
      (depthBehind depth front).bind fun depth => depthBehind depth back := by
  induction front generalizing depth with
  | nil => rfl
  | cons c front ih =>
    simp only [List.cons_append, depthBehind, ih]
    split
    · rfl
    · split
      · split
        · rfl
        · rfl
      · rfl

theorem Balanced.depthBehind_eq {text : List Char} (hbalanced : Balanced text) (depth : Nat) :
    depthBehind depth text = some depth := by
  induction hbalanced generalizing depth with
  | nil => rfl
  | other hopening hclosing hrest ih => rw [depthBehind, if_neg hopening, if_neg hclosing, ih]
  | group hinside hrest ihinside ihrest =>
    rw [depthBehind, if_pos rfl, depthBehind_append, ihinside, Option.bind_some, depthBehind,
      if_neg (by decide), if_pos rfl, if_neg depth.succ_ne_zero, Nat.add_sub_cancel, ihrest]

/-- Behind a text with paired parentheses, a closing one has no partner. -/
theorem Balanced.not_partners {front : List Char} (hfront : Balanced front) (back : List Char)
    (opening : Nat) : ¬ Partners (front ++ ')' :: back) opening (byteLength front) := by
  rintro ⟨outer, inside, rest, hall, hinside, -, hclosing⟩
  have hall' : front ++ ')' :: back = (outer ++ '(' :: inside) ++ ')' :: rest := by
    simpa using hall
  obtain ⟨rfl, -⟩ := append_inj_of_byteLength hall' hclosing.symm
  have hdepth := hfront.depthBehind_eq 0
  rw [depthBehind_append] at hdepth
  obtain ⟨depth, -, hdepth⟩ := Option.bind_eq_some_iff.mp hdepth
  rw [depthBehind, if_pos rfl, hinside.depthBehind_eq, Option.some.injEq] at hdepth
  exact absurd hdepth (Nat.succ_ne_zero depth)

/-- With paired parentheses behind it, an opening one has a partner exactly if the next parenthesis
that is not paired in what follows is a closing one. -/
theorem Balanced.exists_partners_iff {front inside stop : List Char} (hinside : Balanced inside) :
    (∃ closing, Partners (front ++ '(' :: (inside ++ stop)) (byteLength front) closing) ↔
      ∃ more back, stop = more ++ ')' :: back ∧ Balanced more := by
  constructor
  · rintro ⟨closing, front', inside', back, hall, hinside', hopening, -⟩
    obtain ⟨rfl, hbehind⟩ := append_inj_of_byteLength hall hopening.symm
    obtain ⟨more, -, hmore, hstop⟩ := hinside.split hinside' (List.cons.inj hbehind).2
    exact ⟨more, back, hstop, hmore⟩
  · rintro ⟨more, back, rfl, hmore⟩
    exact ⟨_, front, inside ++ more, back, by simp, hinside.append hmore, rfl, rfl⟩

/-! ### Open parentheses -/

/-- All parentheses of the text are paired but opening ones at these offsets, the last one
first. -/
inductive Pending : List Char → List Nat → Prop
  | nil {text : List Char} (hbalanced : Balanced text) : Pending text []
  | cons {front inside : List Char} {openings : List Nat} (hfront : Pending front openings)
      (hinside : Balanced inside) :
      Pending (front ++ '(' :: inside) (byteLength front :: openings)

theorem Pending.append {text more : List Char} {openings : List Nat}
    (hpending : Pending text openings) (hmore : Balanced more) :
    Pending (text ++ more) openings := by
  cases hpending with
  | nil hbalanced => exact .nil (hbalanced.append hmore)
  | cons hfront hinside =>
    rw [List.append_assoc, List.cons_append]
    exact .cons hfront (hinside.append hmore)

theorem Pending.close {text : List Char} {opening : Nat} {openings : List Nat}
    (hpending : Pending text (opening :: openings)) : Pending (text ++ [')']) openings := by
  cases hpending with
  | cons hfront hinside =>
    rw [List.append_assoc, List.cons_append]
    exact hfront.append (.group hinside .nil)

/-- The last parenthesis that is open, before something that may start a term. -/
theorem Pending.exists_opening {text : List Char} {openings : List Nat} {offset : Nat}
    (hpending : Pending text openings) (hhead : openings.head? = some offset) (stop : List Char) :
    ∃ front inside, text ++ stop = front ++ '(' :: (inside ++ stop) ∧
      byteLength front = offset ∧ Balanced inside := by
  cases hpending with
  | nil hbalanced => cases hhead
  | @cons front inside openings hfront hinside =>
    exact ⟨front, inside, by simp, Option.some.inj hhead, hinside⟩

end WidgetStyle.Formula
