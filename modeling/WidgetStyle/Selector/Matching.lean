import WidgetStyle.Selector

/-!
# Matching chains against paths

A chain selects the last node of a path when its selectors can be put on nodes of the path from
left to right, the last one on the last node, and each selector behind a child combinator directly
below its left neighbour. The search goes from right to left and tries the nearest ancestor first.
Each question "do these leading selectors fit with the last of them on this node" is answered once
and remembered, so that the number of questions is bounded by selectors times nodes.
-/

namespace WidgetStyle

/-- The answers found so far, one for each number of leading selectors and each node. -/
structure Memo (links places : Nat) where
  slots : Vector (Option Bool) (links * places)

namespace Memo

variable {links places : Nat}

def empty (links places : Nat) : Memo links places :=
  ⟨Vector.replicate (links * places) none⟩

def slot (link : Fin links) (place : Fin places) : Fin (links * places) :=
  ⟨link.val * places + place.val, by
    have step : (link.val + 1) * places ≤ links * places := Nat.mul_le_mul_right _ link.isLt
    have bound := place.isLt
    rw [Nat.add_mul, Nat.one_mul] at step
    omega⟩

def get (memo : Memo links places) (link : Fin links) (place : Fin places) : Option Bool :=
  memo.slots[slot link place]

def set (memo : Memo links places) (link : Fin links) (place : Fin places) (answer : Bool) :
    Memo links places :=
  ⟨memo.slots.set (slot link place) (some answer)⟩

/-- The remembered answer, or else the one that `settle` finds, which is then remembered. -/
def consult (memo : Memo links places) (link : Fin links) (place : Fin places)
    (settle : Memo links places → Bool × Memo links places) : Bool × Memo links places :=
  match memo.get link place with
  | some answer => (answer, memo)
  | none =>
    match settle memo with
    | (answer, memo) => (answer, memo.set link place answer)

/-- Whether one of the first `count` places has the answer yes; the last of them is asked first,
and the first yes ends the search. -/
def anyBelow (ask : Fin places → Memo links places → Bool × Memo links places) :
    (count : Nat) → count ≤ places → Memo links places → Bool × Memo links places
  | 0, _, memo => (false, memo)
  | count + 1, bound, memo =>
    match ask ⟨count, bound⟩ memo with
    | (true, memo) => (true, memo)
    | (false, memo) => anyBelow ask count (Nat.le_of_lt bound) memo

end Memo

namespace Chain

/-- Whether the chain fits with its last selector on the node at `place`. -/
def settle {links : Nat} (path : Array Node) :
    (chain : Chain) → chain.length ≤ links → Fin path.size → Memo links path.size →
      Bool × Memo links path.size
  | single selector, room, place, memo =>
    memo.consult ⟨0, room⟩ place fun memo => (selector.selects path[place], memo)
  | extend left combinator selector, room, place, memo =>
    memo.consult ⟨left.length, room⟩ place fun memo =>
      if selector.selects path[place] then
        match combinator with
        | .child =>
          match place with
          | ⟨0, _⟩ => (false, memo)
          | ⟨parent + 1, bound⟩ =>
            left.settle path (Nat.le_of_succ_le room) ⟨parent, Nat.lt_of_succ_lt bound⟩ memo
        | .descendant =>
          Memo.anyBelow (left.settle path (Nat.le_of_succ_le room)) place.val
            (Nat.le_of_lt place.isLt) memo
      else (false, memo)

/-- Whether the chain selects the last node of the path. Nothing is selected by an empty path, and
a chain of one selector asks the last node alone. -/
def selects (chain : Chain) (path : Path) : Bool :=
  if inside : path.toArray.size - 1 < path.toArray.size then
    match chain with
    | single selector => selector.selects path.toArray[path.toArray.size - 1]
    | chain => (chain.settle path.toArray (Nat.le_refl chain.length) ⟨_, inside⟩ (.empty _ _)).1
  else false

end Chain

end WidgetStyle
