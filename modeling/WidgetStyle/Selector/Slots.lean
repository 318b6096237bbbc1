import WidgetStyle.Selector.Matching

/-!
# Matching by numbers

The same search, where slots, links and nodes are known by their numbers. A number for which there
is none halts the search, and so does the question about no links at all. The writes to the slots
are noted down, the last one first.
-/

namespace WidgetStyle

/-- Why a search halts without an answer. -/
inductive Overrun where
  | slot (number : Nat)
  | link (number : Nat)
  | node (number : Nat)
  | noLinks
deriving DecidableEq, Repr

/-- The answers found so far, and what was written on the way. -/
structure Slots where
  answers : Array (Option Bool)
  writes : List (Nat × Bool)
deriving DecidableEq, Repr

namespace Slots

def read (slots : Slots) (number : Nat) : Except Overrun (Option Bool) :=
  match slots.answers[number]? with
  | some answer => .ok answer
  | none => .error (.slot number)

def write (slots : Slots) (number : Nat) (answer : Bool) : Except Overrun Slots :=
  if number < slots.answers.size then
    .ok ⟨slots.answers.setIfInBounds number (some answer), (number, answer) :: slots.writes⟩
  else .error (.slot number)

/-- The answer in a slot, or else the one that `settle` finds, which is then written there. -/
def consult (slots : Slots) (number : Nat) (settle : Slots → Except Overrun (Bool × Slots)) :
    Except Overrun (Bool × Slots) :=
  match slots.read number with
  | .error halt => .error halt
  | .ok (some answer) => .ok (answer, slots)
  | .ok none =>
    match settle slots with
    | .error halt => .error halt
    | .ok (answer, slots) =>
      match slots.write number answer with
      | .error halt => .error halt
      | .ok slots => .ok (answer, slots)

/-- Whether one of the first `count` places has the answer yes; the last of them is asked first,
and the first yes ends the search. -/
def anyBelow (ask : Nat → Slots → Except Overrun (Bool × Slots)) :
    (count : Nat) → Slots → Except Overrun (Bool × Slots)
  | 0, slots => .ok (false, slots)
  | count + 1, slots =>
    match ask count slots with
    | .error halt => .error halt
    | .ok (true, slots) => .ok (true, slots)
    | .ok (false, slots) => anyBelow ask count slots

/-- Whether the first `count` links fit with the last of them on the node at `place`. -/
def ask (links : Array Link) (path : Array Node) :
    (count place : Nat) → Slots → Except Overrun (Bool × Slots)
  | 0, _, _ => .error .noLinks
  | count + 1, place, slots =>
    slots.consult (count * path.size + place) fun slots =>
      match links[count]? with
      | none => .error (.link count)
      | some link =>
        match path[place]? with
        | none => .error (.node place)
        | some node =>
          if link.selector.selects node then
            if count = 0 then .ok (true, slots)
            else
              match link.combinator, place with
              | .child, 0 => .ok (false, slots)
              | .child, above + 1 => ask links path count above slots
              | .descendant, place => anyBelow (ask links path count) place slots
          else .ok (false, slots)

end Slots

end WidgetStyle
