/-!
# Hole lists

The ranges of a datagram that have not arrived yet, as a doubly linked list
in an arena of slots. Slots of holes that were filled are kept for the next
holes, the latest first.
-/

namespace MulticastTunnel.Reassembly

/-- A missing range, both ends included, and its neighbours in the list. -/
structure Hole where
  first : Nat
  last : Nat
  prev : Option Nat
  next : Option Nat
deriving DecidableEq, Repr

/-- The end of a range that no known end bounds. -/
def boundless : Nat := 18446744073709551615

structure HoleList where
  slots : List Hole
  free : List Nat
  head : Option Nat
deriving DecidableEq, Repr

namespace HoleList

def isEmpty (l : HoleList) : Bool := l.head.isNone

/-- The list with the slot at `i` changed by `f`. -/
def modify (l : HoleList) (i : Nat) (f : Hole → Hole) : HoleList :=
  { l with slots := l.slots.modify i f }

/-- Makes `next` what follows `prev`, or the head of the list. -/
def linkForward (l : HoleList) (prev next : Option Nat) : HoleList :=
  match prev with
  | some p => l.modify p fun h => { h with next }
  | none => { l with head := next }

/-- Makes `prev` what comes before `next`, if there is such a hole. -/
def linkBack (l : HoleList) (prev next : Option Nat) : HoleList :=
  match next with
  | some n => l.modify n fun h => { h with prev }
  | none => l

/-- The hole that follows `prev`, or the head. -/
def following (l : HoleList) : Option Nat → Option Nat
  | some p => l.slots[p]?.bind (·.next)
  | none => l.head

/-- Links a new hole behind `prev`, or at the head; also tells its slot. -/
def insertAfter (l : HoleList) (prev : Option Nat) (first last : Nat) : Nat × HoleList :=
  let next := l.following prev
  let hole : Hole := ⟨first, last, prev, next⟩
  let (i, l) := match l.free with
    | i :: free => (i, { l with slots := l.slots.set i hole, free })
    | [] => (l.slots.length, { l with slots := l.slots ++ [hole] })
  (i, (l.linkForward prev (some i)).linkBack (some i) next)

/-- Takes the hole in slot `i` out of the list and frees the slot. -/
def unlink (l : HoleList) (i : Nat) (hole : Hole) : HoleList :=
  let l := (l.linkForward hole.prev hole.next).linkBack hole.prev hole.next
  { l with free := i :: l.free }

/-- One hole over everything. -/
def fresh : HoleList := (HoleList.insertAfter ⟨[], [], none⟩ none 0 boundless).2

/-- Cuts the range from `first` to `last` out of the hole in slot `i`. What is
left behind the range is kept only while more of the datagram follows. -/
def cut (l : HoleList) (first last : Nat) (more : Bool) (i : Nat) (hole : Hole) : HoleList :=
  if hole.last < first ∨ last < hole.first then l
  else
    let l := l.unlink i hole
    let (anchor, l) :=
      if hole.first < first then
        let (j, l) := l.insertAfter hole.prev hole.first (first - 1)
        (some j, l)
      else (hole.prev, l)
    if last < hole.last ∧ more then (l.insertAfter anchor (last + 1) hole.last).2 else l

/-- Cuts a range out of the holes from slot `cursor` on, at most `n` of them. -/
def fillFrom (first last : Nat) (more : Bool) :
    (n : Nat) → (cursor : Option Nat) → HoleList → HoleList
  | n + 1, some i, l =>
    match l.slots[i]? with
    | some hole => fillFrom first last more n hole.next (l.cut first last more i hole)
    | none => l
  | _, _, l => l

/-- Accounts for data from `first` to `last`. The holes of a list are in
distinct slots, so there are no more of them than slots. -/
def fill (l : HoleList) (first last : Nat) (more : Bool) : HoleList :=
  fillFrom first last more l.slots.length l.head l

end HoleList

end MulticastTunnel.Reassembly
