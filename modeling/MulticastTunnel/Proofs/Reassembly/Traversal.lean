import MulticastTunnel.Packet
import MulticastTunnel.Proofs.Reassembly.Missing

/-!
# Walks along hole lists

What the links of a hole list say, slot by slot, whatever data it was filled
with: a walk from the head comes by each hole once and ends, a walk back takes
the same way, and all other slots are free. Filling is a walk too, along a list
that changes under it. `Stage` tells how far such a walk has come. At every
stage the holes that are left to visit are holes of the beginning, as they were
and where they were, and what was put in stands before them.
-/

namespace MulticastTunnel.Reassembly

/-- A range of data that a datagram can have, both ends included. -/
structure Piece where
  first : Nat
  last : Nat
  /-- Whether more of the datagram follows. -/
  more : Bool
  ordered : first ≤ last
  small : last < maxDatagramLength

namespace HoleList

variable {l l' : HoleList} {as bs xs seen : List Link} {x y : Link} {i j : Nat}
  {cursor : Option Nat} {p : Piece}

/-- What is left of a fresh list once all this was filled in. -/
def fillAll (pieces : List Piece) : HoleList :=
  pieces.foldl (fun l p => l.fill p.first p.last p.more) fresh

def next? (l : HoleList) (i : Nat) : Option Nat := l.slots[i]?.bind (·.next)

def prev? (l : HoleList) (i : Nat) : Option Nat := l.slots[i]?.bind (·.prev)

/-! ## Walks -/

/-- Following `next` from the cursor visits these holes and comes to an end. -/
inductive Walk (l : HoleList) : Option Nat → List Link → Prop
  | done : Walk l none []
  | visit {i : Nat} {hole : Hole} {xs : List Link} : l.slots[i]? = some hole →
      Walk l hole.next xs → Walk l (some i) (⟨i, ⟨hole.first, hole.last⟩⟩ :: xs)

/-- The links of the list lead along these holes, and no slot is lost. -/
structure Linked (l : HoleList) (xs : List Link) : Prop where
  walk : Walk l l.head xs
  nodup : (slotsOf xs).Nodup
  forth : ∀ i ∈ slotsOf xs, ∀ j, l.next? i = some j → j ∈ slotsOf xs ∧ l.prev? j = some i
  back : ∀ j ∈ slotsOf xs, ∀ i, l.prev? j = some i → i ∈ slotsOf xs ∧ l.next? i = some j
  front : ∀ i ∈ slotsOf xs, l.prev? i = none ↔ l.head = some i
  freeNodup : l.free.Nodup
  disjoint : ∀ i ∈ slotsOf xs, i ∉ l.free
  covered : ∀ i, i < l.slots.length ↔ i ∈ slotsOf xs ∨ i ∈ l.free

theorem Segment.walk {prev : Option Nat} (h : Segment l.slots prev xs none) :
    Walk l (entry xs none) xs := by
  induction xs generalizing prev with
  | nil => exact .done
  | cons x xs ih => exact .visit h.1 (ih h.2)

theorem Represents.next?_eq (h : Represents l (as ++ x :: bs)) :
    l.next? x.slot = entry bs none := by
  rw [next?, h.lookup]
  rfl

theorem Represents.prev?_eq (h : Represents l (as ++ x :: bs)) :
    l.prev? x.slot = exit none as := by
  rw [prev?, h.lookup]
  rfl

/-- Two holes in a row lead to each other. -/
theorem Represents.neighbours (h : Represents l (as ++ x :: y :: bs)) :
    l.next? x.slot = some y.slot ∧ l.prev? y.slot = some x.slot := by
  have hsplit : as ++ x :: y :: bs = (as ++ [x]) ++ y :: bs := (List.append_assoc as [x] _).symm
  exact ⟨h.next?_eq, (hsplit ▸ h).prev?_eq.trans exit_concat⟩

theorem exists_split_of_slot (hi : i ∈ slotsOf xs) :
    ∃ as x bs, xs = as ++ x :: bs ∧ x.slot = i := by
  obtain ⟨x, hx, rfl⟩ := List.mem_map.mp hi
  obtain ⟨as, bs, rfl⟩ := List.append_of_mem hx
  exact ⟨as, x, bs, rfl, rfl⟩

theorem slot_mem (as bs : List Link) (x : Link) : x.slot ∈ slotsOf (as ++ x :: bs) :=
  List.mem_map_of_mem (List.mem_append_right _ List.mem_cons_self)

/-- A hole comes first when nothing leads back from it. -/
theorem Represents.prev?_eq_none_iff (h : Represents l (as ++ x :: bs)) :
    l.prev? x.slot = none ↔ l.head = some x.slot := by
  rw [h.prev?_eq, h.head]
  cases as with
  | nil => simp [exit]
  | cons a as =>
    have hne : a.slot ≠ x.slot := by
      have hnodup := (List.nodup_append.mp h.nodup).1
      rw [List.cons_append, slotsOf_cons, List.nodup_cons] at hnodup
      exact fun heq => hnodup.1 (heq ▸ slot_mem as bs x)
    have hsome : exit none (a :: as) ≠ none := by
      rcases List.eq_nil_or_concat (a :: as) with hnil | ⟨init, y, heq⟩
      · cases hnil
      · rw [heq, List.concat_eq_append, exit_concat]
        exact Option.some_ne_none _
    simp [hsome, hne]

theorem linked_of_represents (h : Represents l xs) : Linked l xs where
  walk := h.head ▸ h.linked.walk
  nodup := (List.nodup_append.mp h.nodup).1
  forth i hi j hj := by
    obtain ⟨as, x, bs, rfl, rfl⟩ := exists_split_of_slot hi
    rw [h.next?_eq] at hj
    cases bs with
    | nil => cases hj
    | cons y bs =>
      obtain rfl : y.slot = j := Option.some.inj hj
      have hmem := slot_mem (as ++ [x]) bs y
      rw [List.append_assoc] at hmem
      exact ⟨hmem, h.neighbours.2⟩
  back j hj i hi := by
    obtain ⟨as, x, bs, rfl, rfl⟩ := exists_split_of_slot hj
    rw [h.prev?_eq] at hi
    rcases List.eq_nil_or_concat as with rfl | ⟨init, y, rfl⟩
    · cases hi
    · rw [List.concat_eq_append] at h hi ⊢
      rw [exit_concat] at hi
      obtain rfl : y.slot = i := Option.some.inj hi
      rw [List.append_assoc] at h ⊢
      exact ⟨slot_mem init (x :: bs) y, h.neighbours.1⟩
  front i hi := by
    obtain ⟨as, x, bs, rfl, rfl⟩ := exists_split_of_slot hi
    exact h.prev?_eq_none_iff
  freeNodup := (List.nodup_append.mp h.nodup).2.1
  disjoint i hi hf := (List.nodup_append.mp h.nodup).2.2 i hi i hf rfl
  covered i := by rw [← List.mem_range, ← h.slots.mem_iff, List.mem_append]

/-! ## The walk of filling -/

/-- How far filling has come: the holes that were visited, the cursor, and the
list as it is by then. -/
inductive Stage (p : Piece) (l : HoleList) : List Link → Option Nat → HoleList → Prop
  | start : Stage p l [] l.head l
  | visit {seen : List Link} {i : Nat} {l' : HoleList} {hole : Hole} :
      Stage p l seen (some i) l' → l'.slots[i]? = some hole →
      Stage p l (seen ++ [⟨i, ⟨hole.first, hole.last⟩⟩]) hole.next
        (l'.cut p.first p.last p.more i hole)

/-- At every stage, holes of the beginning are left to visit, and before them stands what was
left of those that were visited. -/
theorem Represents.stage (h : Represents l xs) (hs : Stage p l seen cursor l') :
    ∃ done rest, seen ++ rest = xs ∧ cursor = entry rest none ∧ Represents l' (done ++ rest) ∧
      spans done = (spans seen).flatMap (cutSpan p.first p.last p.more) := by
  induction hs with
  | start => exact ⟨[], xs, rfl, h.head, h, rfl⟩
  | @visit seen i l' hole _ hhole ih =>
    obtain ⟨done, rest, hall, hcursor, hrep, hspans⟩ := ih
    cases rest with
    | nil => cases hcursor
    | cons x rest =>
      cases hcursor
      rw [hrep.lookup] at hhole
      cases hhole
      obtain ⟨ys, hys, hcut⟩ := hrep.cut p.first p.last p.more
      refine ⟨done ++ ys, rest, ?_, rfl, ?_, ?_⟩
      · rw [← hall, List.append_assoc]
        rfl
      · rw [List.append_assoc]
        exact hcut
      · rw [spans_append, hspans, hys, spans_append, List.flatMap_append]
        simp [spans]

/-- The walk goes on to its end, and has visited all holes of the beginning by then. -/
theorem Represents.stage_fillFrom (h : Represents l xs) (n : Nat) (hs : Stage p l seen cursor l')
    (hn : xs.length ≤ seen.length + n) :
    Stage p l xs none (HoleList.fillFrom p.first p.last p.more n cursor l') := by
  induction n generalizing seen cursor l' with
  | zero =>
    obtain ⟨done, rest, rfl, rfl, -, -⟩ := h.stage hs
    rw [List.length_append] at hn
    obtain rfl : rest = [] := List.length_eq_zero_iff.mp (by omega)
    rw [List.append_nil]
    exact hs
  | succ n ih =>
    obtain ⟨done, rest, hall, rfl, hrep, -⟩ := h.stage hs
    cases rest with
    | nil =>
      rw [List.append_nil] at hall
      exact hall ▸ hs
    | cons x rest =>
      have hlookup := hrep.lookup
      rw [entry_cons, HoleList.fillFrom, hlookup]
      refine ih (hs.visit hlookup) ?_
      rw [List.length_append, List.length_singleton]
      omega

theorem Represents.stage_fill (h : Represents l xs) (p : Piece) :
    Stage p l xs none (l.fill p.first p.last p.more) := by
  refine h.stage_fillFrom _ .start ?_
  rw [List.length_nil, Nat.zero_add]
  exact h.length_le

/-! ## Lists that were filled -/

theorem exists_represents_foldl (pieces : List Piece) (h : Represents l xs)
    (ha : Apart (spans xs)) :
    ∃ ys, Represents (pieces.foldl (fun l p => l.fill p.first p.last p.more) l) ys ∧
      Apart (spans ys) := by
  induction pieces generalizing l xs with
  | nil => exact ⟨xs, h, ha⟩
  | cons p pieces ih =>
    obtain ⟨ys, hspans, hfill⟩ := h.fill p.first p.last p.more
    exact ih hfill (hspans ▸ apart_cut ha p.ordered p.more)

/-- **Representation**: the holes of a list that was filled with anything stand apart, in ascending
order, each in a slot of its own, linked forth and back, and all other slots are free. The next
filling visits these holes, each of them once, and nothing else, and comes to its end. -/
theorem linked_and_visited_once (pieces : List Piece) : ∃ xs,
    Linked (fillAll pieces) xs ∧ Apart (spans xs) ∧
      ∀ p : Piece, Stage p (fillAll pieces) xs none ((fillAll pieces).fill p.first p.last p.more) ∧
        ∀ seen cursor l', Stage p (fillAll pieces) seen cursor l' → ∃ done rest,
          seen ++ rest = xs ∧ cursor = entry rest none ∧ Linked l' (done ++ rest) ∧
            spans done = (spans seen).flatMap (cutSpan p.first p.last p.more) := by
  obtain ⟨xs, h, ha⟩ := exists_represents_foldl pieces represents_fresh apart_whole
  refine ⟨xs, linked_of_represents h, ha, fun p => ⟨h.stage_fill p, fun seen cursor l' hs => ?_⟩⟩
  obtain ⟨done, rest, hall, hcursor, hrep, hspans⟩ := h.stage hs
  exact ⟨done, rest, hall, hcursor, linked_of_represents hrep, hspans⟩

/-- Three holes are left, in slots that are not in this order. -/
def parted : List Piece :=
  [⟨24, 31, true, by decide, by decide⟩, ⟨8, 15, true, by decide, by decide⟩]

/-- A piece from the middle of the first hole to the middle of the last one. -/
def across : Piece := ⟨4, 40, true, by decide, by decide⟩

theorem parted_visited_across : ∃ xs, Linked (fillAll parted) xs ∧
    Stage across (fillAll parted) xs none ((fillAll parted).fill 4 40 true) := by
  obtain ⟨xs, hlinked, -, hfill⟩ := linked_and_visited_once parted
  exact ⟨xs, hlinked, (hfill across).1⟩

example : (fillAll parted).slots.map (·.next) = [some 2, none, some 1] ∧
    (fillAll (parted ++ [across])).free = [2] := by
  decide

end HoleList

end MulticastTunnel.Reassembly
