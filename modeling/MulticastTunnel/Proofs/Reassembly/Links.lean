import Mathlib.Data.List.Nodup
import Mathlib.Data.List.Perm.Basic
import MulticastTunnel.Reassembly.Holes

/-!
# Links of hole lists

A hole list stands for a list of ranges. `Segment` says that some holes are
linked one to the next in their slots, `Represents` that a hole list links
these and no others, and that every other slot is free. Inserting behind a
hole, unlinking and cutting are then what they are on lists, and filling visits
each hole that was there once.
-/

namespace MulticastTunnel.Reassembly

/-- A range, both ends included. -/
structure Span where
  first : Nat
  last : Nat
deriving DecidableEq

/-- A missing range in its slot. -/
structure Link where
  slot : Nat
  span : Span

namespace HoleList

/-- Where a walk over the holes on its way to `next` begins. -/
def entry (xs : List Link) (next : Option Nat) : Option Nat :=
  match xs with
  | [] => next
  | x :: _ => some x.slot

/-- The last slot of a walk over the holes that comes from `prev`. -/
def exit (prev : Option Nat) : List Link → Option Nat
  | [] => prev
  | x :: xs => exit (some x.slot) xs

/-- The holes stand in their slots, linked one to the next between `prev` and
`next`. -/
def Segment (slots : List Hole) (prev : Option Nat) (xs : List Link) (next : Option Nat) : Prop :=
  match xs with
  | [] => True
  | x :: xs =>
    slots[x.slot]? = some ⟨x.span.first, x.span.last, prev, entry xs next⟩ ∧
      Segment slots (some x.slot) xs next

def slotsOf (xs : List Link) : List Nat := xs.map (·.slot)

variable {slots slots' : List Hole} {prev next : Option Nat} {as bs xs : List Link} {x : Link}

@[simp] theorem slotsOf_append : slotsOf (as ++ bs) = slotsOf as ++ slotsOf bs :=
  List.map_append

@[simp] theorem slotsOf_cons : slotsOf (x :: xs) = x.slot :: slotsOf xs := rfl

@[simp] theorem entry_cons : entry (x :: xs) next = some x.slot := rfl

@[simp] theorem exit_concat : exit prev (as ++ [x]) = some x.slot := by
  induction as generalizing prev with
  | nil => rfl
  | cons a as ih => exact ih

theorem entry_append (as bs : List Link) (next : Option Nat) :
    entry (as ++ bs) next = entry as (entry bs next) := by
  cases as <;> rfl

theorem segment_append : Segment slots prev (as ++ bs) next ↔
    Segment slots prev as (entry bs next) ∧ Segment slots (exit prev as) bs next := by
  induction as generalizing prev with
  | nil => simp [Segment, exit]
  | cons a as ih =>
    simp only [List.cons_append, Segment, exit, ih, entry_append, and_assoc]

/-- Other slots than those of the holes do not matter. -/
theorem Segment.congr (h : Segment slots prev xs next)
    (hs : ∀ i ∈ slotsOf xs, slots'[i]? = slots[i]?) : Segment slots' prev xs next := by
  induction xs generalizing prev with
  | nil => trivial
  | cons x xs ih =>
    rw [slotsOf_cons, List.forall_mem_cons] at hs
    exact ⟨hs.1.trans h.1, ih h.2 hs.2⟩

/-! ## Linking -/

theorem getElem?_modify_self {i : Nat} {h : Hole} (f : Hole → Hole) (hi : slots[i]? = some h) :
    (slots.modify i f)[i]? = some (f h) := by
  rw [List.getElem?_modify_eq, hi]
  rfl

/-- What linking from `prev` and back to it changes: the end of what comes
before and the beginning of what comes after. -/
theorem relink (l : HoleList) {n p : Option Nat} (next' prev' : Option Nat)
    (ha : Segment l.slots none as n) (hb : Segment l.slots p bs none)
    (hd : (slotsOf (as ++ bs)).Nodup) (hh : as ≠ [] → l.head = entry as none) :
    ∃ slots', (l.linkForward (exit none as) next').linkBack prev' (entry bs none) =
        ⟨slots', l.free, entry as next'⟩ ∧
      Segment slots' none as next' ∧ Segment slots' prev' bs none ∧
      slots'.length = l.slots.length ∧
      ∀ i ∉ slotsOf (as ++ bs), slots'[i]? = l.slots[i]? := by
  rw [slotsOf_append] at hd ⊢
  obtain ⟨hda, hdb, hdis⟩ := List.nodup_append.mp hd
  -- First the end of `as`, which is the head of the list if there is none.
  have forward : ∃ m, l.linkForward (exit none as) next' = ⟨m, l.free, entry as next'⟩ ∧
      Segment m none as next' ∧ m.length = l.slots.length ∧
      ∀ i ∉ slotsOf as, m[i]? = l.slots[i]? := by
    rcases List.eq_nil_or_concat as with rfl | ⟨init, x, rfl⟩
    · exact ⟨l.slots, rfl, trivial, rfl, fun _ _ => rfl⟩
    · rw [List.concat_eq_append] at *
      rw [slotsOf_append] at hda
      obtain ⟨-, -, hx⟩ := List.nodup_append.mp hda
      obtain ⟨hinit, hlast, -⟩ := segment_append.mp ha
      refine ⟨l.slots.modify x.slot fun h => { h with next := next' }, ?_, ?_, ?_, ?_⟩
      · rw [exit_concat, linkForward, modify, hh (by simp)]
        cases init <;> rfl
      · refine segment_append.mpr ⟨hinit.congr ?_, ?_, trivial⟩
        · intro i hi
          exact List.getElem?_modify_ne _ _ (hx i hi x.slot (by simp)).symm
        · exact getElem?_modify_self _ hlast
      · exact List.length_modify ..
      · intro i hi
        exact List.getElem?_modify_ne _ _ fun e => hi (by simp [e])
  obtain ⟨m, hm, hsa, hlen, hframe⟩ := forward
  have hsb : Segment m p bs none := hb.congr fun i hi => hframe i fun ha => hdis i ha i hi rfl
  rw [hm]
  -- Then the beginning of `bs`.
  cases bs with
  | nil =>
    refine ⟨m, rfl, hsa, trivial, hlen, fun i hi => hframe i ?_⟩
    intro ha
    exact hi (List.mem_append_left _ ha)
  | cons b bs =>
    obtain ⟨hfirst, hrest⟩ := hsb
    rw [slotsOf_cons, List.nodup_cons] at hdb
    refine ⟨m.modify b.slot fun h => { h with prev := prev' }, rfl, ?_, ⟨?_, ?_⟩, ?_, ?_⟩
    · exact hsa.congr fun i hi => List.getElem?_modify_ne _ _ (hdis i hi b.slot (by simp)).symm
    · exact getElem?_modify_self _ hfirst
    · refine hrest.congr fun i hi => List.getElem?_modify_ne _ _ fun e => ?_
      subst e
      exact hdb.1 hi
    · rw [List.length_modify, hlen]
    · intro i hi
      simp only [slotsOf_cons, List.mem_append, List.mem_cons, not_or] at hi
      rw [List.getElem?_modify_ne _ _ (Ne.symm hi.2.1)]
      exact hframe i hi.1

/-! ## Representation -/

/-- The list links the holes in this order, and every other slot is free. -/
structure Represents (l : HoleList) (xs : List Link) : Prop where
  head : l.head = entry xs none
  linked : Segment l.slots none xs none
  slots : (slotsOf xs ++ l.free).Perm (List.range l.slots.length)

variable {l : HoleList}

theorem Represents.nodup (h : Represents l xs) : (slotsOf xs ++ l.free).Nodup :=
  h.slots.nodup_iff.mpr List.nodup_range

theorem Represents.lookup (h : Represents l (as ++ x :: bs)) :
    l.slots[x.slot]? = some ⟨x.span.first, x.span.last, exit none as, entry bs none⟩ :=
  (segment_append.mp h.linked).2.1

theorem Represents.length_le (h : Represents l xs) : xs.length ≤ l.slots.length := by
  have := h.slots.length_eq
  simp only [slotsOf, List.length_append, List.length_map, List.length_range] at this
  omega

theorem Represents.following (h : Represents l (as ++ bs)) :
    l.following (exit none as) = entry bs none := by
  rcases List.eq_nil_or_concat as with rfl | ⟨init, x, rfl⟩
  · exact h.head
  · rw [List.concat_eq_append, List.append_assoc] at h
    rw [List.concat_eq_append, exit_concat, HoleList.following,
      show l.slots[x.slot]? = _ from h.lookup]
    rfl

/-- A hole that was put into slot `i` is linked between `as` and `bs`. -/
theorem represents_link {i : Nat} {span : Span} (hhead : l.head = entry (as ++ bs) none)
    (hhole : l.slots[i]? = some ⟨span.first, span.last, exit none as, entry bs none⟩)
    (hseg : Segment l.slots none (as ++ bs) none)
    (hperm : (slotsOf (as ++ bs) ++ i :: l.free).Perm (List.range l.slots.length)) :
    Represents ((l.linkForward (exit none as) (some i)).linkBack (some i) (entry bs none))
      (as ++ ⟨i, span⟩ :: bs) := by
  have hnodup : (slotsOf (as ++ bs) ++ i :: l.free).Nodup :=
    hperm.nodup_iff.mpr List.nodup_range
  obtain ⟨hd, -, hdis⟩ := List.nodup_append.mp hnodup
  obtain ⟨ha, hb⟩ := segment_append.mp hseg
  obtain ⟨slots', heq, ha', hb', hlen, hframe⟩ := relink l (some i) (some i) ha hb hd fun hne => by
    rw [hhead]
    cases as with
    | nil => exact absurd rfl hne
    | cons a as => rfl
  have hi : slots'[i]? = some ⟨span.first, span.last, exit none as, entry bs none⟩ := by
    rw [hframe i fun hm => hdis i hm i List.mem_cons_self rfl, hhole]
  rw [heq]
  refine ⟨(entry_append as (⟨i, span⟩ :: bs) none).symm, segment_append.mpr ⟨ha', hi, hb'⟩, ?_⟩
  show (slotsOf (as ++ ⟨i, span⟩ :: bs) ++ l.free).Perm (List.range slots'.length)
  rw [hlen]
  refine List.Perm.trans ?_ hperm
  simp only [slotsOf_append, slotsOf_cons, List.append_assoc, List.cons_append]
  exact (List.perm_middle.append_left _).symm

/-- Inserting behind `as` puts a hole there, in a slot that was free or is new. -/
theorem Represents.insertAfter (h : Represents l (as ++ bs)) (span : Span) :
    ∃ i l', l.insertAfter (exit none as) span.first span.last = (i, l') ∧
      Represents l' (as ++ ⟨i, span⟩ :: bs) := by
  have hin : ∀ i ∈ slotsOf (as ++ bs) ++ l.free, i < l.slots.length := fun i hi =>
    List.mem_range.mp (h.slots.mem_iff.mp hi)
  have hnodup := h.nodup
  have hperm := h.slots
  simp only [HoleList.insertAfter, h.following]
  cases hf : l.free with
  | nil =>
    refine ⟨l.slots.length, _, rfl, represents_link h.head (by simp) ?_ ?_⟩
    · exact h.linked.congr fun i hi =>
        List.getElem?_append_left (hin i (List.mem_append_left _ hi))
    · rw [hf, List.append_nil] at hperm
      simp only [List.length_append, List.length_singleton, List.range_succ]
      exact hperm.append_right _
  | cons i free =>
    rw [hf] at hin hnodup hperm
    have hi : i < l.slots.length := hin i (by simp)
    refine ⟨i, _, rfl, represents_link h.head (by simp [hi]) ?_ (by simpa using hperm)⟩
    exact h.linked.congr fun j hj => List.getElem?_set_ne fun e =>
      (List.nodup_append.mp hnodup).2.2 j hj i List.mem_cons_self e.symm

/-- Unlinking takes a hole out and frees its slot. -/
theorem Represents.unlink (h : Represents l (as ++ x :: bs)) :
    Represents (l.unlink x.slot ⟨x.span.first, x.span.last, exit none as, entry bs none⟩)
      (as ++ bs) := by
  obtain ⟨ha, -, hb⟩ := segment_append.mp h.linked
  have hd : (slotsOf (as ++ bs)).Nodup := by
    have hall := (List.nodup_append.mp h.nodup).1
    rw [slotsOf_append, slotsOf_cons] at hall
    rw [slotsOf_append]
    exact hall.sublist ((List.sublist_cons_self _ _).append_left _)
  obtain ⟨slots', heq, ha', hb', hlen, -⟩ :=
    relink l (entry bs none) (exit none as) ha hb hd fun hne => by
      rw [h.head]
      cases as with
      | nil => exact absurd rfl hne
      | cons a as => rfl
  rw [HoleList.unlink, heq]
  refine ⟨(entry_append as bs none).symm, segment_append.mpr ⟨ha', hb'⟩, ?_⟩
  show (slotsOf (as ++ bs) ++ x.slot :: l.free).Perm (List.range slots'.length)
  rw [hlen]
  refine List.Perm.trans ?_ h.slots
  simp only [slotsOf_append, slotsOf_cons, List.append_assoc, List.cons_append]
  exact List.perm_middle.append_left _

/-! ## Cutting -/

/-- What cutting a range out leaves of a span; what is behind it goes too when
nothing more follows. -/
def cutSpan (first last : Nat) (more : Bool) (s : Span) : List Span :=
  if s.last < first ∨ last < s.first then [s]
  else
    (if s.first < first then [⟨s.first, first - 1⟩] else []) ++
      (if last < s.last ∧ more then [⟨last + 1, s.last⟩] else [])

def spans (xs : List Link) : List Span := xs.map (·.span)

@[simp] theorem spans_append : spans (as ++ bs) = spans as ++ spans bs := List.map_append

/-- Cutting replaces a hole by what is left of it, between the same neighbours. -/
theorem Represents.cut (h : Represents l (as ++ x :: bs)) (first last : Nat) (more : Bool) :
    ∃ ys, spans ys = cutSpan first last more x.span ∧
      Represents (l.cut first last more x.slot
        ⟨x.span.first, x.span.last, exit none as, entry bs none⟩) (as ++ (ys ++ bs)) := by
  simp only [HoleList.cut, cutSpan]
  split
  · exact ⟨[x], rfl, h⟩
  -- The hole is unlinked first; then what is left before the range is put in
  -- its place, and what is left behind it after that.
  have hu := h.unlink
  generalize hfront : (ite (x.span.first < first) _ _ : Option Nat × HoleList) = front
  obtain ⟨before, hspans, hanchor, hr⟩ : ∃ before,
      spans before = (if x.span.first < first then [⟨x.span.first, first - 1⟩] else []) ∧
      front.1 = exit none (as ++ before) ∧ Represents front.2 ((as ++ before) ++ bs) := by
    subst hfront
    split
    · obtain ⟨i, l', heq, hr⟩ := hu.insertAfter ⟨x.span.first, first - 1⟩
      simp only at heq
      rw [heq]
      refine ⟨[⟨i, _⟩], rfl, (exit_concat (x := ⟨i, _⟩)).symm, ?_⟩
      rwa [List.append_assoc]
    · exact ⟨[], rfl, by rw [List.append_nil], by rwa [List.append_nil]⟩
  clear hfront
  obtain ⟨anchor, l'⟩ := front
  simp only at hanchor hr ⊢
  subst hanchor
  by_cases hback : last < x.span.last ∧ more = true
  · obtain ⟨i, l'', heq', hr'⟩ := hr.insertAfter ⟨last + 1, x.span.last⟩
    simp only at heq'
    refine ⟨before ++ [⟨i, ⟨last + 1, x.span.last⟩⟩], ?_, ?_⟩
    · rw [spans_append, hspans, if_pos hback]
      rfl
    · simp only [if_pos hback, heq']
      simpa using hr'
  · refine ⟨before, ?_, ?_⟩
    · rw [hspans, if_neg hback, List.append_nil]
    · simp only [if_neg hback]
      rwa [← List.append_assoc]

/-! ## Filling -/

theorem Represents.fillFrom (as : List Link) (first last : Nat) (more : Bool) (n : Nat)
    (h : Represents l (as ++ xs)) (hn : xs.length ≤ n) :
    ∃ ys, spans ys = (spans xs).flatMap (cutSpan first last more) ∧
      Represents (fillFrom first last more n (entry xs none) l) (as ++ ys) := by
  -- What is behind the cursor is as it was; what is before it is done with.
  induction xs generalizing as n l with
  | nil =>
    refine ⟨[], rfl, ?_⟩
    cases n <;> exact h
  | cons x xs ih =>
    cases n with
    | zero => exact absurd hn (Nat.not_succ_le_zero _)
    | succ n =>
      obtain ⟨ys, hys, hcut⟩ := h.cut first last more
      rw [← List.append_assoc] at hcut
      obtain ⟨zs, hzs, hrest⟩ := ih _ n hcut (Nat.le_of_succ_le_succ hn)
      refine ⟨ys ++ zs, by rw [spans_append, hys, hzs]; rfl, ?_⟩
      rw [entry_cons, HoleList.fillFrom, h.lookup, ← List.append_assoc]
      exact hrest

/-- **Filling**: every hole that was there is cut once, in its place. -/
theorem Represents.fill (h : Represents l xs) (first last : Nat) (more : Bool) :
    ∃ ys, spans ys = (spans xs).flatMap (cutSpan first last more) ∧
      Represents (l.fill first last more) ys := by
  rw [HoleList.fill, h.head]
  exact h.fillFrom [] first last more _ h.length_le

theorem represents_fresh : Represents fresh [⟨0, ⟨0, boundless⟩⟩] where
  head := rfl
  linked := ⟨rfl, trivial⟩
  slots := List.Perm.refl _

theorem Represents.isEmpty_iff (h : Represents l xs) : l.isEmpty = true ↔ xs = [] := by
  rw [isEmpty, h.head]
  cases xs <;> simp [entry]

end HoleList

end MulticastTunnel.Reassembly
