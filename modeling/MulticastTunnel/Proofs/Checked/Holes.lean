import MulticastTunnel.Proofs.Checked.Machine
import MulticastTunnel.Proofs.Reassembly.Links

/-!
# Hole lists are changed safely

All links of a hole list that stands for some holes lead to slots that are there. The holes stand in
distinct slots, so a walk over them comes to its end before it has made as many steps as there are
slots.
-/

namespace MulticastTunnel.Checked

open Reassembly
open Reassembly.HoleList (Represents entry exit)

variable {ε : Type} {l : HoleList} {as bs xs : List Link} {x : Link} {prev next : Option Nat}
  {first last i n : Nat} {more : Bool} {hole : Hole}

def slot (l : HoleList) (i : Nat) : Checked ε Hole :=
  match l.slots[i]? with
  | some hole => .value hole
  | none => .trapped .index

def modify (l : HoleList) (i : Nat) (f : Hole → Hole) : Checked ε HoleList :=
  if i < l.slots.length then .value (l.modify i f) else .trapped .index

def linkForward (l : HoleList) (prev next : Option Nat) : Checked ε HoleList :=
  match prev with
  | some p => modify l p fun h => { h with next }
  | none => pure { l with head := next }

def linkBack (l : HoleList) (prev next : Option Nat) : Checked ε HoleList :=
  match next with
  | some n => modify l n fun h => { h with prev }
  | none => pure l

def following (l : HoleList) : Option Nat → Checked ε (Option Nat)
  | some p => do
    let hole ← slot l p
    pure hole.next
  | none => pure l.head

/-- Puts a hole into a free slot or a new one. -/
def place (l : HoleList) (hole : Hole) : Checked ε (Nat × HoleList) :=
  match l.free with
  | i :: free =>
    if i < l.slots.length then pure (i, { l with slots := l.slots.set i hole, free })
    else .trapped .index
  | [] => do
    let slots := l.slots ++ [hole]
    let i ← minus slots.length 1
    pure (i, { l with slots })

def insertAfter (l : HoleList) (prev : Option Nat) (first last : Nat) :
    Checked ε (Nat × HoleList) := do
  let next ← following l prev
  let (i, l) ← place l ⟨first, last, prev, next⟩
  let l ← linkForward l prev (some i)
  let l ← linkBack l (some i) next
  pure (i, l)

def unlink (l : HoleList) (i : Nat) : Checked ε HoleList := do
  let hole ← slot l i
  let l ← linkForward l hole.prev hole.next
  let l ← linkBack l hole.prev hole.next
  pure { l with free := i :: l.free }

def freshHoles : Checked ε HoleList := do
  let (_, l) ← insertAfter ⟨[], [], none⟩ none 0 boundless
  pure l

def cut (l : HoleList) (first last : Nat) (more : Bool) (i : Nat) (hole : Hole) :
    Checked ε HoleList :=
  if hole.last < first ∨ last < hole.first then pure l
  else do
    let l ← unlink l i
    let (anchor, l) ←
      if hole.first < first then do
        let before ← minus first 1
        let (j, l) ← insertAfter l hole.prev hole.first before
        pure (some j, l)
      else pure (hole.prev, l)
    if last < hole.last ∧ more then do
      let behind ← word (last + 1)
      let (_, l) ← insertAfter l anchor behind hole.last
      pure l
    else pure l

/-- Cuts a range out of the holes from slot `cursor` on, for as many steps as there is fuel. -/
def fillFrom (first last : Nat) (more : Bool) :
    (fuel : Nat) → (cursor : Option Nat) → HoleList → Checked ε HoleList
  | _, none, l => pure l
  | 0, some _, _ => .trapped .endless
  | fuel + 1, some i, l => do
    let hole ← slot l i
    let l ← cut l first last more i hole
    fillFrom first last more fuel hole.next l

def fill (l : HoleList) (first last : Nat) (more : Bool) : Checked ε HoleList :=
  fillFrom first last more l.slots.length l.head l

/-! ## Links that lead to slots -/

/-- A link that leads to a slot, if it leads anywhere. -/
def Leads (l : HoleList) (link : Option Nat) : Prop := ∀ i, link = some i → i < l.slots.length

theorem slot_eq (h : l.slots[i]? = some hole) : (slot l i : Checked ε Hole) = .value hole := by
  rw [slot, h]

theorem linkForward_eq (h : Leads l prev) :
    (linkForward l prev next : Checked ε HoleList) = .value (l.linkForward prev next) := by
  cases prev with
  | none => rfl
  | some p => exact if_pos (h p rfl)

theorem linkBack_eq (h : Leads l next) :
    (linkBack l prev next : Checked ε HoleList) = .value (l.linkBack prev next) := by
  cases next with
  | none => rfl
  | some n => exact if_pos (h n rfl)

/-- The link on the other side, once the first one is written. -/
theorem linkBack_linkForward_eq {l' : HoleList} {after other : Option Nat} (h : Leads l next)
    (hl : l' = l.linkForward other after) :
    (linkBack l' prev next : Checked ε HoleList) = .value (l'.linkBack prev next) := by
  have hlen : l'.slots.length = l.slots.length := by
    rw [hl]
    cases other with
    | none => rfl
    | some p => exact List.length_modify ..
  refine linkBack_eq fun n hn => ?_
  rw [hlen]
  exact h n hn

theorem following_eq (h : Leads l prev) :
    (following l prev : Checked ε (Option Nat)) = .value (l.following prev) := by
  cases prev with
  | none => rfl
  | some p =>
    have hp := List.getElem?_eq_getElem (h p rfl)
    simp only [following, slot_eq hp, value_bind, pure_eq, HoleList.following, hp,
      Option.bind_some]

/-- A hole is put into a slot that was free, or into a new one. -/
theorem exists_place (hole : Hole) (hfree : ∀ i ∈ l.free, i < l.slots.length) :
    ∃ i l', (place l hole : Checked ε (Nat × HoleList)) = .value (i, l') ∧
      l.slots.length ≤ l'.slots.length ∧
      (match l.free with
        | i :: free => (i, { l with slots := l.slots.set i hole, free })
        | [] => (l.slots.length, { l with slots := l.slots ++ [hole] })) = (i, l') := by
  rw [place]
  cases hf : l.free with
  | nil =>
    have hlen : (l.slots ++ [hole]).length = l.slots.length + 1 := List.length_append
    refine ⟨_, _, ?_, ?_, rfl⟩
    · simp only [hlen, minus_eq (Nat.le_add_left 1 l.slots.length), value_bind, pure_eq,
        Nat.add_sub_cancel]
    · exact Nat.le_of_lt (by rw [hlen]; exact Nat.lt_succ_self _)
  | cons i free =>
    refine ⟨_, _, if_pos (hfree i (by rw [hf]; exact List.mem_cons_self)), ?_, rfl⟩
    exact Nat.le_of_eq List.length_set.symm

/-- A new hole is linked if the links around it and the free slots lead to slots. -/
theorem insertAfter_eq (hprev : Leads l prev) (hnext : Leads l (l.following prev))
    (hfree : ∀ i ∈ l.free, i < l.slots.length) :
    (insertAfter l prev first last : Checked ε (Nat × HoleList)) =
      .value (l.insertAfter prev first last) := by
  rw [insertAfter, following_eq hprev, value_bind, HoleList.insertAfter]
  obtain ⟨i, l', hplace, hgrows, hmodel⟩ :=
    @exists_place ε l ⟨first, last, prev, l.following prev⟩ hfree
  have hleads : ∀ link, Leads l link → Leads l' link := fun link h i hi =>
    Nat.lt_of_lt_of_le (h i hi) hgrows
  rw [hplace, value_bind]
  simp only [linkForward_eq (hleads _ hprev), value_bind,
    linkBack_linkForward_eq (hleads _ hnext) rfl, pure_eq]
  exact congrArg (fun s : Nat × HoleList => value (s.1, (s.2.linkForward prev (some s.1)).linkBack
    (some s.1) (l.following prev))) hmodel.symm

theorem unlink_eq (hi : l.slots[i]? = some hole) (hprev : Leads l hole.prev)
    (hnext : Leads l hole.next) :
    (unlink l i : Checked ε HoleList) = .value (l.unlink i hole) := by
  simp only [unlink, slot_eq hi, value_bind, linkForward_eq hprev,
    linkBack_linkForward_eq hnext rfl, pure_eq]
  rfl

theorem freshHoles_eq : (freshHoles : Checked ε HoleList) = .value .fresh := by
  rw [freshHoles, insertAfter_eq]
  · rfl
  · intro i hi
    cases hi
  · intro i hi
    cases hi
  · intro i hi
    cases hi

/-! ## Represented holes -/

/-- Every slot that is linked or free is there. -/
theorem lt_of_represents (h : Represents l xs) (hi : i ∈ HoleList.slotsOf xs ++ l.free) :
    i < l.slots.length := List.mem_range.mp (h.slots.mem_iff.mp hi)

theorem leads_exit (h : Represents l (as ++ bs)) : Leads l (exit none as) := by
  intro i hi
  rcases List.eq_nil_or_concat as with rfl | ⟨init, x, rfl⟩
  · cases hi
  · rw [List.concat_eq_append, HoleList.exit_concat] at hi
    cases hi
    exact lt_of_represents h (by simp [HoleList.slotsOf])

theorem leads_entry (h : Represents l (as ++ bs)) : Leads l (entry bs none) := by
  intro i hi
  cases bs with
  | nil => cases hi
  | cons x bs =>
    cases hi
    exact lt_of_represents h (by simp [HoleList.slotsOf])

theorem insertAfter_of_represents (h : Represents l (as ++ bs)) (hexit : prev = exit none as) :
    (insertAfter l prev first last : Checked ε (Nat × HoleList)) =
      .value (l.insertAfter prev first last) := by
  subst hexit
  refine insertAfter_eq (leads_exit h) ?_ fun i hi =>
    lt_of_represents h (List.mem_append_right _ hi)
  rw [h.following]
  exact leads_entry h

/-- What is left of a hole behind the range. -/
theorem cutBehind_eq {e : Nat} (h : Represents l (as ++ bs)) (hprev : prev = exit none as)
    (hlast : last + 1 < 18446744073709551616) :
    (if last < e ∧ more = true then do
        let behind ← word (last + 1)
        let (_, l) ← insertAfter l prev behind e
        pure l
      else pure l : Checked ε HoleList) =
      .value (if last < e ∧ more = true then (l.insertAfter prev (last + 1) e).2 else l) := by
  split
  · rw [word_eq hlast, value_bind, insertAfter_of_represents h hprev]
    rfl
  · rfl

/-- A hole is cut without a trap. The number in front of the range is computed only if the hole
begins before it. -/
theorem cut_eq (h : Represents l (as ++ x :: bs)) (hlast : last + 1 < 18446744073709551616) :
    (cut l first last more x.slot ⟨x.span.first, x.span.last, exit none as, entry bs none⟩ :
      Checked ε HoleList) =
      .value (l.cut first last more x.slot
        ⟨x.span.first, x.span.last, exit none as, entry bs none⟩) := by
  have hx : as ++ x :: bs = (as ++ [x]) ++ bs := by rw [List.append_assoc]; rfl
  have hunlink := h.unlink
  rw [cut, HoleList.cut]
  split
  · rfl
  rw [unlink_eq h.lookup (leads_exit h) (leads_entry (hx ▸ h)), value_bind]
  by_cases hfront : x.span.first < first
  · obtain ⟨i, l', heq, hr⟩ := hunlink.insertAfter ⟨x.span.first, first - 1⟩
    have hr' : Represents l' ((as ++ [⟨i, ⟨x.span.first, first - 1⟩⟩]) ++ bs) := by
      rwa [List.append_assoc]
    simp only [if_pos hfront, minus_eq (show 1 ≤ first by omega), value_bind,
      insertAfter_of_represents hunlink rfl, heq, pure_eq]
    exact cutBehind_eq hr' (HoleList.exit_concat (x := ⟨i, _⟩)).symm hlast
  · simp only [if_neg hfront, pure_eq, value_bind]
    exact cutBehind_eq hunlink rfl hlast

/-- The walk over the holes ends before its fuel. -/
theorem fillFrom_eq (hlast : last + 1 < 18446744073709551616) (h : Represents l (as ++ xs))
    (hn : xs.length ≤ n) :
    (fillFrom first last more n (entry xs none) l : Checked ε HoleList) =
      .value (HoleList.fillFrom first last more n (entry xs none) l) := by
  -- The holes before the cursor are done with, as they are when the list is filled.
  induction xs generalizing as n l with
  | nil => cases n <;> rfl
  | cons x xs ih =>
    cases n with
    | zero => exact absurd hn (Nat.not_succ_le_zero _)
    | succ n =>
      obtain ⟨ys, -, hcut⟩ := h.cut first last more
      rw [← List.append_assoc] at hcut
      rw [HoleList.entry_cons, fillFrom, HoleList.fillFrom, slot_eq h.lookup, value_bind,
        cut_eq h hlast, value_bind, h.lookup]
      exact ih hcut (Nat.le_of_succ_le_succ hn)

theorem fill_eq (hlast : last + 1 < 18446744073709551616) (h : Represents l xs) :
    (fill l first last more : Checked ε HoleList) = .value (l.fill first last more) := by
  rw [fill, HoleList.fill, h.head]
  exact @fillFrom_eq ε l [] xs first last _ more hlast h h.length_le

end MulticastTunnel.Checked
