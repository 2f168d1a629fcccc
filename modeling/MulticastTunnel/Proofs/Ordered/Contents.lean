import Mathlib.Data.List.Nodup
import MulticastTunnel.Ordered.Map
import MulticastTunnel.Ordered.Set

/-!
# Contents of ordered maps and sets

Emptiness, keys and overwriting, told by what is found under each key.
-/

namespace MulticastTunnel.Ordered

namespace OrderedSet

variable {α : Type} [Ranked α] {s : OrderedSet α}

theorem isEmpty_iff : s.isEmpty = true ↔ ∀ a, a ∉ s := by
  rw [isEmpty, List.isEmpty_iff, List.eq_nil_iff_forall_not_mem]
  rfl

theorem isEmpty_eq_false_iff : s.isEmpty = false ↔ ∃ a, a ∈ s := by
  rw [← Bool.not_eq_true, isEmpty_iff]
  simp only [not_forall, not_not]

theorem eq_empty_of_isEmpty (h : s.isEmpty = true) : s = ∅ :=
  ext fun a => iff_of_false (isEmpty_iff.mp h a) (not_mem_empty a)

@[simp] theorem ofList_toList (s : OrderedSet α) : ofList s.toList = s := by
  have h : ofList s.toList = union ∅ s := rfl
  rw [h]
  exact ext fun a => by simp

@[simp] theorem union_empty (s : OrderedSet α) : s.union ∅ = s := ext fun a => by simp

@[simp] theorem diff_empty [DecidableEq α] (s : OrderedSet α) : s.diff ∅ = s :=
  ext fun a => by simp

@[simp] theorem getD_nonempty? (s : OrderedSet α) : s.nonempty?.getD ∅ = s := by
  unfold nonempty?
  split
  · next h => exact (eq_empty_of_isEmpty h).symm
  · rfl

theorem isEmpty_of_nonempty? {t : OrderedSet α} (h : s.nonempty? = some t) :
    t.isEmpty = false := by
  simp only [nonempty?] at h
  split at h
  · cases h
  · next hs => cases h; simpa using hs

theorem nodup_toList (s : OrderedSet α) : s.toList.Nodup :=
  s.ascending.imp fun hlt heq => Nat.ne_of_lt hlt (congrArg rank heq)

end OrderedSet

namespace OrderedMap

variable {κ ν : Type} [Ranked κ] {m : OrderedMap κ ν}

theorem isEmpty_iff : m.isEmpty = true ↔ ∀ k, m.get? k = none := by
  rw [isEmpty, List.isEmpty_iff, List.eq_nil_iff_forall_not_mem]
  constructor
  · intro h k
    apply Option.eq_none_iff_forall_ne_some.mpr
    intro v hv
    exact h (k, v) (get?_eq_some_iff.mp hv)
  · intro h e he
    have := h e.1
    rw [get?_eq_some_iff.mpr he] at this
    cases this

theorem isEmpty_eq_false_iff : m.isEmpty = false ↔ ∃ k v, m.get? k = some v := by
  rw [← Bool.not_eq_true, isEmpty_iff]
  simp only [not_forall, ← ne_eq, Option.ne_none_iff_exists']

theorem eq_empty_of_isEmpty (h : m.isEmpty = true) : m = ∅ :=
  ext fun k => (isEmpty_iff.mp h k).trans (get?_empty k).symm

@[simp] theorem getD_nonempty? (m : OrderedMap κ ν) : m.nonempty?.getD ∅ = m := by
  unfold nonempty?
  split
  · next h => exact (eq_empty_of_isEmpty h).symm
  · rfl

theorem isEmpty_of_nonempty? {n : OrderedMap κ ν} (h : m.nonempty? = some n) :
    n.isEmpty = false := by
  simp only [nonempty?] at h
  split at h
  · cases h
  · next hm => cases h; simpa using hm

theorem mem_keys {k : κ} : k ∈ m.keys ↔ ∃ v, m.get? k = some v := by
  simp only [keys, List.mem_map, get?_eq_some_iff]
  constructor
  · rintro ⟨⟨l, v⟩, he, rfl⟩
    exact ⟨v, he⟩
  · rintro ⟨v, he⟩
    exact ⟨(k, v), he, rfl⟩

theorem nodup_keys (m : OrderedMap κ ν) : m.keys.Nodup := by
  refine List.pairwise_map.mpr (List.Pairwise.imp ?_ m.ascending)
  intro e f hlt heq
  exact Nat.ne_of_lt hlt (congrArg rank heq)

/-- Lists that tell the keys they are made for have no element in common. -/
theorem nodup_flatMap {β : Type} {f : κ × ν → List β} (key : β → κ)
    (hnodup : ∀ e ∈ m.toList, (f e).Nodup) (hkey : ∀ e ∈ m.toList, ∀ b ∈ f e, key b = e.1) :
    (m.toList.flatMap f).Nodup := by
  rw [List.nodup_flatMap]
  refine ⟨hnodup, m.ascending.imp_of_mem ?_⟩
  intro e e' he he' hlt
  refine List.disjoint_left.mpr fun b hb hb' => Nat.ne_of_lt hlt ?_
  exact congrArg rank ((hkey e he b hb).symm.trans (hkey e' he' b hb'))

section Decidable

variable [DecidableEq κ]

/-- Writing under a key what is there changes nothing. -/
@[simp] theorem set_get? (m : OrderedMap κ ν) (k : κ) : m.set k (m.get? k) = m := by
  apply ext
  intro l
  rw [get?_set]
  split
  · next h => rw [h]
  · rfl

@[simp] theorem set_set (m : OrderedMap κ ν) (k : κ) (v w : Option ν) :
    (m.set k v).set k w = m.set k w := by
  apply ext
  intro l
  simp only [get?_set]
  split <;> rfl

end Decidable

end OrderedMap

end MulticastTunnel.Ordered
