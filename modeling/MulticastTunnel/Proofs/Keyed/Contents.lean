import Mathlib.Tactic.Common
import MulticastTunnel.Keyed.Table

/-!
# Contents of tables

Emptiness and size, told by what is found under each key.
-/

namespace MulticastTunnel.Keyed.Table

variable {κ ν : Type} [DecidableEq κ] {t : Table κ ν} {k : κ} {v : ν}

theorem get?_eq_some_iff : t.get? k = some v ↔ (k, v) ∈ t.toList := by
  cases t with | mk es h =>
  simp only [get?]
  induction es with
  | nil => simp
  | cons e es ih =>
    obtain ⟨l, w⟩ := e
    obtain ⟨hl, hes⟩ := List.nodup_cons.mp h
    by_cases hk : l = k
    · subst hk
      have hnot : ∀ w', (l, w') ∉ es := fun w' hm => hl (List.mem_map_of_mem (f := (·.1)) hm)
      simp [hnot, eq_comm]
    · rw [List.find?_cons_of_neg (by simpa using hk), ih hes]
      simp [Ne.symm hk]

theorem get?_filter (t : Table κ ν) (p : κ → ν → Bool) (k : κ) :
    (t.filter p).get? k = (t.get? k).filter (p k) := by
  refine Option.ext fun v => ?_
  rw [get?_eq_some_iff, Option.filter_eq_some_iff, get?_eq_some_iff]
  exact List.mem_filter

theorem eq_empty_of_get? (h : ∀ k, t.get? k = none) : t = ∅ := by
  cases t with | mk es hn =>
  cases es with
  | nil => rfl
  | cons e es =>
    have := get?_eq_some_iff (t := ⟨e :: es, hn⟩) (k := e.1) (v := e.2) |>.mpr List.mem_cons_self
    rw [h e.1] at this
    cases this

theorem exists_get?_of_size_pos (h : 0 < t.size) : ∃ k v, t.get? k = some v := by
  obtain ⟨e, he⟩ := List.exists_mem_of_length_pos h
  exact ⟨e.1, e.2, get?_eq_some_iff.mpr he⟩

/-- Writing over a value that is there takes no more room. -/
theorem size_insert_of_isSome (h : (t.get? k).isSome = true) (v : ν) :
    (t.insert k v).size = t.size := by
  cases t with | mk es hn =>
  simp only [size, insert, get?, Option.isSome_map] at h ⊢
  clear hn
  induction es with
  | nil => cases h
  | cons e es ih =>
    simp only [put]
    by_cases he : e.1 = k
    · rw [if_pos he]
      rfl
    · rw [if_neg he]
      rw [List.find?_cons_of_neg (by simpa using he)] at h
      simp only [List.length_cons, ih h]

theorem size_insert_le (t : Table κ ν) (k : κ) (v : ν) : (t.insert k v).size ≤ t.size + 1 := by
  cases t with | mk es hn =>
  simp only [size, insert]
  clear hn
  induction es with
  | nil => exact Nat.le_refl _
  | cons e es ih =>
    simp only [put]
    split
    · exact Nat.le_succ _
    · exact Nat.succ_le_succ ih

omit [DecidableEq κ] in
theorem size_filter_le (t : Table κ ν) (p : κ → ν → Bool) : (t.filter p).size ≤ t.size :=
  List.length_filter_le _ _

/-- Erasing a key that is not there frees nothing. -/
theorem size_erase_of_get?_eq_none (h : t.get? k = none) : (t.erase k).size = t.size := by
  have hall : ∀ e ∈ t.toList, decide (e.1 ≠ k) = true := by
    rintro ⟨l, v⟩ he
    refine decide_eq_true fun hl => ?_
    have hv := get?_eq_some_iff.mpr he
    simp only at hl
    rw [hl, h] at hv
    cases hv
  show (t.toList.filter fun e => decide (e.1 ≠ k)).length = t.toList.length
  rw [List.filter_eq_self.mpr hall]

end MulticastTunnel.Keyed.Table
