import Mathlib.Data.Multiset.Count
import Mathlib.Data.Multiset.Filter
import MulticastTunnel.Registry

/-!
# Leases that are alive

A registry keeps a count for each key, and the leases are in the hands of
others. `Stands` relates the entry of one key to the leases of that key that are
alive: either there is neither, or the entry counts the leases and they all hold
its object. Each operation touches the entry of one key only.
-/

namespace MulticastTunnel.Registry

open Keyed

variable {κ ν σ ε : Type}

/-! ## The entry of one key -/

/-- An entry, and the leases of its key that are alive. -/
inductive Stands : Option (Shared ν) → Multiset (Lease κ ν) → Prop
  | absent : Stands none 0
  | counted {object : ν} {held : Multiset (Lease κ ν)} (hpos : 0 < held.card)
      (hsame : ∀ lease ∈ held, lease.value = object) : Stands (some ⟨object, held.card⟩) held

variable {r : Registry κ ν} {live held : Multiset (Lease κ ν)}
  {lease : Lease κ ν} {shared : Shared ν} {key : κ}

theorem Stands.eq_zero (h : Stands none held) : held = 0 := by
  cases h
  rfl

theorem Stands.value_eq (h : Stands (some shared) held) (hm : lease ∈ held) :
    lease.value = shared.value := by
  cases h with
  | counted hpos hsame => exact hsame lease hm

theorem Stands.exists_lease (h : Stands (some shared) held) : ∃ lease, lease ∈ held := by
  cases h with
  | counted hpos hsame => exact Multiset.card_pos_iff_exists_mem.mp hpos

theorem Stands.leases_eq {entry : Option (Shared ν)} (h : Stands entry held) :
    (entry.map (·.leases)).getD 0 = held.card := by
  cases h with
  | absent => rfl
  | counted hpos hsame => rfl

/-- One lease more. -/
theorem Stands.cons (h : Stands (some shared) held) (key : κ) :
    Stands (some { shared with leases := shared.leases + 1 }) (⟨key, shared.value⟩ ::ₘ held) := by
  cases h with
  | @counted object held hpos hsame =>
    show Stands (some ⟨object, held.card + 1⟩) (⟨key, object⟩ ::ₘ held)
    rw [← Multiset.card_cons ⟨key, object⟩ held]
    refine .counted (Multiset.card_pos_iff_exists_mem.mpr ⟨_, Multiset.mem_cons_self _ held⟩) ?_
    intro x hx
    rcases Multiset.mem_cons.mp hx with rfl | hx
    · rfl
    · exact hsame x hx

theorem stands_one (lease : Lease κ ν) :
    Stands (some ⟨lease.value, 1⟩) (lease ::ₘ 0) := by
  show Stands (some ⟨lease.value, Multiset.card (lease ::ₘ 0)⟩) (lease ::ₘ 0)
  exact .counted (by simp) (by simp)

/-- One lease less: the last one leaves no entry. -/
theorem Stands.tail (h : Stands (some shared) (lease ::ₘ held)) :
    (shared.leases ≤ 1 → held = 0) ∧
      (¬ shared.leases ≤ 1 → Stands (some { shared with leases := shared.leases - 1 }) held) := by
  cases h with
  | counted hpos hsame =>
    simp only [Multiset.card_cons]
    constructor
    · intro hle
      exact Multiset.card_eq_zero.mp (Nat.le_zero.mp (Nat.le_of_succ_le_succ hle))
    · intro hle
      rw [Nat.add_sub_cancel]
      exact .counted (Nat.pos_of_ne_zero fun h0 => hle (by rw [h0]))
        fun x hx => hsame x (Multiset.mem_cons_of_mem hx)

/-! ## Operations -/

variable [DecidableEq κ]

section Operations

variable {create : κ → σ → Except ε ν × σ} {s s' : σ}

theorem acquire_of_some (hg : r.entries.get? key = some shared) :
    r.acquire create key s = (.ok ⟨key, shared.value⟩,
      ⟨r.entries.insert key { shared with leases := shared.leases + 1 }⟩, s) := by
  unfold acquire
  rw [hg]

theorem acquire_of_error {e : ε} (hg : r.entries.get? key = none)
    (hc : create key s = (.error e, s')) : r.acquire create key s = (.error e, r, s') := by
  unfold acquire
  rw [hg]
  simp only [hc]

theorem acquire_of_ok {value : ν} (hg : r.entries.get? key = none)
    (hc : create key s = (.ok value, s')) :
    r.acquire create key s = (.ok ⟨key, value⟩, ⟨r.entries.insert key ⟨value, 1⟩⟩, s') := by
  unfold acquire
  rw [hg]
  simp only [hc]

theorem clone_of_some (hg : r.entries.get? lease.key = some shared) :
    r.clone lease =
      ⟨r.entries.insert lease.key { shared with leases := shared.leases + 1 }⟩ := by
  unfold clone
  rw [hg]

end Operations

/-! ## All entries -/

/-- Every entry stands for the leases of its key. -/
def Counted (r : Registry κ ν) (live : Multiset (Lease κ ν)) : Prop :=
  ∀ key, Stands (r.entries.get? key) (live.filter fun lease => lease.key = key)

/-- An operation on one key leaves the others alone. -/
theorem Counted.frame {r' : Registry κ ν} {live' : Multiset (Lease κ ν)}
    (h : Counted r live) (key : κ)
    (hr : ∀ l, l ≠ key → r'.entries.get? l = r.entries.get? l)
    (hl : ∀ l, l ≠ key → (live'.filter fun lease => lease.key = l) =
      live.filter fun lease => lease.key = l)
    (hk : Stands (r'.entries.get? key) (live'.filter fun lease => lease.key = key)) :
    Counted r' live' := by
  intro l
  by_cases h' : l = key
  · rw [h']
    exact hk
  · rw [hr l h', hl l h']
    exact h l

theorem filter_cons_of_ne {l : κ} (h : l ≠ lease.key) :
    ((lease ::ₘ live).filter fun x => x.key = l) = live.filter fun x => x.key = l :=
  Multiset.filter_cons_of_neg _ (Ne.symm h)

theorem filter_cons_of_eq (h : lease.key = key) :
    ((lease ::ₘ live).filter fun x => x.key = key) = lease ::ₘ live.filter fun x => x.key = key :=
  Multiset.filter_cons_of_pos _ h

/-- One lease more of a key that has an entry. -/
theorem Counted.cons (h : Counted r live) (hg : r.entries.get? key = some shared) :
    Counted ⟨r.entries.insert key { shared with leases := shared.leases + 1 }⟩
      (⟨key, shared.value⟩ ::ₘ live) := by
  refine h.frame key (fun l hl => ?_) (fun l hl => filter_cons_of_ne hl) ?_
  · rw [Table.get?_insert, if_neg hl]
  · have hstands := h key
    rw [hg] at hstands
    rw [Table.get?_insert, if_pos rfl, filter_cons_of_eq (by rfl)]
    exact hstands.cons key

/-- The first lease of a key. -/
theorem Counted.first (h : Counted r live) (hg : r.entries.get? key = none) (object : ν) :
    Counted ⟨r.entries.insert key ⟨object, 1⟩⟩ (⟨key, object⟩ ::ₘ live) := by
  refine h.frame key (fun l hl => ?_) (fun l hl => filter_cons_of_ne hl) ?_
  · rw [Table.get?_insert, if_neg hl]
  · have hstands := h key
    rw [hg] at hstands
    rw [Table.get?_insert, if_pos rfl, filter_cons_of_eq (by rfl), hstands.eq_zero]
    exact stands_one ⟨key, object⟩

theorem Counted.exists_shared (h : Counted r live) (hm : lease ∈ live) :
    ∃ shared, r.entries.get? lease.key = some shared ∧ lease.value = shared.value := by
  have hin : lease ∈ live.filter fun x => x.key = lease.key := Multiset.mem_filter.mpr ⟨hm, rfl⟩
  have hstands := h lease.key
  cases hg : r.entries.get? lease.key with
  | none =>
    rw [hg] at hstands
    rw [hstands.eq_zero] at hin
    exact absurd hin (Multiset.notMem_zero lease)
  | some shared =>
    rw [hg] at hstands
    exact ⟨shared, rfl, hstands.value_eq hin⟩

theorem Counted.exists_lease (h : Counted r live) (hg : r.entries.get? key = some shared) :
    ∃ lease ∈ live, lease.key = key ∧ lease.value = shared.value := by
  have hstands := h key
  rw [hg] at hstands
  obtain ⟨lease, hm⟩ := hstands.exists_lease
  obtain ⟨hin, hk⟩ := Multiset.mem_filter.mp hm
  exact ⟨lease, hin, hk, hstands.value_eq hm⟩

theorem Counted.get?_eq_none_iff (h : Counted r live) :
    r.entries.get? key = none ↔ ∀ lease ∈ live, lease.key ≠ key := by
  constructor
  · rintro hg lease hm rfl
    obtain ⟨shared, hs, -⟩ := h.exists_shared hm
    rw [hg] at hs
    cases hs
  · intro hnone
    cases hg : r.entries.get? key with
    | none => rfl
    | some shared =>
      obtain ⟨lease, hm, hk, -⟩ := h.exists_lease hg
      exact absurd hk (hnone lease hm)

/-- A lease is given back: if it was the last one of its key, the object of the
key is closed, and otherwise nothing happens but the counting. -/
theorem Counted.release (h : Counted r (lease ::ₘ live)) (close : ν → σ → σ) (s : σ) :
    Counted (r.release close lease s).1 live ∧
      (((∀ other ∈ live, other.key ≠ lease.key) ∧
        (r.release close lease s).2 = close lease.value s) ∨
      ((∃ other ∈ live, other.key = lease.key ∧ other.value = lease.value) ∧
        (r.release close lease s).2 = s)) := by
  obtain ⟨shared, hg, hv⟩ := h.exists_shared (Multiset.mem_cons_self lease live)
  have hothers : ∀ l, l ≠ lease.key → (live.filter fun x => x.key = l) =
      (lease ::ₘ live).filter fun x => x.key = l := fun l hl => (filter_cons_of_ne hl).symm
  have hstands := h lease.key
  rw [hg, filter_cons_of_eq rfl] at hstands
  obtain ⟨hlast, hmore⟩ := hstands.tail
  unfold Registry.release
  rw [hg]
  simp only
  split
  · next hle =>
    have hnone := hlast hle
    refine ⟨h.frame lease.key (fun l hl => ?_) hothers ?_, .inl ⟨?_, by rw [hv]⟩⟩
    · rw [Table.get?_erase, if_neg hl]
    · rw [Table.get?_erase, if_pos rfl, hnone]
      exact .absent
    · intro other hm hk
      have hin : other ∈ live.filter fun x => x.key = lease.key := Multiset.mem_filter.mpr ⟨hm, hk⟩
      rw [hnone] at hin
      exact Multiset.notMem_zero other hin
  · next hle =>
    refine ⟨h.frame lease.key (fun l hl => ?_) hothers ?_, .inr ⟨?_, rfl⟩⟩
    · rw [Table.get?_insert, if_neg hl]
    · rw [Table.get?_insert, if_pos rfl]
      exact hmore hle
    · obtain ⟨other, hm⟩ := (hmore hle).exists_lease
      obtain ⟨hin, hk⟩ := Multiset.mem_filter.mp hm
      exact ⟨other, hin, hk, ((hmore hle).value_eq hm).trans hv.symm⟩

end MulticastTunnel.Registry
