import MulticastTunnel.Proofs.Reassembly.Accounting

/-!
# The age of buffers

A buffer keeps the time at which its datagram was begun, however many fragments go into it. So
what an operation leaves was begun at that moment, or is as old as it was; and where datagrams
that are too old were dropped first, all that is left is young.
-/

namespace MulticastTunnel.Reassembly

open Keyed

theorem Buffer.created_add? {b c : Buffer} {p : Packet} {f : Fragment} (h : b.add? p f = some c) :
    c.created = b.created := by
  simp only [Buffer.add?] at h
  split at h
  · cases h
  split at h
  · cases h
  split at h
  · cases h
  split at h
  · cases h
  · cases h
    rfl

namespace Reassembler

variable {r s t : Reassembler} {os : List (Reassembler × Packet)} {now : Nat}
  {key : FragmentKey} {b : Buffer}

theorem isEmpty_iff : r.isEmpty = true ↔ ∀ key, r.cache.get? key = none := by
  constructor
  · intro h key
    have hnil : r.cache.toList = [] := List.isEmpty_iff.mp h
    rw [Table.get?, hnil]
    rfl
  · intro h
    rw [isEmpty, Table.eq_empty_of_get? h]
    rfl

/-- What `s` holds was begun at the moment, or `r` holds the same datagram with the same age. -/
def Ages (now : Nat) (r s : Reassembler) : Prop :=
  ∀ key b, s.cache.get? key = some b →
    b.created = now ∨ ∃ b', r.cache.get? key = some b' ∧ b'.created = b.created

namespace Ages

theorem of_get? (h : ∀ key b, s.cache.get? key = some b → r.cache.get? key = some b) :
    Ages now r s := fun key b hb => .inr ⟨b, h key b hb, rfl⟩

theorem refl (now : Nat) (r : Reassembler) : Ages now r r := .of_get? fun _ _ h => h

theorem trans (h : Ages now r s) (h' : Ages now s t) : Ages now r t := by
  intro key b hb
  obtain hnow | ⟨b', hb', hage⟩ := h' key b hb
  · exact .inl hnow
  · obtain hnow | ⟨b'', hb'', hage'⟩ := h key b' hb'
    · exact .inl (hage.symm.trans hnow)
    · exact .inr ⟨b'', hb'', hage'.trans hage⟩

theorem erase (now : Nat) (r : Reassembler) (key : FragmentKey) :
    Ages now r { r with cache := r.cache.erase key } := by
  refine .of_get? fun l b hb => ?_
  have hb : (r.cache.erase key).get? l = some b := hb
  rw [Table.get?_erase] at hb
  split at hb
  · cases hb
  · exact hb

/-- A fragment goes into the buffer of its datagram, or into one that is begun for it. -/
theorem insert {c : Buffer} {p : Packet} {f : Fragment}
    (hadd : (r.buffer key now).add? p f = some c) :
    Ages now r { r with cache := r.cache.insert key c } := by
  intro l b hb
  have hb : (r.cache.insert key c).get? l = some b := hb
  rw [Table.get?_insert] at hb
  split at hb
  · next hl =>
    cases hb
    subst hl
    -- The fragment itself changes no time, so it matters only if the buffer was held before.
    rw [Buffer.created_add? hadd, buffer]
    cases hheld : r.cache.get? l with
    | none => exact .inl rfl
    | some held => exact .inr ⟨held, rfl, rfl⟩
  · exact .inr ⟨b, hb, rfl⟩

end Ages

/-- What an offer leaves under the same limits. -/
theorem ages_offer (r : Reassembler) (p : Packet) (now : Nat) :
    Ages now r (r.offer p now).2 ∧ (r.offer p now).2.limits = r.limits := by
  by_cases hp : p.isFragment = true
  · obtain ⟨key, f, hkey, hinfo⟩ := exists_key_of_isFragment hp
    have ho := offered_offer r now hkey hinfo
    refine ⟨?_, ho.limits⟩
    generalize r.offer p now = o at ho ⊢
    obtain ⟨a, s⟩ := o
    cases ho with
    | denied => exact .refl now r
    | refused => exact .refl now r
    | discarded => exact .erase now r key
    | complete => exact .erase now r key
    | started _ _ hadd _ => exact .insert hadd
    | progress _ hadd _ => exact .insert hadd
  · rw [offer_of_not_isFragment hp]
    exact ⟨.refl now r, rfl⟩

theorem Offers.ages (h : Offers now r os s) : Ages now r s ∧ s.limits = r.limits := by
  induction h with
  | refl r => exact ⟨.refl now r, rfl⟩
  | queue waiting octets _ ih => exact ih
  | @offer r s os p _ ih =>
    obtain ⟨hage, hlimits⟩ := ages_offer r p now
    exact ⟨hage.trans ih.1, ih.2.trans hlimits⟩

theorem ages_process (r : Reassembler) (p : Packet) (now : Nat) :
    Ages now r (r.process p now).2 ∧ (r.process p now).2.limits = r.limits :=
  (offers_apply (.process p now) r).ages

/-- Nothing that is too old is left before anything is offered. -/
theorem not_isExpired_of_cleared (h : (r.cleared (.evict now)).cache.get? key = some b) :
    r.isExpired now b = false := by
  simp only [cleared] at h
  split at h
  · next hnone =>
    have hm := Table.get?_eq_some_iff.mp h
    have hall := List.filter_eq_nil_iff.mp (List.isEmpty_iff.mp hnone) _ hm
    simpa using hall
  · have hm : (key, b) ∈ r.cache.toList.filter fun e => !r.isExpired now e.2 :=
      Table.get?_eq_some_iff.mp h
    simpa using (List.mem_filter.mp hm).2

/-- Once what is too old was dropped, all that is left is younger than the timeout. -/
theorem young_evict (h : (r.evict now).2.cache.get? key = some b) :
    now ≤ b.created + r.limits.timeout := by
  obtain hnow | ⟨b', hb', hage⟩ := (offers_apply (.evict now) r).ages.1 key b h
  · have hnow : b.created = now := hnow
    omega
  · have hyoung := not_isExpired_of_cleared hb'
    simp only [isExpired, hage, decide_eq_false_iff_not] at hyoung
    omega

theorem limits_evict (r : Reassembler) (now : Nat) : (r.evict now).2.limits = r.limits := by
  have hcleared : (r.cleared (.evict now)).limits = r.limits := by
    simp only [cleared]
    split <;> rfl
  exact (offers_apply (.evict now) r).ages.2.trans hcleared

end Reassembler

end MulticastTunnel.Reassembly
