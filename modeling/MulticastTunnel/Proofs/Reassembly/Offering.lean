import MulticastTunnel.Proofs.Keyed.Contents
import MulticastTunnel.Reassembly.Reassembler

/-!
# Offering a fragment

All that an offer can come to, and what it leaves of the reassembler. An offer
looks at the slot of its own datagram, and at how many slots are taken if there
is none; it writes that slot and no other.
-/

namespace MulticastTunnel.Reassembly

open Keyed

/-- The datagram that was completed, if one was. -/
def Admission.datagrams : Admission → List Packet
  | .complete d => [d]
  | .started | .progress | .denied | .dropped => []

namespace Reassembler

variable {r r' s : Reassembler} {key : FragmentKey} {f : Fragment} {p : Packet} {now : Nat}
  {a : Admission}

/-- The buffer that a fragment of the datagram would go into. -/
def buffer (r : Reassembler) (key : FragmentKey) (now : Nat) : Buffer :=
  (r.cache.get? key).getD (.fresh now)

theorem exists_key_of_isFragment (h : p.isFragment = true) :
    ∃ key f, FragmentKey.of? p = some key ∧ p.fragmentInfo = some f := by
  obtain ⟨f, hf⟩ := Option.isSome_iff_exists.mp h
  have hinfo : p.fragmentInfo = some f := hf
  rw [FragmentKey.of?, hinfo]
  exact ⟨_, f, rfl, rfl⟩

theorem key_of_not_isFragment (h : ¬ p.isFragment = true) :
    FragmentKey.of? p = none ∧ p.fragmentInfo = none := by
  have hinfo : p.fragmentInfo = none := by
    cases hf : p.fragmentInfo with
    | none => rfl
    | some f => exact absurd (Option.isSome_iff_exists.mpr ⟨f, hf⟩) h
  rw [FragmentKey.of?, hinfo]
  exact ⟨rfl, rfl⟩

/-- A whole packet is no business of the buffers. -/
theorem offer_of_not_isFragment (h : ¬ p.isFragment = true) :
    r.offer p now = (.dropped, r) := by
  obtain ⟨hkey, hinfo⟩ := key_of_not_isFragment h
  simp only [offer, hkey, hinfo]

/-- What the offer of a fragment comes to. -/
inductive Offered (r : Reassembler) (key : FragmentKey) (f : Fragment) (p : Packet) (now : Nat) :
    Admission → Reassembler → Prop
  | denied : r.cache.get? key = none → r.limits.slots ≤ r.cache.size →
      Offered r key f p now .denied
        { r with stats := { r.stats with denied := r.stats.denied + 1 } }
  | refused : (r.buffer key now).add? p f = none →
      Offered r key f p now .dropped r.countDropped
  /-- The datagram is complete and cannot be rebuilt. -/
  | discarded {b : Buffer} : (r.buffer key now).add? p f = some b → b.isComplete = true →
      (∀ d, b.assemble? ≠ some (.ok d)) →
      Offered r key f p now .dropped (countDropped { r with cache := r.cache.erase key })
  | complete {b : Buffer} {d : Packet} : (r.buffer key now).add? p f = some b →
      b.isComplete = true → b.assemble? = some (.ok d) →
      Offered r key f p now (.complete d)
        { r with
          cache := r.cache.erase key
          stats := { r.stats with completed := r.stats.completed + 1 } }
  | started {b : Buffer} : r.cache.get? key = none → r.cache.size < r.limits.slots →
      (r.buffer key now).add? p f = some b → b.isComplete = false →
      Offered r key f p now .started { r with cache := r.cache.insert key b }
  | progress {b : Buffer} : (r.cache.get? key).isSome = true →
      (r.buffer key now).add? p f = some b → b.isComplete = false →
      Offered r key f p now .progress { r with cache := r.cache.insert key b }

theorem offered_offer (r : Reassembler) (now : Nat) (hkey : FragmentKey.of? p = some key)
    (hinfo : p.fragmentInfo = some f) :
    Offered r key f p now (r.offer p now).1 (r.offer p now).2 := by
  simp only [offer, hkey, hinfo]
  split
  · rename_i hfull
    exact .denied (Option.isNone_iff_eq_none.mp hfull.1) hfull.2
  rename_i hroom
  split
  · rename_i hadd
    exact .refused hadd
  rename_i b hadd
  split
  · rename_i hc
    simp only [release]
    split
    · rename_i d hd
      exact .complete hadd hc hd
    · rename_i hd
      exact .discarded hadd hc hd
  · rename_i hc
    have hc : b.isComplete = false := by simpa using hc
    cases hg : r.cache.get? key with
    | none =>
      refine .started hg (Nat.lt_of_not_le fun hle => hroom ⟨?_, hle⟩) hadd hc
      rw [hg]
      rfl
    | some held => exact .progress (by rw [hg]; rfl) hadd hc

namespace Offered

theorem limits (h : Offered r key f p now a s) : s.limits = r.limits := by
  cases h <;> rfl

theorem waiting (h : Offered r key f p now a s) : s.waiting = r.waiting := by
  cases h <;> rfl

/-- Other datagrams keep their slots as they are. -/
theorem frame (h : Offered r key f p now a s) {l : FragmentKey} (hl : l ≠ key) :
    s.cache.get? l = r.cache.get? l := by
  cases h with
  | denied => rfl
  | refused => rfl
  | discarded => exact (Table.get?_erase r.cache key l).trans (if_neg hl)
  | complete => exact (Table.get?_erase r.cache key l).trans (if_neg hl)
  | started => exact (Table.get?_insert r.cache key l _).trans (if_neg hl)
  | progress => exact (Table.get?_insert r.cache key l _).trans (if_neg hl)

end Offered

end Reassembler

end MulticastTunnel.Reassembly
