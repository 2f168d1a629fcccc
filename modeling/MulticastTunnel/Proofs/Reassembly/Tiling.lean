import Mathlib.Tactic.Common
import MulticastTunnel.Reassembly.Buffer

/-!
# Datagrams in fragments

Fragments that tile the payload of a datagram: in the order of their data, one
begins where the one before ends, and only the last says that nothing follows.
Every octet of the payload is then in one fragment and no other.
-/

namespace MulticastTunnel.Reassembly

variable {key : FragmentKey} {start n : Nat} {p q : Packet} {ps : List Packet}

/-- Index of the first carried octet in the payload of the whole datagram. -/
def dataStart (p : Packet) : Nat := (p.fragmentInfo.map (·.start)).getD 0

/-- Index of the first octet behind those carried. -/
def dataEnd (p : Packet) : Nat := dataStart p + p.payload.length

/-- Whether a fragment carries the octet with index `n`. -/
def Covers (p : Packet) (n : Nat) : Prop := dataStart p ≤ n ∧ n < dataEnd p

/-- What fragments carry, one behind the other. -/
def dataOf (ps : List Packet) : Bytes := ps.flatMap (·.payload)

/-- A fragment of one datagram that starts at an index and says whether more follows. -/
structure IsPart (key : FragmentKey) (start : Nat) (more : Bool) (p : Packet) : Prop where
  key : FragmentKey.of? p = some key
  info : ∃ f, p.fragmentInfo = some f ∧ f.start = start ∧ f.more = more

/-- Fragments of one datagram that carry what it holds from an index on. All
but the last carry whole units of eight octets. -/
inductive Tiles (key : FragmentKey) : Nat → List Packet → Prop
  | last {start : Nat} {p : Packet} : IsPart key start false p → Tiles key start [p]
  | more {start : Nat} {p : Packet} {ps : List Packet} : IsPart key start true p →
      p.payload ≠ [] → p.payload.length % 8 = 0 → Tiles key (start + p.payload.length) ps →
      Tiles key start (p :: ps)

theorem IsPart.dataStart_eq {more : Bool} (h : IsPart key start more p) : dataStart p = start := by
  obtain ⟨f, hf, hs, -⟩ := h.info
  rw [dataStart, hf, ← hs]
  rfl

namespace Tiles

theorem key_eq (h : Tiles key start ps) (hp : p ∈ ps) : FragmentKey.of? p = some key := by
  induction h with
  | last hpart => cases List.mem_singleton.mp hp; exact hpart.key
  | more hpart _ _ _ ih =>
    rcases List.mem_cons.mp hp with rfl | hp
    · exact hpart.key
    · exact ih hp

theorem dataStart_head (h : Tiles key start (p :: ps)) : dataStart p = start := by
  cases h with
  | last hpart => exact hpart.dataStart_eq
  | more hpart _ _ _ => exact hpart.dataStart_eq

theorem bounds (h : Tiles key start ps) (hp : p ∈ ps) :
    start ≤ dataStart p ∧ dataEnd p ≤ start + (dataOf ps).length := by
  induction h with
  | last hpart =>
    cases List.mem_singleton.mp hp
    simp [dataEnd, dataOf, hpart.dataStart_eq]
  | more hpart _ _ _ ih =>
    simp only [dataOf, List.flatMap_cons, List.length_append] at ih ⊢
    rcases List.mem_cons.mp hp with rfl | hp
    · rw [dataEnd, hpart.dataStart_eq]
      omega
    · have := ih hp
      omega

/-- What lies where a fragment covers is what the fragment carries. -/
theorem getElem?_dataOf (h : Tiles key start ps) (hp : p ∈ ps) (hn : Covers p n) :
    (dataOf ps)[n - start]? = p.payload[n - dataStart p]? := by
  induction h with
  | last hpart =>
    cases List.mem_singleton.mp hp
    simp [dataOf, hpart.dataStart_eq]
  | @more start q ps hpart _ _ hrest ih =>
    simp only [dataOf, List.flatMap_cons] at ih ⊢
    rcases List.mem_cons.mp hp with rfl | hp
    · obtain ⟨hge, hlt⟩ := hn
      rw [dataEnd] at hlt
      rw [hpart.dataStart_eq] at hge hlt ⊢
      exact List.getElem?_append_left (by omega)
    · have hb := (hrest.bounds hp).1
      have hge := hn.1
      rw [List.getElem?_append_right (by omega), ← ih hp]
      congr 1
      omega

theorem exists_covers (h : Tiles key start ps) (hn : start ≤ n)
    (hlt : n < start + (dataOf ps).length) : ∃ p ∈ ps, Covers p n := by
  induction h with
  | @last start p hpart =>
    refine ⟨p, List.mem_singleton_self p, ?_⟩
    simp only [dataOf, List.flatMap_cons, List.flatMap_nil, List.append_nil] at hlt
    simp only [Covers, dataEnd, hpart.dataStart_eq]
    exact ⟨hn, hlt⟩
  | @more start p ps hpart _ _ _ ih =>
    by_cases hp : n < start + p.payload.length
    · refine ⟨p, List.mem_cons_self, ?_⟩
      simp only [Covers, dataEnd, hpart.dataStart_eq]
      exact ⟨hn, hp⟩
    · simp only [dataOf, List.flatMap_cons, List.length_append] at ih hlt
      obtain ⟨q, hq, hc⟩ := ih (by omega) (by omega)
      exact ⟨q, List.mem_cons_of_mem p hq, hc⟩

/-- Some fragment ends where the data ends. -/
theorem exists_dataEnd (h : Tiles key start ps) :
    ∃ p ∈ ps, dataEnd p = start + (dataOf ps).length := by
  induction h with
  | @last start p hpart =>
    exact ⟨p, List.mem_singleton_self p, by simp [dataEnd, dataOf, hpart.dataStart_eq]⟩
  | more _ _ _ _ ih =>
    obtain ⟨q, hq, he⟩ := ih
    refine ⟨q, List.mem_cons_of_mem _ hq, ?_⟩
    simp only [dataOf, List.flatMap_cons, List.length_append] at he ⊢
    omega

theorem eq_of_covers (h : Tiles key start ps) (hp : p ∈ ps) (hq : q ∈ ps) (hpn : Covers p n)
    (hqn : Covers q n) : p = q := by
  induction h with
  | last _ => rw [List.mem_singleton.mp hp, List.mem_singleton.mp hq]
  | @more start r ps hpart _ _ hrest ih =>
    -- The first fragment ends before any other starts.
    have apart : ∀ s ∈ ps, Covers s n → ¬ Covers r n := by
      intro s hs hsn hrn
      have h₁ := (hrest.bounds hs).1
      have h₂ := hsn.1
      have h₃ := hrn.2
      rw [dataEnd, hpart.dataStart_eq] at h₃
      omega
    rcases List.mem_cons.mp hp with rfl | hp' <;> rcases List.mem_cons.mp hq with rfl | hq'
    · rfl
    · exact absurd hpn (apart q hq' hqn)
    · exact absurd hqn (apart p hp' hpn)
    · exact ih hp' hq'

/-- Among fragments that carry something, only the one that ends the data says
that nothing follows. -/
theorem info_eq (h : Tiles key start ps) (hne : ∀ p ∈ ps, p.payload ≠ []) (hp : p ∈ ps) :
    ∃ f, p.fragmentInfo = some f ∧ f.start = dataStart p ∧
      (f.more = false ↔ dataEnd p = start + (dataOf ps).length) ∧
      (f.more = true → p.payload.length % 8 = 0) := by
  induction h with
  | last hpart =>
    cases List.mem_singleton.mp hp
    obtain ⟨f, hf, hs, hm⟩ := hpart.info
    refine ⟨f, hf, hs.trans hpart.dataStart_eq.symm, iff_of_true hm ?_, ?_⟩
    · simp [dataEnd, dataOf, hpart.dataStart_eq]
    · intro h
      rw [hm] at h
      cases h
  | @more start q ps hpart _ h8 hrest ih =>
    rcases List.mem_cons.mp hp with rfl | hp
    · obtain ⟨f, hf, hs, hm⟩ := hpart.info
      refine ⟨f, hf, hs.trans hpart.dataStart_eq.symm, iff_of_false (by simp [hm]) ?_, fun _ => h8⟩
      -- Some fragment follows, and it carries something.
      obtain ⟨q, hq⟩ : ∃ q, q ∈ ps := by cases hrest <;> exact ⟨_, List.mem_cons_self⟩
      have hpos := List.length_pos_iff.mpr (hne q (List.mem_cons_of_mem _ hq))
      have hb := hrest.bounds hq
      simp only [dataEnd, dataOf, List.flatMap_cons, List.length_append, hpart.dataStart_eq] at hb ⊢
      omega
    · obtain ⟨f, hf, hs, hm, h8'⟩ := ih (fun p hp => hne p (List.mem_cons_of_mem _ hp)) hp
      refine ⟨f, hf, hs, ?_, h8'⟩
      rw [hm]
      simp only [dataOf, List.flatMap_cons, List.length_append]
      omega

theorem nodup (h : Tiles key start ps) (hne : ∀ p ∈ ps, p.payload ≠ []) : ps.Nodup := by
  induction h with
  | last _ => exact List.pairwise_singleton _ _
  | @more start q ps hpart hq _ hrest ih =>
    refine List.nodup_cons.mpr ⟨fun hm => ?_, ih fun p hp => hne p (List.mem_cons_of_mem _ hp)⟩
    have hb := (hrest.bounds hm).1
    have hpos := List.length_pos_iff.mpr hq
    rw [hpart.dataStart_eq] at hb
    omega

end Tiles

/-- A datagram in fragments, in the order of their data, and what they make up
together. -/
structure Fragmented where
  key : FragmentKey
  first : Packet
  rest : List Packet
  whole : Packet
  tiles : Tiles key 0 (first :: rest)
  /-- The payload is not larger than a datagram can be. -/
  small : (dataOf (first :: rest)).length ≤ maxDatagramLength
  reassembled : first.reassembled (dataOf (first :: rest)) = .ok whole

namespace Fragmented

def fragments (d : Fragmented) : List Packet := d.first :: d.rest

def payload (d : Fragmented) : Bytes := dataOf d.fragments

/-- Every fragment carries something. -/
def NonEmpty (d : Fragmented) : Prop := ∀ p ∈ d.fragments, p.payload ≠ []

variable {d : Fragmented}

theorem key_eq (hp : p ∈ d.fragments) : FragmentKey.of? p = some d.key := d.tiles.key_eq hp

theorem dataEnd_le (hp : p ∈ d.fragments) : dataEnd p ≤ d.payload.length := by
  have := (d.tiles.bounds hp).2
  rwa [Nat.zero_add] at this

theorem getElem?_payload (hp : p ∈ d.fragments) (hn : Covers p n) :
    d.payload[n]? = p.payload[n - dataStart p]? := d.tiles.getElem?_dataOf hp hn

theorem exists_covers (hn : n < d.payload.length) : ∃ p ∈ d.fragments, Covers p n :=
  d.tiles.exists_covers (Nat.zero_le n) (by rwa [Nat.zero_add])

theorem exists_dataEnd (d : Fragmented) :
    ∃ p ∈ d.fragments, dataEnd p = d.payload.length := by
  have := d.tiles.exists_dataEnd
  rwa [Nat.zero_add] at this

/-- The fragment that starts the datagram is the first one. -/
theorem dataStart_eq_zero_iff (hne : d.NonEmpty) (hp : p ∈ d.fragments) :
    dataStart p = 0 ↔ p = d.first := by
  have hfirst : dataStart d.first = 0 := d.tiles.dataStart_head
  constructor
  · intro h
    have covers : ∀ q ∈ d.fragments, dataStart q = 0 → Covers q 0 := by
      intro q hq h0
      have := List.length_pos_iff.mpr (hne q hq)
      simp only [Covers, dataEnd]
      omega
    exact d.tiles.eq_of_covers hp List.mem_cons_self (covers p hp h)
      (covers d.first List.mem_cons_self hfirst)
  · rintro rfl
    exact hfirst

end Fragmented

end MulticastTunnel.Reassembly
