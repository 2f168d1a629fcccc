import Mathlib.Data.List.Dedup
import MulticastTunnel.Proofs.Packet.Headers
import MulticastTunnel.Proofs.Reassembly.Completion
import MulticastTunnel.Proofs.Reassembly.Offering
import MulticastTunnel.Proofs.Reassembly.Promptness

/-!
# Datagrams do not disturb each other

While there is a slot for every datagram, no fragment has to wait, and what comes
of one depends on the slot of its own datagram alone. So the fragments of a
datagram are treated as if no others had come, whatever the others are.
-/

namespace MulticastTunnel.Reassembly

open Keyed

variable {keys : List FragmentKey} {key : FragmentKey} {f : Fragment} {p : Packet} {now : Nat}
  {r r' : Reassembler}

/-- The packets are fragments of one datagram: they agree on where they come from
and go to and on their identification, and in IPv4 on the protocol. -/
def SameDatagram (p q : Packet) : Prop :=
  p.source = q.source ∧ p.destination = q.destination ∧
    p.fragmentInfo.map (·.identification) = q.fragmentInfo.map (·.identification) ∧
    (p.family = .ipv4 → p.protocol = q.protocol)

/-- Fragments have one key when they are fragments of one datagram. -/
theorem FragmentKey.of?_eq_of?_iff {p q : Packet} (hp : p.isFragment = true)
    (hq : q.isFragment = true) : of? p = of? q ↔ SameDatagram p q := by
  obtain ⟨f, hf⟩ := Option.isSome_iff_exists.mp hp
  obtain ⟨g, hg⟩ := Option.isSome_iff_exists.mp hq
  have hf : p.fragmentInfo = some f := hf
  have hg : q.fragmentInfo = some g := hg
  have hfamily : p.source = q.source → p.family = q.family := by
    intro h
    rw [← p.family_source, ← q.family_source, h]
  simp only [of?, SameDatagram, hf, hg, Option.map_some, Option.some.injEq, FragmentKey.mk.injEq]
  constructor
  · rintro ⟨hs, hd, hi, hprotocol⟩
    refine ⟨hs, hd, hi, fun h4 => ?_⟩
    rw [← hfamily hs, h4] at hprotocol
    exact Option.some.inj hprotocol
  · rintro ⟨hs, hd, hi, hprotocol⟩
    refine ⟨hs, hd, hi, ?_⟩
    rw [← hfamily hs]
    cases h : p.family with
    | ipv4 => simp only [hprotocol h]
    | ipv6 => rfl

namespace Reassembler

/-! ## Enough slots -/

/-- Nothing waits, and there are slots for all keys, the ones in the cache among them. -/
structure Roomy (keys : List FragmentKey) (r : Reassembler) : Prop where
  waiting : r.waiting = []
  known : ∀ key b, r.cache.get? key = some b → key ∈ keys
  slots : keys.length ≤ r.limits.slots

/-- There is a slot for a datagram that has none. -/
theorem Roomy.size_lt (h : Roomy keys r) (hk : key ∈ keys) (hnone : r.cache.get? key = none) :
    r.cache.size < r.limits.slots := by
  have hheld : ∀ l ∈ r.cache.keys, ∃ b, r.cache.get? l = some b := by
    intro l hl
    obtain ⟨⟨l, b⟩, hm, rfl⟩ := List.mem_map.mp hl
    exact ⟨b, Table.get?_eq_some_iff.mpr hm⟩
  have hnot : key ∉ r.cache.keys := by
    intro hm
    obtain ⟨b, hb⟩ := hheld key hm
    rw [hnone] at hb
    cases hb
  -- The key and those in the cache are all different, and all of them have a slot.
  have hsub : key :: r.cache.keys ⊆ keys := by
    intro l hl
    rcases List.mem_cons.mp hl with rfl | hl
    · exact hk
    · obtain ⟨b, hb⟩ := hheld l hl
      exact h.known l b hb
  have hle := (List.subperm_of_subset (List.nodup_cons.mpr ⟨hnot, r.cache.nodup⟩) hsub).length_le
  have hsize : r.cache.keys.length = r.cache.size := List.length_map _
  rw [List.length_cons, hsize] at hle
  exact Nat.lt_of_lt_of_le hle h.slots

theorem Roomy.not_full (h : Roomy keys r) (hk : key ∈ keys) :
    ¬ ((r.cache.get? key).isNone = true ∧ r.limits.slots ≤ r.cache.size) := fun hfull =>
  Nat.not_lt_of_le hfull.2 (h.size_lt hk (Option.isNone_iff_eq_none.mp hfull.1))

theorem Roomy.offer (h : Roomy keys r) (hk : key ∈ keys) (hkey : FragmentKey.of? p = some key)
    (hinfo : p.fragmentInfo = some f) (now : Nat) : Roomy keys (r.offer p now).2 := by
  have ho := offered_offer r now hkey hinfo
  refine ⟨ho.waiting.trans h.waiting, fun l b hb => ?_, ho.limits ▸ h.slots⟩
  by_cases hl : l = key
  · exact hl ▸ hk
  · rw [ho.frame hl] at hb
    exact h.known l b hb

/-- What comes of a fragment depends on the slot of its datagram. -/
theorem offer_congr (h : Roomy keys r) (h' : Roomy keys r') (hk : key ∈ keys)
    (hkey : FragmentKey.of? p = some key) (hinfo : p.fragmentInfo = some f)
    (hget : r'.cache.get? key = r.cache.get? key) (now : Nat) :
    (r'.offer p now).1 = (r.offer p now).1 ∧
      (r'.offer p now).2.cache.get? key = (r.offer p now).2.cache.get? key := by
  have hfull := h.not_full hk
  have hfull' := h'.not_full hk
  rw [hget] at hfull'
  simp only [Reassembler.offer, hkey, hinfo, hget, if_neg hfull, if_neg hfull']
  cases ((r.cache.get? key).getD (.fresh now)).add? p f with
  | none => exact ⟨rfl, hget⟩
  | some b =>
    cases hc : b.isComplete with
    | false => simp [hc, Table.get?_insert]
    | true =>
      simp only [hc, if_true, release]
      split
      · exact ⟨rfl, by simp only [Table.get?_erase, if_true]⟩
      · exact ⟨rfl, by simp only [countDropped, Table.get?_erase, if_true]⟩

/-- A fragment is settled at once, for nothing else waits. -/
theorem Roomy.process_eq (h : Roomy keys r) (hk : key ∈ keys)
    (hkey : FragmentKey.of? p = some key) (hinfo : p.fragmentInfo = some f) :
    r.process p now = (.ok (r.offer p now).1.datagrams, (r.offer p now).2) := by
  have hfrag : p.isFragment = true := Option.isSome_iff_exists.mpr ⟨f, hinfo⟩
  have ho := offered_offer r now hkey hinfo
  have hwaiting : (r.offer p now).2.waiting = [] := ho.waiting.trans h.waiting
  have hretry : (r.offer p now).2.retry now = ([], (r.offer p now).2) := by
    rw [retry, hwaiting]
    rfl
  simp only [process, hfrag, Bool.not_true, Bool.false_eq_true, if_false]
  generalize r.offer p now = o at ho hretry ⊢
  obtain ⟨a, s⟩ := o
  cases a with
  | denied =>
    cases ho with
    | denied hnone hfull => exact absurd hfull (Nat.not_le_of_lt (h.size_lt hk hnone))
  | complete d => simp only [hretry, Admission.datagrams]
  | started => simp only [hretry, Admission.datagrams]
  | progress => rfl
  | dropped => rfl

/-! ## Two runs -/

/-- The results for the fragments of one datagram. -/
def resultsOf (key : FragmentKey) (input : List (Packet × Nat))
    (results : List (Except ReassemblyError (List Packet))) :
    List (Except ReassemblyError (List Packet)) :=
  ((input.zip results).filter fun e => FragmentKey.of? e.1.1 = some key).map (·.2)

/-- The fragments of one datagram. -/
def ownOf (key : FragmentKey) (input : List (Packet × Nat)) : List (Packet × Nat) :=
  input.filter fun e => FragmentKey.of? e.1 = some key

/-- Two reassemblers with the same in one slot, one of which gets nothing but the
fragments for that slot. -/
theorem Roomy.processAll (input : List (Packet × Nat)) (h : Roomy keys r) (h' : Roomy keys r')
    (hget : r'.cache.get? key = r.cache.get? key)
    (hin : ∀ e ∈ input, ∀ l, FragmentKey.of? e.1 = some l → l ∈ keys) :
    resultsOf key input (r.processAll input).1 = (r'.processAll (ownOf key input)).1 ∧
      (r'.processAll (ownOf key input)).2.cache.get? key =
        (r.processAll input).2.cache.get? key ∧
      Roomy keys (r.processAll input).2 := by
  induction input generalizing r r' with
  | nil => exact ⟨rfl, hget, h⟩
  | cons e input ih =>
    obtain ⟨p, now⟩ := e
    obtain ⟨hp, hrest⟩ := List.forall_mem_cons.mp hin
    simp only [Reassembler.processAll, resultsOf, ownOf, List.zip_cons_cons]
    by_cases hfrag : p.isFragment = true
    · obtain ⟨own, f, hkey, hinfo⟩ := exists_key_of_isFragment hfrag
      have hown := hp own hkey
      have hoffer := h.offer hown hkey hinfo now
      rw [h.process_eq hown hkey hinfo]
      by_cases hsame : own = key
      · subst hsame
        obtain ⟨ha, hslot⟩ := offer_congr h h' hown hkey hinfo hget now
        rw [List.filter_cons_of_pos (by simp [hkey]), List.filter_cons_of_pos (by simp [hkey]),
          Reassembler.processAll, h'.process_eq hown hkey hinfo]
        obtain ⟨hresults, hget', hroomy⟩ := ih hoffer (h'.offer hown hkey hinfo now) hslot hrest
        refine ⟨?_, hget', hroomy⟩
        rw [List.map_cons, ha]
        exact congrArg _ hresults
      · -- A fragment for another slot is offered in the first run only.
        rw [List.filter_cons_of_neg (by simp [hkey, hsame]),
          List.filter_cons_of_neg (by simp [hkey, hsame])]
        refine ih hoffer h' ?_ hrest
        rw [hget, (offered_offer r now hkey hinfo).frame (Ne.symm hsame)]
    · -- A whole packet is handed through.
      obtain ⟨hkey, -⟩ := key_of_not_isFragment hfrag
      have hwhole : r.process p now = (.ok [p], r) := by
        simp only [process, hfrag, Bool.not_false, if_true]
      rw [List.filter_cons_of_neg (by simp [hkey]), List.filter_cons_of_neg (by simp [hkey]),
        hwhole]
      exact ih h h' hget hrest

/-- **Isolation**: with a slot for every key that the fragments carry, the results
for the fragments with one key are those of a run without the others, and so is what
the cache holds of their datagram. The others, with another source, destination,
identification or protocol, change nothing of it and never make it wait. -/
theorem processAll_isolated {limits : Limits} {input : List (Packet × Nat)}
    (hkeys : (input.filterMap fun e => FragmentKey.of? e.1).dedup.length ≤ limits.slots)
    (key : FragmentKey) :
    resultsOf key input (({ limits } : Reassembler).processAll input).1 =
        (({ limits } : Reassembler).processAll (ownOf key input)).1 ∧
      (({ limits } : Reassembler).processAll (ownOf key input)).2.cache.get? key =
        (({ limits } : Reassembler).processAll input).2.cache.get? key ∧
      (({ limits } : Reassembler).processAll input).2.waiting = [] ∧
      ∀ p q : Packet, p.isFragment = true → q.isFragment = true →
        (FragmentKey.of? p = FragmentKey.of? q ↔ SameDatagram p q) := by
  have hfresh : Roomy (input.filterMap fun e => FragmentKey.of? e.1).dedup { limits } :=
    ⟨rfl, fun _ _ h => (by cases h), hkeys⟩
  have hin : ∀ e ∈ input, ∀ l, FragmentKey.of? e.1 = some l →
      l ∈ (input.filterMap fun e => FragmentKey.of? e.1).dedup := fun e he l hl =>
    List.mem_dedup.mpr (List.mem_filterMap.mpr ⟨e, he, hl⟩)
  obtain ⟨hresults, hslot, hroomy⟩ := Roomy.processAll input hfresh hfresh rfl hin
  exact ⟨hresults, hslot, hroomy.waiting, fun p q hp hq => FragmentKey.of?_eq_of?_iff hp hq⟩

/-- A datagram is completed although fragments of another one come between its own,
which have to be discarded. -/
theorem interleaved_isolated :
    ([(headFragment, 0), (overlongStart, 1), (overlongEnd, 2), (tailFragment, 3)].filterMap
        fun e => FragmentKey.of? e.1).dedup.length ≤ ({ slots := 2 } : Limits).slots ∧
      resultsOf exampleKey
          [(headFragment, 0), (overlongStart, 1), (overlongEnd, 2), (tailFragment, 3)]
          (({ limits := { slots := 2 } } : Reassembler).processAll
            [(headFragment, 0), (overlongStart, 1), (overlongEnd, 2), (tailFragment, 3)]).1 =
        [.ok [], .ok [twoFragments.whole]] := by
  have hkeys : ([(headFragment, 0), (overlongStart, 1), (overlongEnd, 2),
      (tailFragment, 3)].filterMap fun e => FragmentKey.of? e.1).dedup.length ≤
        ({ slots := 2 } : Limits).slots := by
    decide +kernel
  refine ⟨hkeys, ?_⟩
  obtain ⟨hresults, -⟩ := processAll_isolated hkeys exampleKey
  rw [hresults]
  decide +kernel

end Reassembler

end MulticastTunnel.Reassembly
