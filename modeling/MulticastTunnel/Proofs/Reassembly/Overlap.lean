import MulticastTunnel.Proofs.Octets
import MulticastTunnel.Proofs.Reassembly.Absorbing

/-!
# Fragments that overlap

Nothing keeps a sender from repeating fragments, from letting them overlap or
from telling two ends of one datagram. Whatever is offered to a buffer, its
holes are for octets that no accepted fragment covers, and up to the end that
was told they are for all of these. Behind that end a hole may stay for ever
when a fragment reached that far before; it does not when the fragments agree.
-/

namespace MulticastTunnel.Reassembly

/-- A fragment that is offered to a buffer, at the place that its header tells. -/
structure Arrival where
  packet : Packet
  info : Fragment

namespace Arrival

variable (p : Arrival) (n : Nat)

/-- The index of the first octet. -/
def start : Nat := p.info.start

/-- The index behind the last octet. -/
def stop : Nat := p.start + p.packet.payload.length

def Covers : Prop := p.start ≤ n ∧ n < p.stop

instance : Decidable (p.Covers n) := inferInstanceAs (Decidable (_ ∧ _))

/-- The octet for an index. -/
def octet? : Option UInt8 := p.packet.payload[n - p.start]?

end Arrival

namespace Buffer

/-- Offers a fragment to a buffer, behind those that it accepted, the latest first. -/
def offer (s : List Arrival × Buffer) (p : Arrival) : List Arrival × Buffer :=
  match s.2.add? p.packet p.info with
  | some b => (p :: s.1, b)
  | none => s

/-- What a new buffer accepts of the fragments, the latest first, and becomes. -/
def offerAll (created : Nat) (arrivals : List Arrival) : List Arrival × Buffer :=
  arrivals.foldl offer ([], .fresh created)

end Buffer

/-- The latest accepted fragment that covers an index. -/
def latest? (A : List Arrival) (n : Nat) : Option Arrival := A.find? fun p => p.Covers n

/-- The fragment that was the first to start the datagram. -/
def zero? (A : List Arrival) : Option Arrival := A.reverse.find? fun p => p.info.offset = 0

/-- No accepted fragment covers the index. -/
def Uncovered (A : List Arrival) (n : Nat) : Prop := ∀ p ∈ A, ¬ p.Covers n

instance (A : List Arrival) (n : Nat) : Decidable (Uncovered A n) :=
  inferInstanceAs (Decidable (∀ p ∈ A, _))

/-- All accepted fragments are of a payload with `T` octets: one that ends it ends
there, and one with more behind it ends before. -/
def Agree (T : Nat) (A : List Arrival) : Prop :=
  ∀ p ∈ A, if p.info.more then p.stop < T else p.stop = T

instance (T : Nat) (A : List Arrival) : Decidable (Agree T A) :=
  inferInstanceAs (Decidable (∀ p ∈ A, _))

variable {A : List Arrival} {b c : Buffer} {p q : Arrival} {ss : List Span}
  {total : Option Nat} {T n : Nat}

@[simp] theorem uncovered_cons : Uncovered (p :: A) n ↔ ¬ p.Covers n ∧ Uncovered A n := by
  simp [Uncovered]

theorem latest?_eq_none_iff : latest? A n = none ↔ Uncovered A n := by
  simp [latest?, Uncovered]

theorem latest?_cons_of_covers (h : p.Covers n) : latest? (p :: A) n = some p := by
  simp [latest?, h]

theorem latest?_cons_of_not_covers (h : ¬ p.Covers n) : latest? (p :: A) n = latest? A n := by
  simp [latest?, h]

/-- A fragment starts the datagram unless another one did before. -/
theorem zero?_cons : zero? (p :: A) =
    (zero? A).or (if p.info.offset = 0 then some p else none) := by
  rw [zero?, zero?, List.reverse_cons, List.find?_append]
  by_cases h : p.info.offset = 0 <;> simp [h]

theorem Agree.tail (h : Agree T (p :: A)) : Agree T A := fun q hq => h q (List.mem_cons_of_mem _ hq)

/-- A fragment that is accepted is not empty, not too long, and fits the end that is known. -/
theorem add?_eq_some (h : b.add? p.packet p.info = some c) :
    (p.start < p.stop ∧ p.stop ≤ maxDatagramLength) ∧
    (∀ T, b.total = some T → p.stop ≤ T ∧ (p.info.more = false → p.stop = T)) ∧
    c = { b with
      data := Buffer.write b.data p.start p.packet.payload
      total := if p.info.more then b.total else some p.stop
      first := if p.info.offset = 0 ∧ b.first.isNone then some p.packet else b.first
      holes := b.holes.fill p.start (p.stop - 1) p.info.more } := by
  simp only [Buffer.add?] at h
  split at h
  · cases h
  rename_i hne
  split at h
  · cases h
  split at h
  · cases h
  rename_i hsmall
  split at h
  · cases h
  rename_i hfits
  have hpos : 0 < p.packet.payload.length := List.length_pos_iff.mpr (by simpa using hne)
  have hlast : p.info.start + p.packet.payload.length - 1 + 1 = p.stop := by
    simp only [Arrival.stop, Arrival.start]
    omega
  refine ⟨?_, ?_, ?_⟩
  · simp only [Arrival.stop, Arrival.start] at hlast ⊢
    omega
  · intro T hT
    simp only [Buffer.fits, hT, Bool.not_eq_true', Bool.not_eq_false] at hfits
    rw [Bool.and_eq_true, Bool.or_eq_true, decide_eq_true_eq, decide_eq_true_eq, hlast] at hfits
    refine ⟨by omega, fun hm => ?_⟩
    rcases hfits.2 with hm' | he
    · rw [hm] at hm'
      cases hm'
    · exact he
  · rw [hlast] at h
    exact (Option.some.inj h).symm

/-! ## The holes -/

/-- The holes are for octets that are not covered, for all of them up to the end,
and for none behind it while the fragments agree. -/
structure Gaps (A : List Arrival) (total : Option Nat) (ss : List Span) : Prop where
  apart : HoleList.Apart ss
  uncovered : ∀ n, HoleList.Missing ss n → n ≤ boundless ∧ Uncovered A n
  missing : ∀ n, n ≤ boundless → Uncovered A n → (∀ T, total = some T → n < T) →
    HoleList.Missing ss n
  within : ∀ T, total = some T → Agree T A → ∀ n, HoleList.Missing ss n → n < T

theorem gaps_whole : Gaps [] none [⟨0, boundless⟩] where
  apart := HoleList.apart_whole
  uncovered n h := ⟨HoleList.missing_whole.mp h, by simp [Uncovered]⟩
  missing n h _ _ := HoleList.missing_whole.mpr h
  within T h := by cases h

/-- A fragment with more behind it takes what it covers out of the holes. -/
theorem Gaps.cut (h : Gaps A total ss) (hp : p.start < p.stop) :
    Gaps (p :: A) total (ss.flatMap (HoleList.cutSpan p.start (p.stop - 1) true)) := by
  have hmiss : ∀ n, HoleList.Missing (ss.flatMap (HoleList.cutSpan p.start (p.stop - 1) true)) n ↔
      HoleList.Missing ss n ∧ ¬ p.Covers n := by
    intro n
    rw [HoleList.missing_cut, Arrival.Covers]
    refine and_congr_right fun _ => not_congr ?_
    omega
  exact {
    apart := HoleList.apart_cut h.apart (by omega) true
    uncovered := fun n hn =>
      let ⟨hm, hc⟩ := (hmiss n).mp hn
      ⟨(h.uncovered n hm).1, uncovered_cons.mpr ⟨hc, (h.uncovered n hm).2⟩⟩
    missing := fun n hn hu hT =>
      let ⟨hc, hu⟩ := uncovered_cons.mp hu
      (hmiss n).mpr ⟨h.missing n hn hu hT, hc⟩
    within := fun T hT ha n hn => h.within T hT ha.tail n ((hmiss n).mp hn).1 }

/-- A fragment that ends the datagram takes also what lies behind it without a gap. -/
theorem Gaps.cut_end (h : Gaps A total ss) (hp : p.start < p.stop)
    (hfits : ∀ T, total = some T → p.stop = T)
    (hnone : total = none → ∀ q ∈ A, q.info.more = true) :
    Gaps (p :: A) (some p.stop) (ss.flatMap (HoleList.cutSpan p.start (p.stop - 1) false)) := by
  have hr : p.start ≤ p.stop - 1 := by omega
  refine ⟨HoleList.apart_cut h.apart hr false, fun n hn => ?_, fun n hn hu hT => ?_,
    fun T hT ha n hn => ?_⟩
  · obtain ⟨hm, hout⟩ := (HoleList.missing_cut_end h.apart hr).mp hn
    refine ⟨(h.uncovered n hm).1, uncovered_cons.mpr ⟨fun hc => ?_, (h.uncovered n hm).2⟩⟩
    simp only [Arrival.Covers] at hc
    omega
  · obtain ⟨hc, hu⟩ := uncovered_cons.mp hu
    have hlt := hT p.stop rfl
    have hm := h.missing n hn hu fun T hT => hfits T hT ▸ hlt
    refine (HoleList.missing_cut_end h.apart hr).mpr ⟨hm, .inl ?_⟩
    by_contra hge
    exact hc ⟨Nat.le_of_not_lt hge, hlt⟩
  · obtain rfl := Option.some.inj hT
    by_contra hge
    obtain ⟨hm, hlt | ⟨hlt, m, h₁, h₂, hgap⟩⟩ := (HoleList.missing_cut_end h.apart hr).mp hn
    · omega
    cases htotal : total with
    | some T =>
      obtain rfl := hfits T htotal
      exact hge (h.within _ htotal ha.tail n hm)
    | none =>
      -- All fragments before end before the octet that this one ends with.
      refine hgap (h.missing m (Nat.le_trans h₂ (h.uncovered n hm).1) (fun q hq hc => ?_) ?_)
      · have hstop := ha q (List.mem_cons_of_mem _ hq)
        rw [if_pos (hnone htotal q hq)] at hstop
        simp only [Arrival.Covers] at hc
        omega
      · intro T hT
        rw [htotal] at hT
        cases hT

/-! ## The buffer -/

/-- What a buffer has of the fragments that it accepted. -/
structure Keeps (A : List Arrival) (b : Buffer) : Prop where
  bounds : ∀ p ∈ A, p.start < p.stop ∧ p.stop ≤ maxDatagramLength
  total : ∀ T, b.total = some T → ∃ p ∈ A, p.info.more = false ∧ p.stop = T
  noTotal : b.total = none → ∀ p ∈ A, p.info.more = true
  first : b.first = (zero? A).map (·.packet)
  data : ∀ n p, latest? A n = some p → b.data[n]? = p.octet? n
  holes : ∃ xs, b.holes.Represents xs ∧ Gaps A b.total (HoleList.spans xs)

theorem keeps_fresh (created : Nat) : Keeps [] (.fresh created) where
  bounds p hp := by cases hp
  total T h := by cases h
  noTotal _ p hp := by cases hp
  first := rfl
  data n p h := by cases h
  holes := ⟨_, HoleList.represents_fresh, gaps_whole⟩

/-- A covered octet was written, so it stands in the data. -/
theorem Keeps.lt_length (h : Keeps A b) (hp : latest? A n = some p) : n < b.data.length := by
  have hc : p.Covers n := by simpa using List.find?_some hp
  have hd := h.data n p hp
  have hlt : n - p.start < p.packet.payload.length := by
    simp only [Arrival.Covers, Arrival.stop] at hc
    omega
  rw [Arrival.octet?, List.getElem?_eq_getElem hlt] at hd
  exact (List.getElem?_eq_some_iff.mp hd).1

theorem Keeps.add? (h : Keeps A b) (hadd : b.add? p.packet p.info = some c) : Keeps (p :: A) c := by
  obtain ⟨hb, hfits, rfl⟩ := add?_eq_some hadd
  refine ⟨fun q hq => ?_, fun T hT => ?_, fun hT q hq => ?_, ?_, fun n q hq => ?_, ?_⟩
  · rcases List.mem_cons.mp hq with rfl | hq
    · exact hb
    · exact h.bounds q hq
  · cases hm : p.info.more with
    | true =>
      simp only [hm, if_true] at hT
      obtain ⟨q, hq, hmore, hstop⟩ := h.total T hT
      exact ⟨q, List.mem_cons_of_mem _ hq, hmore, hstop⟩
    | false =>
      simp only [hm, Bool.false_eq_true, if_false, Option.some.injEq] at hT
      exact ⟨p, List.mem_cons_self, hm, hT⟩
  · cases hm : p.info.more with
    | true =>
      simp only [hm, if_true] at hT
      rcases List.mem_cons.mp hq with rfl | hq
      · exact hm
      · exact h.noTotal hT q hq
    | false => simp [hm] at hT
  · rw [h.first, zero?_cons]
    cases zero? A with
    | some q => simp
    | none => by_cases h0 : p.info.offset = 0 <;> simp [h0]
  · by_cases hc : p.Covers n
    · rw [latest?_cons_of_covers hc] at hq
      obtain rfl := Option.some.inj hq
      exact getElem?_write_inside hc.1 hc.2
    · rw [latest?_cons_of_not_covers hc] at hq
      rw [← h.data n q hq]
      exact getElem?_write_outside hc (h.lt_length hq)
  · obtain ⟨xs, hrep, hgaps⟩ := h.holes
    obtain ⟨ys, hspans, hrep'⟩ := hrep.fill p.start (p.stop - 1) p.info.more
    refine ⟨ys, hrep', ?_⟩
    simp only [hspans]
    cases hm : p.info.more with
    | true => exact hgaps.cut hb.1
    | false =>
      exact hgaps.cut_end hb.1 (fun T hT => (hfits T hT).2 hm) h.noTotal

theorem Keeps.offer {s : List Arrival × Buffer} (h : Keeps s.1 s.2) (p : Arrival) :
    Keeps (Buffer.offer s p).1 (Buffer.offer s p).2 := by
  rw [Buffer.offer]
  split
  · rename_i c hadd
    exact h.add? hadd
  · exact h

theorem keeps_foldl (arrivals : List Arrival) {s : List Arrival × Buffer} (h : Keeps s.1 s.2) :
    Keeps (arrivals.foldl Buffer.offer s).1 (arrivals.foldl Buffer.offer s).2 := by
  induction arrivals generalizing s with
  | nil => exact h
  | cons p arrivals ih => exact ih (h.offer p)

/-- Whatever is offered to a new buffer. -/
theorem keeps_offerAll (created : Nat) (arrivals : List Arrival) :
    Keeps (Buffer.offerAll created arrivals).1 (Buffer.offerAll created arrivals).2 :=
  keeps_foldl arrivals (keeps_fresh created)

/-- What was accepted stays accepted. -/
theorem suffix_foldl_offer (arrivals : List Arrival) (s : List Arrival × Buffer) :
    s.1 <:+ (arrivals.foldl Buffer.offer s).1 := by
  induction arrivals generalizing s with
  | nil => exact List.suffix_rfl
  | cons p arrivals ih =>
    refine List.IsSuffix.trans ?_ (ih (Buffer.offer s p))
    rw [Buffer.offer]
    split
    · exact List.suffix_cons p s.1
    · exact List.suffix_rfl

/-! ## Completion -/

/-- A buffer is complete when its holes are for nothing. -/
theorem Keeps.exists_gaps (h : Keeps A b) :
    ∃ ss, Gaps A b.total ss ∧ (b.isComplete = true ↔ ∀ n, ¬ HoleList.Missing ss n) := by
  obtain ⟨xs, hrep, hgaps⟩ := h.holes
  have hnil : HoleList.spans xs = [] ↔ xs = [] := List.map_eq_nil_iff
  refine ⟨HoleList.spans xs, hgaps, ?_⟩
  rw [Buffer.isComplete, hrep.isEmpty_iff, ← hnil, hgaps.apart.eq_nil_iff]

/-- While no end is told, the last octet that any datagram could have is missing. -/
theorem Keeps.exists_total (h : Keeps A b) (hc : b.isComplete = true) : ∃ T, b.total = some T := by
  obtain ⟨ss, hgaps, hiff⟩ := h.exists_gaps
  cases ht : b.total with
  | some T => exact ⟨T, rfl⟩
  | none =>
    refine absurd (hgaps.missing boundless (Nat.le_refl _) (fun p hp hcov => ?_) ?_)
      (hiff.mp hc boundless)
    · have hstop := (h.bounds p hp).2
      simp only [Arrival.Covers, maxDatagramLength, boundless] at hcov hstop
      omega
    · intro T hT
      rw [ht] at hT
      cases hT

/-- Up to the end that was told, all is covered once the buffer is complete. -/
theorem Keeps.exists_latest (h : Keeps A b) (hc : b.isComplete = true) (ht : b.total = some T)
    (hn : n < T) : ∃ p, latest? A n = some p := by
  obtain ⟨ss, hgaps, hiff⟩ := h.exists_gaps
  obtain ⟨q, hq, -, rfl⟩ := h.total T ht
  have hstop := (h.bounds q hq).2
  have hbound : n ≤ boundless := by
    simp only [maxDatagramLength, boundless] at hstop ⊢
    omega
  refine Option.ne_none_iff_exists'.mp fun hnone => hiff.mp hc n ?_
  refine hgaps.missing n hbound (latest?_eq_none_iff.mp hnone) fun T hT => ?_
  rw [ht] at hT
  cases hT
  exact hn

/-- What covers the first octet starts the datagram. -/
theorem exists_zero (hp : latest? A 0 = some p) :
    ∃ z, zero? A = some z ∧ z.info.offset = 0 := by
  have hc : p.Covers 0 := by simpa using List.find?_some hp
  have h0 : p.info.offset = 0 := by
    have := hc.1
    simp only [Arrival.start, Fragment.start] at this
    omega
  cases hz : zero? A with
  | some z =>
    have hoff := List.find?_some hz
    exact ⟨z, rfl, by simpa using hoff⟩
  | none =>
    have := List.find?_eq_none.mp hz p (List.mem_reverse.mpr (List.mem_of_find?_eq_some hp))
    exact absurd h0 (by simpa using this)

theorem Keeps.total_of_agree (h : Keeps A b) (ha : Agree T A)
    (hlast : ∃ p ∈ A, p.info.more = false) : b.total = some T := by
  cases ht : b.total with
  | some U =>
    obtain ⟨q, hq, hm, rfl⟩ := h.total U ht
    have := ha q hq
    rw [if_neg (by simp [hm])] at this
    rw [this]
  | none =>
    obtain ⟨p, hp, hm⟩ := hlast
    have := h.noTotal ht p hp
    rw [hm] at this
    cases this

/-- A complete buffer yields its first fragment with the latest octets. -/
theorem Keeps.assembles (h : Keeps A b) (hc : b.isComplete = true) :
    ∃ T z payload, b.total = some T ∧ zero? A = some z ∧ z.info.offset = 0 ∧
      b.first = some z.packet ∧ b.assemble? = some (z.packet.reassembled payload) ∧
      payload.length = T ∧ ∀ n < T, ∃ p, latest? A n = some p ∧ payload[n]? = p.octet? n := by
  obtain ⟨T, ht⟩ := h.exists_total hc
  have hpos : 0 < T := by
    obtain ⟨p, hp, -, rfl⟩ := h.total T ht
    exact Nat.lt_of_le_of_lt (Nat.zero_le _) (h.bounds p hp).1
  obtain ⟨p, hp⟩ := h.exists_latest hc ht hpos
  obtain ⟨z, hz, hoff⟩ := exists_zero hp
  have hfirst : b.first = some z.packet := by rw [h.first, hz]; rfl
  refine ⟨T, z, b.data.take T, ht, hz, hoff, hfirst, ?_, ?_, fun n hn => ?_⟩
  · simp only [Buffer.assemble?, hfirst, ht]
    rfl
  · obtain ⟨q, hq⟩ := h.exists_latest hc ht (n := T - 1) (by omega)
    have := h.lt_length hq
    rw [List.length_take]
    omega
  · obtain ⟨q, hq⟩ := h.exists_latest hc ht hn
    exact ⟨q, hq, (List.getElem?_take_of_lt hn).trans (h.data n q hq)⟩

/-- Fragments that agree and cover all octets complete the buffer. -/
theorem Keeps.isComplete_of_agree (h : Keeps A b) (ha : Agree T A)
    (hlast : ∃ p ∈ A, p.info.more = false) (hcov : ∀ n < T, ∃ p ∈ A, p.Covers n) :
    b.isComplete = true := by
  obtain ⟨ss, hgaps, hiff⟩ := h.exists_gaps
  refine hiff.mpr fun n hm => ?_
  have hlt := hgaps.within T (h.total_of_agree ha hlast) ha n hm
  obtain ⟨p, hp, hc⟩ := hcov n hlt
  exact (hgaps.uncovered n hm).2 p hp hc

/-- Fragments that agree and leave an octet out do not complete the buffer. -/
theorem Keeps.not_isComplete_of_agree (h : Keeps A b) (ha : Agree T A) (hn : n < T)
    (hu : Uncovered A n) : b.isComplete = false := by
  by_contra hc
  rw [Bool.not_eq_false] at hc
  obtain ⟨U, ht⟩ := h.exists_total hc
  obtain ⟨p, hp, hm, -⟩ := h.total U ht
  have hT := h.total_of_agree ha ⟨p, hp, hm⟩
  obtain ⟨q, hq⟩ := h.exists_latest hc hT hn
  rw [latest?_eq_none_iff.mpr hu] at hq
  cases hq

/-- **Overlaps**: whatever fragments are offered to a buffer. A complete buffer
yields the fragment that started the datagram, and for every octet up to the end
the one of the latest fragment that covers it. Fragments that agree on the end
complete the buffer if they cover all octets up to it, and they never do, at no
time on the way, if they leave one out. -/
theorem offerAll_completes_soundly (created : Nat) (arrivals : List Arrival) :
    let accepted := (Buffer.offerAll created arrivals).1
    let buffer := (Buffer.offerAll created arrivals).2
    (buffer.isComplete = true →
      ∃ T z payload, buffer.total = some T ∧ zero? accepted = some z ∧ z.info.offset = 0 ∧
        buffer.first = some z.packet ∧
        buffer.assemble? = some (z.packet.reassembled payload) ∧ payload.length = T ∧
        ∀ n < T, ∃ p, latest? accepted n = some p ∧ payload[n]? = p.octet? n) ∧
    ∀ T, Agree T accepted →
      ((∃ p ∈ accepted, p.info.more = false) → (∀ n < T, ∃ p ∈ accepted, p.Covers n) →
        buffer.isComplete = true) ∧
      ((∃ n < T, Uncovered accepted n) →
        ∀ k, (Buffer.offerAll created (arrivals.take k)).2.isComplete = false) := by
  intro accepted buffer
  have h : Keeps accepted buffer := keeps_offerAll created arrivals
  refine ⟨h.assembles, fun T ha => ⟨h.isComplete_of_agree ha, ?_⟩⟩
  rintro ⟨n, hn, hu⟩ k
  -- The fragments that were accepted by then are among those that are accepted in the end.
  have hsub : (Buffer.offerAll created (arrivals.take k)).1 ⊆ accepted := by
    have := (suffix_foldl_offer (arrivals.drop k)
      (Buffer.offerAll created (arrivals.take k))).subset
    rwa [Buffer.offerAll, ← List.foldl_append, List.take_append_drop] at this
  exact (keeps_offerAll created (arrivals.take k)).not_isComplete_of_agree
    (fun p hp => ha p (hsub hp)) hn fun p hp => hu p (hsub hp)

/-- The end of a datagram arrives, then its start, and then another start. -/
def rewritten : List Arrival :=
  [(⟨1, false, 7⟩, 2), (⟨0, true, 7⟩, 1), (⟨0, true, 7⟩, 3)].filterMap fun (info, octet) =>
    (Packet.buildV4 #v[10, 0, 0, 1] #v[232, 1, 1, 1] 17 1 []
      (List.replicate 8 octet)).toOption.map fun packet => { packet, info }

/-- The later start wins, and without the end nothing completes. -/
theorem rewritten_completes :
    let accepted := (Buffer.offerAll 0 rewritten).1
    let buffer := (Buffer.offerAll 0 rewritten).2
    buffer.isComplete = true ∧
      (∃ z payload, zero? accepted = some z ∧
        buffer.assemble? = some (z.packet.reassembled payload) ∧ payload[0]? = some 3) ∧
      (Buffer.offerAll 0 (rewritten.drop 1)).2.isComplete = false := by
  intro accepted buffer
  have hc : buffer.isComplete = true :=
    ((offerAll_completes_soundly 0 rewritten).2 16 (by decide +kernel)).1 (by decide +kernel)
      (by decide +kernel)
  refine ⟨hc, ?_, ?_⟩
  · obtain ⟨T, z, payload, hT, hz, -, -, hwhole, -, hlatest⟩ :=
      (offerAll_completes_soundly 0 rewritten).1 hc
    have hT16 : buffer.total = some 16 := by decide +kernel
    obtain rfl : T = 16 := Option.some.inj (hT.symm.trans hT16)
    obtain ⟨p, hp, hpayload⟩ := hlatest 0 (by decide)
    have h3 : (latest? accepted 0).bind (·.octet? 0) = some 3 := by decide +kernel
    rw [hp, Option.bind_some] at h3
    exact ⟨z, payload, hz, hwhole, hpayload.trans h3⟩
  · exact ((offerAll_completes_soundly 0 (rewritten.drop 1)).2 16 (by decide +kernel)).2
      ⟨8, by decide, by decide +kernel⟩ 2

end MulticastTunnel.Reassembly
