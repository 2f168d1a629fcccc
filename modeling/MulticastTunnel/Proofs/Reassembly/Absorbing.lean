import MulticastTunnel.Proofs.Octets
import MulticastTunnel.Proofs.Reassembly.Missing
import MulticastTunnel.Proofs.Reassembly.Tiling

/-!
# Buffers that absorb fragments

What a buffer holds once it absorbed some of the fragments of a datagram, in
whatever order they came: their data, the first of them if it was among them,
the end if the last was, and a hole wherever nothing came yet. It is complete
when all of them were absorbed, and then yields the whole datagram.
-/

namespace MulticastTunnel.Reassembly

variable {d : Fragmented} {A : List Packet} {b : Buffer} {p : Packet} {n : Nat}

/-! ## Writing -/

theorem getElem?_write_inside {data patch : Bytes} {start : Nat} (h₁ : start ≤ n)
    (h₂ : n < start + patch.length) :
    (Buffer.write data start patch)[n]? = patch[n - start]? := by
  rw [Buffer.write, Bytes.getElem?_overwrite, if_pos ⟨h₁, h₂⟩]
  simp only [List.length_append, Bytes.zeros, List.length_replicate]
  omega

theorem getElem?_write_outside {data patch : Bytes} {start : Nat}
    (h : ¬ (start ≤ n ∧ n < start + patch.length)) (hn : n < data.length) :
    (Buffer.write data start patch)[n]? = data[n]? := by
  rw [Buffer.write, Bytes.getElem?_overwrite, if_neg h, List.getElem?_append_left hn]
  simp only [List.length_append, Bytes.zeros, List.length_replicate]
  omega

/-- The buffer with a fragment added, malformed or not. -/
def Buffer.taking (b : Buffer) (p : Packet) (f : Fragment) : Buffer :=
  { b with
    data := Buffer.write b.data f.start p.payload
    total := if f.more then b.total else some (dataEnd p)
    first := if f.offset = 0 ∧ b.first.isNone then some p else b.first
    holes := b.holes.fill f.start (dataEnd p - 1) f.more }

/-- A fragment is taken unless it is malformed. -/
theorem add?_eq_taking {f : Fragment} (hf : p.fragmentInfo = some f) (hne : p.payload ≠ [])
    (h8 : f.more = true → p.payload.length % 8 = 0) (hend : dataEnd p ≤ maxDatagramLength)
    (hfits : b.fits (dataEnd p - 1) f.more = true) : b.add? p f = some (b.taking p f) := by
  have hpos := List.length_pos_iff.mpr hne
  have hstart : dataStart p = f.start := by rw [dataStart, hf]; rfl
  have hlast : f.start + p.payload.length - 1 = dataEnd p - 1 := by rw [dataEnd, hstart]
  have hlast' : dataEnd p - 1 + 1 = dataEnd p := by rw [dataEnd]; omega
  simp only [Buffer.add?, hlast, hlast']
  rw [if_neg (by simpa using hne), if_neg (fun h => h.2 (h8 h.1)), if_neg (by omega),
    if_neg (by simp [hfits])]
  rfl

/-! ## What is held -/

namespace Fragmented

/-- Whether a fragment among `A` carries the octet. -/
def Arrived (d : Fragmented) (A : List Packet) (n : Nat) : Prop :=
  ∃ p ∈ d.fragments, p ∈ A ∧ Covers p n

/-- Whether the fragment that ends the datagram is among `A`. -/
def Ended (d : Fragmented) (A : List Packet) : Prop :=
  ∃ p ∈ d.fragments, p ∈ A ∧ dataEnd p = d.payload.length

/-- Whether all fragments are among `A`. -/
def Complete (d : Fragmented) (A : List Packet) : Prop := ∀ p ∈ d.fragments, p ∈ A

/-- The buffer absorbed those fragments of the datagram that are among `A`. -/
structure Holds (d : Fragmented) (A : List Packet) (b : Buffer) : Prop where
  total : d.Ended A → b.total = some d.payload.length
  noTotal : ¬ d.Ended A → b.total = none
  first : d.first ∈ A → b.first = some d.first
  noFirst : d.first ∉ A → b.first = none
  data : ∀ n, d.Arrived A n → b.data[n]? = d.payload[n]?
  holes : ∃ xs, b.holes.Represents xs ∧ HoleList.Apart (HoleList.spans xs) ∧
    ∀ n, HoleList.Missing (HoleList.spans xs) n ↔
      n ≤ boundless ∧ ¬ d.Arrived A n ∧ (d.Ended A → n < d.payload.length)

theorem not_arrived_of_ge (hn : d.payload.length ≤ n) : ¬ d.Arrived A n := by
  rintro ⟨p, hp, -, -, hlt⟩
  have := dataEnd_le hp
  omega

theorem arrived_cons (hp : p ∈ d.fragments) :
    d.Arrived (p :: A) n ↔ Covers p n ∨ d.Arrived A n := by
  constructor
  · rintro ⟨q, hq, hm, hc⟩
    rcases List.mem_cons.mp hm with rfl | hm
    · exact .inl hc
    · exact .inr ⟨q, hq, hm, hc⟩
  · rintro (hc | ⟨q, hq, hm, hc⟩)
    · exact ⟨p, hp, List.mem_cons_self, hc⟩
    · exact ⟨q, hq, List.mem_cons_of_mem p hm, hc⟩

theorem ended_cons (hp : p ∈ d.fragments) :
    d.Ended (p :: A) ↔ dataEnd p = d.payload.length ∨ d.Ended A := by
  constructor
  · rintro ⟨q, hq, hm, he⟩
    rcases List.mem_cons.mp hm with rfl | hm
    · exact .inl he
    · exact .inr ⟨q, hq, hm, he⟩
  · rintro (he | ⟨q, hq, hm, he⟩)
    · exact ⟨p, hp, List.mem_cons_self, he⟩
    · exact ⟨q, hq, List.mem_cons_of_mem p hm, he⟩

theorem ended_of_complete (h : d.Complete A) : d.Ended A := by
  obtain ⟨p, hp, he⟩ := d.exists_dataEnd
  exact ⟨p, hp, h p hp, he⟩

/-- A fresh buffer absorbed nothing. -/
theorem holds_fresh (hA : ∀ p ∈ d.fragments, p ∉ A) (now : Nat) : d.Holds A (.fresh now) where
  total := fun ⟨p, hp, hm, _⟩ => absurd hm (hA p hp)
  noTotal _ := rfl
  first hm := absurd hm (hA _ List.mem_cons_self)
  noFirst _ := rfl
  data := fun n ⟨p, hp, hm, _⟩ => absurd hm (hA p hp)
  holes := by
    refine ⟨_, HoleList.represents_fresh, HoleList.apart_whole, fun n => ?_⟩
    refine HoleList.missing_whole.trans ⟨fun h => ⟨h, ?_, ?_⟩, fun h => h.1⟩
    · rintro ⟨p, hp, hm, _⟩
      exact hA p hp hm
    · rintro ⟨p, hp, hm, _⟩
      exact absurd hm (hA p hp)

/-- Two fragments of a datagram carry different octets. -/
theorem not_arrived_of_covers (hp : p ∈ d.fragments) (hA : p ∉ A) (hc : Covers p n) :
    ¬ d.Arrived A n := by
  rintro ⟨q, hq, hm, hqc⟩
  cases d.tiles.eq_of_covers hp hq hc hqc
  exact hA hm

theorem covers_last (hne : d.NonEmpty) (hp : p ∈ d.fragments)
    (hend : dataEnd p = d.payload.length) : Covers p (d.payload.length - 1) := by
  have hpos := List.length_pos_iff.mpr (hne p hp)
  simp only [Covers, dataEnd] at hend ⊢
  omega

theorem not_ended (hne : d.NonEmpty) (hp : p ∈ d.fragments) (hA : p ∉ A)
    (hend : dataEnd p = d.payload.length) : ¬ d.Ended A := by
  rintro ⟨q, hq, hm, hqe⟩
  cases d.tiles.eq_of_covers hp hq (covers_last hne hp hend) (covers_last hne hq hqe)
  exact hA hm

/-- Filling takes what the fragment carries out of the holes, and what is behind
the end once the fragment tells it. -/
theorem Holds.fill (h : d.Holds A b) (hne : d.NonEmpty) (hp : p ∈ d.fragments) (hA : p ∉ A)
    {more : Bool} (hmore : more = false ↔ dataEnd p = d.payload.length) :
    ∃ xs, (b.holes.fill (dataStart p) (dataEnd p - 1) more).Represents xs ∧
      HoleList.Apart (HoleList.spans xs) ∧
      ∀ n, HoleList.Missing (HoleList.spans xs) n ↔
        n ≤ boundless ∧ ¬ d.Arrived (p :: A) n ∧ (d.Ended (p :: A) → n < d.payload.length) := by
  obtain ⟨xs, hrep, hapart, hmiss⟩ := h.holes
  obtain ⟨ys, hspans, hrep'⟩ := hrep.fill (dataStart p) (dataEnd p - 1) more
  have hpos := List.length_pos_iff.mpr (hne p hp)
  have hr : dataStart p ≤ dataEnd p - 1 := by rw [dataEnd]; omega
  refine ⟨ys, hrep', hspans ▸ HoleList.apart_cut hapart hr more, fun n => ?_⟩
  have hcov : ¬ (dataStart p ≤ n ∧ n ≤ dataEnd p - 1) ↔ ¬ Covers p n := by
    simp only [Covers, dataEnd] at hr ⊢
    omega
  rw [hspans, arrived_cons hp, ended_cons hp]
  cases more with
  | true =>
    have hend : dataEnd p ≠ d.payload.length := fun e => Bool.noConfusion (hmore.mpr e)
    rw [HoleList.missing_cut, hmiss, hcov]
    simp only [hend, false_or, not_or]
    tauto
  | false =>
    have hend := hmore.mp rfl
    have hold := not_ended hne hp hA hend
    rw [HoleList.missing_cut_end hapart hr]
    -- All that lies behind the fragment is missing without a gap.
    have hbehind : ∀ m, dataEnd p - 1 ≤ m → m ≤ boundless →
        HoleList.Missing (HoleList.spans xs) m := by
      intro m hm hmb
      refine (hmiss m).mpr ⟨hmb, ?_, fun he => absurd he hold⟩
      by_cases hmT : m < d.payload.length
      · apply not_arrived_of_covers hp hA
        simp only [Covers]
        omega
      · exact not_arrived_of_ge (by omega)
    constructor
    · rintro ⟨hm, hlt | ⟨hlt, m, h₁, h₂, hgap⟩⟩
      · obtain ⟨hn, harr, -⟩ := (hmiss n).mp hm
        refine ⟨hn, ?_, fun _ => by omega⟩
        rintro (hc | ha)
        · exact absurd hc.1 (Nat.not_le_of_lt hlt)
        · exact harr ha
      · exact absurd (hbehind m h₁ (Nat.le_trans h₂ ((hmiss n).mp hm).1)) hgap
    · rintro ⟨hn, harr, hlt⟩
      have hnT := hlt (.inl hend)
      refine ⟨(hmiss n).mpr ⟨hn, fun ha => harr (.inr ha), fun _ => hnT⟩, .inl ?_⟩
      by_contra hge
      exact harr (.inl ⟨Nat.le_of_not_lt hge, by omega⟩)

/-- A fragment that did not come yet agrees with the end, if that is known. -/
theorem Holds.fits (h : d.Holds A b) (hne : d.NonEmpty) (hp : p ∈ d.fragments) (hA : p ∉ A)
    {more : Bool} (hmore : more = false ↔ dataEnd p = d.payload.length) :
    b.fits (dataEnd p - 1) more = true := by
  by_cases he : d.Ended A
  · have hm : more = true := by
      by_contra hm
      exact not_ended hne hp hA (hmore.mp (by simpa using hm)) he
    have hpos := List.length_pos_iff.mpr (hne p hp)
    have hle := dataEnd_le hp
    rw [Buffer.fits, h.total he]
    simp only [hm, Bool.true_or, Bool.and_true, decide_eq_true_eq]
    simp only [dataEnd] at hle ⊢
    omega
  · rw [Buffer.fits, h.noTotal he]

theorem Holds.taking (h : d.Holds A b) (hne : d.NonEmpty) (hp : p ∈ d.fragments) (hA : p ∉ A)
    {f : Fragment} (hstart : f.start = dataStart p)
    (hmore : f.more = false ↔ dataEnd p = d.payload.length) :
    d.Holds (p :: A) (b.taking p f) := by
  have hzero : f.offset = 0 ↔ p = d.first := by
    rw [← dataStart_eq_zero_iff hne hp, ← hstart, Fragment.start]
    omega
  constructor
  · intro he
    simp only [Buffer.taking]
    cases hm : f.more with
    | false => rw [if_neg Bool.false_ne_true, hmore.mp hm]
    | true =>
      rw [if_pos rfl]
      refine h.total (((ended_cons hp).mp he).resolve_left fun e => ?_)
      rw [hmore.mpr e] at hm
      cases hm
  · intro hn
    rw [ended_cons hp, not_or] at hn
    have hm : f.more = true := by simpa using fun e => hn.1 (hmore.mp e)
    simp only [Buffer.taking, hm, if_true]
    exact h.noTotal hn.2
  · intro hm
    simp only [Buffer.taking]
    by_cases hpf : p = d.first
    · have hnone := h.noFirst (hpf ▸ hA)
      rw [if_pos ⟨hzero.mpr hpf, by rw [hnone]; rfl⟩, hpf]
    · rw [if_neg fun hc => hpf (hzero.mp hc.1)]
      exact h.first ((List.mem_cons.mp hm).resolve_left (Ne.symm hpf))
  · intro hm
    rw [List.mem_cons, not_or] at hm
    simp only [Buffer.taking]
    rw [if_neg fun hc => hm.1 (hzero.mp hc.1).symm]
    exact h.noFirst hm.2
  · intro n hn
    simp only [Buffer.taking]
    rw [hstart]
    by_cases hc : Covers p n
    · rw [getElem?_payload hp hc]
      exact getElem?_write_inside hc.1 hc.2
    · have hold := ((arrived_cons hp).mp hn).resolve_left hc
      have hlt : n < d.payload.length := by
        by_contra hge
        exact not_arrived_of_ge (Nat.le_of_not_lt hge) hold
      have hdata := h.data n hold
      rw [← hdata]
      refine getElem?_write_outside hc ?_
      rw [List.getElem?_eq_getElem hlt] at hdata
      exact (List.getElem?_eq_some_iff.mp hdata).1
  · simp only [Buffer.taking]
    rw [hstart]
    exact h.fill hne hp hA hmore

/-- **Absorption**: a buffer takes every fragment of its datagram that did not
come yet. -/
theorem Holds.add? (h : d.Holds A b) (hne : d.NonEmpty) (hp : p ∈ d.fragments) (hA : p ∉ A) :
    ∃ f b', p.fragmentInfo = some f ∧ b.add? p f = some b' ∧ d.Holds (p :: A) b' := by
  obtain ⟨f, hf, hstart, hmore, h8⟩ := d.tiles.info_eq hne hp
  rw [Nat.zero_add] at hmore
  refine ⟨f, b.taking p f, hf, ?_, h.taking hne hp hA hstart hmore⟩
  exact add?_eq_taking hf (hne p hp) h8 (Nat.le_trans (dataEnd_le hp) d.small)
    (h.fits hne hp hA hmore)

/-- Nothing is missing any more exactly when all fragments came. -/
theorem Holds.isComplete_iff (h : d.Holds A b) (hne : d.NonEmpty) :
    b.isComplete = true ↔ d.Complete A := by
  obtain ⟨xs, hrep, hapart, hmiss⟩ := h.holes
  have hnil : HoleList.spans xs = [] ↔ xs = [] := List.map_eq_nil_iff
  rw [Buffer.isComplete, hrep.isEmpty_iff, ← hnil, hapart.eq_nil_iff]
  simp only [hmiss, not_and, not_forall]
  constructor
  · intro hall p hp
    -- The first octet of the fragment came, and nothing but it carries that.
    have hpos := List.length_pos_iff.mpr (hne p hp)
    have hc : Covers p (dataStart p) := ⟨Nat.le_refl _, by rw [dataEnd]; omega⟩
    have hlt : dataStart p < d.payload.length := Nat.lt_of_lt_of_le hc.2 (dataEnd_le hp)
    have hsmall : d.payload.length ≤ maxDatagramLength := d.small
    by_contra hA
    obtain ⟨-, hn⟩ := hall (dataStart p)
      (by simp only [maxDatagramLength, boundless] at *; omega) (not_arrived_of_covers hp hA hc)
    exact hn hlt
  · intro hall n _ hn
    have hge : d.payload.length ≤ n := by
      by_contra hlt
      obtain ⟨p, hp, hc⟩ := exists_covers (Nat.lt_of_not_le hlt)
      exact hn ⟨p, hp, hall p hp, hc⟩
    exact ⟨ended_of_complete hall, Nat.not_lt_of_le hge⟩

/-- A complete buffer yields the whole datagram. -/
theorem Holds.assemble? (h : d.Holds A b) (hall : d.Complete A) :
    b.assemble? = some (.ok d.whole) := by
  have hdata : b.data.take d.payload.length = d.payload := by
    apply List.ext_getElem?
    intro n
    by_cases hn : n < d.payload.length
    · obtain ⟨p, hp, hc⟩ := exists_covers hn
      rw [List.getElem?_take_of_lt hn, h.data n ⟨p, hp, hall p hp, hc⟩]
    · rw [List.getElem?_eq_none (by rw [List.length_take]; omega),
        List.getElem?_eq_none (Nat.le_of_not_lt hn)]
  have hfirst := h.first (hall d.first List.mem_cons_self)
  have htotal := h.total (ended_of_complete hall)
  simp only [Buffer.assemble?, hfirst, htotal]
  show some (d.first.reassembled (b.data.take d.payload.length)) = _
  rw [hdata]
  exact congrArg some d.reassembled

end Fragmented

end MulticastTunnel.Reassembly
