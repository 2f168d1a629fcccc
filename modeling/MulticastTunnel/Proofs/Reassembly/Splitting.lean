import MulticastTunnel.Proofs.Packet.Fragments
import MulticastTunnel.Proofs.Reassembly.Tiling

/-!
# Splitting a packet

A whole packet that does not fit is split into fragments that tile its payload, and is rebuilt from
the first of them and what they carry. There is one exception, `Overflows`: the header of an IPv6
fragment makes the packet longer, and where the length field cannot hold the length of the first
fragment, this fragment is left out.
-/

namespace MulticastTunnel.Packet

open Reassembly

variable {p q f : Packet} {identification : UInt32} {piece : Piece} {size start maxPayload : Nat}
  {payload : Bytes} {fs : List Packet}

/-- What the fragments of a packet have in common. -/
def fragmentKey (p : Packet) (identification : UInt32) : FragmentKey where
  source := p.source
  destination := p.destination
  identification := identified p.family identification
  protocol := match p.family with
    | .ipv4 => some p.protocol
    | .ipv6 => none

/-- How many octets of data a fragment carries at most: whole units of eight octets. -/
def fragmentSize (maxPayload : Nat) : Nat := max (maxPayload / 8 * 8) 8

/-- The length field of an IPv6 fragment cannot hold its length if it carries `n` octets. -/
def Overflows (p : Packet) (n : Nat) : Prop :=
  p.family = .ipv6 ∧ maxDatagramLength < p.fragmentLength n

/-- What a packet is rebuilt as: the packet itself, but in IPv4 the fragments' identification
stays, and the flags are gone. -/
def Restored (p : Packet) (identification : UInt32) (q : Packet) : Prop :=
  match p.family with
  | .ipv4 => p.Renumbered identification q
  | .ipv6 => q = p

/-- A packet in fragments of at most `size` octets, from which it is rebuilt. -/
structure Splits (p : Packet) (identification : UInt32) (size : Nat) (fs : List Packet) :
    Prop where
  several : 1 < fs.length
  tiles : Tiles (p.fragmentKey identification) 0 fs
  data : dataOf fs = p.payload
  filled : ∀ f ∈ fs, f.payload ≠ [] ∧ f.payload.length ≤ size
  alike : ∀ f ∈ fs, f.family = p.family ∧ f.source = p.source ∧ f.destination = p.destination ∧
    f.protocol = p.protocol ∧
    f.fragmentInfo.map (·.identification) = some (identified p.family identification)
  sealed : p.family = .ipv4 → ∀ f ∈ fs, Checksum.of f.header = 0
  rebuilt : ∃ first rest q, fs = first :: rest ∧ first.reassembled (dataOf fs) = .ok q ∧
    p.Restored identification q

/-! ## One fragment -/

theorem Carries.isPart (h : Carries p identification piece f) (hunit : piece.start % 8 = 0) :
    IsPart (p.fragmentKey identification) piece.start piece.more f where
  key := by
    rw [FragmentKey.of?, h.info, Option.map_some, h.source, h.destination, h.family, h.protocol]
    rfl
  info := ⟨_, h.info, Nat.div_mul_cancel (Nat.dvd_of_mod_eq_zero hunit), rfl⟩

/-- A fragment of a whole packet is another packet. -/
theorem Carries.ne (h : Carries p identification piece f) (hwhole : p.isFragment = false) :
    f ≠ p := by
  rintro rfl
  rw [isFragment, ← fragmentInfo, h.info] at hwhole
  cases hwhole

/-- A piece that is not all of the payload makes a fragment, unless its length overflows. -/
theorem exists_fragment (identification : UInt32) (piece : Piece)
    (hwhole : p.isFragment = false) (hunit : piece.start % 8 = 0)
    (hend : piece.start + piece.data.length ≤ p.payload.length)
    (hpart : piece.more = true ∨ 0 < piece.start) (hroom : ¬ p.Overflows piece.data.length) :
    ∃ f, parse (p.fragmentOctets identification piece) = .ok f ∧
      Carries p identification piece f := by
  rcases p.layout_cases with ⟨hv, hl⟩ | ⟨-, hwalks⟩
  · exact exists_fragment_v4 identification piece hv hl hunit hend hpart
  · have hfamily : p.family = .ipv6 := hwalks.family.1
    exact exists_fragment_v6 identification piece (wholeV6 hfamily hwhole) hunit hend
      (Nat.le_of_not_lt fun hlarge => hroom ⟨hfamily, hlarge⟩)

theorem Carries.exists_rebuilt (h : Carries p identification piece f)
    (hwhole : p.isFragment = false) :
    ∃ q, f.reassembled p.payload = .ok q ∧ p.Restored identification q := by
  rcases p.layout_cases with ⟨hv, hl⟩ | ⟨-, hwalks⟩
  · obtain ⟨q, hq, hrenumbered⟩ := h.exists_rebuilt_v4 hv hl hwhole
    have hfamily : p.family = .ipv4 := by rw [Packet.family, hl]; rfl
    exact ⟨q, hq, by rw [Restored, hfamily]; exact hrenumbered⟩
  · have hfamily : p.family = .ipv6 := hwalks.family.1
    exact ⟨p, h.reassembled_v6 (wholeV6 hfamily hwhole), by rw [Restored, hfamily]⟩

/-! ## All fragments -/

theorem fragmentSize_mod (maxPayload : Nat) : fragmentSize maxPayload % 8 = 0 := by
  rw [fragmentSize]
  omega

theorem le_fragmentSize (maxPayload : Nat) : 8 ≤ fragmentSize maxPayload := by
  rw [fragmentSize]
  omega

/-- What is left and fits is the last piece. -/
theorem pieces_of_le (hsize : 0 < size) (hne : payload ≠ []) (hle : payload.length ≤ size) :
    pieces size start payload = [⟨start, false, payload⟩] := by
  have hrest : payload.drop size = [] := List.drop_eq_nil_of_le hle
  rw [pieces, if_neg (by simp only [hne, false_or]; omega)]
  dsimp only
  rw [hrest, pieces, if_pos (.inl rfl), List.take_of_length_le hle]
  rfl

/-- Otherwise there is a full piece, and more behind it. -/
theorem pieces_of_lt (hsize : 0 < size) (hlt : size < payload.length) :
    pieces size start payload =
      ⟨start, true, payload.take size⟩ :: pieces size (start + size) (payload.drop size) := by
  have hne : payload ≠ [] := List.ne_nil_of_length_pos (by omega)
  have hrest : (payload.drop size).isEmpty = false := by
    rw [List.isEmpty_eq_false_iff]
    exact List.ne_nil_of_length_pos (by rw [List.length_drop]; omega)
  rw [pieces, if_neg (by simp only [hne, false_or]; omega)]
  dsimp only
  rw [hrest]
  rfl

/-- The fragments that the pieces of a payload make. -/
def fragmentsOf (p : Packet) (identification : UInt32) (ps : List Piece) : List Packet :=
  ps.filterMap fun piece => (parse (p.fragmentOctets identification piece)).toOption

theorem fragmentsOf_cons {ps : List Piece}
    (h : parse (p.fragmentOctets identification piece) = .ok f) :
    p.fragmentsOf identification (piece :: ps) = f :: p.fragmentsOf identification ps := by
  rw [fragmentsOf, List.filterMap_cons, h]
  rfl

/-- A fragment with some piece of at most `size` octets. -/
def CarriesUpTo (p : Packet) (identification : UInt32) (size : Nat) (f : Packet) : Prop :=
  ∃ piece, piece.data ≠ [] ∧ piece.data.length ≤ size ∧ Carries p identification piece f

theorem Overflows.mono {m n : Nat} (h : p.Overflows m) (hmn : m ≤ n) : p.Overflows n := by
  refine ⟨h.1, Nat.lt_of_lt_of_le h.2 ?_⟩
  simp only [fragmentLength]
  omega

/-- What is left of the payload is tiled by its fragments. -/
theorem tiles_fragmentsOf (identification : UInt32) (hwhole : p.isFragment = false)
    (hsize : 0 < size) (hunits : size % 8 = 0) (hroom : ¬ p.Overflows size) (hstart : start % 8 = 0)
    (hend : start + payload.length = p.payload.length) (hne : payload ≠ [])
    (hpart : 0 < start ∨ size < payload.length) :
    Tiles (p.fragmentKey identification) start
        (p.fragmentsOf identification (pieces size start payload)) ∧
      dataOf (p.fragmentsOf identification (pieces size start payload)) = payload ∧
      ∀ f ∈ p.fragmentsOf identification (pieces size start payload),
        CarriesUpTo p identification size f := by
  induction start, payload using pieces.induct size with
  | case1 start payload h => exact absurd h (by simp only [hne, false_or]; omega)
  | case2 start payload _ rest ih =>
    have hpos := List.length_pos_iff.mpr hne
    rcases Nat.lt_or_ge size payload.length with hlt | hle
    · have hlrest : rest.length = payload.length - size := List.length_drop
      have htake : (payload.take size).length = size := by
        rw [List.length_take]
        omega
      have hfull : payload.take size ≠ [] := List.ne_nil_of_length_pos (by omega)
      obtain ⟨f, hf, hcarries⟩ := exists_fragment identification
        ⟨start, true, payload.take size⟩ hwhole hstart (by dsimp only; omega) (.inl rfl)
        (by rwa [htake])
      obtain ⟨htiles, hdata, hall⟩ := ih (by omega) (by omega)
        (List.ne_nil_of_length_pos (by omega)) (.inl (by omega))
      have hpayload : f.payload = payload.take size := hcarries.payload
      rw [pieces_of_lt hsize hlt, fragmentsOf_cons hf]
      refine ⟨.more (hcarries.isPart hstart) (hpayload ▸ hfull) ?_ ?_, ?_, ?_⟩
      · rw [hpayload, htake, hunits]
      · rwa [hpayload, htake]
      · rw [dataOf, List.flatMap_cons, hpayload, ← dataOf, hdata, List.take_append_drop]
      · rintro g hg
        rcases List.mem_cons.mp hg with rfl | hg
        · exact ⟨_, hfull, Nat.le_of_eq htake, hcarries⟩
        · exact hall g hg
    · obtain ⟨f, hf, hcarries⟩ := exists_fragment identification
        ⟨start, false, payload⟩ hwhole hstart (Nat.le_of_eq hend)
        (.inr (by dsimp only; omega)) fun h => hroom (h.mono hle)
      rw [pieces_of_le hsize hne hle, fragmentsOf_cons hf]
      refine ⟨.last (hcarries.isPart hstart), ?_, ?_⟩
      · rw [dataOf, fragmentsOf, List.filterMap_nil, List.flatMap_cons, List.flatMap_nil,
          List.append_nil]
        exact hcarries.payload
      · rintro g hg
        cases List.mem_singleton.mp hg
        exact ⟨_, hne, hle, hcarries⟩

theorem fragment_of_le (h : p.payload.length ≤ fragmentSize maxPayload) :
    p.fragment identification maxPayload = [p] := by
  rw [fragment]
  exact if_pos (.inr h)

theorem fragment_of_lt (hwhole : p.isFragment = false)
    (h : fragmentSize maxPayload < p.payload.length) :
    p.fragment identification maxPayload =
      p.fragmentsOf identification (pieces (fragmentSize maxPayload) 0 p.payload) := by
  have hnot : ¬ (p.isFragment = true ∨ p.payload.length ≤ fragmentSize maxPayload) := by
    rw [hwhole]
    simp only [Bool.false_eq_true, false_or]
    omega
  rw [fragment]
  exact if_neg hnot

theorem splits_of_lt (hwhole : p.isFragment = false)
    (hlt : fragmentSize maxPayload < p.payload.length)
    (hroom : ¬ p.Overflows (fragmentSize maxPayload)) :
    p.Splits identification (fragmentSize maxPayload) (p.fragment identification maxPayload) := by
  have hsize := le_fragmentSize maxPayload
  obtain ⟨htiles, hdata, hall⟩ := tiles_fragmentsOf identification hwhole
    (by omega) (fragmentSize_mod maxPayload) hroom rfl (Nat.zero_add _)
    (List.ne_nil_of_length_pos (by omega)) (.inr hlt)
  rw [fragment_of_lt hwhole hlt]
  generalize p.fragmentsOf identification _ = fs at htiles hdata hall
  obtain ⟨first, rest, rfl⟩ : ∃ first rest, fs = first :: rest := by
    cases htiles <;> exact ⟨_, _, rfl⟩
  have hfilled : ∀ f ∈ first :: rest,
      f.payload ≠ [] ∧ f.payload.length ≤ fragmentSize maxPayload := by
    intro f hf
    obtain ⟨piece, hne, hle, hcarries⟩ := hall f hf
    rw [hcarries.payload]
    exact ⟨hne, hle⟩
  constructor
  · -- One fragment would carry all of the payload, which is too large.
    rcases rest with _ | ⟨second, rest⟩
    · have hle := (hfilled first List.mem_cons_self).2
      rw [dataOf, List.flatMap_cons, List.flatMap_nil, List.append_nil] at hdata
      rw [hdata] at hle
      omega
    · simp only [List.length_cons]
      omega
  · exact htiles
  · exact hdata
  · exact hfilled
  · intro f hf
    obtain ⟨piece, -, -, hcarries⟩ := hall f hf
    refine ⟨hcarries.family, hcarries.source, hcarries.destination, hcarries.protocol, ?_⟩
    rw [hcarries.info]
    rfl
  · intro hfamily f hf
    obtain ⟨piece, -, -, hcarries⟩ := hall f hf
    exact (hcarries.sealed hfamily).1
  · obtain ⟨piece, -, -, hcarries⟩ := hall first List.mem_cons_self
    obtain ⟨q, hq, hrestored⟩ := hcarries.exists_rebuilt hwhole
    exact ⟨first, rest, q, rfl, by rw [hdata, hq], hrestored⟩

/-- The first fragment is left out if it overflows. One other carries what is left. -/
theorem fragment_of_overflows (hwhole : p.isFragment = false)
    (hlt : fragmentSize maxPayload < p.payload.length)
    (hover : p.Overflows (fragmentSize maxPayload)) :
    ∃ f, p.fragment identification maxPayload = [f] ∧
      Carries p identification
        ⟨fragmentSize maxPayload, false, p.payload.drop (fragmentSize maxPayload)⟩ f := by
  have h40 : ipv6HeaderLength = 40 := rfl
  have h8 : fragmentHeaderLength = 8 := rfl
  have hmax : maxDatagramLength = 65535 := rfl
  have hsize := le_fragmentSize maxPayload
  have hunits := fragmentSize_mod maxPayload
  obtain ⟨hfamily, hlarge⟩ := hover
  have hp := wholeV6 hfamily hwhole
  have hmin := hp.min
  have hlong := hp.length
  have hsplits := hp.splits
  have hword := p.bytes.word16_lt 4
  rw [fragment_of_lt hwhole hlt]
  generalize fragmentSize maxPayload = size at *
  have htake : (p.payload.take size).length = size := by
    rw [List.length_take]
    omega
  have hdrop : (p.payload.drop size).length = p.payload.length - size := List.length_drop
  have hfirst := parse_fragmentOctets_of_large identification
    ⟨0, true, p.payload.take size⟩ hp (by dsimp only; omega) (by rwa [htake])
  simp only [fragmentLength] at hlarge
  -- The payload is at most seven octets larger than the piece that was left out.
  obtain ⟨f, hf, hcarries⟩ := exists_fragment_v6 identification
    ⟨size, false, p.payload.drop size⟩ hp hunits (by dsimp only; omega)
    (by simp only [fragmentLength]; omega)
  refine ⟨f, ?_, hcarries⟩
  rw [pieces_of_lt (by omega) hlt, Nat.zero_add,
    pieces_of_le (by omega) (List.ne_nil_of_length_pos (by omega)) (by omega), fragmentsOf,
    List.filterMap_cons, hfirst, List.filterMap_cons, hf]
  rfl

/-- **Splitting loses nothing**, unless the first fragment overflows. A whole packet that fits
stays as it is, and any other one is split into fragments from which it is rebuilt. But if the
first fragment overflows, all that is left of the packet is one fragment with its end. -/
theorem fragment_splits_or_overflows (p : Packet) (identification : UInt32) (maxPayload : Nat)
    (hwhole : p.isFragment = false) :
    (p.payload.length ≤ fragmentSize maxPayload →
      p.fragment identification maxPayload = [p]) ∧
    (fragmentSize maxPayload < p.payload.length → ¬ p.Overflows (fragmentSize maxPayload) →
      p.Splits identification (fragmentSize maxPayload)
        (p.fragment identification maxPayload)) ∧
    (fragmentSize maxPayload < p.payload.length → p.Overflows (fragmentSize maxPayload) →
      ∃ f, p.fragment identification maxPayload = [f] ∧ f ≠ p ∧
        Carries p identification
          ⟨fragmentSize maxPayload, false, p.payload.drop (fragmentSize maxPayload)⟩ f) := by
  refine ⟨fragment_of_le, splits_of_lt hwhole, fun hlt hover => ?_⟩
  obtain ⟨f, hf, hcarries⟩ := fragment_of_overflows hwhole hlt hover
  exact ⟨f, hf, hcarries.ne hwhole, hcarries⟩

/-- An IPv4 packet with four octets of options, the flag that forbids to fragment it, and twenty
octets of payload. -/
def optioned : Packet :=
  (parse ([70, 0, 0, 44, 0, 9, 64, 0, 64, 17, 0, 0, 10, 0, 0, 1, 232, 1, 1, 1, 1, 1, 1, 0] ++
    Bytes.zeros 20)).toOption.get (by decide +kernel)

theorem optioned_splits :
    optioned.isFragment = false ∧
      optioned.Splits 70000 16 (optioned.fragment 70000 23) := by
  have hwhole : optioned.isFragment = false := by decide +kernel
  have hfamily : optioned.family = .ipv4 := by decide +kernel
  refine ⟨hwhole, (fragment_splits_or_overflows optioned 70000 23 hwhole).2.1
    (by decide +kernel) fun hover => ?_⟩
  rw [hover.1] at hfamily
  cases hfamily

/-- The header of an IPv6 packet from 2001:db8::1 to ff3e::8000:1 with 65535 octets behind it. -/
def largestHeader : Bytes :=
  [0x60, 0, 0, 0, 255, 255, 17, 64, 32, 1, 13, 184, 0, 0, 0, 0, 0, 0, 0, 0, 0, 0, 0, 1,
    255, 62, 0, 0, 0, 0, 0, 0, 0, 0, 0, 0, 128, 0, 0, 1]

/-- The octets of the largest IPv6 packet there is. -/
def largest : Bytes := largestHeader ++ Bytes.zeros 65535

/-- The largest packet does not stay as it is, although only one fragment comes out. -/
theorem largest_overflows :
    ∃ p, parse largest = .ok p ∧ p.isFragment = false ∧
      ∃ f, p.fragment 7 65528 = [f] ∧ f ≠ p := by
  obtain ⟨p, hp, hhas⟩ := parse_octetsV6 255 255 17 64 17
    #v[32, 1, 13, 184, 0, 0, 0, 0, 0, 0, 0, 0, 0, 0, 0, 1]
    #v[255, 62, 0, 0, 0, 0, 0, 0, 0, 0, 0, 0, 128, 0, 0, 1] [] (.zeros 65535)
    (by rw [Bytes.zeros, List.length_replicate]; rfl) rfl (by decide) ⟨6, rfl⟩
  have hoctets : ∀ payload : Bytes, octetsV6 255 255 17 64
      #v[32, 1, 13, 184, 0, 0, 0, 0, 0, 0, 0, 0, 0, 0, 0, 1]
      #v[255, 62, 0, 0, 0, 0, 0, 0, 0, 0, 0, 0, 128, 0, 0, 1] [] payload =
        largestHeader ++ payload := fun _ => rfl
  rw [hoctets] at hp
  have hlen : p.payload.length = 65535 := by rw [hhas.payload, Bytes.zeros, List.length_replicate]
  have hfamily : p.family = .ipv6 := hhas.family
  have hsize : fragmentSize 65528 = 65528 := rfl
  have hover : p.Overflows (fragmentSize 65528) := by
    refine ⟨hfamily, ?_⟩
    rw [fragmentLength, maxDatagramLength, fragmentHeaderLength]
    omega
  obtain ⟨f, hf, hcarries⟩ := fragment_of_overflows hhas.whole (by omega) hover
  exact ⟨p, hp, hhas.whole, f, hf, hcarries.ne hhas.whole⟩

end MulticastTunnel.Packet
