import MulticastTunnel.Proofs.Packet.Rebuilt

/-!
# Packets that delimit themselves

Octets are read as a packet exactly when they begin with its own, so a packet is found whatever
follows it, and not found when it is cut short. Its octets fall apart into the header that
fragments repeat, the fragment header if there is one, and the payload.
-/

namespace MulticastTunnel

/-- Octets that are a fragment header: they name what follows and hold the fragment fields. -/
structure IsFragmentHeader (next : UInt8) (f : Fragment) (b : Bytes) : Prop where
  length : b.length = fragmentHeaderLength
  next : b.octet 0 = next
  fields : Layout.fragmentAt b 0 = f

/-- The length that the header of a packet tells. -/
def Family.toldLength (family : Family) (d : Bytes) : Nat :=
  match family with
  | .ipv4 => d.word16 2
  | .ipv6 => ipv6HeaderLength + d.word16 4

/-- A length that is declared is not one of octets that are cut short of it. -/
theorem declaredLength_of_cut {b d : Bytes} {n : Nat} (hd : declaredLength d = .ok n)
    (hb : b <+: d) (hlt : b.length < n) : declaredLength b = .error (.truncated b.length) := by
  obtain ⟨t, rfl⟩ := hb
  have h20 : ipv4HeaderLength = 20 := rfl
  have h40 : ipv6HeaderLength = 40 := rfl
  rcases Nat.eq_zero_or_pos b.length with hempty | hpos
  · rw [declaredLength, if_pos hempty, hempty]
  have h0 : (b ++ t).octet 0 = b.octet 0 := Bytes.octet_append_left hpos
  have hpos' : ¬ (b ++ t).length = 0 := by
    rw [List.length_append]
    omega
  simp only [declaredLength, h0, if_neg hpos', if_neg (Nat.ne_of_gt hpos)] at hd ⊢
  split at hd
  · next hv =>
    rw [if_pos hv]
    split
    · rfl
    next hlong =>
    -- All that the length depends on is there, so only the length itself can be missing.
    rw [Bytes.word16_append_left (by omega)] at hd
    split at hd
    · cases hd
    split at hd
    · cases hd
    next hsized =>
    rw [if_neg hsized]
    split at hd
    · cases hd
    cases hd
    exact if_pos hlt
  · next hv =>
    rw [if_neg hv]
    split at hd
    · next hv' =>
      rw [if_pos hv']
      split at hd
      · cases hd
      cases hd
      refine if_pos ?_
      rcases Nat.lt_or_ge b.length ipv6HeaderLength with hshort | hlong
      · exact .inl hshort
      · rw [Bytes.word16_append_left (by omega)] at hlt
        exact .inr hlt
    · cases hd

namespace Packet

variable {p : Packet} {b d : Bytes}

/-- Octets are read as a packet when they begin with the packet's own, and only then. -/
theorem parse_eq_ok_iff : parse d = .ok p ↔ p.bytes <+: d := by
  constructor
  · intro h
    obtain ⟨n, -, hbytes⟩ := bytes_of_parse h
    rw [hbytes]
    exact List.take_prefix n d
  · rintro ⟨t, rfl⟩
    exact p.parse_bytes_append t

/-- A packet that is cut short is no packet. -/
theorem parse_of_cut (h : b.Cut p.bytes) : parse b = .error (.truncated b.length) :=
  parse_of_declaredLength (declaredLength_of_cut p.declared h.front h.shorter)

/-- A packet is as long as its header tells. -/
theorem length_eq_toldLength (p : Packet) : p.length = p.family.toldLength p.bytes := by
  rcases p.layout_cases with ⟨hv, hl⟩ | ⟨hv, hwalks⟩
  · rw [family, hl]
    exact p.length_v4 hv
  · rw [family, hwalks.family.1]
    exact (p.length_v6 hv).2

/-- The first half octet of a packet is the version of its family. -/
theorem version_eq (p : Packet) : (p.bytes.octet 0).toNat / 16 = p.family.version.toNat := by
  rcases p.layout_cases with ⟨hv, hl⟩ | ⟨hv, hwalks⟩
  · rw [family, hl]
    exact hv
  · rw [family, hwalks.family.1]
    exact (p.length_v6 hv).1

theorem toldLength_of_front (h : p.bytes <+: d) :
    p.family.toldLength d = p.family.toldLength p.bytes := by
  obtain ⟨t, rfl⟩ := h
  have h20 : ipv4HeaderLength = 20 := rfl
  have hmin := (declaredLength_bounds p.declared).1
  cases p.family with
  | ipv4 => exact Bytes.word16_append_left (by omega)
  | ipv6 => exact congrArg (ipv6HeaderLength + ·) (Bytes.word16_append_left (by omega))

/-! ## The parts of a packet -/

/-- What stands between the header that fragments repeat and the payload. -/
def between (p : Packet) : Bytes :=
  (p.bytes.drop p.layout.headerLength).take (p.layout.payloadStart - p.layout.headerLength)

/-- How a packet falls apart. -/
structure Divided (p : Packet) : Prop where
  whole : p.header ++ p.between ++ p.payload = p.bytes
  fragment : p.family = .ipv6 → ∀ f, p.fragmentInfo = some f →
    IsFragmentHeader p.protocol f p.between
  none : p.family = .ipv4 ∨ p.isFragment = false → p.between = []
  index : p.layout.nextHeaderIndex < p.header.length
  /-- The octet at the index names the fragment header, or else what the payload is. -/
  names : p.header.octet p.layout.nextHeaderIndex =
    if p.family = .ipv6 ∧ p.isFragment = true then Protocol.fragment else p.protocol

/-- Only the fragment header of an IPv6 fragment stands before the payload. -/
theorem payloadStart_eq (h : p.family = .ipv4 ∨ p.isFragment = false) :
    p.layout.payloadStart = p.layout.headerLength := by
  rcases p.layout_cases with ⟨-, hl⟩ | ⟨-, hwalks⟩
  · rw [hl]
    rfl
  · rcases h with hfamily | hwhole
    · cases hwalks.family.1.symm.trans hfamily
    · exact hwalks.payloadStart_of_whole hwhole

theorem laidOut_v6 (h : p.family = .ipv6) :
    Layout.walk p.bytes (p.bytes.octet 6) 6 ipv6HeaderLength = .ok p.layout := by
  have hl := p.laidOut
  rw [Layout.read] at hl
  split at hl
  · rw [family, ← Except.ok.inj hl] at h
    cases h
  · exact hl

theorem headerLength_le_payloadStart (p : Packet) :
    p.layout.headerLength ≤ p.layout.payloadStart := by
  by_cases h : p.family = .ipv4 ∨ p.isFragment = false
  · exact Nat.le_of_eq (payloadStart_eq h).symm
  · rw [not_or, Bool.not_eq_false] at h
    obtain ⟨hfamily, hfragment⟩ := h
    have hv6 : p.family = .ipv6 := by
      cases hf : p.family
      · exact absurd hf hfamily
      · rfl
    obtain ⟨f, hf⟩ := Option.isSome_iff_exists.mp hfragment
    rw [(Layout.fragment_of_walk (laidOut_v6 hv6) hf).2.2.1]
    exact Nat.le_add_right _ _

theorem header_append_between_append_payload (p : Packet) :
    p.header ++ p.between ++ p.payload = p.bytes := by
  have hle := p.headerLength_le_payloadStart
  have hdrop : p.payload =
      (p.bytes.drop p.layout.headerLength).drop
        (p.layout.payloadStart - p.layout.headerLength) := by
    rw [payload, List.drop_drop, Nat.add_sub_cancel' hle]
  rw [hdrop, between, header, List.append_assoc, List.take_append_drop, List.take_append_drop]

theorem between_eq_nil (h : p.family = .ipv4 ∨ p.isFragment = false) : p.between = [] := by
  rw [between, payloadStart_eq h, Nat.sub_self, List.take_zero]

/-- What an IPv6 fragment has between header and payload is its fragment header. -/
theorem isFragmentHeader_between {f : Fragment} (h : p.family = .ipv6)
    (hf : p.fragmentInfo = some f) : IsFragmentHeader p.protocol f p.between := by
  obtain ⟨hfields, hprotocol, hstart, hle⟩ := Layout.fragment_of_walk (laidOut_v6 h) hf
  have h8 : fragmentHeaderLength = 8 := rfl
  have hbetween : p.between = (p.bytes.drop p.layout.headerLength).take 8 := by
    rw [between, hstart, Nat.add_sub_cancel_left]
    rfl
  rw [hbetween]
  constructor
  · rw [List.length_take, List.length_drop]
    omega
  · rw [Bytes.octet_take (by omega), Bytes.octet_drop]
    exact hprotocol.symm
  · rw [hfields, Layout.fragmentAt, Layout.fragmentAt, Bytes.word16_take (by omega),
      Bytes.word32_take (by omega), Bytes.word16_drop, Bytes.word32_drop]

/-- The octet that names what comes next is one of the header. -/
theorem nextHeaderIndex_lt (p : Packet) : p.layout.nextHeaderIndex < p.layout.headerLength := by
  have h20 : ipv4HeaderLength = 20 := rfl
  have h40 : ipv6HeaderLength = 40 := rfl
  rcases p.layout_cases with ⟨hv, hl⟩ | ⟨-, hwalks⟩
  · have hmin := (p.headerLength_v4 hv).1
    rw [hl]
    show 9 < (p.bytes.octet 0).toNat % 16 * 4
    omega
  · obtain ⟨hmin, -, hindex⟩ := hwalks.bounds
    omega

theorem octet_nextHeaderIndex (p : Packet) :
    p.header.octet p.layout.nextHeaderIndex =
      if p.family = .ipv6 ∧ p.isFragment = true then Protocol.fragment else p.protocol := by
  rw [header, Bytes.octet_take p.nextHeaderIndex_lt]
  rcases p.layout_cases with ⟨hv, hl⟩ | ⟨-, hwalks⟩
  · rw [family, protocol, hl]
    rfl
  · rw [hwalks.names rfl]
    exact if_congr (and_iff_right hwalks.family.1).symm rfl rfl

/-- Every packet falls apart into its parts. -/
theorem divided (p : Packet) : p.Divided where
  whole := p.header_append_between_append_payload
  fragment h _ hf := isFragmentHeader_between h hf
  none := between_eq_nil
  index := by
    rw [p.length_header]
    exact p.nextHeaderIndex_lt
  names := p.octet_nextHeaderIndex

/-- **Packets delimit themselves**: octets are read as the packet at their start, whose header
tells its length, whatever follows it; one that is cut short is refused; and the parts of a packet
are all of it. -/
theorem parse_canonical (h : parse d = .ok p) :
    ((d.octet 0).toNat / 16 = p.family.version.toNat ∧ p.length = p.family.toldLength d ∧
      p.length ≤ d.length ∧ p.bytes = d.take p.length) ∧
    (∀ t, parse (p.bytes ++ t) = .ok p) ∧
    (∀ b, b <+: p.bytes → b ≠ p.bytes → parse b = .error (.truncated b.length)) ∧
    p.Divided := by
  have hprefix := parse_eq_ok_iff.mp h
  have hpos : 0 < p.bytes.length := Nat.lt_of_lt_of_le (by decide)
    (declaredLength_bounds p.declared).1
  refine ⟨⟨?_, ?_, hprefix.length_le, List.prefix_iff_eq_take.mp hprefix⟩, p.parse_bytes_append,
    ?_, p.divided⟩
  · rw [← p.version_eq]
    obtain ⟨t, rfl⟩ := hprefix
    rw [Bytes.octet_append_left hpos]
  · rw [toldLength_of_front hprefix]
    exact p.length_eq_toldLength
  · intro b hb hne
    exact parse_of_cut (Bytes.cut_of_ne hb hne)

/-- An IPv6 fragment behind a hop-by-hop header, and three octets behind the fragment. -/
def trailed : Bytes :=
  [0x60, 0, 0, 0, 0, 24, 0, 64, 32, 1, 13, 184, 0, 0, 0, 0, 0, 0, 0, 0, 0, 0, 0, 1,
    255, 62, 0, 0, 0, 0, 0, 0, 0, 0, 0, 0, 128, 0, 0, 1] ++
  [44, 0, 5, 2, 0, 0, 1, 0] ++ [17, 0, 0, 9, 0, 0, 0, 7] ++ [1, 2, 3, 4, 5, 6, 7, 8] ++ [9, 9, 9]

theorem trailed_canonical :
    ∃ p, parse trailed = .ok p ∧ p.isFragment = true ∧ p.bytes = trailed.take 64 ∧
      parse (p.bytes.take 63) = .error (.truncated 63) ∧ p.Divided := by
  have hread : (parse trailed).toOption.any (fun p => p.isFragment && p.length == 64) = true := by
    decide +kernel
  cases hp : parse trailed with
  | error e =>
    rw [hp] at hread
    cases hread
  | ok p =>
    rw [hp] at hread
    obtain ⟨hfragment, hlength⟩ := Bool.and_eq_true_iff.mp hread
    have hlen : p.bytes.length = 64 := eq_of_beq hlength
    have hcutlen : (p.bytes.take 63).length = 63 := by rw [List.length_take, hlen]; rfl
    obtain ⟨⟨-, -, -, hbytes⟩, -, hcut, hdivided⟩ := parse_canonical hp
    have herror := hcut (p.bytes.take 63) (List.take_prefix _ _) fun h => by
      rw [h, hlen] at hcutlen
      cases hcutlen
    rw [hcutlen] at herror
    rw [length, hlen] at hbytes
    exact ⟨p, rfl, hfragment, hbytes, herror, hdivided⟩

end Packet

end MulticastTunnel
