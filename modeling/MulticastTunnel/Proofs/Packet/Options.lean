import MulticastTunnel.Proofs.Packet.Build
import MulticastTunnel.Proofs.Packet.Delimiting
import MulticastTunnel.Proofs.Packet.Fragments

/-!
# Headers with options

A built packet holds the options that were given, with nothing but padding behind them, and an
IPv4 header comes out sealed. A packet that its length fields cannot describe is refused. But the
length octet of a hop-by-hop header counts units modulo 256, and nothing looks whether it can tell
the length: what it does not tell of the header spills into the payload.
-/

namespace MulticastTunnel.Packet

/-- Octets that only fill up options: ends of an IPv4 option list, or one IPv6 padding option. -/
inductive Fills : Family → Bytes → Prop
  | ends (n : Nat) : Fills .ipv4 (.zeros n)
  | nothing : Fills .ipv6 []
  | one : Fills .ipv6 [0]
  | several (n : Nat) : n < 256 → Fills .ipv6 ([1, UInt8.ofNat n] ++ .zeros n)

/-- The header holds the options behind its first `fixed` octets, and then only padding. -/
def HoldsOptions (p : Packet) (fixed : Nat) (options : Bytes) : Prop :=
  ∃ front fill, p.header = front ++ (options ++ fill) ∧ front.length = fixed ∧
    Fills p.family fill

variable {p : Packet} {d : Bytes}

/-- Octets that are as long as the packet that they are read as are all of it. -/
theorem header_append_payload (h : parse d = .ok p) (hwhole : p.isFragment = false)
    (hlen : p.family.toldLength d = d.length) : p.header ++ p.payload = d := by
  have hprefix := parse_eq_ok_iff.mp h
  have hbytes : p.bytes = d := by
    refine hprefix.eq_of_length ?_
    rw [← hlen, toldLength_of_front hprefix]
    exact p.length_eq_toldLength
  rw [← hbytes, ← p.header_append_between_append_payload, between_eq_nil (.inr hwhole),
    List.append_nil]

theorem fills_padding {n : Nat} (h : n < 258) : Fills .ipv6 (padding n) := by
  match n with
  | 0 => exact .nothing
  | 1 => exact .one
  | n + 2 => exact .several n (by omega)

/-! ## IPv4 -/

/-- An IPv4 packet that can be described has the options that were given. -/
theorem buildV4_holdsOptions (s d : Vector UInt8 4) (protocol ttl : UInt8)
    (options payload : Bytes) (hopt : options.length ≤ 40)
    (hlen : ipv4HeaderLength + (filledOptions options).length + payload.length ≤
      maxDatagramLength) :
    ∃ p, buildV4 s d protocol ttl options payload = .ok p ∧
      p.Has (.v4 s) (.v4 d) protocol ttl payload ∧ p.HoldsOptions ipv4HeaderLength options ∧
      Checksum.of p.header = 0 := by
  obtain ⟨x, t₀, t₁, c₀, c₁, header, hx, hh, ht, hmin, hseal, hbuild⟩ :=
    exists_octetsV4 s d protocol ttl options payload hopt hlen
  obtain ⟨p, hp, hhas⟩ :=
    parse_octetsV4 x t₀ t₁ ttl protocol c₀ c₁ s d (filledOptions options) payload hx hh ht
  have hfamily : p.family = .ipv4 := hhas.family
  have hwhole := header_append_payload hp hhas.whole (by
    rw [hfamily]
    show t₀.toNat * 256 + t₁.toNat = _
    rw [ht]
    simp only [octetsV4, List.length_append, List.length_cons, List.length_nil,
      Vector.length_toList, ipv4HeaderLength]
    omega)
  rw [hhas.payload, ← octetsV4_append] at hwhole
  have hheader := List.append_cancel_right hwhole
  refine ⟨p, hbuild.trans hp, hhas, ?_, ?_⟩
  · refine ⟨[x, 0, t₀, t₁, 0, 0, 0, 0, ttl, protocol, c₀, c₁] ++ (s.toList ++ d.toList),
      .zeros ((options.length + 3) / 4 * 4 - options.length), ?_, ?_, ?_⟩
    · rw [hheader, octetsV4, filledOptions, List.append_nil]
      simp only [List.append_assoc]
    · simp only [List.length_append, List.length_cons, List.length_nil, Vector.length_toList]
      rfl
    · rw [hfamily]
      exact .ends _
  · rw [hheader, ← hseal]
    exact checksum_sealHeader hmin

/-! ## IPv6 -/

section IPv6

variable {t₀ t₁ first hopLimit next : UInt8} {s t : Vector UInt8 16} {extension payload : Bytes}

/-- The header of a packet whose payload begins behind the extension header. -/
theorem header_octetsV6
    (ht : t₀.toNat * 256 + t₁.toNat = extension.length + payload.length)
    (hp : parse (octetsV6 t₀ t₁ first hopLimit s t extension payload) = .ok p)
    (hhas : p.Has (.v6 s) (.v6 t) next hopLimit payload) :
    p.header = [0x60, 0, 0, 0, t₀, t₁, first, hopLimit] ++ (s.toList ++ t.toList) ++ extension := by
  have hwhole := header_append_payload hp hhas.whole (by
    rw [show p.family = .ipv6 from hhas.family]
    show ipv6HeaderLength + (t₀.toNat * 256 + t₁.toNat) = _
    rw [ht]
    simp only [octetsV6, List.length_append, List.length_cons, List.length_nil,
      Vector.length_toList, ipv6HeaderLength]
    omega)
  rw [hhas.payload, octetsV6] at hwhole
  refine List.append_cancel_right (hwhole.trans ?_)
  simp only [List.append_assoc]

theorem length_header_v6 :
    ([0x60, 0, 0, 0, t₀, t₁, first, hopLimit] ++ (s.toList ++ t.toList)).length =
      ipv6HeaderLength := by
  simp only [List.length_append, List.length_cons, List.length_nil, Vector.length_toList]
  rfl

end IPv6

section Build

variable (s d : Vector UInt8 16) (next hopLimit : UInt8) (options payload : Bytes)

theorem buildV6_length_header (hnext : Protocol.isExtension next = false)
    (hfrag : next ≠ Protocol.fragment) (hlen : payload.length ≤ maxDatagramLength) :
    ∃ p, buildV6 s d next hopLimit none payload = .ok p ∧
      p.Has (.v6 s) (.v6 d) next hopLimit payload ∧ p.header.length = ipv6HeaderLength := by
  obtain ⟨t₀, t₁, p, ht, hp, hbuild, hhas⟩ :=
    buildV6_plain s d next hopLimit payload hnext hfrag hlen
  refine ⟨p, hbuild, hhas, ?_⟩
  rw [header_octetsV6 (by rw [ht, List.length_nil, Nat.zero_add]) hp hhas, List.append_nil]
  exact length_header_v6

theorem buildV6_plain_eq_tooLarge (hlarge : maxDatagramLength < payload.length) :
    buildV6 s d next hopLimit none payload = .error .tooLarge := by
  refine if_pos ?_
  show maxDatagramLength < 0 + payload.length
  omega

theorem buildV6_options_eq_tooLarge
    (hlarge : maxDatagramLength < (hopByHopHeader next options).length + payload.length) :
    buildV6 s d next hopLimit (some options) payload = .error .tooLarge :=
  if_pos hlarge

/-- Options that the header can tell the length of are all in it. -/
theorem buildV6_holdsOptions (hnext : Protocol.isExtension next = false)
    (hfrag : next ≠ Protocol.fragment) (hopt : options.length ≤ 2046)
    (hlen : (hopByHopHeader next options).length + payload.length ≤ maxDatagramLength) :
    ∃ p, buildV6 s d next hopLimit (some options) payload = .ok p ∧
      p.Has (.v6 s) (.v6 d) next hopLimit payload ∧
      p.HoldsOptions (ipv6HeaderLength + 2) options := by
  obtain ⟨t₀, t₁, p, ht, hp, hbuild, hhas⟩ :=
    buildV6_hopByHop s d next hopLimit options payload hnext hfrag hlen
  rw [(hopByHopLength_eq_iff next options).mpr hopt, List.drop_length, List.nil_append] at hhas
  refine ⟨p, hbuild, hhas, [0x60, 0, 0, 0, t₀, t₁, Protocol.hopByHop, hopLimit] ++
    (s.toList ++ d.toList) ++ [next, UInt8.ofNat ((2 + options.length + 7) / 8 * 8 / 8 - 1)],
    padding ((2 + options.length + 7) / 8 * 8 - (2 + options.length)), ?_, ?_, ?_⟩
  · rw [header_octetsV6 ht hp hhas, hopByHopHeader]
    simp only [List.append_assoc]
  · rw [List.length_append, length_header_v6]
    rfl
  · rw [show p.family = .ipv6 from hhas.family]
    exact fills_padding (by omega)

/-- A header that is longer than its length octet can tell spills into the payload. -/
theorem buildV6_spills (hnext : Protocol.isExtension next = false)
    (hfrag : next ≠ Protocol.fragment) (hopt : 2046 < options.length)
    (hlen : (hopByHopHeader next options).length + payload.length ≤ maxDatagramLength) :
    ∃ p rest, buildV6 s d next hopLimit (some options) payload = .ok p ∧ rest ≠ [] ∧
      p.Has (.v6 s) (.v6 d) next hopLimit (rest ++ payload) := by
  obtain ⟨-, -, p, -, -, hbuild, hhas⟩ :=
    buildV6_hopByHop s d next hopLimit options payload hnext hfrag hlen
  refine ⟨p, _, hbuild, fun hnil => ?_, hhas⟩
  have hle := hopByHopLength_le next options
  have hdrop := List.drop_eq_nil_iff.mp hnil
  have heq := (hopByHopLength_eq_iff next options).mp (Nat.le_antisymm hle hdrop)
  omega

end Build

/-! ## Both -/

/-- **What is built** is what was given, options, padding and checksum included, or it is refused
as too large for its length fields. The exception are IPv6 options that the length octet of their
header cannot tell: the packet is built, but the rest of that header is in its payload. -/
theorem built_as_given_iff_told (protocol hopLimit : UInt8) (payload : Bytes) :
    (∀ (s d : Vector UInt8 4) (options : Bytes), options.length ≤ 40 →
      (maxDatagramLength < ipv4HeaderLength + (options.length + 3) / 4 * 4 + payload.length ∧
        buildV4 s d protocol hopLimit options payload = .error .tooLarge) ∨
      ∃ p, buildV4 s d protocol hopLimit options payload = .ok p ∧
        p.Has (.v4 s) (.v4 d) protocol hopLimit payload ∧
        p.HoldsOptions ipv4HeaderLength options ∧ Checksum.of p.header = 0) ∧
    ∀ s d : Vector UInt8 16,
      Protocol.isExtension protocol = false → protocol ≠ Protocol.fragment →
      ((maxDatagramLength < payload.length ∧
          buildV6 s d protocol hopLimit none payload = .error .tooLarge) ∨
        ∃ p, buildV6 s d protocol hopLimit none payload = .ok p ∧
          p.Has (.v6 s) (.v6 d) protocol hopLimit payload ∧
          p.header.length = ipv6HeaderLength) ∧
      ∀ options : Bytes,
        (maxDatagramLength < (2 + options.length + 7) / 8 * 8 + payload.length ∧
          buildV6 s d protocol hopLimit (some options) payload = .error .tooLarge) ∨
        ∃ p, buildV6 s d protocol hopLimit (some options) payload = .ok p ∧
          ((p.Has (.v6 s) (.v6 d) protocol hopLimit payload ∧
            p.HoldsOptions (ipv6HeaderLength + 2) options) ↔ options.length ≤ 2046) ∧
          ∃ rest, p.Has (.v6 s) (.v6 d) protocol hopLimit (rest ++ payload) := by
  refine ⟨fun s d options hopt => ?_, fun s d hnext hfrag => ⟨?_, fun options => ?_⟩⟩
  · rcases Nat.lt_or_ge maxDatagramLength
      (ipv4HeaderLength + (options.length + 3) / 4 * 4 + payload.length) with hlarge | hfits
    · exact .inl ⟨hlarge, buildV4_eq_tooLarge s d protocol hopLimit options payload hopt hlarge⟩
    · rw [← length_filledOptions] at hfits
      exact .inr (buildV4_holdsOptions s d protocol hopLimit options payload hopt hfits)
  · rcases Nat.lt_or_ge maxDatagramLength payload.length with hlarge | hfits
    · exact .inl ⟨hlarge, buildV6_plain_eq_tooLarge s d protocol hopLimit payload hlarge⟩
    · exact .inr (buildV6_length_header s d protocol hopLimit payload hnext hfrag hfits)
  · rw [← length_hopByHopHeader protocol]
    rcases Nat.lt_or_ge maxDatagramLength
      ((hopByHopHeader protocol options).length + payload.length) with hlarge | hfits
    · exact .inl ⟨hlarge, buildV6_options_eq_tooLarge s d protocol hopLimit options payload hlarge⟩
    rcases Nat.lt_or_ge 2046 options.length with hlong | htold
    · obtain ⟨p, rest, hp, hrest, hhas⟩ :=
        buildV6_spills s d protocol hopLimit options payload hnext hfrag hlong hfits
      refine .inr ⟨p, hp, iff_of_false (fun hgiven => hrest ?_) (Nat.not_le.mpr hlong), rest, hhas⟩
      exact List.append_left_eq_self.mp (hhas.payload.symm.trans hgiven.1.payload)
    · obtain ⟨p, hp, hhas, hholds⟩ :=
        buildV6_holdsOptions s d protocol hopLimit options payload hnext hfrag htold hfits
      exact .inr ⟨p, hp, iff_of_true ⟨hhas, hholds⟩ htold, [], hhas⟩

/-- The router alert option of IPv6. -/
def alert : Bytes := [5, 2, 0, 0]

/-- The router alert of each family is in the header of the packet that is built with it. -/
theorem alert_built :
    (∃ p, buildV4 #v[10, 0, 0, 1] #v[224, 0, 0, 22] Protocol.igmp 1 [148, 4, 0, 0] [34, 0] =
        .ok p ∧ p.payload = [34, 0] ∧ p.HoldsOptions ipv4HeaderLength [148, 4, 0, 0] ∧
        Checksum.of p.header = 0) ∧
    Protocol.isExtension Protocol.icmpv6 = false ∧ Protocol.icmpv6 ≠ Protocol.fragment ∧
      ∃ p, buildV6 (.replicate 16 1) (.replicate 16 255) Protocol.icmpv6 1 (some alert) [143, 0] =
        .ok p ∧ p.payload = [143, 0] ∧ p.HoldsOptions (ipv6HeaderLength + 2) alert := by
  refine ⟨?_, rfl, by decide, ?_⟩
  · rcases (built_as_given_iff_told Protocol.igmp 1 [34, 0]).1 #v[10, 0, 0, 1] #v[224, 0, 0, 22]
      [148, 4, 0, 0] (by decide) with ⟨hlarge, -⟩ | ⟨p, hp, hhas, hholds, hsealed⟩
    · exact absurd hlarge (by decide)
    · exact ⟨p, hp, hhas.payload, hholds, hsealed⟩
  · rcases ((built_as_given_iff_told Protocol.icmpv6 1 [143, 0]).2 (.replicate 16 1)
      (.replicate 16 255) rfl (by decide)).2 alert with ⟨hlarge, -⟩ | ⟨p, hp, hgiven, -⟩
    · exact absurd hlarge (by decide)
    · obtain ⟨hhas, hholds⟩ := hgiven.mpr (by decide)
      exact ⟨p, hp, hhas.payload, hholds⟩

/-- A router alert and as many one-octet padding options as make the header one unit too long. -/
def longOptions : Bytes := alert ++ .zeros 2043

/-- Options that their header cannot tell are not refused, and the payload is not what was
given. -/
theorem longOptions_spill :
    ∃ p, buildV6 (.replicate 16 1) (.replicate 16 255) Protocol.udp 64 (some longOptions)
        [1, 2, 3, 4] = .ok p ∧ p.payload ≠ [1, 2, 3, 4] := by
  have hlen : longOptions.length = 2047 := by
    rw [longOptions, List.length_append, Bytes.zeros, List.length_replicate]
    rfl
  obtain ⟨p, rest, hp, hrest, hhas⟩ := buildV6_spills (.replicate 16 1) (.replicate 16 255)
    Protocol.udp 64 longOptions [1, 2, 3, 4] rfl (by decide) (by omega) (by
      rw [length_hopByHopHeader, hlen]
      decide)
  refine ⟨p, hp, fun hsame => hrest ?_⟩
  exact List.append_left_eq_self.mp (hhas.payload.symm.trans hsame)

end MulticastTunnel.Packet
