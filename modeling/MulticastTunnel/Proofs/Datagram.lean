import MulticastTunnel.Datagram
import MulticastTunnel.Proofs.Checksum
import MulticastTunnel.Proofs.Packet.Build

/-!
# Datagrams in packets

A datagram is put into a packet when its addresses are of one family and the length fields can
tell its length, and is read back from it as it was. The checksum in the packet is never zero, and
with it the sum over addresses and segment comes out as zero.
-/

namespace MulticastTunnel

namespace Datagram

variable (d : Datagram) (w : Nat)

/-- The length fields of the headers can tell how long the datagram is with them. -/
def Fits : Prop :=
  headerLength + d.payload.length ≤ maxDatagramLength ∧
    (d.source.family = .ipv4 →
      ipv4HeaderLength + (headerLength + d.payload.length) ≤ maxDatagramLength)

/-! ## Segments -/

theorem length_segment : (d.segment w).length = headerLength + d.payload.length := by
  simp only [segment, List.length_append, Bytes.length_ofWord16, headerLength]

theorem segment_eq_overwrite : d.segment w = (d.segment 0).overwrite 6 (.ofWord16 w) := rfl

section Fields

variable {d w}

theorem sourcePort_of_segment : UInt16.ofNat ((d.segment w).word16 0) = d.sourcePort := by
  rw [segment, List.append_assoc, List.append_assoc, List.append_assoc]
  exact Bytes.word16_of_append (p := []) rfl d.sourcePort

theorem destinationPort_of_segment :
    UInt16.ofNat ((d.segment w).word16 2) = d.destinationPort := by
  rw [segment, List.append_assoc, List.append_assoc]
  exact Bytes.word16_of_append (Bytes.length_ofWord16 _) d.destinationPort

theorem length_of_segment (h : headerLength + d.payload.length ≤ maxDatagramLength) :
    (d.segment w).word16 4 = headerLength + d.payload.length := by
  have hmax : maxDatagramLength = 65535 := rfl
  have hread : (d.segment w).word16 (4 + 0) = (headerLength + d.payload.length) % 65536 := by
    rw [segment, List.append_assoc, List.append_assoc]
    exact (Bytes.word16_append_right rfl 0).trans (Bytes.word16_ofWord16 _ _)
  rw [hread, Nat.mod_eq_of_lt (by omega)]

theorem checksum_of_segment (h : w < 65536) : (d.segment w).word16 6 = w := by
  have hread : (d.segment w).word16 (6 + 0) = w % 65536 := by
    rw [segment, List.append_assoc]
    exact (Bytes.word16_append_right rfl 0).trans (Bytes.word16_ofWord16 _ _)
  rw [hread, Nat.mod_eq_of_lt h]

theorem payload_of_segment : (d.segment w).drop headerLength = d.payload :=
  List.drop_left' (by simp only [List.length_append, Bytes.length_ofWord16, headerLength])

end Fields

/-- A datagram is read from a packet that has its segment. -/
theorem parse_eq_ok {p : Packet} {ttl : UInt8}
    (h : p.Has d.source d.destination Protocol.udp ttl (d.segment w))
    (hlen : headerLength + d.payload.length ≤ maxDatagramLength) : parse p = .ok d := by
  have hlong : ¬ (d.segment w).length < headerLength := by
    rw [length_segment]
    omega
  have htold : headerLength ≤ (d.segment w).word16 4 ∧
      (d.segment w).word16 4 ≤ (d.segment w).length := by
    rw [length_of_segment hlen, length_segment]
    omega
  have hall : (d.segment w).take ((d.segment w).word16 4) = d.segment w := by
    rw [length_of_segment hlen, ← length_segment d w, List.take_length]
  have hudp : ¬ (p.protocol ≠ Protocol.udp ∨ p.isFragment = true) := by
    rw [h.protocol, h.whole]
    decide
  simp only [parse, if_neg hudp, h.payload, if_neg hlong, if_pos htold, hall, h.source,
    h.destination, sourcePort_of_segment, destinationPort_of_segment, payload_of_segment]

/-! ## The checksum -/

variable {d} {addresses : AddressPair}

theorem checksum_pos : 0 < d.checksum addresses := by
  simp only [checksum]
  split
  · decide
  · exact Nat.pos_of_ne_zero ‹_›

theorem checksum_lt : d.checksum addresses < 65536 := by
  simp only [checksum]
  split
  · decide
  · exact UInt16.toNat_lt _

/-- **The checksum is right**: the sum over addresses and segment comes out as zero. -/
theorem finish_segment (addresses : AddressPair) :
    ((({} : Checksum).add (Checksum.pseudoHeader addresses Protocol.udp
      (d.segment (d.checksum addresses)).length)).add (d.segment (d.checksum addresses))).finish =
        0 := by
  have hhalf := Checksum.half_pseudoHeader addresses Protocol.udp
    (headerLength + d.payload.length)
  have hroom : 6 + 2 ≤ (d.segment 0).length := by
    rw [length_segment]
    exact Nat.le_add_right _ _
  rw [length_segment, segment_eq_overwrite]
  simp only [checksum]
  split
  · next hzero =>
    exact Checksum.finish_add_overwrite_ones hhalf rfl hroom rfl rfl (UInt16.toNat_inj.mp hzero)
  · exact Checksum.finish_add_overwrite hhalf rfl hroom rfl rfl

/-! ## Packets -/

/-- A whole packet that a datagram is read back from, with a checksum that is there and right. -/
structure Enclosed (d : Datagram) (ttl : UInt8) (p : Packet) : Prop where
  whole : p.isFragment = false
  hopLimit : p.hopLimit = ttl
  back : Datagram.parse p = .ok d
  marked : p.payload.word16 6 ≠ 0
  checked : ∃ addresses, AddressPair.of? d.source d.destination = some addresses ∧
    ((({} : Checksum).add (Checksum.pseudoHeader addresses Protocol.udp p.payload.length)).add
      p.payload).finish = 0

theorem exists_toPacket (d : Datagram) (ttl : UInt8)
    (hpair : AddressPair.of? d.source d.destination = some addresses) (hfits : d.Fits) :
    ∃ p, d.toPacket ttl = .ok p ∧
      p.Has d.source d.destination Protocol.udp ttl (d.segment (d.checksum addresses)) := by
  obtain ⟨hlen, hlenv4⟩ := hfits
  obtain ⟨hsource, hdestination⟩ := AddressPair.eq_of_of? hpair
  have hseg := length_segment d (d.checksum addresses)
  simp only [toPacket, if_neg (Nat.not_lt.mpr hlen), hpair]
  cases addresses with
  | v4 s t =>
    rw [hsource, hdestination]
    refine Packet.buildV4_eq_ok s t Protocol.udp ttl [] _ (by decide) ?_
    rw [hseg]
    exact hlenv4 (by rw [hsource]; rfl)
  | v6 s t =>
    rw [hsource, hdestination]
    obtain ⟨-, -, p, -, -, hp, hhas⟩ := Packet.buildV6_plain s t Protocol.udp ttl
      (d.segment (d.checksum (.v6 s t))) rfl (by decide) (by rw [hseg]; exact hlen)
    exact ⟨p, hp, hhas⟩

theorem enclosed_of_has {p : Packet} {ttl : UInt8}
    (hpair : AddressPair.of? d.source d.destination = some addresses)
    (hlen : headerLength + d.payload.length ≤ maxDatagramLength)
    (h : p.Has d.source d.destination Protocol.udp ttl (d.segment (d.checksum addresses))) :
    d.Enclosed ttl p where
  whole := h.whole
  hopLimit := h.hopLimit
  back := parse_eq_ok d _ h hlen
  marked := by
    rw [h.payload, checksum_of_segment checksum_lt]
    exact Nat.ne_of_gt checksum_pos
  checked := by
    rw [h.payload]
    exact ⟨addresses, hpair, finish_segment addresses⟩

/-- A datagram that no packet of one family can hold is refused, as too large or for the
families. -/
theorem toPacket_eq_error (d : Datagram) (ttl : UInt8)
    (h : ¬ (d.source.family = d.destination.family ∧ d.Fits)) :
    d.toPacket ttl = .error .tooLarge ∧ ¬ d.Fits ∨
      d.toPacket ttl = .error .familyMismatch ∧ d.source.family ≠ d.destination.family := by
  by_cases hlarge : maxDatagramLength < headerLength + d.payload.length
  · refine .inl ⟨if_pos hlarge, fun hfits => ?_⟩
    exact absurd hfits.1 (Nat.not_le.mpr hlarge)
  simp only [toPacket, if_neg hlarge]
  cases hpair : AddressPair.of? d.source d.destination with
  | none =>
    refine .inr ⟨rfl, fun hsame => ?_⟩
    obtain ⟨addresses, hsome⟩ := AddressPair.exists_of?_iff.mpr hsame
    cases hpair.symm.trans hsome
  | some addresses =>
    have hfits : ¬ d.Fits := fun hfits =>
      h ⟨AddressPair.exists_of?_iff.mp ⟨addresses, hpair⟩, hfits⟩
    refine .inl ⟨?_, hfits⟩
    have hseg := length_segment d (d.checksum addresses)
    have hsource := (AddressPair.eq_of_of? hpair).1
    simp only [Fits, not_and] at hfits
    cases addresses with
    | v4 s t =>
      refine Packet.buildV4_eq_tooLarge s t Protocol.udp ttl [] _ (by decide) ?_
      rw [hseg]
      exact Nat.lt_of_not_le fun hle => hfits (Nat.le_of_not_lt hlarge) fun _ => hle
    | v6 s t =>
      -- An IPv6 packet holds every segment whose own length field tells its length.
      refine absurd (fun hfamily => ?_) (hfits (Nat.le_of_not_lt hlarge))
      rw [hsource] at hfamily
      cases hfamily

/-- **Datagrams are read back**: a datagram is put into a packet that it is read back from, with a
checksum that is right, when its addresses are of one family and it fits its length fields, and is
refused otherwise. -/
theorem enclosed_or_refused (d : Datagram) (ttl : UInt8) :
    (d.source.family = d.destination.family ∧ d.Fits ∧
      ∃ p, d.toPacket ttl = .ok p ∧ d.Enclosed ttl p) ∨
    (¬ (d.source.family = d.destination.family ∧ d.Fits) ∧
      (d.toPacket ttl = .error .tooLarge ∧ ¬ d.Fits ∨
        d.toPacket ttl = .error .familyMismatch ∧
          d.source.family ≠ d.destination.family)) := by
  by_cases h : d.source.family = d.destination.family ∧ d.Fits
  · obtain ⟨hsame, hfits⟩ := h
    obtain ⟨addresses, hpair⟩ := AddressPair.exists_of?_iff.mpr hsame
    obtain ⟨p, hp, hhas⟩ := exists_toPacket d ttl hpair hfits
    exact .inl ⟨hsame, hfits, p, hp, enclosed_of_has hpair hfits.1 hhas⟩
  · exact .inr ⟨h, toPacket_eq_error d ttl h⟩

/-- A sum of zero is told as all ones. -/
example : (⟨.v4 #v[10, 0, 0, 1], 5000, .v4 #v[232, 1, 1, 1], 5001, [0xe5, 0xc5]⟩ :
    Datagram).checksum (.v4 #v[10, 0, 0, 1] #v[232, 1, 1, 1]) = 65535 := by
  decide +kernel

end Datagram

end MulticastTunnel
