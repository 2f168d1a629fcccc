import MulticastTunnel.Proofs.Membership.Families
import MulticastTunnel.Proofs.Packet.Altered

/-!
# Messages with another octet

A message is taken from a packet if the octets that its checksum covers have checksum zero: for
IGMP the message, for MLD the pseudo header with the two addresses in front of it. So when one
of these octets is replaced in a packet that was accepted, the message is refused, as one of
another type if it is the octet that tells the type, and else for its checksum.
-/

namespace MulticastTunnel

/-- An address that was read has the octets it was read from. -/
theorem Address.octets_read (family : Family) {b : Bytes} (h : family.addressLength ≤ b.length) :
    (read family b).octets = b.take family.addressLength := by
  have hlen : (read family b).octets.length = (b.take family.addressLength).length := by
    rw [length_octets, family_read, List.length_take, Nat.min_eq_left h]
  refine Bytes.ext_octet hlen fun n hn => ?_
  rw [length_octets, family_read] at hn
  rw [Bytes.octet_take hn]
  cases family with
  | ipv4 =>
    have hn : n < 4 := hn
    simp [read, octets, Bytes.octet, hn]
  | ipv6 =>
    have hn : n < 16 := hn
    simp [read, octets, Bytes.octet, hn]

namespace Membership

variable {p q : Packet} {i : Nat} {o igmp mld : UInt8} {body : Bytes}

/-- The octets that the checksum of the message in a packet covers. -/
def coverage (p : Packet) : Bytes :=
  match p.family with
  | .ipv4 => p.payload
  | .ipv6 => p.bytes.slice 8 32 ++ Bytes.ofWord32 p.payload.length ++
    [0, 0, 0, Protocol.icmpv6] ++ p.payload

theorem coverage_v4 (h : p.family = .ipv4) : coverage p = p.payload := by
  rw [coverage, h]

theorem coverage_v6 (h : p.family = .ipv6) :
    coverage p = p.bytes.slice 8 32 ++ Bytes.ofWord32 p.payload.length ++
      [0, 0, 0, Protocol.icmpv6] ++ p.payload := by
  rw [coverage, h]

/-- The two addresses of a packet are of one family, and with the message they are what its
checksum is taken of. -/
theorem messageChecksum_eq (p : Packet) :
    ∃ addresses, AddressPair.of? p.source p.destination = some addresses ∧
      messageChecksum addresses p.payload = Checksum.of (coverage p) := by
  rcases p.layout_cases with ⟨-, hl⟩ | ⟨hv, hwalks⟩
  · have hfamily : p.family = .ipv4 := by rw [Packet.family, hl]; rfl
    rw [coverage_v4 hfamily, Packet.source, Packet.destination, hl]
    exact ⟨_, rfl, rfl⟩
  · have h40 : ipv6HeaderLength = 40 := rfl
    have hfamily : p.family = .ipv6 := hwalks.family.1
    have hlong := (p.length_v6 hv).2
    have hs := Address.octets_read .ipv6 (b := p.bytes.drop 8) (by
      rw [List.length_drop, Family.addressLength]; omega)
    have hd := Address.octets_read .ipv6 (b := p.bytes.drop 24) (by
      rw [List.length_drop, Family.addressLength]; omega)
    have hslice : p.bytes.slice 8 32 = (p.bytes.drop 8).take 16 ++ (p.bytes.drop 24).take 16 := by
      rw [Bytes.slice, List.take_add (i := 16) (j := 16), List.drop_drop]
    rw [coverage_v6 hfamily, Packet.source, Packet.destination, hwalks.family.2,
      hwalks.destination]
    refine ⟨_, rfl, ?_⟩
    simp only [Address.octets, Address.read, Family.addressLength] at hs hd
    simp only [messageChecksum, Checksum.pseudoHeader, hs, hd, ← Checksum.add_append, Checksum.of,
      hslice, List.append_assoc]

/-- The type that a message has in packets of a family. -/
def expectedType (igmp mld : UInt8) : Family → UInt8
  | .ipv4 => igmp
  | .ipv6 => mld

/-- What a packet is asked before a message is taken from it. -/
theorem unwrap_eq (igmp mld : UInt8) (p : Packet) :
    unwrap igmp mld p =
      if p.isFragment ∨ p.payload.length < 4 then .error (.truncated p.payload.length)
      else if p.protocol ≠ protocolOf p.family ∨
          p.payload.octet 0 ≠ expectedType igmp mld p.family then
        .error (.notMembership p.protocol (p.payload.octet 0))
      else if Checksum.of (coverage p) ≠ 0 then .error .badChecksum
      else .ok p.payload := by
  obtain ⟨addresses, hof, hsum⟩ := messageChecksum_eq p
  simp only [unwrap, hof, hsum]
  rfl

/-- An octet that is replaced in the message is replaced in what the checksum covers. -/
theorem coverage_of_payload (h : p.Altered i o q) (hwhole : p.isFragment = false)
    (hlt : i < p.length) (hi : p.layout.payloadStart ≤ i) :
    ∃ k < (coverage p).length, (coverage p).octet k = p.bytes.octet i ∧
      coverage q = (coverage p).set k o := by
  obtain ⟨k, rfl⟩ := Nat.exists_eq_add_of_le hi
  have hset : q.payload = p.payload.set k o := by
    rw [h.payload_eq_set hi, Nat.add_sub_cancel_left]
  have hoctet : p.payload.octet k = p.bytes.octet (p.layout.payloadStart + k) :=
    Bytes.octet_drop _ _ _
  have hk : k < p.payload.length := by
    rw [Packet.length] at hlt
    rw [Packet.payload, List.length_drop]
    omega
  cases hf : p.family with
  | ipv4 =>
    rw [coverage_v4 hf, coverage_v4 (h.family.trans hf)]
    exact ⟨k, hk, hoctet, hset⟩
  | ipv6 =>
    have h40 : ipv6HeaderLength = 40 := rfl
    have hp := Packet.wholeV6 hf hwhole
    have hmin := hp.min
    have hlong := hp.length
    have hslice : q.bytes.slice 8 32 = p.bytes.slice 8 32 := by
      rw [h.bytes, Bytes.slice_set_of_le (by omega)]
    rw [coverage_v6 hf, coverage_v6 (h.family.trans hf), hslice, h.length_payload, hset]
    generalize p.bytes.slice 8 32 ++ Bytes.ofWord32 p.payload.length ++
      [0, 0, 0, Protocol.icmpv6] = front
    refine ⟨front.length + k, by rw [List.length_append]; omega, ?_, ?_⟩
    · rw [Bytes.octet_append_right rfl, hoctet]
    · rw [List.set_append_right _ _ (Nat.le_add_right _ _), Nat.add_sub_cancel_left]

/-- So is one that is replaced in an address of an IPv6 packet. -/
theorem coverage_of_address (h : p.Altered i o q) (hp : p.WholeV6) (hlo : 8 ≤ i)
    (hhi : i < ipv6HeaderLength) :
    ∃ k < (coverage p).length, (coverage p).octet k = p.bytes.octet i ∧
      coverage q = (coverage p).set k o := by
  have h40 : ipv6HeaderLength = 40 := rfl
  have hmin := hp.min
  have hlong := hp.length
  have hf : p.family = .ipv6 := hp.walks.family.1
  have hlen : (p.bytes.slice 8 32).length = 32 := by
    rw [Bytes.slice, List.length_take, List.length_drop]
    omega
  have hk : i - 8 < (p.bytes.slice 8 32).length := by omega
  have hslice : q.bytes.slice 8 32 = (p.bytes.slice 8 32).set (i - 8) o := by
    rw [h.bytes, Bytes.slice_set hlo]
  rw [coverage_v6 hf, coverage_v6 (h.family.trans hf), hslice, h.length_payload,
    h.payload_eq (by omega), List.append_assoc, List.append_assoc, List.append_assoc,
    List.append_assoc]
  refine ⟨i - 8, by rw [List.length_append]; omega, ?_, ?_⟩
  · rw [Bytes.octet_append_left hk, Bytes.slice, Bytes.octet_take (by omega), Bytes.octet_drop]
    congr 1
    omega
  · rw [List.set_append_left _ _ hk]

/-- An octet that the checksum covers is not replaced without its notice. -/
theorem coverage_altered (h : p.Altered i o q) (hwhole : p.isFragment = false) (hi : p.Guarded i) :
    ∃ k < (coverage p).length, (coverage p).octet k = p.bytes.octet i ∧
      coverage q = (coverage p).set k o := by
  obtain ⟨hlt, hpay | ⟨hf, hlo, hhi⟩⟩ := hi
  · exact coverage_of_payload h hwhole hlt hpay
  · exact coverage_of_address h (Packet.wholeV6 hf hwhole) hlo hhi

/-- Why a message is refused in whose packet `o` was written at index `i`: it is of another type
then, or its checksum is wrong. -/
def refusal (p : Packet) (i : Nat) (o : UInt8) : CodecError :=
  if i = p.layout.payloadStart then .notMembership p.protocol o else .badChecksum

/-- Where a message was taken from a packet, none is when a guarded octet was replaced. -/
theorem unwrap_altered (hp : unwrap igmp mld p = .ok body) (hi : p.Guarded i)
    (ho : o ≠ p.bytes.octet i) :
    ∃ q, Packet.parse (p.bytes.set i o) = .ok q ∧ unwrap igmp mld q = .error (refusal p i o) := by
  rw [unwrap_eq] at hp
  split at hp
  · cases hp
  next hlong =>
  split at hp
  · cases hp
  next htype =>
  split at hp
  · cases hp
  next hsum =>
  rw [not_or, Nat.not_lt] at hlong
  rw [not_or, not_not, not_not] at htype
  have hwhole : p.isFragment = false := by simpa using hlong.1
  obtain ⟨q, hq, h⟩ := Packet.exists_altered hwhole hi o
  refine ⟨q, hq, ?_⟩
  have hstart : p.payload.octet 0 = p.bytes.octet p.layout.payloadStart := Bytes.octet_drop _ _ _
  have hlong' : ¬ (q.isFragment = true ∨ q.payload.length < 4) := by
    rw [h.whole, h.length_payload]
    simpa using hlong.2
  rw [unwrap_eq, if_neg hlong', h.protocol, h.family, refusal]
  by_cases hfirst : i = p.layout.payloadStart
  · subst hfirst
    have hnew : q.payload.octet 0 = o := by
      rw [h.payload_eq_set (Nat.le_refl _), Nat.sub_self, Bytes.octet_set (by omega), if_pos rfl]
    have hne : o ≠ p.payload.octet 0 := hstart ▸ ho
    rw [if_pos rfl, hnew, if_pos (.inr fun heq => hne (heq.trans htype.2.symm))]
  · have hold : q.payload.octet 0 = p.payload.octet 0 := by
      rw [Packet.payload, Packet.payload, Bytes.octet_drop, Bytes.octet_drop, h.payloadStart,
        h.bytes, Bytes.octet_set_of_ne (fun heq => hfirst (by omega))]
    obtain ⟨k, hk, hoctet, hset⟩ := coverage_altered h hwhole hi
    have hbad : Checksum.of (coverage q) ≠ 0 := by
      rw [hset]
      exact Checksum.of_set_ne_zero (not_not.mp hsum) hk (hoctet ▸ ho)
    rw [if_neg hfirst, hold, if_neg (not_or.mpr ⟨not_not.mpr htype.1, not_not.mpr htype.2⟩),
      if_pos hbad]

/-- **Corruption is detected**: in the packet of a report or a query, any octet of the message and,
in IPv6, of the addresses may be replaced by any other. What comes out is a packet, but no message
is read from it: if its first octet was replaced it is of an unknown type, and else its checksum
is wrong. -/
theorem written_altered_refused :
    (∀ (r : Report) (source : Address) (p : Packet), r.toPacket source = .ok p →
      ∀ (i : Nat) (o : UInt8), p.Guarded i → o ≠ p.bytes.octet i →
        ∃ altered, Packet.parse (p.bytes.set i o) = .ok altered ∧
          Report.ofPacket altered = .error (refusal p i o)) ∧
    ∀ (q : Query) (source destination : Address) (p : Packet),
      q.toPacket source destination = .ok p →
      ∀ (i : Nat) (o : UInt8), p.Guarded i → o ≠ p.bytes.octet i →
        ∃ altered, Packet.parse (p.bytes.set i o) = .ok altered ∧
          Query.ofPacket altered = .error (refusal p i o) := by
  constructor
  · intro r source p hp i o hi ho
    obtain ⟨c₀, c₁, -, hunwrap⟩ := Report.unwrap_of_toPacket hp
    obtain ⟨altered, hparse, hrefused⟩ := unwrap_altered hunwrap hi ho
    refine ⟨altered, hparse, ?_⟩
    rw [Report.ofPacket, hrefused]
    rfl
  · intro q source destination p hp i o hi ho
    obtain ⟨addresses, c₀, c₁, -, -, hunwrap⟩ := Query.unwrap_of_toPacket hp
    obtain ⟨altered, hparse, hrefused⟩ := unwrap_altered hunwrap hi ho
    refine ⟨altered, hparse, ?_⟩
    rw [Query.ofPacket, hrefused]
    rfl

/-- An octet of the destination of a report, and the type of a query. -/
theorem linkLocal_altered_refused :
    (∃ p altered, (reportOf linkLocal).toPacket linkLocal = .ok p ∧ p.Guarded 24 ∧
      p.bytes.octet 24 = 0xff ∧ Packet.parse (p.bytes.set 24 0) = .ok altered ∧
      Report.ofPacket altered = .error .badChecksum) ∧
    ∃ p altered, (queryOf wideGroup []).toPacket linkLocal wideGroup = .ok p ∧ p.Guarded 48 ∧
      p.bytes.octet 48 = 130 ∧ Packet.parse (p.bytes.set 48 143) = .ok altered ∧
      Query.ofPacket altered = .error (.notMembership Protocol.icmpv6 143) := by
  obtain ⟨hreport, hquery⟩ := written_altered_refused
  constructor
  · have hwritten : ((reportOf linkLocal).toPacket linkLocal).toOption.any (fun p =>
        p.Guarded 24 ∧ p.bytes.octet 24 = 0xff ∧ refusal p 24 0 = .badChecksum) = true := by
      decide +kernel
    cases hp : (reportOf linkLocal).toPacket linkLocal with
    | error e =>
      rw [hp] at hwritten
      cases hwritten
    | ok p =>
      rw [hp] at hwritten
      obtain ⟨hi, hold, hwhy⟩ := of_decide_eq_true hwritten
      obtain ⟨altered, hparse, hrefused⟩ := hreport _ _ p hp 24 0 hi (by rw [hold]; decide)
      exact ⟨p, altered, rfl, hi, hold, hparse, hwhy ▸ hrefused⟩
  · have hwritten : ((queryOf wideGroup []).toPacket linkLocal wideGroup).toOption.any (fun p =>
        p.Guarded 48 ∧ p.bytes.octet 48 = 130 ∧
          refusal p 48 143 = .notMembership Protocol.icmpv6 143) = true := by
      decide +kernel
    cases hp : (queryOf wideGroup []).toPacket linkLocal wideGroup with
    | error e =>
      rw [hp] at hwritten
      cases hwritten
    | ok p =>
      rw [hp] at hwritten
      obtain ⟨hi, hold, hwhy⟩ := of_decide_eq_true hwritten
      obtain ⟨altered, hparse, hrefused⟩ := hquery _ _ _ p hp 48 143 hi (by rw [hold]; decide)
      exact ⟨p, altered, rfl, hi, hold, hparse, hwhy ▸ hrefused⟩

end Membership

end MulticastTunnel
