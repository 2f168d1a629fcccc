import MulticastTunnel.Datagram
import MulticastTunnel.Proofs.Checked.Machine
import MulticastTunnel.Proofs.Packet.Fragments

/-!
# Packets are parsed safely

The parser looks at the length of the octets before it reads them, or cuts them to the length that
it has looked at. Along a chain of IPv6 headers each header is looked at before it is read, and the
next one begins behind it, so the walk comes to an end.
-/

namespace MulticastTunnel.Checked

open Packet

variable {ε : Type} {d : Bytes} {next : UInt8} {named here fuel n : Nat}

/-- What a packet consists of. -/
structure Parts where
  bytes : Bytes
  layout : Layout

def partsOf (p : Packet) : Parts := ⟨p.bytes, p.layout⟩

def addressV4 (d : Bytes) (i : Nat) : Checked ε Address := do
  let o₀ ← index d i
  let o₁ ← index d (i + 1)
  let o₂ ← index d (i + 2)
  let o₃ ← index d (i + 3)
  pure (.read .ipv4 [o₀, o₁, o₂, o₃])

/-- Sixteen octets that are copied out of others. -/
def addressV6 (d : Bytes) (i : Nat) : Checked ε Address := do
  let octets ← between d i (i + 16)
  let octets ← copied 16 octets
  pure (.read .ipv6 octets)

def partsV4 (d : Bytes) : Checked PacketError Parts :=
  if d.length < ipv4HeaderLength then .refused (.truncated d.length)
  else do
    let first ← index d 0
    let headerLength ← word (first.toNat % 16 * 4)
    if headerLength < ipv4HeaderLength then .refused .invalidHeaderLength
    else
      let total ← word16 d 2
      if total < headerLength then .refused .invalidHeaderLength
      else if d.length < total then .refused (.truncated d.length)
      else
        let d ← upTo d total
        let identification ← word16 d 4
        let field ← word16 d 6
        let more := field / 8192 % 2 = 1
        let offset := field % 8192
        let source ← addressV4 d 12
        let destination ← addressV4 d 16
        let protocol ← index d 9
        pure ⟨d, {
          family := .ipv4
          source
          destination
          protocol
          headerLength
          payloadStart := headerLength
          nextHeaderIndex := 9
          fragment :=
            if more ∨ offset ≠ 0 then some ⟨offset, more, .ofNat identification⟩ else none }⟩

/-- The walk over IPv6 headers, for as many steps as there is fuel. -/
def walk (d : Bytes) (source destination : Address) :
    (fuel : Nat) → (next : UInt8) → (named here : Nat) → Checked PacketError Layout
  | 0, _, _, _ => .trapped .endless
  | fuel + 1, next, named, here =>
    if Protocol.isExtension next then do
      let least ← word (here + 2)
      if d.length < least then .refused .malformedExtension
      else
        let i ← word (here + 1)
        let units ← index d i
        let units ← word (units.toNat + 1)
        let length ← word (units * 8)
        let stop ← word (here + length)
        if d.length < stop then .refused .malformedExtension
        else
          let following ← index d here
          walk d source destination fuel following here stop
    else if next = Protocol.fragment then do
      let stop ← word (here + fragmentHeaderLength)
      if d.length < stop then .refused .malformedExtension
      else
        let i ← word (here + 2)
        let field ← word16 d i
        let i ← word (here + 4)
        let identification ← word32 d i
        let protocol ← index d here
        let headerLength ← minus stop fragmentHeaderLength
        pure {
          family := .ipv6
          source
          destination
          protocol
          headerLength
          payloadStart := stop
          nextHeaderIndex := named
          fragment := some ⟨field / 8, field % 2 = 1, .ofNat identification⟩ }
    else
      pure {
        family := .ipv6
        source
        destination
        protocol := next
        headerLength := here
        payloadStart := here
        nextHeaderIndex := named
        fragment := none }

def partsV6 (d : Bytes) : Checked PacketError Parts :=
  if d.length < ipv6HeaderLength then .refused (.truncated d.length)
  else do
    let payloadLength ← word16 d 4
    let total ← word (ipv6HeaderLength + payloadLength)
    if d.length < total then .refused (.truncated d.length)
    else
      let d ← upTo d total
      let source ← addressV6 d 8
      let destination ← addressV6 d 24
      let next ← index d 6
      let layout ← walk d source destination d.length next 6 ipv6HeaderLength
      pure ⟨d, layout⟩

def parts (d : Bytes) : Checked PacketError Parts :=
  if d.length = 0 then .refused (.truncated 0)
  else do
    let first ← index d 0
    if first.toNat / 16 = 4 then partsV4 d
    else if first.toNat / 16 = 6 then partsV6 d
    else .refused (.unsupportedVersion (first.toNat / 16))

/-- The packet that has the parts, once these are found without a trap. -/
def parse (d : Bytes) : Checked PacketError Packet := do
  let _ ← parts d
  of (Packet.parse d)

/-! ## Parts -/

theorem addressV4_eq (h : n + 4 ≤ d.length) :
    (addressV4 d n : Checked ε Address) = .value (.read .ipv4 (d.drop n)) := by
  simp (disch := omega) only [addressV4, index_eq, value_bind, pure_eq]
  refine congrArg _ (Address.read_congr .ipv4 fun i hi => ?_)
  rw [Bytes.octet_drop]
  simp only [Family.addressLength] at hi
  obtain rfl | rfl | rfl | rfl : i = 0 ∨ i = 1 ∨ i = 2 ∨ i = 3 := by omega
  all_goals rfl

theorem addressV6_eq (h : n + 16 ≤ d.length) :
    (addressV6 d n : Checked ε Address) = .value (.read .ipv6 (d.drop n)) := by
  have hlen : ((d.take (n + 16)).drop n).length = 16 := by
    rw [List.length_drop, List.length_take]
    omega
  simp only [addressV6, between_eq (Nat.le_add_right n 16) h, value_bind, copied_eq hlen, pure_eq]
  refine congrArg _ (Address.read_congr .ipv6 fun i hi => ?_)
  rw [Bytes.octet_drop, Bytes.octet_drop, Bytes.octet_take (by
    simp only [Family.addressLength] at hi
    omega)]

/-- The parts of what is parsed. -/
theorem map_partsOf_parse (d : Bytes) : (Packet.parse d).map partsOf =
    declaredLength d >>= fun n => (Layout.read (d.take n)).map (Parts.mk (d.take n)) := by
  cases hd : declaredLength d with
  | error e =>
    rw [parse_of_declaredLength hd]
    rfl
  | ok n =>
    show _ = (Layout.read (d.take n)).map (Parts.mk (d.take n))
    cases hl : Layout.read (d.take n) with
    | error e =>
      rw [parse_eq_error hd hl]
      rfl
    | ok layout =>
      have hn := declaredLength_take_append hd []
      rw [List.append_nil] at hn
      have hlen : (d.take n).length = n := by
        rw [List.length_take, Nat.min_eq_left (declaredLength_bounds hd).2]
      have hparse := parse_bytes_append ⟨d.take n, layout, by rw [hn, hlen], hl⟩ (d.drop n)
      rw [List.take_append_drop] at hparse
      rw [hparse]
      rfl

theorem partsV4_eq (hv : (d.octet 0).toNat / 16 = 4) (hpos : d.length ≠ 0) :
    partsV4 d = of ((Packet.parse d).map partsOf) := by
  have h20 : ipv4HeaderLength = 20 := rfl
  have h₀ := (d.octet 0).toNat_lt
  rw [map_partsOf_parse, partsV4, declaredLength]
  simp only [hv, if_true, if_neg hpos]
  by_cases hshort : d.length < ipv4HeaderLength
  · simp only [if_pos hshort]
    rfl
  simp (disch := omega) only [if_neg hshort, index_eq, value_bind, word_eq, word16_eq]
  by_cases hmin : (d.octet 0).toNat % 16 * 4 < ipv4HeaderLength
  · simp only [if_pos hmin, if_pos (Or.inl hmin)]
    rfl
  by_cases htotal : d.word16 2 < (d.octet 0).toNat % 16 * 4
  · simp only [if_neg hmin, if_pos htotal, if_pos (Or.inr htotal)]
    rfl
  simp only [if_neg hmin, if_neg htotal, if_neg (not_or.mpr ⟨hmin, htotal⟩)]
  by_cases hlong : d.length < d.word16 2
  · simp only [if_pos hlong]
    rfl
  have hn : d.word16 2 ≤ d.length := Nat.le_of_not_lt hlong
  have hlen : (d.take (d.word16 2)).length = d.word16 2 := by
    rw [List.length_take, Nat.min_eq_left hn]
  have hoctet : Bytes.octet (d.take (d.word16 2)) 0 = d.octet 0 := Bytes.octet_take (by omega)
  simp (disch := omega) only [if_neg hlong, upTo_eq hn, value_bind, word16_eq, index_eq,
    addressV4_eq, pure_eq]
  show _ = of ((Layout.read (d.take (d.word16 2))).map (Parts.mk (d.take (d.word16 2))))
  rw [Layout.read, hoctet, if_pos hv, Layout.readV4, hoctet]
  rfl

/-- The walk ends before its fuel, and no header is read that is not there. -/
theorem walk_eq (hd : d.length ≤ 65575) (hhere : here ≤ d.length) (hfuel : d.length - here < fuel) :
    walk d (.read .ipv6 (d.drop 8)) (.read .ipv6 (d.drop 24)) fuel next named here =
      of (Layout.walk d next named here) := by
  have h8 : fragmentHeaderLength = 8 := rfl
  induction fuel generalizing next named here with
  | zero => exact absurd hfuel (Nat.not_lt_zero _)
  | succ fuel ih =>
    rw [walk, Layout.walk]
    split
    · simp (disch := omega) only [word_eq, value_bind]
      split
      · rfl
      · have hunits := (d.octet (here + 1)).toNat_lt
        simp (disch := omega) only [word_eq, value_bind, index_eq]
        split
        · rfl
        · exact ih (by omega) (by omega)
    split
    · simp (disch := omega) only [word_eq, value_bind, h8]
      split
      · rfl
      · simp (disch := omega) only [value_bind, index_eq, word16_eq, word32_eq, minus_eq,
          pure_eq, Nat.add_sub_cancel]
        rfl
    · rfl

theorem partsV6_eq (hv : (d.octet 0).toNat / 16 = 6) (hpos : d.length ≠ 0) :
    partsV6 d = of ((Packet.parse d).map partsOf) := by
  have h40 : ipv6HeaderLength = 40 := rfl
  have hword := d.word16_lt 4
  rw [map_partsOf_parse, partsV6, declaredLength]
  simp only [hv, if_true, if_neg hpos, show ¬ 6 = 4 by decide, if_false]
  by_cases hshort : d.length < ipv6HeaderLength
  · simp only [if_pos hshort, if_pos (Or.inl hshort)]
    rfl
  simp (disch := omega) only [if_neg hshort, value_bind, word_eq, word16_eq]
  by_cases hlong : d.length < ipv6HeaderLength + d.word16 4
  · simp only [if_pos hlong, if_pos (Or.inr hlong)]
    rfl
  generalize hn : ipv6HeaderLength + d.word16 4 = n at hlong ⊢
  have hle : n ≤ d.length := Nat.le_of_not_lt hlong
  have hlen : (d.take n).length = n := by rw [List.length_take, Nat.min_eq_left hle]
  have hoctet : Bytes.octet (d.take n) 0 = d.octet 0 := Bytes.octet_take (by omega)
  have hwalk := @walk_eq (d.take n) (Bytes.octet (d.take n) 6) 6 ipv6HeaderLength
    (d.take n).length (by omega) (by omega) (by omega)
  simp (disch := omega) only [if_neg hlong, if_neg (not_or.mpr ⟨hshort, hlong⟩), upTo_eq hle,
    value_bind, addressV6_eq, index_eq, hwalk, pure_eq]
  show _ = of ((Layout.read (d.take n)).map (Parts.mk (d.take n)))
  rw [of_map, Layout.read, hoctet, hv, if_neg (by decide)]

theorem parts_eq (d : Bytes) : parts d = of ((Packet.parse d).map partsOf) := by
  rw [parts]
  split
  · next hlen =>
    rw [map_partsOf_parse, declaredLength]
    simp only [hlen, if_true]
    rfl
  next hlen =>
  simp (disch := omega) only [index_eq, value_bind]
  split
  · next hv => exact partsV4_eq hv hlen
  split
  · next hv => exact partsV6_eq hv hlen
  · next hv₄ hv₆ =>
    rw [map_partsOf_parse, declaredLength]
    simp only [if_neg hlen, if_neg hv₄, if_neg hv₆]
    rfl

theorem parse_eq (d : Bytes) : parse d = of (Packet.parse d) := by
  rw [parse, parts_eq]
  cases Packet.parse d <;> rfl

/-! ## What is asked of a packet -/

def payload (p : Packet) : Checked ε Bytes := behind p.bytes p.layout.payloadStart

theorem payload_eq (p : Packet) : (payload p : Checked ε Bytes) = .value p.payload :=
  behind_eq p.payloadStart_le

/-- The UDP datagram in a packet. -/
def datagram (p : Packet) : Checked PacketError Datagram :=
  if p.protocol ≠ Protocol.udp ∨ p.isFragment then .refused .notUdp
  else do
    let segment ← payload p
    if segment.length < Datagram.headerLength then .refused (.truncated segment.length)
    else
      let length ← word16 segment 4
      let stop :=
        if Datagram.headerLength ≤ length ∧ length ≤ segment.length then length
        else segment.length
      let sourcePort ← word16 segment 0
      let destinationPort ← word16 segment 2
      let payload ← between segment Datagram.headerLength stop
      pure {
        source := p.source
        sourcePort := .ofNat sourcePort
        destination := p.destination
        destinationPort := .ofNat destinationPort
        payload }

theorem datagram_eq (p : Packet) : datagram p = of (Datagram.parse p) := by
  have h8 : Datagram.headerLength = 8 := rfl
  rw [datagram, Datagram.parse]
  simp only [payload_eq, value_bind]
  split
  · rfl
  split
  · rfl
  next hlong =>
  simp (disch := omega) only [word16_eq, value_bind]
  rw [between_eq (by split <;> omega) (by split <;> omega)]
  rfl

end MulticastTunnel.Checked
