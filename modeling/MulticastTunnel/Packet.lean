import MulticastTunnel.Address
import MulticastTunnel.Fault

/-!
# IP packets

A packet is an octet string whose header declares exactly its length and whose
headers can be walked to the upper-layer payload. Parsing cuts off what lies
behind the declared length; what is left parses to the same packet whatever
follows it.
-/

namespace MulticastTunnel

/-- Why octets are no packet, or a packet cannot be made. -/
inductive PacketError
  | truncated (length : Nat)
  | unsupportedVersion (version : Nat)
  | invalidHeaderLength
  | malformedExtension
  | tooLarge
  | notUdp
  | familyMismatch
deriving DecidableEq, Repr

def PacketError.message : PacketError → String
  | .truncated n => s!"Packet truncated ({n} bytes)"
  | .unsupportedVersion v => s!"Unsupported IP version: {v}"
  | .invalidHeaderLength => "Invalid header length"
  | .malformedExtension => "Malformed IPv6 extension header"
  | .tooLarge => "Datagram exceeds 65535 bytes"
  | .notUdp => "Not a UDP datagram"
  | .familyMismatch => "Source and destination address families differ"

def PacketError.name : PacketError → String
  | .truncated _ => "Truncated"
  | .unsupportedVersion _ => "UnsupportedVersion"
  | .invalidHeaderLength => "InvalidHeaderLength"
  | .malformedExtension => "MalformedExtension"
  | .tooLarge => "TooLarge"
  | .notUdp => "NotUdp"
  | .familyMismatch => "FamilyMismatch"

instance : Fault PacketError := ⟨PacketError.name, PacketError.message⟩

/-! ## Protocol numbers -/

namespace Protocol

def hopByHop : UInt8 := 0
def igmp : UInt8 := 2
def udp : UInt8 := 17
def routing : UInt8 := 43
def fragment : UInt8 := 44
def icmpv6 : UInt8 := 58
def destinationOptions : UInt8 := 60

/-- IPv6 headers that give their length and name the header behind them. -/
def isExtension (p : UInt8) : Bool :=
  p = hopByHop || p = routing || p = destinationOptions

end Protocol

def ipv4HeaderLength : Nat := 20

/-- Octets of an IPv6 header without extensions. -/
def ipv6HeaderLength : Nat := 40

def fragmentHeaderLength : Nat := 8

/-- The largest number a length field of either family holds. -/
def maxDatagramLength : Nat := 65535

/-- Which part of a larger datagram a packet carries. The offset counts
eight-octet units. -/
structure Fragment where
  offset : Nat
  more : Bool
  identification : UInt32
deriving DecidableEq, Repr

namespace Fragment

/-- Index of the first carried octet in the payload of the whole datagram. -/
def start (f : Fragment) : Nat := f.offset * 8

end Fragment

/-- Where the parts of a packet lie. -/
structure Layout where
  family : Family
  source : Address
  destination : Address
  /-- The upper-layer protocol, behind all extension headers. -/
  protocol : UInt8
  /-- Octets at the start that every fragment repeats. -/
  headerLength : Nat
  payloadStart : Nat
  /-- Index of the octet that names what follows the repeated octets. -/
  nextHeaderIndex : Nat
  fragment : Option Fragment
deriving DecidableEq

namespace Layout

/-- The IPv4 fragment fields; a packet that starts at zero and has nothing
behind it is no fragment. -/
def fragmentV4 (d : Bytes) : Option Fragment :=
  let field := d.word16 6
  let more := field / 8192 % 2 = 1
  let offset := field % 8192
  if more ∨ offset ≠ 0 then some ⟨offset, more, UInt32.ofNat (d.word16 4)⟩ else none

def readV4 (d : Bytes) : Layout :=
  let headerLength := (d.octet 0).toNat % 16 * 4
  { family := .ipv4
    source := .read .ipv4 (d.drop 12)
    destination := .read .ipv4 (d.drop 16)
    protocol := d.octet 9
    headerLength
    payloadStart := headerLength
    nextHeaderIndex := 9
    fragment := fragmentV4 d }

/-- Walks the IPv6 headers from index `here`, where one of kind `next` stands,
named by the octet at `named`. A fragment header ends the walk. -/
def walk (d : Bytes) (next : UInt8) (named here : Nat) : Except PacketError Layout :=
  let ending (protocol : UInt8) (payloadStart : Nat) (fragment : Option Fragment) : Layout :=
    { family := .ipv6
      source := .read .ipv6 (d.drop 8)
      destination := .read .ipv6 (d.drop 24)
      protocol
      headerLength := here
      payloadStart
      nextHeaderIndex := named
      fragment }
  if Protocol.isExtension next then
    if d.length < here + 2 then .error .malformedExtension
    else
      let length := ((d.octet (here + 1)).toNat + 1) * 8
      if d.length < here + length then .error .malformedExtension
      else walk d (d.octet here) here (here + length)
  else if next = Protocol.fragment then
    if d.length < here + fragmentHeaderLength then .error .malformedExtension
    else
      let field := d.word16 (here + 2)
      .ok (ending (d.octet here) (here + fragmentHeaderLength)
        (some ⟨field / 8, field % 2 = 1, UInt32.ofNat (d.word32 (here + 4))⟩))
  else .ok (ending next here none)
termination_by d.length - here
decreasing_by omega

/-- The layout of octets whose length is the declared one. -/
def read (d : Bytes) : Except PacketError Layout :=
  if (d.octet 0).toNat / 16 = 4 then .ok (readV4 d)
  else walk d (d.octet 6) 6 ipv6HeaderLength

end Layout

/-- The length that the header of `d` declares, when `d` is that long. -/
def declaredLength (d : Bytes) : Except PacketError Nat :=
  let version := (d.octet 0).toNat / 16
  if d.length = 0 then .error (.truncated 0)
  else if version = 4 then
    let headerLength := (d.octet 0).toNat % 16 * 4
    let total := d.word16 2
    if d.length < ipv4HeaderLength then .error (.truncated d.length)
    else if headerLength < ipv4HeaderLength ∨ total < headerLength then
      .error .invalidHeaderLength
    else if d.length < total then .error (.truncated d.length)
    else .ok total
  else if version = 6 then
    let total := ipv6HeaderLength + d.word16 4
    if d.length < ipv6HeaderLength ∨ d.length < total then .error (.truncated d.length)
    else .ok total
  else .error (.unsupportedVersion version)

/-- A declared length is at least that of the header it is read from, and no
more than there is. -/
theorem declaredLength_bounds {d : Bytes} {n : Nat} (h : declaredLength d = .ok n) :
    ipv4HeaderLength ≤ n ∧ n ≤ d.length := by
  revert h
  simp only [declaredLength]
  repeat' split
  all_goals intro h; cases h
  all_goals simp only [ipv4HeaderLength, ipv6HeaderLength] at *; omega

/-- The declared length does not depend on what lies behind it. -/
theorem declaredLength_take_append {d : Bytes} {n : Nat} (h : declaredLength d = .ok n)
    (t : Bytes) : declaredLength (d.take n ++ t) = .ok n := by
  obtain ⟨hn, hd⟩ := declaredLength_bounds h
  simp only [ipv4HeaderLength] at hn
  have h0 := Bytes.octet_take_append (show 0 < n by omega) hd t
  have h2 := Bytes.word16_take_append (show 2 + 1 < n by omega) hd t
  have h4 := Bytes.word16_take_append (show 4 + 1 < n by omega) hd t
  have hl : (d.take n ++ t).length = n + t.length := by simp; omega
  revert h
  simp only [declaredLength, h0, h2, h4, hl]
  repeat' split
  all_goals intro h; cases h
  all_goals simp only [ipv4HeaderLength, ipv6HeaderLength] at * <;> omega

/-- Octets that are a packet, with the places of its parts. -/
structure Packet where
  bytes : Bytes
  layout : Layout
  declared : declaredLength bytes = .ok bytes.length
  laidOut : Layout.read bytes = .ok layout

namespace Packet

/-- The layout follows from the octets. -/
theorem eq_of_bytes_eq {p q : Packet} (h : p.bytes = q.bytes) : p = q := by
  cases p with | mk b l hd hl =>
  cases q with | mk c m hd' hm =>
  cases h
  cases hl.symm.trans hm
  rfl

instance : DecidableEq Packet := fun p q =>
  if h : p.bytes = q.bytes then .isTrue (eq_of_bytes_eq h) else .isFalse fun e => h (e ▸ rfl)

/-- The packet at the start of `d`; octets behind its declared length are
left out. -/
def parse (d : Bytes) : Except PacketError Packet :=
  match hn : declaredLength d with
  | .error e => .error e
  | .ok n =>
    match hl : Layout.read (d.take n) with
    | .error e => .error e
    | .ok layout =>
      .ok {
        bytes := d.take n
        layout
        declared := by
          have h := declaredLength_take_append hn []
          have hb := declaredLength_bounds hn
          rw [List.append_nil] at h
          rw [h, List.length_take, Nat.min_eq_left hb.2]
        laidOut := hl }

def family (p : Packet) : Family := p.layout.family

def source (p : Packet) : Address := p.layout.source

def destination (p : Packet) : Address := p.layout.destination

def protocol (p : Packet) : UInt8 := p.layout.protocol

def fragmentInfo (p : Packet) : Option Fragment := p.layout.fragment

def isFragment (p : Packet) : Bool := p.layout.fragment.isSome

def length (p : Packet) : Nat := p.bytes.length

/-- The upper-layer payload, or the data that a fragment carries. -/
def payload (p : Packet) : Bytes := p.bytes.drop p.layout.payloadStart

/-- The octets that every fragment repeats. -/
def header (p : Packet) : Bytes := p.bytes.take p.layout.headerLength

/-- Time to live, or hop limit. -/
def hopLimit (p : Packet) : UInt8 :=
  match p.family with
  | .ipv4 => p.bytes.octet 8
  | .ipv6 => p.bytes.octet 7

/-- A packet is read back from its octets, whatever follows them. -/
theorem parse_bytes_append (p : Packet) (t : Bytes) : parse (p.bytes ++ t) = .ok p := by
  have hd : declaredLength (p.bytes ++ t) = .ok p.bytes.length := by
    simpa using declaredLength_take_append p.declared t
  have ht : (p.bytes ++ t).take p.bytes.length = p.bytes := by simp
  have hl := p.laidOut
  rw [← ht] at hl
  rw [parse]
  split
  · next h => rw [hd] at h; cases h
  · next n h =>
    rw [hd] at h
    cases h
    split
    · next h' => rw [hl] at h'; cases h'
    · exact congrArg _ (eq_of_bytes_eq ht)

theorem parse_bytes (p : Packet) : parse p.bytes = .ok p := by
  simpa using parse_bytes_append p []

end Packet

end MulticastTunnel
