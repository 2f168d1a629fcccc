import MulticastTunnel.Packet.Build

/-!
# Packets around membership messages

IGMP messages travel in IPv4 and MLD messages in IPv6 packets, one hop far
and with a router alert option. Both start with a type, a code and a
checksum, which for MLD covers the addresses of the packet too.
-/

namespace MulticastTunnel.Membership

/-- Why a packet holds no membership message, or a message has no packet. -/
inductive CodecError
  | truncated (length : Nat)
  | notMembership (protocol type : UInt8)
  | badChecksum
  | unknownRecordType (code : Nat)
  | familyMismatch
  | packet (error : PacketError)
deriving DecidableEq, Repr

def CodecError.message : CodecError → String
  | .truncated n => s!"Message truncated ({n} bytes)"
  | .notMembership p t =>
    "Not a membership message (protocol " ++ toString p.toNat ++ ", type " ++
      toString t.toNat ++ ")"
  | .badChecksum => "Checksum mismatch"
  | .unknownRecordType c => s!"Unknown group record type: {c}"
  | .familyMismatch => "Address family mismatch"
  | .packet e => "IP error: " ++ e.message

def CodecError.name : CodecError → String
  | .truncated _ => "Truncated"
  | .notMembership .. => "NotMembership"
  | .badChecksum => "BadChecksum"
  | .unknownRecordType _ => "UnknownRecordType"
  | .familyMismatch => "FamilyMismatch"
  | .packet e => "Ip." ++ e.name

instance : Fault CodecError := ⟨CodecError.name, CodecError.message⟩

/-- The protocol that carries membership messages of a family. -/
def protocolOf : Family → UInt8
  | .ipv4 => Protocol.igmp
  | .ipv6 => Protocol.icmpv6

def routerAlert : Family → Bytes
  | .ipv4 => [0x94, 4, 0, 0]
  | .ipv6 => [5, 2, 0, 0]

/-- The checksum of a message between two addresses. -/
def messageChecksum (addresses : AddressPair) (body : Bytes) : UInt16 :=
  match addresses with
  | .v4 .. => Checksum.of body
  | .v6 .. =>
    let pseudo := Checksum.pseudoHeader addresses Protocol.icmpv6 body.length
    ((({} : Checksum).add pseudo).add body).finish

/-- The packet that carries `body`, whose checksum field is zero. -/
def wrap (addresses : AddressPair) (body : Bytes) : Except CodecError Packet :=
  let sealed := body.overwrite 2 (.ofWord16 (messageChecksum addresses body).toNat)
  Except.mapError .packet <|
    match addresses with
    | .v4 s d => Packet.buildV4 s d Protocol.igmp 1 (routerAlert .ipv4) sealed
    | .v6 s d => Packet.buildV6 s d Protocol.icmpv6 1 (some (routerAlert .ipv6)) sealed

/-- The message of the given types in an unfragmented packet, once its
checksum is found right. -/
def unwrap (igmpType mldType : UInt8) (p : Packet) : Except CodecError Bytes :=
  let body := p.payload
  let expected := match p.family with
    | .ipv4 => igmpType
    | .ipv6 => mldType
  if p.isFragment ∨ body.length < 4 then .error (.truncated body.length)
  else if p.protocol ≠ protocolOf p.family ∨ body.octet 0 ≠ expected then
    .error (.notMembership p.protocol (body.octet 0))
  else
    match AddressPair.of? p.source p.destination with
    | none => .error (.packet .familyMismatch)
    | some addresses =>
      if messageChecksum addresses body ≠ 0 then .error .badChecksum else .ok body

def writeAddresses (as : List Address) : Bytes := as.flatMap Address.octets

/-- `n` addresses of a family at the start of `b`, whose length callers check. -/
def readAddresses (family : Family) : Nat → Bytes → List Address
  | 0, _ => []
  | n + 1, b => .read family b :: readAddresses family n (b.drop family.addressLength)

end MulticastTunnel.Membership
