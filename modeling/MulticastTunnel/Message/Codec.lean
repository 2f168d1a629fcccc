import MulticastTunnel.Message

/-!
# Tunnel messages as octets

The first octet holds version zero and the kind of the message; the fields
follow at fixed places, and an encapsulated packet tells its own length. Of a
socket there are the port and the address; it is read as one of no flow and on
no link.
-/

namespace MulticastTunnel.Message

/-- An address with sixteen octets, an IPv4 one in its mapped form. -/
def wideOctets : Address → Bytes
  | .v4 o => (Address.mapped o).toList
  | .v6 o => o.toList

/-- The address that sixteen octets write, IPv4 for a mapped form. -/
def readWide (b : Bytes) : Address :=
  match Address.read .ipv6 b with
  | .v6 o =>
    match Address.mapped? o with
    | some tail => .v4 tail
    | none => .v6 o
  | a => a

def readMac (b : Bytes) : Mac := ⟨Vector.ofFn fun i => b.octet i⟩

/-- The part of a message that stands behind the first octet. -/
def body : Message → Bytes
  | .relayDiscovery nonce => Bytes.zeros 3 ++ Bytes.ofWord32 nonce.toNat
  | .relayAdvertisement nonce relay => Bytes.zeros 3 ++ Bytes.ofWord32 nonce.toNat ++ relay.octets
  | .request nonce family =>
    [match family with | .ipv4 => 0 | .ipv6 => 1, 0, 0] ++ Bytes.ofWord32 nonce.toNat
  | .membershipQuery limited mac nonce query gateway =>
    let flags := (if limited then 2 else 0) + (if gateway.isSome then 1 else 0)
    let seen := match gateway with
      | some g => Bytes.ofWord16 g.port.toNat ++ g.address.octets
      | none => []
    [flags] ++ mac.octets.toList ++ Bytes.ofWord32 nonce.toNat ++ query.bytes ++ seen
  | .membershipUpdate mac nonce report =>
    [0] ++ mac.octets.toList ++ Bytes.ofWord32 nonce.toNat ++ report.bytes
  | .multicastData packet => [0] ++ packet.bytes
  | .teardown mac nonce gateway =>
    [0] ++ mac.octets.toList ++ Bytes.ofWord32 nonce.toNat ++ Bytes.ofWord16 gateway.port.toNat ++
      wideOctets gateway.address

def encode (m : Message) : Bytes := UInt8.ofNat m.kind.code :: m.body

/-- Octets that a message of each kind has at least. -/
def Kind.minimumLength : Kind → Nat
  | .relayDiscovery => 8
  | .relayAdvertisement => 8
  | .request => 8
  | .membershipQuery => 12
  | .membershipUpdate => 12
  | .multicastData => 2
  | .teardown => 30

def readAddress (b : Bytes) : Except MessageError Address :=
  match Address.ofOctets? b with
  | some a => .ok a
  | none => .error (.invalidAddressLength b.length)

def readPacket (b : Bytes) : Except MessageError Packet :=
  (Packet.parse b).mapError .encapsulated

/-- The gateway's address behind the query, there when flag one is set. -/
def readGateway (flags : Nat) (total : Nat) (rest : Bytes) :
    Except MessageError (Option SocketAddress) :=
  if flags % 2 = 0 then .ok none
  else if rest.length < 2 then .error (.truncated total)
  else (readAddress (rest.drop 2)).map fun a => some ⟨a, UInt16.ofNat (rest.word16 0), 0, 0⟩

/-- The message of a kind in octets that are long enough for it. -/
def decodeKind (kind : Kind) (b : Bytes) : Except MessageError Message :=
  let nonceAt (i : Nat) : Nonce := UInt32.ofNat (b.word32 i)
  match kind with
  | .relayDiscovery => .ok (.relayDiscovery (nonceAt 4))
  | .relayAdvertisement => (readAddress (b.drop 8)).map (.relayAdvertisement (nonceAt 4))
  | .request =>
    .ok (.request (nonceAt 4) (if (b.octet 1).toNat % 2 = 0 then .ipv4 else .ipv6))
  | .membershipQuery => do
    let flags := (b.octet 1).toNat
    let query ← readPacket (b.drop 12)
    let gateway ← readGateway flags b.length (b.drop (12 + query.length))
    .ok (.membershipQuery (flags / 2 % 2 = 1) (readMac (b.drop 2)) (nonceAt 8) query gateway)
  | .membershipUpdate =>
    (readPacket (b.drop 12)).map (.membershipUpdate (readMac (b.drop 2)) (nonceAt 8))
  | .multicastData => (readPacket (b.drop 2)).map .multicastData
  | .teardown =>
    .ok (.teardown (readMac (b.drop 2)) (nonceAt 8)
      ⟨readWide (b.drop 14), UInt16.ofNat (b.word16 12), 0, 0⟩)

def decode (b : Bytes) : Except MessageError Message :=
  let first := (b.octet 0).toNat
  if b.length = 0 then .error (.truncated 0)
  else if first / 16 ≠ 0 then .error (.unsupportedVersion (first / 16))
  else
    match Kind.ofCode? (first % 16) with
    | none => .error (.unknownType (first % 16))
    | some kind =>
      if b.length < kind.minimumLength then .error (.truncated b.length)
      else decodeKind kind b

end MulticastTunnel.Message
