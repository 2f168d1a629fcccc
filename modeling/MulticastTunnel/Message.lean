import MulticastTunnel.Address.Text
import MulticastTunnel.Packet

/-!
# Tunnel messages

The seven messages that a gateway and a relay exchange. A nonce ties an
answer to the message it answers; the code that a relay hands out with a
query lets it tell later messages of the same gateway.
-/

namespace MulticastTunnel

/-- A number chosen afresh for each discovery and each request. -/
abbrev Nonce := UInt32

/-- The authentication code that a relay hands out with a query. -/
structure Mac where
  octets : Vector UInt8 6
deriving DecidableEq

def Mac.toText (m : Mac) : String := "ResponseMac(" ++ Text.hexOctets m.octets.toList ++ ")"

inductive MessageError
  | truncated (length : Nat)
  | unsupportedVersion (version : Nat)
  | unknownType (code : Nat)
  | invalidAddressLength (length : Nat)
  | encapsulated (error : PacketError)
deriving DecidableEq, Repr

def MessageError.message : MessageError → String
  | .truncated n => s!"Message truncated ({n} bytes)"
  | .unsupportedVersion v => s!"Unsupported AMT version: {v}"
  | .unknownType c => s!"Unknown AMT message type: {c}"
  | .invalidAddressLength n => s!"Invalid relay address length: {n}"
  | .encapsulated e => "Encapsulated packet: " ++ e.message

def MessageError.name : MessageError → String
  | .truncated _ => "Truncated"
  | .unsupportedVersion _ => "UnsupportedVersion"
  | .unknownType _ => "UnknownType"
  | .invalidAddressLength _ => "InvalidAddressLength"
  | .encapsulated e => "Encapsulated." ++ e.name

instance : Fault MessageError := ⟨MessageError.name, MessageError.message⟩

inductive Message
  /-- From gateway to discovery address. -/
  | relayDiscovery (nonce : Nonce)
  /-- From relay to gateway; carries the nonce of the discovery it answers. -/
  | relayAdvertisement (nonce : Nonce) (relay : Address)
  /-- From gateway to relay; asks for queries of the family. -/
  | request (nonce : Nonce) (family : Family)
  /-- From relay to gateway; carries the nonce of the request it answers. A
  limited relay takes no further updates. The gateway's address is the one
  the relay sees. -/
  | membershipQuery (limited : Bool) (mac : Mac) (nonce : Nonce) (query : Packet)
      (gateway : Option SocketAddress)
  /-- From gateway to relay; carries a membership report. -/
  | membershipUpdate (mac : Mac) (nonce : Nonce) (report : Packet)
  /-- From relay to gateway; carries a multicast packet. -/
  | multicastData (packet : Packet)
  /-- From gateway to relay; ends what the gateway had under another address. -/
  | teardown (mac : Mac) (nonce : Nonce) (gateway : SocketAddress)
deriving DecidableEq

namespace Message

inductive Kind
  | relayDiscovery
  | relayAdvertisement
  | request
  | membershipQuery
  | membershipUpdate
  | multicastData
  | teardown
deriving DecidableEq, Repr

namespace Kind

/-- The number of the kind in the low half of the first octet. -/
def code : Kind → Nat
  | relayDiscovery => 1
  | relayAdvertisement => 2
  | request => 3
  | membershipQuery => 4
  | membershipUpdate => 5
  | multicastData => 6
  | teardown => 7

def ofCode? : Nat → Option Kind
  | 1 => some relayDiscovery
  | 2 => some relayAdvertisement
  | 3 => some request
  | 4 => some membershipQuery
  | 5 => some membershipUpdate
  | 6 => some multicastData
  | 7 => some teardown
  | _ => none

def name : Kind → String
  | relayDiscovery => "RelayDiscovery"
  | relayAdvertisement => "RelayAdvertisement"
  | request => "Request"
  | membershipQuery => "MembershipQuery"
  | membershipUpdate => "MembershipUpdate"
  | multicastData => "MulticastData"
  | teardown => "Teardown"

theorem ofCode?_code (k : Kind) : ofCode? k.code = some k := by cases k <;> rfl

end Kind

def kind : Message → Kind
  | .relayDiscovery .. => .relayDiscovery
  | .relayAdvertisement .. => .relayAdvertisement
  | .request .. => .request
  | .membershipQuery .. => .membershipQuery
  | .membershipUpdate .. => .membershipUpdate
  | .multicastData .. => .multicastData
  | .teardown .. => .teardown

/-- The nonce of a message. Only multicast data has none. -/
def nonce? : Message → Option Nonce
  | relayDiscovery n | relayAdvertisement n _ | request n _ | membershipQuery _ _ n _ _
  | membershipUpdate _ n _ | teardown _ n _ => some n
  | multicastData _ => none

end Message

end MulticastTunnel
