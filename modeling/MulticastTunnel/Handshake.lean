import MulticastTunnel.Message

/-!
# Handshakes with a relay

What a gateway remembers of its talk with one relay: a discovery waits for an
advertisement, a request for a query, and an accepted query grants the right
to send updates until the next discovery. Nothing is sent here; each step
tells the message that is to be sent.
-/

namespace MulticastTunnel

/-- How far a gateway has come with its relay. -/
inductive Phase
  /-- No discovery is outstanding. -/
  | disconnected
  /-- A discovery was sent and waits for its advertisement. -/
  | discovering
  /-- A request was sent and waits for its query. -/
  | requesting
  /-- A query was accepted, so updates may be sent. -/
  | established
deriving DecidableEq, Repr

def Phase.name : Phase → String
  | disconnected => "disconnected"
  | discovering => "discovering"
  | requesting => "requesting"
  | established => "established"

/-- The messages of a relay that a phase or a nonce can rule out. -/
inductive Answer
  | advertisement
  | query
deriving DecidableEq, Repr

def Answer.name : Answer → String
  | advertisement => "Relay Advertisement"
  | query => "Membership Query"

inductive HandshakeError
  | unexpected (answer : Answer) (phase : Phase)
  | nonceMismatch (expected received : Nonce)
deriving DecidableEq, Repr

def Nonce.toText (n : Nonce) : String := "0x" ++ Text.padZeros 8 (Text.hexadecimal n.toNat)

def HandshakeError.message : HandshakeError → String
  | .unexpected a p => "Unexpected " ++ a.name ++ " in phase " ++ p.name
  | .nonceMismatch e r =>
    "Nonce mismatch (expected " ++ Nonce.toText e ++ ", received " ++ Nonce.toText r ++ ")"

def HandshakeError.name : HandshakeError → String
  | .unexpected .. => "UnexpectedMessage"
  | .nonceMismatch .. => "NonceMismatch"

instance : Fault HandshakeError := ⟨HandshakeError.name, HandshakeError.message⟩

/-- What the relay handed out with an accepted query. -/
structure Grant where
  mac : Mac
  /-- The nonce of the request that the query answers. -/
  nonce : Nonce
  /-- The gateway's address as the relay sees it, if it tells. -/
  gateway : Option SocketAddress
  /-- The relay takes no further updates. -/
  limited : Bool
deriving DecidableEq

/-- Takes down what the relay keeps for the gateway under the address of the
grant. A relay that told no address has nothing to be taken down. -/
def Grant.teardown (g : Grant) : Option Message :=
  g.gateway.map fun address => .teardown g.mac g.nonce address

/-- What becomes of a request that was not answered in time. -/
inductive RequestRetry
  | resend (request : Message)
  | exhausted
deriving DecidableEq

structure Handshake where
  family : Family
  /-- The time between requests while no query tells one. -/
  defaultInterval : Nat
  phase : Phase := .disconnected
  discoveryNonce : Option Nonce := none
  /-- Discoveries sent under the outstanding nonce. -/
  discoveryAttempts : UInt32 := 0
  /-- The relay of the last accepted advertisement. -/
  relay : Option Address := none
  requestNonce : Option Nonce := none
  /-- Requests sent under the outstanding nonce. -/
  requestAttempts : UInt32 := 0
  /-- What the last accepted query handed out. -/
  grant : Option Grant := none
  /-- The time that the relay expects between requests. -/
  queryInterval : Nat := defaultInterval
deriving DecidableEq

namespace Handshake

/-- The handshake as it was before the first discovery. -/
def reset (h : Handshake) : Handshake :=
  { family := h.family, defaultInterval := h.defaultInterval }

/-- Updates can be sent once a query was accepted. -/
def canSend (h : Handshake) : Bool := h.grant.isSome

/-- Forgets everything and discovers under a fresh nonce. -/
def startDiscovery (h : Handshake) (nonce : Nonce) : Message × Handshake :=
  (.relayDiscovery nonce,
    { h.reset with
      phase := .discovering
      discoveryNonce := some nonce
      discoveryAttempts := 1 })

/-- Repeats the outstanding discovery, or gives up when as many as the limit
were sent. -/
def retryDiscovery (h : Handshake) (limit : Option UInt32) : Option Message × Handshake :=
  match h.phase, h.discoveryNonce with
  | .discovering, some nonce =>
    if limit.any fun n => n ≤ h.discoveryAttempts then (none, h.reset)
    else (some (.relayDiscovery nonce), { h with discoveryAttempts := h.discoveryAttempts + 1 })
  | _, _ => (none, h)

/-- Takes the relay of an advertisement that answers the outstanding discovery. -/
def onAdvertisement (h : Handshake) (nonce : Nonce) (relay : Address) :
    Except HandshakeError Handshake :=
  let expected := h.discoveryNonce.getD 0
  if h.phase ≠ .discovering then .error (.unexpected .advertisement h.phase)
  else if nonce ≠ expected then .error (.nonceMismatch expected nonce)
  else .ok { h with relay := some relay, discoveryNonce := none, discoveryAttempts := 0 }

/-- Whether there is a relay to send a request to. -/
def canRequest (h : Handshake) : Bool :=
  match h.phase with
  | .disconnected => false
  | .discovering => h.relay.isSome
  | .requesting | .established => true

/-- Requests a query under a fresh nonce, after a discovery or to keep an
established session alive. -/
def startRequest (h : Handshake) (nonce : Nonce) : Option Message × Handshake :=
  if h.canRequest then
    (some (.request nonce h.family),
      { h with phase := .requesting, requestNonce := some nonce, requestAttempts := 1 })
  else (none, h)

/-- Repeats the outstanding request, at most `limit` times after the first. -/
def retryRequest (h : Handshake) (limit : UInt32) : Option RequestRetry × Handshake :=
  match h.phase, h.requestNonce with
  | .requesting, some nonce =>
    if limit < h.requestAttempts then (some .exhausted, h)
    else
      (some (.resend (.request nonce h.family)),
        { h with requestAttempts := h.requestAttempts + 1 })
  | _, _ => (none, h)

/-- The grant before this one, when the relay saw the gateway at another
address then. -/
def staleGrant (h : Handshake) (grant : Grant) : Option Grant :=
  h.grant.filter fun previous =>
    match previous.gateway, grant.gateway with
    | some old, some new => old ≠ new
    | _, _ => false

/-- Takes the grant of a query that answers the outstanding request, and
tells the earlier grant if it has to be taken down. An interval of zero is
one that the query does not tell. -/
def onQuery (h : Handshake) (grant : Grant) (interval : Option Nat) :
    Except HandshakeError (Option Grant × Handshake) :=
  let expected := h.requestNonce.getD 0
  if ¬ (h.phase = .requesting ∨ h.phase = .established) then
    .error (.unexpected .query h.phase)
  else if grant.nonce ≠ expected then .error (.nonceMismatch expected grant.nonce)
  else
    .ok (h.staleGrant grant,
      { h with
        grant := some grant
        queryInterval := (interval.filter (· ≠ 0)).getD h.defaultInterval
        requestAttempts := 0
        phase := .established })

/-- The update that carries a report under the grant held. -/
def update (h : Handshake) (report : Packet) : Option Message :=
  h.grant.map fun g => .membershipUpdate g.mac g.nonce report

end Handshake

end MulticastTunnel
