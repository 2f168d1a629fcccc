import MulticastTunnel.Gateway

/-!
# Applications

An application uses a gateway and holds subscriptions, relay handles and
leases, each under a name. What is put under a name that is taken replaces
what was there, which is then given back.
-/

namespace MulticastTunnel

open Keyed

structure Application where
  gateway : Gateway
  subscriptions : Table String Subscription := ∅
  relays : Table String RelayHandle := ∅
  leases : Table String InterfaceLease := ∅

namespace Application

/-! ## Subscriptions -/

/-- Subscribes a sink to a channel, and holds the subscription under a name. -/
def subscribe (name : String) (relay : Address) (sink : SinkId) (c : Channel) (a : Application) :
    Except GatewayError Subscription × Application :=
  match a.gateway.subscribe relay sink c with
  | (.error e, gateway) => (.error e, { a with gateway })
  | (.ok s, gateway) =>
    let gateway := match a.subscriptions.get? name with
      | some old => (gateway.unsubscribe old).2
      | none => gateway
    (.ok s, { a with gateway, subscriptions := a.subscriptions.insert name s })

/-- Ends the subscription held under a name, if there is one. -/
def unsubscribe (name : String) (a : Application) :
    Option (Except GatewayError Unit) × Application :=
  match a.subscriptions.get? name with
  | none => (none, a)
  | some s =>
    let (result, gateway) := a.gateway.unsubscribe s
    (some result, { a with gateway, subscriptions := a.subscriptions.erase name })

/-- Ends the subscription held under a name, and tells whether there was one. -/
def dropSubscription (name : String) (a : Application) : Bool × Application :=
  let (result, a) := a.unsubscribe name
  (result.isSome, a)

/-! ## Leases -/

def hold (name : String) (lease : InterfaceLease) (a : Application) : Application :=
  let gateway := match a.leases.get? name with
    | some old => a.gateway.release old
    | none => a.gateway
  { a with gateway, leases := a.leases.insert name lease }

/-- Takes a lease of an interface, and holds it under a name. -/
def lease (name : String) (key : InterfaceKey) (a : Application) :
    Except GatewayError InterfaceLease × Application :=
  match a.gateway.acquire key with
  | (.error e, gateway) => (.error e, { a with gateway })
  | (.ok lease, gateway) => (.ok lease, { a with gateway }.hold name lease)

/-- Holds another lease of the interface of a held one, if there is one. -/
def cloneLease (name copy : String) (a : Application) : Option Unit × Application :=
  match a.leases.get? name with
  | none => (none, a)
  | some lease => (some (), { a with gateway := a.gateway.clone lease }.hold copy lease)

/-- Gives back the lease held under a name, and tells whether there was one. -/
def dropLease (name : String) (a : Application) : Bool × Application :=
  match a.leases.get? name with
  | none => (false, a)
  | some lease =>
    (true, { a with gateway := a.gateway.release lease, leases := a.leases.erase name })

/-! ## Relay handles -/

/-- Gives back the relay handle held under a name, and tells whether there was one. -/
def dropRelay (name : String) (a : Application) : Bool × Application :=
  match a.relays.get? name with
  | none => (false, a)
  | some h =>
    (true, { a with gateway := (h.release a.gateway).2, relays := a.relays.erase name })

/-- Holds a fresh handle of a relay under a name. -/
def holdRelay (name : String) (relay : Address) (a : Application) : Application :=
  let (_, a) := a.dropRelay name
  { a with relays := a.relays.insert name { discoveryAddress := relay } }

/-- Works on the relay handle held under a name, if there is one. -/
def onRelay {α : Type} (name : String) (f : RelayHandle → Gateway → α × RelayHandle × Gateway)
    (a : Application) : Option α × Application :=
  match a.relays.get? name with
  | none => (none, a)
  | some h =>
    let (result, h, gateway) := f h a.gateway
    (some result, { a with gateway, relays := a.relays.insert name h })

/-- Takes a lease of the handle's interface, and holds it under a name. -/
def leaseRelay (name copy : String) (family : Family) (a : Application) :
    Option (Except GatewayError Unit) × Application :=
  match a.onRelay name (RelayHandle.acquire family) with
  | (none, a) => (none, a)
  | (some (.error e), a) => (some (.error e), a)
  | (some (.ok lease), a) => (some (.ok ()), a.hold copy lease)

end Application

end MulticastTunnel
