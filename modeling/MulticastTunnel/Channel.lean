import MulticastTunnel.Address.Text
import MulticastTunnel.Membership.Reporter

/-!
# Channels and the sinks subscribed to them

A channel is a port of a group, from any source or from one. Sinks take the
datagrams of the channels that they are subscribed to.
-/

namespace MulticastTunnel

structure Channel where
  group : Address
  /-- The source of the datagrams; none stands for any. -/
  source : Option Address
  port : UInt16
deriving DecidableEq

/-- Tells a sink from every other one. -/
structure SinkId where
  number : Nat
deriving DecidableEq, Repr

instance : Ordered.Ranked SinkId where
  rank := SinkId.number
  rank_injective a b h := by cases a; cases b; cases h; rfl

inductive SinkError
  /-- The sink is gone. -/
  | disconnected
  /-- The sink failed for good. -/
  | fatal (reason : String)
deriving DecidableEq, Repr

def SinkError.message : SinkError → String
  | .disconnected => "Sink disconnected"
  | .fatal reason => "Sink failed: " ++ reason

def SinkError.name : SinkError → String
  | .disconnected => "Disconnected"
  | .fatal _ => "Fatal"

instance : Fault SinkError := ⟨SinkError.name, SinkError.message⟩

inductive ChannelError
  | invalidGroup (group : Address)
  | invalidSource (group source : Address)
  | membership (error : Membership.MembershipError)
deriving DecidableEq

def ChannelError.message : ChannelError → String
  | .invalidGroup g => "Not a multicast group: " ++ g.toText
  | .invalidSource g s => "Invalid source " ++ s.toText ++ " for group " ++ g.toText
  | .membership e => "Membership error: " ++ e.message

def ChannelError.name : ChannelError → String
  | .invalidGroup _ => "InvalidGroup"
  | .invalidSource .. => "InvalidSource"
  | .membership e => "Membership." ++ e.name

instance : Fault ChannelError := ⟨ChannelError.name, ChannelError.message⟩

def Channel.validate (c : Channel) : Except ChannelError Unit :=
  if !c.group.isMulticast then .error (.invalidGroup c.group)
  else
    match c.source with
    | none => .ok ()
    | some s =>
      if Membership.isSourceFor c.group s then .ok () else .error (.invalidSource c.group s)

end MulticastTunnel
