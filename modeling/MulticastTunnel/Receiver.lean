import MulticastTunnel.Config.File
import MulticastTunnel.Gateway
import MulticastTunnel.Output.Target
import MulticastTunnel.Receiver.Arguments

/-!
# Receivers

A receiver subscribes to one channel through one relay, and writes what comes
to an output. Arguments come before the configuration file, which comes before
the defaults.
-/

namespace MulticastTunnel

inductive ReceiverError
  /-- The configuration file is not usable. -/
  | notLoaded (path : String) (cause : ConfigError)
  | noRelay
  | noGroup
  | noPort
  | target (error : TargetError)
  | notOpened (target : OutputTarget)
  | gateway (error : GatewayError)
deriving DecidableEq

/-- What is missing, and where it could have been given. -/
def ReceiverError.missing (name option table : String) : String :=
  "no " ++ name ++ " given (use --" ++ option ++ " or [" ++ table ++ "] in the config file)"

def ReceiverError.message : ReceiverError → String
  | .notLoaded path _ => "failed to load " ++ path
  | .noRelay => missing "relay" "relay" "relay"
  | .noGroup => missing "group" "group" "channel"
  | .noPort => missing "port" "port" "channel"
  | .target e => e.message
  | .notOpened t => "failed to open output " ++ t.toText
  | .gateway e => e.message

structure Plan where
  relay : Address
  channel : Channel
  config : Config
deriving DecidableEq

/-- The plan of a configuration where the arguments say nothing else. -/
def Arguments.plan (a : Arguments) (c : Config) : Except ReceiverError Plan := do
  let config :=
    { c with
      output := a.output.getD c.output
      statsSeconds := a.statsInterval.getD c.statsSeconds }
  let some relay := a.relay <|> c.relay.map (·.address) | throw .noRelay
  let some group := a.group <|> c.channel.map (·.group) | throw .noGroup
  let some port := a.port <|> c.channel.map (·.port) | throw .noPort
  let source := a.source <|> c.channel.bind (·.source)
  return { relay, channel := ⟨group, source, port⟩, config }

/-- The files and sockets that a receiver reads and writes. -/
structure Storage (m : Type → Type) where
  /-- The content of a file, if it can be read. -/
  content : (path : String) → m (Option Bytes)
  /-- Opens an output, and tells whether that went well. -/
  openOutput : OutputTarget → m Bool

structure Receiver where
  plan : Plan
  gateway : Gateway
  subscription : Subscription

namespace Receiver

variable {m : Type → Type} [Monad m]

/-- The configuration that the arguments name, or else the default one. -/
def load (storage : Storage m) (a : Arguments) : ExceptT ReceiverError m Config :=
  match a.config with
  | none => return {}
  | some path => do
    match Config.ofFile (← storage.content path) with
    | .ok c => return c
    | .error e => throw (.notLoaded path e)

/-- The sink of a receiver, which has no other one. -/
def sink : SinkId := ⟨0⟩

/-- Opens the output and subscribes to the channel. -/
def start (storage : Storage m) (a : Arguments) (w : World) :
    ExceptT ReceiverError m Receiver := do
  let plan ← ExceptT.mk (pure (a.plan (← load storage a)))
  let target ← ExceptT.mk (pure ((OutputTarget.ofText plan.config.output).mapError .target))
  unless ← storage.openOutput target do throw (.notOpened target)
  let gateway : Gateway := { settings := plan.config.interfaceSettings, site := { world := w } }
  match gateway.subscribe plan.relay sink plan.channel with
  | (.ok subscription, gateway) => return { plan, gateway, subscription }
  | (.error e, _) => throw (.gateway e)

end Receiver

end MulticastTunnel
