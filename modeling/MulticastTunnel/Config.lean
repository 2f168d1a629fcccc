import MulticastTunnel.Interface

/-!
# Configurations of a receiver

Which relay to ask, which channel to receive, where to write what comes, and
the settings of the interface that does it.
-/

namespace MulticastTunnel

structure Relay where
  address : Address
  port : UInt16 := defaultRelayPort
deriving DecidableEq

structure Config where
  relay : Option Relay := none
  channel : Option Channel := none
  /-- Where payloads are written. -/
  output : String := "-"
  /-- Seconds between two displays of statistics; zero turns them off. -/
  statsSeconds : Nat := 5
  /-- How the interface behaves. Its port of relays is that of `relay`. -/
  settings : InterfaceSettings := {}
deriving DecidableEq

inductive ConfigFault
  | noRobustness
  | noSlots
  | notMulticast (group : Address)
deriving DecidableEq

def ConfigFault.message : ConfigFault → String
  | .noRobustness => "robustness must be at least 1"
  | .noSlots => "max_cache_size must be at least 1"
  | .notMulticast group => group.toText ++ " is not a multicast group"

inductive ConfigError
  /-- There is no file, or it is no text. -/
  | unreadable
  /-- The text does not write a configuration. -/
  | malformed
  /-- The configuration has a number that cannot be written. -/
  | unwritable
  | invalid (fault : ConfigFault)
deriving DecidableEq

def ConfigError.name : ConfigError → String
  | .unreadable => "Io"
  | .malformed => "Toml"
  | .unwritable => "TomlSerialize"
  | .invalid _ => "Invalid"

/-- The text of an error about the meaning of a configuration. -/
def ConfigError.message? : ConfigError → Option String
  | .invalid fault => some ("Invalid configuration: " ++ fault.message)
  | _ => none

namespace Config

/-- Every part of a configuration must be usable. -/
def validate (c : Config) : Except ConfigError Unit :=
  if c.settings.membership.robustness = 0 then .error (.invalid .noRobustness)
  else if c.settings.reassembly.slots = 0 then .error (.invalid .noSlots)
  else
    match c.channel with
    | none => .ok ()
    | some channel =>
      if channel.group.isMulticast then .ok ()
      else .error (.invalid (.notMulticast channel.group))

/-- The settings of the interface, with the port of the configured relay. -/
def interfaceSettings (c : Config) : InterfaceSettings :=
  { c.settings with
    tunnel := { c.settings.tunnel with relayPort := c.relay.elim defaultRelayPort (·.port) } }

/-- A configuration to start from. -/
def exemplar : Config where
  relay := some { address := .v4 #v[162, 250, 138, 201] }
  channel := some ⟨.v4 #v[232, 162, 250, 140], some (.v4 #v[162, 250, 137, 254]), 1234⟩

end Config

end MulticastTunnel
