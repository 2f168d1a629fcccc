import MulticastTunnel.Config
import MulticastTunnel.Toml.Document
import MulticastTunnel.Toml.Printer

/-!
# Configuration files

A configuration is a TOML document with a table for each of its parts. What is
left out keeps its default, and keys that are not known are passed over. A
table may also be written as an array of its values.
-/

namespace MulticastTunnel

namespace Config

open Toml (Value)

/-! ## Reading -/

/-- The values of a table, by name or by position. -/
inductive Section
  | named (entries : List (String × Value))
  | listed (items : List Value)

namespace Section

/-- The section that a value writes. A date has no values with a known name. -/
def ofValue? : Value → Option Section
  | .table _ entries => some (.named entries)
  | .array _ items => some (.listed items)
  | .dateTime _ => some (.named [])
  | _ => none

def value? (s : Section) (position : Nat) (name : String) : Option Value :=
  match s with
  | .named entries => entries.lookup name
  | .listed items => items[position]?

variable {α : Type}

/-- A value that must be there. -/
def required (s : Section) (position : Nat) (name : String) (read : Value → Option α) :
    Option α :=
  s.value? position name >>= read

/-- A value, or what stands for a missing one. -/
def either (s : Section) (position : Nat) (name : String) (absent : α) (read : Value → Option α) :
    Option α :=
  match s.value? position name with
  | none => some absent
  | some v => read v

/-- A value that may be left out where values have names. -/
def optional (s : Section) (position : Nat) (name : String) (read : Value → Option α) :
    Option (Option α) :=
  match s with
  | .named _ => s.either position name none fun v => some <$> read v
  | .listed _ => some <$> s.required position name read

end Section

def text? : Value → Option String
  | .string s => some s
  | _ => none

def boolean? : Value → Option Bool
  | .boolean b => some b
  | _ => none

def address? (v : Value) : Option Address := text? v >>= Address.ofText?

/-- An integer from zero to `limit`. -/
def number? (limit : Nat) : Value → Option Nat
  | .integer n => if 0 ≤ n ∧ n ≤ limit then some n.toNat else none
  | _ => none

def number8? (v : Value) : Option UInt8 := UInt8.ofNat <$> number? 255 v

def number16? (v : Value) : Option UInt16 := UInt16.ofNat <$> number? 65535 v

def number32? (v : Value) : Option UInt32 := UInt32.ofNat <$> number? 4294967295 v

def limit64 : Nat := 18446744073709551615

def milliseconds? : Value → Option Nat := number? limit64

def seconds? (v : Value) : Option Nat := (· * 1000) <$> number? limit64 v

def relay? (v : Value) : Option Relay := do
  let s ← Section.ofValue? v
  return {
    address := ← s.required 0 "address" address?
    port := ← s.either 1 "port" defaultRelayPort number16? }

def channel? (v : Value) : Option Channel := do
  let s ← Section.ofValue? v
  return {
    group := ← s.required 0 "group" address?
    source := ← s.optional 1 "source" address?
    port := ← s.required 2 "port" number16? }

def tunnel? (v : Value) : Option TunnelSettings := do
  let s ← Section.ofValue? v
  let d : TunnelSettings := {}
  return {
    discoveryInterval := ← s.either 0 "discovery_interval_ms" d.discoveryInterval milliseconds?
    discoveryLimit := ←
      s.either 1 "discovery_retries" d.discoveryLimit fun v => some <$> number32? v
    requestInterval := ← s.either 2 "request_interval_ms" d.requestInterval milliseconds?
    requestLimit := ← s.either 3 "request_retries" d.requestLimit number32?
    receiveTimeout := ← s.either 4 "receive_timeout_ms" d.receiveTimeout milliseconds? }

def membership? (v : Value) : Option Membership.ReporterSettings := do
  let s ← Section.ofValue? v
  let d : Membership.ReporterSettings := {}
  return {
    robustness := ← s.either 0 "robustness" d.robustness number8?
    queryInterval := ← s.either 1 "query_interval_secs" d.queryInterval seconds?
    reportInterval := ←
      s.either 2 "unsolicited_report_interval_ms" d.reportInterval milliseconds?
    timing := ← s.either 3 "randomized_responses" d.timing fun v => do
      return if ← boolean? v then .randomized else .immediate }

def reassembly? (v : Value) : Option Reassembly.Limits := do
  let s ← Section.ofValue? v
  let d : Reassembly.Limits := {}
  return {
    slots := ← s.either 0 "max_cache_size" d.slots (number? limit64)
    budget := ← s.either 1 "pending_budget" d.budget (number? limit64)
    timeout := ← s.either 2 "timeout_secs" d.timeout seconds? }

def ofValue? (v : Value) : Option Config := do
  let s ← Section.ofValue? v
  let d : Config := {}
  return {
    relay := ← s.optional 0 "relay" relay?
    channel := ← s.optional 1 "channel" channel?
    output := ← s.either 2 "output" d.output text?
    statsSeconds := ← s.either 3 "stats_interval_secs" d.statsSeconds (number? limit64)
    settings := {
      tunnel := ← s.either 4 "tunnel" d.settings.tunnel tunnel?
      membership := ← s.either 5 "membership" d.settings.membership membership?
      reassembly := ← s.either 6 "reassembly" d.settings.reassembly reassembly? } }

/-- The usable configuration that a text writes. -/
def ofText (text : String) : Except ConfigError Config :=
  match Toml.ofText? text >>= ofValue? with
  | none => .error .malformed
  | some c => c.validate.map fun () => c

/-- The usable configuration in a file, whose content is none if there is no
such file. -/
def ofFile (content : Option Bytes) : Except ConfigError Config :=
  match content.bind fun b => String.fromUTF8? ⟨b.toArray⟩ with
  | none => .error .unreadable
  | some text => ofText text

/-! ## Writing -/

def ofSeconds (milliseconds : Nat) : Value := .integer (milliseconds / 1000 : Nat)

def ofAddress (a : Address) : Value := .string a.toText

def ofNumber (n : Nat) : Value := .integer n

/-- The tables of a configuration, each with its keys. -/
def tables (c : Config) : List (String × List (String × Value)) :=
  let relay := c.relay.toList.map fun r =>
    ("relay", [("address", ofAddress r.address), ("port", ofNumber r.port.toNat)])
  let channel := c.channel.toList.map fun channel =>
    ("channel",
      [("group", ofAddress channel.group)] ++
        (channel.source.toList.map fun s => ("source", ofAddress s)) ++
        [("port", ofNumber channel.port.toNat)])
  let t := c.settings.tunnel
  let m := c.settings.membership
  let r := c.settings.reassembly
  relay ++ channel ++
    [("tunnel",
      [("discovery_interval_ms", ofNumber t.discoveryInterval)] ++
        (t.discoveryLimit.toList.map fun n => ("discovery_retries", ofNumber n.toNat)) ++
        [("request_interval_ms", ofNumber t.requestInterval),
          ("request_retries", ofNumber t.requestLimit.toNat),
          ("receive_timeout_ms", ofNumber t.receiveTimeout)]),
      ("membership",
        [("robustness", ofNumber m.robustness.toNat),
          ("query_interval_secs", ofSeconds m.queryInterval),
          ("unsolicited_report_interval_ms", ofNumber m.reportInterval),
          ("randomized_responses", .boolean (m.timing = .randomized))]),
      ("reassembly",
        [("max_cache_size", ofNumber r.slots), ("pending_budget", ofNumber r.budget),
          ("timeout_secs", ofSeconds r.timeout)])]

def toText (c : Config) : Except ConfigError String :=
  let entries : List (String × Value) :=
    [("output", .string c.output), ("stats_interval_secs", ofNumber c.statsSeconds)]
  match Toml.render? entries c.tables with
  | none => .error .unwritable
  | some text => .ok text

end Config

end MulticastTunnel
