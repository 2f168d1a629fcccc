import MulticastTunnel.Address.Text

/-!
# Arguments of the receiver

Options have a long name, and most have a letter. A value follows its option,
or stands behind an equals sign or behind the letter. Letters of options that
take no value may stand together. No option may be given twice.
-/

namespace MulticastTunnel

inductive ValueOption
  | relay
  | group
  | source
  | port
  | output
  | config
  | statsInterval
deriving DecidableEq, Repr

inductive Flag
  | table
  | verbose
  | help
deriving DecidableEq, Repr

inductive UsageError
  /-- Help was asked for. -/
  | help
  /-- The arguments are not understood. -/
  | misuse
deriving DecidableEq, Repr

structure Arguments where
  relay : Option Address := none
  group : Option Address := none
  source : Option Address := none
  port : Option UInt16 := none
  output : Option String := none
  config : Option String := none
  statsInterval : Option Nat := none
  table : Bool := false
  verbose : Bool := false
deriving DecidableEq

namespace ValueOption

def ofLong? : String → Option ValueOption
  | "relay" => some relay
  | "group" => some group
  | "source" => some source
  | "port" => some port
  | "output" => some output
  | "config" => some config
  | "stats-interval" => some statsInterval
  | _ => none

def ofLetter? : Char → Option ValueOption
  | 'r' => some relay
  | 'g' => some group
  | 's' => some source
  | 'p' => some port
  | 'o' => some output
  | 'c' => some config
  | _ => none

end ValueOption

namespace Flag

def ofLong? : String → Option Flag
  | "table" => some table
  | "verbose" => some verbose
  | "help" => some help
  | _ => none

def ofLetter? : Char → Option Flag
  | 'v' => some verbose
  | 'h' => some help
  | _ => none

end Flag

namespace Arguments

/-- A decimal number up to `limit`, which a plus sign may precede. -/
def number? (limit : Nat) (text : String) : Option Nat :=
  let digits := match text.toList with
    | '+' :: rest => rest
    | cs => cs
  match Text.decimal? limit digits with
  | some (n, []) => some n
  | _ => none

def fill {α : Type} (old : Option α) (value : Option α) : Except UsageError (Option α) :=
  match old, value with
  | none, some v => .ok (some v)
  | _, _ => .error .misuse

/-- The arguments with an option that takes a value. -/
def setValue (o : ValueOption) (text : String) (a : Arguments) : Except UsageError Arguments :=
  match o with
  | .relay => return { a with relay := ← fill a.relay (Address.ofText? text) }
  | .group => return { a with group := ← fill a.group (Address.ofText? text) }
  | .source => return { a with source := ← fill a.source (Address.ofText? text) }
  | .port => return { a with port := ← fill a.port (UInt16.ofNat <$> number? 65535 text) }
  | .output => return { a with output := ← fill a.output (some text) }
  | .config =>
    return { a with config := ← fill a.config (if text.isEmpty then none else some text) }
  | .statsInterval =>
    return { a with statsInterval := ← fill a.statsInterval (number? 18446744073709551615 text) }

def setFlag (f : Flag) (a : Arguments) : Except UsageError Arguments :=
  match f with
  | .table => if a.table then .error .misuse else .ok { a with table := true }
  | .verbose => if a.verbose then .error .misuse else .ok { a with verbose := true }
  | .help => .error .help

structure Reading where
  arguments : Arguments := {}
  /-- An option whose value comes next. -/
  pending : Option ValueOption := none
  /-- No option comes any more. -/
  ended : Bool := false

/-- The text after the first equals sign, if there is one, and the text before it. -/
def splitEquals (cs : List Char) : String × Option String :=
  let name := String.ofList (cs.takeWhile (· ≠ '='))
  match cs.dropWhile (· ≠ '=') with
  | [] => (name, none)
  | _ :: value => (name, some (String.ofList value))

def readLong (cs : List Char) (a : Arguments) : Except UsageError Reading :=
  let (name, value) := splitEquals cs
  match ValueOption.ofLong? name, Flag.ofLong? name, value with
  | some o, _, some text => return { arguments := ← a.setValue o text }
  | some o, _, none => return { arguments := a, pending := some o }
  | none, some f, none => return { arguments := ← a.setFlag f }
  | none, _, _ => throw .misuse

/-- Options by their letters. What follows the letter of an option with a value
is the value. -/
def readLetters : List Char → Arguments → Except UsageError Reading
  | [], a => return { arguments := a }
  | c :: cs, a =>
    match ValueOption.ofLetter? c, Flag.ofLetter? c, cs with
    | some o, _, [] => return { arguments := a, pending := some o }
    | some o, _, '=' :: value => return { arguments := ← a.setValue o (String.ofList value) }
    | some o, _, value => return { arguments := ← a.setValue o (String.ofList value) }
    | none, some f, _ => do readLetters cs (← a.setFlag f)
    | none, none, _ => throw .misuse

def read (r : Reading) (text : String) : Except UsageError Reading :=
  match r.ended, r.pending, text.toList with
  | true, _, _ => throw .misuse
  | _, some _, '-' :: _ :: _ => throw .misuse
  | _, some o, _ => return { arguments := ← r.arguments.setValue o text }
  | _, none, ['-', '-'] => return { r with ended := true }
  | _, none, '-' :: '-' :: name => readLong name r.arguments
  | _, none, '-' :: c :: letters => readLetters (c :: letters) r.arguments
  | _, none, _ => throw .misuse

def parse (texts : List String) : Except UsageError Arguments := do
  let r ← texts.foldlM read {}
  if r.pending.isSome then throw .misuse
  return r.arguments

end Arguments

end MulticastTunnel
