import MulticastTunnel.Receiver

/-!
# Command line of the receiver

Reads the arguments, loads the configuration, opens the output and subscribes.
What is wrong with any of these goes to the standard error output. Sockets are
left to the programs that use the library, so nothing arrives here.
-/

open MulticastTunnel

namespace MulticastTunnel.CommandLine

def usage : String := "Usage: amt-receive [OPTIONS]"

def storage : Storage IO where
  content path := do
    try
      return some (← IO.FS.readBinFile path).toList
    catch _ => return none
  openOutput
    | .file path => do
      try
        IO.FS.writeBinFile path ByteArray.empty
        return true
      catch _ => return false
    | .standard | .socket _ => return true

/-- A world without sockets, in which nonces follow one another. -/
def world (seed : Nat) : World where
  oracle := { nonce := fun n => UInt32.ofNat (seed + n), chance := fun n => seed + n }

end MulticastTunnel.CommandLine

def main (args : List String) : IO UInt32 := do
  match Arguments.parse args with
  | .error .help =>
    IO.println CommandLine.usage
    return 0
  | .error .misuse =>
    IO.eprintln CommandLine.usage
    return 2
  | .ok a =>
    let seed ← IO.rand 0 4294967295
    match ← (Receiver.start CommandLine.storage a (CommandLine.world seed)).run with
    | .error e =>
      IO.eprintln ("Error: " ++ e.message)
      return 1
    | .ok _ => return 0
