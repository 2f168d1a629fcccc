import MulticastTunnel.Address.Text
import MulticastTunnel.Fault

/-!
# Output targets

Payloads go to the standard output, to a file, or as datagrams to a socket.
-/

namespace MulticastTunnel

inductive OutputTarget
  | standard
  | file (path : String)
  | socket (address : SocketAddress)
deriving DecidableEq

inductive TargetError
  | empty
  /-- What follows the scheme of a socket is no address. -/
  | badAddress (text : String)
deriving DecidableEq, Repr

def TargetError.message : TargetError → String
  | .empty => "Empty output target"
  | .badAddress text =>
    "Invalid UDP output address '" ++ text ++ "': invalid socket address syntax"

instance : Fault TargetError := ⟨fun _ => "OutputTarget", TargetError.message⟩

namespace OutputTarget

/-- What the address of a socket comes after. -/
def scheme : String := "udp://"

def ofText (text : String) : Except TargetError OutputTarget :=
  if text = "-" then .ok .standard
  else if scheme.toList.isPrefixOf text.toList then
    let address := String.ofList (text.toList.drop scheme.length)
    match SocketAddress.ofText? address with
    | some a => .ok (.socket a)
    | none => .error (.badAddress address)
  else if text.isEmpty then .error .empty
  else .ok (.file text)

def toText : OutputTarget → String
  | .standard => "stdout"
  | .file path => path
  | .socket a => scheme ++ a.toText

end OutputTarget

end MulticastTunnel
