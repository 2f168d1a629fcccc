import MulticastTunnel.IoError
import MulticastTunnel.Membership.Envelope

/-!
# Outcomes of sending through a tunnel
-/

namespace MulticastTunnel

inductive TunnelError
  | closed
  | familyMismatch (tunnel packet : Family)
  | invalidReport (error : Membership.CodecError)
  | unreachable
  | socket (error : SocketError)
deriving DecidableEq, Repr

def TunnelError.message : TunnelError → String
  | .closed => "Tunnel is closed"
  | .familyMismatch t p =>
    "Address family mismatch (tunnel " ++ t.name ++ ", packet " ++ p.name ++ ")"
  | .invalidReport e => "Not a membership report: " ++ e.message
  | .unreachable => "Relay unreachable"
  | .socket e => "Socket error: " ++ e.message

def TunnelError.name : TunnelError → String
  | .closed => "Closed"
  | .familyMismatch .. => "FamilyMismatch"
  | .invalidReport e => "InvalidReport." ++ e.name
  | .unreachable => "Unreachable"
  | .socket e => "Socket." ++ e.name

instance : Fault TunnelError := ⟨TunnelError.name, TunnelError.message⟩

/-- What became of a packet that a tunnel accepted. -/
inductive SendOutcome
  | sent
  /-- No query was received yet. The packet was dropped. -/
  | notReady
deriving DecidableEq, Repr

end MulticastTunnel
