import MulticastTunnel.Fault
import MulticastTunnel.IoError.SystemText

/-!
# Input and output errors

What can go wrong with a socket or a stream. An error is of a general kind or
carries the number that the system gave; the number tells the kind, if it is
one of those listed here.
-/

namespace MulticastTunnel

inductive IoKind
  | connectionRefused
  | connectionReset
  | connectionAborted
  | notConnected
  | addressInUse
  | addressNotAvailable
  | brokenPipe
  | wouldBlock
  | timedOut
  | interrupted
  | permissionDenied
  | invalidInput
  | unexpectedEnd
  | other
deriving DecidableEq, Repr

namespace IoKind

def message : IoKind → String
  | connectionRefused => "connection refused"
  | connectionReset => "connection reset"
  | connectionAborted => "connection aborted"
  | notConnected => "not connected"
  | addressInUse => "address in use"
  | addressNotAvailable => "address not available"
  | brokenPipe => "broken pipe"
  | wouldBlock => "operation would block"
  | timedOut => "timed out"
  | interrupted => "operation interrupted"
  | permissionDenied => "permission denied"
  | invalidInput => "invalid input parameter"
  | unexpectedEnd => "unexpected end of file"
  | other => "other error"

def name : IoKind → String
  | connectionRefused => "connection_refused"
  | connectionReset => "connection_reset"
  | connectionAborted => "connection_aborted"
  | notConnected => "not_connected"
  | addressInUse => "addr_in_use"
  | addressNotAvailable => "addr_not_available"
  | brokenPipe => "broken_pipe"
  | wouldBlock => "would_block"
  | timedOut => "timed_out"
  | interrupted => "interrupted"
  | permissionDenied => "permission_denied"
  | invalidInput => "invalid_input"
  | unexpectedEnd => "unexpected_eof"
  | other => "other"

def all : List IoKind :=
  [connectionRefused, connectionReset, connectionAborted, notConnected, addressInUse,
    addressNotAvailable, brokenPipe, wouldBlock, timedOut, interrupted, permissionDenied,
    invalidInput, unexpectedEnd, other]

def ofName? (s : String) : Option IoKind := all.find? fun k => k.name = s

/-- The kind of a system error number. -/
def ofCode? : Nat → Option IoKind
  | 1 | 13 => some permissionDenied
  | 4 => some interrupted
  | 11 => some wouldBlock
  | 22 => some invalidInput
  | 32 => some brokenPipe
  | 98 => some addressInUse
  | 99 => some addressNotAvailable
  | 103 => some connectionAborted
  | 104 => some connectionReset
  | 107 => some notConnected
  | 110 => some timedOut
  | 111 => some connectionRefused
  | _ => none

end IoKind

inductive IoError
  | general (kind : IoKind)
  /-- The system gave this error number. -/
  | system (code : Nat)
  /-- A stream took nothing of what was written to it. -/
  | nothingWritten
deriving DecidableEq, Repr

namespace IoError

def kind? : IoError → Option IoKind
  | general k => some k
  | system code => IoKind.ofCode? code
  | nothingWritten => none

def message : IoError → String
  | general k => k.message
  | system code => SystemText.of code ++ " (os error " ++ toString code ++ ")"
  | nothingWritten => "failed to write whole buffer"

/-- The system's number for a network that cannot be reached. -/
def networkUnreachable : Nat := 101

/-- The system's number for a host to which there is no route. -/
def hostUnreachable : Nat := 113

/-- Whether the peer, or the way to it, is gone. A refusal or a reset is what
a connected socket reports after the peer's host has answered that nobody
listens there. -/
def isUnreachable (e : IoError) : Bool :=
  match e.kind? with
  | some .connectionRefused | some .connectionReset | some .addressNotAvailable => true
  | _ => e = system networkUnreachable || e = system hostUnreachable

/-- Whether the time to wait has passed. -/
def isTimeout (e : IoError) : Bool :=
  e.kind? = some .wouldBlock || e.kind? = some .timedOut

instance : Fault IoError := ⟨fun _ => "Io", message⟩

end IoError

inductive SocketError
  | io (error : IoError)
  | invalidAddress
deriving DecidableEq, Repr

namespace SocketError

def message : SocketError → String
  | io e => "IO error: " ++ e.message
  | invalidAddress => "Invalid socket address"

def name : SocketError → String
  | io _ => "Io"
  | invalidAddress => "InvalidAddress"

instance : Fault SocketError := ⟨name, message⟩

def isUnreachable : SocketError → Bool
  | io e => e.isUnreachable
  | invalidAddress => false

def isTimeout : SocketError → Bool
  | io e => e.isTimeout
  | invalidAddress => false

/-- Whether a call was broken off. -/
def isInterrupted : SocketError → Bool
  | io e => e.kind? = some .interrupted
  | invalidAddress => false

end SocketError

end MulticastTunnel
