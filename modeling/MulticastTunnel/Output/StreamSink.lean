import MulticastTunnel.Channel
import MulticastTunnel.Datagram
import MulticastTunnel.Statistics.Display

/-!
# Sinks that write to a stream

A stream sink writes the payload of each datagram to a stream. A refusal only
costs the datagram, since whoever listens at the other end may still come. Any
other failure closes the sink for good.
-/

namespace MulticastTunnel

structure Stream where
  /-- The most that it takes at once. -/
  perWrite : Nat
  /-- Why it takes nothing and cannot be flushed, if so. -/
  failure : Option IoError := none
  written : Bytes := []
deriving DecidableEq

namespace Stream

/-- Writes all octets, in as many pieces as the stream needs. -/
def writeAll (b : Bytes) (s : Stream) : Except IoError Unit × Stream :=
  if b.isEmpty then (.ok (), s)
  else
    match s.failure with
    | some e => (.error e, s)
    | none =>
      if s.perWrite = 0 then (.error .nothingWritten, s)
      else (.ok (), { s with written := s.written ++ b })

def flush (s : Stream) : Except IoError Unit :=
  match s.failure with
  | some e => .error e
  | none => .ok ()

end Stream

structure StreamSink where
  stream : Stream
  stats : Statistics.Written := {}
  /-- The stream failed. -/
  closed : Bool := false
deriving DecidableEq

namespace StreamSink

def deliver (d : Datagram) (s : StreamSink) : Except SinkError Unit × StreamSink :=
  if s.closed then (.error .disconnected, s)
  else
    let (result, stream) := s.stream.writeAll d.payload
    match result with
    | .ok () =>
      let stats :=
        { s.stats with
          datagrams := s.stats.datagrams + 1
          octets := s.stats.octets + d.payload.length }
      (.ok (), { s with stream, stats })
    | .error e =>
      match e.kind? with
      | some .connectionRefused => (.ok (), { s with stream })
      | some .brokenPipe => (.error .disconnected, { s with stream, closed := true })
      | _ => (.error (.fatal e.message), { s with stream, closed := true })

def deliverAll : List Datagram → StreamSink → List (Except SinkError Unit) × StreamSink
  | [], s => ([], s)
  | d :: ds, s =>
    let (result, s) := s.deliver d
    let (results, s) := deliverAll ds s
    (result :: results, s)

end StreamSink

end MulticastTunnel
