import MulticastTunnel.Packet.Fragmentation
import MulticastTunnel.Reassembly.Holes

/-!
# Reassembly buffers

One datagram under reassembly: the data so far, the holes in it, its end once
a last fragment told it, and the fragment whose header it will have. Later
data overwrites earlier data.
-/

namespace MulticastTunnel.Reassembly

/-- What fragments of one datagram have in common. IPv4 tells datagrams of
different protocols apart. -/
structure FragmentKey where
  source : Address
  destination : Address
  identification : UInt32
  protocol : Option UInt8
deriving DecidableEq

/-- The key of a fragment, none for a whole packet. -/
def FragmentKey.of? (p : Packet) : Option FragmentKey :=
  p.fragmentInfo.map fun f =>
    { source := p.source
      destination := p.destination
      identification := f.identification
      protocol := match p.family with
        | .ipv4 => some p.protocol
        | .ipv6 => none }

structure Buffer where
  data : Bytes
  holes : HoleList
  created : Nat
  /-- The fragment that starts the datagram. -/
  first : Option Packet
  /-- The length of the whole payload. -/
  total : Option Nat
deriving DecidableEq

namespace Buffer

def fresh (created : Nat) : Buffer := ⟨[], .fresh, created, none, none⟩

/-- Whether a range agrees with the end of the payload, once that is known. -/
def fits (b : Buffer) (last : Nat) (more : Bool) : Bool :=
  match b.total with
  | some total => last < total && (more || last + 1 = total)
  | none => true

/-- The data with `patch` written from index `start` on, grown with zeros. -/
def write (data : Bytes) (start : Nat) (patch : Bytes) : Bytes :=
  Bytes.overwrite (data ++ Bytes.zeros (start + patch.length - data.length)) start patch

/-- The buffer with the fragment added. A malformed fragment is refused: an
empty one, one with more behind it that ends inside an eight-octet unit, one
that reaches past the largest datagram, one that does not fit the known end. -/
def add? (b : Buffer) (p : Packet) (f : Fragment) : Option Buffer :=
  let payload := p.payload
  let last := f.start + payload.length - 1
  if payload.isEmpty then none
  else if f.more ∧ payload.length % 8 ≠ 0 then none
  else if maxDatagramLength ≤ last then none
  else if !b.fits last f.more then none
  else
    some { b with
      data := write b.data f.start payload
      total := if f.more then b.total else some (last + 1)
      first := if f.offset = 0 ∧ b.first.isNone then some p else b.first
      holes := b.holes.fill f.start last f.more }

def isComplete (b : Buffer) : Bool := b.holes.isEmpty

/-- The whole datagram, once its header and its end are known. -/
def assemble? (b : Buffer) : Option (Except PacketError Packet) := do
  let first ← b.first
  let total ← b.total
  some (first.reassembled (b.data.take total))

end Buffer

end MulticastTunnel.Reassembly
