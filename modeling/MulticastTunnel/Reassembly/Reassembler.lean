import MulticastTunnel.Keyed.Table
import MulticastTunnel.Reassembly.Buffer

/-!
# Reassembler

Puts fragments of many datagrams together. At most `slots` datagrams are
under reassembly; fragments of others wait in a queue of at most `budget`
octets and are offered again, in order, whenever a datagram starts or is
completed. Datagrams older than the timeout are dropped. Times are in
milliseconds.
-/

namespace MulticastTunnel.Reassembly

open Keyed

inductive ReassemblyError
  | budgetExceeded (waiting requested budget : Nat)
  | packet (error : PacketError)
deriving DecidableEq, Repr

def ReassemblyError.message : ReassemblyError → String
  | .budgetExceeded w r b => s!"Pending fragment budget exceeded ({w} + {r} > {b} bytes)"
  | .packet e => "IP error: " ++ e.message

def ReassemblyError.name : ReassemblyError → String
  | .budgetExceeded .. => "PendingBudgetExceeded"
  | .packet e => "Ip." ++ e.name

instance : Fault ReassemblyError := ⟨ReassemblyError.name, ReassemblyError.message⟩

structure Limits where
  /-- Datagrams under reassembly at one time. -/
  slots : Nat := 16
  /-- Octets in the queue. -/
  budget : Nat := 65536
  /-- The age at which a datagram is dropped. -/
  timeout : Nat := 60000
deriving DecidableEq, Repr

/-- Datagrams completed and timed out, fragments denied and dropped. -/
structure Stats where
  completed : Nat := 0
  timedOut : Nat := 0
  denied : Nat := 0
  dropped : Nat := 0
deriving DecidableEq, Repr

structure Reassembler where
  limits : Limits
  cache : Table FragmentKey Buffer := ∅
  /-- Fragments that wait for a slot, the oldest first. -/
  waiting : List Packet := []
  waitingOctets : Nat := 0
  stats : Stats := {}
deriving DecidableEq

/-- What became of one fragment. -/
inductive Admission
  | complete (datagram : Packet)
  | started
  | progress
  | denied
  | dropped
deriving DecidableEq

/-- Fragment zero of each datagram that timed out, unless it was multicast,
and the datagrams that were completed in the slots that came free. -/
structure Expired where
  timedOut : List Packet := []
  completed : List Packet := []
deriving DecidableEq

namespace Reassembler

def countDropped (r : Reassembler) : Reassembler :=
  { r with stats := { r.stats with dropped := r.stats.dropped + 1 } }

def release (r : Reassembler) (key : FragmentKey) (b : Buffer) : Admission × Reassembler :=
  let r := { r with cache := r.cache.erase key }
  match b.assemble? with
  | some (.ok datagram) =>
    (.complete datagram, { r with stats := { r.stats with completed := r.stats.completed + 1 } })
  | _ => (.dropped, r.countDropped)

/-- Offers a fragment to the buffer of its datagram. -/
def offer (r : Reassembler) (p : Packet) (now : Nat) : Admission × Reassembler :=
  match FragmentKey.of? p, p.fragmentInfo with
  | some key, some fragment =>
    let held := r.cache.get? key
    if held.isNone ∧ r.limits.slots ≤ r.cache.size then
      (.denied, { r with stats := { r.stats with denied := r.stats.denied + 1 } })
    else
      match (held.getD (.fresh now)).add? p fragment with
      | none => (.dropped, r.countDropped)
      | some b =>
        if b.isComplete then r.release key b
        else
          (if held.isNone then .started else .progress,
            { r with cache := r.cache.insert key b })
  | _, _ => (.dropped, r)

/-- What a pass over the queue made. -/
structure Pass where
  state : Reassembler
  completed : List Packet := []
  kept : List Packet := []

def Pass.step (now : Nat) (pass : Pass) (p : Packet) : Pass :=
  let (admission, state) := pass.state.offer p now
  match admission with
  | .denied => { pass with state, kept := pass.kept ++ [p] }
  | .complete d =>
    { pass with
      state := { state with waitingOctets := state.waitingOctets - p.length }
      completed := pass.completed ++ [d] }
  | _ => { pass with state := { state with waitingOctets := state.waitingOctets - p.length } }

/-- Offers every waiting fragment once. Those denied stay, in their order. -/
def retryPass (r : Reassembler) (now : Nat) : List Packet × Reassembler :=
  let pass := r.waiting.foldl (Pass.step now) { state := { r with waiting := [] } }
  (pass.completed, { pass.state with waiting := pass.kept })

/-- Passes over the queue while they complete datagrams, at most `n`. -/
def retryPasses (now : Nat) : Nat → Reassembler → List Packet × Reassembler
  | 0, r => ([], r)
  | n + 1, r =>
    let (completed, r) := r.retryPass now
    if completed.isEmpty then ([], r)
    else
      let (more, r) := retryPasses now n r
      (completed ++ more, r)

/-- Offers the queue again until a pass completes nothing. A pass that
completes a datagram takes a fragment off the queue, so there are no more
passes than fragments. -/
def retry (r : Reassembler) (now : Nat) : List Packet × Reassembler :=
  retryPasses now r.waiting.length r

/-- Puts a fragment into the queue, if the budget allows it. -/
def enqueue (r : Reassembler) (p : Packet) : Except ReassemblyError Unit × Reassembler :=
  if r.limits.budget < r.waitingOctets + p.length then
    (.error (.budgetExceeded r.waitingOctets p.length r.limits.budget), r)
  else
    (.ok (), { r with
      waiting := r.waiting ++ [p]
      waitingOctets := r.waitingOctets + p.length })

/-- Offers a packet and tells the datagrams that it completed; a whole packet
is one. A fragment that finds no slot waits, unless the budget is used up. -/
def process (r : Reassembler) (p : Packet) (now : Nat) :
    Except ReassemblyError (List Packet) × Reassembler :=
  if !p.isFragment then (.ok [p], r)
  else
    let (admission, r) := r.offer p now
    match admission with
    | .denied =>
      let (result, r) := r.enqueue p
      (result.map fun _ => [], r)
    | .complete d =>
      let (more, r) := r.retry now
      (.ok (d :: more), r)
    | .started =>
      let (completed, r) := r.retry now
      (.ok completed, r)
    | .progress | .dropped => (.ok [], r)

def isExpired (r : Reassembler) (now : Nat) (b : Buffer) : Bool :=
  r.limits.timeout ≤ now - b.created

def evict (r : Reassembler) (now : Nat) : Expired × Reassembler :=
  let expired := r.cache.toList.filter fun e => r.isExpired now e.2
  if expired.isEmpty then ({}, r)
  else
    let r := { r with
      cache := r.cache.filter fun _ b => !r.isExpired now b
      stats := { r.stats with timedOut := r.stats.timedOut + expired.length } }
    let timedOut := expired.filterMap fun e =>
      e.2.first.filter fun p => !p.destination.isMulticast
    let (completed, r) := r.retry now
    ({ timedOut, completed }, r)

/-- The first moment at which a datagram is too old. -/
def nextExpiry (r : Reassembler) : Option Nat :=
  (r.cache.toList.map fun e => e.2.created + r.limits.timeout).min?

def size (r : Reassembler) : Nat := r.cache.size

def isEmpty (r : Reassembler) : Bool := r.cache.isEmpty

/-- Drops every datagram and every waiting fragment. -/
def close (r : Reassembler) : Reassembler :=
  { r with cache := ∅, waiting := [], waitingOctets := 0 }

end Reassembler

end MulticastTunnel.Reassembly
