import MulticastTunnel.Keyed.Table

/-!
# Registries

A registry shares one object per key among all who hold a lease of the key.
The object is created for the first lease and closed with the last one.
Creating and closing act on a state `σ` of their own.
-/

namespace MulticastTunnel

open Keyed

/-- A shared object and the number of its leases. -/
structure Shared (ν : Type) where
  value : ν
  leases : Nat
deriving DecidableEq, Repr

structure Registry (κ ν : Type) where
  entries : Table κ (Shared ν) := ∅

/-- The right to use the object of a key, until it is released. -/
structure Lease (κ ν : Type) where
  key : κ
  value : ν
deriving DecidableEq, Repr

namespace Registry

variable {κ ν ε σ : Type} [DecidableEq κ]

def get? (r : Registry κ ν) (key : κ) : Option ν := (r.entries.get? key).map (·.value)

def leaseCount (r : Registry κ ν) (key : κ) : Nat :=
  ((r.entries.get? key).map (·.leases)).getD 0

omit [DecidableEq κ] in
def keys (r : Registry κ ν) : List κ := r.entries.keys

omit [DecidableEq κ] in
def size (r : Registry κ ν) : Nat := r.entries.size

omit [DecidableEq κ] in
def isEmpty (r : Registry κ ν) : Bool := r.entries.isEmpty

/-- Takes a lease of a key, and creates its object if there is none. -/
def acquire (create : κ → σ → Except ε ν × σ) (key : κ) (r : Registry κ ν) (s : σ) :
    Except ε (Lease κ ν) × Registry κ ν × σ :=
  match r.entries.get? key with
  | some shared =>
    (.ok ⟨key, shared.value⟩,
      ⟨r.entries.insert key { shared with leases := shared.leases + 1 }⟩, s)
  | none =>
    match create key s with
    | (.error e, s) => (.error e, r, s)
    | (.ok value, s) => (.ok ⟨key, value⟩, ⟨r.entries.insert key ⟨value, 1⟩⟩, s)

def clone (lease : Lease κ ν) (r : Registry κ ν) : Registry κ ν :=
  match r.entries.get? lease.key with
  | some shared => ⟨r.entries.insert lease.key { shared with leases := shared.leases + 1 }⟩
  | none => r

/-- Gives a lease back. The object is closed with the last one. -/
def release (close : ν → σ → σ) (lease : Lease κ ν) (r : Registry κ ν) (s : σ) :
    Registry κ ν × σ :=
  match r.entries.get? lease.key with
  | none => (r, s)
  | some shared =>
    if shared.leases ≤ 1 then (⟨r.entries.erase lease.key⟩, close shared.value s)
    else (⟨r.entries.insert lease.key { shared with leases := shared.leases - 1 }⟩, s)

end Registry

end MulticastTunnel
