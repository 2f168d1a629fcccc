import MulticastTunnel.Registry

/-!
# Leases held by name

A registry together with the leases that are held, each under a name. The
leases in the table are the live ones.
-/

namespace MulticastTunnel

open Keyed

structure Holdings (κ ν : Type) where
  registry : Registry κ ν := {}
  leases : Table String (Lease κ ν) := ∅

namespace Holdings

variable {κ ν ε σ : Type} [DecidableEq κ]

/-- Holds a lease under a name. The one that was held there is given back. -/
def hold (close : ν → σ → σ) (name : String) (lease : Lease κ ν) (h : Holdings κ ν) (s : σ) :
    Holdings κ ν × σ :=
  let (registry, s) := match h.leases.get? name with
    | some old => h.registry.release close old s
    | none => (h.registry, s)
  (⟨registry, h.leases.insert name lease⟩, s)

/-- Takes a lease of a key and holds it under a name. -/
def acquire (create : κ → σ → Except ε ν × σ) (close : ν → σ → σ) (name : String) (key : κ)
    (h : Holdings κ ν) (s : σ) : Except ε (Lease κ ν) × Holdings κ ν × σ :=
  match h.registry.acquire create key s with
  | (.error e, registry, s) => (.error e, { h with registry }, s)
  | (.ok lease, registry, s) => (.ok lease, hold close name lease { h with registry } s)

/-- Takes another lease of the key of a held one, and holds it under a name of
its own. -/
def clone (close : ν → σ → σ) (name copy : String) (h : Holdings κ ν) (s : σ) :
    Option (Lease κ ν) × Holdings κ ν × σ :=
  match h.leases.get? name with
  | none => (none, h, s)
  | some lease =>
    (some lease, hold close copy lease { h with registry := h.registry.clone lease } s)

/-- Gives back the lease held under a name, and tells whether there was one. -/
def release (close : ν → σ → σ) (name : String) (h : Holdings κ ν) (s : σ) :
    Bool × Holdings κ ν × σ :=
  match h.leases.get? name with
  | none => (false, h, s)
  | some lease =>
    let (registry, s) := h.registry.release close lease s
    (true, ⟨registry, h.leases.erase name⟩, s)

end Holdings

end MulticastTunnel
