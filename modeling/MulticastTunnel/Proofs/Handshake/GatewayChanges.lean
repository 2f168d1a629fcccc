import MulticastTunnel.Proofs.Handshake.Run

/-!
# Changes of the gateway's address

A relay tells the gateway's address with a query if it likes to. What it keeps under an address
has to be taken down once it sees the gateway at another, under the grant that reported the
address. A handshake holds one grant, the latest, and compares the address with that one. So a
change is noticed if it shows between two queries in a row, and each grant that is handed back
tells what is to be taken down; a query between them that leaves the address out makes the
handshake forget the address, and then the change is missed.
-/

namespace MulticastTunnel

/-- The relay tells where it sees the gateway. -/
def Grant.reports (g : Grant) : Bool := g.gateway.isSome

/-- The grant was for the gateway at another address than this one. -/
def Grant.Moved (old new : Grant) : Prop :=
  ∃ was now, old.gateway = some was ∧ new.gateway = some now ∧ was ≠ now

/-- A grant that reports an address tells how to take down what is kept under it. -/
theorem Grant.Moved.teardown {old new : Grant} (h : old.Moved new) :
    ∃ was, old.gateway = some was ∧ old.teardown = some (.teardown old.mac old.nonce was) := by
  obtain ⟨was, -, hwas, -⟩ := h
  exact ⟨was, hwas, by rw [Grant.teardown, hwas, Option.map_some]⟩

theorem Grant.Moved.reports {old new : Grant} (h : old.Moved new) : old.reports = true := by
  obtain ⟨was, -, hwas, -⟩ := h
  rw [Grant.reports, hwas, Option.isSome_some]

namespace Handshake

/-- The grant that reported the gateway's address last, of those since the latest restart. -/
def reported? (log : List Operation) : Option Grant :=
  (current log).findSome? fun o => o.grant?.filter Grant.reports

variable {log : List Operation} {h : Handshake}

/-- A latest grant that reports an address is the one that did so last. -/
theorem reported?_of_grant? {old : Grant} (hg : grant? log = some old)
    (hr : old.reports = true) : reported? log = some old := by
  unfold grant? at hg
  unfold reported?
  generalize current log = done at hg ⊢
  induction done with
  | nil => cases hg
  | cons o done ih =>
    rw [List.findSome?_cons] at hg ⊢
    cases ho : o.grant? with
    | none =>
      -- What granted nothing reported nothing.
      rw [ho] at hg
      exact ih hg
    | some grant =>
      rw [ho] at hg
      cases hg
      rw [Option.filter_some_pos hr]

/-- Handed back is the grant held, if it was for the gateway at another address. -/
theorem staleGrant_eq_some {grant old : Grant} :
    h.staleGrant grant = some old ↔ h.grant = some old ∧ old.Moved grant := by
  rw [staleGrant, Option.filter_eq_some_iff]
  refine and_congr_right fun _ => ?_
  cases hold : old.gateway <;> cases hnew : grant.gateway <;> simp [Grant.Moved, hold, hnew]

/-- In terms of the log: the grant that reported an address last, unless a query since left the
address out. -/
theorem Recalls.staleGrant_eq_some (hr : Recalls log h) {grant old : Grant} :
    h.staleGrant grant = some old ↔
      reported? log = some old ∧ grant? log = reported? log ∧ old.Moved grant := by
  rw [Handshake.staleGrant_eq_some, hr.grant]
  constructor
  · rintro ⟨hg, hm⟩
    have hlast := reported?_of_grant? hg hm.reports
    exact ⟨hlast, hg.trans hlast.symm, hm⟩
  · rintro ⟨hlast, heq, hm⟩
    exact ⟨heq.trans hlast, hm⟩

/-- **Whatever was asked of a handshake**, in any order and with any arguments, a query that it
accepts hands back the grant that reported the gateway's address last, just if the address is
another one now and no query in between has left the address out; and this grant takes down what
the relay keeps under the address it reported. -/
theorem run_notices_changes (family : Family) (defaultInterval : Nat)
    (operations : List Operation) {grant : Grant} {interval : Option Nat}
    {stale : Option Grant} {g : Handshake}
    (hq : (run family defaultInterval operations).2.onQuery grant interval = .ok (stale, g)) :
    let log := (run family defaultInterval operations).1
    (∀ old, stale = some old ↔
      reported? log = some old ∧ grant? log = reported? log ∧ old.Moved grant) ∧
    ∀ old, stale = some old → ∃ was, old.gateway = some was ∧
      old.teardown = some (.teardown old.mac old.nonce was) := by
  intro log
  obtain ⟨-, -, rfl, -⟩ := onQuery_eq_ok.mp hq
  have hr := recalls_run family defaultInterval operations
  exact ⟨fun old => hr.staleGrant_eq_some,
    fun old hold => (Handshake.staleGrant_eq_some.mp hold).2.teardown⟩

section Keepalives

/-- A relay's grant for one of the requests. -/
def granted (nonce : Nonce) (gateway : Option SocketAddress) : Grant :=
  ⟨⟨#v[1, 2, 3, 3, 2, 1]⟩, nonce, gateway, false⟩

/-- Two addresses of a gateway behind a translator. -/
def home : SocketAddress := ⟨.v4 #v[198, 51, 100, 7], 4000, 0, 0⟩

def away : SocketAddress := ⟨.v4 #v[198, 51, 100, 7], 5000, 0, 0⟩

/-- A session in which the relay saw the gateway at home. -/
def settled : List Operation :=
  [.startDiscovery 7, .onAdvertisement 7 (.read .ipv4 [203, 0, 113, 9]), .startRequest 20,
    .onQuery (granted 20 home) none]

theorem settled_notices_change :
    let s := run .ipv4 125000 (settled ++ [.startRequest 30])
    ∃ g, s.2.onQuery (granted 30 away) none = .ok (some (granted 20 home), g) ∧
      (granted 20 home).teardown = some (.teardown ⟨#v[1, 2, 3, 3, 2, 1]⟩ 20 home) := by
  intro s
  obtain ⟨stale, g, hq⟩ : ∃ stale g, s.2.onQuery (granted 30 away) none = .ok (stale, g) :=
    ⟨_, _, rfl⟩
  obtain ⟨hstale, hteardown⟩ :=
    run_notices_changes .ipv4 125000 (settled ++ [Operation.startRequest 30]) hq
  have hback : stale = some (granted 20 home) :=
    (hstale _).mpr ⟨by decide, by decide, home, away, rfl, rfl, by decide⟩
  obtain ⟨was, hwas, ht⟩ := hteardown _ hback
  cases hwas
  exact ⟨g, hback ▸ hq, ht⟩

/-- The relay saw the gateway at home, told no address the next time, and sees it away now: what
it keeps for the gateway at home is never taken down. -/
theorem change_missed_after_silence :
    let s := run .ipv4 125000
      (settled ++ [.startRequest 30, .onQuery (granted 30 none) none, .startRequest 40])
    reported? s.1 = some (granted 20 home) ∧ (granted 20 home).Moved (granted 40 away) ∧
      ∃ g, s.2.onQuery (granted 40 away) none = .ok (none, g) :=
  ⟨by decide, ⟨home, away, rfl, rfl, by decide⟩, _, rfl⟩

end Keepalives

end Handshake

end MulticastTunnel
