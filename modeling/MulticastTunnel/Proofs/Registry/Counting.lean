import MulticastTunnel.Proofs.Registry.Leases

/-!
# Counting leases

A run tells both: a registry, and the multiset of the leases that are alive.
Objects carry the number of their creation, so that those which are created
under one key after each other can be told apart, and a ledger has every
creation, failed creation and closing in order.

The ledger follows the leases: an object that has a lease has not been closed,
and one that has none any more has been closed once.
-/

namespace MulticastTunnel.Registry

open Keyed

/-! ## Objects and the ledger -/

/-- An object with the number of its creation. -/
structure Object (ν : Type) where
  number : Nat
  value : ν
deriving DecidableEq

inductive Event (κ : Type)
  | created (number : Nat) (key : κ)
  | refused (key : κ)
  | closed (number : Nat)
deriving DecidableEq

variable {κ ν σ ε : Type}

/-- Creates an object and enters it, or the failure, into the ledger. An object
is numbered by its place there. -/
def creating (create : κ → σ → Except ε ν × σ) (key : κ) :
    List (Event κ) × σ → Except ε (Object ν) × List (Event κ) × σ
  | (events, s) =>
    match create key s with
    | (.error e, s) => (.error e, events ++ [.refused key], s)
    | (.ok value, s) => (.ok ⟨events.length, value⟩, events ++ [.created events.length key], s)

theorem creating_cases (create : κ → σ → Except ε ν × σ) (key : κ) (events : List (Event κ))
    (s : σ) :
    (∃ e w, creating create key (events, s) = (.error e, events ++ [.refused key], w)) ∨
      ∃ value w, creating create key (events, s) =
        (.ok ⟨events.length, value⟩, events ++ [.created events.length key], w) := by
  unfold creating
  obtain ⟨result, w, hcreate⟩ : ∃ result w, create key s = (result, w) := ⟨_, _, rfl⟩
  simp only [hcreate]
  cases result with
  | error e => exact .inl ⟨e, w, rfl⟩
  | ok value => exact .inr ⟨value, w, rfl⟩

/-- Closes an object and enters that into the ledger. -/
def closing (close : ν → σ → σ) (object : Object ν) :
    List (Event κ) × σ → List (Event κ) × σ
  | (events, s) => (events ++ [.closed object.number], close object.value s)

variable {r : Registry κ (Object ν)} {live : Multiset (Lease κ (Object ν))}
  {events : List (Event κ)} {lease : Lease κ (Object ν)} {key : κ}

/-! ## Operations and runs -/

variable [DecidableEq κ]

/-- The registry, the leases that are alive and the ledger, after any sequence of
operations. Creation and closing may be others each time, and act on a world of
their own. -/
inductive Run : Registry κ (Object ν) → Multiset (Lease κ (Object ν)) → List (Event κ) → Prop
  | start : Run {} 0 []
  | acquire {r r' : Registry κ (Object ν)} {live : Multiset (Lease κ (Object ν))}
      {events events' : List (Event κ)} {σ ε : Type} {s s' : σ} {lease : Lease κ (Object ν)}
      (create : κ → σ → Except ε ν × σ) (key : κ) : Run r live events →
      r.acquire (creating create) key (events, s) = (.ok lease, r', events', s') →
      Run r' (lease ::ₘ live) events'
  | fail {r r' : Registry κ (Object ν)} {live : Multiset (Lease κ (Object ν))}
      {events events' : List (Event κ)} {σ ε : Type} {s s' : σ} {e : ε}
      (create : κ → σ → Except ε ν × σ) (key : κ) : Run r live events →
      r.acquire (creating create) key (events, s) = (.error e, r', events', s') →
      Run r' live events'
  | clone {r : Registry κ (Object ν)} {live : Multiset (Lease κ (Object ν))}
      {events : List (Event κ)} {lease : Lease κ (Object ν)} : Run r live events → lease ∈ live →
      Run (r.clone lease) (lease ::ₘ live) events
  | release {r : Registry κ (Object ν)} {live : Multiset (Lease κ (Object ν))}
      {events : List (Event κ)} {lease : Lease κ (Object ν)} {σ : Type} (close : ν → σ → σ)
      (s : σ) : Run r (lease ::ₘ live) events →
      Run (r.release (closing close) lease (events, s)).1 live
        (r.release (closing close) lease (events, s)).2.1

/-! ## The ledger and the leases -/

/-- Every object was created once, for its key, and it has been closed once if it
has no lease any more, and not at all if it has one. -/
structure Ledgered (live : Multiset (Lease κ (Object ν))) (events : List (Event κ)) : Prop where
  numbered : ∀ number key, .created number key ∈ events →
    events[number]? = some (.created number key)
  created : ∀ lease ∈ live, .created lease.value.number lease.key ∈ events
  unclosed : ∀ lease ∈ live, .closed lease.value.number ∉ events
  closed : ∀ number key, .created number key ∈ events →
    (∀ lease ∈ live, lease.value.number ≠ number) → events.count (.closed number) = 1
  known : ∀ number, .closed number ∈ events → ∃ key, .created number key ∈ events

theorem ledgered_nil : Ledgered (0 : Multiset (Lease κ (Object ν))) [] where
  numbered _ _ h := by cases h
  created _ h := absurd h (Multiset.notMem_zero _)
  unclosed _ h := absurd h (Multiset.notMem_zero _)
  closed _ _ h := by cases h
  known _ h := by cases h

/-- It does not matter how many leases an object has. -/
theorem Ledgered.congr {live' : Multiset (Lease κ (Object ν))} (h : Ledgered live events)
    (hsub : ∀ lease ∈ live', ∃ other ∈ live, other.key = lease.key ∧ other.value = lease.value)
    (hsup : ∀ lease ∈ live, ∃ other ∈ live', other.value = lease.value) :
    Ledgered live' events where
  numbered := h.numbered
  created := by
    intro lease hm
    obtain ⟨other, hin, hk, hv⟩ := hsub lease hm
    rw [← hk, ← hv]
    exact h.created other hin
  unclosed := by
    intro lease hm
    obtain ⟨other, hin, -, hv⟩ := hsub lease hm
    rw [← hv]
    exact h.unclosed other hin
  closed := by
    intro number key hc hnone
    refine h.closed number key hc ?_
    intro lease hm
    obtain ⟨other, hin, hv⟩ := hsup lease hm
    rw [← hv]
    exact hnone other hin
  known := h.known

theorem Ledgered.number_lt (h : Ledgered live events) {number : Nat}
    (hc : .created number key ∈ events) : number < events.length :=
  (List.getElem?_eq_some_iff.mp (h.numbered number key hc)).1

/-- What is entered at the end moves no creation. -/
theorem Ledgered.numbered_append (h : Ledgered live events) (more : List (Event κ)) {number : Nat}
    (hc : .created number key ∈ events) :
    (events ++ more)[number]? = some (.created number key) := by
  rw [List.getElem?_append_left (h.number_lt hc)]
  exact h.numbered number key hc

theorem Ledgered.refuse (h : Ledgered live events) (key : κ) :
    Ledgered live (events ++ [.refused key]) where
  numbered number k hc := h.numbered_append _ (by simpa using hc)
  created lease hm := List.mem_append_left _ (h.created lease hm)
  unclosed lease hm hc := h.unclosed lease hm (by simpa using hc)
  closed number k hc hnone := by
    rw [List.count_append, h.closed number k (by simpa using hc) hnone]
    simp
  known number hc := by
    obtain ⟨k, hk⟩ := h.known number (by simpa using hc)
    exact ⟨k, List.mem_append_left _ hk⟩

theorem Ledgered.create (h : Ledgered live events) (key : κ) (value : ν) :
    Ledgered (⟨key, ⟨events.length, value⟩⟩ ::ₘ live)
      (events ++ [.created events.length key]) where
  numbered number k hc := by
    rcases List.mem_append.mp hc with hc | hc
    · exact h.numbered_append _ hc
    · cases List.mem_singleton.mp hc
      rw [List.getElem?_concat_length]
  created lease hm := by
    rcases Multiset.mem_cons.mp hm with rfl | hm
    · exact List.mem_append_right _ List.mem_cons_self
    · exact List.mem_append_left _ (h.created lease hm)
  unclosed lease hm hc := by
    have hc : .closed lease.value.number ∈ events := by simpa using hc
    rcases Multiset.mem_cons.mp hm with rfl | hm
    · -- What has been closed was created, under a smaller number.
      obtain ⟨k, hk⟩ := h.known _ hc
      exact Nat.lt_irrefl _ (h.number_lt hk)
    · exact h.unclosed lease hm hc
  closed number k hc hnone := by
    have hne : events.length ≠ number := hnone _ (Multiset.mem_cons_self _ live)
    have hc : .created number k ∈ events := by
      rcases List.mem_append.mp hc with hc | hc
      · exact hc
      · cases List.mem_singleton.mp hc
        exact absurd rfl hne
    rw [List.count_append,
      h.closed number k hc fun lease hm => hnone lease (Multiset.mem_cons_of_mem hm)]
    simp
  known number hc := by
    obtain ⟨k, hk⟩ := h.known number (by simpa using hc)
    exact ⟨k, List.mem_append_left _ hk⟩

/-- An object belongs to one key. -/
theorem Ledgered.key_eq {other : Lease κ (Object ν)} (h : Ledgered live events) (hm : lease ∈ live)
    (ho : other ∈ live) (hn : other.value.number = lease.value.number) :
    other.key = lease.key := by
  have hfound := h.numbered _ _ (h.created other ho)
  rw [hn, h.numbered _ _ (h.created lease hm)] at hfound
  injection hfound with hfound
  injection hfound with _ hkey
  exact hkey.symm

/-- The last lease of an object goes, and it is closed. -/
theorem Ledgered.close (h : Ledgered (lease ::ₘ live) events)
    (hlast : ∀ other ∈ live, other.key ≠ lease.key) :
    Ledgered live (events ++ [.closed lease.value.number]) := by
  have hself : lease ∈ lease ::ₘ live := Multiset.mem_cons_self lease live
  constructor
  · exact fun number k hc => h.numbered_append _ (by simpa using hc)
  · exact fun other hm => List.mem_append_left _ (h.created other (Multiset.mem_cons_of_mem hm))
  · intro other hm hc
    have hin : other ∈ lease ::ₘ live := Multiset.mem_cons_of_mem hm
    rcases List.mem_append.mp hc with hc | hc
    · exact h.unclosed other hin hc
    · injection List.mem_singleton.mp hc with hn
      exact hlast other hm (h.key_eq hself hin hn)
  · intro number k hc hnone
    have hc : .created number k ∈ events := by simpa using hc
    rw [List.count_append]
    by_cases hn : lease.value.number = number
    · subst hn
      rw [List.count_eq_zero_of_not_mem (h.unclosed lease hself)]
      simp
    · have hnone' : ∀ other ∈ lease ::ₘ live, other.value.number ≠ number := by
        intro other hm
        rcases Multiset.mem_cons.mp hm with rfl | hm
        · exact hn
        · exact hnone other hm
      rw [h.closed number k hc hnone']
      simp [hn]
  · intro number hc
    rcases List.mem_append.mp hc with hc | hc
    · obtain ⟨k, hk⟩ := h.known number hc
      exact ⟨k, List.mem_append_left _ hk⟩
    · cases List.mem_singleton.mp hc
      exact ⟨lease.key, List.mem_append_left _ (h.created lease hself)⟩

/-! ## Runs -/

theorem Run.counted (h : Run r live events) : Counted r live ∧ Ledgered live events := by
  induction h with
  | start => exact ⟨fun key => .absent, ledgered_nil⟩
  | @acquire r r' live events events' σ ε s s' lease create key _ heq ih =>
    obtain ⟨hc, hl⟩ := ih
    cases hg : r.entries.get? key with
    | some shared =>
      rw [acquire_of_some hg] at heq
      cases heq
      refine ⟨hc.cons hg, hl.congr ?_ ?_⟩
      · intro x hx
        rcases Multiset.mem_cons.mp hx with rfl | hx
        · exact hc.exists_lease hg
        · exact ⟨x, hx, rfl, rfl⟩
      · exact fun x hx => ⟨x, Multiset.mem_cons_of_mem hx, rfl⟩
    | none =>
      obtain ⟨e, w, hcreate⟩ | ⟨value, w, hcreate⟩ := creating_cases create key events s
      · rw [acquire_of_error hg hcreate] at heq
        cases heq
      · rw [acquire_of_ok hg hcreate] at heq
        cases heq
        exact ⟨hc.first hg ⟨events.length, value⟩, hl.create key value⟩
  | @fail r r' live events events' σ ε s s' e create key _ heq ih =>
    obtain ⟨hc, hl⟩ := ih
    cases hg : r.entries.get? key with
    | some shared =>
      rw [acquire_of_some hg] at heq
      cases heq
    | none =>
      obtain ⟨e, w, hcreate⟩ | ⟨value, w, hcreate⟩ := creating_cases create key events s
      · rw [acquire_of_error hg hcreate] at heq
        cases heq
        exact ⟨hc, hl.refuse key⟩
      · rw [acquire_of_ok hg hcreate] at heq
        cases heq
  | @clone r live events lease _ hm ih =>
    obtain ⟨hc, hl⟩ := ih
    obtain ⟨shared, hg, hv⟩ := hc.exists_shared hm
    have hself : (⟨lease.key, shared.value⟩ : Lease κ (Object ν)) = lease := by rw [← hv]
    have hcons := hc.cons hg
    rw [hself] at hcons
    rw [clone_of_some hg]
    refine ⟨hcons, hl.congr ?_ ?_⟩
    · intro x hx
      rcases Multiset.mem_cons.mp hx with rfl | hx
      · exact ⟨x, hm, rfl, rfl⟩
      · exact ⟨x, hx, rfl, rfl⟩
    · exact fun x hx => ⟨x, Multiset.mem_cons_of_mem hx, rfl⟩
  | @release r live events lease σ close s _ ih =>
    obtain ⟨hc, hl⟩ := ih
    obtain ⟨hc', ⟨hlast, heq⟩ | ⟨⟨other, hm, hk, hv⟩, heq⟩⟩ :=
      hc.release (closing close) (events, s)
    · rw [heq]
      exact ⟨hc', hl.close hlast⟩
    · rw [heq]
      refine ⟨hc', hl.congr (fun x hx => ⟨x, Multiset.mem_cons_of_mem hx, rfl, rfl⟩) ?_⟩
      intro x hx
      rcases Multiset.mem_cons.mp hx with rfl | hx
      · exact ⟨other, hm, hv⟩
      · exact ⟨x, hx, rfl⟩

/-- The registry and the ledger tell what leases are alive. -/
structure Accounts (r : Registry κ (Object ν)) (live : Multiset (Lease κ (Object ν)))
    (events : List (Event κ)) : Prop where
  registered : ∀ key, (r.get? key).isSome = true ↔ ∃ lease ∈ live, lease.key = key
  leaseCount : ∀ key, r.leaseCount key = live.countP fun lease => lease.key = key
  positive : ∀ key shared, r.entries.get? key = some shared → 0 < shared.leases
  shared : ∀ lease ∈ live, r.get? lease.key = some lease.value
  ledger : Ledgered live events

theorem Counted.accounts (h : Counted r live) (hl : Ledgered live events) :
    Accounts r live events where
  registered key := by
    rw [Registry.get?, Option.isSome_map, Option.isSome_iff_exists]
    constructor
    · rintro ⟨shared, hg⟩
      obtain ⟨lease, hm, hk, -⟩ := h.exists_lease hg
      exact ⟨lease, hm, hk⟩
    · rintro ⟨lease, hm, rfl⟩
      obtain ⟨shared, hg, -⟩ := h.exists_shared hm
      exact ⟨shared, hg⟩
  leaseCount key := by
    rw [Registry.leaseCount, Multiset.countP_eq_card_filter]
    exact (h key).leases_eq
  positive key shared hg := by
    have hstands := h key
    rw [hg] at hstands
    cases hstands with
    | counted hpos hsame => exact hpos
  shared lease hm := by
    obtain ⟨shared, hg, hv⟩ := h.exists_shared hm
    rw [Registry.get?, hg, hv]
    rfl
  ledger := hl

variable {τ : Type}

/-- An acquisition hands out the object that others hold. Only where nobody
holds any is one created, and where that fails nothing is registered. -/
structure Acquires (r : Registry κ (Object ν)) (live : Multiset (Lease κ (Object ν)))
    (create : κ → τ → Except ε (Object ν) × τ) (key : κ) (s : τ) : Prop where
  shares : ∀ lease ∈ live, lease.key = key →
    (r.acquire create key s).1 = .ok lease ∧ (r.acquire create key s).2.2 = s
  creates : (∀ lease ∈ live, lease.key ≠ key) →
    (r.acquire create key s).1 = (create key s).1.map (⟨key, ·⟩) ∧
      (r.acquire create key s).2.2 = (create key s).2
  fails : ∀ e, (r.acquire create key s).1 = .error e → (r.acquire create key s).2.1 = r

theorem Counted.acquires (h : Counted r live) (create : κ → τ → Except ε (Object ν) × τ) (key : κ)
    (s : τ) : Acquires r live create key s := by
  constructor
  · rintro lease hm rfl
    obtain ⟨shared, hg, hv⟩ := h.exists_shared hm
    rw [acquire_of_some hg, ← hv]
    exact ⟨rfl, rfl⟩
  · intro hnone
    have hg := h.get?_eq_none_iff.mpr hnone
    obtain ⟨result, w, hcreate⟩ : ∃ result w, create key s = (result, w) := ⟨_, _, rfl⟩
    cases result with
    | error e =>
      rw [acquire_of_error hg hcreate, hcreate]
      exact ⟨rfl, rfl⟩
    | ok value =>
      rw [acquire_of_ok hg hcreate, hcreate]
      exact ⟨rfl, rfl⟩
  · intro e herr
    cases hg : r.entries.get? key with
    | some shared =>
      rw [acquire_of_some hg] at herr
      cases herr
    | none =>
      obtain ⟨result, w, hcreate⟩ : ∃ result w, create key s = (result, w) := ⟨_, _, rfl⟩
      cases result with
      | error e => rw [acquire_of_error hg hcreate]
      | ok value =>
        rw [acquire_of_ok hg hcreate] at herr
        cases herr

/-- Giving a lease back closes its own object, and only if no other lease of the key is left. -/
structure Releases (r : Registry κ (Object ν)) (lease : Lease κ (Object ν))
    (rest : Multiset (Lease κ (Object ν))) (close : Object ν → τ → τ) (s : τ) : Prop where
  last : (∀ other ∈ rest, other.key ≠ lease.key) →
    (r.release close lease s).2 = close lease.value s
  others : (∃ other ∈ rest, other.key = lease.key) → (r.release close lease s).2 = s

theorem Counted.releases (h : Counted r (lease ::ₘ live)) (close : Object ν → τ → τ) (s : τ) :
    Releases r lease live close s := by
  obtain ⟨-, ⟨hlast, heq⟩ | ⟨⟨other, hm, hk, -⟩, heq⟩⟩ := h.release close s
  · exact ⟨fun _ => heq, fun ⟨other, hm, hk⟩ => absurd hk (hlast other hm)⟩
  · exact ⟨fun hnone => absurd hk (hnone other hm), fun _ => heq⟩

/-- **A registry counts the leases that are alive**: a key is registered while it
has one, with the object that all of them hold. Each object is created when its
key has no lease, and closed once, when its last lease is given back. -/
theorem Run.counts_leases (h : Run r live events) :
    Accounts r live events ∧
      (∀ {τ ε : Type} (create : κ → τ → Except ε (Object ν) × τ) (key : κ) (s : τ),
        Acquires r live create key s) ∧
      ∀ lease rest, live = lease ::ₘ rest →
        ∀ {τ : Type} (close : Object ν → τ → τ) (s : τ), Releases r lease rest close s := by
  obtain ⟨hc, hl⟩ := h.counted
  refine ⟨hc.accounts hl, fun create key s => hc.acquires create key s, ?_⟩
  rintro lease rest rfl τ close s
  exact hc.releases close s

/-! ## Two objects under one key -/

/-- A lease of key 7, with the object that was created at a place of the ledger. -/
def seventh (number : Nat) : Lease Nat (Object Unit) := ⟨7, number, ()⟩

/-- The object of key 7 was closed with its two leases, and another one is leased twice. -/
def reopened : Registry Nat (Object Unit) :=
  ⟨(∅ : Table Nat (Shared (Object Unit))).insert 7 ⟨⟨3, ()⟩, 2⟩⟩

def reopenedEvents : List (Event Nat) := [.created 0 7, .refused 8, .closed 0, .created 3 7]

theorem run_reopened : Run reopened (seventh 3 ::ₘ seventh 3 ::ₘ 0) reopenedEvents := by
  let succeed (_ : Nat) (w : Unit) : Except Unit Unit × Unit := (.ok (), w)
  let refuse (_ : Nat) (w : Unit) : Except Unit Unit × Unit := (.error (), w)
  let close (_ : Unit) (w : Unit) : Unit := w
  have first : Run _ (seventh 0 ::ₘ 0) _ := .acquire (s := ()) succeed 7 .start rfl
  have both : Run _ (seventh 0 ::ₘ seventh 0 ::ₘ 0) _ := first.clone (Multiset.mem_cons_self _ _)
  have refused : Run _ (seventh 0 ::ₘ seventh 0 ::ₘ 0) _ := .fail (s := ()) refuse 8 both rfl
  have closed : Run _ 0 _ := (refused.release close ()).release close ()
  have again : Run _ (seventh 3 ::ₘ 0) _ := .acquire (s := ()) succeed 7 closed rfl
  exact again.clone (Multiset.mem_cons_self _ _)

theorem reopened_counts : Run reopened (seventh 3 ::ₘ seventh 3 ::ₘ 0) reopenedEvents ∧
    reopened.leaseCount 7 = 2 ∧ reopenedEvents.count (.closed 0) = 1 ∧
    .closed 3 ∉ reopenedEvents := by
  obtain ⟨haccounts, -, -⟩ := run_reopened.counts_leases
  refine ⟨run_reopened, haccounts.leaseCount 7, haccounts.ledger.closed 0 7 (by decide) ?_,
    haccounts.ledger.unclosed (seventh 3) (Multiset.mem_cons_self _ _)⟩
  intro lease hm
  have hv : lease = seventh 3 := by simpa using hm
  rw [hv]
  decide

end MulticastTunnel.Registry
