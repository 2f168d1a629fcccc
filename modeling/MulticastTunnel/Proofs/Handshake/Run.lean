import Mathlib.Data.List.Induction
import MulticastTunnel.Proofs.Handshake.Operations

/-!
# Runs of a handshake

The operations of a handshake are public, and may be asked for in any order and with any
arguments. A run keeps a log of the operations that were done, the latest first: a message
was handed out, an answer was accepted, or all was forgotten. What was refused, and a
discovery that was given up, is not in the log.

`Recalls` ties the handshake to its log. Nothing but a restart clears the nonce of a
request or a grant, so these two are what the log tells since the latest restart, in every
phase; the nonce of a discovery is tied to the log while the discovery lasts. What the phases
imply is derived from that.
-/

namespace MulticastTunnel.Handshake

/-- What can be asked of a handshake. -/
inductive Operation
  | startDiscovery (nonce : Nonce)
  | retryDiscovery (limit : Option UInt32)
  | onAdvertisement (nonce : Nonce) (relay : Address)
  | startRequest (nonce : Nonce)
  | retryRequest (limit : UInt32)
  | onQuery (grant : Grant) (interval : Option Nat)
  | reset
deriving DecidableEq

namespace Operation

/-- Nothing of what was before counts any more. -/
def restarts : Operation → Bool
  | startDiscovery _ | reset => true
  | _ => false

def requestNonce? : Operation → Option Nonce
  | startRequest nonce => some nonce
  | _ => none

def grant? : Operation → Option Grant
  | onQuery grant _ => some grant
  | _ => none

def isQuery : Operation → Bool
  | onQuery .. => true
  | _ => false

/-- What a relay sent, which may be refused. -/
def isAnswer : Operation → Bool
  | onAdvertisement .. | onQuery .. => true
  | _ => false

end Operation

/-- Whether an operation is done, and the handshake that it leaves. -/
def step (o : Operation) (h : Handshake) : Bool × Handshake :=
  match o with
  | .startDiscovery nonce => (true, (h.startDiscovery nonce).2)
  | .retryDiscovery limit => ((h.retryDiscovery limit).1.isSome, (h.retryDiscovery limit).2)
  | .onAdvertisement nonce relay =>
    match h.onAdvertisement nonce relay with
    | .ok g => (true, g)
    | .error _ => (false, h)
  | .startRequest nonce => ((h.startRequest nonce).1.isSome, (h.startRequest nonce).2)
  | .retryRequest limit =>
    match h.retryRequest limit with
    | (some (.resend _), g) => (true, g)
    | (_, g) => (false, g)
  | .onQuery grant interval =>
    match h.onQuery grant interval with
    | .ok (_, g) => (true, g)
    | .error _ => (false, h)
  | .reset => (true, h.reset)

/-- One more operation, which is entered into the log if it is done. -/
def advance (s : List Operation × Handshake) (o : Operation) : List Operation × Handshake :=
  (if (s.2.step o).1 then o :: s.1 else s.1, (s.2.step o).2)

/-- The log of the operations that were done, the latest first, and the handshake that
they made of a fresh one. -/
def run (family : Family) (defaultInterval : Nat) (operations : List Operation) :
    List Operation × Handshake :=
  operations.foldl advance ([], { family, defaultInterval })

/-! ## What a log tells -/

/-- What was done since the latest restart. -/
def current (log : List Operation) : List Operation := log.takeWhile fun o => !o.restarts

/-- The nonce of the latest request since the restart. -/
def request? (log : List Operation) : Option Nonce :=
  (current log).findSome? Operation.requestNonce?

/-- The grant of the latest query that was accepted since the restart. -/
def grant? (log : List Operation) : Option Grant := (current log).findSome? Operation.grant?

/-- The nonce of the latest discovery, unless an advertisement was accepted since. -/
def outstanding? : List Operation → Option Nonce
  | [] => none
  | .startDiscovery nonce :: _ => some nonce
  | .onAdvertisement .. :: _ => none
  | _ :: log => outstanding? log

section Logs

variable {o : Operation} {log : List Operation}

theorem current_cons_of_restarts (h : o.restarts = true) : current (o :: log) = [] :=
  List.takeWhile_cons_of_neg (by simp [h])

theorem current_cons_of_not_restarts (h : o.restarts = false) :
    current (o :: log) = o :: current log :=
  List.takeWhile_cons_of_pos (by simp [h])

theorem request?_of_restarts (h : o.restarts = true) : request? (o :: log) = none := by
  rw [request?, current_cons_of_restarts h]
  rfl

theorem grant?_of_restarts (h : o.restarts = true) : grant? (o :: log) = none := by
  rw [grant?, current_cons_of_restarts h]
  rfl

theorem request?_cons (h : o.restarts = false) :
    request? (o :: log) = o.requestNonce?.or (request? log) := by
  rw [request?, current_cons_of_not_restarts h, List.findSome?_cons]
  cases o.requestNonce? <;> rfl

theorem grant?_cons (h : o.restarts = false) :
    grant? (o :: log) = o.grant?.or (grant? log) := by
  rw [grant?, current_cons_of_not_restarts h, List.findSome?_cons]
  cases o.grant? <;> rfl

/-- Queries are what grants come from. -/
theorem isSome_grant? (log : List Operation) :
    (grant? log).isSome = (current log).any Operation.isQuery := by
  unfold grant?
  induction current log with
  | nil => rfl
  | cons o log ih =>
    rw [List.findSome?_cons, List.any_cons, ← ih]
    cases o <;> rfl

end Logs

/-! ## The invariant -/

/-- What the handshake holds is what the log tells. -/
structure Recalls (log : List Operation) (h : Handshake) : Prop where
  disconnected : h.phase = .disconnected → h = h.reset
  discovering : h.phase = .discovering → h.grant = none ∧ h.requestNonce = none ∧
    h.discoveryNonce = outstanding? log
  asked : h.phase = .requesting ∨ h.phase = .established →
    h.relay.isSome = true ∧ h.requestNonce.isSome = true
  established : h.phase = .established → ∃ grant, h.grant = some grant ∧
    h.requestNonce = some grant.nonce
  request : h.requestNonce = request? log
  grant : h.grant = grant? log

variable {log : List Operation} {h g : Handshake}

theorem recalls_of_disconnected (hg : g = g.reset) (hr : request? log = none)
    (hq : grant? log = none) : Recalls log g := by
  have hp : g.phase = .disconnected := by rw [hg]; rfl
  constructor
  · intro _
    exact hg
  · intro h
    cases hp.symm.trans h
  · rintro (h | h)
    · cases hp.symm.trans h
    · cases hp.symm.trans h
  · intro h
    cases hp.symm.trans h
  · rw [hr, hg]
    rfl
  · rw [hq, hg]
    rfl

theorem Recalls.startDiscovery (nonce : Nonce) (h : Handshake) (log : List Operation) :
    Recalls (.startDiscovery nonce :: log) (h.startDiscovery nonce).2 := by
  constructor
  · intro hp
    cases hp
  · intro _
    exact ⟨rfl, rfl, rfl⟩
  · rintro (hp | hp)
    · cases hp
    · cases hp
  · intro hp
    cases hp
  · exact (request?_of_restarts rfl).symm
  · exact (grant?_of_restarts rfl).symm

/-- A discovery that is given up was all that there was since the restart. -/
theorem Recalls.giveUp (hr : Recalls log h) (hp : h.phase = .discovering) :
    Recalls log h.reset := by
  obtain ⟨hgrant, hrequest, -⟩ := hr.discovering hp
  apply recalls_of_disconnected rfl
  · rw [← hr.request, hrequest]
  · rw [← hr.grant, hgrant]

/-- What only repeats a message changes what is counted alone. -/
theorem Recalls.repeated (hr : Recalls log h) {o : Operation} (hp : h.phase ≠ .disconnected)
    (hrestarts : o.restarts = false) (hnonce : o.requestNonce? = none) (hgrant : o.grant? = none)
    (ho : outstanding? (o :: log) = outstanding? log)
    (discoveryAttempts requestAttempts : UInt32) :
    Recalls (o :: log) { h with discoveryAttempts, requestAttempts } := by
  refine ⟨fun hp' => absurd hp' hp, ?_, hr.asked, hr.established, ?_, ?_⟩
  · rw [ho]
    exact hr.discovering
  · rw [request?_cons hrestarts, hnonce]
    exact hr.request
  · rw [grant?_cons hrestarts, hgrant]
    exact hr.grant

/-- An accepted advertisement leaves the discovery without a nonce. -/
theorem Recalls.onAdvertisement (hr : Recalls log h) (hp : h.phase = .discovering)
    (nonce : Nonce) (relay : Address) :
    Recalls (.onAdvertisement nonce relay :: log)
      { h with relay := some relay, discoveryNonce := none, discoveryAttempts := 0 } := by
  obtain ⟨hgrant, hrequest, -⟩ := hr.discovering hp
  refine ⟨fun hp' => ?_, fun _ => ⟨hgrant, hrequest, rfl⟩, fun hp' => ⟨rfl, (hr.asked hp').2⟩,
    hr.established, ?_, ?_⟩
  · cases hp.symm.trans hp'
  · rw [request?_cons rfl]
    exact hr.request
  · rw [grant?_cons rfl]
    exact hr.grant

theorem Recalls.startRequest (hr : Recalls log h) (hcan : h.canRequest = true) (nonce : Nonce) :
    Recalls (.startRequest nonce :: log)
      { h with phase := .requesting, requestNonce := some nonce, requestAttempts := 1 } := by
  have hrelay : h.relay.isSome = true := by
    cases hp : h.phase with
    | disconnected => simp [canRequest, hp] at hcan
    | discovering => simpa [canRequest, hp] using hcan
    | requesting => exact (hr.asked (.inl hp)).1
    | established => exact (hr.asked (.inr hp)).1
  constructor
  · intro hp
    cases hp
  · intro hp
    cases hp
  · intro _
    exact ⟨hrelay, rfl⟩
  · intro hp
    cases hp
  · rw [request?_cons rfl]
    rfl
  · rw [grant?_cons rfl]
    exact hr.grant

/-- While a request or a session lasts there is a nonce to compare with. -/
theorem Recalls.requestNonce_eq_some (hr : Recalls log h) {nonce : Nonce}
    (hp : h.phase = .requesting ∨ h.phase = .established) :
    nonce = h.requestNonce.getD 0 ↔ h.requestNonce = some nonce := by
  obtain ⟨expected, he⟩ := Option.isSome_iff_exists.mp (hr.asked hp).2
  rw [he, Option.getD_some, Option.some_inj, eq_comm]

/-- An accepted query establishes a session under the nonce of the latest request. -/
theorem Recalls.onQuery (hr : Recalls log h) {grant : Grant}
    (hp : h.phase = .requesting ∨ h.phase = .established)
    (hn : h.requestNonce = some grant.nonce) (interval : Option Nat) (queryInterval : Nat) :
    Recalls (.onQuery grant interval :: log)
      { h with grant := some grant, queryInterval, requestAttempts := 0, phase := .established } := by
  constructor
  · intro hp
    cases hp
  · intro hp
    cases hp
  · intro _
    exact hr.asked hp
  · intro _
    exact ⟨grant, rfl, hn⟩
  · rw [request?_cons rfl]
    exact hr.request
  · rw [grant?_cons rfl]
    rfl

/-! ## What is accepted -/

theorem isOk_onAdvertisement {nonce : Nonce} {relay : Address} :
    (h.onAdvertisement nonce relay).isOk = true ↔
      h.phase = .discovering ∧ nonce = h.discoveryNonce.getD 0 := by
  cases e : h.onAdvertisement nonce relay with
  | ok g =>
    obtain ⟨hp, hn, -⟩ := onAdvertisement_eq_ok.mp e
    exact iff_of_true rfl ⟨hp, hn⟩
  | error fault =>
    refine iff_of_false Bool.noConfusion ?_
    rintro ⟨hp, hn⟩
    cases e.symm.trans (onAdvertisement_eq_ok.mpr ⟨hp, hn, rfl⟩)

theorem isOk_onQuery {grant : Grant} {interval : Option Nat} :
    (h.onQuery grant interval).isOk = true ↔
      (h.phase = .requesting ∨ h.phase = .established) ∧
        grant.nonce = h.requestNonce.getD 0 := by
  cases e : h.onQuery grant interval with
  | ok r =>
    obtain ⟨hp, hn, -⟩ := onQuery_eq_ok.mp e
    exact iff_of_true rfl ⟨hp, hn⟩
  | error fault =>
    refine iff_of_false Bool.noConfusion ?_
    rintro ⟨hp, hn⟩
    cases e.symm.trans (onQuery_eq_ok.mpr ⟨hp, hn, rfl, rfl⟩)

/-- The query that is accepted while the invariant holds is the one that answers the
latest request. -/
theorem Recalls.isOk_onQuery (hr : Recalls log h) {grant : Grant} {interval : Option Nat} :
    (h.onQuery grant interval).isOk = true ↔
      (h.phase = .requesting ∨ h.phase = .established) ∧ request? log = some grant.nonce := by
  rw [Handshake.isOk_onQuery, ← hr.request]
  exact and_congr_right hr.requestNonce_eq_some

/-- An answer that is refused changes nothing. -/
theorem step_of_refused (ho : o.isAnswer = true) (e : (h.step o).1 = false) :
    (h.step o).2 = h := by
  cases o with
  | onAdvertisement nonce relay =>
    simp only [step] at e ⊢
    split
    · next g heq =>
      rw [heq] at e
      cases e
    · rfl
  | onQuery grant interval =>
    simp only [step] at e ⊢
    split
    · next stale g heq =>
      rw [heq] at e
      cases e
    · rfl
  | _ => cases ho

/-! ## Runs -/

theorem advance_of_done (e : h.step o = (true, g)) : advance (log, h) o = (o :: log, g) := by
  simp [advance, e]

theorem advance_of_refused (e : h.step o = (false, g)) : advance (log, h) o = (log, g) := by
  simp [advance, e]

theorem Recalls.advance (hr : Recalls log h) (o : Operation) :
    Recalls (advance (log, h) o).1 (advance (log, h) o).2 := by
  cases o with
  | startDiscovery nonce =>
    rw [advance_of_done rfl]
    exact .startDiscovery nonce h log
  | retryDiscovery limit =>
    rcases e : h.retryDiscovery limit with ⟨_ | message, g⟩
    · rw [advance_of_refused (g := g) (by rw [step, e]; rfl)]
      obtain rfl | ⟨hp, rfl⟩ := retryDiscovery_none e
      · exact hr
      · exact hr.giveUp hp
    · rw [advance_of_done (g := g) (by rw [step, e]; rfl)]
      obtain ⟨nonce, -, hp, -⟩ := retryDiscovery_some e
      obtain rfl := retryDiscovery_some_eq e
      exact hr.repeated (fun hp' => Phase.noConfusion (hp.symm.trans hp')) rfl rfl rfl rfl _ _
  | onAdvertisement nonce relay =>
    cases e : h.onAdvertisement nonce relay with
    | error fault =>
      rw [advance_of_refused (g := h) (by simp only [step, e])]
      exact hr
    | ok g =>
      rw [advance_of_done (g := g) (by simp only [step, e])]
      obtain ⟨hp, -, rfl⟩ := onAdvertisement_eq_ok.mp e
      exact hr.onAdvertisement hp nonce relay
  | startRequest nonce =>
    by_cases hcan : h.canRequest = true
    · rw [advance_of_done (by simp only [step, Handshake.startRequest, if_pos hcan]; rfl)]
      exact hr.startRequest hcan nonce
    · rw [advance_of_refused (by simp only [step, Handshake.startRequest, if_neg hcan]; rfl)]
      exact hr
  | retryRequest limit =>
    rcases e : h.retryRequest limit with ⟨_ | retry, g⟩
    · rw [advance_of_refused (g := g) (by simp only [step, e]), retryRequest_none e]
      exact hr
    · cases retry with
      | exhausted =>
        rw [advance_of_refused (g := g) (by simp only [step, e]), retryRequest_exhausted e]
        exact hr
      | resend message =>
        rw [advance_of_done (g := g) (by simp only [step, e])]
        obtain ⟨nonce, -, hp, -⟩ := retryRequest_resend e
        obtain rfl := retryRequest_resend_eq e
        exact hr.repeated (fun hp' => Phase.noConfusion (hp.symm.trans hp')) rfl rfl rfl rfl _ _
  | onQuery grant interval =>
    cases e : h.onQuery grant interval with
    | error fault =>
      rw [advance_of_refused (g := h) (by simp only [step, e])]
      exact hr
    | ok r =>
      obtain ⟨stale, g⟩ := r
      rw [advance_of_done (g := g) (by simp only [step, e])]
      obtain ⟨hp, hn, -, rfl⟩ := onQuery_eq_ok.mp e
      exact hr.onQuery hp ((hr.requestNonce_eq_some hp).mp hn) interval _
  | reset =>
    rw [advance_of_done rfl]
    exact recalls_of_disconnected rfl (request?_of_restarts rfl) (grant?_of_restarts rfl)

/-- What has held of a fresh handshake, and is kept by each operation, holds after
every run. -/
theorem run_induction {P : List Operation → Handshake → Prop} (family : Family)
    (defaultInterval : Nat) (fresh : P [] { family, defaultInterval })
    (kept : ∀ log h o, P log h → P (advance (log, h) o).1 (advance (log, h) o).2)
    (operations : List Operation) :
    P (run family defaultInterval operations).1 (run family defaultInterval operations).2 := by
  induction operations using List.reverseRecOn with
  | nil => exact fresh
  | append_singleton operations o ih =>
    rw [run, List.foldl_append]
    exact kept _ _ o ih

theorem recalls_run (family : Family) (defaultInterval : Nat) (operations : List Operation) :
    Recalls (run family defaultInterval operations).1
      (run family defaultInterval operations).2 :=
  run_induction family defaultInterval (recalls_of_disconnected rfl rfl rfl)
    (fun _ _ o hr => hr.advance o) operations

/-- What each phase implies of the rest of a handshake, and what it accepts. -/
structure Coherent (log : List Operation) (h : Handshake) : Prop where
  disconnected : h.phase = .disconnected →
    h.relay = none ∧ h.discoveryNonce = none ∧ h.discoveryAttempts = 0 ∧
      h.requestNonce = none ∧ h.requestAttempts = 0 ∧ h.grant = none
  discovering : h.phase = .discovering → h.grant = none ∧ h.requestNonce = none
  asked : h.phase = .requesting ∨ h.phase = .established →
    h.relay.isSome = true ∧ h.requestNonce.isSome = true
  established : h.phase = .established → ∃ grant, h.grant = some grant ∧
    h.requestNonce = some grant.nonce
  /-- Updates can be sent as soon as a query was accepted, and until the next restart. -/
  canSend : h.canSend = (current log).any Operation.isQuery
  /-- Accepted is what answers the latest request. -/
  query : ∀ grant interval, (h.onQuery grant interval).isOk = true ↔
    (h.phase = .requesting ∨ h.phase = .established) ∧ request? log = some grant.nonce
  refused : ∀ o, o.isAnswer = true → (h.step o).1 = false → (h.step o).2 = h

theorem Recalls.coherent (hr : Recalls log h) : Coherent log h where
  disconnected hp := by
    rw [hr.disconnected hp]
    exact ⟨rfl, rfl, rfl, rfl, rfl, rfl⟩
  discovering hp := ⟨(hr.discovering hp).1, (hr.discovering hp).2.1⟩
  asked := hr.asked
  established := hr.established
  canSend := by rw [Handshake.canSend, hr.grant, isSome_grant?]
  query _ _ := hr.isOk_onQuery
  refused _ := step_of_refused

/-- Whatever is asked of a handshake, in any order and with any arguments, its fields agree
with its phase, updates can be sent just while an accepted query stands, and a query is
accepted just if it answers the latest request of the discovery. -/
theorem run_coherent (family : Family) (defaultInterval : Nat) (operations : List Operation) :
    Coherent (run family defaultInterval operations).1
      (run family defaultInterval operations).2 :=
  (recalls_run family defaultInterval operations).coherent

end MulticastTunnel.Handshake
