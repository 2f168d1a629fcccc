import Mathlib.Tactic.Common
import MulticastTunnel.Handshake

/-!
# What becomes of a handshake

One lemma or two for each operation of a handshake: when it does what it is asked
for, with which message, and what the handshake is then. An operation that is out of
place leaves the handshake alone, except that a discovery which was repeated often
enough is given up.
-/

namespace MulticastTunnel.Handshake

variable {h g : Handshake}

/-! ## Discoveries -/

/-- A discovery that is not repeated leaves the handshake as it was, or given up. -/
theorem retryDiscovery_none {limit : Option UInt32} (e : h.retryDiscovery limit = (none, g)) :
    g = h ∨ h.phase = .discovering ∧ g = h.reset := by
  simp only [retryDiscovery] at e
  split at e
  · rename_i nonce hp hn
    split at e
    · exact .inr ⟨hp, (Prod.mk.inj e).2.symm⟩
    · cases e
  · exact .inl (Prod.mk.inj e).2.symm

/-- A discovery is repeated under the outstanding nonce. -/
theorem retryDiscovery_some {limit : Option UInt32} {message : Message}
    (e : h.retryDiscovery limit = (some message, g)) :
    ∃ nonce, message = .relayDiscovery nonce ∧ g.phase = .discovering ∧
      g.discoveryNonce = some nonce := by
  simp only [retryDiscovery] at e
  split at e
  · rename_i nonce hp hn
    split at e
    · cases e
    · cases e
      exact ⟨nonce, rfl, hp, hn⟩
  · cases e

/-- Repeating a discovery counts it, and changes nothing else. -/
theorem retryDiscovery_some_eq {limit : Option UInt32} {message : Message}
    (e : h.retryDiscovery limit = (some message, g)) :
    g = { h with discoveryAttempts := h.discoveryAttempts + 1 } := by
  simp only [retryDiscovery] at e
  split at e
  · split at e
    · cases e
    · exact (Prod.mk.inj e).2.symm
  · cases e

/-- An outstanding discovery that is not repeated is given up. -/
theorem retryDiscovery_give_up {limit : Option UInt32} {nonce : Nonce}
    (hp : h.phase = .discovering) (hn : h.discoveryNonce = some nonce)
    (e : h.retryDiscovery limit = (none, g)) : g = h.reset := by
  simp only [retryDiscovery, hp, hn] at e
  split at e
  · exact (Prod.mk.inj e).2.symm
  · cases e

/-- An advertisement is accepted for the outstanding discovery, which it ends. -/
theorem onAdvertisement_eq_ok {nonce : Nonce} {relay : Address} :
    h.onAdvertisement nonce relay = .ok g ↔
      h.phase = .discovering ∧ nonce = h.discoveryNonce.getD 0 ∧
        g = { h with relay := some relay, discoveryNonce := none, discoveryAttempts := 0 } := by
  simp only [onAdvertisement]
  by_cases hp : h.phase = .discovering
  · by_cases hn : nonce = h.discoveryNonce.getD 0 <;> simp [hp, hn, eq_comm]
  · simp [hp]

/-! ## Requests -/

theorem phase_startRequest (h : g.canRequest = true) (nonce : Nonce) :
    (g.startRequest nonce).2.phase = .requesting := by
  unfold startRequest
  rw [if_pos h]

/-- Once an advertisement was accepted there is a relay to ask. -/
theorem canRequest_of_onAdvertisement {nonce : Nonce} {relay : Address}
    (e : h.onAdvertisement nonce relay = .ok g) : g.canRequest = true := by
  obtain ⟨hp, -, rfl⟩ := onAdvertisement_eq_ok.mp e
  simp [canRequest, hp]

theorem canRequest_of_established (h : g.phase = .established) : g.canRequest = true := by
  simp [canRequest, h]

theorem reset_startRequest (h : Handshake) (nonce : Nonce) :
    (h.startRequest nonce).2.reset = h.reset := by
  unfold startRequest
  split <;> rfl

theorem retryRequest_none {limit : UInt32} (e : h.retryRequest limit = (none, g)) : g = h := by
  simp only [retryRequest] at e
  split at e
  · split at e <;> cases e
  · exact (Prod.mk.inj e).2.symm

/-- An outstanding request is repeated, or it is exhausted. -/
theorem retryRequest_ne_none {limit : UInt32} {nonce : Nonce} (hp : h.phase = .requesting)
    (hn : h.requestNonce = some nonce) : h.retryRequest limit ≠ (none, g) := by
  simp only [retryRequest, hp, hn]
  split <;> simp

/-- A request that is repeated no more leaves the handshake as it was. -/
theorem retryRequest_exhausted {limit : UInt32}
    (e : h.retryRequest limit = (some .exhausted, g)) : g = h := by
  simp only [retryRequest] at e
  split at e
  · split at e
    · exact (Prod.mk.inj e).2.symm
    · cases e
  · cases e

/-- A request is repeated under the outstanding nonce. -/
theorem retryRequest_resend {limit : UInt32} {message : Message}
    (e : h.retryRequest limit = (some (.resend message), g)) :
    ∃ nonce, message = .request nonce h.family ∧ g.phase = .requesting ∧
      g.requestNonce = some nonce := by
  simp only [retryRequest] at e
  split at e
  · rename_i nonce hp hn
    split at e
    · cases e
    · cases e
      exact ⟨nonce, rfl, hp, hn⟩
  · cases e

/-- Repeating a request counts it, and changes nothing else. -/
theorem retryRequest_resend_eq {limit : UInt32} {message : Message}
    (e : h.retryRequest limit = (some (.resend message), g)) :
    g = { h with requestAttempts := h.requestAttempts + 1 } := by
  simp only [retryRequest] at e
  split at e
  · split at e
    · cases e
    · exact (Prod.mk.inj e).2.symm
  · cases e

/-- A query is accepted for the outstanding request. -/
theorem onQuery_eq_ok {grant : Grant} {interval : Option Nat} {stale : Option Grant} :
    h.onQuery grant interval = .ok (stale, g) ↔
      (h.phase = .requesting ∨ h.phase = .established) ∧
        grant.nonce = h.requestNonce.getD 0 ∧ stale = h.staleGrant grant ∧
        g = { h with
          grant := some grant
          queryInterval := (interval.filter (· ≠ 0)).getD h.defaultInterval
          requestAttempts := 0
          phase := .established } := by
  simp only [onQuery]
  by_cases hp : h.phase = .requesting ∨ h.phase = .established
  · rw [if_neg (not_not.mpr hp)]
    by_cases hn : grant.nonce = h.requestNonce.getD 0
    · rw [if_neg (not_not.mpr hn), Except.ok.injEq, Prod.mk.injEq, eq_comm, @eq_comm _ _ g]
      exact ⟨fun e => ⟨hp, hn, e⟩, fun e => e.2.2⟩
    · rw [if_pos hn]
      exact iff_of_false (by simp) fun e => hn e.2.1
  · rw [if_pos hp]
    exact iff_of_false (by simp) fun e => hp e.1

end MulticastTunnel.Handshake
