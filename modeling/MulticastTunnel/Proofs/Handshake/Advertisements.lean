import MulticastTunnel.Proofs.Handshake.Run

/-!
# Which advertisements a handshake accepts

A discovery accepts the advertisement that carries its nonce. That one clears the nonce but
not the phase, and where no nonce is expected one that carries zero is taken for the answer:
until the request is sent, or for ever where none is, each advertisement with the nonce zero
is accepted and names another relay. No other nonce is accepted twice.
-/

namespace MulticastTunnel.Handshake

namespace Operation

def discovers : Operation → Bool
  | startDiscovery _ => true
  | _ => false

/-- An advertisement that tells its nonce apart from none. -/
def isNumbered : Operation → Bool
  | onAdvertisement nonce _ => nonce ≠ 0
  | _ => false

end Operation

/-- How many numbered advertisements were accepted since the latest discovery started. -/
def numbered (log : List Operation) : Nat :=
  (log.takeWhile fun o => !o.discovers).countP Operation.isNumbered

section Logs

variable {o : Operation} {log : List Operation}

theorem numbered_of_discovers (h : o.discovers = true) : numbered (o :: log) = 0 := by
  rw [numbered, List.takeWhile_cons_of_neg (by simp [h])]
  rfl

theorem numbered_cons (h : o.discovers = false) :
    numbered (o :: log) = numbered log + if o.isNumbered then 1 else 0 := by
  rw [numbered, List.takeWhile_cons_of_pos (by simp [h]), List.countP_cons]
  rfl

theorem numbered_cons_of_not_numbered (hd : o.discovers = false) (hn : o.isNumbered = false) :
    numbered (o :: log) = numbered log := by
  rw [numbered_cons hd, if_neg (by simp [hn]), Nat.add_zero]

end Logs

variable {log : List Operation} {h : Handshake}

/-- In terms of the log: the answer to the outstanding discovery, or where there is none
the nonce zero. -/
theorem Recalls.isOk_onAdvertisement (hr : Recalls log h) {nonce : Nonce} {relay : Address} :
    (h.onAdvertisement nonce relay).isOk = true ↔ h.phase = .discovering ∧
      (outstanding? log = some nonce ∨ outstanding? log = none ∧ nonce = 0) := by
  rw [Handshake.isOk_onAdvertisement]
  apply and_congr_right
  intro hp
  rw [(hr.discovering hp).2.2]
  cases outstanding? log with
  | none => simp
  | some expected => simp [eq_comm]

/-- No numbered advertisement was accepted while the discovery is outstanding, and one at
most since it started. -/
structure Fenced (log : List Operation) : Prop where
  unanswered : outstanding? log ≠ none → numbered log = 0
  once : numbered log ≤ 1

/-- What neither starts a discovery nor answers one leaves both as they are. -/
theorem Fenced.cons (hf : Fenced log) {o : Operation} (hd : o.discovers = false)
    (hn : o.isNumbered = false) (ho : outstanding? (o :: log) = outstanding? log) :
    Fenced (o :: log) := by
  constructor
  · intro h
    rw [numbered_cons_of_not_numbered hd hn]
    exact hf.unanswered (ho ▸ h)
  · rw [numbered_cons_of_not_numbered hd hn]
    exact hf.once

theorem Fenced.startDiscovery (nonce : Nonce) (log : List Operation) :
    Fenced (.startDiscovery nonce :: log) where
  unanswered _ := numbered_of_discovers rfl
  once := by
    rw [numbered_of_discovers rfl]
    exact Nat.zero_le 1

/-- The first numbered advertisement answers the discovery, and there is no second. -/
theorem Fenced.onAdvertisement (hf : Fenced log) {nonce : Nonce} (relay : Address)
    (ha : outstanding? log = some nonce ∨ outstanding? log = none ∧ nonce = 0) :
    Fenced (.onAdvertisement nonce relay :: log) := by
  refine ⟨fun h => absurd rfl h, ?_⟩
  obtain ha | ⟨-, rfl⟩ := ha
  · have hzero : numbered log = 0 := hf.unanswered (by simp [ha])
    rw [numbered_cons rfl, hzero]
    split <;> omega
  · rw [numbered_cons_of_not_numbered rfl rfl]
    exact hf.once

theorem Fenced.advance (hf : Fenced log) (hr : Recalls log h) (o : Operation) :
    Fenced (advance (log, h) o).1 := by
  by_cases hdone : (h.step o).1 = true
  · have hlog : (Handshake.advance (log, h) o).1 = o :: log := if_pos hdone
    rw [hlog]
    cases o with
    | startDiscovery nonce => exact .startDiscovery nonce log
    | onAdvertisement nonce relay =>
      have hok : (h.onAdvertisement nonce relay).isOk = true := by
        simp only [step] at hdone
        split at hdone
        · next g heq =>
          rw [heq]
          rfl
        · cases hdone
      exact hf.onAdvertisement relay (hr.isOk_onAdvertisement.mp hok).2
    | _ => exact hf.cons rfl rfl rfl
  · have hlog : (Handshake.advance (log, h) o).1 = log := if_neg hdone
    rw [hlog]
    exact hf

/-- How advertisements are fenced, in a state that a run led to. -/
structure FencesAdvertisements (log : List Operation) (h : Handshake) : Prop where
  /-- Accepted is the answer to the outstanding discovery, and once that was answered
  whatever carries the nonce zero. -/
  accepts : ∀ nonce relay, (h.onAdvertisement nonce relay).isOk = true ↔
    h.phase = .discovering ∧
      (outstanding? log = some nonce ∨ outstanding? log = none ∧ nonce = 0)
  once : numbered log ≤ 1

/-- Whatever is asked of a handshake, in any order and with any arguments, an advertisement
with a nonce other than zero is accepted just if it answers the outstanding discovery, and
each discovery accepts at most one of them. -/
theorem run_fencesAdvertisements (family : Family) (defaultInterval : Nat)
    (operations : List Operation) :
    FencesAdvertisements (run family defaultInterval operations).1
      (run family defaultInterval operations).2 := by
  have hrun : Recalls (run family defaultInterval operations).1
        (run family defaultInterval operations).2 ∧
      Fenced (run family defaultInterval operations).1 := by
    refine run_induction (P := fun log h => Recalls log h ∧ Fenced log) family defaultInterval
      ⟨recalls_of_disconnected rfl rfl rfl, ⟨fun h => absurd rfl h, Nat.zero_le 1⟩⟩
      ?_ operations
    rintro log h o ⟨hr, hf⟩
    exact ⟨hr.advance o, hf.advance hr o⟩
  exact ⟨fun _ _ => hrun.1.isOk_onAdvertisement, hrun.2.once⟩

/-- A discovery that was answered takes another relay from an advertisement that carries the
nonce zero. -/
theorem not_fenced_of_zero_nonce :
    let first : Address := .v4 #v[198, 51, 100, 1]
    let second : Address := .v4 #v[203, 0, 113, 9]
    let s := run .ipv4 0 [.startDiscovery 7, .onAdvertisement 7 first]
    outstanding? s.1 = none ∧ s.2.relay = some first ∧
      (advance s (.onAdvertisement 0 second)).1 =
        [.onAdvertisement 0 second, .onAdvertisement 7 first, .startDiscovery 7] ∧
      (advance s (.onAdvertisement 0 second)).2.relay = some second := by
  decide

end MulticastTunnel.Handshake
