import MulticastTunnel.Proofs.Membership.Outlets
import MulticastTunnel.Proofs.Tunnel.Waiting

/-!
# Sessions

A query that a tunnel accepts establishes a session: reports are sent under its grant
until the relay is lost. A session ends unless another query is requested in time. The
keepalive timer sees to that, and only a report that leaves something to receive starts
it. Once it is pending, all that happens keeps the session `Refreshed`, with one
exception: a query is accepted after the timer ran out, and nothing was reported since.
-/

namespace MulticastTunnel

open MulticastTunnel.Membership

namespace Tunnel

variable {key : InterfaceKey} {settings : TunnelSettings} {t u : Tunnel} {w : World}
  {input : Input} {answer : Option Message} {events : List Event}

/-! ## Grants -/

/-- Every course to an established session leaves it with a grant. -/
theorem granted_of_course (hc : Course input t w answer events u)
    (h : t.phase = .established → t.handshake.grant.isSome = true)
    (hp : u.phase = .established) : u.handshake.grant.isSome = true := by
  cases hc with
  | rest stats running _ => exact h hp
  | seek _ _ _ _ _ _ _ _ _ => cases hp
  | report packet failed keepaliveTimer stats _ hg => exact h hp
  | turn request failed serial stats hadv =>
    have hcan := Handshake.canRequest_of_onAdvertisement hadv
    cases (Handshake.phase_startRequest hcan request).symm.trans hp
  | establish events stats hq _ =>
    obtain ⟨-, -, -, rfl⟩ := Handshake.onQuery_eq_ok.mp hq
    rfl
  | renew nonce failed serial stats _ he =>
    have hcan := Handshake.canRequest_of_established he
    cases (Handshake.phase_startRequest hcan nonce).symm.trans hp
  | repeatRequest failed serial stats _ hr =>
    obtain rfl := Handshake.retryRequest_resend_eq hr
    exact h hp
  | repeatDiscovery failed serial stats hi hr =>
    obtain rfl := Handshake.retryDiscovery_some_eq hr
    exact h hp
  | giveUp hi hr =>
    rcases Handshake.retryDiscovery_none hr with rfl | ⟨-, rfl⟩
    · exact h hp
    · cases hp
  | lapse alarm _ _ _ => exact h hp
  | close _ =>
    unfold close at hp ⊢
    split at hp
    · next hc =>
      rw [if_pos hc]
      exact h hp
    · cases hp

/-- A session is established by a grant, and holds it. -/
theorem Reachable.granted (h : Reachable key settings t w) (hp : t.phase = .established) :
    t.handshake.grant.isSome = true := by
  induction h with
  | created w => cases hp
  | elapse _ _ ih => exact ih hp
  | @step t w input hr hin ih =>
    obtain ⟨events, -, hc⟩ := takes_step input t w
    exact granted_of_course hc ih hp

/-- A query that is accepted establishes the session, and is told. -/
theorem onQuery_cases (grant : Grant) (packet : Packet) (t : Tunnel) (w : World) :
    t.onQuery grant packet w = (none, t.drop, w) ∨
    ∃ q stale h, Query.ofPacket packet = .ok q ∧
      t.handshake.onQuery grant (some q.queryInterval) = .ok (stale, h) ∧
      t.onQuery grant packet w =
        (some (.query q),
          { t with
            handshake := h
            requestTimer := none
            stats := { t.stats with queries := t.stats.queries + 1 } }.tearDown stale w) := by
  unfold onQuery
  split
  · exact .inl rfl
  next q hq =>
  split
  · exact .inl rfl
  split
  · exact .inl rfl
  next stale h hh => exact .inr ⟨q, stale, h, hq, hh, rfl⟩

/-- A tunnel and a world to which the acceptance of a query led: reports are sent under its
grant from now on, and at most the teardown of the grant before was sent. -/
structure Grants (grant : Grant) (t : Tunnel) (w : World) (s : Tunnel × World) : Prop where
  established : s.1.phase = .established
  opened : s.1.closed = false
  key : s.1.key = t.key
  grant : s.1.handshake.grant = some grant
  teardown : s.2 = w ∨ ∃ mac nonce address,
    s.2 = (w.send t.key (.teardown mac nonce address)).2

section Grants

variable {grant : Grant} {s : Tunnel × World}

theorem Grants.oracle_eq (h : Grants grant t w s) : s.2.oracle = w.oracle := by
  rcases h.teardown with he | ⟨mac, nonce, address, he⟩
  · rw [he]
  · rw [he]
    rfl

theorem Grants.suffix (h : Grants grant t w s) : w.trace <:+ s.2.trace := by
  rcases h.teardown with he | ⟨mac, nonce, address, he⟩
  · simp only [he, List.suffix_refl]
  · rw [he]
    exact List.suffix_cons _ _

end Grants

theorem handle_query {b : Bytes} {limited : Bool} {mac : Mac} {nonce : Nonce} {packet : Packet}
    {gateway : Option SocketAddress} {q : Query} (ht : t.Timed)
    (hdecode : Message.decode b = .ok (.membershipQuery limited mac nonce packet gateway))
    (haccepted : (t.handle b w).1 = some (.query q)) :
    Grants ⟨mac, nonce, gateway, limited⟩ t w (t.handle b w).2 := by
  have hhandle : t.handle b w = t.onQuery ⟨mac, nonce, gateway, limited⟩ packet w := by
    simp only [handle, hdecode]
  rw [hhandle] at haccepted ⊢
  rcases onQuery_cases ⟨mac, nonce, gateway, limited⟩ packet t w with
    heq | ⟨q', stale, h, -, hq, heq⟩
  · rw [heq] at haccepted
    cases haccepted
  · obtain ⟨hp, -, -, rfl⟩ := Handshake.onQuery_eq_ok.mp hq
    have hopen : t.closed = false :=
      ht.not_closed (by rcases hp with hp | hp <;> simp [phase, hp])
    rw [heq]
    rcases tearDown_cases stale _ w with heq' | ⟨old, message, stats, -, hm, -, heq'⟩
    · rw [heq']
      exact ⟨rfl, hopen, rfl, rfl, .inl rfl⟩
    · rw [heq']
      obtain ⟨address, -, rfl⟩ := Option.map_eq_some_iff.mp hm
      exact ⟨rfl, hopen, rfl, rfl, .inr ⟨_, _, address, rfl⟩⟩

/-! ## Reports -/

/-- Under a grant, a report is sent unless the transport fails. -/
theorem send_granted {packet : Packet} {report : Report} {grant : Grant}
    (hopen : t.closed = false) (hfamily : packet.family = t.key.family)
    (hread : Report.ofPacket packet = .ok report) (hgrant : t.handshake.grant = some grant)
    (w : World) :
    let message := Message.membershipUpdate grant.mac grant.nonce packet
    (w.oracle.send t.key w.trace = none ∧ (t.send packet w).1 = .ok .sent ∧
      (t.send packet w).2.2.trace = .sent t.key message false :: w.trace) ∨
    ∃ e, w.oracle.send t.key w.trace = some e ∧
      (e.isUnreachable = true ∧ (t.send packet w).1 = .error .unreachable ∨
        e.isUnreachable = false ∧
          t.send packet w = (.error (.socket e), t, (w.send t.key message).2)) := by
  intro message
  unfold Tunnel.send
  rw [if_neg (by simp [hopen]), if_neg (not_not.mpr hfamily), hread]
  simp only [Handshake.update, hgrant, Option.map_some]
  split
  · next e v hsend =>
    refine .inr ⟨e, congrArg Prod.fst hsend, ?_⟩
    split
    · next he => exact .inl ⟨he, rfl⟩
    · next he => exact .inr ⟨by simpa using he, by rw [hsend]⟩
  · next v hsend =>
    have herror : w.oracle.send t.key w.trace = none := congrArg Prod.fst hsend
    have htrace : v.trace = .sent t.key message false :: w.trace := (World.trace_of_send hsend).1
    refine .inl ⟨herror, rfl, ?_⟩
    show (ite _ _ _ : Tunnel × World).2.trace = _
    split
    · obtain ⟨timer, v', heq, hv'⟩ := keepAlive_eq
        { t with stats := { t.stats with updates := t.stats.updates + 1 } } v
      rw [heq]
      exact hv'.trans htrace
    · exact htrace

/-! ## Renewal -/

/-- An established session will be renewed. -/
def Refreshed (t : Tunnel) : Prop := t.phase = .established → t.Pends .keepalive

theorem refreshed_of_not_established (h : t.phase ≠ .established) : t.Refreshed :=
  fun hp => absurd hp h

theorem refreshed_of_discovering (h : t.phase = .discovering) : t.Refreshed := by
  intro hp
  cases h.symm.trans hp

theorem Refreshed.congr (h : t.Refreshed) (hp : u.phase = t.phase)
    (hk : u.keepaliveTimer = t.keepaliveTimer) : u.Refreshed := by
  intro hu
  rw [pends_keepalive, hk, ← pends_keepalive]
  exact h (hp ▸ hu)

theorem refreshed_beginDiscovery (t : Tunnel) (w : World) : (t.beginDiscovery w).1.Refreshed :=
  refreshed_of_discovering rfl

theorem refreshed_keepAlive (t : Tunnel) (w : World) : (t.keepAlive w).1.Refreshed := by
  intro _
  rw [pends_keepalive]
  unfold keepAlive
  split
  · assumption
  · rfl

theorem Refreshed.refuse (h : t.Refreshed) (w : World) : (t.refuse w).1.Refreshed := by
  simp only [Tunnel.refuse]
  split
  · exact (refreshed_beginDiscovery t w).congr rfl rfl
  · exact h.congr rfl rfl

theorem Refreshed.send (h : t.Refreshed) (packet : Packet) (w : World) :
    (t.send packet w).2.1.Refreshed := by
  unfold Tunnel.send
  split
  · exact h
  split
  · exact h
  split
  · exact h
  split
  · exact h.refuse w
  split
  · split
    · exact refreshed_beginDiscovery t _
    · exact h
  · show (ite _ _ _ : Tunnel × World).1.Refreshed
    split
    · exact refreshed_keepAlive _ _
    · exact h.congr rfl rfl

/-- The keepalive timer stays pending whatever is reported. -/
theorem keeps_refreshed : outlet.Keeps fun s => s.1.Refreshed where
  send packet s h := h.send packet s.2
  serial _ h := h

/-- A report that leaves something to receive has the session renewed, unless the
transport fails otherwise than by not reaching the relay. -/
theorem refreshed_send {packet : Packet} {report : Report}
    (hgranted : t.phase = .established → t.handshake.grant.isSome = true)
    (hread : Report.ofPacket packet = .ok report) (hdescribes : report.describesReception = true)
    (hsent : ∀ e, (t.send packet w).1 = .error e → e = .unreachable) :
    (t.send packet w).2.1.Refreshed := by
  revert hsent
  unfold Tunnel.send
  split
  · intro hsent
    cases hsent _ rfl
  split
  · intro hsent
    cases hsent _ rfl
  rw [hread]
  cases hg : t.handshake.grant with
  | none =>
    have hp : t.phase ≠ .established := by
      intro hp
      have := hgranted hp
      rw [hg] at this
      cases this
    simp only [Handshake.update, hg, Option.map_none]
    intro _
    exact (refreshed_of_not_established hp).refuse w
  | some grant =>
    simp only [Handshake.update, hg, Option.map_some]
    split
    · split
      · intro _
        exact refreshed_beginDiscovery t _
      · intro hsent
        cases hsent _ rfl
    · intro _
      show (ite _ _ _ : Tunnel × World).1.Refreshed
      rw [if_pos hdescribes]
      exact refreshed_keepAlive _ _

/-- Sending reports, the keepalive timer and queries apart, whatever happens to a tunnel
leaves the keepalive timer of an established session alone. -/
theorem Refreshed.course (h : t.Refreshed) (hc : Course input t w answer events u)
    (hsend : ∀ packet, input ≠ .send packet) (hfire : input ≠ .fire .keepalive)
    (hquery : ∀ limited mac nonce packet gateway,
      answer ≠ some (.membershipQuery limited mac nonce packet gateway)) : u.Refreshed := by
  cases hc with
  | rest stats running _ => exact h.congr rfl rfl
  | seek _ _ _ _ _ _ _ _ _ => exact refreshed_of_discovering rfl
  | report packet _ _ _ hi _ => exact absurd hi (hsend packet)
  | turn request failed serial stats hadv =>
    have hcan := Handshake.canRequest_of_onAdvertisement hadv
    apply refreshed_of_not_established
    intro hp
    cases (Handshake.phase_startRequest hcan request).symm.trans hp
  | establish _ _ _ _ => exact absurd rfl (hquery _ _ _ _ _)
  | renew _ _ _ _ hi _ => exact absurd hi hfire
  | repeatRequest failed serial stats _ hr =>
    obtain rfl := Handshake.retryRequest_resend_eq hr
    exact h.congr rfl rfl
  | repeatDiscovery failed serial stats hi hr =>
    obtain rfl := Handshake.retryDiscovery_some_eq hr
    exact h.congr rfl rfl
  | giveUp hi hr =>
    rcases Handshake.retryDiscovery_none hr with rfl | ⟨-, rfl⟩
    · exact h.congr rfl rfl
    · intro hp
      cases hp
  | lapse alarm hi _ _ =>
    have hne : alarm ≠ .keepalive := fun he => hfire (he ▸ hi)
    exact h.congr rfl (if_neg hne)
  | close _ =>
    unfold close
    split
    · exact h
    · intro hp
      cases hp

/-- When the keepalive timer runs out, a session that was established asks for a query. -/
theorem phase_onKeepaliveTimer (ht : t.Timed) (w : World) :
    (t.onKeepaliveTimer w).1.phase ≠ .established := by
  simp only [onKeepaliveTimer]
  split
  · next hidle =>
    rcases hidle with hc | hp
    · show t.phase ≠ .established
      rw [ht.closed hc]
      intro hp
      cases hp
    · exact hp
  · next hactive =>
    have hp : t.handshake.phase = .established := by
      by_contra hp
      exact hactive (.inr hp)
    have hcan := Handshake.canRequest_of_established hp
    obtain ⟨nonce, v, heq, -, -⟩ := beginRequest_eq (t := { t with keepaliveTimer := none }) hcan w
    rw [heq]
    rcases sendRequest_cases (.request nonce t.handshake.family)
      { t with
        keepaliveTimer := none
        handshake := (t.handshake.startRequest nonce).2 } v with
      ⟨v', heq', -, -⟩ | ⟨failed, serial, stats, v', heq', -⟩
    · rw [heq']
      intro hp'
      cases hp'
    · rw [heq']
      intro hp'
      cases (Handshake.phase_startRequest hcan nonce).symm.trans hp'

theorem Refreshed.fire (h : t.Refreshed) (ht : t.Timed) (alarm : Alarm) (w : World) :
    (t.fire alarm w).1.Refreshed := by
  cases alarm with
  | keepalive => exact refreshed_of_not_established (phase_onKeepaliveTimer ht w)
  | discovery =>
    obtain ⟨events, -, hc⟩ := takes_onDiscoveryTimer t w
    exact h.course hc (by simp) (by simp) (by simp)
  | request =>
    obtain ⟨events, -, hc⟩ := takes_onRequestTimer t w
    exact h.course hc (by simp) (by simp) (by simp)

/-- What is received leaves a session refreshed, unless it is a query. -/
theorem Refreshed.receive (h : t.Refreshed) (received : Except SocketError Bytes) (w : World)
    (hquery : ∀ q, (t.receive received w).1 ≠ some (.query q)) :
    (t.receive received w).2.1.Refreshed := by
  have hdrop : t.drop.Refreshed := h.congr rfl rfl
  cases received with
  | error e =>
    obtain ⟨events, -, hc⟩ := takes_receive (.error e) t w
    exact h.course hc (by simp) (by simp) (by simp [answer?])
  | ok b =>
    revert hquery
    show (∀ q, (t.handle b w).1 ≠ some (.query q)) → (t.handle b w).2.1.Refreshed
    unfold handle
    split
    · intro _
      exact hdrop
    · next nonce relay _ =>
      intro _
      rcases takes_onAdvertisement (.ok b) nonce relay t w with heq | ⟨⟨events, -, hc⟩, -⟩
      · rw [heq]
        exact hdrop
      · exact h.course hc (by simp) (by simp) (by simp)
    · next limited mac nonce packet gateway _ =>
      intro hquery
      rcases onQuery_cases ⟨mac, nonce, gateway, limited⟩ packet t w with
        heq | ⟨q, stale, h, -, -, heq⟩
      · rw [heq]
        exact hdrop
      · rw [heq] at hquery
        exact absurd rfl (hquery q)
    · intro _
      exact h.congr rfl rfl
    · intro _
      exact hdrop

end Tunnel

end MulticastTunnel
