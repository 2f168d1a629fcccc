import MulticastTunnel.Proofs.Interface.Answering
import MulticastTunnel.Proofs.Membership.Describing

/-!
# Sessions of subscribers are renewed

A keepalive timer is started by a report that leaves something to receive. Such a report
is sent when the first branch is joined, and again with the answer to every query that
establishes a session. So while there are branches, an established session has its timer
pending, however joins, leaves and expiries follow one another.
-/

namespace MulticastTunnel

open Ordered MulticastTunnel.Membership

namespace World

variable {key : InterfaceKey} {w v : World}

/-- Whatever was sent for `key` between `w` and `v` was taken, or the peer was unreachable. -/
def Gentle (key : InterfaceKey) (w v : World) : Prop :=
  ∀ later message failed before, v.trace = later ++ .sent key message failed :: before →
    w.trace <:+ before → ∀ e, w.oracle.send key before = some e → e.isUnreachable = true

/-- In particular what was sent last. -/
theorem Gentle.isUnreachable {message : Message} {e : SocketError}
    (h : w.Gentle key (v.send key message).2) (hsuffix : w.trace <:+ v.trace)
    (horacle : v.oracle = w.oracle) (he : v.oracle.send key v.trace = some e) :
    e.isUnreachable = true := by
  rw [horacle] at he
  exact h [] message _ v.trace rfl hsuffix e he

end World

/-- A query is told for a membership query alone. -/
theorem Tunnel.decode_of_query {b : Bytes} {t : Tunnel} {w : World} {q : Query}
    (h : (t.handle b w).1 = some (.query q)) :
    ∃ limited mac nonce packet gateway,
      Message.decode b = .ok (.membershipQuery limited mac nonce packet gateway) := by
  revert h
  unfold handle
  split
  · intro h
    cases h
  · intro h
    cases h
  · next hdecode =>
    intro _
    exact ⟨_, _, _, _, _, hdecode⟩
  · intro h
    cases h
  · intro h
    cases h

theorem Tunnel.refreshed_of_handed {key : InterfaceKey} {settings : TunnelSettings}
    {family : Family} {v u : Tunnel × World} (hreach : Tunnel.Reachable key settings v.1 v.2)
    (h : Reporter.Handed Tunnel.outlet family v u) : u.1.Refreshed := by
  obtain ⟨packet, report, -, hread, hdescribes, rfl, hsent⟩ := h
  exact refreshed_send hreach.granted hread hdescribes hsent

namespace Interface

/-- Reports fit, queries are general, and sending fails at most because the relay is
unreachable. -/
structure Act.Smooth (act : Act) (i : Interface) (w : World) : Prop where
  fits : act.Fits i w
  general : ∀ b q, act = .receive (.ok b) → (i.tunnel.handle b w).1 = some (.query q) →
    q.group = none ∧ (⟨i.key.family, i.reporter.generalRecords⟩ : Report).Fits
  gentle : w.Gentle i.key (i.perform act w).2

/-- The reporter tends to the branches, and the session is renewed if there are any. -/
structure Sustains (key : InterfaceKey) (settings : InterfaceSettings)
    (B : Set ChannelTree.BranchKey) (s : Reporter × Tunnel × World) : Prop
    extends Tends key settings B s where
  refreshed : B.Nonempty → s.2.1.Refreshed

variable {key : InterfaceKey} {settings : InterfaceSettings} {i : Interface} {w : World}

theorem tracks_sustains (key : InterfaceKey) (settings : InterfaceSettings) (now : Nat) :
    (Reporter.control Tunnel.outlet now).Tracks (fun e => ∀ c, e ≠ .codec c)
      (Sustains key settings) := by
  have htracks := tracks_tends key settings now
  have hkeeps := Tunnel.keeps_refreshed
  constructor
  · intro B s group source h hb hok
    refine ⟨htracks.join h.toTends hb hok, fun _ => ?_⟩
    by_cases hB : B.Nonempty
    · exact hkeeps.join now group source s.1 (h.refreshed hB)
    · -- Nothing was received before, so the report of the join tells of something to receive.
      have hnone : s.1.filter? group = none := by
        rw [← Option.not_isSome_iff_eq_none, h.receives.isSome_filter?]
        rintro ⟨source, hb⟩
        exact hB ⟨_, hb⟩
      obtain ⟨v, hidle, hhanded⟩ := h.kindred.handed_join hnone
        (fun v hv => h.localAddress hv) hok
      exact Tunnel.refreshed_of_handed
        ((keeps_reachable key settings.tunnel).idle hidle h.reachable) hhanded
  · intro B s group source e h hb herr he
    exact ⟨htracks.refuse h.toTends hb herr he,
      fun hB => hkeeps.join now group source s.1 (h.refreshed hB)⟩
  · intro B s group source h hb
    exact ⟨htracks.leave h.toTends hb,
      fun hB => hkeeps.leave now group source s.1 (h.refreshed (hB.mono fun _ hb => hb.1))⟩

theorem upheld_sustains (key : InterfaceKey) (settings : InterfaceSettings) :
    Upheld key settings (Sustains key settings) where
  tends h := h.toTends
  tracks := tracks_sustains key settings
  fire now alarm h := ⟨h.toTends.fire now alarm,
    fun hB => Tunnel.keeps_refreshed.fire now alarm _ (h.refreshed hB)⟩
  elapse h he := ⟨h.toTends.elapse he, h.refreshed⟩

theorem Holds.tends (h : Holds (Sustains key settings) i w) : Holds (Tends key settings) i w :=
  ⟨h.1, h.2.toTends⟩

/-- The answer to a general query renews the session that the query establishes. -/
theorem Holds.refreshed_of_query (hi : Holds (Tends key settings) i w)
    (himmediate : settings.membership.timing = .immediate) {b : Bytes} {q : Query}
    (hsmooth : (Act.receive (.ok b)).Smooth i w)
    (haccepted : (i.tunnel.handle b w).1 = some (.query q))
    (hB : (i.receive (.ok b) w).1.channels.held.Nonempty) :
    (i.receive (.ok b) w).1.tunnel.Refreshed := by
  have howned : i.key = key := hi.2.owned
  obtain ⟨hgroup, hfits⟩ := hsmooth.general b q rfl haccepted
  obtain ⟨limited, mac, nonce, packet, gateway, hdecode⟩ := Tunnel.decode_of_query haccepted
  obtain ⟨hchannels, t, v, hgrants, hcases⟩ :=
    hi.receive_query himmediate hdecode haccepted hgroup
  rw [howned] at hfits
  rw [hchannels, hi.1.nonempty_held_iff,
    ← ChannelTree.generalRecords_ne_nil_iff hi.1 hi.2.receives] at hB
  rcases hcases with ⟨hquiet, -⟩ | ⟨-, -, answer, hfamily, hread, htunnel, hworld⟩
  · exact absurd ⟨hB, hfits⟩ hquiet
  have hkey : t.key = i.key := hgrants.key
  rw [htunnel]
  refine Tunnel.refreshed_send (fun _ => by rw [hgrants.grant]; rfl) hread
    (Reporter.describes_generalRecords hB _) ?_
  rcases Tunnel.send_granted hgrants.opened (by rw [hfamily, hkey, howned]) hread hgrants.grant
    v.chance.2 with ⟨-, hok, -⟩ | ⟨e, hfails, ⟨-, hlost⟩ | ⟨hreached, hsent⟩⟩
  · rw [hok]
    intro e he
    cases he
  · rw [hlost]
    rintro _ ⟨⟩
    rfl
  · -- An error of another kind was not gentle.
    have hperform : (i.perform (.receive (.ok b)) w).2 =
        (v.chance.2.send i.key (.membershipUpdate mac nonce answer)).2 := by
      show (i.receive (.ok b) w).2 = _
      rw [hworld, hsent, hkey]
    have hgentle := hsmooth.gentle
    rw [hperform] at hgentle
    rw [hkey] at hfails
    cases hreached.symm.trans
      (hgentle.isUnreachable hgrants.suffix hgrants.oracle_eq hfails)

theorem Holds.sustains_receive (hi : Holds (Sustains key settings) i w)
    (himmediate : settings.membership.timing = .immediate)
    {received : Except SocketError Bytes} (hsmooth : (Act.receive received).Smooth i w) :
    Holds (Sustains key settings) (i.receive received w).1 (i.receive received w).2 := by
  by_cases hq : ∃ q, (i.tunnel.receive received w).1 = some (.query q)
  · obtain ⟨q, hq⟩ := hq
    have hafter := hi.tends.receive received
    refine ⟨hafter.1, hafter.2, fun hB => ?_⟩
    cases received with
    | ok b => exact hi.tends.refreshed_of_query himmediate hsmooth hq hB
    | error e =>
      revert hq
      simp only [Tunnel.receive]
      split
      · intro hq
        cases hq
      split
      · intro hq
        cases hq
      · intro hq
        cases hq
  · have hstep := hi.2.toTends.step (.receive received) trivial
    have hnotice : Holds (Sustains key settings)
        { i with tunnel := (i.tunnel.receive received w).2.1 } (i.tunnel.receive received w).2.2 :=
      ⟨hi.1, hstep, fun hB =>
        (hi.2.refreshed hB).receive received w (not_exists.mp hq)⟩
    exact (upheld_sustains key settings).steadfast.onNotice hnotice (not_exists.mp hq)

theorem Reaches.sustains (h : Reaches key settings Act.Smooth i w)
    (himmediate : settings.membership.timing = .immediate) :
    Holds (Sustains key settings) i w := by
  induction h with
  | opened w =>
    have hopened : Reaches key settings Act.Smooth _ _ := .opened w
    have htends := hopened.tends fun _ _ _ hsmooth => hsmooth.fits
    refine ⟨htends.1, htends.2, ?_⟩
    rintro ⟨⟨group, source⟩, hb⟩
    exact absurd (ChannelTree.mem_held.mp hb) Bool.noConfusion
  | @act i w act hreach hpossible hallowed ih =>
    refine (upheld_sustains key settings).perform ih hallowed.fits ?_ ?_
    · rintro received rfl
      exact ih.sustains_receive himmediate hallowed
    · rintro alarm rfl
      obtain ⟨timer, hm⟩ := hpossible
      have hm' : (timer, alarm) ∈ i.tunnel.alarms := by simpa [alarms] using hm
      exact ⟨ih.1, ih.2.toTends.step (.fire alarm) ⟨timer, hm'⟩,
        fun hB => (ih.2.refreshed hB).fire ih.2.reachable.timed alarm w⟩
  | elapse _ he ih => exact ih.elapse (upheld_sustains key settings) he

/-- **Sessions of subscribers are renewed**: while queries are general, reports fit and
sending fails at most because the relay is unreachable, an established session has its
keepalive timer pending as long as there are subscribers. -/
theorem Reaches.keepalive_pends (h : Reaches key settings Act.Smooth i w)
    (himmediate : settings.membership.timing = .immediate)
    (hp : i.tunnel.phase = .established) (hsubscribed : i.channels.isEmpty = false) :
    i.tunnel.Pends .keepalive := by
  have hi := h.sustains himmediate
  exact hi.2.refreshed (hi.1.nonempty_held_iff.mpr hsubscribed) hp

theorem gentle_of_friendly (h : w.oracle = friendly) (v : World) : w.Gentle key v := by
  intro _ _ _ _ _ _ e he
  rw [h] at he
  cases he

/-- The query is accepted, and answered. -/
def session : Interface × World := performed (.receive (.ok queryDatagram)) subscribed

theorem reaches_session : Reaches sessionKey sessionSettings Act.Smooth session.1 session.2 := by
  have hfound : relayFound.Smooth opened.1 opened.2 := by
    refine ⟨fits_relayFound, ?_, gentle_of_friendly rfl _⟩
    rintro b q ⟨⟩ hq
    have hnone : (opened.1.tunnel.handle
        (Message.relayAdvertisement 7 (.read .ipv4 [203, 0, 113, 9])).encode opened.2).1 = none := by
      decide +kernel
    cases hnone.symm.trans hq
  have hjoined : subscription.Smooth (performed relayFound opened).1
      (performed relayFound opened).2 := by
    refine ⟨fits_subscription, ?_, gentle_of_friendly rfl _⟩
    intro b q h
    cases h
  have hqueried : (Act.receive (.ok queryDatagram)).Smooth subscribed.1 subscribed.2 := by
    refine ⟨?_, ?_, gentle_of_friendly rfl _⟩
    · intro sink c h
      cases h
    rintro b q ⟨⟩ hq
    have hgeneral : (subscribed.1.tunnel.handle queryDatagram subscribed.2).1 =
        some (.query (.general .ipv4 10000)) := by
      decide +kernel
    cases hgeneral.symm.trans hq
    exact ⟨rfl, by decide +kernel⟩
  have hsubscribed : Reaches sessionKey sessionSettings Act.Smooth subscribed.1 subscribed.2 :=
    (reaches_opened.performed relayFound trivial hfound).performed subscription trivial hjoined
  exact hsubscribed.performed (.receive (.ok queryDatagram)) trivial hqueried

theorem session_keepalive :
    session.1.tunnel.phase = .established ∧ session.1.channels.isEmpty = false ∧
      session.1.tunnel.Pends .keepalive := by
  have hp : session.1.tunnel.phase = .established := by decide +kernel
  have hsubscribed : session.1.channels.isEmpty = false := by decide +kernel
  exact ⟨hp, hsubscribed, reaches_session.keepalive_pends rfl hp hsubscribed⟩

end Interface

end MulticastTunnel
