import MulticastTunnel.Proofs.Interface.Answering
import MulticastTunnel.Proofs.Interface.Deeds
import MulticastTunnel.Proofs.Tunnel.Waiting

/-!
# Closed interfaces

An interface that was closed does nothing to its relay any more, whatever is done with it. Its
tree has no branch, so nothing is joined or left but by a new join, and that one the reporter
refuses; the reporter has nothing to tell and no timer, and ignores queries. A tunnel that is
closed has no phase in which it would take in an answer, no grant to send under and no timer.
The first two are so because closing makes them so. For the tunnel it has to be known that a
step does not lead out of it, so it is carried along that the tunnel is one that a run leads to.
-/

namespace MulticastTunnel

open Ordered MulticastTunnel.Membership

/-! ## The tunnel -/

namespace Tunnel

variable {t u : Tunnel} {w v : World} {input : Input} {answer : Option Message}
  {events : List Event}

theorem Timed.alarms_of_closed (h : Timed t) (hc : t.closed = true) : t.alarms = [] := by
  obtain ⟨hd, hr, hk⟩ := h.disconnected (h.closed hc)
  simp [alarms, hd, hr, hk]

theorem Timed.grant_of_closed (h : Timed t) (hc : t.closed = true) : t.handshake.grant = none := by
  have hp := h.closed hc
  cases hg : t.handshake.grant with
  | none => rfl
  | some grant =>
    rcases h.granted (by rw [hg]; rfl) with hp' | hp'
    · cases hp.symm.trans hp'
    · cases hp.symm.trans hp'

/-- A closed tunnel takes no course that leads anywhere. -/
theorem Course.nothing_of_closed (h : Course input t w answer events u) (ht : Timed t)
    (hc : t.closed = true) (hin : input.Possible t) : events = [] ∧ u.closed = true := by
  have hp : t.handshake.phase = .disconnected := ht.closed hc
  have hsilent : ∀ alarm, input ≠ .fire alarm := by
    rintro alarm rfl
    obtain ⟨timer, hm⟩ := hin
    rw [ht.alarms_of_closed hc] at hm
    cases hm
  -- All but resting and closing start from a phase, a grant or a timer, and there is none.
  cases h with
  | rest => exact ⟨rfl, hc⟩
  | seek _ _ _ _ _ _ _ hopen => exact absurd hp (hopen hc)
  | report _ _ _ _ _ hg => cases (ht.grant_of_closed hc).symm.trans hg
  | turn _ _ _ _ hok => cases hp.symm.trans (Handshake.onAdvertisement_eq_ok.mp hok).1
  | establish _ _ hok =>
    rcases (Handshake.onQuery_eq_ok.mp hok).1 with hp' | hp'
    · cases hp.symm.trans hp'
    · cases hp.symm.trans hp'
  | close => exact ⟨rfl, by rw [Tunnel.close, if_pos hc]; exact hc⟩
  | renew _ _ _ _ hfire => exact absurd hfire (hsilent _)
  | repeatRequest _ _ _ hfire => exact absurd hfire (hsilent _)
  | repeatDiscovery _ _ _ hfire => exact absurd hfire (hsilent _)
  | giveUp hfire => exact absurd hfire (hsilent _)
  | lapse _ hfire => exact absurd hfire (hsilent _)

/-- Whatever happens to a closed tunnel, it stays closed and does not touch its transport. -/
theorem Timed.step_of_closed (h : Timed t) (hc : t.closed = true) (hin : input.Possible t)
    (w : World) :
    (t.step input w).1.closed = true ∧ Untouched t.key w (t.step input w).2 := by
  obtain ⟨events, htrace, hcourse⟩ := takes_step input t w
  obtain ⟨rfl, hclosed⟩ := hcourse.nothing_of_closed h hc hin
  exact ⟨hclosed, .of_trace_eq htrace⟩

theorem closed_close (t : Tunnel) : t.close.closed = true := by
  unfold close
  split
  · assumption
  · rfl

end Tunnel

/-! ## The reporter -/

namespace Membership.Reporter

variable {ω : Type} {r : Reporter} (h : r.close = r)

include h

theorem closed_of_close : r.closed = true := by
  rw [← h]
  rfl

theorem demands_of_close : r.demands = ∅ := by
  rw [← h]
  rfl

theorem alarms_of_close : r.alarms = [] := by
  rw [← h]
  rfl

theorem join_of_close (o : Outlet ω) (now : Nat) (group : Address) (source : Option Address)
    (w : ω) : ∃ e, r.join o now group source w = (.error e, r, w) := by
  unfold join
  split
  · exact ⟨_, rfl⟩
  · rw [if_pos (closed_of_close h)]
    exact ⟨_, rfl⟩

theorem leave_of_close (o : Outlet ω) (now : Nat) (group : Address) (source : Option Address)
    (w : ω) : (r.leave o now group source w).2 = (r, w) := by
  unfold leave
  split
  · rfl
  · rw [demands_of_close h]
    rfl

theorem leaveAll_of_close (o : Outlet ω) (now : Nat) (w : ω) :
    r.leaveAll o now w = (.ok (), r, w) := by
  rw [leaveAll, demands_of_close h]
  rfl

theorem onQuery_of_close (o : Outlet ω) (now chance : Nat) (q : Query) (w : ω) :
    r.onQuery o now chance q w = (.ok (), r, w) := if_pos (closed_of_close h)

end Membership.Reporter

/-! ## The tree -/

namespace ChannelTree

variable {ω : Type} {control : Control ω} {t : ChannelTree} {w : ω} (h : t.groups = ∅)

include h

theorem branch_of_groups_empty (group : Address) (source : Option Address) :
    t.branch group source = ∅ := by
  rw [branch, branches, h]
  rfl

theorem sinksOf_of_groups_empty (c : Channel) : t.sinksOf c = ∅ := by
  rw [sinksOf, branch_of_groups_empty h]
  rfl

theorem join_of_groups_empty {sink : SinkId} {c : Channel}
    (hjoin : ∃ e, control.join c.group c.source w = (.error e, w)) :
    ∃ e, t.join control sink c w = (.error e, t, w) := by
  obtain ⟨e, hjoin⟩ := hjoin
  unfold join
  split
  · exact ⟨_, rfl⟩
  · rw [branch_of_groups_empty h, hjoin]
    exact ⟨_, rfl⟩

theorem leave_of_groups_empty (sink : SinkId) (c : Channel) :
    t.leave control sink c w = (.ok (), t, w) := by
  have hnot : t.contains sink c = false := by
    rw [contains, sinksOf_of_groups_empty h]
    rfl
  simp [leave, remove, hnot]

theorem leaveSink_of_groups_empty (sink : SinkId) :
    t.leaveSink control sink w = (.ok (), t, w) := by
  have hnone : t.channelsOf sink = [] := by
    rw [channelsOf, h]
    rfl
  rw [leaveSink, hnone]
  rfl

theorem flush_of_groups_empty :
    t.flush control w = ({ t with groups := ∅, flushes := t.flushes + 1 }, w) := by
  have hnone : t.joined = [] := by
    rw [joined, h]
    rfl
  rw [flush, hnone]
  rfl

theorem dispatch_of_groups_empty (deliver : Deliver ω) (d : Datagram) :
    t.dispatch control deliver d w = (0, t, w) := by
  have hnone : t.recipients d = [] := by
    rw [recipients, sinksOf_of_groups_empty h, sinksOf_of_groups_empty h]
    rfl
  rw [dispatch, hnone]
  rfl

end ChannelTree

/-! ## The interface -/

namespace Interface

variable {key : InterfaceKey} {settings : TunnelSettings} {Allowed : Deed → Prop}
  {s : Interface × World} {i j : Interface} {w v : World}

/-- The tunnel is one that a run leads to. -/
def Sound (key : InterfaceKey) (settings : TunnelSettings) (i : Interface) (w : World) : Prop :=
  Holds (fun _ s => Tunnel.Reachable key settings s.2.1 s.2.2) i w

theorem Sound.reachable (h : Sound key settings i w) : Tunnel.Reachable key settings i.tunnel w :=
  h.2

theorem Sound.of_tunnel (h : Sound key settings i w) (hc : j.channels = i.channels)
    (ht : Tunnel.Reachable key settings j.tunnel v) : Sound key settings j v := by
  refine ⟨?_, ht⟩
  rw [hc]
  exact h.1

theorem sound_create (key : InterfaceKey) (settings : InterfaceSettings) (w : World) :
    Sound key settings.tunnel (create key settings) w :=
  ⟨ChannelTree.pruned_empty, .created w⟩

theorem steadfast_sound (key : InterfaceKey) (settings : TunnelSettings) :
    Steadfast key fun s => Sound key settings s.1 s.2 where
  same h hsame he := h.of_tunnel hsame.channels (by
    rw [hsame.tunnel]
    exact h.reachable.elapse he)
  dispatch d h := Holds.dispatch (P := fun s => Tunnel.Reachable key settings s.1 s.2)
    (keeps_reachable key settings)
    (fun _ _ sink d h => h.elapse (World.elapsed_giveDatagram sink d)) h d

theorem endures_sound (key : InterfaceKey) (settings : TunnelSettings) :
    Endures fun s => Sound key settings s.1 s.2 := by
  have hkeeps := keeps_reachable key settings
  refine (steadfast_sound key settings).endures ?_ ?_ ?_
  · intro i w input hin h
    exact h.of_tunnel rfl (h.reachable.step input hin)
  · intro i w act _ h
    exact h.of_tunnel rfl (hkeeps.perform w.now act i.reporter (w := (i.tunnel, w)) h.reachable)
  · intro i w act ha h
    exact Holds.request (P := fun s => Tunnel.Reachable key settings s.1 s.2) hkeeps h ha

theorem Sound.close (h : Sound key settings i w) :
    Sound key settings (i.close w).2.1 (i.close w).2.2 := by
  unfold Interface.close
  split
  · exact h
  · have hleft : Sound key settings ({ i with closed := true }.leaveAll w).2.1
        ({ i with closed := true }.leaveAll w).2.2 :=
      Holds.flush (P := fun s => Tunnel.Reachable key settings s.1 s.2)
        (keeps_reachable key settings) h
    exact (endures_sound key settings).step .close trivial hleft

theorem Leads.sound (h : Leads key Allowed s i w) (hs : Sound key settings s.1 s.2) :
    Sound key settings i w := by
  induction h with
  | refl => exact hs
  | deed deed _ hd _ ih =>
    by_cases hopen : deed = .close
    · subst hopen
      exact ih.close
    · exact (endures_sound key settings).carryOut ih hd hopen
  | elapse _ hv ih => exact ih.of_tunnel rfl (ih.reachable.elapse hv.elapsed)

/-! ## What closing leaves -/

/-- All parts are closed, and nothing is subscribed. -/
structure Shut (i : Interface) : Prop where
  closed : i.closed = true
  tunnel : i.tunnel.closed = true
  reporter : i.reporter.close = i.reporter
  channels : i.channels.groups = ∅

theorem shut_close (h : i.closed = false) (w : World) :
    (i.close w).1 = true ∧ Shut (i.close w).2.1 := by
  unfold close
  rw [if_neg (by simp [h])]
  exact ⟨rfl, rfl, Tunnel.closed_close _, rfl, rfl⟩

namespace Shut

variable (h : Shut i)

include h

theorem close (w : World) : i.close w = (false, i, w) := if_pos h.closed

theorem join (sink : SinkId) (c : Channel) (w : World) :
    ∃ e, i.join sink c w = (.error e, i, w) := by
  obtain ⟨e, he⟩ : ∃ e, i.channels.join (Reporter.control Tunnel.outlet w.now) sink c
      (i.reporter, i.tunnel, w) = (.error e, i.channels, i.reporter, i.tunnel, w) :=
    ChannelTree.join_of_groups_empty h.channels
      (Reporter.join_of_close h.reporter Tunnel.outlet w.now c.group c.source (i.tunnel, w))
  refine ⟨e, ?_⟩
  simp only [Interface.join, onChannels, he]

theorem leave (sink : SinkId) (c : Channel) (w : World) : (i.leave sink c w).2 = (i, w) := by
  simp only [Interface.leave, onChannels, ChannelTree.leave_of_groups_empty h.channels]

theorem leaveSink (sink : SinkId) (w : World) : (i.leaveSink sink w).2 = (i, w) := by
  simp only [Interface.leaveSink, onChannels, ChannelTree.leaveSink_of_groups_empty h.channels]

theorem leaveAll (w : World) :
    (i.leaveAll w).2 =
      ({ i with channels := { i.channels with groups := ∅, flushes := i.channels.flushes + 1 } },
        w) := by
  simp only [Interface.leaveAll, onChannels, onReporter,
    ChannelTree.flush_of_groups_empty h.channels, Reporter.leaveAll_of_close h.reporter]

theorem dispatch (d : Datagram) (w : World) :
    (i.onChannels w fun control tree u => tree.dispatch control deliverDatagram d u).2 =
      (i, w) := by
  simp only [onChannels, ChannelTree.dispatch_of_groups_empty h.channels]

theorem reap (w : World) : i.reap w = ({ i with reaper := none }, w) := if_pos h.closed

end Shut

/-- Shut, and the transport was not touched since the world was `w`. -/
structure Resting (key : InterfaceKey) (settings : TunnelSettings) (w : World)
    (s : Interface × World) : Prop where
  shut : Shut s.1
  untouched : Tunnel.Untouched key w s.2
  /-- A step does not open a tunnel again, if it is one that a run leads to. -/
  reachable : Tunnel.Reachable key settings s.1.tunnel s.2

namespace Resting

variable {w₀ : World}

/-- Whatever is not about the parts that are shut may change. -/
theorem later (h : Resting key settings w₀ (i, w)) (hsame : i.SameLayers j)
    (hv : Tunnel.Untouched key w v) : Resting key settings w₀ (j, v) where
  shut := by
    refine ⟨hsame.closed.trans h.shut.closed, ?_, ?_, ?_⟩
    · rw [hsame.tunnel]
      exact h.shut.tunnel
    · rw [hsame.reporter]
      exact h.shut.reporter
    · rw [hsame.channels]
      exact h.shut.channels
  untouched := h.untouched.trans hv
  reachable := by
    rw [hsame.tunnel]
    exact h.reachable.elapse hv.elapsed

theorem withstands (key : InterfaceKey) (settings : TunnelSettings) (w₀ : World) :
    Withstands (Resting key settings w₀) where
  given sink p _ _ h := h.later ⟨rfl, rfl, rfl, rfl⟩ (Tunnel.untouched_givePacket key _ sink p)
  dispatch {i w} d h := by
    rw [h.shut.dispatch d w]
    exact h

theorem ensureReaper (h : Resting key settings w₀ (i, w)) :
    Resting key settings w₀ (i.ensureReaper w) := by
  unfold Interface.ensureReaper
  split
  · exact h
  · exact h.later ⟨rfl, rfl, rfl, rfl⟩ (.of_trace_eq rfl)

theorem ingest (h : Resting key settings w₀ (i, w)) (p : Packet) :
    Resting key settings w₀ (i.ingest p w).2 := by
  unfold Interface.ingest
  split
  · exact h.later ⟨rfl, rfl, rfl, rfl⟩ (.refl key w)
  · next completed reassembler _ =>
    have hin : Resting key settings w₀ ({ i with reassembler }, w) :=
      h.later ⟨rfl, rfl, rfl, rfl⟩ (.refl key w)
    exact (withstands key settings w₀).deliverAll completed hin.ensureReaper

/-- Something happens to the tunnel. -/
theorem step (h : Resting key settings w₀ (i, w)) (input : Tunnel.Input)
    (hin : input.Possible i.tunnel) :
    Resting key settings w₀
      ({ i with tunnel := (i.tunnel.step input w).1 }, (i.tunnel.step input w).2) := by
  obtain ⟨hclosed, huntouched⟩ := h.reachable.timed.step_of_closed h.shut.tunnel hin w
  rw [h.reachable.fenced.1] at huntouched
  exact ⟨⟨h.shut.closed, hclosed, h.shut.reporter, h.shut.channels⟩,
    h.untouched.trans huntouched, h.reachable.step input hin⟩

/-- The reporter has nothing to do, and its timers do not run out, for there is none. -/
theorem ask (h : Resting key settings w₀ (i, w)) {act : Reporter.Act}
    (ha : (Deed.ask act).Possible i) : Resting key settings w₀ (i.carryOut (.ask act) w) := by
  have hr := h.shut.reporter
  have hsame : (i.reporter.perform Tunnel.outlet w.now act (i.tunnel, w)).2 =
      (i.reporter, i.tunnel, w) := by
    cases act with
    | join group source =>
      obtain ⟨e, he⟩ := Reporter.join_of_close hr Tunnel.outlet w.now group source (i.tunnel, w)
      exact congrArg Prod.snd he
    | leave group source => exact Reporter.leave_of_close hr _ _ _ _ _
    | leaveAll => exact congrArg Prod.snd (Reporter.leaveAll_of_close hr _ _ _)
    | query chance q => exact congrArg Prod.snd (Reporter.onQuery_of_close hr _ _ _ _ _)
    | alarm alarm =>
      obtain ⟨timer, hm⟩ := ha
      rw [Reporter.alarms_of_close hr] at hm
      cases hm
  simp only [Interface.carryOut, onReporter, hsame]
  exact h

/-- Nothing is subscribed, so there is nothing to end, and no join succeeds. -/
theorem request (h : Resting key settings w₀ (i, w)) {act : Act} (ha : act.isRequest = true) :
    Resting key settings w₀ (i.perform act w) := by
  cases act with
  | join sink c =>
    obtain ⟨e, he⟩ := h.shut.join sink c w
    show Resting key settings w₀ (i.join sink c w).2
    rw [he]
    exact h
  | leave sink c =>
    show Resting key settings w₀ (i.leave sink c w).2
    rw [h.shut.leave sink c w]
    exact h
  | leaveSink sink =>
    show Resting key settings w₀ (i.leaveSink sink w).2
    rw [h.shut.leaveSink sink w]
    exact h
  | leaveAll =>
    show Resting key settings w₀ (i.leaveAll w).2
    rw [h.shut.leaveAll w]
    exact ⟨⟨h.shut.closed, h.shut.tunnel, h.shut.reporter, rfl⟩, h.untouched, h.reachable⟩
  | _ => cases ha

theorem endures (key : InterfaceKey) (settings : TunnelSettings) (w₀ : World) :
    Endures (Resting key settings w₀) where
  step input hin h := h.step input hin
  ask _ ha h := h.ask ha
  request ha h := h.request ha
  chance h := h.later ⟨rfl, rfl, rfl, rfl⟩ (.of_trace_eq rfl)
  ingest p h := h.ingest p
  reap {i w} h := by
    rw [h.shut.reap w]
    exact h.later ⟨rfl, rfl, rfl, rfl⟩ (.refl key w)
  sinks _ _ _ h := h.later ⟨rfl, rfl, rfl, rfl⟩ (.refl key _)

end Resting

theorem Leads.resting (h : Leads key Allowed s i w) (hs : Resting key settings s.2 s) :
    Resting key settings s.2 (i, w) := by
  induction h with
  | refl => exact hs
  | @deed i w deed _ hd _ ih =>
    by_cases hopen : deed = .close
    · subst hopen
      show Resting key settings s.2 (i.close w).2
      rw [ih.shut.close w]
      exact ih
    · exact (Resting.endures key settings s.2).carryOut ih hd hopen
  | elapse _ hv ih => exact ih.later ⟨rfl, rfl, rfl, rfl⟩ hv

theorem Leads.closed (h : Leads key (· ≠ .close) s i w) : i.closed = s.1.closed := by
  induction h with
  | refl => rfl
  | deed deed _ hd hopen ih => exact (closed_carryOut hd hopen _).trans ih
  | elapse _ _ ih => exact ih

/-- What there is to see of an interface that was closed when the world was `w`. -/
structure Inert (key : InterfaceKey) (w : World) (i : Interface) (v : World) : Prop where
  closes : (i.close v).1 = false
  /-- Nothing was handed to the transport, nor was it turned to a peer. -/
  untouched : Tunnel.Untouched key w v
  disconnected : i.tunnel.phase = .disconnected
  tunnelAlarms : i.tunnel.alarms = []
  reporterAlarms : i.reporter.alarms = []
  joins : ∀ sink c, ∃ e, (i.join sink c v).1 = .error e
  reporterJoins : ∀ group source, ∃ e,
    (i.reporter.join Tunnel.outlet v.now group source (i.tunnel, v)).1 = .error e
  channels : i.channels.isEmpty = true
  demands : i.reporter.demands = ∅

theorem Resting.inert (h : Resting key settings w (i, v)) : Inert key w i v where
  closes := by rw [h.shut.close v]
  untouched := h.untouched
  disconnected := h.reachable.timed.closed h.shut.tunnel
  tunnelAlarms := h.reachable.timed.alarms_of_closed h.shut.tunnel
  reporterAlarms := Reporter.alarms_of_close h.shut.reporter
  joins sink c := by
    obtain ⟨e, he⟩ := h.shut.join sink c v
    exact ⟨e, congrArg Prod.fst he⟩
  reporterJoins group source := by
    obtain ⟨e, he⟩ := Reporter.join_of_close h.shut.reporter Tunnel.outlet v.now group source
      (i.tunnel, v)
    exact ⟨e, congrArg Prod.fst he⟩
  channels := by
    have hg : i.channels.groups = ∅ := h.shut.channels
    rw [ChannelTree.isEmpty, hg]
    rfl
  demands := Reporter.demands_of_close h.shut.reporter

/-- **A closed interface is inert.** Whatever an interface came to before, it is closed once,
and whatever is done with it from then on does nothing to its relay. -/
theorem inert_of_close {settings : InterfaceSettings} {w₀ : World}
    (h : Leads key (· ≠ .close) (create key settings, w₀) i w) :
    (i.close w).1 = true ∧ ∀ j v, Leads key (fun _ => True) (i.close w).2 j v →
      Inert key (i.close w).2.2 j v := by
  obtain ⟨hfirst, hshut⟩ := shut_close h.closed w
  have hsound := (h.sound (sound_create key settings w₀)).close
  refine ⟨hfirst, fun j v hled => ?_⟩
  have hresting : Resting key settings.tunnel (i.close w).2.2 (j, v) :=
    hled.resting ⟨hshut, .refl key _, hsound.reachable⟩
  exact hresting.inert

/-! ## A closed session -/

theorem Leads.performed (h : Leads key (· ≠ .close) s i w) (act : Act) (hd : act.Possible i) :
    Leads key (· ≠ .close) s (performed act (i, w)).1 (performed act (i, w)).2 :=
  (h.deed (.act act) hd (by simp)).elapse (.of_trace_eq rfl)

theorem leads_subscribed :
    Leads sessionKey (· ≠ .close) (create sessionKey sessionSettings, { oracle := friendly })
      subscribed.1 subscribed.2 := by
  have hopened : Leads sessionKey (· ≠ .close)
      (create sessionKey sessionSettings, { oracle := friendly }) opened.1 opened.2 :=
    (Leads.refl.deed .start trivial (by simp)).elapse (.of_trace_eq rfl)
  exact (hopened.performed relayFound trivial).performed subscription trivial

/-- A session with a subscription is closed, and the sink tries to subscribe once more. -/
theorem subscribed_inert_of_close :
    let closed := (subscribed.1.close subscribed.2).2
    let after := closed.1.carryOut (.act subscription) closed.2
    subscribed.1.channels.isEmpty = false ∧ (subscribed.1.close subscribed.2).1 = true ∧
      Inert sessionKey closed.2 after.1 after.2 := by
  intro closed after
  obtain ⟨hfirst, hinert⟩ := inert_of_close leads_subscribed
  exact ⟨by decide +kernel, hfirst,
    hinert after.1 after.2 (Leads.refl.deed (.act subscription) trivial trivial)⟩

end Interface

end MulticastTunnel
