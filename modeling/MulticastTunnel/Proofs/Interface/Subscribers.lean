import MulticastTunnel.Proofs.Channel.Subscriptions
import MulticastTunnel.Proofs.Interface.Run
import MulticastTunnel.Proofs.Tunnel.Course

/-!
# Who is subscribed while an interface is at work

An interface receives, reassembles, delivers and answers queries of itself, and its timers
run out. None of that subscribes a sink, and a subscription ends only with a sink that failed
to take a datagram. `Undisturbed` says so for everything that goes on without a request for a
subscription. What all requests keep as well is `Follows`: it is the same interface later.
-/

namespace MulticastTunnel

open MulticastTunnel.Membership

/-! ## The world and the tunnel -/

/-- Every datagram was taken by the sink that it was given to. -/
def World.Unfailing (w : World) : Prop := ∀ sink d, Event.datagram sink d false ∉ w.trace

theorem World.Unfailing.earlier {w v : World} (h : v.Unfailing) (hs : w.trace <:+ v.trace) :
    w.Unfailing := by
  intro sink d hm
  exact h sink d (hs.subset hm)

namespace Tunnel

/-- The same tunnel at a later time. -/
structure Later (s s' : Tunnel × World) : Prop where
  key : s'.1.key = s.1.key
  trace : s.2.trace <:+ s'.2.trace

variable {s s' s'' : Tunnel × World}

theorem Later.refl (s : Tunnel × World) : Later s s := ⟨rfl, List.suffix_rfl⟩

theorem Later.trans (h : Later s s') (h' : Later s' s'') : Later s s'' :=
  ⟨h'.key.trans h.key, h.trace.trans h'.trace⟩

theorem later_record (t : Tunnel) (w : World) (e : Event) : Later (t, w) (t, w.record e) :=
  ⟨rfl, List.suffix_cons e w.trace⟩

theorem Takes.later {input : Input} {t : Tunnel} {w : World} {answer : Option Message}
    (h : Takes input t w answer s) : Later (t, w) s := by
  obtain ⟨events, htrace, hc⟩ := h
  refine ⟨hc.configured.1, ?_⟩
  rw [htrace]
  exact List.suffix_append events w.trace

theorem later_step (input : Input) (t : Tunnel) (w : World) : Later (t, w) (t.step input w) :=
  (takes_step input t w).later

/-- Whatever a reporter hands out, the tunnel stays the same one. -/
theorem keeps_later (s : Tunnel × World) : outlet.Keeps (Later s) where
  send packet s' h := h.trans (takes_send packet s'.1 s'.2).later
  serial _ h := h.trans ⟨rfl, List.suffix_rfl⟩

theorem tracks_later (s : Tunnel × World) (now : Nat) :
    (Reporter.control outlet now).Tracks (fun _ => True) fun _ s' => Later s s'.2 where
  join h _ _ := (keeps_later s).join now _ _ _ h
  refuse h _ _ _ := (keeps_later s).join now _ _ _ h
  leave h _ := (keeps_later s).leave now _ _ _ h

end Tunnel

namespace Interface

/-! ## The same interface -/

/-- The same interface at a later time. -/
structure Follows (s s' : Interface × World) : Prop where
  tunnel : Tunnel.Later (s.1.tunnel, s.2) (s'.1.tunnel, s'.2)
  closed : s'.1.closed = s.1.closed
  pruned : s'.1.channels.Pruned

/-- Later, with the same subscriptions if no sink failed. -/
structure Undisturbed (s s' : Interface × World) : Prop extends Follows s s' where
  contains : s'.2.Unfailing → ∀ sink c,
    s'.1.channels.contains sink c = s.1.channels.contains sink c

variable {i j : Interface} {w v : World} {s : Interface × World}

theorem Undisturbed.refl (hp : i.channels.Pruned) (w : World) : Undisturbed (i, w) (i, w) where
  tunnel := .refl _
  closed := rfl
  pruned := hp
  contains _ _ _ := rfl

/-! ## Requests for subscriptions -/

/-- The act is asked for to change subscriptions. -/
def Act.isRequest : Act → Bool
  | .join .. | .leave .. | .leaveSink _ | .leaveAll => true
  | _ => false

theorem follows_join (hp : i.channels.Pruned) (sink : SinkId) (c : Channel) (w : World) :
    Follows (i, w) (i.join sink c w).2 := by
  have excused : ∀ e, (i.channels.join (Reporter.control Tunnel.outlet w.now) sink c
      (i.reporter, i.tunnel, w)).1 = .error (.membership e) → True := fun _ _ => trivial
  have hs := ChannelTree.synced_join (Tunnel.tracks_later (i.tunnel, w) w.now) ⟨hp, .refl _⟩
    excused
  exact ⟨hs.2, rfl, hs.1⟩

theorem follows_leave (hp : i.channels.Pruned) (sink : SinkId) (c : Channel) (w : World) :
    Follows (i, w) (i.leave sink c w).2 := by
  have hs := ChannelTree.synced_leave (Tunnel.tracks_later (i.tunnel, w) w.now)
    (w := (i.reporter, i.tunnel, w)) ⟨hp, .refl _⟩ sink c
  exact ⟨hs.2, rfl, hs.1⟩

theorem contains_join_of_ok {sink other : SinkId} {c x : Channel}
    (h : (i.join sink c w).1 = .ok ()) :
    (i.join sink c w).2.1.channels.contains other x = true ↔
      (other, x) = (sink, c) ∨ i.channels.contains other x = true := by
  refine ChannelTree.contains_join.trans ?_
  rw [show (i.channels.join _ sink c _).1 = .ok () from h]
  simp [ChannelTree.Outcome.isOk]

theorem contains_join_of_error {sink other : SinkId} {c x : Channel} {e : ChannelError}
    (h : (i.join sink c w).1 = .error e) :
    (i.join sink c w).2.1.channels.contains other x = true ↔
      i.channels.contains other x = true := by
  refine ChannelTree.contains_join.trans ?_
  rw [show (i.channels.join _ sink c _).1 = .error e from h]
  simp [ChannelTree.Outcome.isOk]

theorem contains_leave {sink other : SinkId} {c x : Channel} :
    (i.leave sink c w).2.1.channels.contains other x = true ↔
      i.channels.contains other x = true ∧ (other, x) ≠ (sink, c) := by
  show (i.channels.leave (Reporter.control Tunnel.outlet w.now) sink c
    (i.reporter, i.tunnel, w)).2.1.contains other x = true ↔ _
  exact ChannelTree.contains_leave

/-- Closing leaves all groups, which the tunnel may tell to its relay. -/
theorem later_close (hp : i.channels.Pruned) (w : World) : w.trace <:+ (i.close w).2.2.trace := by
  have hflush := ChannelTree.synced_flush (Tunnel.tracks_later (i.tunnel, w) w.now)
    (w := (i.reporter, i.tunnel, w)) ⟨hp, .refl _⟩
  simp only [close]
  split
  · exact List.suffix_rfl
  · exact ((Tunnel.keeps_later (i.tunnel, w)).dropAll _ _ _ hflush.2).trace

/-! ## Deliveries -/

theorem later_deliverAll (d : Datagram) (sinks : List SinkId) (u : Reporter × Tunnel × World) :
    Tunnel.Later u.2 (ChannelTree.deliverAll deliverDatagram d sinks u).2.2 := by
  have hgiven : ∀ sink d (u' : Reporter × Tunnel × World), Tunnel.Later u.2 u'.2 →
      Tunnel.Later u.2 (deliverDatagram sink d u').2.2 := by
    intro sink d u' h
    exact h.trans (Tunnel.later_record u'.2.1 u'.2.2 _)
  exact ChannelTree.deliverAll_keeps
    (Q := fun u' : Reporter × Tunnel × World => Tunnel.Later u.2 u'.2) hgiven d sinks (.refl u.2)

/-- Where every sink takes the datagram none is gone, and none failed. -/
theorem deliverAll_of_unfailing (d : Datagram) (sinks : List SinkId)
    (u : Reporter × Tunnel × World)
    (h : (ChannelTree.deliverAll deliverDatagram d sinks u).2.2.2.Unfailing) :
    (ChannelTree.deliverAll deliverDatagram d sinks u).1.failed = false ∧
      (ChannelTree.deliverAll deliverDatagram d sinks u).1.gone = [] := by
  induction sinks generalizing u with
  | nil => exact ⟨rfl, rfl⟩
  | cons sink sinks ih =>
    obtain ⟨result, u', hu⟩ : ∃ result u', deliverDatagram sink d u = (result, u') := ⟨_, _, rfl⟩
    have htrace : u'.2.2.trace = .datagram sink d result.isOk :: u.2.2.trace := by
      cases hu
      rfl
    simp only [ChannelTree.deliverAll, hu] at h ⊢
    cases result with
    | ok _ => exact ih u' h
    | error e =>
      have hrest : (ChannelTree.deliverAll deliverDatagram d sinks u').2.2.2.Unfailing := by
        cases e <;> exact h
      refine absurd ?_ (hrest.earlier (later_deliverAll d sinks u').trace sink d)
      rw [htrace]
      exact List.mem_cons_self

/-- Once the datagram was given to all, the tree may still leave groups. -/
theorem later_dispatch {tree : ChannelTree} (hp : tree.Pruned) (now : Nat) (d : Datagram)
    (u : Reporter × Tunnel × World) :
    Tunnel.Later (ChannelTree.deliverAll deliverDatagram d (tree.recipients d) u).2.2
      (tree.dispatch (Reporter.control Tunnel.outlet now) deliverDatagram d u).2.2.2 := by
  obtain ⟨delivery, u', hu⟩ : ∃ delivery u',
    ChannelTree.deliverAll deliverDatagram d (tree.recipients d) u = (delivery, u') := ⟨_, _, rfl⟩
  have htracks := Tunnel.tracks_later u'.2 now
  have hs : ({ tree with delivered := tree.delivered + delivery.taken } : ChannelTree).Synced
      (fun _ v => Tunnel.Later u'.2 v.2) u' := ⟨hp.of_groups rfl, .refl _⟩
  simp only [ChannelTree.dispatch, hu]
  split
  · exact (ChannelTree.synced_flush htracks hs).2
  · exact (ChannelTree.synced_evict htracks delivery.gone hs).2

namespace Undisturbed

variable (h : Undisturbed s (i, w))

include h

/-- Whoever does not touch the channels does not disturb them. -/
theorem of_eq (hc : j.channels = i.channels) (hclosed : j.closed = i.closed)
    (ht : Tunnel.Later (i.tunnel, w) (j.tunnel, v)) : Undisturbed s (j, v) where
  tunnel := h.tunnel.trans ht
  closed := hclosed.trans h.closed
  pruned := by
    show j.channels.Pruned
    rw [hc]
    exact h.pruned
  contains hv sink c := by
    show j.channels.contains sink c = _
    rw [hc]
    exact h.contains (hv.earlier ht.trace) sink c

/-- A datagram ends no subscription but those of sinks that do not take it. -/
theorem dispatch (d : Datagram) :
    Undisturbed s (i.onChannels w fun control tree u =>
      tree.dispatch control deliverDatagram d u).2 := by
  have hp : i.channels.Pruned := h.pruned
  have hgiven := later_deliverAll d (i.channels.recipients d) (i.reporter, i.tunnel, w)
  have hleft := later_dispatch hp w.now d (i.reporter, i.tunnel, w)
  have hlater := hgiven.trans hleft
  refine ⟨⟨h.tunnel.trans hlater, h.closed, hp.perform _ deliverDatagram (.dispatch d) _⟩, ?_⟩
  intro hv sink c
  obtain ⟨hfailed, hgone⟩ := deliverAll_of_unfailing d _ _ (hv.earlier hleft.trace)
  rw [← h.contains (hv.earlier hlater.trace), Bool.eq_iff_iff]
  refine ChannelTree.contains_dispatch.trans ?_
  rw [hfailed, hgone]
  simp

omit h in
theorem steadfast (key : InterfaceKey) (s : Interface × World) :
    Steadfast key (Undisturbed s) := by
  constructor
  · rintro i j w v hi hsame ⟨events, htrace, -⟩
    refine hi.of_eq hsame.channels hsame.closed ⟨congrArg Tunnel.key hsame.tunnel, ?_⟩
    rw [htrace]
    exact List.suffix_append events w.trace
  · intro i w d hi
    exact hi.dispatch d

theorem onQuery (q : Query) : Undisturbed s (i.onQuery q w) :=
  h.of_eq rfl rfl ((Tunnel.keeps_later (i.tunnel, w)).onQuery w.now w.chance.1 q i.reporter
    (w := (i.tunnel, w.chance.2)) ⟨rfl, List.suffix_rfl⟩)

theorem onNotice (n : Option Notice) : Undisturbed s (i.onNotice n w) := by
  by_cases hq : ∃ q, n = some (.query q)
  · obtain ⟨q, rfl⟩ := hq
    exact h.onQuery q
  · exact (steadfast i.key s).onNotice h (not_exists.mp hq)

theorem receive (received : Except SocketError Bytes) : Undisturbed s (i.receive received w) := by
  have hlater := Tunnel.later_step (.receive received) i.tunnel w
  have hreceived : Undisturbed s
      ({ i with tunnel := (i.tunnel.receive received w).2.1 }, (i.tunnel.receive received w).2.2) :=
    h.of_eq rfl rfl hlater
  exact hreceived.onNotice _

theorem fire (alarm : Alarm) : Undisturbed s (i.fire alarm w) := by
  cases alarm with
  | tunnel alarm => exact h.of_eq rfl rfl (Tunnel.later_step (.fire alarm) i.tunnel w)
  | reporter alarm =>
    exact h.of_eq rfl rfl
      ((Tunnel.keeps_later (i.tunnel, w)).fire w.now alarm i.reporter (.refl _))
  | reaper => exact (steadfast i.key s).reap h

theorem perform {act : Act} (ha : act.isRequest = false) : Undisturbed s (i.perform act w) := by
  cases act with
  | addOutput sink => exact (steadfast i.key s).addOutput h sink
  | removeOutput sink => exact h.of_eq rfl rfl (.refl _)
  | setTimeoutSink sink => exact h.of_eq rfl rfl (.refl _)
  | ingest p => exact (steadfast i.key s).ingest h p
  | receive received => exact h.receive received
  | alarm alarm => exact h.fire alarm
  | _ => cases ha

end Undisturbed

end Interface

end MulticastTunnel
