import MulticastTunnel.Proofs.Interface.Subscribers
import MulticastTunnel.Proofs.Tunnel.Peers

/-!
# All that can be done with an interface

Beside the acts, an interface can be started and closed, its tunnel can be handed a report and
can tell it of a query or a packet, and its reporter can be asked for something past the
channels. `Leads` tells which states deeds lead to, while the world moves on and nobody else
touches the transport. Most deeds come down to the same few things, and a property that
outlasts each of these `Endures`. What the tunnel and the world keep while a reporter hands out
reports is kept by every request for a subscription, for a reporter is all that the channels ask
anything of.
-/

namespace MulticastTunnel

open MulticastTunnel.Membership

/-- What an outlet keeps is kept by a control over the reporter, for whatever branches. -/
theorem Membership.Outlet.Keeps.tracks {ω : Type} {o : Outlet ω} {P : ω → Prop} (h : o.Keeps P)
    (now : Nat) : (Reporter.control o now).Tracks (fun _ => True) fun _ s => P s.2 where
  join hP _ _ := h.join now _ _ _ hP
  refuse hP _ _ _ := h.join now _ _ _ hP
  leave hP _ := h.leave now _ _ _ hP

namespace Tunnel

variable {key : InterfaceKey} {w v u : World}

theorem Untouched.refl (key : InterfaceKey) (w : World) : Untouched key w w := ⟨[], rfl, by simp⟩

theorem Untouched.trans (h : Untouched key w v) (h' : Untouched key v u) : Untouched key w u := by
  obtain ⟨before, hb, hbn⟩ := h
  obtain ⟨after, ha, han⟩ := h'
  refine ⟨after ++ before, by rw [ha, hb, List.append_assoc], fun e he => ?_⟩
  rcases List.mem_append.mp he with he | he
  · exact han e he
  · exact hbn e he

theorem Untouched.of_trace_eq (h : v.trace = w.trace) : Untouched key w v := ⟨[], h, by simp⟩

theorem untouched_givePacket (key : InterfaceKey) (w : World) (sink : SinkId) (p : Packet) :
    Untouched key w (w.givePacket sink p).2 := by
  refine ⟨[_], rfl, fun e he => ?_⟩
  rw [List.mem_singleton.mp he]
  rfl

/-- What touches a transport includes all that is sent through it. -/
theorem Untouched.elapsed (h : Untouched key w v) : w.Elapsed key v := by
  obtain ⟨others, ht, ho⟩ := h
  refine ⟨others, ht, fun e he => ?_⟩
  have hnone := ho e he
  cases e with
  | sent k message failed =>
    simp only [Exchange.ofEvent?] at hnone
    split at hnone
    · cases hnone
    · next hk => exact if_neg hk
  | _ => rfl

end Tunnel

namespace Interface

/-- What can be done with an interface, open or not. -/
inductive Deed
  | act (act : Act)
  /-- The reporter is asked for something, past the channels. -/
  | ask (act : Reporter.Act)
  /-- A report is handed to the tunnel. -/
  | send (report : Packet)
  | start
  /-- The tunnel tells of a query. -/
  | query (q : Query)
  /-- The tunnel tells of a packet. -/
  | data (p : Packet)
  | close

def Deed.Possible (i : Interface) : Deed → Prop
  | .act a => a.Possible i
  | .ask (.alarm a) => ∃ timer, (timer, a) ∈ i.reporter.alarms
  | _ => True

def carryOut (deed : Deed) (i : Interface) (w : World) : Interface × World :=
  match deed with
  | .act a => i.perform a w
  | .ask a => (i.onReporter w fun r u => r.perform Tunnel.outlet w.now a u).2
  | .send report => (i.send report w).2
  | .start => (i.start w).2
  | .query q => i.onQuery q w
  | .data p => i.onData p w
  | .close => (i.close w).2

/-- The states that allowed deeds lead to from one. -/
inductive Leads (key : InterfaceKey) (Allowed : Deed → Prop) (s : Interface × World) :
    Interface → World → Prop
  | refl : Leads key Allowed s s.1 s.2
  | deed {i : Interface} {w : World} (deed : Deed) : Leads key Allowed s i w →
      deed.Possible i → Allowed deed → Leads key Allowed s (i.carryOut deed w).1 (i.carryOut deed w).2
  | elapse {i : Interface} {w v : World} : Leads key Allowed s i w →
      Tunnel.Untouched key w v → Leads key Allowed s i v

section Requests

variable {P : Tunnel × World → Prop} {i : Interface} {w : World}

theorem Holds.flush (h : Tunnel.outlet.Keeps P) (hi : Holds (fun _ s => P s.2) i w) :
    Holds (fun _ s => P s.2) (i.leaveAll w).2.1 (i.leaveAll w).2.2 := by
  have hflush := ChannelTree.synced_flush (h.tracks w.now) hi
  exact ⟨hflush.1, h.dropAll _ _ _ hflush.2⟩

/-- Whatever is asked for, the tunnel only sends what a reporter hands out. -/
theorem Holds.request (h : Tunnel.outlet.Keeps P) (hi : Holds (fun _ s => P s.2) i w) {act : Act}
    (ha : act.isRequest = true) :
    Holds (fun _ s => P s.2) (i.perform act w).1 (i.perform act w).2 := by
  have htracks := h.tracks w.now
  cases act with
  | join sink c => exact ChannelTree.synced_join htracks hi fun _ _ => trivial
  | leave sink c => exact ChannelTree.synced_leave htracks hi sink c
  | leaveSink sink => exact ChannelTree.synced_leaveSink htracks hi sink
  | leaveAll => exact hi.flush h
  | _ => cases ha

/-- Giving a datagram to its recipients may end subscriptions. -/
theorem Holds.dispatch (h : Tunnel.outlet.Keeps P)
    (hgiven : ∀ t w sink d, P (t, w) → P (t, (w.giveDatagram sink d).2))
    (hi : Holds (fun _ s => P s.2) i w) (d : Datagram) :
    let s := (i.onChannels w fun control tree u => tree.dispatch control deliverDatagram d u).2
    Holds (fun _ s => P s.2) s.1 s.2 :=
  ChannelTree.synced_dispatch (h.tracks w.now) (fun _ sink d s hs => hgiven s.2.1 s.2.2 sink d hs)
    hi d

end Requests

/-! ## What outlasts a deed -/

/-- A property that outlasts each of the things that deeds come down to while the interface is
not closed. -/
structure Endures (P : Interface × World → Prop) : Prop where
  /-- Something happens to the tunnel. -/
  step : ∀ {i w} (input : Tunnel.Input), input.Possible i.tunnel → P (i, w) →
    P ({ i with tunnel := (i.tunnel.step input w).1 }, (i.tunnel.step input w).2)
  ask : ∀ {i w} act, (Deed.ask act).Possible i → P (i, w) → P (i.carryOut (.ask act) w)
  request : ∀ {i w} {act : Act}, act.isRequest = true → P (i, w) → P (i.perform act w)
  /-- A random number is drawn. -/
  chance : ∀ {i w}, P (i, w) → P (i, w.chance.2)
  ingest : ∀ {i w} p, P (i, w) → P (i.ingest p w).2
  reap : ∀ {i w}, P (i, w) → P (i.reap w)
  sinks : ∀ {i w} outputs timeoutSink overflows, P (i, w) →
    P ({ i with outputs, timeoutSink, overflows }, w)

namespace Endures

variable {P : Interface × World → Prop} {i : Interface} {w : World} (h : Endures P)

include h

theorem onQuery (hi : P (i, w)) (q : Query) : P (i.onQuery q w) :=
  h.ask (.query w.chance.1 q) trivial (h.chance hi)

theorem onData (hi : P (i, w)) (p : Packet) : P (i.onData p w) := by
  have hingest := h.ingest p hi
  unfold Interface.onData
  split
  · next heq =>
    rw [heq] at hingest
    exact hingest
  · next j v heq =>
    rw [heq] at hingest
    exact h.sinks j.outputs j.timeoutSink (j.overflows + 1) hingest

theorem onNotice (hi : P (i, w)) (n : Option Notice) : P (i.onNotice n w) := by
  match n with
  | none => exact hi
  | some (.query q) => exact h.onQuery hi q
  | some (.data p) => exact h.onData hi p

theorem fire (hi : P (i, w)) {alarm : Alarm} (ha : (Act.alarm alarm).Possible i) :
    P (i.fire alarm w) := by
  obtain ⟨timer, hm⟩ := ha
  cases alarm with
  | tunnel alarm => exact h.step (.fire alarm) ⟨timer, by simpa [alarms] using hm⟩ hi
  | reporter alarm => exact h.ask (.alarm alarm) ⟨timer, by simpa [alarms] using hm⟩ hi
  | reaper => exact h.reap hi

theorem perform (hi : P (i, w)) {act : Act} (ha : act.Possible i) : P (i.perform act w) := by
  cases act with
  | addOutput sink =>
    show P (i.addOutput sink, w)
    unfold addOutput
    split
    · exact hi
    · exact h.sinks _ i.timeoutSink i.overflows hi
  | removeOutput sink => exact h.sinks _ i.timeoutSink i.overflows hi
  | setTimeoutSink sink => exact h.sinks i.outputs sink i.overflows hi
  | ingest p => exact h.ingest p hi
  | receive received => exact h.onNotice (h.step (.receive received) trivial hi) _
  | alarm alarm => exact h.fire hi ha
  | _ => exact h.request rfl hi

/-- Whatever is done with the interface but closing it. -/
theorem carryOut (hi : P (i, w)) {deed : Deed} (hd : deed.Possible i) (hopen : deed ≠ .close) :
    P (i.carryOut deed w) := by
  cases deed with
  | act act => exact h.perform hi hd
  | ask act => exact h.ask act hd hi
  | send report => exact h.step (.send report) trivial hi
  | start => exact h.step .start trivial hi
  | query q => exact h.onQuery hi q
  | data p => exact h.onData hi p
  | close => exact absurd rfl hopen

end Endures

/-- Nothing but deeds below the packets can bring a steadfast property to an end. -/
theorem Steadfast.endures {key : InterfaceKey} {P : Interface × World → Prop}
    (h : Steadfast key P)
    (step : ∀ {i w} (input : Tunnel.Input), input.Possible i.tunnel → P (i, w) →
      P ({ i with tunnel := (i.tunnel.step input w).1 }, (i.tunnel.step input w).2))
    (ask : ∀ {i w} act, (Deed.ask act).Possible i → P (i, w) → P (i.carryOut (.ask act) w))
    (request : ∀ {i w} {act : Act}, act.isRequest = true → P (i, w) → P (i.perform act w)) :
    Endures P where
  step := step
  ask := ask
  request := request
  chance hi := h.same hi ⟨rfl, rfl, rfl, rfl⟩ (World.elapsed_of_trace_eq rfl)
  ingest p hi := h.ingest hi p
  reap := h.reap
  sinks _ _ _ hi := h.at_once hi ⟨rfl, rfl, rfl, rfl⟩

/-- Nothing but closing closes an interface. -/
theorem closed_carryOut {i : Interface} {deed : Deed} (hd : deed.Possible i)
    (hopen : deed ≠ .close) (w : World) : (i.carryOut deed w).1.closed = i.closed := by
  have hsteadfast : Steadfast i.key fun s => s.1.closed = i.closed :=
    ⟨fun hi hsame _ => hsame.closed.trans hi, fun _ hi => hi⟩
  have h : Endures fun s => s.1.closed = i.closed := by
    refine hsteadfast.endures (fun _ _ hi => hi) (fun _ _ hi => hi) ?_
    intro j v act ha hi
    cases act with
    | join | leave | leaveSink | leaveAll => exact hi
    | _ => cases ha
  exact h.carryOut rfl hd hopen

end Interface

end MulticastTunnel
