import MulticastTunnel.Interface
import MulticastTunnel.Proofs.Channel.Reception
import MulticastTunnel.Proofs.Membership.Outlets
import MulticastTunnel.Proofs.Tunnel.Fencing

/-!
# Runs of an interface

Everything that can happen to an open interface, in any order: its owner subscribes
sinks and ends subscriptions, datagrams and errors are received, fragments are taken in,
a pending timer runs out. In between the world moves on. An interface is made of layers,
and each of them is only worked on through the one above it. Packets are worked on above
them all, which is why a property that is `Steadfast` outlasts what comes of a packet. `Upheld`
says what a relation between the branches of the tree and the layers below it has to keep,
so that all that is done on behalf of the branches keeps it.
-/

namespace MulticastTunnel

open Ordered MulticastTunnel.Membership

namespace World

variable {key : InterfaceKey} {w : World}

/-- What is done at the moment is done without sending for the interface. -/
theorem elapsed_of_trace_eq {v : World} (h : v.trace = w.trace) : w.Elapsed key v := by
  refine ⟨[], h, ?_⟩
  intro e he
  cases he

theorem elapsed_record {e : Event} (h : e.sentBy? key = none) : w.Elapsed key (w.record e) := by
  refine ⟨[e], rfl, ?_⟩
  intro e' he
  rw [List.mem_singleton.mp he]
  exact h

theorem elapsed_givePacket (sink : SinkId) (p : Packet) :
    w.Elapsed key (w.givePacket sink p).2 := elapsed_record rfl

theorem elapsed_giveDatagram (sink : SinkId) (d : Datagram) :
    w.Elapsed key (w.giveDatagram sink d).2 := elapsed_record rfl

end World

namespace Interface

/-! ## Acts -/

/-- What can happen to an open interface. -/
inductive Act
  | join (sink : SinkId) (c : Channel)
  | leave (sink : SinkId) (c : Channel)
  | leaveSink (sink : SinkId)
  | leaveAll
  | addOutput (sink : SinkId)
  | removeOutput (sink : SinkId)
  | setTimeoutSink (sink : Option SinkId)
  | ingest (p : Packet)
  /-- Receiving gave a datagram, or an error. -/
  | receive (received : Except SocketError Bytes)
  /-- A timer ran out. -/
  | alarm (alarm : Alarm)

/-- Only a timer that is pending runs out. -/
def Act.Possible (i : Interface) : Act → Prop
  | .alarm a => ∃ timer, (timer, a) ∈ i.alarms
  | _ => True

def perform (act : Act) (i : Interface) (w : World) : Interface × World :=
  match act with
  | .join sink c => (i.join sink c w).2
  | .leave sink c => (i.leave sink c w).2
  | .leaveSink sink => (i.leaveSink sink w).2
  | .leaveAll => (i.leaveAll w).2
  | .addOutput sink => (i.addOutput sink, w)
  | .removeOutput sink => ((i.removeOutput sink).2, w)
  | .setTimeoutSink sink => ({ i with timeoutSink := sink }, w)
  | .ingest p => (i.ingest p w).2
  | .receive received => i.receive received w
  | .alarm a => i.fire a w

/-- If the act is a join, then its report is not too large to be written. -/
def Act.Fits (act : Act) (i : Interface) (w : World) : Prop :=
  ∀ sink c, act = .join sink c →
    (i.join sink c w).1 ≠ .error (.membership (.codec (.packet .tooLarge)))

/-- The states that an open interface comes to by allowed acts. -/
inductive Reaches (key : InterfaceKey) (settings : InterfaceSettings)
    (Allowed : Act → Interface → World → Prop) : Interface → World → Prop
  | opened (w : World) : Reaches key settings Allowed ((create key settings).start w).2.1
      ((create key settings).start w).2.2
  | act {i : Interface} {w : World} (act : Act) : Reaches key settings Allowed i w →
      act.Possible i → Allowed act i w →
      Reaches key settings Allowed (i.perform act w).1 (i.perform act w).2
  | elapse {i : Interface} {w v : World} : Reaches key settings Allowed i w →
      w.Elapsed key v → Reaches key settings Allowed i v

/-! ## The layers below the channels -/

section Layers

variable {key : InterfaceKey} {settings : InterfaceSettings} {B : Set ChannelTree.BranchKey}
  {r : Reporter} {t : Tunnel} {w v : World} {s : Reporter × Tunnel × World}

/-- The reporter is asked for the branches and holds addresses of its family alone, and
the tunnel that it sends through is that of the interface. -/
structure Tends (key : InterfaceKey) (settings : InterfaceSettings)
    (B : Set ChannelTree.BranchKey) (s : Reporter × Tunnel × World) : Prop where
  receives : s.1.Receives B
  kindred : s.1.Kindred
  family : s.1.family = key.family
  configured : s.1.settings = settings.membership
  reachable : Tunnel.Reachable key settings.tunnel s.2.1 s.2.2

/-- What a reporter hands to its tunnel is one of the things that can happen to a tunnel. -/
theorem keeps_reachable (key : InterfaceKey) (settings : TunnelSettings) :
    Tunnel.outlet.Keeps fun s => Tunnel.Reachable key settings s.1 s.2 := by
  constructor
  · intro packet s h
    exact h.step (.send packet) trivial
  · intro s h
    exact h.elapse (World.elapsed_of_trace_eq rfl)

theorem Tends.owned (h : Tends key settings B s) : s.2.1.key = key := h.reachable.fenced.1

/-- Reports leave from an address of the family of the reporter. -/
theorem Tends.localAddress (h : Tends key settings B s) {u : Tunnel × World}
    (hu : Reporter.Idle Tunnel.outlet s.2 u) :
    (Tunnel.outlet.localAddress u).family = s.1.family := by
  rw [Tunnel.family_localAddress hu, h.owned, h.family]

/-- Whatever the reporter is asked for, it goes on tending to what it receives. -/
theorem Tends.of_reporter {r' : Reporter} {u : Tunnel × World} {C : Set ChannelTree.BranchKey}
    (h : Tends key settings B s) (hr : r'.Receives C) (hk : r'.Kindred)
    (hf : r'.family = s.1.family) (hs : r'.settings = s.1.settings)
    (hu : Tunnel.Reachable key settings.tunnel s.2.1 s.2.2 →
      Tunnel.Reachable key settings.tunnel u.1 u.2) :
    Tends key settings C (r', u) :=
  ⟨hr, hk, hf.trans h.family, hs.trans h.configured, hu h.reachable⟩

theorem tracks_tends (key : InterfaceKey) (settings : InterfaceSettings) (now : Nat) :
    (Reporter.control Tunnel.outlet now).Tracks (fun e => ∀ c, e ≠ .codec c)
      (Tends key settings) := by
  have hkeeps := keeps_reachable key settings.tunnel
  constructor
  · intro B s group source h _ hok
    have hsame := Reporter.sameAnswers_join Tunnel.outlet now group source s.1 s.2
    exact h.of_reporter (h.receives.join _ now _ hok) (h.kindred.join _ now group source _)
      hsame.family hsame.settings (hkeeps.join now group source s.1)
  · intro B s group source e h _ herr he
    have hsame := Reporter.sameAnswers_join Tunnel.outlet now group source s.1 s.2
    exact h.of_reporter (h.receives.refuse _ now _ herr he)
      (h.kindred.join _ now group source _) hsame.family hsame.settings
      (hkeeps.join now group source s.1)
  · intro B s group source h hb
    have hsame := Reporter.sameAnswers_leave Tunnel.outlet now group source s.1 s.2
    exact h.of_reporter (h.receives.leave _ now _ hb) (h.kindred.leave _ now group source _)
      hsame.family hsame.settings (hkeeps.leave now group source s.1)

theorem Tends.fire (h : Tends key settings B s) (now : Nat) (alarm : Reporter.Alarm) :
    Tends key settings B (s.1.fire Tunnel.outlet now alarm s.2) := by
  have hsame := Reporter.sameDemands_fire Tunnel.outlet now alarm s.1 s.2
  exact h.of_reporter (h.receives.of_same hsame) (h.kindred.fire _ now alarm _) hsame.family
    hsame.settings ((keeps_reachable key settings.tunnel).fire now alarm s.1)

theorem Tends.onQuery (h : Tends key settings B s) (now chance : Nat) (q : Query) :
    Tends key settings B (s.1.onQuery Tunnel.outlet now chance q s.2).2 := by
  have hanswered := Reporter.onQuery_cases Tunnel.outlet now chance q s.1 s.2
  have hsame := hanswered.sameDemands
  exact h.of_reporter (h.receives.of_same hsame) (h.kindred.answered hanswered) hsame.family
    hsame.settings ((keeps_reachable key settings.tunnel).onQuery now chance q s.1)

theorem Tends.elapse (h : Tends key settings B (r, t, w)) (he : w.Elapsed key v) :
    Tends key settings B (r, t, v) :=
  ⟨h.receives, h.kindred, h.family, h.configured, h.reachable.elapse he⟩

/-- Something happens to the tunnel. -/
theorem Tends.step (h : Tends key settings B (r, t, w)) (input : Tunnel.Input)
    (hin : input.Possible t) : Tends key settings B (r, t.step input w) :=
  ⟨h.receives, h.kindred, h.family, h.configured, h.reachable.step input hin⟩

end Layers

/-! ## What stays as it is above the reporter -/

/-- The same layers below the packets that come in. -/
structure SameLayers (i j : Interface) : Prop where
  channels : j.channels = i.channels
  reporter : j.reporter = i.reporter
  tunnel : j.tunnel = i.tunnel
  closed : j.closed = i.closed

/-- A property that outlasts a packet given to an output, which is then removed or not, and a
datagram given to its recipients. It outlasts whatever is delivered. -/
structure Withstands (P : Interface × World → Prop) : Prop where
  given : ∀ {i w} sink p outputs outputEvictions, P (i, w) →
    P ({ i with outputs, outputEvictions }, (w.givePacket sink p).2)
  dispatch : ∀ {i w} d, P (i, w) →
    P (i.onChannels w fun control tree u => tree.dispatch control deliverDatagram d u).2

namespace Withstands

variable {P : Interface × World → Prop} {i : Interface} {w : World} (h : Withstands P)

include h

theorem deliverOutputs (p : Packet) (sinks : List SinkId) (hi : P (i, w)) :
    P (Interface.deliverOutputs p sinks i w) := by
  induction sinks generalizing i w with
  | nil => exact hi
  | cons sink sinks ih =>
    have hgiven := fun outputs evictions => h.given sink p outputs evictions hi
    unfold Interface.deliverOutputs
    split
    · next heq =>
      rw [heq] at hgiven
      exact ih (hgiven i.outputs i.outputEvictions)
    · next heq =>
      rw [heq] at hgiven
      exact ih (hgiven _ _)

theorem deliver (hi : P (i, w)) (p : Packet) : P (i.deliver p w) := by
  have houtputs := h.deliverOutputs p i.outputs hi
  cases hd : channelDatagram? p with
  | none =>
    simp only [Interface.deliver, hd]
    exact houtputs
  | some d =>
    simp only [Interface.deliver, hd]
    exact h.dispatch d houtputs

theorem deliverAll (ps : List Packet) (hi : P (i, w)) : P (Interface.deliverAll ps i w) := by
  induction ps generalizing i w with
  | nil => exact hi
  | cons p ps ih => exact ih (h.deliver hi p)

theorem notify (sink : SinkId) (ps : List Packet) (hi : P (i, w)) :
    P (i, Interface.notify sink ps w) := by
  induction ps generalizing w with
  | nil => exact hi
  | cons p ps ih => exact ih (h.given sink p i.outputs i.outputEvictions hi)

end Withstands

/-- A property that lasts while the layers stay the same, and that outlasts a datagram given to
its recipients. It outlasts everything that comes of a packet. -/
structure Steadfast (key : InterfaceKey) (P : Interface × World → Prop) : Prop where
  same : ∀ {i j w v}, P (i, w) → i.SameLayers j → w.Elapsed key v → P (j, v)
  dispatch : ∀ {i w} d, P (i, w) →
    P (i.onChannels w fun control tree u => tree.dispatch control deliverDatagram d u).2

namespace Steadfast

variable {key : InterfaceKey} {P : Interface × World → Prop} {i j : Interface} {w : World}
  (h : Steadfast key P)

include h

theorem at_once (hi : P (i, w)) (hsame : i.SameLayers j) : P (j, w) :=
  h.same hi hsame (.refl key w)

theorem withstands : Withstands P where
  given sink p _ _ hi := h.same hi ⟨rfl, rfl, rfl, rfl⟩ (World.elapsed_givePacket sink p)
  dispatch := h.dispatch

theorem addOutput (hi : P (i, w)) (sink : SinkId) : P (i.addOutput sink, w) := by
  unfold Interface.addOutput
  split
  · exact hi
  · exact h.at_once hi ⟨rfl, rfl, rfl, rfl⟩

theorem ensureReaper (hi : P (i, w)) : P (i.ensureReaper w) := by
  unfold Interface.ensureReaper
  split
  · exact hi
  · exact h.same hi ⟨rfl, rfl, rfl, rfl⟩ (World.elapsed_timer key w reaperInterval)

theorem ingest (hi : P (i, w)) (p : Packet) : P (i.ingest p w).2 := by
  unfold Interface.ingest
  split
  · exact h.at_once hi ⟨rfl, rfl, rfl, rfl⟩
  · next completed reassembler _ =>
    have hreassembler : P ({ i with reassembler }, w) := h.at_once hi ⟨rfl, rfl, rfl, rfl⟩
    exact h.withstands.deliverAll completed (h.ensureReaper hreassembler)

theorem reap (hi : P (i, w)) : P (i.reap w) := by
  simp only [Interface.reap]
  split
  · exact h.at_once hi ⟨rfl, rfl, rfl, rfl⟩
  · apply h.withstands.deliverAll
    have hevicted :
        P ({ i with reaper := none, reassembler := (i.reassembler.evict w.now).2 }, w) :=
      h.at_once hi ⟨rfl, rfl, rfl, rfl⟩
    have hreaper := h.ensureReaper hevicted
    split
    · exact hreaper
    · exact h.withstands.notify _ _ hreaper

/-- A query goes to the reporter, every other notice is worked on above it. -/
theorem onNotice {n : Option Notice} (hi : P (i, w)) (hn : ∀ q, n ≠ some (.query q)) :
    P (i.onNotice n w) := by
  match n with
  | none => exact hi
  | some (.query q) => exact absurd rfl (hn q)
  | some (.data p) =>
    have hingest := h.ingest hi p
    show P (i.onData p w)
    unfold Interface.onData
    split
    · next heq =>
      rw [heq] at hingest
      exact hingest
    · next heq =>
      rw [heq] at hingest
      exact h.at_once hingest ⟨rfl, rfl, rfl, rfl⟩

end Steadfast

/-! ## What is kept on behalf of the branches -/

/-- A relation between the branches of a tree and the layers below it that joins and
leaves of branches keep, whatever comes of them, and that timers of the reporter and the
world around keep for the same branches. -/
structure Upheld (key : InterfaceKey) (settings : InterfaceSettings)
    (Rel : Set ChannelTree.BranchKey → Reporter × Tunnel × World → Prop) : Prop where
  tends : ∀ {B s}, Rel B s → Tends key settings B s
  tracks : ∀ now, (Reporter.control Tunnel.outlet now).Tracks (fun e => ∀ c, e ≠ .codec c) Rel
  fire : ∀ {B s} now alarm, Rel B s → Rel B (s.1.fire Tunnel.outlet now alarm s.2)
  elapse : ∀ {B r t w v}, Rel B (r, t, w) → w.Elapsed key v → Rel B (r, t, v)

theorem upheld_tends (key : InterfaceKey) (settings : InterfaceSettings) :
    Upheld key settings (Tends key settings) where
  tends := id
  tracks := tracks_tends key settings
  fire now alarm h := h.fire now alarm
  elapse h he := h.elapse he

/-- The branches of the interface are in the relation with the layers below them. -/
def Holds (Rel : Set ChannelTree.BranchKey → Reporter × Tunnel × World → Prop) (i : Interface)
    (w : World) : Prop :=
  i.channels.Synced Rel (i.reporter, i.tunnel, w)

section Upheld

variable {key : InterfaceKey} {settings : InterfaceSettings}
  {Rel : Set ChannelTree.BranchKey → Reporter × Tunnel × World → Prop} {i : Interface}
  {w v : World}

theorem Holds.elapse (hi : Holds Rel i w) (h : Upheld key settings Rel) (he : w.Elapsed key v) :
    Holds Rel i v := ⟨hi.1, h.elapse hi.2 he⟩

/-- A reporter that is asked for nothing has nothing to leave. -/
theorem leaveAll_of_receives_nothing {ω : Type} {r : Reporter} (h : r.Receives ∅) (o : Outlet ω)
    (now : Nat) (u : ω) : r.leaveAll o now u = (.ok (), r, u) := by
  have hnone : r.demands.keys = [] := by
    rw [List.eq_nil_iff_forall_not_mem]
    intro group hm
    obtain ⟨d, hd⟩ := OrderedMap.mem_keys.mp hm
    obtain ⟨source, hb⟩ := h.isSome_get?.mp (Option.isSome_iff_exists.mpr ⟨d, hd⟩)
    exact hb
  unfold Reporter.leaveAll
  rw [hnone]
  rfl

namespace Upheld

variable (h : Upheld key settings Rel)

include h

theorem join (hi : Holds Rel i w) {sink : SinkId} {c : Channel}
    (hfits : (i.join sink c w).1 ≠ .error (.membership (.codec (.packet .tooLarge)))) :
    Holds Rel (i.join sink c w).2.1 (i.join sink c w).2.2 := by
  apply ChannelTree.synced_join (h.tracks w.now) hi
  rintro e he c rfl
  cases Reporter.join_tooLarge (fun u hu => (h.tends hi.2).localAddress hu)
    (ChannelTree.control_join_of_join he)
  exact hfits he

theorem leave (hi : Holds Rel i w) (sink : SinkId) (c : Channel) :
    Holds Rel (i.leave sink c w).2.1 (i.leave sink c w).2.2 :=
  ChannelTree.synced_leave (h.tracks w.now) hi sink c

theorem leaveSink (hi : Holds Rel i w) (sink : SinkId) :
    Holds Rel (i.leaveSink sink w).2.1 (i.leaveSink sink w).2.2 :=
  ChannelTree.synced_leaveSink (h.tracks w.now) hi sink

/-- Once the tree is empty, there is nothing left to leave. -/
theorem leaveAll (hi : Holds Rel i w) :
    Holds Rel (i.leaveAll w).2.1 (i.leaveAll w).2.2 := by
  have hflush := ChannelTree.synced_flush (h.tracks w.now) hi
  set s := i.channels.flush (Reporter.control Tunnel.outlet w.now) (i.reporter, i.tunnel, w)
    with hs
  have hempty : s.1.held = ∅ := by
    apply Set.eq_empty_of_forall_notMem
    rintro ⟨group, source⟩ hb
    obtain ⟨branches, branch, hg, -⟩ := ChannelTree.mem_held_iff.mp hb
    cases hg
  have hreceives := (h.tends hflush.2).receives
  rw [hempty] at hreceives
  have hnothing := leaveAll_of_receives_nothing hreceives Tunnel.outlet s.2.2.2.now s.2.2
  have heq : (i.leaveAll w).2 =
      ({ i with channels := s.1, reporter := s.2.1, tunnel := s.2.2.1 }, s.2.2.2) := by
    show (({ i with
      channels := s.1
      reporter := (s.2.1.leaveAll Tunnel.outlet s.2.2.2.now s.2.2).2.1
      tunnel := (s.2.1.leaveAll Tunnel.outlet s.2.2.2.now s.2.2).2.2.1 } : Interface),
      (s.2.1.leaveAll Tunnel.outlet s.2.2.2.now s.2.2).2.2.2) = _
    rw [hnothing]
  rw [heq]
  exact hflush

/-- Packets are worked on above the reporter. -/
theorem steadfast : Steadfast key fun s => Holds Rel s.1 s.2 := by
  constructor
  · rintro i j w v hi hsame he
    refine ⟨?_, ?_⟩
    · rw [hsame.channels]
      exact hi.1
    · rw [hsame.channels, hsame.reporter, hsame.tunnel]
      exact h.elapse hi.2 he
  · intro i w d hi
    refine ChannelTree.synced_dispatch (h.tracks _) ?_ hi d
    rintro B sink d ⟨r, t, v⟩ hB
    exact h.elapse hB (World.elapsed_giveDatagram sink d)

/-- Only what the tunnel itself receives and its own timers reach past the reporter. -/
theorem perform (hi : Holds Rel i w) {act : Act} (hfits : act.Fits i w)
    (hreceive : ∀ received, act = .receive received →
      Holds Rel (i.receive received w).1 (i.receive received w).2)
    (htunnel : ∀ alarm, act = .alarm (.tunnel alarm) →
      Holds Rel (i.fire (.tunnel alarm) w).1 (i.fire (.tunnel alarm) w).2) :
    Holds Rel (i.perform act w).1 (i.perform act w).2 := by
  cases act with
  | join sink c => exact h.join hi (hfits sink c rfl)
  | leave sink c => exact h.leave hi sink c
  | leaveSink sink => exact h.leaveSink hi sink
  | leaveAll => exact h.leaveAll hi
  | addOutput sink => exact h.steadfast.addOutput hi sink
  | removeOutput sink => exact hi
  | setTimeoutSink sink => exact hi
  | ingest p => exact h.steadfast.ingest hi p
  | receive received => exact hreceive received rfl
  | alarm alarm =>
    cases alarm with
    | tunnel alarm => exact htunnel alarm rfl
    | reporter alarm => exact ⟨hi.1, h.fire w.now alarm hi.2⟩
    | reaper => exact h.steadfast.reap hi

end Upheld

end Upheld

/-! ## What every run keeps -/

section Run

variable {key : InterfaceKey} {settings : InterfaceSettings}
  {Allowed : Act → Interface → World → Prop} {i : Interface} {w : World}

theorem Holds.onQuery (hi : Holds (Tends key settings) i w) (q : Query) :
    Holds (Tends key settings) (i.onQuery q w).1 (i.onQuery q w).2 := by
  have hchance : w.Elapsed key w.chance.2 := World.elapsed_of_trace_eq rfl
  exact ⟨hi.1, (hi.2.elapse hchance).onQuery w.now w.chance.1 q⟩

theorem Holds.receive (hi : Holds (Tends key settings) i w)
    (received : Except SocketError Bytes) :
    Holds (Tends key settings) (i.receive received w).1 (i.receive received w).2 := by
  have hstep : Tends key settings i.channels.held (i.reporter, (i.tunnel.receive received w).2) :=
    hi.2.step (.receive received) trivial
  have hnotice : Holds (Tends key settings)
      { i with tunnel := (i.tunnel.receive received w).2.1 } (i.tunnel.receive received w).2.2 :=
    ⟨hi.1, hstep⟩
  unfold Interface.receive
  by_cases hq : ∃ q, (i.tunnel.receive received w).1 = some (.query q)
  · obtain ⟨q, hq⟩ := hq
    simp only [hq]
    exact hnotice.onQuery q
  · exact (upheld_tends key settings).steadfast.onNotice hnotice (not_exists.mp hq)

/-- Every join that fits leaves the reporter asked for the branches of the tree. -/
theorem Reaches.tends (h : Reaches key settings Allowed i w)
    (hfits : ∀ act i w, Allowed act i w → act.Fits i w) : Holds (Tends key settings) i w := by
  induction h with
  | opened w =>
    refine ⟨ChannelTree.pruned_empty, ?_⟩
    show Tends key settings ({} : ChannelTree).held _
    rw [ChannelTree.held_of_groups_empty rfl]
    exact ⟨Reporter.receives_nothing key.family settings.membership,
      Reporter.kindred_fresh key.family settings.membership, rfl, rfl,
      (Tunnel.Reachable.created w).step .start trivial⟩
  | @act i w act hreach hpossible hallowed ih =>
    refine (upheld_tends key settings).perform ih (hfits act i w hallowed) ?_ ?_
    · intro received _
      exact ih.receive received
    · rintro alarm rfl
      obtain ⟨timer, hm⟩ := hpossible
      refine ⟨ih.1, ih.2.step (.fire alarm) ⟨timer, ?_⟩⟩
      simpa [alarms] using hm
  | elapse _ he ih => exact ih.elapse (upheld_tends key settings) he

end Run

end Interface

end MulticastTunnel
