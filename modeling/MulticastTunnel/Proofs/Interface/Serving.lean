import MulticastTunnel.Proofs.Interface.Closing
import MulticastTunnel.Proofs.Interface.Deliveries
import MulticastTunnel.Proofs.Interface.Reaping

/-!
# What sinks are given by all that is done

Whole packets are produced by fragments that are taken in and by the reaper, and nothing else is
ever handed out, but for the notices to the timeout sink. `Serves` says so of one deed: it delivers
what it produced, to the outputs that are registered by then and to the channels. What happens to
the tunnel and the reporter is `Silent`, and requests for subscriptions change the tree alone. A
run keeps what this relies on, that no output is there twice and that the tree has no empty branch.
-/

namespace MulticastTunnel

open Ordered MulticastTunnel.Membership MulticastTunnel.Reassembly

namespace Interface

variable {i : Interface} {w : World} {outputs : List SinkId} {sink : SinkId}

/-! ## Nothing to deliver -/

/-- Nothing was given to a sink, and the sinks are the same. -/
structure Silent (s s' : Interface × World) : Prop where
  given : s'.2.given = s.2.given
  outputs : s'.1.outputs = s.1.outputs
  channels : s'.1.channels = s.1.channels

theorem Silent.refl (s : Interface × World) : Silent s s := ⟨rfl, rfl, rfl⟩

theorem Silent.trans {s s' s'' : Interface × World} (h : Silent s s') (h' : Silent s' s'') :
    Silent s s'' :=
  ⟨h'.given.trans h.given, h'.outputs.trans h.outputs, h'.channels.trans h.channels⟩

theorem silent_step (input : Tunnel.Input) (i : Interface) (w : World) :
    Silent (i, w) ({ i with tunnel := (i.tunnel.step input w).1 }, (i.tunnel.step input w).2) :=
  ⟨Tunnel.given_step input i.tunnel w, rfl, rfl⟩

theorem silent_ask (act : Reporter.Act) (i : Interface) (w : World) :
    Silent (i, w) (i.carryOut (.ask act) w) :=
  ⟨(Tunnel.keeps_given w.given).perform w.now act i.reporter (w := (i.tunnel, w)) rfl, rfl, rfl⟩

theorem silent_onQuery (q : Query) (i : Interface) (w : World) : Silent (i, w) (i.onQuery q w) :=
  Silent.trans (⟨rfl, rfl, rfl⟩ : Silent (i, w) (i, w.chance.2))
    (silent_ask (.query w.chance.1 q) i w.chance.2)

theorem silent_ensureReaper (i : Interface) (w : World) : Silent (i, w) (i.ensureReaper w) := by
  unfold ensureReaper
  split
  · exact .refl _
  · exact ⟨rfl, rfl, rfl⟩

/-- Requests for subscriptions change the tree, and nothing else that matters to sinks. -/
theorem given_request (hp : i.channels.Pruned) {act : Act} (ha : act.isRequest = true) (w : World) :
    (i.perform act w).2.given = w.given ∧ (i.perform act w).1.outputs = i.outputs := by
  have hr := Holds.request (Tunnel.keeps_given w.given) (i := i) (w := w) ⟨hp, rfl⟩ ha
  cases act with
  | join | leave | leaveSink | leaveAll => exact ⟨hr.2, rfl⟩
  | _ => cases ha

/-! ## Producers -/

/-- The whole packets that a packet completes. -/
def completed (p : Packet) (i : Interface) (now : Nat) : List Packet :=
  (i.reassembler.process p now).1.toOption.getD []

theorem Silent.exists_delivers {s s' : Interface × World} (h : Silent s s')
    (hn : s.1.outputs.Nodup) (ps : List Packet) : ∃ given,
    (deliverAll ps s'.1 s'.2).2.given = s.2.given ++ given ∧
      Delivers s.1.outputs s.1.channels ps given (deliverAll ps s'.1 s'.2).1.outputs
        (deliverAll ps s'.1 s'.2).1.channels := by
  have hn' : s'.1.outputs.Nodup := by
    rw [h.outputs]
    exact hn
  obtain ⟨given, hall, hdelivers⟩ := Interface.exists_delivers ps hn' s'.2
  rw [h.given] at hall
  rw [h.outputs, h.channels] at hdelivers
  exact ⟨given, hall, hdelivers⟩

/-- A packet that is taken in delivers all that it completes. -/
theorem exists_delivers_ingest (p : Packet) (hn : i.outputs.Nodup) (w : World) : ∃ given,
    (i.ingest p w).2.2.given = w.given ++ given ∧
      Delivers i.outputs i.channels (i.completed p w.now) given (i.ingest p w).2.1.outputs
        (i.ingest p w).2.1.channels := by
  unfold ingest completed
  split
  · next heq =>
    rw [heq]
    exact ⟨[], (List.append_nil _).symm, .done⟩
  · next ps reassembler heq =>
    rw [heq]
    have hready : Silent (i, w) ({ i with reassembler }.ensureReaper w) :=
      Silent.trans (⟨rfl, rfl, rfl⟩ : Silent (i, w) ({ i with reassembler }, w))
        (silent_ensureReaper _ w)
    exact hready.exists_delivers hn ps

/-- So does one that comes through the tunnel, whether or not there was room for it. -/
theorem exists_delivers_onData (p : Packet) (hn : i.outputs.Nodup) (w : World) : ∃ given,
    (i.onData p w).2.given = w.given ++ given ∧
      Delivers i.outputs i.channels (i.completed p w.now) given (i.onData p w).1.outputs
        (i.onData p w).1.channels := by
  have hingest := exists_delivers_ingest p hn w
  unfold onData
  split
  · next heq =>
    rw [heq] at hingest
    exact hingest
  · next heq =>
    rw [heq] at hingest
    exact hingest

theorem given_notify (sink : SinkId) (ps : List Packet) (w : World) : ∃ notices,
    (notify sink ps w).given = w.given ++ notices ∧
      notices.map Event.offered? = ps.map fun p => some (sink, p) := by
  induction ps generalizing w with
  | nil => exact ⟨[], (List.append_nil _).symm, rfl⟩
  | cons p ps ih =>
    obtain ⟨notices, hgiven, hnotices⟩ := ih (w.givePacket sink p).2
    refine ⟨.packet sink p (w.givePacket sink p).1.isOk :: notices, ?_, ?_⟩
    · rw [notify, hgiven, World.given_givePacket, List.append_assoc]
      rfl
    · rw [List.map_cons, hnotices]
      rfl

/-- The packets of datagrams that were dropped unfinished, for the sink that is told of them. -/
def notices (i : Interface) (now : Nat) : List (SinkId × Packet) :=
  match i.timeoutSink with
  | none => []
  | some sink => (i.reassembler.evict now).1.timedOut.map fun p => (sink, p)

/-- The reaper makes ready, tells of what it dropped, and then delivers. -/
theorem reap_eq (hopen : i.closed = false) (w : World) : ∃ j v, Silent (i, w) (j, v) ∧
    i.reap w = deliverAll (i.reassembler.evict w.now).1.completed j
      (match i.timeoutSink with
        | none => v
        | some sink => notify sink (i.reassembler.evict w.now).1.timedOut v) := by
  let evicted : Interface := { i with reaper := none, reassembler := (i.reassembler.evict w.now).2 }
  have hready : Silent (i, w) (evicted.ensureReaper w) :=
    Silent.trans (⟨rfl, rfl, rfl⟩ : Silent (i, w) (evicted, w)) (silent_ensureReaper _ w)
  have hsink : (evicted.ensureReaper w).1.timeoutSink = i.timeoutSink := by
    unfold ensureReaper
    split <;> rfl
  refine ⟨(evicted.ensureReaper w).1, (evicted.ensureReaper w).2, hready, ?_⟩
  rw [← hsink]
  exact if_neg (by simp [hopen])

/-- So what it hands out are the notices, and then the deliveries. -/
theorem exists_delivers_reap (hopen : i.closed = false) (hn : i.outputs.Nodup) (w : World) :
    ∃ told given, (i.reap w).2.given = w.given ++ (told ++ given) ∧
      told.map Event.offered? = (i.notices w.now).map some ∧
      Delivers i.outputs i.channels (i.reassembler.evict w.now).1.completed given
        (i.reap w).1.outputs (i.reap w).1.channels := by
  obtain ⟨j, v, hready, hreap⟩ := reap_eq hopen w
  have hgiven : v.given = w.given := hready.given
  rw [hreap]
  unfold notices
  cases i.timeoutSink with
  | none =>
    obtain ⟨given, hall, hdelivers⟩ := hready.exists_delivers hn
      (i.reassembler.evict w.now).1.completed
    exact ⟨[], given, hall, rfl, hdelivers⟩
  | some sink =>
    obtain ⟨told, hnotify, hmap⟩ := given_notify sink (i.reassembler.evict w.now).1.timedOut v
    -- Telling of what was dropped changes the world alone.
    have hquiet : Silent (i, notify sink (i.reassembler.evict w.now).1.timedOut v)
        (j, notify sink (i.reassembler.evict w.now).1.timedOut v) :=
      ⟨rfl, hready.outputs, hready.channels⟩
    obtain ⟨given, hall, hdelivers⟩ := hquiet.exists_delivers hn
      (i.reassembler.evict w.now).1.completed
    refine ⟨told, given, ?_, ?_, hdelivers⟩
    · rw [hall, hnotify, hgiven, List.append_assoc]
    · rw [hmap, List.map_map]
      rfl

/-! ## Deeds -/

/-- The deed is a request for subscriptions. -/
def Deed.isRequest : Deed → Bool
  | .act a => a.isRequest
  | _ => false

/-- The outputs once the deed has added or removed one. -/
def Deed.registers (outputs : List SinkId) : Deed → List SinkId
  | .act (.addOutput sink) => if sink ∈ outputs then outputs else outputs ++ [sink]
  | .act (.removeOutput sink) => outputs.filter (· ≠ sink)
  | _ => outputs

/-- The whole packets that come out of the reassembler for the deed, in this order. -/
def Deed.produced (i : Interface) (w : World) : Deed → List Packet
  | .act (.ingest p) => i.completed p w.now
  | .act (.receive received) =>
    match (i.tunnel.receive received w).1 with
    | some (.data p) => i.completed p w.now
    | _ => []
  | .act (.alarm .reaper) => (i.reassembler.evict w.now).1.completed
  | .data p => i.completed p w.now
  | _ => []

/-- What the deed tells the sink for datagrams that were dropped unfinished. -/
def Deed.tells (i : Interface) (w : World) : Deed → List (SinkId × Packet)
  | .act (.alarm .reaper) => i.notices w.now
  | _ => []

/-- What a deed does to the sinks: after the notices it delivers what it produced, to the outputs
that are registered and the channels there are. -/
structure Serves (deed : Deed) (i : Interface) (w : World) (told given : List Event) : Prop where
  log : (i.carryOut deed w).2.given = w.given ++ (told ++ given)
  notices : told.map Event.offered? = (deed.tells i w).map some
  delivers : ∃ tree, Delivers (deed.registers i.outputs) i.channels (deed.produced i w) given
    (i.carryOut deed w).1.outputs tree ∧
      (deed.isRequest = false → (i.carryOut deed w).1.channels = tree)

variable {deed : Deed}

theorem serves_of_nothing (hlog : (i.carryOut deed w).2.given = w.given)
    (houtputs : (i.carryOut deed w).1.outputs = deed.registers i.outputs)
    (hchannels : deed.isRequest = false → (i.carryOut deed w).1.channels = i.channels)
    (hproduced : deed.produced i w = []) (htells : deed.tells i w = []) :
    Serves deed i w [] [] where
  log := by rw [hlog, List.append_nil, List.append_nil]
  notices := by rw [htells]; rfl
  delivers := by
    rw [houtputs, hproduced]
    exact ⟨_, .done, hchannels⟩

theorem Silent.serves (h : Silent (i, w) (i.carryOut deed w))
    (hregisters : deed.registers i.outputs = i.outputs) (hproduced : deed.produced i w = [])
    (htells : deed.tells i w = []) : Serves deed i w [] [] :=
  serves_of_nothing h.given (h.outputs.trans hregisters.symm) (fun _ => h.channels) hproduced htells

theorem serves_addOutput (sink : SinkId) (i : Interface) (w : World) :
    Serves (.act (.addOutput sink)) i w [] [] := by
  have hadded : (i.addOutput sink).outputs = Deed.registers i.outputs (.act (.addOutput sink)) ∧
      (i.addOutput sink).channels = i.channels := by
    simp only [addOutput, Deed.registers]
    split <;> exact ⟨rfl, rfl⟩
  exact serves_of_nothing rfl hadded.1 (fun _ => hadded.2) rfl rfl

/-- A request gives nothing to anybody; what it makes of the tree is its own affair. -/
theorem serves_request (hp : i.channels.Pruned) {act : Act} (ha : act.isRequest = true)
    (w : World) : Serves (.act act) i w [] [] := by
  obtain ⟨hgiven, houtputs⟩ := given_request hp ha w
  cases act with
  | join | leave | leaveSink | leaveAll => exact serves_of_nothing hgiven houtputs nofun rfl rfl
  | _ => cases ha

/-- The tunnel may have nothing to tell, or a query, or a packet. -/
theorem serves_receive (received : Except SocketError Bytes) (hn : i.outputs.Nodup) (w : World) :
    ∃ given, Serves (.act (.receive received)) i w [] given := by
  have hstep := silent_step (.receive received) i w
  have hnow := Tunnel.now_step i.tunnel w (.receive received)
  obtain ⟨notice, t, v, hreceive⟩ : ∃ notice t v,
      i.tunnel.receive received w = (notice, t, v) := ⟨_, _, _, rfl⟩
  simp only [Tunnel.step, hreceive] at hstep hnow
  have hafter : i.carryOut (.act (.receive received)) w =
      onNotice notice { i with tunnel := t } v := by
    simp only [carryOut, perform, receive, hreceive]
  cases notice with
  | none =>
    have hproduced : Deed.produced i w (.act (.receive received)) = [] := by
      simp only [Deed.produced, hreceive]
    refine ⟨[], Silent.serves ?_ rfl hproduced rfl⟩
    rw [hafter]
    exact hstep
  | some notice =>
    cases notice with
    | query q =>
      have hproduced : Deed.produced i w (.act (.receive received)) = [] := by
        simp only [Deed.produced, hreceive]
      refine ⟨[], Silent.serves ?_ rfl hproduced rfl⟩
      rw [hafter]
      exact hstep.trans (silent_onQuery q { i with tunnel := t } v)
    | data p =>
      have hproduced : Deed.produced i w (.act (.receive received)) = i.completed p w.now := by
        simp only [Deed.produced, hreceive]
      obtain ⟨given, hlog, hdelivers⟩ :=
        exists_delivers_onData p (i := { i with tunnel := t }) hn v
      rw [show v.given = w.given from hstep.given] at hlog
      rw [hnow] at hdelivers
      refine ⟨given, ?_, rfl, _, ?_, fun _ => rfl⟩
      · rw [hafter]
        exact hlog
      · rw [hafter, hproduced]
        exact hdelivers

/-- **What is handed out is what was produced**, whatever is done with an open interface. -/
theorem exists_serves (hopen : i.closed = false) (hp : i.channels.Pruned) (hn : i.outputs.Nodup)
    (w : World) (hdeed : deed ≠ .close) : ∃ told given, Serves deed i w told given := by
  cases deed with
  | ask act => exact ⟨[], [], (silent_ask act i w).serves rfl rfl rfl⟩
  | send report => exact ⟨[], [], (silent_step (.send report) i w).serves rfl rfl rfl⟩
  | start => exact ⟨[], [], (silent_step .start i w).serves rfl rfl rfl⟩
  | query q => exact ⟨[], [], (silent_onQuery q i w).serves rfl rfl rfl⟩
  | data p =>
    obtain ⟨given, hlog, hdelivers⟩ := exists_delivers_onData p hn w
    exact ⟨[], given, hlog, rfl, _, hdelivers, fun _ => rfl⟩
  | close => exact absurd rfl hdeed
  | act act =>
    cases act with
    | addOutput sink => exact ⟨[], [], serves_addOutput sink i w⟩
    | removeOutput sink => exact ⟨[], [], serves_of_nothing rfl rfl (fun _ => rfl) rfl rfl⟩
    | setTimeoutSink sink => exact ⟨[], [], Silent.serves ⟨rfl, rfl, rfl⟩ rfl rfl rfl⟩
    | ingest p =>
      obtain ⟨given, hlog, hdelivers⟩ := exists_delivers_ingest p hn w
      exact ⟨[], given, hlog, rfl, _, hdelivers, fun _ => rfl⟩
    | receive received =>
      obtain ⟨given, hserves⟩ := serves_receive received hn w
      exact ⟨[], given, hserves⟩
    | alarm alarm =>
      cases alarm with
      | tunnel alarm => exact ⟨[], [], (silent_step (.fire alarm) i w).serves rfl rfl rfl⟩
      | reporter alarm =>
        exact ⟨[], [], Silent.serves (silent_ask (.alarm alarm) i w) rfl rfl rfl⟩
      | reaper =>
        obtain ⟨told, given, hlog, htold, hdelivers⟩ := exists_delivers_reap hopen hn w
        exact ⟨told, given, hlog, htold, _, hdelivers, fun _ => rfl⟩
    | _ => exact ⟨[], [], serves_request hp rfl w⟩

/-! ## Runs -/

theorem Deed.nodup_registers (deed : Deed) (hn : outputs.Nodup) :
    (deed.registers outputs).Nodup := by
  unfold registers
  split
  · next sink =>
    split
    · exact hn
    · next hout =>
      rw [← List.concat_eq_append]
      exact hn.concat hout
  · exact hn.filter _
  · exact hn

/-- An output is there only after it was added. -/
theorem Deed.notMem_registers (hdeed : deed ≠ .act (.addOutput sink)) (hout : sink ∉ outputs) :
    sink ∉ deed.registers outputs := by
  unfold registers
  split
  · next other =>
    have hne : sink ≠ other := by
      rintro rfl
      exact hdeed rfl
    split
    · exact hout
    · simp [hout, hne]
  · exact fun hm => hout (List.mem_of_mem_filter hm)
  · exact hout

namespace Serves

variable {told given : List Event} (h : Serves deed i w told given)

include h

theorem sublist : (i.carryOut deed w).1.outputs.Sublist (deed.registers i.outputs) := by
  obtain ⟨tree, hdelivers, -⟩ := h.delivers
  exact hdelivers.sublist

theorem offered (hn : i.outputs.Nodup) (sink : SinkId) :
    OfferedInTurn sink (deed.registers i.outputs) (deed.produced i w) (offersTo sink given)
      (i.carryOut deed w).1.outputs := by
  obtain ⟨tree, hdelivers, -⟩ := h.delivers
  exact hdelivers.offered (deed.nodup_registers hn) sink

end Serves

/-- Open, with no output twice and no branch empty. -/
structure Ready (i : Interface) : Prop where
  opened : i.closed = false
  pruned : i.channels.Pruned
  nodup : i.outputs.Nodup

theorem ready_create (key : InterfaceKey) (settings : InterfaceSettings) :
    Ready (create key settings) :=
  ⟨rfl, ChannelTree.pruned_empty, .nil⟩

theorem pruned_carryOut (hp : i.channels.Pruned) (hd : deed.Possible i) (hdeed : deed ≠ .close)
    (w : World) : (i.carryOut deed w).1.channels.Pruned := by
  have hsteadfast : Steadfast i.key fun s => s.1.channels.Pruned := by
    refine ⟨fun {j j' v v'} hj hsame _ => ?_, fun {j v} d hj => ?_⟩
    · show j'.channels.Pruned
      rw [hsame.channels]
      exact hj
    · exact ChannelTree.Pruned.perform hj _ deliverDatagram (.dispatch d) _
  have hendures : Endures fun s => s.1.channels.Pruned :=
    hsteadfast.endures (fun _ _ hj => hj) (fun _ _ hj => hj)
      fun ha hj => (aside_request hj _ ha).pruned
  exact hendures.carryOut hp hd hdeed

namespace Ready

variable (h : Ready i)

include h

theorem serves (hdeed : deed ≠ .close) (w : World) : ∃ told given, Serves deed i w told given :=
  exists_serves h.opened h.pruned h.nodup w hdeed

theorem carryOut (hd : deed.Possible i) (hdeed : deed ≠ .close) (w : World) :
    Ready (i.carryOut deed w).1 where
  opened := (closed_carryOut hd hdeed w).trans h.opened
  pruned := pruned_carryOut h.pruned hd hdeed w
  nodup := by
    obtain ⟨told, given, hserves⟩ := h.serves hdeed w
    exact (deed.nodup_registers h.nodup).sublist hserves.sublist

end Ready

variable {key : InterfaceKey} {settings : InterfaceSettings} {Allowed : Deed → Prop}
  {s : Interface × World} {w₀ : World}

theorem Leads.ready (h : Leads key Allowed s i w) (hopen : ∀ deed, Allowed deed → deed ≠ .close)
    (hs : Ready s.1) : Ready i := by
  induction h with
  | refl => exact hs
  | deed deed _ hd hallowed ih => exact ih.carryOut hd (hopen deed hallowed) _
  | elapse _ _ ih => exact ih

/-- Whatever else is done, an output that is gone stays away until it is added. -/
theorem Leads.notMem_outputs (hs : Ready s.1) (hout : sink ∉ s.1.outputs)
    (h : Leads key (fun deed => deed ≠ .close ∧ deed ≠ .act (.addOutput sink)) s i w) :
    Ready i ∧ sink ∉ i.outputs := by
  induction h with
  | refl => exact ⟨hs, hout⟩
  | @deed i w deed _ hd hallowed ih =>
    obtain ⟨hready, hgone⟩ := ih
    obtain ⟨told, given, hserves⟩ := hready.serves hallowed.1 w
    exact ⟨hready.carryOut hd hallowed.1 w,
      fun hm => deed.notMem_registers hallowed.2 hgone (hserves.sublist.subset hm)⟩
  | elapse _ _ ih => exact ih

/-- **Whole packets are offered once.** Whatever an open interface came to, whatever is done with it
delivers what it produced and nothing else: to each output that there is by then in turn, until
there is a packet that it does not take, and to the channels what is for them. No output is there
twice, and one that is gone is offered nothing until it is added again. -/
theorem Leads.delivered_each_once (h : Leads key (· ≠ .close) (create key settings, w₀) i w) :
    i.outputs.Nodup ∧
    (∀ deed : Deed, deed ≠ .close → ∃ told given, Serves deed i w told given ∧
      ∀ sink, OfferedInTurn sink (deed.registers i.outputs) (deed.produced i w)
        (offersTo sink given) (i.carryOut deed w).1.outputs) ∧
    (∀ sink ∉ i.outputs, ∀ j v,
      Leads key (fun deed => deed ≠ .close ∧ deed ≠ .act (.addOutput sink)) (i, w) j v →
      sink ∉ j.outputs ∧ ∀ deed told given, deed ≠ .act (.addOutput sink) →
        Serves deed j v told given → offersTo sink given = []) ∧
    ∀ p, (∃ d, channelDatagram? p = some d) ↔ p.protocol = Protocol.udp ∧ p.isFragment = false ∧
      Datagram.headerLength ≤ p.payload.length ∧ p.destination.isMulticast = true := by
  have hready := h.ready (fun _ hopen => hopen) (ready_create key settings)
  refine ⟨hready.nodup, fun deed hdeed => ?_, fun sink hout j v hled => ?_,
    fun p => exists_channelDatagram?_iff⟩
  · obtain ⟨told, given, hserves⟩ := hready.serves hdeed w
    exact ⟨told, given, hserves, hserves.offered hready.nodup⟩
  · obtain ⟨hlater, hgone⟩ := Leads.notMem_outputs hready hout hled
    exact ⟨hgone, fun deed told given hdeed hserves =>
      (hserves.offered hlater.nodup sink).none (deed.notMem_registers hdeed hgone)⟩

/-! ## Two datagrams at once -/

def narrowKey : InterfaceKey := ⟨.read .ipv4 [192, 0, 2, 1], .ipv6⟩

/-- There is room for one unfinished datagram. -/
def narrowSettings : InterfaceSettings :=
  { membership := { timing := .immediate }, reassembly := { slots := 1 } }

/-- The first fragment of a datagram to port 5000, which holds the header. -/
def firstHead : Packet :=
  (Reassembler.fragmentV6? 1 Protocol.udp 1 [4, 0xd2, 0x13, 0x88, 0, 16, 0, 0]).get
    (by decide +kernel)

/-- The last one, which holds eight octets. -/
def firstTail : Packet :=
  (Reassembler.fragmentV6? 1 Protocol.udp 8 [1, 1, 1, 1, 1, 1, 1, 1]).get (by decide +kernel)

/-- The same of another datagram. -/
def secondHead : Packet :=
  (Reassembler.fragmentV6? 2 Protocol.udp 1 [4, 0xd2, 0x13, 0x88, 0, 16, 0, 0]).get
    (by decide +kernel)

def secondTail : Packet :=
  (Reassembler.fragmentV6? 2 Protocol.udp 8 [2, 2, 2, 2, 2, 2, 2, 2]).get (by decide +kernel)

/-- A sink subscribes to what these datagrams are sent to. -/
def listening : Act :=
  .join ⟨3⟩ ⟨.read .ipv6 [0xff, 0x3e, 0, 0, 0, 0, 0, 0, 0, 0, 0, 0, 0x80, 0, 0, 1],
    some (.read .ipv6 [0x20, 1, 0x0d, 0xb8, 0, 0, 0, 0, 0, 0, 0, 0, 0, 0, 0, 1]), 5000⟩

def narrow : Interface × World :=
  let s := ((create narrowKey narrowSettings).start { oracle := friendly }).2
  (s.1, { s.2 with oracle := friendly })

/-- There are two outputs and one more sink that listens. -/
def attended : Interface × World :=
  performed (.addOutput ⟨2⟩) (performed (.addOutput ⟨1⟩) (performed listening narrow))

/-- One datagram has come but for its end. Another one is complete and waits for its room. -/
def crowded : Interface × World :=
  performed (.ingest secondTail) (performed (.ingest secondHead)
    (performed (.ingest firstHead) attended))

/-- The first of the outputs is gone. -/
def deserted : Interface × World :=
  (crowded.1, { crowded.2 with oracle := friendly.onSink ⟨1⟩ (.error .disconnected) })

theorem leads_deserted :
    Leads narrowKey (· ≠ .close) (create narrowKey narrowSettings, { oracle := friendly })
      deserted.1 deserted.2 := by
  have hnarrow : Leads narrowKey (· ≠ .close)
      (create narrowKey narrowSettings, { oracle := friendly }) narrow.1 narrow.2 :=
    (Leads.refl.deed .start trivial (by simp)).elapse (.of_trace_eq rfl)
  have hattended : Leads narrowKey (· ≠ .close)
      (create narrowKey narrowSettings, { oracle := friendly }) attended.1 attended.2 :=
    ((hnarrow.performed listening trivial).performed (.addOutput ⟨1⟩) trivial).performed
      (.addOutput ⟨2⟩) trivial
  exact (((hattended.performed (.ingest firstHead) trivial).performed
    (.ingest secondHead) trivial).performed (.ingest secondTail) trivial).elapse (.of_trace_eq rfl)

/-- The end of the one datagram completes both of them. The output that is gone is offered the
first and then nothing, the other output takes both, and so does the sink that listens. -/
theorem deserted_delivered_each_once :
    let deed := Deed.act (.ingest (firstTail))
    let after := deserted.1.carryOut deed deserted.2
    deserted.1.outputs = [⟨1⟩, ⟨2⟩] ∧ after.1.outputs = [⟨2⟩] ∧
    (deed.produced deserted.1 deserted.2).length = 2 ∧
    (∃ told given, Serves deed deserted.1 deserted.2 told given ∧
      offersTo ⟨2⟩ given = (deed.produced deserted.1 deserted.2).map (·, true) ∧
      ∃ front p behind, deed.produced deserted.1 deserted.2 = front ++ p :: behind ∧
        offersTo ⟨1⟩ given = front.map (·, true) ++ [(p, false)]) ∧
    after.1.stats.delivered = 2 ∧
    ∀ j v, Leads narrowKey (fun deed => deed ≠ .close ∧ deed ≠ .act (.addOutput ⟨1⟩)) after j v →
      ⟨1⟩ ∉ j.outputs := by
  intro deed after
  have houtputs : deserted.1.outputs = [⟨1⟩, ⟨2⟩] := by decide +kernel
  have hleft : after.1.outputs = [⟨2⟩] := by decide +kernel
  have hdeed : deed ≠ .close := by simp [deed]
  obtain ⟨-, hserves, -⟩ := leads_deserted.delivered_each_once
  obtain ⟨told, given, hserved, hoffered⟩ := hserves deed hdeed
  obtain ⟨-, -, hgone, -⟩ := (leads_deserted.deed deed trivial hdeed).delivered_each_once
  refine ⟨houtputs, hleft, by decide +kernel, ⟨told, given, hserved, ?_, ?_⟩, by decide +kernel,
    fun j v hled => (hgone ⟨1⟩ ?_ j v hled).1⟩
  · exact (hoffered ⟨2⟩).all (by rw [hleft]; decide)
  · refine (hoffered ⟨1⟩).failed ?_ (by rw [hleft]; decide)
    show ⟨1⟩ ∈ deserted.1.outputs
    rw [houtputs]
    decide
  · rw [hleft]
    decide

end Interface

end MulticastTunnel
