import Mathlib.Data.List.Nodup
import Mathlib.Logic.Function.Basic
import MulticastTunnel.Proofs.Channel.Answers
import MulticastTunnel.Proofs.Interface.Deeds

/-!
# Whole packets on their way to the sinks

Whole packets come from the reassembler, when a fragment completes them and when the reaper makes
room for what was waiting. `Delivers` tells what becomes of a list of them, packet by packet: each
is offered to all outputs that there are by then, those that do not take it are gone for the next
one, and the datagram in it, if there is one for the channels, is dispatched once. Which sinks
there are and which datagrams is settled before anybody answers; so no answer has any part in what
the other sinks are given of the same packet. Seen from one output, the packets come in turn and
each of them once, until there is one that it does not take.
-/

namespace MulticastTunnel

open Ordered MulticastTunnel.Membership MulticastTunnel.Reassembly

/-! ## What sinks are given -/

namespace Event

/-- A sink was given something. -/
def isGiven : Event → Bool
  | packet .. => true
  | datagram .. => true
  | _ => false

/-- The packet that was offered, and the sink that it was offered to. -/
def offered? : Event → Option (SinkId × Packet)
  | packet sink p _ => some (sink, p)
  | _ => none

/-- The packet that a sink was offered, and whether it took it. -/
def offerTo? (sink : SinkId) : Event → Option (Packet × Bool)
  | packet s p taken => if s = sink then some (p, taken) else none
  | _ => none

end Event

namespace World

variable {w v : World}

/-- What sinks were given so far, the earliest first. -/
def given (w : World) : List Event := (w.trace.filter Event.isGiven).reverse

theorem given_of_append {events : List Event} (h : v.trace = events ++ w.trace)
    (hnone : ∀ e ∈ events, e.isGiven = false) : v.given = w.given := by
  have hfilter : events.filter Event.isGiven = [] := by
    rw [List.filter_eq_nil_iff]
    intro e he
    rw [hnone e he]
    exact Bool.false_ne_true
  rw [given, h, List.filter_append, hfilter, List.nil_append, given]

theorem given_givePacket (w : World) (sink : SinkId) (p : Packet) :
    (w.givePacket sink p).2.given =
      w.given ++ [.packet sink p (w.givePacket sink p).1.isOk] :=
  List.reverse_cons

theorem given_giveDatagram (w : World) (sink : SinkId) (d : Datagram) :
    (w.giveDatagram sink d).2.given =
      w.given ++ [.datagram sink d (w.giveDatagram sink d).1.isOk] :=
  List.reverse_cons

end World

namespace Tunnel

/-- A tunnel has nothing to do with sinks. -/
theorem Course.not_given {input : Input} {t u : Tunnel} {w : World} {answer : Option Message}
    {events : List Event} (h : Course input t w answer events u) :
    ∀ e ∈ events, e.isGiven = false := by
  have htrial : ∀ {answer trial}, Trial t answer trial → ∀ e ∈ trial, e.isGiven = false := by
    intro answer trial h
    cases h <;> simp [Event.isGiven]
  cases h with
  | seek _ _ _ _ _ _ _ _ h => simpa [Event.isGiven] using htrial h
  | establish events _ _ h =>
    intro e he
    obtain ⟨_, _, _, -, -, rfl⟩ := h e he
    rfl
  | _ => simp [Event.isGiven]

theorem given_step (input : Input) (t : Tunnel) (w : World) :
    (t.step input w).2.given = w.given := by
  obtain ⟨events, htrace, hc⟩ := takes_step input t w
  exact World.given_of_append htrace hc.not_given

theorem keeps_given (log : List Event) : outlet.Keeps fun s => s.2.given = log where
  send packet s h := (given_step (.send packet) s.1 s.2).trans h
  serial _ h := h

end Tunnel

namespace Interface

variable {i : Interface} {w : World} {outputs outputs' : List SinkId} {tree tree' : ChannelTree}
  {ps : List Packet} {p : Packet} {given : List Event} {sink : SinkId}

/-! ## Deliveries -/

/-- The packet is offered to the sinks, in order. -/
def offers (p : Packet) (taken : SinkId → Bool) (sinks : List SinkId) : List Event :=
  sinks.map fun sink => .packet sink p (taken sink)

/-- The datagram is given to the sinks, in order. -/
def handed (d : Datagram) (answer : SinkId → Except SinkError Unit) (sinks : List SinkId) :
    List Event :=
  sinks.map fun sink => .datagram sink d (answer sink).isOk

theorem offers_update {sinks : List SinkId} (h : sink ∉ sinks) (p : Packet)
    (taken : SinkId → Bool) (took : Bool) :
    offers p (Function.update taken sink took) (sink :: sinks) =
      .packet sink p took :: offers p taken sinks := by
  rw [offers, List.map_cons, Function.update_self]
  congr 1
  refine List.map_congr_left fun s hs => ?_
  rw [Function.update_of_ne (ne_of_mem_of_not_mem hs h)]

theorem handed_update {sinks : List SinkId} (h : sink ∉ sinks) (d : Datagram)
    (answer : SinkId → Except SinkError Unit) (result : Except SinkError Unit) :
    handed d (Function.update answer sink result) (sink :: sinks) =
      .datagram sink d result.isOk :: handed d answer sinks := by
  rw [handed, List.map_cons, Function.update_self]
  congr 1
  refine List.map_congr_left fun s hs => ?_
  rw [Function.update_of_ne (ne_of_mem_of_not_mem hs h)]

/-- What a packet is to the channels: its datagram is dispatched, if it is one of theirs. -/
inductive Dispatches (tree : ChannelTree) (p : Packet) : List Event → ChannelTree → Prop
  | never : channelDatagram? p = none → Dispatches tree p [] tree
  | once {d : Datagram} (answer : SinkId → Except SinkError Unit) : channelDatagram? p = some d →
      Dispatches tree p (handed d answer (tree.recipients d)) (tree.dispatched answer d)

/-- What becomes of packets one after the other, with the outputs and the channels as they are
when it is the turn of the first and when all is done. -/
inductive Delivers : List SinkId → ChannelTree → List Packet → List Event → List SinkId →
    ChannelTree → Prop
  | done {outputs : List SinkId} {tree : ChannelTree} : Delivers outputs tree [] [] outputs tree
  | next {outputs outputs' : List SinkId} {tree between tree' : ChannelTree} {p : Packet}
      {ps : List Packet} {events given : List Event} (taken : SinkId → Bool) :
      Dispatches tree p events between →
      Delivers (outputs.filter taken) between ps given outputs' tree' →
      Delivers outputs tree (p :: ps) (offers p taken outputs ++ (events ++ given)) outputs' tree'

/-- The datagrams for the channels: unfragmented, well-formed and sent to a group. -/
theorem exists_channelDatagram?_iff : (∃ d, channelDatagram? p = some d) ↔
    p.protocol = Protocol.udp ∧ p.isFragment = false ∧ Datagram.headerLength ≤ p.payload.length ∧
      p.destination.isMulticast = true := by
  unfold channelDatagram?
  by_cases hfor : p.protocol = Protocol.udp ∧ p.destination.isMulticast = true
  · rw [if_pos hfor]
    unfold Datagram.parse
    by_cases hfragment : p.isFragment = true
    · simp [hfor, hfragment, Except.toOption]
    · by_cases hshort : p.payload.length < Datagram.headerLength
      · simp [hfor, hfragment, hshort, Except.toOption]
      · simp [hfor, hfragment, hshort, Except.toOption, Nat.le_of_not_lt hshort]
  · rw [if_neg hfor]
    simp only [reduceCtorEq, exists_false, false_iff]
    rintro ⟨hudp, -, -, hgroup⟩
    exact hfor ⟨hudp, hgroup⟩

/-- Outputs are only removed. -/
theorem Delivers.sublist (h : Delivers outputs tree ps given outputs' tree') :
    outputs'.Sublist outputs := by
  induction h with
  | done => exact .refl _
  | next _ _ _ ih => exact ih.trans List.filter_sublist

/-! ## One output among the others -/

/-- What an output was offered, and whether it took it. -/
def offersTo (sink : SinkId) (given : List Event) : List (Packet × Bool) :=
  given.filterMap (Event.offerTo? sink)

theorem offersTo_append (sink : SinkId) (given more : List Event) :
    offersTo sink (given ++ more) = offersTo sink given ++ offersTo sink more :=
  List.filterMap_append

theorem offersTo_offers_of_notMem {sinks : List SinkId} (taken : SinkId → Bool)
    (h : sink ∉ sinks) : offersTo sink (offers p taken sinks) = [] := by
  rw [offersTo, List.filterMap_eq_nil_iff]
  intro e he
  obtain ⟨s, hs, rfl⟩ := List.mem_map.mp he
  exact if_neg (ne_of_mem_of_not_mem hs h)

/-- An output that there is once is offered the packet once. -/
theorem offersTo_offers_of_mem {sinks : List SinkId} (taken : SinkId → Bool) (hn : sinks.Nodup)
    (h : sink ∈ sinks) : offersTo sink (offers p taken sinks) = [(p, taken sink)] := by
  obtain ⟨front, behind, rfl⟩ := List.append_of_mem h
  obtain ⟨-, hsink, hdisjoint⟩ := List.nodup_append'.mp hn
  have hfront : sink ∉ front := fun hm => hdisjoint hm List.mem_cons_self
  have hbehind : sink ∉ behind := (List.nodup_cons.mp hsink).1
  have hself : offersTo sink (offers p taken [sink]) = [(p, taken sink)] := by
    simp [offersTo, offers, Event.offerTo?]
  rw [offers, List.map_append, offersTo_append, ← List.singleton_append, List.map_append,
    offersTo_append]
  rw [show offersTo sink (front.map _) = [] from offersTo_offers_of_notMem taken hfront,
    show offersTo sink ([sink].map _) = _ from hself,
    show offersTo sink (behind.map _) = [] from offersTo_offers_of_notMem taken hbehind]
  rfl

theorem Dispatches.offersTo_eq_nil {events : List Event} (h : Dispatches tree p events tree') :
    offersTo sink events = [] := by
  rw [offersTo, List.filterMap_eq_nil_iff]
  intro e he
  cases h with
  | never => cases he
  | once =>
    obtain ⟨s, -, rfl⟩ := List.mem_map.mp he
    rfl

/-- An output is offered all packets in turn, each of them once, or else those up to the one that
it does not take; then it is gone. -/
structure OfferedInTurn (sink : SinkId) (outputs : List SinkId) (ps : List Packet)
    (offers : List (Packet × Bool)) (outputs' : List SinkId) : Prop where
  none : sink ∉ outputs → offers = []
  all : sink ∈ outputs' → offers = ps.map (·, true)
  failed : sink ∈ outputs → sink ∉ outputs' → ∃ front p behind, ps = front ++ p :: behind ∧
    offers = front.map (·, true) ++ [(p, false)]

theorem Delivers.offered (h : Delivers outputs tree ps given outputs' tree') (hn : outputs.Nodup)
    (sink : SinkId) : OfferedInTurn sink outputs ps (offersTo sink given) outputs' := by
  induction h with
  | done => exact ⟨fun _ => rfl, fun _ => rfl, fun hin hout => absurd hin hout⟩
  | @next outputs outputs' tree between tree' p ps events given taken hd hrest ih =>
    have ih := ih (hn.filter _)
    have hsplit : offersTo sink (offers p taken outputs ++ (events ++ given)) =
        offersTo sink (offers p taken outputs) ++ offersTo sink given := by
      rw [offersTo_append, offersTo_append, hd.offersTo_eq_nil, List.nil_append]
    rw [hsplit]
    constructor
    · intro hout
      rw [offersTo_offers_of_notMem taken hout,
        ih.none fun hin => hout (List.mem_of_mem_filter hin)]
      rfl
    · intro hin
      obtain ⟨hmem, htaken⟩ := List.mem_filter.mp (hrest.sublist.subset hin)
      rw [offersTo_offers_of_mem taken hn hmem, ih.all hin, htaken]
      rfl
    · intro hin hout
      rw [offersTo_offers_of_mem taken hn hin]
      cases htaken : taken sink with
      | true =>
        obtain ⟨front, q, behind, rfl, hoffers⟩ :=
          ih.failed (List.mem_filter.mpr ⟨hin, htaken⟩) hout
        exact ⟨p :: front, q, behind, rfl, by rw [hoffers]; rfl⟩
      | false =>
        have hgone : sink ∉ outputs.filter taken := by simp [htaken]
        exact ⟨[], p, ps, rfl, by rw [ih.none hgone]; rfl⟩

/-! ## What the interface does with packets -/

/-- What a sink says to the packet decides whether it stays an output. -/
theorem deliverOutputs_cons (p : Packet) (sink : SinkId) (sinks : List SinkId) (i : Interface)
    (w : World) : ∃ j : Interface, deliverOutputs p (sink :: sinks) i w =
        deliverOutputs p sinks j (w.givePacket sink p).2 ∧ j.channels = i.channels ∧
      j.outputs = i.outputs.filter fun s => s ≠ sink ∨ (w.givePacket sink p).1.isOk := by
  rw [deliverOutputs]
  split
  · next heq =>
    rw [heq]
    exact ⟨i, rfl, rfl, by simp [Except.isOk, Except.toBool]⟩
  · next heq =>
    rw [heq]
    exact ⟨_, rfl, rfl, by simp [removeOutput, Except.isOk, Except.toBool]⟩

/-- A packet is offered to every sink once, whatever the others say to it. -/
theorem exists_taken (p : Packet) {sinks : List SinkId} (hn : sinks.Nodup) (i : Interface)
    (w : World) : ∃ taken : SinkId → Bool,
      (deliverOutputs p sinks i w).2.given = w.given ++ offers p taken sinks ∧
      (deliverOutputs p sinks i w).1.channels = i.channels ∧
      (deliverOutputs p sinks i w).1.outputs =
        i.outputs.filter fun s => s ∉ sinks ∨ taken s := by
  induction sinks generalizing i w with
  | nil => exact ⟨fun _ => true, by simp [deliverOutputs, offers], rfl, by simp [deliverOutputs]⟩
  | cons sink sinks ih =>
    obtain ⟨hsink, hn⟩ := List.nodup_cons.mp hn
    obtain ⟨j, hj, hchannels, houtputs⟩ := deliverOutputs_cons p sink sinks i w
    obtain ⟨taken, hgiven, hsame, hleft⟩ := ih hn j (w.givePacket sink p).2
    refine ⟨Function.update taken sink (w.givePacket sink p).1.isOk, ?_, ?_, ?_⟩
    · rw [hj, hgiven, World.given_givePacket, offers_update hsink, List.append_assoc]
      rfl
    · rw [hj, hsame, hchannels]
    · rw [hj, hleft, houtputs, List.filter_filter]
      refine List.filter_congr fun s _ => ?_
      by_cases hs : s = sink
      · subst hs
        simp [hsink]
      · simp [hs]

/-- A datagram is given to every recipient once, whatever the others say to it. -/
theorem exists_answers (d : Datagram) {sinks : List SinkId} (hn : sinks.Nodup) (r : Reporter)
    (t : Tunnel) (w : World) : ∃ answer v,
      ChannelTree.deliverAll deliverDatagram d sinks (r, t, w) =
        ((ChannelTree.deliverAll (ChannelTree.answering answer) d sinks ()).1, r, t, v) ∧
      v.given = w.given ++ handed d answer sinks := by
  induction sinks generalizing w with
  | nil => exact ⟨fun _ => .ok (), w, rfl, (List.append_nil _).symm⟩
  | cons sink sinks ih =>
    obtain ⟨hsink, hn⟩ := List.nodup_cons.mp hn
    obtain ⟨answer, v, hall, hgiven⟩ := ih hn (w.giveDatagram sink d).2
    have hothers : ∀ s ∈ sinks, answer s =
        Function.update answer sink (w.giveDatagram sink d).1 s := fun s hs =>
      (Function.update_of_ne (ne_of_mem_of_not_mem hs hsink) _ _).symm
    rw [ChannelTree.deliverAll_answering sinks hothers] at hall
    refine ⟨Function.update answer sink (w.giveDatagram sink d).1, v, ?_, ?_⟩
    · have hfirst : deliverDatagram sink d (r, t, w) =
          ((w.giveDatagram sink d).1, r, t, (w.giveDatagram sink d).2) := rfl
      have hself : ChannelTree.answering
          (Function.update answer sink (w.giveDatagram sink d).1) sink d () =
            ((w.giveDatagram sink d).1, ()) := by
        rw [ChannelTree.answering, Function.update_self]
      rw [ChannelTree.deliverAll_cons hfirst, ChannelTree.deliverAll_cons hself, hall]
    · rw [hgiven, World.given_giveDatagram, handed_update hsink, List.append_assoc]
      rfl

/-- The datagram of a packet is dispatched once. Who is gone then is left upstream, which no sink
has part in. -/
theorem exists_dispatched (d : Datagram) (i : Interface) (w : World) : ∃ answer,
    let s := (i.onChannels w fun control tree u => tree.dispatch control deliverDatagram d u).2
    s.2.given = w.given ++ handed d answer (i.channels.recipients d) ∧
      s.1.outputs = i.outputs ∧ s.1.channels = i.channels.dispatched answer d := by
  have hn : (i.channels.recipients d).Nodup := OrderedSet.nodup_toList _
  obtain ⟨answer, v, hall, hgiven⟩ := exists_answers d hn i.reporter i.tunnel w
  have hkeeps : ∀ group source (u : Reporter × Tunnel × World),
      u.2.2.given = v.given → ((Reporter.control Tunnel.outlet w.now).leave group source
        u).2.2.2.given = v.given :=
    fun group source u hu => (Tunnel.keeps_given v.given).leave w.now group source u.1 hu
  refine ⟨answer, ?_, rfl, ChannelTree.dispatch_eq (congrArg Prod.fst hall)⟩
  rw [← hgiven]
  exact ChannelTree.dispatch_keeps (P := fun u : Reporter × Tunnel × World =>
    u.2.2.given = v.given) hkeeps (by rw [hall])

/-- **Deliveries**: whatever sinks answer, whole packets are delivered one after the other. -/
theorem exists_delivers (ps : List Packet) (hn : i.outputs.Nodup) (w : World) : ∃ given,
    (deliverAll ps i w).2.given = w.given ++ given ∧
      Delivers i.outputs i.channels ps given (deliverAll ps i w).1.outputs
        (deliverAll ps i w).1.channels := by
  induction ps generalizing i w with
  | nil => exact ⟨[], (List.append_nil _).symm, .done⟩
  | cons p ps ih =>
    obtain ⟨taken, hoffers, hchannels, houtputs⟩ := exists_taken p hn i w
    have hleft : (deliverOutputs p i.outputs i w).1.outputs = i.outputs.filter taken := by
      rw [houtputs]
      exact List.filter_congr fun s hs => by simp [hs]
    obtain ⟨events, hevents, hsame, hd⟩ : ∃ events,
        (i.deliver p w).2.given = w.given ++ (offers p taken i.outputs ++ events) ∧
          (i.deliver p w).1.outputs = i.outputs.filter taken ∧
          Dispatches i.channels p events (i.deliver p w).1.channels := by
      cases hd : channelDatagram? p with
      | none =>
        simp only [deliver, hd]
        refine ⟨[], ?_, hleft, ?_⟩
        · rw [hoffers, List.append_nil]
        · rw [hchannels]
          exact .never hd
      | some d =>
        obtain ⟨answer, hhanded, hkept, hdispatched⟩ := exists_dispatched d
          (deliverOutputs p i.outputs i w).1 (deliverOutputs p i.outputs i w).2
        simp only [deliver, hd]
        rw [hhanded, hkept, hdispatched, hoffers, hchannels, List.append_assoc]
        exact ⟨_, rfl, hleft, .once answer hd⟩
    obtain ⟨rest, hrest, hdelivers⟩ := ih (hsame ▸ hn.filter _) (i.deliver p w).2
    rw [hsame] at hdelivers
    refine ⟨offers p taken i.outputs ++ (events ++ rest), ?_, .next taken hd hdelivers⟩
    rw [deliverAll, hrest, hevents, List.append_assoc, List.append_assoc]

end Interface

end MulticastTunnel
