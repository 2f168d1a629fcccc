import MulticastTunnel.Proofs.Interface.Run
import MulticastTunnel.Proofs.Membership.GeneralAnswer
import MulticastTunnel.Proofs.Tunnel.History
import MulticastTunnel.Proofs.Tunnel.Session

/-!
# Queries are answered from the tree

A general query that the tunnel accepts passes through all layers of an interface: it
establishes the session, the reporter answers it with all that is held, and the tunnel
sends the answer under the new grant. What is held are the branches of the tree.
-/

namespace MulticastTunnel

open Ordered MulticastTunnel.Membership

/-! ## The records of a tree -/

namespace ChannelTree

variable {t : ChannelTree} {r : Reporter}

/-- The record tells the branches of its group: that all sources are received where there
is a branch for any source, and else the sources that there are branches for, each once. -/
def TellsGroup (t : ChannelTree) (record : GroupRecord) : Prop :=
  if (t.branch record.group none).isEmpty then
    record.type = .modeIsInclude ∧ Ascending rank record.sources ∧
      ∀ source, source ∈ record.sources ↔
        (t.branch record.group (some source)).isEmpty = false
  else record.type = .modeIsExclude ∧ record.sources = []

/-- There is a record for every group of the tree, in ascending order, and no other. -/
structure Tells (t : ChannelTree) (records : List GroupRecord) : Prop where
  groups : records.map (·.group) = t.groups.keys
  tellsGroup : ∀ record ∈ records, t.TellsGroup record

theorem tellsGroup_of_receives (h : r.Receives t.held) {group : Address} {f : Filter}
    (hf : r.filter? group = some f) : t.TellsGroup f.currentState := by
  have hg : f.currentState.group = group := Reporter.group_of_filter? hf
  unfold TellsGroup
  rw [hg]
  split
  · next hnone =>
    have hn : (group, none) ∉ t.held := by
      rw [mem_held, hnone]
      exact Bool.noConfusion
    obtain ⟨source, hb⟩ := h.isSome_filter?.mp (Option.isSome_iff_exists.mpr ⟨f, hf⟩)
    obtain ⟨sources, heq, hm⟩ := h.filter?_of_one hn hb
    cases hf.symm.trans heq
    exact ⟨rfl, sources.ascending, fun source => (hm source).trans mem_held⟩
  · next hany =>
    have hb : (group, none) ∈ t.held := mem_held.mpr (by simpa using hany)
    cases hf.symm.trans (h.filter?_of_any hb)
    exact ⟨rfl, rfl⟩

theorem groups_generalRecords (hp : t.Pruned) (h : r.Receives t.held) :
    r.generalRecords.map (·.group) = t.groups.keys := by
  have hall := r.tellsAll_generalRecords
  have hrecords : Ascending rank (r.generalRecords.map (·.group)) := by
    unfold Ascending
    rw [List.pairwise_map]
    exact hall.ascending
  have hgroups : Ascending rank t.groups.keys := by
    unfold Ascending OrderedMap.keys
    rw [List.pairwise_map]
    exact t.groups.ascending
  apply hrecords.eq_of_mem_iff hgroups
  intro group
  have hkeys : group ∈ t.groups.keys ↔ (r.filter? group).isSome = true := by
    rw [OrderedMap.mem_keys, ← Option.isSome_iff_exists, hp.group_iff, h.isSome_filter?]
  rw [hkeys, Option.isSome_iff_exists, List.mem_map]
  constructor
  · rintro ⟨record, hm, rfl⟩
    obtain ⟨group, f, hf, rfl⟩ := (hall.mem_iff record).mp hm
    refine ⟨f, ?_⟩
    rw [show f.currentState.group = group from Reporter.group_of_filter? hf]
    exact hf
  · rintro ⟨f, hf⟩
    exact ⟨f.currentState, (hall.mem_iff _).mpr ⟨group, f, hf, rfl⟩,
      Reporter.group_of_filter? hf⟩

/-- What is held by a reporter that is asked for the branches tells the tree. -/
theorem tells_generalRecords (hp : t.Pruned) (h : r.Receives t.held) :
    t.Tells r.generalRecords := by
  refine ⟨groups_generalRecords hp h, ?_⟩
  intro record hm
  obtain ⟨group, f, hf, rfl⟩ := (r.tellsAll_generalRecords.mem_iff record).mp hm
  exact tellsGroup_of_receives h hf

/-- There is nothing to tell exactly where the tree is empty. -/
theorem generalRecords_ne_nil_iff (hp : t.Pruned) (h : r.Receives t.held) :
    r.generalRecords ≠ [] ↔ t.isEmpty = false := by
  have hgroups := groups_generalRecords hp h
  have hempty : t.isEmpty = t.groups.keys.isEmpty := by
    unfold isEmpty OrderedMap.isEmpty OrderedMap.keys
    rw [List.isEmpty_map]
  rw [hempty, ← hgroups, List.isEmpty_map]
  simp

end ChannelTree

namespace Interface

variable {key : InterfaceKey} {settings : InterfaceSettings} {i : Interface} {w : World}
  {b : Bytes} {limited : Bool} {mac : Mac} {nonce : Nonce} {packet : Packet}
  {gateway : Option SocketAddress} {q : Query}

/-- What becomes of an accepted general query: under its grant the tunnel is handed the
records of all that is held, unless there are none or they do not fit a report. -/
theorem Holds.receive_query (hi : Holds (Tends key settings) i w)
    (himmediate : settings.membership.timing = .immediate)
    (hdecode : Message.decode b = .ok (.membershipQuery limited mac nonce packet gateway))
    (haccepted : (i.tunnel.handle b w).1 = some (.query q)) (hgroup : q.group = none) :
    let report : Report := ⟨key.family, i.reporter.generalRecords⟩
    let after := i.receive (.ok b) w
    after.1.channels = i.channels ∧
      ∃ t v, Tunnel.Grants ⟨mac, nonce, gateway, limited⟩ i.tunnel w (t, v) ∧
        ((¬ (report.records ≠ [] ∧ report.Fits) ∧ after.1.tunnel = t ∧ after.2 = v.chance.2) ∨
          report.records ≠ [] ∧ report.Fits ∧ ∃ answer, answer.family = key.family ∧
            Report.ofPacket answer = .ok report ∧
            after.1.tunnel = (t.send answer v.chance.2).2.1 ∧
            after.2 = (t.send answer v.chance.2).2.2) := by
  intro report after
  have htends := hi.2
  have hgrants := Tunnel.handle_query htends.reachable.timed hdecode haccepted
  obtain ⟨t, v, hhandle⟩ : ∃ t v, i.tunnel.handle b w = (some (.query q), t, v) :=
    ⟨_, _, Prod.ext haccepted rfl⟩
  rw [hhandle] at hgrants
  have hquery : after = ({ i with tunnel := t } : Interface).onQuery q v := by
    show onNotice (i.tunnel.handle b w).1 { i with tunnel := (i.tunnel.handle b w).2.1 }
      (i.tunnel.handle b w).2.2 = _
    rw [hhandle]
    rfl
  obtain ⟨r', hsame, hanswer⟩ := Reporter.onQuery_general htends.receives.opened
    (by rw [htends.configured, himmediate]) hgroup Tunnel.outlet v.now v.chance.1 (t, v.chance.2)
  have hafter : (after.1.tunnel, after.2) =
      (r'.sendRecords Tunnel.outlet i.reporter.generalRecords (t, v.chance.2)).2.2 := by
    rw [hquery, ← hanswer]
    rfl
  have hfamily : r'.family = key.family := hsame.family.trans htends.family
  have hlocal : (Tunnel.outlet.localAddress (t, v.chance.2)).family = r'.family := by
    rw [Tunnel.family_localAddress (.inl rfl), hgrants.key, htends.owned, hfamily]
  have hrecords : ∀ record ∈ i.reporter.generalRecords, record.OfFamily r'.family := by
    rw [hsame.family]
    exact htends.kindred.generalRecords
  refine ⟨by rw [hquery]; rfl, t, v, hgrants, ?_⟩
  rcases Reporter.sendRecords_cases hrecords hlocal with
    ⟨hnone, hquiet⟩ | ⟨hlarge, herr⟩ | ⟨hsome, hfits, answer, hanswers, hread, hsent, -⟩
  · rw [hquiet, Prod.mk.injEq] at hafter
    exact .inl ⟨fun h => h.1 hnone, hafter⟩
  · rw [hfamily] at hlarge
    rw [herr, Prod.mk.injEq] at hafter
    exact .inl ⟨fun h => hlarge h.2, hafter⟩
  · rw [hfamily] at hfits hanswers hread
    rw [hsent] at hafter
    exact .inr ⟨hsome, hfits, answer, hanswers, hread, Prod.ext_iff.mp hafter⟩

/-- At most one teardown was sent. -/
def TornDown (key : InterfaceKey) (events : List Event) : Prop :=
  events = [] ∨ ∃ mac nonce address, events = [.sent key (.teardown mac nonce address) false]

/-- **Queries are answered from the tree**: a general query that the session accepts is
answered under its own MAC and nonce with one report of all branches, unless there are none
or the report does not fit a datagram; then nothing is sent. -/
theorem Reaches.query_answered (h : Reaches key settings Act.Fits i w)
    (himmediate : settings.membership.timing = .immediate)
    (haccepts : ∀ trace, w.oracle.send key trace = none)
    (hdecode : Message.decode b = .ok (.membershipQuery limited mac nonce packet gateway))
    (haccepted : (i.tunnel.handle b w).1 = some (.query q)) (hgroup : q.group = none) :
    ∃ report teardown, report.family = key.family ∧ i.channels.Tells report.records ∧
      TornDown key teardown ∧
      ((i.channels.isEmpty = false ∧ report.Fits ∧ ∃ answer,
          Report.ofPacket answer = .ok report ∧
          (i.receive (.ok b) w).2.trace =
            .sent key (.membershipUpdate mac nonce answer) false :: (teardown ++ w.trace)) ∨
        ¬ (i.channels.isEmpty = false ∧ report.Fits) ∧
          (i.receive (.ok b) w).2.trace = teardown ++ w.trace) := by
  have hi := h.tends fun _ _ _ hfits => hfits
  have htends := hi.2
  have hempty := ChannelTree.generalRecords_ne_nil_iff hi.1 htends.receives
  have howned : i.tunnel.key = key := htends.owned
  obtain ⟨-, t, v, hgrants, hcases⟩ := hi.receive_query himmediate hdecode haccepted hgroup
  obtain ⟨teardown, htorn, htrace⟩ : ∃ teardown, TornDown key teardown ∧
      v.trace = teardown ++ w.trace := by
    rcases hgrants.teardown with rfl | ⟨mac, nonce, address, rfl⟩
    · exact ⟨[], .inl rfl, rfl⟩
    · refine ⟨_, .inr ⟨mac, nonce, address, rfl⟩, ?_⟩
      simp [World.send, World.record, howned, haccepts]
  refine ⟨⟨key.family, i.reporter.generalRecords⟩, teardown, rfl,
    ChannelTree.tells_generalRecords hi.1 htends.receives, htorn, ?_⟩
  rw [← hempty]
  rcases hcases with ⟨hquiet, -, hworld⟩ | ⟨hsome, hfits, answer, hfamily, hread, -, hworld⟩
  · refine .inr ⟨hquiet, ?_⟩
    rw [hworld]
    exact htrace
  · refine .inl ⟨hsome, hfits, answer, hread, ?_⟩
    have hkey : t.key = key := hgrants.key.trans howned
    have htaken : v.chance.2.oracle.send t.key v.chance.2.trace = none := by
      show v.oracle.send t.key v.trace = none
      rw [hgrants.oracle_eq, hkey]
      exact haccepts v.trace
    rw [hworld, ← htrace]
    rcases Tunnel.send_granted hgrants.opened (hkey.symm ▸ hfamily) hread hgrants.grant
      v.chance.2 with ⟨-, -, hsent⟩ | ⟨e, hfails, -⟩
    · rw [hsent, hkey]
      rfl
    · cases htaken.symm.trans hfails

/-! ## A session -/

def sessionKey : InterfaceKey := ⟨.read .ipv4 [192, 0, 2, 1], .ipv4⟩

/-- Queries are answered at once. -/
def sessionSettings : InterfaceSettings := { membership := { timing := .immediate } }

/-- All goes well, and 7 is the one nonce. -/
def friendly : Oracle := { nonce := fun _ => 7, chance := fun _ => 0 }

/-- The act, in a world where all goes well afterwards. -/
def performed (act : Act) (s : Interface × World) : Interface × World :=
  let after := perform act s.1 s.2
  (after.1, { after.2 with oracle := friendly })

theorem Reaches.performed {Allowed : Act → Interface → World → Prop} {s : Interface × World}
    (h : Reaches key settings Allowed s.1 s.2) (act : Act) (hpossible : act.Possible s.1)
    (hallowed : Allowed act s.1 s.2) :
    Reaches key settings Allowed (performed act s).1 (performed act s).2 :=
  (h.act act hpossible hallowed).elapse (World.elapsed_of_trace_eq rfl)

def opened : Interface × World :=
  let s := ((create sessionKey sessionSettings).start { oracle := friendly }).2
  (s.1, { s.2 with oracle := friendly })

theorem reaches_opened {Allowed : Act → Interface → World → Prop} :
    Reaches sessionKey sessionSettings Allowed opened.1 opened.2 :=
  (Reaches.opened { oracle := friendly }).elapse (World.elapsed_of_trace_eq rfl)

/-- A relay answers the discovery. -/
def relayFound : Act :=
  .receive (.ok (Message.relayAdvertisement 7 (.read .ipv4 [203, 0, 113, 9])).encode)

def subscription : Act :=
  .join ⟨1⟩ ⟨.read .ipv4 [232, 1, 1, 1], some (.read .ipv4 [192, 0, 2, 9]), 5000⟩

/-- A sink subscribes while the query is awaited. -/
def subscribed : Interface × World := performed subscription (performed relayFound opened)

theorem fits_relayFound : relayFound.Fits opened.1 opened.2 := by
  intro sink c h
  cases h

theorem fits_subscription :
    subscription.Fits (performed relayFound opened).1 (performed relayFound opened).2 := by
  rintro sink c ⟨⟩
  decide +kernel

theorem reaches_subscribed :
    Reaches sessionKey sessionSettings Act.Fits subscribed.1 subscribed.2 :=
  (reaches_opened.performed relayFound trivial fits_relayFound).performed subscription trivial
    fits_subscription

def sessionMac : Mac := ⟨#v[6, 5, 4, 3, 2, 1]⟩

def queryDatagram : Bytes :=
  (Message.membershipQuery false sessionMac 7 Tunnel.generalQuery none).encode

/-- The query that it awaits is answered with what the sink subscribed to. -/
theorem subscribed_answers :
    subscribed.1.channels.groups.keys = [.read .ipv4 [232, 1, 1, 1]] ∧
    ∃ report teardown, report.family = .ipv4 ∧ subscribed.1.channels.Tells report.records ∧
      TornDown sessionKey teardown ∧
      ((subscribed.1.channels.isEmpty = false ∧ report.Fits ∧ ∃ answer,
          Report.ofPacket answer = .ok report ∧
          (subscribed.1.receive (.ok queryDatagram) subscribed.2).2.trace =
            .sent sessionKey (.membershipUpdate sessionMac 7 answer) false ::
              (teardown ++ subscribed.2.trace)) ∨
        ¬ (subscribed.1.channels.isEmpty = false ∧ report.Fits) ∧
          (subscribed.1.receive (.ok queryDatagram) subscribed.2).2.trace =
            teardown ++ subscribed.2.trace) := by
  have hdecode : Message.decode queryDatagram = .ok
      (.membershipQuery false sessionMac 7 Tunnel.generalQuery none) := by
    decide +kernel
  have haccepted : (subscribed.1.tunnel.handle queryDatagram subscribed.2).1 =
      some (.query (.general .ipv4 10000)) := by
    decide +kernel
  exact ⟨by decide +kernel,
    reaches_subscribed.query_answered rfl (fun _ => rfl) hdecode haccepted rfl⟩

end Interface

end MulticastTunnel
