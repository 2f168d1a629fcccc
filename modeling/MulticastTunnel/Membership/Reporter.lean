import MulticastTunnel.Address.Text
import MulticastTunnel.Membership.Query
import MulticastTunnel.Membership.Report
import MulticastTunnel.Membership.StateChange
import MulticastTunnel.Ordered.Map
import MulticastTunnel.Timer
import MulticastTunnel.Tunnel.Outcome

/-!
# Reporter

Keeps what is asked of every group of one interface and tells the router of
it. A change of a group's filter is reported at once and then again, as often
as the robustness demands and one report interval apart; changes in between
join the pending one. Queries are answered at once, or after a random delay
in which further queries are taken up. Reports leave through an outlet, whose
answers the reporter has to live with. Times are in milliseconds.
-/

namespace MulticastTunnel.Membership

open Ordered

/-- Why a group is not joined or left, or a report is not sent. -/
inductive MembershipError
  | invalidGroup (group : Address)
  | invalidSource (group source : Address)
  | familyMismatch (interface group : Family)
  | closed
  | codec (error : CodecError)
  | send (error : TunnelError)
deriving DecidableEq

def MembershipError.message : MembershipError → String
  | .invalidGroup g => "Not a multicast group: " ++ g.toText
  | .invalidSource g s => "Invalid source " ++ s.toText ++ " for group " ++ g.toText
  | .familyMismatch i g =>
    "Address family mismatch (interface " ++ i.name ++ ", group " ++ g.name ++ ")"
  | .closed => "Interface is closed"
  | .codec e => "Report encoding failed: " ++ e.message
  | .send e => "Report send failed: " ++ e.message

def MembershipError.name : MembershipError → String
  | .invalidGroup _ => "InvalidGroup"
  | .invalidSource .. => "InvalidSource"
  | .familyMismatch .. => "FamilyMismatch"
  | .closed => "Closed"
  | .codec e => "Codec." ++ e.name
  | .send e => "Send." ++ e.name

instance : Fault MembershipError := ⟨MembershipError.name, MembershipError.message⟩

/-- The way out for reports, over a state `ω` of its own. -/
structure Outlet (ω : Type) where
  /-- The source address of reports. -/
  localAddress : ω → Address
  send : Packet → ω → Except TunnelError SendOutcome × ω
  /-- The serial number of a new timer. -/
  serial : ω → Nat × ω

def Outlet.timer {ω : Type} (o : Outlet ω) (deadline : Nat) (w : ω) : Timer × ω :=
  let (serial, w) := o.serial w
  (⟨deadline, serial⟩, w)

inductive ResponseTiming
  | immediate
  /-- After a delay up to what the query allows. -/
  | randomized
deriving DecidableEq, Repr

structure ReporterSettings where
  /-- The robustness while no query tells one. -/
  robustness : UInt8 := defaultRobustness
  /-- The query interval while no query tells one. -/
  queryInterval : Nat := defaultQueryInterval
  /-- The time between reports of one change. -/
  reportInterval : Nat := 1000
  timing : ResponseTiming := .randomized
deriving DecidableEq, Repr

/-- A change that will be reported again. -/
structure PendingChange where
  change : StateChange
  /-- How often it will be reported again. -/
  retransmissions : Nat
  timer : Timer
deriving DecidableEq

/-- A query for a group that waits for its answer. -/
structure PendingAnswer where
  /-- The queried sources; none asks for the whole group. -/
  sources : Option Sources
  timer : Timer
deriving DecidableEq

structure Reporter where
  family : Family
  settings : ReporterSettings
  demands : OrderedMap Address Demand := ∅
  changes : OrderedMap Address PendingChange := ∅
  groupAnswers : OrderedMap Address PendingAnswer := ∅
  /-- When a general query will be answered. -/
  generalAnswer : Option Timer := none
  robustness : UInt8 := settings.robustness
  queryInterval : Nat := settings.queryInterval
  reportsSent : Nat := 0
  closed : Bool := false
deriving DecidableEq

/-- Whether a source is one that a group can have: a unicast address of the
same family. -/
def isSourceFor (group source : Address) : Bool :=
  source.family = group.family && !source.isMulticast && !source.isUnspecified

namespace Reporter

variable {ω : Type}

def filter? (r : Reporter) (group : Address) : Option Filter :=
  (r.demands.get? group).bind (·.filter? group)

/-- The filters of all groups, in ascending order. -/
def filters (r : Reporter) : List Filter := r.demands.toList.filterMap fun e => e.2.filter? e.1

def groupCount (r : Reporter) : Nat := r.demands.size

/-- The answer to a general query. -/
def generalRecords (r : Reporter) : List GroupRecord := r.filters.map (·.currentState)

/-- The answer to a query for a group, or for some sources of it. -/
def groupRecords (r : Reporter) (group : Address) (queried : Option Sources) : List GroupRecord :=
  match r.filter? group, queried with
  | none, _ => []
  | some f, none => [f.currentState]
  | some f, some sources => (f.response sources).toList

/-! ## Sending -/

/-- Sends a report of the records. A tunnel that is not ready, or whose relay
is unreachable, drops it. -/
def sendRecords (o : Outlet ω) (records : List GroupRecord) (r : Reporter) (w : ω) :
    Except MembershipError Unit × Reporter × ω :=
  if records.isEmpty then (.ok (), r, w)
  else
    match Report.toPacket ⟨r.family, records⟩ (o.localAddress w) with
    | .error e => (.error (.codec e), r, w)
    | .ok packet =>
      match o.send packet w with
      | (.ok .sent, w) => (.ok (), { r with reportsSent := r.reportsSent + 1 }, w)
      | (.ok .notReady, w) => (.ok (), r, w)
      | (.error .unreachable, w) => (.ok (), r, w)
      | (.error e, w) => (.error (.send e), r, w)

/-- Notes a change that led to the filter `current`, and tells the records
that report it together with what was still to be reported. -/
def note (o : Outlet ω) (now : Nat) (group : Address) (change : StateChange)
    (current : Option Filter) (r : Reporter) (w : ω) : List GroupRecord × Reporter × ω :=
  match r.changes.get? group with
  | some pending =>
    let merged := pending.change.merge change current
    (merged.records group,
      { r with changes := r.changes.insert group { pending with change := merged } }, w)
  | none =>
    let retransmissions := r.robustness.toNat - 1
    if retransmissions = 0 then (change.records group, r, w)
    else
      let (timer, w) := o.timer (now + r.settings.reportInterval) w
      (change.records group,
        { r with changes := r.changes.insert group { change, retransmissions, timer } }, w)

/-- Reports that a group's filter went from one to another, if they differ. -/
def reportChange (o : Outlet ω) (now : Nat) (group : Address) (old new : Option Filter)
    (r : Reporter) (w : ω) : Except MembershipError Unit × Reporter × ω :=
  match StateChange.between? old new with
  | none => (.ok (), r, w)
  | some change =>
    let (records, r, w) := r.note o now group change new w
    r.sendRecords o records w

/-! ## Joining and leaving -/

def validate (r : Reporter) (group : Address) (source : Option Address) :
    Except MembershipError Unit :=
  if group.family ≠ r.family then .error (.familyMismatch r.family group.family)
  else if !group.isMulticast then .error (.invalidGroup group)
  else
    match source with
    | some s => if isSourceFor group s then .ok () else .error (.invalidSource group s)
    | none => .ok ()

/-- What is asked of the group and what is still to be reported of it, put
back as they were in `before`. -/
def revert (before : Reporter) (group : Address) (r : Reporter) : Reporter :=
  { r with
    demands := r.demands.set group (before.demands.get? group)
    changes := r.changes.set group (before.changes.get? group) }

/-- Asks for a group, from any source or from one. A join that cannot be sent
leaves no trace. -/
def join (o : Outlet ω) (now : Nat) (group : Address) (source : Option Address) (r : Reporter)
    (w : ω) : Except MembershipError Unit × Reporter × ω :=
  match r.validate group source with
  | .error e => (.error e, r, w)
  | .ok () =>
    if r.closed then (.error .closed, r, w)
    else
      let demand := ((r.demands.get? group).getD {}).join source
      let joined := { r with demands := r.demands.insert group demand }
      match joined.reportChange o now group (r.filter? group) (demand.filter? group) w with
      | (.error (.send e), after, w) => (.error (.send e), revert r group after, w)
      | (result, after, w) => (result, after, w)

/-- Joins one after the other, and tells how many of the joins failed. -/
def joinAll (o : Outlet ω) (now : Nat) :
    List (Address × Option Address) → Reporter → ω → Nat × Reporter × ω
  | [], r, w => (0, r, w)
  | (group, source) :: rest, r, w =>
    let (result, r, w) := r.join o now group source w
    let (failed, r, w) := joinAll o now rest r w
    (if result.isOk then failed else failed + 1, r, w)

/-- Takes a request for a group back. Leaving what was not asked for does
nothing. -/
def leave (o : Outlet ω) (now : Nat) (group : Address) (source : Option Address) (r : Reporter)
    (w : ω) : Except MembershipError Unit × Reporter × ω :=
  match r.validate group source with
  | .error e => (.error e, r, w)
  | .ok () =>
    match r.demands.get? group with
    | none => (.ok (), r, w)
    | some held =>
      if r.closed then (.ok (), r, w)
      else
        let demand := held.leave source
        let new := demand.filter? group
        let left := { r with demands := r.demands.set group (new.map fun _ => demand) }
        left.reportChange o now group (r.filter? group) new w

def drop (o : Outlet ω) (now : Nat) (group : Address) (r : Reporter) (w : ω) :
    Except MembershipError Unit × Reporter × ω :=
  let left := { r with demands := r.demands.erase group }
  left.reportChange o now group (r.filter? group) none w

/-- Drops the groups one after the other, and tells the first error. -/
def dropAll (o : Outlet ω) (now : Nat) :
    List Address → Reporter → ω → Except MembershipError Unit × Reporter × ω
  | [], r, w => (.ok (), r, w)
  | group :: groups, r, w =>
    let (first, r, w) := r.drop o now group w
    let (rest, r, w) := dropAll o now groups r w
    (first.bind fun _ => rest, r, w)

def leaveAll (o : Outlet ω) (now : Nat) (r : Reporter) (w : ω) :
    Except MembershipError Unit × Reporter × ω :=
  dropAll o now r.demands.keys r w

/-! ## Queries -/

/-- Whether a general answer is due within the delay, and so covers every
query that may wait that long. -/
def answersWithin (r : Reporter) (now delay : Nat) : Bool :=
  r.generalAnswer.any fun timer => timer.remaining now ≤ delay

/-- Answers a general query after the delay, or earlier if such an answer is due. -/
def deferGeneral (o : Outlet ω) (now delay : Nat) (r : Reporter) (w : ω) : Reporter × ω :=
  if r.answersWithin now delay then (r, w)
  else
    let (timer, w) := o.timer (now + delay) w
    ({ r with generalAnswer := some timer }, w)

/-- The sources that answer two queries for one group. -/
def joinQueried : Option Sources → Option Sources → Option Sources
  | some s, some t => some (s.union t)
  | _, _ => none

/-- Answers a query for a group after the delay, or earlier together with
another that waits. -/
def deferGroup (o : Outlet ω) (now delay : Nat) (group : Address) (queried : Option Sources)
    (r : Reporter) (w : ω) : Reporter × ω :=
  if r.answersWithin now delay then (r, w)
  else
    match r.groupAnswers.get? group with
    | none =>
      let (timer, w) := o.timer (now + delay) w
      ({ r with groupAnswers := r.groupAnswers.insert group ⟨queried, timer⟩ }, w)
    | some pending =>
      let (timer, w) :=
        if delay < pending.timer.remaining now then o.timer (now + delay) w
        else (pending.timer, w)
      let sources := joinQueried pending.sources queried
      ({ r with groupAnswers := r.groupAnswers.insert group ⟨sources, timer⟩ }, w)

/-- Answers a query. A random number `chance` decides the delay, which is
uniform over what the query allows. -/
def onQuery (o : Outlet ω) (now chance : Nat) (q : Query) (r : Reporter) (w : ω) :
    Except MembershipError Unit × Reporter × ω :=
  if r.closed then (.ok (), r, w)
  else
    let r := { r with
      robustness := if q.robustness = 0 then r.robustness else q.robustness
      queryInterval := if q.queryInterval = 0 then r.queryInterval else q.queryInterval }
    let queried := if q.sources.isEmpty then none else some (OrderedSet.ofList q.sources)
    match r.settings.timing with
    | .immediate =>
      let records := match q.group with
        | none => r.generalRecords
        | some group => r.groupRecords group queried
      r.sendRecords o records w
    | .randomized =>
      let delay := chance % (q.maxResponseDelay + 1)
      let (r, w) := match q.group with
        | none => r.deferGeneral o now delay w
        | some group => r.deferGroup o now delay group queried w
      (.ok (), r, w)

/-- Forgets everything and reports nothing any more. -/
def close (r : Reporter) : Reporter :=
  { r with
    closed := true
    demands := ∅
    changes := ∅
    groupAnswers := ∅
    generalAnswer := none }

/-! ## Timers -/

inductive Alarm
  /-- To report a group's change again. -/
  | retransmission (group : Address)
  /-- To answer a query for a group. -/
  | groupAnswer (group : Address)
  /-- To answer a general query. -/
  | generalAnswer
deriving DecidableEq

def alarms (r : Reporter) : List (Timer × Alarm) :=
  (r.changes.toList.map fun e => (e.2.timer, .retransmission e.1)) ++
    (r.groupAnswers.toList.map fun e => (e.2.timer, .groupAnswer e.1)) ++
    (r.generalAnswer.toList.map fun t => (t, .generalAnswer))

/-- Reports a group's change again, and for the last time if it is the last. -/
def retransmit (o : Outlet ω) (now : Nat) (group : Address) (r : Reporter) (w : ω) :
    Reporter × ω :=
  match r.changes.get? group with
  | none => (r, w)
  | some pending =>
    let retransmissions := pending.retransmissions - 1
    let (r, w) :=
      if retransmissions = 0 then ({ r with changes := r.changes.erase group }, w)
      else
        let (timer, w) := o.timer (now + r.settings.reportInterval) w
        let pending := { pending with retransmissions, timer }
        ({ r with changes := r.changes.insert group pending }, w)
    (r.sendRecords o (pending.change.records group) w).2

def fire (o : Outlet ω) (now : Nat) (alarm : Alarm) (r : Reporter) (w : ω) : Reporter × ω :=
  match alarm with
  | .retransmission group => r.retransmit o now group w
  | .groupAnswer group =>
    match r.groupAnswers.get? group with
    | none => (r, w)
    | some pending =>
      let r := { r with groupAnswers := r.groupAnswers.erase group }
      (r.sendRecords o (r.groupRecords group pending.sources) w).2
  | .generalAnswer =>
    let r := { r with generalAnswer := none }
    (r.sendRecords o r.generalRecords w).2

/-- Fires the timers that are due, at most `fuel` of them. -/
def settle (o : Outlet ω) (now fuel : Nat) (r : Reporter) (w : ω) : Reporter × ω :=
  Timer.settle (fun s => s.1.alarms) (fun alarm s => s.1.fire o now alarm s.2) now fuel (r, w)

end Reporter

end MulticastTunnel.Membership
