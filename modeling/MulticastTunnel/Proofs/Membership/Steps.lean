import MulticastTunnel.Membership.Control
import MulticastTunnel.Proofs.Membership.Changes
import MulticastTunnel.Proofs.Membership.Codec

/-!
# Steps of a reporter

What each operation changes in the state of a reporter and what it leaves
alone, whatever the outlet answers. Reporting touches the pending change of
its group and the count of reports; joining and leaving touch the demand of
their group besides, and a join that could not be sent touches nothing.
-/

namespace MulticastTunnel.Membership.Reporter

open Ordered

variable {ω : Type}

/-- Sending counts the report at most, and not one that failed. -/
theorem sendRecords_spec (o : Outlet ω) (records : List GroupRecord) (r : Reporter) (w : ω) :
    ∃ n, (r.sendRecords o records w).2.1 = { r with reportsSent := n } ∧
      ∀ e, (r.sendRecords o records w).1 = .error (.send e) → n = r.reportsSent := by
  unfold sendRecords
  split
  · exact ⟨r.reportsSent, rfl, fun _ _ => rfl⟩
  split
  · exact ⟨r.reportsSent, rfl, fun _ _ => rfl⟩
  split
  · exact ⟨r.reportsSent + 1, rfl, fun _ h => by cases h⟩
  · exact ⟨r.reportsSent, rfl, fun _ _ => rfl⟩
  · exact ⟨r.reportsSent, rfl, fun _ _ => rfl⟩
  · exact ⟨r.reportsSent, rfl, fun _ _ => rfl⟩

/-- Sending fails in the writing only if the report cannot be written. -/
theorem sendRecords_codec {o : Outlet ω} {records : List GroupRecord} {r : Reporter} {w : ω}
    {c : CodecError} (h : (r.sendRecords o records w).1 = .error (.codec c)) :
    Report.toPacket ⟨r.family, records⟩ (o.localAddress w) = .error c := by
  revert h
  unfold sendRecords
  split
  · intro h
    cases h
  split
  · next hp =>
    intro h
    cases h
    exact hp
  split <;> intro h <;> cases h

/-- The change that is reported: the new one, taken up by the pending one if there is one. -/
def noted (r : Reporter) (group : Address) (change : StateChange) (current : Option Filter) :
    StateChange :=
  match r.changes.get? group with
  | some pending => pending.change.merge change current
  | none => change

/-- The outlet at most gave out the number of a timer. -/
def Idle (o : Outlet ω) (w v : ω) : Prop := v = w ∨ ∃ deadline, v = (o.timer deadline w).2

/-- Noting a change writes the pending change of its group, and takes a timer at most. -/
theorem note_spec (o : Outlet ω) (now : Nat) (group : Address) (change : StateChange)
    (current : Option Filter) (r : Reporter) (w : ω) :
    ∃ p v, r.note o now group change current w =
        ((r.noted group change current).records group,
          { r with changes := r.changes.set group p }, v) ∧
      (∀ q, p = some q → q.change = r.noted group change current) ∧
      Idle o w v := by
  cases hc : r.changes.get? group with
  | some pending =>
    refine ⟨some { pending with change := pending.change.merge change current }, w, ?_, ?_,
      .inl rfl⟩
    · simp only [note, noted, hc]
      rfl
    · rintro q ⟨⟩
      simp only [noted, hc]
  | none =>
    by_cases hr : r.robustness.toNat - 1 = 0
    · refine ⟨none, w, ?_, fun q h => (by cases h), .inl rfl⟩
      have hset := OrderedMap.set_get? r.changes group
      rw [hc] at hset
      simp only [note, noted, hc, hr, if_true, hset]
    · refine ⟨some ⟨change, r.robustness.toNat - 1,
        (o.timer (now + r.settings.reportInterval) w).1⟩, _, ?_, ?_,
        .inr ⟨now + r.settings.reportInterval, rfl⟩⟩
      · simp only [note, noted, hc, hr, if_false]
        rfl
      · rintro q ⟨⟩
        simp only [noted, hc]

/-- Reporting a change of a filter sends what was noted. -/
theorem reportChange_eq (o : Outlet ω) (now : Nat) (group : Address) (old new : Option Filter)
    (r : Reporter) (w : ω) :
    (StateChange.between? old new = none ∧ r.reportChange o now group old new w = (.ok (), r, w)) ∨
    ∃ change p v, StateChange.between? old new = some change ∧
      r.reportChange o now group old new w =
        sendRecords o ((r.noted group change new).records group)
          { r with changes := r.changes.set group p } v ∧
      (∀ q, p = some q → q.change = r.noted group change new) ∧
      Idle o w v := by
  unfold reportChange
  split
  · next h => exact .inl ⟨h, rfl⟩
  · next change h =>
    obtain ⟨p, v, hn, hp, hv⟩ := note_spec o now group change new r w
    refine .inr ⟨change, p, v, h, ?_, hp, hv⟩
    rw [hn]

theorem reportChange_spec (o : Outlet ω) (now : Nat) (group : Address) (old new : Option Filter)
    (r : Reporter) (w : ω) :
    ∃ p n, (r.reportChange o now group old new w).2.1 =
        { r with changes := r.changes.set group p, reportsSent := n } ∧
      ∀ e, (r.reportChange o now group old new w).1 = .error (.send e) → n = r.reportsSent := by
  rcases reportChange_eq o now group old new r w with ⟨-, heq⟩ | ⟨change, p, v, -, heq, -, -⟩
  · refine ⟨r.changes.get? group, r.reportsSent, ?_, fun _ _ => rfl⟩
    rw [heq, OrderedMap.set_get?]
  · obtain ⟨n, hn, hsend⟩ := sendRecords_spec o ((r.noted group change new).records group)
      { r with changes := r.changes.set group p } v
    rw [heq]
    exact ⟨p, n, hn, hsend⟩

/-- Reporting ends well, or because the report cannot be written or sent. -/
theorem reportChange_result (o : Outlet ω) (now : Nat) (group : Address)
    (old new : Option Filter) (r : Reporter) (w : ω) :
    (r.reportChange o now group old new w).1 = .ok () ∨
      (∃ c, (r.reportChange o now group old new w).1 = .error (.codec c)) ∨
      ∃ e, (r.reportChange o now group old new w).1 = .error (.send e) := by
  unfold reportChange
  split
  · exact .inl rfl
  simp only [sendRecords]
  split
  · exact .inl rfl
  split
  · exact .inr (.inl ⟨_, rfl⟩)
  split
  · exact .inl rfl
  · exact .inl rfl
  · exact .inl rfl
  · exact .inr (.inr ⟨_, rfl⟩)

theorem validate_ne_codec {group : Address} {source : Option Address} {r : Reporter}
    {c : CodecError} : r.validate group source ≠ .error (.codec c) := by
  unfold validate
  split
  · simp
  split
  · simp
  split
  · split <;> simp
  · simp

/-- The reporter with another demand for a group. -/
def setDemand (r : Reporter) (group : Address) (d : Option Demand) : Reporter :=
  { r with demands := r.demands.set group d }

/-- A join is refused, or the new demand is reported; a report that could not be
sent takes it back. -/
theorem join_eq (o : Outlet ω) (now : Nat) (group : Address) (source : Option Address)
    (r : Reporter) (w : ω) :
    (∃ e, (∀ c, e ≠ .codec c) ∧ (r.closed = true ∨ r.validate group source = .error e) ∧
      r.join o now group source w = (.error e, r, w)) ∨
    ∃ demand, demand = ((r.demands.get? group).getD {}).join source ∧
      r.validate group source = .ok () ∧ r.closed = false ∧
      ∃ report, report = (r.setDemand group (some demand)).reportChange o now group
          (r.filter? group) (demand.filter? group) w ∧
        ((∃ e, report.1 = .error (.send e) ∧
            r.join o now group source w = (.error (.send e), r, report.2.2)) ∨
          (∀ e, report.1 ≠ .error (.send e)) ∧ r.join o now group source w = report) := by
  simp only [join]
  split
  · next e he =>
    exact .inl ⟨e, fun c hc => by subst hc; exact validate_ne_codec he, .inr he, rfl⟩
  next hv =>
  split
  · next hc => exact .inl ⟨.closed, fun _ => by simp, .inl hc, rfl⟩
  next hc =>
  refine .inr ⟨_, rfl, hv, by simpa using hc, _, rfl, ?_⟩
  set demand := ((r.demands.get? group).getD {}).join source with hdemand
  obtain ⟨p, n, hr, hsend⟩ := reportChange_spec o now group (r.filter? group)
    (demand.filter? group) (r.setDemand group (some demand)) w
  rw [show ({ r with demands := r.demands.insert group demand } : Reporter) =
    r.setDemand group (some demand) from rfl]
  generalize (r.setDemand group (some demand)).reportChange o now group (r.filter? group)
    (demand.filter? group) w = report at *
  obtain ⟨result, after, w'⟩ := report
  split
  · next e after' w'' heq =>
    cases heq
    refine .inl ⟨e, rfl, ?_⟩
    simp only at hr hsend
    subst hr
    simp only [revert, setDemand, OrderedMap.set_set, OrderedMap.set_get?, hsend e rfl]
  · next hns heq =>
    cases heq
    exact .inr ⟨hns, rfl⟩

/-- A join is refused and leaves no trace, or it is entered with its report sent,
dropped, or too large to be written. -/
theorem join_cases (o : Outlet ω) (now : Nat) (group : Address) (source : Option Address)
    (r : Reporter) (w : ω) :
    (∃ e, (r.join o now group source w).1 = .error e ∧ (∀ c, e ≠ .codec c) ∧
      (r.join o now group source w).2.1 = r) ∨
    (r.validate group source = .ok () ∧ r.closed = false ∧
      ((r.join o now group source w).1 = .ok () ∨
        ∃ c, (r.join o now group source w).1 = .error (.codec c)) ∧
      ∃ p n, (r.join o now group source w).2.1 =
        { r with
          demands := r.demands.insert group (((r.demands.get? group).getD {}).join source)
          changes := r.changes.set group p
          reportsSent := n }) := by
  rcases join_eq o now group source r w with ⟨e, he, -, heq⟩ |
    ⟨demand, rfl, hv, hc, report, hrep, ⟨e, -, heq⟩ | ⟨hns, heq⟩⟩
  · rw [heq]
    exact .inl ⟨e, rfl, he, rfl⟩
  · rw [heq]
    exact .inl ⟨.send e, rfl, fun _ => by simp, rfl⟩
  · rw [heq]
    subst hrep
    refine .inr ⟨hv, hc, ?_, ?_⟩
    · rcases reportChange_result o now group (r.filter? group)
        ((((r.demands.get? group).getD {}).join source).filter? group)
        (r.setDemand group (some (((r.demands.get? group).getD {}).join source))) w with h | h | h
      · exact .inl h
      · exact .inr h
      · obtain ⟨e, h⟩ := h
        exact absurd h (hns e)
    · obtain ⟨p, n, hr, -⟩ := reportChange_spec o now group (r.filter? group)
        ((((r.demands.get? group).getD {}).join source).filter? group)
        (r.setDemand group (some (((r.demands.get? group).getD {}).join source))) w
      exact ⟨p, n, hr⟩

/-- Between addresses of one family, a join that cannot be written is too large. -/
theorem join_tooLarge {o : Outlet ω} {now : Nat} {group : Address} {source : Option Address}
    {r : Reporter} {w : ω} {c : CodecError}
    (hlocal : ∀ v, Idle o w v → (o.localAddress v).family = r.family)
    (h : (r.join o now group source w).1 = .error (.codec c)) : c = .packet .tooLarge := by
  rcases join_eq o now group source r w with ⟨e, he, -, heq⟩ |
    ⟨demand, -, hv, -, report, hrep, ⟨e, -, heq⟩ | ⟨-, heq⟩⟩
  · rw [heq] at h
    cases h
    exact absurd rfl (he c)
  · rw [heq] at h
    cases h
  rw [heq, hrep] at h
  rcases reportChange_eq o now group (r.filter? group) (demand.filter? group)
    (r.setDemand group (some demand)) w with ⟨-, heq⟩ | ⟨change, p, v, -, heq, -, hidle⟩
  · rw [heq] at h
    cases h
  · rw [heq] at h
    have hg : group.family = r.family := by
      by_contra hne
      simp only [validate, ne_eq, hne, not_false_eq_true, if_true] at hv
      cases hv
    refine Report.tooLarge_of_toPacket ?_ (hlocal v hidle) (sendRecords_codec h)
    intro record hm
    rw [(StateChange.records_group hm).1]
    exact hg

/-- A leave is refused, finds nothing to leave, or the demand that is left is
reported. -/
theorem leave_eq (o : Outlet ω) (now : Nat) (group : Address) (source : Option Address)
    (r : Reporter) (w : ω) :
    ((r.leave o now group source w).2 = (r, w) ∧
      (∀ c, (r.leave o now group source w).1 ≠ .error (.codec c)) ∧
      (r.closed = true ∨ r.demands.get? group = none ∨ ∃ e, r.validate group source = .error e)) ∨
    ∃ held left, r.demands.get? group = some held ∧ r.validate group source = .ok () ∧
      r.closed = false ∧
      left = (((held.leave source).filter? group).map fun _ => held.leave source) ∧
      r.leave o now group source w =
        (r.setDemand group left).reportChange o now group (r.filter? group)
          ((held.leave source).filter? group) w := by
  unfold leave
  split
  · next e he =>
    exact .inl ⟨rfl, fun c hc => by cases hc; exact validate_ne_codec he, .inr (.inr ⟨e, he⟩)⟩
  next hv =>
  split
  · next hnone => exact .inl ⟨rfl, fun _ => by simp, .inr (.inl hnone)⟩
  next held hheld =>
  split
  · next hc => exact .inl ⟨rfl, fun _ => by simp, .inl hc⟩
  next hc => exact .inr ⟨held, _, hheld, hv, by simpa using hc, rfl, rfl⟩

/-- What a leave does to the state, whatever becomes of its report. -/
theorem leave_cases (o : Outlet ω) (now : Nat) (group : Address) (source : Option Address)
    (r : Reporter) (w : ω) :
    (r.leave o now group source w).2.1 = r ∧
      (r.closed = true ∨ r.demands.get? group = none ∨ ∃ e, r.validate group source = .error e) ∨
    (r.closed = false ∧ ∃ held p n, r.demands.get? group = some held ∧
      (r.leave o now group source w).2.1 =
        { r with
          demands := r.demands.set group
            (((held.leave source).filter? group).map fun _ => held.leave source)
          changes := r.changes.set group p
          reportsSent := n }) := by
  rcases leave_eq o now group source r w with ⟨heq, -, h⟩ | ⟨held, left, hheld, -, hc, rfl, heq⟩
  · exact .inl ⟨by rw [heq], h⟩
  · obtain ⟨p, n, hr, -⟩ := reportChange_spec o now group (r.filter? group)
      ((held.leave source).filter? group)
      (r.setDemand group (((held.leave source).filter? group).map fun _ => held.leave source)) w
    rw [heq]
    exact .inr ⟨hc, held, p, n, hheld, hr⟩

/-- Dropping groups leaves nothing asked of them, and the others as they are. -/
theorem dropAll_spec (o : Outlet ω) (now : Nat) (groups : List Address) (r : Reporter) (w : ω) :
    (r.dropAll o now groups w).2.1.closed = r.closed ∧
      ∀ group, (r.dropAll o now groups w).2.1.demands.get? group =
        if group ∈ groups then none else r.demands.get? group := by
  induction groups generalizing r w with
  | nil => exact ⟨rfl, fun _ => rfl⟩
  | cons first groups ih =>
    obtain ⟨p, n, hr, -⟩ := reportChange_spec o now first (r.filter? first) none
      (r.setDemand first none) w
    have hdrop : (r.drop o now first w).2.1 =
        { r.setDemand first none with
          changes := r.changes.set first p, reportsSent := n } := hr
    obtain ⟨hclosed, hdemands⟩ := ih (r.drop o now first w).2.1 (r.drop o now first w).2.2
    rw [hdrop] at hclosed hdemands
    simp only [dropAll, hdrop]
    refine ⟨hclosed, fun group => ?_⟩
    rw [hdemands]
    simp only [setDemand, OrderedMap.get?_set, List.mem_cons]
    grind

/-! ## Timers and queries -/

/-- What timers and queries leave alone. -/
structure SameDemands (r r' : Reporter) : Prop where
  demands : r'.demands = r.demands
  family : r'.family = r.family
  settings : r'.settings = r.settings
  closed : r'.closed = r.closed

theorem SameDemands.refl (r : Reporter) : SameDemands r r := ⟨rfl, rfl, rfl, rfl⟩

theorem SameDemands.sendRecords {r r' : Reporter} (h : SameDemands r r') (o : Outlet ω)
    (records : List GroupRecord) (w : ω) : SameDemands r (r'.sendRecords o records w).2.1 := by
  obtain ⟨n, hn, -⟩ := sendRecords_spec o records r' w
  rw [hn]
  exact ⟨h.demands, h.family, h.settings, h.closed⟩

/-- What queries and their timers leave alone. -/
structure SameChanges (r r' : Reporter) : Prop extends SameDemands r r' where
  changes : r'.changes = r.changes

theorem SameChanges.refl (r : Reporter) : SameChanges r r := ⟨.refl r, rfl⟩

theorem SameChanges.trans {r r' r'' : Reporter} (h : SameChanges r r') (h' : SameChanges r' r'') :
    SameChanges r r'' := by
  refine ⟨⟨?_, ?_, ?_, ?_⟩, ?_⟩
  · rw [h'.demands, h.demands]
  · rw [h'.family, h.family]
  · rw [h'.settings, h.settings]
  · rw [h'.closed, h.closed]
  · rw [h'.changes, h.changes]

/-- The records answer a query, for all groups or for one. -/
def Answers (r : Reporter) (records : List GroupRecord) : Prop :=
  records = r.generalRecords ∨ ∃ group queried, records = r.groupRecords group queried

/-- How a query or its timer ends: with nothing said, or with an answer sent. -/
def Answered (o : Outlet ω) (r : Reporter) (w : ω) (s : Reporter × ω) : Prop :=
  (SameChanges r s.1 ∧ Idle o w s.2) ∨
    ∃ r' records, SameChanges r r' ∧ r'.Answers records ∧ s = (r'.sendRecords o records w).2

theorem Answered.sameDemands {o : Outlet ω} {r : Reporter} {w : ω} {s : Reporter × ω}
    (h : Answered o r w s) : SameDemands r s.1 := by
  rcases h with ⟨h, -⟩ | ⟨r', records, h, -, rfl⟩
  · exact h.toSameDemands
  · exact h.toSameDemands.sendRecords o records w

/-- A retransmission reports the pending change of its group, if there is one, which
stays the same as long as it is pending. -/
theorem retransmit_cases (o : Outlet ω) (now : Nat) (group : Address) (r : Reporter) (w : ω) :
    r.retransmit o now group w = (r, w) ∨
    ∃ pending p v, r.changes.get? group = some pending ∧
      (∀ q, p = some q → q.change = pending.change) ∧ Idle o w v ∧
      r.retransmit o now group w =
        (sendRecords o (pending.change.records group)
          { r with changes := r.changes.set group p } v).2 := by
  simp only [retransmit]
  split
  · exact .inl rfl
  next pending hpending =>
  refine .inr ?_
  split
  · exact ⟨pending, none, w, hpending, fun _ hq => (by cases hq), .inl rfl, rfl⟩
  · refine ⟨pending, some { pending with
      retransmissions := pending.retransmissions - 1
      timer := (o.timer (now + r.settings.reportInterval) w).1 }, _, hpending, ?_,
      .inr ⟨now + r.settings.reportInterval, rfl⟩, rfl⟩
    rintro q ⟨⟩
    rfl

theorem fire_cases (o : Outlet ω) (now : Nat) (alarm : Alarm) (r : Reporter) (w : ω) :
    (∃ group, alarm = .retransmission group ∧ r.fire o now alarm w = r.retransmit o now group w) ∨
      Answered o r w (r.fire o now alarm w) := by
  cases alarm with
  | retransmission group => exact .inl ⟨group, rfl, rfl⟩
  | groupAnswer group =>
    refine .inr ?_
    simp only [fire]
    split
    · exact .inl ⟨.refl r, .inl rfl⟩
    · next pending _ =>
      exact .inr ⟨{ r with groupAnswers := r.groupAnswers.erase group }, _,
        ⟨⟨rfl, rfl, rfl, rfl⟩, rfl⟩, .inr ⟨group, pending.sources, rfl⟩, rfl⟩
  | generalAnswer =>
    exact .inr (.inr ⟨{ r with generalAnswer := none }, _, ⟨⟨rfl, rfl, rfl, rfl⟩, rfl⟩, .inl rfl,
      rfl⟩)

theorem deferGeneral_spec (o : Outlet ω) (now delay : Nat) (r : Reporter) (w : ω) :
    SameChanges r (r.deferGeneral o now delay w).1 ∧ Idle o w (r.deferGeneral o now delay w).2 := by
  unfold deferGeneral
  split
  · exact ⟨.refl r, .inl rfl⟩
  · exact ⟨⟨⟨rfl, rfl, rfl, rfl⟩, rfl⟩, .inr ⟨now + delay, rfl⟩⟩

theorem deferGroup_spec (o : Outlet ω) (now delay : Nat) (group : Address)
    (queried : Option Sources) (r : Reporter) (w : ω) :
    SameChanges r (r.deferGroup o now delay group queried w).1 ∧
      Idle o w (r.deferGroup o now delay group queried w).2 := by
  unfold deferGroup
  split
  · exact ⟨.refl r, .inl rfl⟩
  split
  · exact ⟨⟨⟨rfl, rfl, rfl, rfl⟩, rfl⟩, .inr ⟨now + delay, rfl⟩⟩
  · refine ⟨⟨⟨rfl, rfl, rfl, rfl⟩, rfl⟩, ?_⟩
    show Idle o w (ite _ _ _ : Timer × ω).2
    split
    · exact .inr ⟨now + delay, rfl⟩
    · exact .inl rfl

theorem onQuery_cases (o : Outlet ω) (now chance : Nat) (q : Query) (r : Reporter) (w : ω) :
    Answered o r w (r.onQuery o now chance q w).2 := by
  simp only [onQuery]
  split
  · exact .inl ⟨.refl r, .inl rfl⟩
  -- What the query tells of its sender goes into fields that nothing here reads.
  generalize hr : ({ r with
    robustness := if q.robustness = 0 then r.robustness else q.robustness
    queryInterval := if q.queryInterval = 0 then r.queryInterval else q.queryInterval } :
      Reporter) = told
  have h : SameChanges r told := by
    subst hr
    exact ⟨⟨rfl, rfl, rfl, rfl⟩, rfl⟩
  split
  · refine .inr ⟨told, _, h, ?_, rfl⟩
    split
    · exact .inl rfl
    · exact .inr ⟨_, _, rfl⟩
  · refine .inl ?_
    split
    · obtain ⟨hsame, hidle⟩ := deferGeneral_spec o now (chance % (q.maxResponseDelay + 1)) told w
      exact ⟨h.trans hsame, hidle⟩
    · next group _ =>
      obtain ⟨hsame, hidle⟩ := deferGroup_spec o now (chance % (q.maxResponseDelay + 1)) group
        (if q.sources.isEmpty then none else some (OrderedSet.ofList q.sources)) told w
      exact ⟨h.trans hsame, hidle⟩

theorem sameDemands_fire (o : Outlet ω) (now : Nat) (alarm : Alarm) (r : Reporter) (w : ω) :
    SameDemands r (r.fire o now alarm w).1 := by
  rcases fire_cases o now alarm r w with ⟨group, -, heq⟩ | h
  · rw [heq]
    rcases retransmit_cases o now group r w with heq | ⟨pending, p, v, -, -, -, heq⟩
    · rw [heq]
      exact .refl r
    · have hset : SameDemands r { r with changes := r.changes.set group p } :=
        ⟨rfl, rfl, rfl, rfl⟩
      rw [heq]
      exact hset.sendRecords o _ v
  · exact h.sameDemands

end MulticastTunnel.Membership.Reporter
