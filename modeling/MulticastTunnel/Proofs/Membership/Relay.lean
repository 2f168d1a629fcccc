import MulticastTunnel.Proofs.Membership.Kindred

/-!
# A relay that listens

Reports leave through an outlet, which keeps a log of them here. A relay hears
those that were sent and did not get lost, reads their records, and takes its
view of a group from them. What there is to compare about a group is its
`Sight`: the view, the filter, the change that is still pending, and how many
reports told of changes. While the pending change takes the view to the filter,
the next report of it sets the view right.
-/

namespace MulticastTunnel.Membership

open Ordered

variable {ω : Type} {arrives : Nat → Bool} {group : Address} {p : Packet}

/-! ## What is heard -/

/-- The reports that were handed to an outlet, the latest first, and its answers. -/
abbrev Log := List (Packet × Except TunnelError SendOutcome)

/-- The outlet with a log of what it was handed. -/
def Outlet.logged (o : Outlet ω) : Outlet (ω × Log) where
  localAddress w := o.localAddress w.1
  send packet w :=
    let (answer, v) := o.send packet w.1
    (answer, v, (packet, answer) :: w.2)
  serial w :=
    let (serial, v) := o.serial w.1
    (serial, v, w.2)

/-- The records that a packet carries, none if it carries no report. -/
def recordsOf (p : Packet) : List GroupRecord :=
  match Report.ofPacket p with
  | .ok r => r.records
  | .error _ => []

/-- What the relay hears, the latest first: the records of the reports that were
sent and arrive. -/
def heard (arrives : Nat → Bool) : Log → List (List GroupRecord)
  | [] => []
  | (packet, answer) :: older =>
    if answer = .ok .sent ∧ arrives older.length then recordsOf packet :: heard arrives older
    else heard arrives older

/-- Every report was sent and arrives. -/
def Lossless (arrives : Nat → Bool) (log : Log) : Prop :=
  (∀ e ∈ log, e.2 = .ok .sent) ∧ ∀ k < log.length, arrives k = true

/-- No report got lost, and none was too large to be written. -/
def Delivered (arrives : Nat → Bool) (log : Log) (result : Except MembershipError Unit) : Prop :=
  Lossless arrives log ∧ ∀ c, result ≠ .error (.codec c)

theorem Lossless.of_suffix {older log : Log} (h : Lossless arrives log) (hs : older <:+ log) :
    Lossless arrives older where
  left e he := h.1 e (hs.mem he)
  right k hk := h.2 k (Nat.lt_of_lt_of_le hk hs.length_le)

/-- Records of the family are heard as they were written. -/
theorem recordsOf_of_toPacket {family : Family} {records : List GroupRecord} {source : Address}
    (hr : ∀ r ∈ records, r.OfFamily family)
    (h : Report.toPacket ⟨family, records⟩ source = .ok p) : recordsOf p = records := by
  rw [recordsOf, Report.ofPacket_of_toPacket hr h]

/-- A report of the records tells of no change, whoever reads it. -/
def Silent (family : Family) (records : List GroupRecord) : Prop :=
  ∀ source p, Report.toPacket ⟨family, records⟩ source = .ok p →
    ∀ group, tellsChange group (recordsOf p) = false

theorem silent_of_ofFamily {family : Family} {records : List GroupRecord}
    (hr : ∀ r ∈ records, r.OfFamily family) (hc : ∀ r ∈ records, r.isChange = false) :
    Silent family records := by
  intro source p h group
  rw [recordsOf_of_toPacket hr h, tellsChange, List.any_eq_false]
  intro r hm
  simp [hc r hm]

theorem silent_singleton (family : Family) {record : GroupRecord} (hc : record.isChange = false) :
    Silent family [record] := by
  intro source p h group
  simp only [recordsOf, tellsChange]
  split
  · next read hread =>
    rw [List.any_eq_false]
    intro r hm
    have ht := Report.type_of_ofPacket_singleton h hread r hm
    simp only [GroupRecord.isChange] at hc ⊢
    simp [ht, hc]
  · rfl

/-! ## Sights -/

/-- What there is to compare about a group. -/
structure Sight where
  /-- What the relay takes the group to be. -/
  view : View
  /-- Mode and sources of the filter that holds. -/
  filter : View
  /-- The change that is still to be reported. -/
  pending : Option StateChange
  /-- How many reports the relay heard that tell of a change. -/
  told : Nat

namespace Sight

variable {s s' : Sight} {c : StateChange} {delivered : Prop}

/-- What is still to be reported takes the view to the filter. -/
def Ready (s : Sight) : Prop :=
  match s.pending with
  | some c => c.applyTo s.view = s.filter
  | none => s.view = s.filter

/-- How an operation may change what there is to see: while a change is pending
it stays ready, a report of it sets the view right, and a view that was right
stays so if all is delivered. -/
structure Follows (delivered : Prop) (s s' : Sight) : Prop where
  ready : s.Ready → s'.pending ≠ none → s'.Ready
  current : s.Ready → s.told < s'.told → s'.view = s'.filter
  synced : delivered → s.Ready → s.view = s.filter → s'.view = s'.filter

theorem Follows.refl (delivered : Prop) (s : Sight) : Follows delivered s s where
  ready h _ := h
  current _ h := absurd h (Nat.lt_irrefl _)
  synced _ _ h := h

theorem Follows.imp {delivered' : Prop} (h : Follows delivered s s')
    (himp : delivered' → delivered) : Follows delivered' s s' :=
  ⟨h.ready, h.current, fun hd => h.synced (himp hd)⟩

/-- A report of a change that leads to the filter, and that is pending if any is,
is heard or not. If it should have been, then it told nothing, or no new filter. -/
theorem follows_of_report (hc : s.Ready → c.applyTo s.view = s'.filter)
    (hp : ∀ c', s'.pending = some c' → c' = c)
    (hv : s'.view = c.applyTo s.view ∨
      s'.view = s.view ∧ s'.told = s.told ∧
        (delivered → c.applyTo s.view = s.view ∨ s'.filter = s.filter)) :
    Follows delivered s s' := by
  have htaken : s.Ready → c.applyTo s'.view = s'.filter := by
    intro hr
    rcases hv with hv | ⟨hv, -, -⟩
    · rw [hv, StateChange.applyTo_applyTo, hc hr]
    · rw [hv, hc hr]
  refine ⟨?_, ?_, ?_⟩
  · intro hr hne
    obtain ⟨c', hc'⟩ := Option.ne_none_iff_exists'.mp hne
    cases hp c' hc'
    rw [Ready, hc']
    exact htaken hr
  · intro hr ht
    rcases hv with hv | ⟨-, he, -⟩
    · rw [hv, hc hr]
    · rw [he] at ht
      exact absurd ht (Nat.lt_irrefl _)
  · intro hd hr hsync
    rcases hv with hv | ⟨hv, -, hid⟩
    · rw [hv, hc hr]
    · rcases hid hd with hid | hfilter
      · rw [hv, ← hid, hc hr]
      · rw [hv, hsync, hfilter]

end Sight

namespace Reporter

variable {r r' : Reporter} {records : List GroupRecord} {reports : List (List GroupRecord)}

/-- What there is to compare once the reports were heard, the latest of them first.
Before the first one the view is that nothing is received. -/
def sight (r : Reporter) (group : Address) (reports : List (List GroupRecord)) : Sight where
  view := reports.foldr (hear group) (.including, ∅)
  filter := StateChange.parts (r.filter? group)
  pending := (r.changes.get? group).map (·.change)
  told := reports.countP (tellsChange group)

theorem sight_congr (hd : r'.demands.get? group = r.demands.get? group)
    (hc : r'.changes.get? group = r.changes.get? group) :
    r'.sight group reports = r.sight group reports := by
  simp only [sight, filter?, hd, hc]

/-- Sending changes nothing of the sender that is to be seen. -/
theorem sight_sendRecords {ω : Type} (o : Outlet ω) (records : List GroupRecord) (r : Reporter)
    (w : ω) : (r.sendRecords o records w).2.1.sight group reports = r.sight group reports := by
  obtain ⟨n, hr, -⟩ := sendRecords_spec o records r w
  rw [hr]
  exact sight_congr rfl rfl

theorem sight_cons_of_not_tellsChange (h : tellsChange group records = false) :
    r.sight group (records :: reports) = r.sight group reports := by
  simp only [sight, List.foldr_cons, hear_eq_of_not_tellsChange h, List.countP_cons, h,
    Bool.false_eq_true, if_false, Nat.add_zero]

/-- The number of a timer is not handed to anyone. -/
theorem Idle.log {o : Outlet ω} {w v : ω × Log} (h : Idle o.logged w v) : v.2 = w.2 := by
  rcases h with rfl | ⟨deadline, rfl⟩ <;> rfl

/-- A report that fails in the sending is in the log with its error. -/
theorem sendRecords_send {o : Outlet ω} {records : List GroupRecord} {r : Reporter} {w : ω × Log}
    {e : TunnelError} (h : (r.sendRecords o.logged records w).1 = .error (.send e)) :
    ∃ report ∈ (r.sendRecords o.logged records w).2.2.2, report.2 = .error e := by
  revert h
  unfold sendRecords
  split
  · intro h
    cases h
  split
  · intro h
    cases h
  next packet _ =>
  obtain ⟨answer, v, hsend⟩ : ∃ answer v, o.send packet w.1 = (answer, v) := ⟨_, _, rfl⟩
  have hlogged : o.logged.send packet w = (answer, v, (packet, answer) :: w.2) := by
    simp only [Outlet.logged, hsend]
  rw [hlogged]
  split
  · intro h
    cases h
  · intro h
    cases h
  · intro h
    cases h
  · next heq =>
    intro h
    cases heq
    cases h
    exact ⟨_, List.mem_cons_self, rfl⟩

/-- A report is heard, or it is not; then it was not delivered, unless there was
nothing to report. -/
theorem sendRecords_heard (arrives : Nat → Bool) (o : Outlet ω) (records : List GroupRecord)
    (r : Reporter) (w : ω × Log) :
    w.2 <:+ (r.sendRecords o.logged records w).2.2.2 ∧
    ((∃ source p, Report.toPacket ⟨r.family, records⟩ source = .ok p ∧
        (r.sendRecords o.logged records w).1 = .ok () ∧
        heard arrives (r.sendRecords o.logged records w).2.2.2 =
          recordsOf p :: heard arrives w.2) ∨
      heard arrives (r.sendRecords o.logged records w).2.2.2 = heard arrives w.2 ∧
        (Delivered arrives (r.sendRecords o.logged records w).2.2.2
          (r.sendRecords o.logged records w).1 →
            records = [] ∧ (r.sendRecords o.logged records w).1 = .ok ())) := by
  by_cases hempty : records = []
  · subst hempty
    exact ⟨List.suffix_refl _, .inr ⟨rfl, fun _ => ⟨rfl, rfl⟩⟩⟩
  have hne : records.isEmpty = false := by simpa using hempty
  cases hp : Report.toPacket ⟨r.family, records⟩ (o.localAddress w.1) with
  | error e =>
    have heq : r.sendRecords o.logged records w = (.error (.codec e), r, w) := by
      simp only [sendRecords, hne, Bool.false_eq_true, if_false, Outlet.logged, hp]
    rw [heq]
    exact ⟨List.suffix_refl _, .inr ⟨rfl, fun h => absurd rfl (h.2 e)⟩⟩
  | ok packet =>
    obtain ⟨answer, v, hsend⟩ : ∃ answer v, o.send packet w.1 = (answer, v) := ⟨_, _, rfl⟩
    set log : Log := (packet, answer) :: w.2 with hlog
    have heq : (r.sendRecords o.logged records w).2.2.2 = log ∧
        (answer = .ok .sent → (r.sendRecords o.logged records w).1 = .ok ()) := by
      simp only [sendRecords, hne, Bool.false_eq_true, if_false, Outlet.logged, hp, hsend]
      split
      · next h => cases h; exact ⟨rfl, fun _ => rfl⟩
      · next h => cases h; exact ⟨rfl, fun _ => rfl⟩
      · next h => cases h; exact ⟨rfl, fun _ => rfl⟩
      · next h =>
        cases h
        refine ⟨rfl, fun hs => ?_⟩
        cases hs
    rw [heq.1]
    refine ⟨List.suffix_cons _ _, ?_⟩
    by_cases ha : answer = .ok .sent ∧ arrives w.2.length
    · exact .inl ⟨_, packet, hp, heq.2 ha.1, by rw [hlog, heard, if_pos ha]⟩
    · refine .inr ⟨by rw [hlog, heard, if_neg ha], fun h => absurd ⟨?_, ?_⟩ ha⟩
      · exact h.1.1 (packet, answer) List.mem_cons_self
      · exact h.1.2 w.2.length (Nat.lt_succ_self _)

end Reporter

end MulticastTunnel.Membership
