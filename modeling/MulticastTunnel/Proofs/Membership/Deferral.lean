import MulticastTunnel.Proofs.Membership.Requests

/-!
# Answers that wait

A reporter that delays its answers keeps one timer for all groups and one for each
group, and queries share them: a later query may be taken up by a timer that is
pending, bring it forward, or widen the sources that it answers for. A query is
covered while a timer is pending that answers it in time. Every step keeps the cover
of a query, but for the step that answers it.
-/

namespace MulticastTunnel.Membership

open Ordered

/-- The answer for these sources, or for the whole group, holds what the query asks
for. Only the whole group will do for a query that names no sources. -/
def Query.Within (q : Query) (sources : Option Sources) : Prop :=
  ∀ s, sources = some s → q.sources ≠ [] ∧ ∀ a ∈ q.sources, a ∈ s

namespace Reporter

variable {ω : Type} {r r' : Reporter} {q : Query} {deadline : Nat}

/-- The timer is pending, and its alarm answers the query. -/
inductive Covers (r : Reporter) (q : Query) : Timer → Alarm → Prop
  | general {timer : Timer} : r.generalAnswer = some timer → Covers r q timer .generalAnswer
  | group {group : Address} {answer : PendingAnswer} : q.group = some group →
      r.groupAnswers.get? group = some answer → q.Within answer.sources →
      Covers r q answer.timer (.groupAnswer group)

/-- The query will be answered at the deadline or before. -/
def Covered (r : Reporter) (q : Query) (deadline : Nat) : Prop :=
  ∃ timer alarm, r.Covers q timer alarm ∧ timer.deadline ≤ deadline

/-- The records answer the query from the filters that are held: with those of all
groups, with that of its group, or with the sources among some that the group receives,
those of the query among them. -/
inductive Replies (r : Reporter) (q : Query) : List GroupRecord → Prop
  | all : Replies r q (r.filters.map (·.currentState))
  | whole {group : Address} : q.group = some group →
      Replies r q ((r.filter? group).toList.map (·.currentState))
  | among {group : Address} {queried : Sources} {records : List GroupRecord} :
      q.group = some group → q.sources ≠ [] → (∀ a ∈ q.sources, a ∈ queried) →
      r.Tells group queried records → Replies r q records

theorem Covers.mem_alarms {timer : Timer} {alarm : Alarm} (h : r.Covers q timer alarm) :
    (timer, alarm) ∈ r.alarms := by
  cases h with
  | general ht => simp [alarms, ht]
  | @group group answer _ hg _ =>
    have hm : (group, answer) ∈ r.groupAnswers.toList := OrderedMap.get?_eq_some_iff.mp hg
    simp only [alarms, List.mem_append, List.mem_map]
    exact .inl (.inr ⟨_, hm, rfl⟩)

/-- An alarm that covers the query sends the answer, from the filters as they are then. -/
theorem Covers.fire {timer : Timer} {alarm : Alarm} (h : r.Covers q timer alarm) (o : Outlet ω)
    (now : Nat) (w : ω) :
    ∃ r' records, SameDemands r r' ∧ r.Replies q records ∧
      r.fire o now alarm w = (r'.sendRecords o records w).2 := by
  cases h with
  | general _ =>
    exact ⟨{ r with generalAnswer := none }, _, ⟨rfl, rfl, rfl, rfl⟩, .all, rfl⟩
  | @group group answer hgroup hget hwithin =>
    refine ⟨{ r with groupAnswers := r.groupAnswers.erase group },
      r.groupRecords group answer.sources, ⟨rfl, rfl, rfl, rfl⟩, ?_, ?_⟩
    · cases hs : answer.sources with
      | none =>
        have hwhole : r.groupRecords group none =
            (r.filter? group).toList.map (·.currentState) := by
          unfold groupRecords
          cases r.filter? group <;> rfl
        rw [hwhole]
        exact .whole hgroup
      | some queried =>
        obtain ⟨hne, hall⟩ := hwithin queried hs
        exact .among hgroup hne hall (r.tells_groupRecords group queried)
    · simp only [Reporter.fire, hget]
      rfl

/-! ## Steps that leave the answers alone -/

/-- What joins, leaves and reports leave alone. -/
structure SameAnswers (r r' : Reporter) : Prop where
  generalAnswer : r'.generalAnswer = r.generalAnswer
  groupAnswers : r'.groupAnswers = r.groupAnswers
  family : r'.family = r.family
  settings : r'.settings = r.settings
  closed : r'.closed = r.closed

theorem SameAnswers.refl (r : Reporter) : SameAnswers r r := ⟨rfl, rfl, rfl, rfl, rfl⟩

theorem SameAnswers.trans {r'' : Reporter} (h : SameAnswers r r') (h' : SameAnswers r' r'') :
    SameAnswers r r'' where
  generalAnswer := h'.generalAnswer.trans h.generalAnswer
  groupAnswers := h'.groupAnswers.trans h.groupAnswers
  family := h'.family.trans h.family
  settings := h'.settings.trans h.settings
  closed := h'.closed.trans h.closed

theorem SameAnswers.covers {timer : Timer} {alarm : Alarm} (h : SameAnswers r r')
    (hc : r.Covers q timer alarm) : r'.Covers q timer alarm := by
  cases hc with
  | general ht => exact .general (h.generalAnswer.trans ht)
  | group hgroup hget hwithin => exact .group hgroup (by rw [h.groupAnswers, hget]) hwithin

theorem SameAnswers.covered (h : SameAnswers r r') (hc : r.Covered q deadline) :
    r'.Covered q deadline := by
  obtain ⟨timer, alarm, hc, hle⟩ := hc
  exact ⟨timer, alarm, h.covers hc, hle⟩

section Steps

variable (o : Outlet ω) (now : Nat)

theorem sameAnswers_sendRecords (records : List GroupRecord) (r : Reporter) (w : ω) :
    SameAnswers r (r.sendRecords o records w).2.1 := by
  obtain ⟨n, hr, -⟩ := sendRecords_spec o records r w
  rw [hr]
  exact ⟨rfl, rfl, rfl, rfl, rfl⟩

theorem sameAnswers_reportChange (group : Address) (old new : Option Filter) (r : Reporter)
    (w : ω) : SameAnswers r (r.reportChange o now group old new w).2.1 := by
  obtain ⟨p, n, hr, -⟩ := reportChange_spec o now group old new r w
  rw [hr]
  exact ⟨rfl, rfl, rfl, rfl, rfl⟩

theorem sameAnswers_join (group : Address) (source : Option Address) (r : Reporter) (w : ω) :
    SameAnswers r (r.join o now group source w).2.1 := by
  rcases join_cases o now group source r w with ⟨e, -, -, hr⟩ | ⟨-, -, -, p, n, hr⟩
  · rw [hr]
    exact .refl r
  · rw [hr]
    exact ⟨rfl, rfl, rfl, rfl, rfl⟩

theorem sameAnswers_leave (group : Address) (source : Option Address) (r : Reporter) (w : ω) :
    SameAnswers r (r.leave o now group source w).2.1 := by
  rcases leave_cases o now group source r w with ⟨hr, -⟩ | ⟨-, held, p, n, -, hr⟩
  · rw [hr]
    exact .refl r
  · rw [hr]
    exact ⟨rfl, rfl, rfl, rfl, rfl⟩

theorem sameAnswers_dropAll (groups : List Address) (r : Reporter) (w : ω) :
    SameAnswers r (r.dropAll o now groups w).2.1 := by
  induction groups generalizing r w with
  | nil => exact .refl r
  | cons group groups ih =>
    have hset : SameAnswers r (r.setDemand group none) := ⟨rfl, rfl, rfl, rfl, rfl⟩
    have hfirst : SameAnswers r (r.drop o now group w).2.1 :=
      hset.trans (sameAnswers_reportChange o now group (r.filter? group) none _ w)
    exact hfirst.trans (ih _ _)

theorem sameAnswers_retransmit (group : Address) (r : Reporter) (w : ω) :
    SameAnswers r (r.retransmit o now group w).1 := by
  rcases retransmit_cases o now group r w with heq | ⟨pending, p, v, -, -, -, heq⟩
  · rw [heq]
    exact .refl r
  · have hset : SameAnswers r { r with changes := r.changes.set group p } :=
      ⟨rfl, rfl, rfl, rfl, rfl⟩
    rw [heq]
    exact hset.trans (sameAnswers_sendRecords o _ _ v)

/-! ## Queries -/

/-- The sources that a query asks for, none if it asks for the whole group. -/
def queriedBy (q : Query) : Option Sources :=
  if q.sources.isEmpty then none else some (.ofList q.sources)

theorem within_queriedBy (q : Query) : q.Within (queriedBy q) := by
  intro s hs
  unfold queriedBy at hs
  split at hs
  · cases hs
  · next hne =>
    cases hs
    exact ⟨by simpa using hne, fun a ha => OrderedSet.mem_ofList.mpr ha⟩

/-- What two answers hold together, each of them holds. -/
theorem within_joinQueried {s t : Option Sources} (h : q.Within s ∨ q.Within t) :
    q.Within (joinQueried s t) := by
  intro u hu
  cases s with
  | none => cases hu
  | some s =>
    cases t with
    | none => cases hu
    | some t =>
      cases hu
      rcases h with h | h
      · obtain ⟨hne, hall⟩ := h s rfl
        exact ⟨hne, fun a ha => OrderedSet.mem_union.mpr (.inl (hall a ha))⟩
      · obtain ⟨hne, hall⟩ := h t rfl
        exact ⟨hne, fun a ha => OrderedSet.mem_union.mpr (.inr (hall a ha))⟩

theorem answersWithin_iff {now delay : Nat} : r.answersWithin now delay = true ↔
    ∃ timer, r.generalAnswer = some timer ∧ timer.deadline ≤ now + delay := by
  cases hg : r.generalAnswer with
  | none => simp [answersWithin, hg]
  | some timer =>
    simp [answersWithin, hg, Timer.remaining]
    omega

/-- A general answer covers every query, with the delay or before. -/
theorem covered_deferGeneral (delay : Nat) (r : Reporter) (w : ω) (q : Query) :
    (r.deferGeneral o now delay w).1.Covered q (now + delay) := by
  unfold deferGeneral
  split
  · next hwithin =>
    obtain ⟨timer, ht, hle⟩ := answersWithin_iff.mp hwithin
    exact ⟨timer, _, .general ht, hle⟩
  · exact ⟨_, _, .general rfl, Nat.le_refl _⟩

/-- Another general query brings the general answer forward at most. -/
theorem Covered.deferGeneral (h : r.Covered q deadline) (delay : Nat) (w : ω) :
    (r.deferGeneral o now delay w).1.Covered q deadline := by
  unfold Reporter.deferGeneral
  split
  · exact h
  next hwithin =>
  obtain ⟨timer, alarm, hc, hle⟩ := h
  cases hc with
  | general ht =>
    -- The timer that is replaced would have run out later.
    have hlater : now + delay < timer.deadline := by
      by_contra hn
      exact hwithin (answersWithin_iff.mpr ⟨timer, ht, by omega⟩)
    exact ⟨_, _, .general rfl, Nat.le_trans (Nat.le_of_lt hlater) hle⟩
  | group hgroup hget hq => exact ⟨_, _, .group hgroup hget hq, hle⟩

/-- A query for a group is left to the general answer, or to the answer for its group.
That one waits no longer than it did before, and answers for as many sources. -/
theorem deferGroup_cases (delay : Nat) (group : Address) (queried : Option Sources) (r : Reporter)
    (w : ω) :
    (r.answersWithin now delay = true ∧ r.deferGroup o now delay group queried w = (r, w)) ∨
    ∃ answer v, r.deferGroup o now delay group queried w =
        ({ r with groupAnswers := r.groupAnswers.insert group answer }, v) ∧
      answer.timer.deadline ≤ now + delay ∧
      (∀ q : Query, q.Within queried → q.Within answer.sources) ∧
      ∀ pending, r.groupAnswers.get? group = some pending →
        answer.timer.deadline ≤ pending.timer.deadline ∧
          ∀ q : Query, q.Within pending.sources → q.Within answer.sources := by
  unfold deferGroup
  split
  · next hwithin => exact .inl ⟨hwithin, rfl⟩
  refine .inr ?_
  cases hget : r.groupAnswers.get? group with
  | none =>
    refine ⟨⟨queried, (o.timer (now + delay) w).1⟩, _, rfl, Nat.le_refl _, fun _ h => h, ?_⟩
    rintro pending ⟨⟩
  | some pending =>
    have hnew : ∀ q : Query, q.Within queried →
        q.Within (joinQueried pending.sources queried) := fun _ h => within_joinQueried (.inr h)
    have hold : ∀ q : Query, q.Within pending.sources →
        q.Within (joinQueried pending.sources queried) := fun _ h => within_joinQueried (.inl h)
    by_cases hsooner : delay < pending.timer.remaining now
    · simp only [hsooner, if_true]
      refine ⟨⟨_, (o.timer (now + delay) w).1⟩, _, rfl, Nat.le_refl _, hnew, ?_⟩
      rintro _ ⟨⟩
      refine ⟨?_, hold⟩
      simp only [Timer.remaining] at hsooner
      show now + delay ≤ pending.timer.deadline
      omega
    · simp only [hsooner, if_false]
      refine ⟨⟨_, pending.timer⟩, _, rfl, ?_, hnew, ?_⟩
      · simp only [Timer.remaining] at hsooner
        show pending.timer.deadline ≤ now + delay
        omega
      · rintro _ ⟨⟩
        exact ⟨Nat.le_refl _, hold⟩

/-- A query for a group is covered, with the delay or before. -/
theorem covered_deferGroup {group : Address} {queried : Option Sources}
    (hgroup : q.group = some group) (hq : q.Within queried) (delay : Nat) (r : Reporter) (w : ω) :
    (r.deferGroup o now delay group queried w).1.Covered q (now + delay) := by
  rcases deferGroup_cases o now delay group queried r w with
    ⟨hwithin, heq⟩ | ⟨answer, v, heq, hle, hnew, -⟩
  · obtain ⟨timer, ht, hle⟩ := answersWithin_iff.mp hwithin
    rw [heq]
    exact ⟨timer, _, .general ht, hle⟩
  · rw [heq]
    exact ⟨_, _, .group hgroup (by rw [OrderedMap.get?_insert, if_pos rfl]) (hnew q hq), hle⟩

/-- Another query for a group brings its answer forward at most, and widens it. -/
theorem Covered.deferGroup (h : r.Covered q deadline) (delay : Nat) (group : Address)
    (queried : Option Sources) (w : ω) :
    (r.deferGroup o now delay group queried w).1.Covered q deadline := by
  rcases deferGroup_cases o now delay group queried r w with
    ⟨-, heq⟩ | ⟨answer, v, heq, -, -, hpending⟩
  · rw [heq]
    exact h
  rw [heq]
  obtain ⟨timer, alarm, hc, hle⟩ := h
  cases hc with
  | general ht => exact ⟨_, _, .general ht, hle⟩
  | @group other pending hgroup hget hq =>
    by_cases hsame : other = group
    · subst hsame
      obtain ⟨hsooner, hwider⟩ := hpending pending hget
      exact ⟨_, _, .group hgroup (by rw [OrderedMap.get?_insert, if_pos rfl]) (hwider q hq),
        Nat.le_trans hsooner hle⟩
    · exact ⟨_, _, .group hgroup (by rw [OrderedMap.get?_insert, if_neg hsame, hget]) hq, hle⟩

/-! ## Every operation -/

/-- A query that is not answered at once is deferred. What it tells of its sender goes
into fields that answers do not depend on. -/
theorem onQuery_eq_defer (chance : Nat) (q : Query) (r : Reporter) (w : ω)
    (hopen : r.closed = false) (htiming : r.settings.timing = .randomized) :
    ∃ told, SameAnswers r told ∧ (r.onQuery o now chance q w).2 =
      match q.group with
      | none => told.deferGeneral o now (chance % (q.maxResponseDelay + 1)) w
      | some group =>
        told.deferGroup o now (chance % (q.maxResponseDelay + 1)) group (queriedBy q) w := by
  refine ⟨{ r with
    robustness := if q.robustness = 0 then r.robustness else q.robustness
    queryInterval := if q.queryInterval = 0 then r.queryInterval else q.queryInterval },
    ⟨rfl, rfl, rfl, rfl, rfl⟩, ?_⟩
  unfold onQuery
  rw [if_neg (by simp [hopen])]
  simp only [htiming]
  cases q.group <;> rfl

/-- A query that is handled is covered from then on, and the queries before it stay
covered. -/
theorem onQuery_defers (chance : Nat) (next : Query) (r : Reporter) (w : ω)
    (hopen : r.closed = false) (htiming : r.settings.timing = .randomized) :
    (r.onQuery o now chance next w).2.1.Covered next
        (now + chance % (next.maxResponseDelay + 1)) ∧
      ∀ q deadline, r.Covered q deadline →
        (r.onQuery o now chance next w).2.1.Covered q deadline := by
  obtain ⟨told, htold, heq⟩ := onQuery_eq_defer o now chance next r w hopen htiming
  rw [heq]
  cases hgroup : next.group with
  | none =>
    exact ⟨covered_deferGeneral o now _ told w next, fun q deadline h =>
      (htold.covered h).deferGeneral o now _ w⟩
  | some group =>
    exact ⟨covered_deferGroup o now hgroup (within_queriedBy next) _ told w,
      fun q deadline h => (htold.covered h).deferGroup o now _ group _ w⟩

/-- An alarm that does not answer the query leaves the timer that covers it. -/
theorem Covered.fire {alarm : Alarm} (h : r.Covered q deadline)
    (hother : ∀ timer, ¬ r.Covers q timer alarm) (w : ω) :
    (r.fire o now alarm w).1.Covered q deadline := by
  cases alarm with
  | retransmission group => exact (sameAnswers_retransmit o now group r w).covered h
  | generalAnswer =>
    refine (sameAnswers_sendRecords o _ _ w).covered ?_
    obtain ⟨timer, alarm, hc, hle⟩ := h
    cases hc with
    | general ht => exact absurd (.general ht) (hother timer)
    | group hgroup hget hq => exact ⟨_, _, .group hgroup hget hq, hle⟩
  | groupAnswer group =>
    simp only [Reporter.fire]
    split
    · exact h
    refine (sameAnswers_sendRecords o _ _ w).covered ?_
    obtain ⟨timer, alarm, hc, hle⟩ := h
    cases hc with
    | general ht => exact ⟨_, _, .general ht, hle⟩
    | @group other pending hgroup hget hq =>
      by_cases hsame : other = group
      · subst hsame
        exact absurd (.group hgroup hget hq) (hother _)
      · exact ⟨_, _, .group hgroup (by rw [OrderedMap.get?_erase, if_neg hsame, hget]) hq, hle⟩

/-- A covered query stays so until an alarm answers it. -/
theorem Covered.perform {act : Act} (h : r.Covered q deadline) (hopen : r.closed = false)
    (htiming : r.settings.timing = .randomized)
    (hother : ∀ timer alarm, act = .alarm alarm → ¬ r.Covers q timer alarm) (w : ω) :
    (r.perform o now act w).2.1.Covered q deadline := by
  cases act with
  | join group source => exact (sameAnswers_join o now group source r w).covered h
  | leave group source => exact (sameAnswers_leave o now group source r w).covered h
  | leaveAll => exact (sameAnswers_dropAll o now r.demands.keys r w).covered h
  | query chance next => exact (onQuery_defers o now chance next r w hopen htiming).2 q deadline h
  | alarm alarm => exact h.fire o now (fun timer => hother timer alarm rfl) w

/-- No operation closes a reporter or changes how it is set up. -/
theorem perform_setup (act : Act) (r : Reporter) (w : ω) :
    (r.perform o now act w).2.1.closed = r.closed ∧
      (r.perform o now act w).2.1.family = r.family ∧
      (r.perform o now act w).2.1.settings = r.settings := by
  cases act with
  | join group source =>
    have h := sameAnswers_join o now group source r w
    exact ⟨h.closed, h.family, h.settings⟩
  | leave group source =>
    have h := sameAnswers_leave o now group source r w
    exact ⟨h.closed, h.family, h.settings⟩
  | leaveAll =>
    have h := sameAnswers_dropAll o now r.demands.keys r w
    exact ⟨h.closed, h.family, h.settings⟩
  | query chance q =>
    have h := (onQuery_cases o now chance q r w).sameDemands
    exact ⟨h.closed, h.family, h.settings⟩
  | alarm alarm =>
    have h := sameDemands_fire o now alarm r w
    exact ⟨h.closed, h.family, h.settings⟩

end Steps

/-! ## Runs -/

namespace Run

variable (run : Run ω)

theorem setup_eq (n : Nat) :
    (run.state n).1.closed = false ∧ (run.state n).1.family = run.family ∧
      (run.state n).1.settings = run.settings := by
  induction n with
  | zero => exact ⟨rfl, rfl, rfl⟩
  | succ n ih =>
    obtain ⟨hc, hf, hs⟩ := perform_setup (run.outlet n).logged (run.act n).1 (run.act n).2
      (run.state n).1 (run.state n).2
    exact ⟨hc.trans ih.1, hf.trans ih.2.1, hs.trans ih.2.2⟩

/-- The operation with this number is an alarm that answers the query. -/
def Answers (q : Query) (n : Nat) : Prop :=
  ∃ timer alarm, (run.act n).2 = .alarm alarm ∧ (run.state n).1.Covers q timer alarm

theorem covered (hdelays : run.settings.timing = .randomized) {i n : Nat} (hin : i < n)
    {chance : Nat} (hquery : (run.act i).2 = .query chance q)
    (hopen : ∀ k, i < k → k < n → ¬ run.Answers q k) :
    (run.state n).1.Covered q ((run.act i).1 + chance % (q.maxResponseDelay + 1)) := by
  induction hin with
  | refl =>
    obtain ⟨hc, -, hs⟩ := run.setup_eq i
    rw [state, hquery]
    exact (onQuery_defers _ _ chance q _ _ hc (by rw [hs, hdelays])).1
  | @step n hin ih =>
    obtain ⟨hc, -, hs⟩ := run.setup_eq n
    refine (ih fun k hk hkn => hopen k hk (Nat.lt_succ_of_lt hkn)).perform _ _ hc
      (by rw [hs, hdelays]) (fun timer alarm hact hcov => ?_) _
    exact hopen n hin (Nat.lt_succ_self n) ⟨timer, alarm, hact, hcov⟩

/-- **No query is lost by coalescing**: a query that was handled and not answered since
is covered by a timer that is pending and runs out within the delay that was drawn for
the query. The alarm of that timer then answers the query from the filters that are held
at that moment. So no query is unanswered once its delay is over and no timer is due. -/
theorem query_covered (run : Run ω) (hdelays : run.settings.timing = .randomized) {i n : Nat}
    (hin : i < n) {chance : Nat} {q : Query} (hquery : (run.act i).2 = .query chance q)
    (hopen : ∀ k, i < k → k < n → ¬ run.Answers q k) :
    let r := (run.state n).1
    let deadline := (run.act i).1 + chance % (q.maxResponseDelay + 1)
    (∃ timer alarm, (timer, alarm) ∈ r.alarms ∧ r.Covers q timer alarm ∧
      timer.deadline ≤ deadline ∧
      ∀ (o : Outlet ω) now w, ∃ r' records, SameDemands r r' ∧ r.Replies q records ∧
        r.fire o now alarm w = (r'.sendRecords o records w).2) ∧
    ∀ now, (∀ e ∈ r.alarms, e.1.isDue now = false) → now < deadline := by
  intro r deadline
  obtain ⟨timer, alarm, hc, hle⟩ := run.covered hdelays hin hquery hopen
  refine ⟨⟨timer, alarm, hc.mem_alarms, hc, hle, fun o now w => hc.fire o now w⟩,
    fun now hsettled => ?_⟩
  have hlate : ¬ timer.deadline ≤ now := by
    simpa [Timer.isDue] using hsettled _ hc.mem_alarms
  omega

/-- A query for one source of a group, one for another source, and one for all groups. -/
def overlapping : Run Unit :=
  { repeated with
    act := fun n =>
      match n with
      | 0 => (0, .join (.v4 #v[232, 1, 3, 1]) none)
      | 1 => (10, .query 900 (.ofGroup (.v4 #v[232, 1, 3, 1]) [.v4 #v[192, 0, 2, 3]] 1000))
      | 2 => (20, .query 400 (.ofGroup (.v4 #v[232, 1, 3, 1]) [.v4 #v[192, 0, 2, 4]] 1000))
      | _ => (30, .query 700 (.general .ipv4 1000)) }

/-- The first of them waits for a timer that runs out in time, now that of its group. -/
theorem overlapping_covered :
    ∃ timer alarm, (timer, alarm) ∈ (overlapping.state 4).1.alarms ∧
      (overlapping.state 4).1.Covers
        (.ofGroup (.v4 #v[232, 1, 3, 1]) [.v4 #v[192, 0, 2, 3]] 1000) timer alarm ∧
      timer.deadline ≤ 910 := by
  have hopen : ∀ k, 1 < k → k < 4 → ¬ overlapping.Answers
      (.ofGroup (.v4 #v[232, 1, 3, 1]) [.v4 #v[192, 0, 2, 3]] 1000) k := by
    rintro k hk hkn ⟨timer, alarm, hact, -⟩
    obtain rfl | rfl : k = 2 ∨ k = 3 := by omega
    · cases hact
    · cases hact
  obtain ⟨⟨timer, alarm, hm, hc, hle, -⟩, -⟩ :=
    overlapping.query_covered rfl (by decide : 1 < 4) rfl hopen
  exact ⟨timer, alarm, hm, hc, hle⟩

end Run

end Reporter

end MulticastTunnel.Membership
