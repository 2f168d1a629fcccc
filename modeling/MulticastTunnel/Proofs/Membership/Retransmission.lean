import MulticastTunnel.Proofs.Membership.Pending

/-!
# Retransmission

A change that comes up under a robustness of `r` is reported again by `r - 1` alarms, each
of them one report interval after the one before, and then forgotten. What changes meanwhile
joins it, and neither the count nor the alarm takes notice. An alarm whose report does not
fit a datagram counts like the others, although nothing is sent.
-/

namespace MulticastTunnel.Membership

open Ordered

variable {ω : Type}

namespace Reporter.Run

variable (run : Run ω) {group : Address} {i m n : Nat} {p : PendingChange}

/-! ## Runs -/

/-- The change of a group that is still to be reported before the operation with this number. -/
def pending (group : Address) (n : Nat) : Option PendingChange :=
  (run.state n).1.changes.get? group

/-- The filter of a group before the operation with this number. -/
def filter (group : Address) (n : Nat) : Option Filter := (run.state n).1.filter? group

/-- The log of the reports before the operation with this number. -/
def log (n : Nat) : Log := (run.state n).2.2

/-- What changed of a group from the operation `i` on, each change taken up by the ones
before it. -/
def told (group : Address) (i : Nat) : Nat → Option StateChange
  | 0 => none
  | n + 1 =>
    if n < i then none
    else
      match told group i n,
        StateChange.between? (run.filter group n) (run.filter group (n + 1)) with
      | c, none => c
      | none, some next => some next
      | some c, some next => some (c.merge next (run.filter group (n + 1)))

/-- The alarms to report the change of a group again, from the operation `i` on. -/
def alarms (group : Address) (i n : Nat) : List Nat :=
  (List.range n).filter fun m => i ≤ m && (run.act m).2.repeats group

/-- The alarms that handed over a report. -/
def retransmissions (group : Address) (i n : Nat) : List Nat :=
  (run.alarms group i n).filter fun m => (run.log m).length < (run.log (m + 1)).length

/-- The operation `i` brought up a change of the group that is pending ever since. -/
structure Since (group : Address) (i n : Nat) : Prop where
  fresh : run.pending group i = none
  later : i < n
  pending : ∀ m, i < m → m ≤ n → run.pending group m ≠ none

/-- How a change stands that came up with the operation `i`. -/
structure Stands (group : Address) (i n : Nat) (p : PendingChange) : Prop where
  change : run.told group i n = some p.change
  left : 0 < p.retransmissions
  count : p.retransmissions + (run.alarms group i n).length = (run.state i).1.again
  deadline : p.timer.deadline =
    ((run.alarms group i n).map fun m => (run.act m).1).getLastD (run.act i).1 +
      run.settings.reportInterval

variable {run}

theorem Since.le (h : run.Since group i n) (him : i < m) (hmn : m ≤ n) : run.Since group i m :=
  ⟨h.fresh, him, fun k hk hkm => h.pending k hk (Nat.le_trans hkm hmn)⟩

/-- What holds when the change came up, and is kept by every operation since, holds. -/
theorem Since.induction {P : Nat → Prop} (h : run.Since group i n) (hfirst : P (i + 1))
    (hnext : ∀ m, run.Since group i m → m < n → P m → P (m + 1)) : P n := by
  have hall : ∀ m, i < m → m ≤ n → P m := by
    intro m him
    induction him with
    | refl => exact fun _ => hfirst
    | @step m him ih => exact fun hmn => hnext m (h.le him (by omega)) hmn (ih (by omega))
  exact hall n h.later (Nat.le_refl n)

theorem mem_alarms : m ∈ run.alarms group i n ↔
    i ≤ m ∧ m < n ∧ (run.act m).2.repeats group = true := by
  simp only [alarms, List.mem_filter, List.mem_range, Bool.and_eq_true, decide_eq_true_eq]
  tauto

theorem alarms_succ (run : Run ω) (group : Address) (hin : i ≤ n) :
    run.alarms group i (n + 1) =
      run.alarms group i n ++ if (run.act n).2.repeats group then [n] else [] := by
  simp only [alarms, List.range_succ, List.filter_append, List.filter_singleton, hin, decide_true,
    Bool.true_and, Bool.cond_eq_ite]

theorem alarms_self (group : Address) (i : Nat) : run.alarms group i i = [] := by
  rw [List.eq_nil_iff_forall_not_mem]
  intro m hm
  obtain ⟨hle, hlt, -⟩ := mem_alarms.mp hm
  omega

theorem told_self (group : Address) (i : Nat) : run.told group i i = none := by
  cases i with
  | zero => rfl
  | succ i => rw [told, if_pos (Nat.lt_succ_self i)]

/-- What was told so far is never empty. -/
theorem records_told_ne_nil {c : StateChange} (h : run.told group i n = some c)
    (other : Address) : c.records other ≠ [] := by
  induction n generalizing c with
  | zero => cases h
  | succ n ih =>
    rw [told] at h
    split at h
    · cases h
    split at h
    · exact ih h
    · next next _ hnext =>
      cases h
      exact StateChange.records_ne_nil hnext other
    · next c next _ hnext =>
      cases h
      exact StateChange.records_merge_ne_nil c hnext other

/-! ## Steps -/

theorem carries_step (run : Run ω) (group : Address) (h : (run.act n).2.repeats group = false) :
    TakesUp (run.state n).1.again ((run.act n).1 + run.settings.reportInterval)
      (run.filter group n) (run.filter group (n + 1)) (run.pending group n)
      (run.pending group (n + 1)) := by
  have hstep := carries_perform h (run.outlet n).logged (run.act n).1 (run.state n).1
    (run.state n).2
  rw [Carries, (run.setup_eq n).2.2] at hstep
  exact hstep

/-- An alarm with nothing to report does nothing. -/
theorem alarm_of_none (h : (run.act n).2.repeats group = true)
    (hnone : run.pending group n = none) : run.state (n + 1) = run.state n := by
  rw [state, Act.eq_of_repeats h]
  show (run.state n).1.retransmit (run.outlet n).logged (run.act n).1 group (run.state n).2 = _
  rcases retransmit_eq (run.outlet n).logged (run.act n).1 group (run.state n).1 (run.state n).2
    with ⟨-, heq⟩ | ⟨p, q, v, hp, -⟩
  · exact heq
  · cases hnone.symm.trans hp

/-- An alarm counts the change and lets it be, and reports it if it fits. -/
theorem alarm_of_some (h : (run.act n).2.repeats group = true)
    (hp : run.pending group n = some p) :
    run.filter group (n + 1) = run.filter group n ∧
    Repeats ((run.act n).1 + run.settings.reportInterval) p (run.pending group (n + 1)) ∧
    ((∀ w, ((run.outlet n).localAddress w).family = run.family) →
      p.change.records group ≠ [] →
      let report : Report := ⟨run.family, p.change.records group⟩
      (report.Fits ∧ ∃ packet answer, Report.ofPacket packet = .ok report ∧
        run.log (n + 1) = (packet, answer) :: run.log n) ∨
      (¬ report.Fits ∧ run.log (n + 1) = run.log n)) := by
  obtain ⟨-, hfamily, hsettings⟩ := run.setup_eq n
  obtain ⟨hg, hc⟩ := (run.kindred n).changes group p hp
  have hact := Act.eq_of_repeats h
  rcases retransmit_eq (run.outlet n).logged (run.act n).1 group (run.state n).1 (run.state n).2
    with ⟨hnone, -⟩ | ⟨p', q, v, hp', hrepeats, hidle, heq⟩
  · cases hnone.symm.trans hp
  cases hp.symm.trans hp'
  set r' : Reporter := { (run.state n).1 with
    changes := (run.state n).1.changes.set group q }
  have hstate : run.state (n + 1) =
      (r'.sendRecords (run.outlet n).logged (p.change.records group) v).2 := by
    rw [state, hact]
    exact heq
  obtain ⟨k, hk, -⟩ := sendRecords_spec (run.outlet n).logged (p.change.records group) r' v
  refine ⟨?_, ?_, fun hlocal hne => ?_⟩
  · rw [filter, hstate, hk]
    rfl
  · rw [pending, hstate, hk]
    show Repeats _ p (((run.state n).1.changes.set group q).get? group)
    rw [OrderedMap.get?_set, if_pos rfl, ← hsettings]
    exact hrepeats
  · intro report
    have hrecords : ∀ record ∈ p.change.records group, record.OfFamily r'.family :=
      fun record hm => hc.records hg record hm
    have hlog : v.2 = run.log n := hidle.log
    rw [log, hstate]
    rcases sendRecords_cases (o := (run.outlet n).logged) (w := v) hrecords
      ((hlocal v.1).trans hfamily.symm) with ⟨hnil, -⟩ | ⟨hlarge, hquiet⟩ |
        ⟨-, hfits, packet, -, hread, hsent, -⟩
    · exact absurd hnil hne
    · rw [hquiet]
      exact .inr ⟨by rwa [hfamily] at hlarge, hlog⟩
    · refine .inl ⟨by rwa [hfamily] at hfits, packet, ((run.outlet n).send packet v.1).1, ?_, ?_⟩
      · rwa [hfamily] at hread
      · rw [hsent, ← hlog]
        rfl

/-- A change comes up with the first difference to tell, unless it is told only once. -/
theorem pending_succ_iff (hnone : run.pending group n = none) :
    run.pending group (n + 1) ≠ none ↔ 2 ≤ (run.state n).1.robustness.toNat ∧
      StateChange.between? (run.filter group n) (run.filter group (n + 1)) ≠ none := by
  cases hact : (run.act n).2.repeats group with
  | true =>
    have hsame := alarm_of_none hact hnone
    simp only [pending, filter, hsame, StateChange.between?_self] at hnone ⊢
    simp [hnone]
  | false =>
    have hstep := carries_step run group hact
    rw [hnone] at hstep
    generalize run.pending group (n + 1) = q at hstep ⊢
    cases hstep with
    | same h => simp [h]
    | once h hagain =>
      have : ¬ 2 ≤ (run.state n).1.robustness.toNat := by
        rw [again] at hagain
        omega
      simp [this]
    | raised h hagain _ =>
      have : 2 ≤ (run.state n).1.robustness.toNat := by
        rw [again] at hagain
        omega
      simp [h, this]

/-- What is pending stays so with everything but an alarm. -/
theorem pending_succ (hact : (run.act n).2.repeats group = false)
    (hp : run.pending group n ≠ none) : run.pending group (n + 1) ≠ none := by
  have hstep := carries_step run group hact
  generalize run.pending group n = p at hstep hp
  generalize run.pending group (n + 1) = q at hstep ⊢
  cases hstep with
  | same => exact hp
  | once => exact absurd rfl hp
  | raised => exact absurd rfl hp
  | merged => simp

/-! ## While a change is pending -/

theorem told_succ (run : Run ω) (group : Address) (hin : i ≤ n) : run.told group i (n + 1) =
    match run.told group i n,
      StateChange.between? (run.filter group n) (run.filter group (n + 1)) with
    | c, none => c
    | none, some next => some next
    | some c, some next => some (c.merge next (run.filter group (n + 1))) := by
  rw [told, if_neg (Nat.not_lt.mpr hin)]

/-- No alarm brings up a change. -/
theorem Since.repeats_eq_false (h : run.Since group i n) :
    (run.act i).2.repeats group = false := by
  rw [Bool.eq_false_iff]
  intro hact
  refine h.pending (i + 1) (Nat.lt_succ_self i) h.later ?_
  rw [Run.pending, alarm_of_none hact h.fresh]
  exact h.fresh

theorem Since.alarms_first (h : run.Since group i n) : run.alarms group i (i + 1) = [] := by
  rw [alarms_succ run group (Nat.le_refl i), alarms_self, h.repeats_eq_false]
  rfl

theorem stands_first (h : run.Since group i (i + 1)) :
    ∃ p, run.pending group (i + 1) = some p ∧ run.Stands group i (i + 1) p := by
  have hstep := carries_step run group h.repeats_eq_false
  have hp := h.pending (i + 1) (Nat.lt_succ_self i) (Nat.le_refl _)
  rw [h.fresh] at hstep
  generalize hq : run.pending group (i + 1) = q at hstep hp
  cases hstep with
  | same => exact absurd rfl hp
  | once => exact absurd rfl hp
  | @raised c timer hc hagain hdeadline =>
    refine ⟨_, rfl, ?_, hagain, ?_, ?_⟩
    · rw [told_succ run group (Nat.le_refl i), told_self, hc]
    · rw [h.alarms_first]
      rfl
    · rw [h.alarms_first]
      exact hdeadline

/-- An alarm takes one off the count and sets the next deadline; all else leaves both alone. -/
theorem Stands.succ (hs : run.Stands group i n p) (hin : i ≤ n)
    (hp : run.pending group n = some p) (hnext : run.pending group (n + 1) ≠ none) :
    ∃ q, run.pending group (n + 1) = some q ∧ run.Stands group i (n + 1) q := by
  have htold := told_succ run group hin
  have halarms := alarms_succ run group hin
  rw [hs.change] at htold
  cases hact : (run.act n).2.repeats group with
  | true =>
    -- The filter stays, so there is nothing to merge.
    obtain ⟨hfilter, hrepeats, -⟩ := alarm_of_some hact hp
    rw [hfilter, StateChange.between?_self] at htold
    rw [hact, if_pos rfl] at halarms
    generalize run.pending group (n + 1) = q at hrepeats hnext
    cases hrepeats with
    | last => exact absurd rfl hnext
    | @again timer hmore hdeadline =>
      have hcount := hs.count
      refine ⟨_, rfl, htold, ?_, ?_, ?_⟩
      · show 0 < p.retransmissions - 1
        omega
      · rw [halarms, List.length_append]
        show p.retransmissions - 1 + (_ + 1) = _
        omega
      · rw [halarms, List.map_append, List.map_singleton, List.getLastD_concat]
        exact hdeadline
  | false =>
    have hstep := carries_step run group hact
    rw [hact, if_neg Bool.false_ne_true, List.append_nil] at halarms
    rw [hp] at hstep
    generalize run.pending group (n + 1) = q at hstep
    cases hstep with
    | same hc =>
      rw [hc] at htold
      refine ⟨p, rfl, htold, hs.left, ?_, ?_⟩
      · rw [halarms, hs.count]
      · rw [halarms, hs.deadline]
    | @merged c _ hc =>
      rw [hc] at htold
      refine ⟨_, rfl, htold, hs.left, ?_, ?_⟩
      · rw [halarms]
        exact hs.count
      · rw [halarms]
        exact hs.deadline

/-- A change that is pending has been counted by every alarm since it came up. -/
theorem stands (h : run.Since group i n) :
    ∃ p, run.pending group n = some p ∧ run.Stands group i n p := by
  refine h.induction (P := fun m => ∃ p, run.pending group m = some p ∧ run.Stands group i m p)
    (stands_first (h.le (Nat.lt_succ_self i) h.later)) ?_
  rintro m hm hmn ⟨p, hp, hs⟩
  exact hs.succ (Nat.le_of_lt hm.later) hp (h.pending _ (Nat.lt_succ_of_lt hm.later) hmn)

/-- It is forgotten with the last of the alarms that it was given. -/
theorem pending_succ_eq_none_iff (h : run.Since group i n) :
    (run.alarms group i (n + 1)).length ≤ (run.state i).1.again ∧
      (run.pending group (n + 1) = none ↔
        (run.alarms group i (n + 1)).length = (run.state i).1.again) := by
  obtain ⟨p, hp, hs⟩ := stands h
  have hleft := hs.left
  have hcount := hs.count
  rw [alarms_succ run group (Nat.le_of_lt h.later), List.length_append]
  cases hact : (run.act n).2.repeats group with
  | true =>
    obtain ⟨-, hrepeats, -⟩ := alarm_of_some hact hp
    generalize run.pending group (n + 1) = q at hrepeats
    rw [if_pos rfl, List.length_singleton]
    cases hrepeats with
    | last hlast => exact ⟨by omega, iff_of_true rfl (by omega)⟩
    | again hmore _ => exact ⟨by omega, iff_of_false (by simp) (by omega)⟩
  | false =>
    have hkept := pending_succ hact (h.pending n h.later (Nat.le_refl n))
    rw [if_neg Bool.false_ne_true, List.length_nil]
    exact ⟨by omega, iff_of_false hkept (by omega)⟩

/-! ## What the alarms report -/

/-- The alarm hands over one report, of the change as it was told so far, if it fits a
datagram, and nothing else. -/
def Retells (run : Run ω) (group : Address) (i m : Nat) : Prop :=
  ∃ c, run.told group i m = some c ∧
    let report : Report := ⟨run.family, c.records group⟩
    (report.Fits ∧ ∃ packet answer, Report.ofPacket packet = .ok report ∧
      run.log (m + 1) = (packet, answer) :: run.log m) ∨
    (¬ report.Fits ∧ run.log (m + 1) = run.log m)

/-- There is room for the change as it was told so far. -/
def HasRoom (run : Run ω) (group : Address) (i m : Nat) : Prop :=
  ∀ c, run.told group i m = some c → (⟨run.family, c.records group⟩ : Report).Fits

/-- The operation that brought up the change is no alarm, so it was told of before each one. -/
theorem retells (hlocal : ∀ n w, ((run.outlet n).localAddress w).family = run.family)
    (h : run.Since group i n) : ∀ m ∈ run.alarms group i (n + 1), run.Retells group i m := by
  intro m hm
  obtain ⟨him, hmn, hact⟩ := mem_alarms.mp hm
  have hne : i ≠ m := by
    rintro rfl
    cases h.repeats_eq_false.symm.trans hact
  obtain ⟨p, hp, hs⟩ := stands (h.le (m := m) (by omega) (by omega))
  obtain ⟨-, -, hreport⟩ := alarm_of_some hact hp
  exact ⟨p.change, hs.change, hreport (hlocal m) (records_told_ne_nil hs.change group)⟩

theorem Retells.log_lt_iff (h : run.Retells group i m) :
    (run.log m).length < (run.log (m + 1)).length ↔ run.HasRoom group i m := by
  obtain ⟨c, hc, ⟨hfits, packet, answer, -, hlog⟩ | ⟨hlarge, hlog⟩⟩ := h
  · rw [hlog]
    refine iff_of_true (Nat.lt_succ_self _) fun c' hc' => ?_
    cases hc.symm.trans hc'
    exact hfits
  · rw [hlog]
    exact iff_of_false (Nat.lt_irrefl _) fun hroom => hlarge (hroom c hc)

theorem length_retransmissions_eq_iff
    (h : ∀ m ∈ run.alarms group i n, run.Retells group i m) :
    (run.retransmissions group i n).length = (run.alarms group i n).length ↔
      ∀ m ∈ run.alarms group i n, run.HasRoom group i m := by
  rw [retransmissions, List.length_filter_eq_length_iff]
  refine forall₂_congr fun m hm => ?_
  rw [decide_eq_true_eq]
  exact (h m hm).log_lt_iff

/-! ## When they run out -/

/-- The alarms of the group run out in time: with the timer of its change, which nothing is
done after. -/
structure Punctual (run : Run ω) (group : Address) : Prop where
  alarm : ∀ n p, (run.act n).2.repeats group = true → run.pending group n = some p →
    (run.act n).1 = p.timer.deadline
  prompt : ∀ n p, run.pending group n = some p → (run.act n).1 ≤ p.timer.deadline

/-- The alarms run out one interval after the other, the first one an interval after the
change came up. -/
def Spaced (run : Run ω) (group : Address) (i n : Nat) : Prop :=
  ((run.alarms group i n).map fun m => (run.act m).1) =
    (List.range (run.alarms group i n).length).map fun k =>
      (run.act i).1 + (k + 1) * run.settings.reportInterval

theorem Stands.deadline_of_spaced (hs : run.Stands group i n p) (h : run.Spaced group i n) :
    p.timer.deadline = (run.act i).1 +
      ((run.alarms group i n).length + 1) * run.settings.reportInterval := by
  rw [hs.deadline, h]
  cases (run.alarms group i n).length with
  | zero =>
    rw [Nat.zero_add, Nat.one_mul]
    rfl
  | succ k =>
    rw [List.range_succ, List.map_append, List.map_singleton, List.getLastD_concat,
      Nat.add_assoc, ← Nat.succ_mul]

theorem spaced_succ (hpunctual : run.Punctual group) (hin : i ≤ n)
    (hp : run.pending group n = some p) (hs : run.Stands group i n p)
    (h : run.Spaced group i n) : run.Spaced group i (n + 1) := by
  have halarms := alarms_succ run group hin
  cases hact : (run.act n).2.repeats group with
  | true =>
    have htime := hpunctual.alarm n p hact hp
    rw [hs.deadline_of_spaced h] at htime
    rw [hact, if_pos rfl] at halarms
    rw [Spaced, halarms, List.map_append, h, List.length_append, List.length_singleton,
      List.range_succ, List.map_append, List.map_singleton, List.map_singleton, htime]
  | false =>
    rw [hact, if_neg Bool.false_ne_true, List.append_nil] at halarms
    rw [Spaced, halarms]
    exact h

theorem spaced (hpunctual : run.Punctual group) (h : run.Since group i n) :
    run.Spaced group i n := by
  refine h.induction (P := run.Spaced group i) ?_ fun m hm _ hbefore => ?_
  · rw [Spaced, h.alarms_first]
    rfl
  · obtain ⟨p, hp, hs⟩ := stands hm
    exact spaced_succ hpunctual (Nat.le_of_lt hm.later) hp hs hbefore

/-- Nothing is pending once all alarms should have run out. -/
theorem act_le_of_punctual (hpunctual : run.Punctual group) (h : run.Since group i n) :
    (run.act n).1 ≤
      (run.act i).1 + (run.state i).1.again * run.settings.reportInterval := by
  obtain ⟨p, hp, hs⟩ := stands h
  have hprompt := hpunctual.prompt n p hp
  rw [hs.deadline_of_spaced (spaced hpunctual h)] at hprompt
  have hleft := hs.left
  have hcount := hs.count
  have hle : (run.alarms group i n).length + 1 ≤ (run.state i).1.again := by omega
  exact Nat.le_trans hprompt (Nat.add_le_add_left (Nat.mul_le_mul_right _ hle) _)

/-- **A change is reported again as often as the robustness demands, if it fits**: a change
that comes up under a robustness of `r` gets `r - 1` alarms and is forgotten with the last of
them, whatever is joined, left, queried or answered meanwhile. With every alarm one report of
the change as it was told so far is handed over, unless it does not fit a datagram: then the
alarm counts, and nothing is sent. Alarms that are punctual are one interval apart. Nothing
is pending under a robustness of one, and an alarm with nothing to report does nothing. -/
theorem retransmitted_iff_fits (run : Run ω) (group : Address) :
    (∀ n, run.pending group n = none →
      (run.pending group (n + 1) ≠ none ↔ 2 ≤ (run.state n).1.robustness.toNat ∧
        StateChange.between? (run.filter group n) (run.filter group (n + 1)) ≠ none) ∧
      ((run.act n).2.repeats group = true → run.state (n + 1) = run.state n)) ∧
    ∀ i n, run.Since group i n →
      let again := (run.state i).1.robustness.toNat - 1
      let alarms := run.alarms group i (n + 1)
      (∃ p, run.pending group n = some p ∧ run.Stands group i n p) ∧
      (alarms.length ≤ again ∧
        (run.pending group (n + 1) = none ↔ alarms.length = again)) ∧
      ((∀ n w, ((run.outlet n).localAddress w).family = run.family) →
        (∀ m ∈ alarms, run.Retells group i m) ∧
        ((run.retransmissions group i (n + 1)).length = alarms.length ↔
          ∀ m ∈ alarms, run.HasRoom group i m)) ∧
      (run.Punctual group → run.Spaced group i (n + 1) ∧
        (run.act n).1 ≤ (run.act i).1 + again * run.settings.reportInterval) := by
  refine ⟨fun n hnone => ⟨pending_succ_iff hnone, fun hact => alarm_of_none hact hnone⟩, ?_⟩
  intro i n h again alarms
  obtain ⟨p, hp, hs⟩ := stands h
  refine ⟨⟨p, hp, hs⟩, pending_succ_eq_none_iff h, fun hlocal => ?_, fun hpunctual => ⟨?_, ?_⟩⟩
  · have hretells := retells hlocal h
    exact ⟨hretells, length_retransmissions_eq_iff hretells⟩
  · exact spaced_succ hpunctual (Nat.le_of_lt h.later) hp hs (spaced hpunctual h)
  · exact act_le_of_punctual hpunctual h

/-! ## With and without room -/

/-- What is forgotten stays forgotten while there are only alarms. -/
theorem pending_eq_none_of_alarms (hnone : run.pending group m = none)
    (halarms : ∀ k, m ≤ k → (run.act k).2.repeats group = true) (hmn : m ≤ n) :
    run.pending group n = none := by
  induction hmn with
  | refl => exact hnone
  | @step n hmn ih =>
    rw [pending, alarm_of_none (halarms n hmn) ih]
    exact ih

theorem since_of_quiet (hnone : run.pending group i = none)
    (hraised : run.pending group (i + 1) ≠ none) (hin : i < n)
    (hquiet : ∀ m, i < m → m < n → (run.act m).2.repeats group = false) :
    run.Since group i n := by
  refine ⟨hnone, hin, fun m him hmn => ?_⟩
  induction him with
  | refl => exact hraised
  | @step m him ih =>
    exact pending_succ (hquiet m him (by omega)) (ih (by omega))

/-- The group 232.1.1.1. -/
def insistedGroup : Address := .read .ipv4 [232, 1, 1, 1]

/-- A group is joined under a robustness of three, a source of it is left before the first
alarm, and before the second one a query tells of a robustness of two. -/
def insisted : Run Unit :=
  { repeated with
    settings := { robustness := 3 }
    act := fun n =>
      match n with
      | 0 => (0, .join insistedGroup none)
      | 1 => (500, .leave insistedGroup (some (.read .ipv4 [198, 51, 100, 1])))
      | 2 => (1000, .alarm (.retransmission insistedGroup))
      | 3 => (1500, .query 0 (.general .ipv4 1000))
      | _ => (2000, .alarm (.retransmission insistedGroup)) }

theorem insisted_pending (n : Nat) : insisted.pending insistedGroup (n + 5) = none := by
  refine pending_eq_none_of_alarms (m := 5) (by decide +kernel) (fun k hk => ?_) (by omega)
  obtain ⟨k, rfl⟩ := Nat.exists_eq_add_of_le' hk
  rfl

theorem insisted_deadlines (n : Nat) :
    (insisted.pending insistedGroup n).map (·.timer.deadline) =
      match n with
      | 1 | 2 => some 1000
      | 3 | 4 => some 2000
      | _ => none := by
  match n with
  | 0 | 1 | 2 | 3 | 4 => decide +kernel
  | n + 5 =>
    rw [insisted_pending]
    rfl

theorem insisted_punctual : insisted.Punctual insistedGroup where
  alarm n p hact hp := by
    have hdeadline := insisted_deadlines n
    rw [hp, Option.map_some] at hdeadline
    match n with
    | 0 | 1 | 3 => cases hact
    | 2 | 4 => exact (Option.some.inj hdeadline).symm
    | n + 5 => cases hdeadline
  prompt n p hp := by
    have hdeadline := insisted_deadlines n
    rw [hp, Option.map_some] at hdeadline
    match n with
    | 0 => cases hdeadline
    | 1 | 2 | 3 | 4 =>
      rw [Option.some.inj hdeadline]
      decide
    | n + 5 => cases hdeadline

/-- The two reports of the group are sent in time. -/
theorem insisted_retransmitted :
    insisted.Since insistedGroup 0 4 ∧ insisted.pending insistedGroup 5 = none ∧
      (insisted.retransmissions insistedGroup 0 5).length = 2 ∧
      insisted.Spaced insistedGroup 0 5 := by
  have hsince : insisted.Since insistedGroup 0 4 := by
    refine ⟨rfl, by decide, fun m hm hle hnone => ?_⟩
    have hdeadline := insisted_deadlines m
    rw [hnone] at hdeadline
    match m with
    | 0 => cases hm
    | 1 | 2 | 3 | 4 => cases hdeadline
    | m + 5 => omega
  have hlocal : ∀ n w, ((insisted.outlet n).localAddress w).family = insisted.family :=
    fun _ _ => rfl
  obtain ⟨-, ⟨-, hlast⟩, hroom, hspaced⟩ :=
    (retransmitted_iff_fits insisted insistedGroup).2 0 4 hsince
  have hnone := insisted_pending 0
  refine ⟨hsince, hnone, ?_, (hspaced insisted_punctual).1⟩
  refine (((hroom hlocal).2.mpr fun m hm c hc => ?_).trans (hlast.mp hnone)).trans rfl
  have halarms : insisted.alarms insistedGroup 0 5 = [2, 4] := by decide +kernel
  rw [halarms] at hm
  have htold : ∀ m ∈ [2, 4], insisted.told insistedGroup 0 m =
      some (.mode .excluding (.ofList [.read .ipv4 [198, 51, 100, 1]])) := by decide +kernel
  cases (htold m hm).symm.trans hc
  decide +kernel

/-- A group is joined for `n + 1` sources, the last of them is left at once, and then the
alarms of the change run out. -/
def thinned (n : Nat) : Run Unit :=
  { throng with
    act := fun k =>
      if k ≤ n then throng.act k
      else if k = n + 1 then (0, .leave (crowdGroup 0) (some (throngSource n)))
      else (1000, .alarm (.retransmission (crowdGroup 0))) }

variable {k : Nat}

theorem thinned_willing (n k : Nat) : Willing ((thinned n).outlet k) .ipv6 := crowd_willing k

theorem thinned_act_of_le (h : k ≤ n) : (thinned n).act k = throng.act k := if_pos h

theorem thinned_act_leave (n : Nat) :
    (thinned n).act (n + 1) = (0, .leave (crowdGroup 0) (some (throngSource n))) := by
  simp only [thinned, if_true]
  rw [if_neg (by omega)]

theorem thinned_act_alarm (h : n + 1 < k) :
    (thinned n).act k = (1000, .alarm (.retransmission (crowdGroup 0))) := by
  simp only [thinned]
  rw [if_neg (by omega), if_neg (by omega)]

/-- Up to the leave, all is as if there were more to come. -/
theorem thinned_state (h : k ≤ n + 1) : (thinned n).state k = throng.state k := by
  induction k with
  | zero => rfl
  | succ k ih =>
    rw [state, state, ih (by omega), thinned_act_of_le (by omega)]
    rfl

theorem thinned_quiet (h : k < n + 2) : ((thinned n).act k).2.repeats (crowdGroup 0) = false := by
  rcases Nat.lt_succ_iff_lt_or_eq.mp h with h | rfl
  · rw [thinned_act_of_le (by omega)]
    rfl
  · rw [thinned_act_leave]
    rfl

theorem thinned_repeats (h : n + 1 < k) :
    ((thinned n).act k).2.repeats (crowdGroup 0) = true := by
  rw [thinned_act_alarm h]
  simp [Act.repeats]

theorem thinned_since (n : Nat) : (thinned n).Since (crowdGroup 0) 0 (n + 2) := by
  refine since_of_quiet rfl ?_ (by omega) fun m _ hm => thinned_quiet hm
  obtain ⟨p, hp, -⟩ := (thronged 0 (by omega)).pending
  rw [pending, thinned_state (by omega), hp]
  exact Option.some_ne_none p

theorem thinned_alarms (n : Nat) : (thinned n).alarms (crowdGroup 0) 0 (n + 2) = [] := by
  rw [List.eq_nil_iff_forall_not_mem]
  intro m hm
  obtain ⟨-, hlt, hact⟩ := mem_alarms.mp hm
  cases (thinned_quiet hlt).symm.trans hact

theorem thinned_alarms_succ (n : Nat) :
    (thinned n).alarms (crowdGroup 0) 0 (n + 3) = [n + 2] := by
  rw [alarms_succ _ _ (Nat.zero_le _), thinned_alarms, thinned_repeats (by omega)]
  rfl

/-- There is one alarm, after which the change is forgotten. -/
theorem thinned_pending (h : n + 2 < k) : (thinned n).pending (crowdGroup 0) k = none := by
  refine pending_eq_none_of_alarms (m := n + 3) ?_ (fun l hl => thinned_repeats (by omega)) h
  rw [(pending_succ_eq_none_iff (thinned_since n)).2, thinned_alarms_succ]
  rfl

theorem thinned_punctual (n : Nat) : (thinned n).Punctual (crowdGroup 0) := by
  have hdue : ∀ p, (thinned n).pending (crowdGroup 0) (n + 2) = some p →
      p.timer.deadline = 1000 := by
    intro p hp
    obtain ⟨q, hq, hs⟩ := stands (thinned_since n)
    cases hp.symm.trans hq
    rw [hs.deadline, thinned_alarms]
    rfl
  have htime : ((thinned n).act (n + 2)).1 = 1000 := by rw [thinned_act_alarm (by omega)]
  constructor
  · intro k p hact hp
    rcases Nat.lt_trichotomy k (n + 2) with h | rfl | h
    · cases (thinned_quiet h).symm.trans hact
    · rw [hdue p hp, htime]
    · cases (thinned_pending h).symm.trans hp
  · intro k p hp
    rcases Nat.lt_trichotomy k (n + 2) with h | rfl | h
    · have hzero : ((thinned n).act k).1 = 0 := by
        rcases Nat.lt_succ_iff_lt_or_eq.mp h with h | rfl
        · rw [thinned_act_of_le (by omega)]
          rfl
        · rw [thinned_act_leave]
      rw [hzero]
      exact Nat.zero_le _
    · exact Nat.le_of_eq (htime.trans (hdue p hp).symm)
    · cases (thinned_pending h).symm.trans hp

theorem throngSource_not_mem (h : n < 65536) : throngSource n ∉ throngSources n := by
  intro hm
  obtain ⟨k, hk, heq⟩ := mem_throngSources.mp hm
  exact Nat.ne_of_lt hk (throngSource_inj k n (by omega) h heq)

/-- The leave takes the last source back. -/
theorem thinned_filters (hpos : 0 < n) (hn : n < 65536) :
    (thinned n).filter (crowdGroup 0) (n + 1) =
        some ⟨crowdGroup 0, .including, (throngSources n).insert (throngSource n)⟩ ∧
      (thinned n).filter (crowdGroup 0) (n + 2) =
        some ⟨crowdGroup 0, .including, throngSources n⟩ := by
  have hnew := throngSource_not_mem hn
  have hdemand := (thronged n hn).demand
  rw [← thinned_state (Nat.le_refl (n + 1)), ← throngSources_succ] at hdemand
  have hinsert : ((throngSources n).insert (throngSource n)).isEmpty = false :=
    OrderedSet.isEmpty_eq_false_iff.mpr ⟨_, OrderedSet.mem_insert.mpr (.inl rfl)⟩
  have hrest : (throngSources n).isEmpty = false :=
    OrderedSet.isEmpty_eq_false_iff.mpr ⟨_, mem_throngSources.mpr ⟨0, hpos, rfl⟩⟩
  have hleave : ({ joined := (throngSources n).insert (throngSource n) } : Demand).leave
      (some (throngSource n)) = { joined := throngSources n } := by
    have herase : ((throngSources n).insert (throngSource n)).erase (throngSource n) =
        throngSources n := by
      apply OrderedSet.ext
      intro a
      have hne : a ∈ throngSources n → a ≠ throngSource n := fun ha he => hnew (he ▸ ha)
      simp only [OrderedSet.mem_erase, OrderedSet.mem_insert]
      tauto
    simp [Demand.leave, herase]
  constructor
  · simp [filter, filter?, hdemand, Demand.filter?, hinsert]
  · obtain ⟨hopen, hfamily, -⟩ := (thinned n).setup_eq (n + 1)
    have hvalid : ((thinned n).state (n + 1)).1.validate (crowdGroup 0)
        (some (throngSource n)) = .ok () := by
      simp only [validate, hfamily]
      rfl
    rw [filter, state, thinned_act_leave]
    show (((thinned n).state (n + 1)).1.leave _ 0 (crowdGroup 0) (some (throngSource n))
      _).2.1.filter? (crowdGroup 0) = _
    rcases leave_cases ((thinned n).outlet (n + 1)).logged 0 (crowdGroup 0)
      (some (throngSource n)) ((thinned n).state (n + 1)).1 ((thinned n).state (n + 1)).2 with
      ⟨-, hclosed | hnone | ⟨e, herr⟩⟩ | ⟨-, held, p, k, hheld, heq⟩
    · cases hopen.symm.trans hclosed
    · cases hdemand.symm.trans hnone
    · cases hvalid.symm.trans herr
    · cases hdemand.symm.trans hheld
      rw [heq, hleave]
      simp [filter?, OrderedMap.get?_set, Demand.filter?, hrest]

/-- What is still to be told are the sources that were joined and the one that was left. -/
theorem thinned_told (hpos : 0 < n) (hn : n < 65536) :
    (thinned n).told (crowdGroup 0) 0 (n + 2) =
      some (.sources (throngSources n) ((∅ : Sources).insert (throngSource n))) := by
  obtain ⟨p, hp, hchange⟩ := (thronged n hn).pending
  have hs : (thinned n).Stands (crowdGroup 0) 0 (n + 1) p := by
    obtain ⟨q, hq, hs⟩ := stands ((thinned_since n).le (by omega) (Nat.le_succ (n + 1)))
    rw [pending, thinned_state (Nat.le_refl (n + 1))] at hq
    cases hp.symm.trans hq
    exact hs
  obtain ⟨hbefore, hafter⟩ := thinned_filters hpos hn
  obtain ⟨change, hbetween, hmerge⟩ :=
    StateChange.exists_between?_erase (crowdGroup 0) (throngSource_not_mem hn)
  rw [told_succ _ _ (Nat.zero_le _), hs.change, hbefore, hafter, hbetween, hchange,
    ← throngSources_succ]
  exact congrArg some (hmerge _)

theorem throngSource_family {s : Address} (h : s ∈ throngSources n) : s.family = .ipv6 := by
  obtain ⟨k, -, rfl⟩ := mem_throngSources.mp h
  rfl

/-- From 4092 sources on there is no room for them and the one that was left. -/
theorem thinned_no_room (hlow : 4092 ≤ n) (hhigh : n < 65536) :
    ¬ (thinned n).HasRoom (crowdGroup 0) 0 (n + 2) := by
  intro hroom
  have hfits := hroom _ (thinned_told (by omega) hhigh)
  set left : Sources := (∅ : Sources).insert (throngSource n)
  have hallow : (throngSources n).isEmpty = false :=
    OrderedSet.isEmpty_eq_false_iff.mpr ⟨_, mem_throngSources.mpr ⟨0, by omega, rfl⟩⟩
  have hrecords : (StateChange.sources (throngSources n) left).records (crowdGroup 0) =
      [.ofSet .allowNewSources (crowdGroup 0) (throngSources n),
        .ofSet .blockOldSources (crowdGroup 0) left] := by
    simp only [StateChange.records, hallow]
    rfl
  rw [hrecords] at hfits
  have hjoined : (Report.recordOctets
      (.ofSet .allowNewSources (crowdGroup 0) (throngSources n))).length =
        4 + 16 + (throngSources n).toList.length * 16 :=
    length_recordOctets ⟨rfl, fun s hs => throngSource_family hs⟩
  have hleft : (Report.recordOctets (.ofSet .blockOldSources (crowdGroup 0) left)).length =
      4 + 16 + 1 * 16 := by
    refine length_recordOctets ⟨rfl, fun s hs => ?_⟩
    cases List.mem_singleton.mp hs
    rfl
  have hlength := le_length_throngSources (Nat.le_of_lt hhigh)
  have hbody := Report.length_body ⟨.ipv6,
    [.ofSet .allowNewSources (crowdGroup 0) (throngSources n),
      .ofSet .blockOldSources (crowdGroup 0) left]⟩
  have hsize : 8 + (⟨.ipv6, [.ofSet .allowNewSources (crowdGroup 0) (throngSources n),
      .ofSet .blockOldSources (crowdGroup 0) left]⟩ : Report).body.length ≤ 65535 := hfits
  simp only [List.flatMap_cons, List.flatMap_nil, List.length_append, List.length_nil, hjoined,
    hleft] at hbody
  omega

/-- The only alarm of a change finds no room for its report, although every outlet sends all
it is handed and the alarm is punctual. -/
theorem not_retransmitted_of_thinned :
    ¬ ∀ (run : Run Unit) (group : Address) (i n : Nat),
      (∀ k, Willing (run.outlet k) run.family) → run.Punctual group →
      run.Since group i n → run.pending group (n + 1) = none →
      (run.retransmissions group i (n + 1)).length =
        (run.state i).1.robustness.toNat - 1 := by
  intro h
  generalize hn : 4092 = n
  have hlength := h (thinned n) (crowdGroup 0) 0 (n + 2) (thinned_willing n)
    (thinned_punctual n) (thinned_since n) (thinned_pending (Nat.lt_succ_self _))
  have hretells := retells (fun k => (thinned_willing n k).localAddress) (thinned_since n)
  refine thinned_no_room (n := n) (by omega) (by omega)
    ((length_retransmissions_eq_iff hretells).mp ?_ (n + 2) ?_)
  · rw [hlength, thinned_alarms_succ]
    rfl
  · rw [thinned_alarms_succ]
    exact List.mem_singleton.mpr rfl

end Reporter.Run

end MulticastTunnel.Membership
