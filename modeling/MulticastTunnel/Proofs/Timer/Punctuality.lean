import MulticastTunnel.Proofs.Timer.Consistency
import MulticastTunnel.Timer.Timetable

/-!
# Punctuality

The tasks of a scheduler run once each, in time and in turn, unless they are
cancelled before. No number of new tasks keeps the worker from one that is due:
every step brings it nearer. What the worker's loop does when it settles is
a run of this kind, whatever the running tasks schedule and cancel.
-/

namespace MulticastTunnel.Scheduler

variable {τ : Type} {s : Scheduler τ} {n : Nat} {e g : Scheduled τ} {d : Diary τ}

/-! ## Progress -/

/-- A bound on the steps that the worker takes until it has come to all tasks. -/
def backlog (s : Scheduler τ) : Nat := s.queue.length + 2 * s.inbox.length

/-- When the task is due, the worker comes to it in `n` steps: in the queue all entries may run
before it, and one that is ahead of it in the inbox takes a step to be moved and one to be run. -/
def Within (n : Nat) (s : Scheduler τ) (e : Scheduled τ) : Prop :=
  e ∈ s.queue ∧ s.queue.length ≤ n ∨
    ∃ ahead others, s.inbox = ahead ++ e :: others ∧ s.queue.length + 2 * (ahead.length + 1) ≤ n

theorem not_within_zero : ¬ Within 0 s e := by
  rintro (⟨hm, hlen⟩ | ⟨ahead, others, -, hlen⟩)
  · exact List.ne_nil_of_mem hm (List.length_eq_zero_iff.mp (Nat.le_zero.mp hlen))
  · omega

theorem Consistent.within_backlog (h : Consistent d) (he : Awaits d.log e) :
    Within d.scheduler.backlog d.scheduler e := by
  rcases List.mem_append.mp (h.lined.waiting e he) with hq | hi
  · exact .inl ⟨hq, Nat.le_add_right _ _⟩
  · obtain ⟨ahead, others, heq⟩ := List.append_of_mem hi
    refine .inr ⟨ahead, others, heq, ?_⟩
    rw [backlog, heq, List.length_append, List.length_cons]
    omega

theorem length_without_lt (hg : g ∈ s.queue) : (s.without g).queue.length < s.queue.length :=
  List.length_filter_lt_length_iff_exists.mpr ⟨g, hg, by simp⟩

/-- Taking out another task brings the worker nearer. -/
theorem Within.without (h : Within (n + 1) s e) (hg : g ∈ s.queue)
    (hne : e.timer.serial ≠ g.timer.serial) : Within n (s.without g) e := by
  have hlt := length_without_lt hg
  rcases h with ⟨hm, hlen⟩ | ⟨ahead, others, hi, hlen⟩
  · exact .inl ⟨List.mem_filter.mpr ⟨hm, decide_eq_true hne⟩, by omega⟩
  · exact .inr ⟨ahead, others, hi, by omega⟩

/-- A step of the worker brings it nearer to a task that is ready, unless it is that task's. -/
theorem Within.work (hw : Within (n + 1) d.scheduler e) (h : Consistent d) (he : Ready d.log e)
    (hafter : Awaits d.work.log e) : Within n d.work.scheduler e := by
  have hserial : ∀ g, g ∈ d.scheduler.queue → e ≠ g → e.timer.serial ≠ g.timer.serial :=
    fun g hg hne heq =>
      hne (h.orderly.made_unique he.made (h.lined.listed g (List.mem_append_left _ hg)).1 heq)
  have hstep := stepped d.scheduler d.now
  rw [Diary.work] at hafter ⊢
  generalize d.scheduler.step d.now = what at hstep hafter
  cases hstep with
  | @start g next live =>
    refine hw.without next.mem (hserial g next.mem ?_)
    rintro rfl
    exact hafter.notStarted List.mem_cons_self
  | @drop g next dead =>
    refine hw.without next.mem (hserial g next.mem ?_)
    rintro rfl
    exact he.notCancelled ((h.mem_cancelled_iff he.made).mp dead)
  | @take g inbox early arrived =>
    rcases hw with ⟨hm, -⟩ | ⟨ahead, others, hi, hlen⟩
    · exact absurd he.due (Nat.not_le_of_lt (early e hm))
    · have hgrown : (d.scheduler.queue ++ [g]).length = d.scheduler.queue.length + 1 :=
        List.length_append
      rw [arrived] at hi
      cases ahead with
      | nil =>
        cases hi
        refine .inl ⟨List.mem_append_right _ (List.mem_singleton_self _), ?_⟩
        show (d.scheduler.queue ++ [e]).length ≤ n
        simp only [List.length_nil] at hlen
        omega
      | cons x ahead =>
        cases hi
        refine .inr ⟨ahead, others, rfl, ?_⟩
        show (d.scheduler.queue ++ [g]).length + 2 * (ahead.length + 1) ≤ n
        simp only [List.length_cons] at hlen
        omega
  | rest early empty => exact absurd he (h.not_ready early empty e)

/-- Whatever else is done does not lead away from it. -/
theorem Within.perform (hw : Within n d.scheduler e) (h : Consistent d) (he : Ready d.log e)
    {deed : Deed τ} (hd : deed.isWork = false) : Within n (d.perform deed).scheduler e := by
  cases deed with
  | schedule deadline task =>
    refine hw.imp_right ?_
    rintro ⟨ahead, others, hi, hlen⟩
    refine ⟨ahead, others ++ [⟨⟨deadline, d.scheduler.serials⟩, task⟩], ?_, hlen⟩
    show d.scheduler.inbox ++ [_] = _
    rw [hi, List.append_assoc]
    rfl
  | cancel timer =>
    rw [Diary.perform]
    split <;> exact hw
  | work => cases hd
  | advance span =>
    -- The worker is busy, so the clock does not go on.
    have hstep := stepped d.scheduler d.now
    rw [Diary.perform]
    generalize d.scheduler.step d.now = what at hstep
    cases hstep with
    | rest early empty => exact absurd he (h.not_ready early empty e)
    | _ => exact hw

/-- **Progress**: a task that is ready does not wait any more when the worker has taken as many
steps as there is backlog, whatever is done in between. -/
theorem Consistent.not_awaits_performAll (h : Consistent d) (he : Ready d.log e)
    (hw : Within n d.scheduler e) {deeds : List (Deed τ)}
    (hn : n ≤ deeds.countP Deed.isWork) : ¬ Awaits (d.performAll deeds).log e := by
  -- Each step of the worker takes one off the distance, and nothing adds to it.
  induction deeds generalizing d n with
  | nil =>
    rw [Nat.le_zero.mp hn] at hw
    exact absurd hw not_within_zero
  | cons deed deeds ih =>
    intro hlast
    -- It waits in the end, so it waits after the first deed.
    have hafter : Awaits (d.perform deed).log e := by
      obtain ⟨later, hlater⟩ := (d.perform deed).exists_log_performAll deeds
      obtain ⟨x, hx⟩ := d.exists_log_perform deed
      have hall : Awaits (later ++ (d.perform deed).log) e := hlater ▸ hlast
      exact hall.of_append (hx ▸ List.mem_append_right _ he.made)
    have hready : Ready (d.perform deed).log e :=
      ⟨hafter, Nat.le_trans he.due (d.now_le_perform deed)⟩
    cases hd : deed.isWork with
    | false =>
      rw [List.countP_cons_of_neg (by simp [hd])] at hn
      exact ih (h.perform deed) hready (hw.perform h he hd) hn hlast
    | true =>
      rw [List.countP_cons_of_pos hd] at hn
      cases deed with
      | work =>
        cases n with
        | zero => exact not_within_zero hw
        | succ n => exact ih h.work hready (hw.work h he hafter) (Nat.le_of_succ_le_succ hn) hlast
      | _ => cases hd

/-! ## Punctuality -/

/-- What the log tells of the tasks. -/
structure Punctual (d : Diary τ) : Prop where
  /-- Serial numbers tell the order of creation. -/
  numbered : ∀ {later e earlier}, d.log = later ++ .made e :: earlier →
    e.timer.serial = (handles earlier).length
  /-- No task starts twice. -/
  once : (d.log.filterMap Entry.started?).Nodup
  /-- A task that starts was made and not cancelled, its deadline is not ahead, and the worker has
  not rested at such a time since the task was made. -/
  starts : ∀ {later e earlier}, d.log = later ++ .started e :: earlier →
    Ready earlier e ∧ ∀ between before, earlier = between ++ .rested :: before →
      .made e ∈ before → clock before < e.timer.deadline
  /-- When the worker rests, each task whose deadline is not ahead has started or was cancelled. -/
  rests : ∀ {later earlier}, d.log = later ++ .rested :: earlier →
    ∀ e, .made e ∈ earlier → e.timer.deadline ≤ clock earlier →
      .started e ∈ earlier ∨ .cancelled e.timer ∈ earlier
  /-- A task that starts has its turn before all others that could. -/
  turn : ∀ {later e earlier}, d.log = later ++ .started e :: earlier →
    ∀ f, Ready earlier f → f ≠ e → Precedes earlier e f
  /-- While the clock stands still, tasks start in the order of their turns. -/
  order : ∀ {later f between e earlier},
    d.log = later ++ .started f :: (between ++ .started e :: earlier) →
      (∀ now, .advanced now ∉ between) → Precedes earlier e f
  /-- A timer is pending from its creation until its task starts or is cancelled. -/
  pending : ∀ e, .made e ∈ d.log → (d.scheduler.isPending e.timer = true ↔ Awaits d.log e)

theorem Consistent.punctual (h : Consistent d) : Punctual d where
  numbered heq := (heq ▸ h.orderly).justified
  once := h.orderly.started_nodup
  starts heq := by
    have horder := heq ▸ h.orderly
    refine ⟨horder.justified.1, fun between before hbefore hm => ?_⟩
    subst hbefore
    exact horder.not_due_at_rest hm
  rests heq e he hdue := by
    have hrest : ∀ f, ¬ Ready _ f := (heq ▸ h.orderly).justified
    exact (not_awaits_iff he).mp fun hawaits => hrest e ⟨hawaits, hdue⟩
  turn heq := (heq ▸ h.orderly).justified.2
  order heq := (heq ▸ h.orderly).in_turn
  pending _ he := h.isPending_iff he

/-- Two tasks wait when the clock goes on. The first of them schedules two others, whose deadlines
are past, and cancels the second. -/
def overdue : List (Deed String) :=
  [.schedule 5 "first", .schedule 6 "second", .work, .work, .advance 10, .schedule 9 "third",
    .schedule 7 "fourth", .cancel ⟨6, 1⟩]

example : (Diary.run (overdue ++ List.replicate 5 .work)).log.filterMap Entry.started? =
    [⟨7, 3⟩, ⟨9, 2⟩, ⟨5, 0⟩] := by
  decide

/-! ## The worker's loop -/

/-- A running task does nothing to the scheduler but schedule and cancel. -/
def Requesting {σ : Type} (run : Scheduled τ → Scheduler τ × σ → Scheduler τ × σ) : Prop :=
  ∀ e (d : Diary τ) owner, ∃ requests : List (Deed τ), (∀ r ∈ requests, r.isRequest = true) ∧
    (run e (d.scheduler, owner)).1 = (d.performAll requests).scheduler

theorem Deed.not_isAdvance {deed : Deed τ} (h : deed.isRequest = true) :
    deed.isAdvance = false := by
  cases deed with
  | advance span => cases h
  | _ => rfl

/-- Settling with so much fuel is what can be done while the clock stands still. -/
def Settles {σ : Type} (run : Scheduled τ → Scheduler τ × σ → Scheduler τ × σ) (fuel : Nat) :
    Prop :=
  ∀ (d : Diary τ) (owner : σ), ∃ deeds : List (Deed τ), (∀ deed ∈ deeds, deed.isAdvance = false) ∧
    (settle run d.now fuel (d.scheduler, owner)).1 = (d.performAll deeds).scheduler

section Settle

variable {σ : Type} {run : Scheduled τ → Scheduler τ × σ → Scheduler τ × σ} {fuel : Nat}

/-- The loop takes one step of the worker, lets the task that started ask for what it likes, and
settles. -/
theorem Settles.exists_settle_succ (h : Settles run fuel) (hrun : Requesting run) (d : Diary τ)
    (owner : σ) : ∃ deeds : List (Deed τ), (∀ deed ∈ deeds, deed.isAdvance = false) ∧
      (settle run d.now (fuel + 1) (d.scheduler, owner)).1 =
        (d.work.performAll deeds).scheduler := by
  rw [settle]
  split
  · next e scheduler hstep =>
    obtain ⟨requests, hrequests, heq⟩ := hrun e d.work owner
    have hquiet : ∀ r ∈ requests, r.isAdvance = false := fun r hr =>
      Deed.not_isAdvance (hrequests r hr)
    obtain ⟨deeds, hdeeds, hsettle⟩ :=
      h (d.work.performAll requests) (run e (d.work.scheduler, owner)).2
    rw [Diary.now_performAll _ hquiet, Diary.now_work, ← heq, Diary.work_of_run hstep] at hsettle
    refine ⟨requests ++ deeds, ?_, ?_⟩
    · exact fun deed hd => (List.mem_append.mp hd).elim (hquiet deed) (hdeeds deed)
    · rw [Diary.performAll_append, Diary.work_of_run hstep]
      exact hsettle
  · next scheduler hstep =>
    obtain ⟨deeds, hdeeds, hsettle⟩ := h d.work owner
    rw [Diary.now_work, Diary.work_of_moved hstep] at hsettle
    exact ⟨deeds, hdeeds, Diary.work_of_moved hstep ▸ hsettle⟩
  · next hstep => exact ⟨[], nofun, by rw [Diary.work_of_idle hstep]; rfl⟩

/-- All that happens while the worker settles is its own steps, and what running tasks ask for. -/
theorem Requesting.settles (hrun : Requesting run) (fuel : Nat) : Settles run fuel := by
  induction fuel with
  | zero => exact fun d owner => ⟨[], nofun, rfl⟩
  | succ fuel ih =>
    intro d owner
    obtain ⟨deeds, hdeeds, hsettle⟩ := ih.exists_settle_succ hrun d owner
    refine ⟨.work :: deeds, fun deed hd => ?_, hsettle⟩
    rcases List.mem_cons.mp hd with rfl | hd
    · rfl
    · exact hdeeds deed hd

end Settle

theorem requesting_run (now : Nat) : Requesting (Timetable.run now) := by
  intro e d fired
  cases hagain : e.task.again with
  | none =>
    refine ⟨[], nofun, ?_⟩
    simp only [Timetable.run, hagain]
    rfl
  | some delay =>
    refine ⟨[.schedule (now + delay) ⟨e.task.name ++ "+", none⟩], ?_, ?_⟩
    · exact fun r hr => List.mem_singleton.mp hr ▸ rfl
    · simp only [Timetable.run, hagain]
      rfl

/-- A timetable that was at rest, and settles when its clock went on, is as a diary tells in which
just that is done. -/
theorem exists_timetable_settle_eq {t : Timetable} {deeds : List (Deed NamedTask)}
    (hscheduler : t.scheduler = (Diary.run deeds).scheduler) (hnow : t.now = (Diary.run deeds).now)
    (hrest : t.scheduler.step t.now = .idle) (span fuel : Nat) :
    ∃ more : List (Deed NamedTask), (∀ deed ∈ more, deed.isAdvance = false) ∧
      (({ t with now := t.now + span } : Timetable).settle (fuel + 1)).scheduler =
        (Diary.run (deeds ++ .advance span :: more)).scheduler := by
  generalize hd : Diary.run deeds = d at hscheduler hnow
  rw [hscheduler, hnow] at hrest
  have hrun := requesting_run (d.now + span)
  obtain ⟨more, hmore, hsettle⟩ := (hrun.settles fuel).exists_settle_succ hrun
    { d with log := .advanced (d.now + span) :: d.log } t.fired
  have hadvance : d.perform (.advance span) =
      Diary.work { d with log := .advanced (d.now + span) :: d.log } := by
    rw [Diary.perform, hrest]
  refine ⟨more, hmore, ?_⟩
  calc (({ t with now := t.now + span } : Timetable).settle (fuel + 1)).scheduler
      = (settle (Timetable.run (d.now + span)) (d.now + span) (fuel + 1)
          (d.scheduler, t.fired)).1 := by rw [Timetable.settle, hscheduler, hnow]
    _ = ((d.perform (.advance span)).performAll more).scheduler := by rw [hadvance, ← hsettle]; rfl
    _ = (Diary.run (deeds ++ .advance span :: more)).scheduler := by
        rw [Diary.run, Diary.performAll_append, ← Diary.run, hd]
        rfl

end MulticastTunnel.Scheduler
