import MulticastTunnel.Timer.Scheduler

/-!
# Diaries of schedulers

A diary is a scheduler with a log of what happened at it. Tasks are scheduled
and cancelled at any time, also while a task runs, the worker takes one step
after the other, and the clock stands still as long as the worker is busy.
`Orderly` says of a log alone that each entry is justified by those before it:
a task that starts waits, is due, and has its turn before all others of which
this is so, and the worker rests only when there is none. What is to be known
about the order of things follows from that.
-/

namespace MulticastTunnel.Scheduler

variable {τ : Type}

inductive Entry (τ : Type)
  | made (e : Scheduled τ)
  | cancelled (timer : Timer)
  | started (e : Scheduled τ)
  /-- The worker found nothing to do. -/
  | rested
  /-- The clock came to `now`. -/
  | advanced (now : Nat)
deriving DecidableEq

namespace Entry

def made? : Entry τ → Option Timer
  | made e => some e.timer
  | _ => none

def cancelled? : Entry τ → Option Timer
  | cancelled timer => some timer
  | _ => none

def started? : Entry τ → Option Timer
  | started e => some e.timer
  | _ => none

end Entry

/-- What happened, the latest first. -/
abbrev Log (τ : Type) := List (Entry τ)

/-- The timers that were handed out. -/
def handles (log : Log τ) : List Timer := log.filterMap Entry.made?

/-- The time, which is that of the latest advance. -/
def clock : Log τ → Nat
  | [] => 0
  | .advanced now :: _ => now
  | _ :: log => clock log

/-- What had happened when the clock came to its present time. -/
def former : Log τ → Log τ
  | [] => []
  | .advanced _ :: log => log
  | _ :: log => former log

/-- The task has neither started nor been cancelled since it was made. -/
structure Awaits (log : Log τ) (e : Scheduled τ) : Prop where
  made : .made e ∈ log
  notStarted : .started e ∉ log
  notCancelled : .cancelled e.timer ∉ log

/-- The task waits, and its deadline is not ahead. -/
structure Ready (log : Log τ) (e : Scheduled τ) : Prop extends Awaits log e where
  due : e.timer.deadline ≤ clock log

/-- Of two tasks, `e` has its turn before `f`. Those that were made before the
clock came to its present time are in the order of their timers. A task that
was made since then comes after all that were made before it. -/
def Precedes (log : Log τ) (e f : Scheduled τ) : Prop :=
  .made e ∈ former log ∧ .made f ∈ former log ∧ e.timer.Before f.timer ∨
    .made f ∉ former log ∧ e.timer.serial < f.timer.serial

/-- What happened before allows for the entry. -/
def Justified (log : Log τ) : Entry τ → Prop
  | .made e => e.timer.serial = (handles log).length
  | .cancelled timer => timer ∈ handles log
  | .started e => Ready log e ∧ ∀ f, Ready log f → f ≠ e → Precedes log e f
  | .rested => ∀ e, ¬ Ready log e
  | .advanced now => clock log ≤ now ∧ ∀ e, ¬ Ready log e

/-- Every entry is justified by what happened before it. -/
def Orderly : Log τ → Prop
  | [] => True
  | x :: log => Justified log x ∧ Orderly log

variable {log later earlier between : Log τ} {x : Entry τ} {e f : Scheduled τ} {timer : Timer}

theorem mem_handles : timer ∈ handles log ↔ ∃ task, .made ⟨timer, task⟩ ∈ log := by
  simp only [handles, List.mem_filterMap]
  constructor
  · rintro ⟨_ | _ | _ | _ | _, hm, heq⟩ <;> cases heq
    exact ⟨_, hm⟩
  · rintro ⟨task, hm⟩
    exact ⟨_, hm, rfl⟩

theorem length_handles_append (later earlier : Log τ) :
    (handles (later ++ earlier)).length = (handles later).length + (handles earlier).length := by
  rw [handles, List.filterMap_append, List.length_append]
  rfl

theorem former_subset (log : Log τ) : former log ⊆ log := by
  induction log with
  | nil => exact List.Subset.refl _
  | cons x log ih =>
    cases x with
    | advanced now => exact List.subset_cons_self _ _
    | _ => exact List.Subset.trans ih (List.subset_cons_self _ _)

theorem clock_append (h : ∀ now, .advanced now ∉ between) (earlier : Log τ) :
    clock (between ++ earlier) = clock earlier := by
  induction between with
  | nil => rfl
  | cons x between ih =>
    have hrest := ih fun now hm => h now (List.mem_cons_of_mem _ hm)
    cases x with
    | advanced now => exact absurd List.mem_cons_self (h now)
    | _ => exact hrest

/-! ## What follows from the order of a log -/

theorem Orderly.of_append (h : Orderly (later ++ earlier)) : Orderly earlier := by
  induction later with
  | nil => exact h
  | cons x later ih => exact ih h.2

theorem Orderly.justified (h : Orderly (later ++ x :: earlier)) : Justified earlier x :=
  h.of_append.1

theorem Orderly.justified_of_mem (h : Orderly log) (hx : x ∈ log) :
    ∃ later earlier, log = later ++ x :: earlier ∧ Justified earlier x := by
  obtain ⟨later, earlier, rfl⟩ := List.append_of_mem hx
  exact ⟨later, earlier, rfl, h.justified⟩

/-- Serial numbers count the timers that were made. -/
theorem Orderly.serial_lt (h : Orderly log) (he : .made e ∈ log) :
    e.timer.serial < (handles log).length := by
  obtain ⟨later, earlier, rfl, hserial⟩ := h.justified_of_mem he
  have hone : (handles (.made e :: earlier)).length = (handles earlier).length + 1 := rfl
  rw [length_handles_append, hone, hserial]
  omega

theorem Orderly.made_unique (h : Orderly log) (he : .made e ∈ log) (hf : .made f ∈ log)
    (heq : e.timer.serial = f.timer.serial) : e = f := by
  induction log with
  | nil => cases he
  | cons x log ih =>
    -- The one of the two that was made last has the greater number.
    rcases List.mem_cons.mp he with rfl | he' <;> rcases List.mem_cons.mp hf with hx | hf'
    · cases hx
      rfl
    · have hlt := h.2.serial_lt hf'
      have hnew : e.timer.serial = (handles log).length := h.1
      omega
    · subst hx
      have hlt := h.2.serial_lt he'
      have hnew : f.timer.serial = (handles log).length := h.1
      omega
    · exact ih h.2 he' hf'

theorem Orderly.made_of_started (h : Orderly log) (he : .started e ∈ log) : .made e ∈ log := by
  obtain ⟨later, earlier, rfl, hready, -⟩ := h.justified_of_mem he
  exact List.mem_append_right _ (List.mem_cons_of_mem _ hready.made)

theorem Orderly.handed_of_cancelled (h : Orderly log) (ht : .cancelled timer ∈ log) :
    timer ∈ handles log := by
  obtain ⟨later, earlier, rfl, hm⟩ := h.justified_of_mem ht
  obtain ⟨task, hm⟩ := mem_handles.mp hm
  exact mem_handles.mpr ⟨task, List.mem_append_right _ (List.mem_cons_of_mem _ hm)⟩

/-- A task that waits has waited since it was made. -/
theorem Awaits.of_append (h : Awaits (later ++ earlier) e) (he : .made e ∈ earlier) :
    Awaits earlier e where
  made := he
  notStarted hm := h.notStarted (List.mem_append_right _ hm)
  notCancelled hm := h.notCancelled (List.mem_append_right _ hm)

theorem Awaits.of_cons (h : Awaits (x :: log) e) (he : .made e ∈ log) : Awaits log e := by
  have hall : Awaits ([x] ++ log) e := h
  exact hall.of_append he

theorem not_awaits_iff (he : .made e ∈ log) :
    ¬ Awaits log e ↔ .started e ∈ log ∨ .cancelled e.timer ∈ log := by
  constructor
  · intro h
    by_cases hs : .started e ∈ log
    · exact .inl hs
    · by_cases hc : .cancelled e.timer ∈ log
      · exact .inr hc
      · exact absurd ⟨he, hs, hc⟩ h
  · rintro (hm | hm) h
    · exact h.notStarted hm
    · exact h.notCancelled hm

/-- No task starts twice. -/
theorem Orderly.started_nodup (h : Orderly log) : (log.filterMap Entry.started?).Nodup := by
  induction log with
  | nil => exact List.nodup_nil
  | cons x log ih =>
    cases x with
    | started e =>
      refine List.nodup_cons.mpr ⟨fun hm => ?_, ih h.2⟩
      obtain ⟨y, hy, heq⟩ := List.mem_filterMap.mp hm
      cases y with
      | started f =>
        have hready : Ready log e := h.1.1
        have htimer : f.timer = e.timer := Option.some.inj heq
        have hfe : f = e :=
          h.2.made_unique (h.2.made_of_started hy) hready.made (congrArg (·.serial) htimer)
        exact hready.notStarted (hfe ▸ hy)
      | _ => cases heq
    | _ => exact ih h.2

/-- A task that starts did not wait past a rest of the worker at which it was due. -/
theorem Orderly.not_due_at_rest
    (h : Orderly (later ++ .started e :: (between ++ .rested :: earlier)))
    (he : .made e ∈ earlier) : clock earlier < e.timer.deadline := by
  have hready : Ready (between ++ .rested :: earlier) e := h.justified.1
  have hrest : ∀ f, ¬ Ready earlier f := h.of_append.2.justified
  have hawaits : Awaits earlier e :=
    (hready.toAwaits.of_append (List.mem_cons_of_mem _ he)).of_cons he
  exact Nat.lt_of_not_le fun hdue => hrest e ⟨hawaits, hdue⟩

/-- While the clock stands still, tasks start in the order of their turns. -/
theorem Orderly.in_turn (h : Orderly (later ++ .started f :: (between ++ .started e :: earlier)))
    (hnow : ∀ now, .advanced now ∉ between) : Precedes earlier e f := by
  have hf : Ready (between ++ .started e :: earlier) f := h.justified.1
  have horder : Orderly (between ++ .started e :: earlier) := h.of_append.2
  have he : Ready earlier e ∧ ∀ g, Ready earlier g → g ≠ e → Precedes earlier e g :=
    horder.justified
  by_cases hmade : .made f ∈ earlier
  · -- `f` waited already, and it was due, since the clock shows the same time.
    have hawaits : Awaits earlier f :=
      (hf.toAwaits.of_append (List.mem_cons_of_mem _ hmade)).of_cons hmade
    have hdue := hf.due
    rw [clock_append hnow] at hdue
    refine he.2 f ⟨hawaits, hdue⟩ fun heq => ?_
    exact hf.notStarted (heq ▸ List.mem_append_right _ List.mem_cons_self)
  · -- `f` was made after `e` had started.
    refine .inr ⟨fun hm => hmade (former_subset _ hm), ?_⟩
    have hbetween : .made f ∈ between := by
      rcases List.mem_append.mp hf.made with hm | hm
      · exact hm
      · rcases List.mem_cons.mp hm with hx | hm
        · cases hx
        · exact absurd hm hmade
    obtain ⟨since, before, rfl⟩ := List.append_of_mem hbetween
    rw [List.append_assoc] at horder
    have hserial : f.timer.serial = (handles (before ++ .started e :: earlier)).length :=
      horder.justified
    have hbefore : Orderly (before ++ .started e :: earlier) := horder.of_append.2
    have hmade : .made e ∈ before ++ .started e :: earlier :=
      List.mem_append_right _ (List.mem_cons_of_mem _ he.1.made)
    rw [hserial]
    exact hbefore.serial_lt hmade

/-! ## What is done -/

/-- A scheduler, and what happened at it. -/
structure Diary (τ : Type) where
  scheduler : Scheduler τ := {}
  log : Log τ := []

inductive Deed (τ : Type)
  | schedule (deadline : Nat) (task : τ)
  | cancel (timer : Timer)
  /-- The worker takes a step. -/
  | work
  /-- The clock goes on. -/
  | advance (span : Nat)

namespace Deed

def isWork : Deed τ → Bool
  | work => true
  | _ => false

def isAdvance : Deed τ → Bool
  | advance _ => true
  | _ => false

/-- What a running task may do. -/
def isRequest : Deed τ → Bool
  | schedule .. | cancel _ => true
  | _ => false

end Deed

namespace Diary

def now (d : Diary τ) : Nat := clock d.log

def work (d : Diary τ) : Diary τ :=
  match d.scheduler.step d.now with
  | .run e scheduler => { scheduler, log := .started e :: d.log }
  | .moved scheduler => { d with scheduler }
  | .idle => { d with log := .rested :: d.log }

/-- Only a timer that was handed out can be cancelled. The clock goes on only
when the worker has nothing to do, and wakes it. -/
def perform (d : Diary τ) : Deed τ → Diary τ
  | .schedule deadline task =>
    let (timer, scheduler) := d.scheduler.scheduleAt deadline task
    { scheduler, log := .made ⟨timer, task⟩ :: d.log }
  | .cancel timer =>
    if timer ∈ handles d.log then
      { scheduler := d.scheduler.cancel timer, log := .cancelled timer :: d.log }
    else d
  | .work => d.work
  | .advance span =>
    match d.scheduler.step d.now with
    | .idle => work { d with log := .advanced (d.now + span) :: d.log }
    | _ => d

def performAll (d : Diary τ) (deeds : List (Deed τ)) : Diary τ := deeds.foldl perform d

/-- The diary of a new scheduler at which all this is done. -/
def run (deeds : List (Deed τ)) : Diary τ := performAll {} deeds

theorem performAll_append (d : Diary τ) (deeds more : List (Deed τ)) :
    d.performAll (deeds ++ more) = (d.performAll deeds).performAll more := List.foldl_append

theorem work_of_run {d : Diary τ} {e : Scheduled τ} {scheduler : Scheduler τ}
    (h : d.scheduler.step d.now = .run e scheduler) :
    d.work = { scheduler, log := .started e :: d.log } := by
  rw [work, h]

theorem work_of_moved {d : Diary τ} {scheduler : Scheduler τ}
    (h : d.scheduler.step d.now = .moved scheduler) : d.work = { d with scheduler } := by
  rw [work, h]

theorem work_of_idle {d : Diary τ} (h : d.scheduler.step d.now = .idle) :
    d.work = { d with log := .rested :: d.log } := by
  rw [work, h]

theorem exists_log_work (d : Diary τ) : ∃ later, d.work.log = later ++ d.log := by
  rw [work]
  split
  · exact ⟨[_], rfl⟩
  · exact ⟨[], rfl⟩
  · exact ⟨[_], rfl⟩

/-- Nothing is ever taken out of a log. -/
theorem exists_log_perform (d : Diary τ) (deed : Deed τ) :
    ∃ later, (d.perform deed).log = later ++ d.log := by
  cases deed with
  | schedule deadline task => exact ⟨[_], rfl⟩
  | cancel timer =>
    rw [perform]
    split
    · exact ⟨[_], rfl⟩
    · exact ⟨[], rfl⟩
  | work => exact d.exists_log_work
  | advance span =>
    rw [perform]
    split
    · obtain ⟨later, hlater⟩ :=
        exists_log_work { d with log := .advanced (d.now + span) :: d.log }
      exact ⟨later ++ [_], by rw [hlater, List.append_assoc]; rfl⟩
    · exact ⟨[], rfl⟩

theorem exists_log_performAll (d : Diary τ) (deeds : List (Deed τ)) :
    ∃ later, (d.performAll deeds).log = later ++ d.log := by
  induction deeds generalizing d with
  | nil => exact ⟨[], rfl⟩
  | cons deed deeds ih =>
    obtain ⟨later, hlater⟩ := ih (d.perform deed)
    obtain ⟨x, hx⟩ := d.exists_log_perform deed
    refine ⟨later ++ x, ?_⟩
    rw [List.append_assoc, ← hx]
    exact hlater

/-- The time does not change while the worker works. -/
theorem now_work (d : Diary τ) : d.work.now = d.now := by
  rw [work]
  split <;> rfl

theorem now_perform (d : Diary τ) {deed : Deed τ} (hd : deed.isAdvance = false) :
    (d.perform deed).now = d.now := by
  cases deed with
  | schedule deadline task => rfl
  | cancel timer =>
    rw [perform]
    split <;> rfl
  | work => exact d.now_work
  | advance span => cases hd

theorem now_performAll (d : Diary τ) {deeds : List (Deed τ)}
    (hd : ∀ deed ∈ deeds, deed.isAdvance = false) : (d.performAll deeds).now = d.now := by
  induction deeds generalizing d with
  | nil => rfl
  | cons deed deeds ih =>
    rw [List.forall_mem_cons] at hd
    exact (ih (d.perform deed) hd.2).trans (d.now_perform hd.1)

theorem now_le_perform (d : Diary τ) (deed : Deed τ) : d.now ≤ (d.perform deed).now := by
  cases deed with
  | advance span =>
    rw [perform]
    split
    · rw [now_work]
      exact Nat.le_add_right _ _
    · exact Nat.le_refl _
  | _ => exact Nat.le_of_eq (d.now_perform rfl).symm

end Diary

end MulticastTunnel.Scheduler
