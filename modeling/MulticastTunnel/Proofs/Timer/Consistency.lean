import Mathlib.Data.List.Basic
import MulticastTunnel.Proofs.Timer.Diary

/-!
# Schedulers that are as their logs tell

Whatever is done with a scheduler, its log stays orderly. `Stepped` says once
what a step of the worker can do, `Lined` where the tasks of the log are: each
that waits is in the queue or in the inbox, what is in the inbox was made after
all that is in the queue, and a due task of the queue that was made since the
clock went on is the only due one there. `Consistent` adds what the scheduler
keeps of the log in numbers.
-/

namespace MulticastTunnel.Scheduler

variable {τ : Type} {s : Scheduler τ} {now : Nat} {e : Scheduled τ}

/-! ## Steps -/

/-- The entry is due, and no due one of the queue runs before it. -/
structure NextDue (s : Scheduler τ) (now : Nat) (e : Scheduled τ) : Prop where
  mem : e ∈ s.queue
  due : e.timer.deadline ≤ now
  first : ∀ f ∈ s.queue, f.timer.deadline ≤ now → ¬ f.timer.Before e.timer

def without (s : Scheduler τ) (e : Scheduled τ) : Scheduler τ :=
  { s with queue := s.queue.filter fun f => f.timer.serial ≠ e.timer.serial }

/-- What a step of the worker can be. -/
inductive Stepped (s : Scheduler τ) (now : Nat) : Step τ → Prop
  | start {e : Scheduled τ} (next : s.NextDue now e) (live : e.timer.serial ∉ s.cancelled) :
      Stepped s now (.run e { s.without e with fired := e.timer.serial :: s.fired })
  | drop {e : Scheduled τ} (next : s.NextDue now e) (dead : e.timer.serial ∈ s.cancelled) :
      Stepped s now (.moved (s.without e))
  | take {e : Scheduled τ} {inbox : List (Scheduled τ)}
      (early : ∀ f ∈ s.queue, now < f.timer.deadline) (arrived : s.inbox = e :: inbox) :
      Stepped s now (.moved { s with queue := s.queue ++ [e], inbox })
  | rest (early : ∀ f ∈ s.queue, now < f.timer.deadline) (empty : s.inbox = []) :
      Stepped s now .idle

theorem nextDue_of_due? (h : s.due? now = some e) : s.NextDue now e := by
  obtain ⟨⟨t, e'⟩, hearliest, rfl⟩ := Option.map_eq_some_iff.mp h
  obtain ⟨hmem, hfirst⟩ := Timer.earliest?_eq_some hearliest
  obtain ⟨e, he, heq⟩ := List.mem_map.mp hmem
  cases heq
  obtain ⟨hqueue, hdue⟩ := List.mem_filter.mp he
  refine ⟨hqueue, of_decide_eq_true hdue, fun f hf hfdue => ?_⟩
  exact hfirst _ (List.mem_map_of_mem (List.mem_filter.mpr ⟨hf, decide_eq_true hfdue⟩))

theorem early_of_due? (h : s.due? now = none) : ∀ f ∈ s.queue, now < f.timer.deadline := by
  have hnil := List.map_eq_nil_iff.mp (Timer.earliest?_eq_none_iff.mp (Option.map_eq_none_iff.mp h))
  intro f hf
  have hfdue := List.filter_eq_nil_iff.mp hnil f hf
  exact Nat.lt_of_not_le fun hle => hfdue (decide_eq_true hle)

theorem stepped (s : Scheduler τ) (now : Nat) : Stepped s now (s.step now) := by
  rw [step]
  split
  · next e hdue =>
    split
    · next hc => exact .drop (nextDue_of_due? hdue) (List.contains_iff_mem.mp hc)
    · next hc =>
      exact .start (nextDue_of_due? hdue) fun hm => hc (List.contains_iff_mem.mpr hm)
  · next hdue =>
    split
    · next hi => exact .rest (early_of_due? hdue) hi
    · next e inbox hi => exact .take (early_of_due? hdue) hi

/-! ## Lines -/

/-- The tasks that wait stand in the queue and in the inbox, in such an order
that the worker comes to each in its turn. -/
structure Lined (queue inbox : List (Scheduled τ)) (log : Log τ) : Prop where
  listed : ∀ e ∈ queue ++ inbox, .made e ∈ log ∧ .started e ∉ log
  waiting : ∀ e, Awaits log e → e ∈ queue ++ inbox
  sorted : inbox.Pairwise fun e f => e.timer.serial < f.timer.serial
  behind : ∀ e ∈ queue, ∀ f ∈ inbox, e.timer.serial < f.timer.serial
  /-- The inbox was empty when the clock came to its present time. -/
  recent : ∀ e ∈ inbox, .made e ∉ former log
  /-- A task that was made since then and is due came into the queue when no other one was due. -/
  alone : ∀ e ∈ queue, .made e ∉ former log → e.timer.deadline ≤ clock log →
    ∀ f ∈ queue, f.timer.deadline ≤ clock log → f = e

variable {queue inbox : List (Scheduled τ)} {log log' : Log τ}

/-- Entries that tell of no task that was made or started change nothing. -/
theorem Lined.of_log (h : Lined queue inbox log) (hmade : ∀ f, .made f ∈ log' ↔ .made f ∈ log)
    (hstarted : ∀ f, .started f ∈ log' → .started f ∈ log)
    (hwaiting : ∀ f, Awaits log' f → Awaits log f)
    (hformer : former log' = former log) (hclock : clock log' = clock log) :
    Lined queue inbox log' where
  listed f hf := ⟨(hmade f).mpr (h.listed f hf).1, fun hm => (h.listed f hf).2 (hstarted f hm)⟩
  waiting f hf := h.waiting f (hwaiting f hf)
  sorted := h.sorted
  behind := h.behind
  recent := hformer ▸ h.recent
  alone := hformer ▸ hclock ▸ h.alone

/-- An entry of the queue is taken out of it when its task waits no more. -/
theorem Lined.remove (h : Lined queue inbox log) (hlog : Orderly log) (he : e ∈ queue)
    (hmade : ∀ f, .made f ∈ log' ↔ .made f ∈ log)
    (hstarted : ∀ f, f ≠ e → .started f ∈ log' → .started f ∈ log)
    (hwaiting : ∀ f, Awaits log' f → Awaits log f ∧ f ≠ e)
    (hformer : former log' = former log) (hclock : clock log' = clock log) :
    Lined (queue.filter fun f => f.timer.serial ≠ e.timer.serial) inbox log' := by
  -- Serial numbers are unique, so nothing else goes with it.
  have hemade := (h.listed e (List.mem_append_left _ he)).1
  have hsub : ∀ f ∈ queue.filter fun f => f.timer.serial ≠ e.timer.serial, f ∈ queue :=
    fun f hf => (List.mem_filter.mp hf).1
  refine ⟨fun f hf => ?_, fun f hf => ?_, h.sorted, fun f hf => h.behind f (hsub f hf), ?_, ?_⟩
  · have hin : f ∈ queue ++ inbox ∧ f ≠ e := by
      rcases List.mem_append.mp hf with hq | hi
      · refine ⟨List.mem_append_left _ (hsub f hq), ?_⟩
        rintro rfl
        exact of_decide_eq_true (List.mem_filter.mp hq).2 rfl
      · refine ⟨List.mem_append_right _ hi, ?_⟩
        rintro rfl
        exact Nat.lt_irrefl _ (h.behind f he f hi)
    obtain ⟨hfmade, hfstarted⟩ := h.listed f hin.1
    exact ⟨(hmade f).mpr hfmade, fun hm => hfstarted (hstarted f hin.2 hm)⟩
  · obtain ⟨hawaits, hne⟩ := hwaiting f hf
    rcases List.mem_append.mp (h.waiting f hawaits) with hq | hi
    · refine List.mem_append_left _ (List.mem_filter.mpr ⟨hq, decide_eq_true fun heq => ?_⟩)
      exact hne (hlog.made_unique hawaits.made hemade heq)
    · exact List.mem_append_right _ hi
  · rw [hformer]
    exact h.recent
  · rw [hformer, hclock]
    exact fun f hf hnew hdue g hg => h.alone f (hsub f hf) hnew hdue g (hsub g hg)

/-- The head of the inbox joins the queue when nothing in the queue is due. -/
theorem Lined.take (h : Lined queue (e :: inbox) log)
    (hearly : ∀ f ∈ queue, clock log < f.timer.deadline) : Lined (queue ++ [e]) inbox log := by
  have hall : (queue ++ [e]) ++ inbox = queue ++ e :: inbox := List.append_assoc ..
  have hsorted := List.pairwise_cons.mp h.sorted
  have honly : ∀ f ∈ queue ++ [e], f.timer.deadline ≤ clock log → f = e := by
    intro f hf hdue
    rcases List.mem_append.mp hf with hq | hone
    · exact absurd hdue (Nat.not_le_of_lt (hearly f hq))
    · exact List.mem_singleton.mp hone
  refine ⟨?_, ?_, hsorted.2, fun f hf => ?_, fun f hf => ?_, ?_⟩
  · exact hall ▸ h.listed
  · exact hall ▸ h.waiting
  · rcases List.mem_append.mp hf with hq | hone
    · exact fun g hg => h.behind f hq g (List.mem_cons_of_mem _ hg)
    · exact List.mem_singleton.mp hone ▸ hsorted.1
  · exact h.recent f (List.mem_cons_of_mem _ hf)
  · intro f hf _ hfdue g hg hgdue
    rw [honly f hf hfdue, honly g hg hgdue]

/-- A new task joins the inbox as the last one. -/
theorem Lined.arrive (h : Lined queue inbox log) (hlog : Orderly log)
    (hserial : e.timer.serial = (handles log).length) :
    Lined queue (inbox ++ [e]) (.made e :: log) := by
  have hnew : .made e ∉ log := fun hm => Nat.ne_of_lt (hlog.serial_lt hm) hserial
  have hlast : ∀ f ∈ queue ++ inbox, f.timer.serial < e.timer.serial := fun f hf =>
    hserial ▸ hlog.serial_lt (h.listed f hf).1
  refine ⟨fun f hf => ?_, fun f hf => ?_, ?_, fun f hf g hg => ?_, fun f hf => ?_, h.alone⟩
  · rw [← List.append_assoc] at hf
    rcases List.mem_append.mp hf with hf | hf
    · obtain ⟨hm, hs⟩ := h.listed f hf
      exact ⟨List.mem_cons_of_mem _ hm, fun hc => hs ((List.mem_cons.mp hc).resolve_left nofun)⟩
    · cases List.mem_singleton.mp hf
      refine ⟨List.mem_cons_self, fun hc => hnew (hlog.made_of_started ?_)⟩
      exact (List.mem_cons.mp hc).resolve_left nofun
  · rw [← List.append_assoc]
    rcases List.mem_cons.mp hf.made with hx | hm
    · cases hx
      exact List.mem_append_right _ (List.mem_singleton_self _)
    · exact List.mem_append_left _ (h.waiting f (hf.of_cons hm))
  · refine List.pairwise_append.mpr ⟨h.sorted, List.pairwise_singleton _ _, fun f hf g hg => ?_⟩
    cases List.mem_singleton.mp hg
    exact hlast f (List.mem_append_right _ hf)
  · rcases List.mem_append.mp hg with hg | hg
    · exact h.behind f hf g hg
    · cases List.mem_singleton.mp hg
      exact hlast f (List.mem_append_left _ hf)
  · rcases List.mem_append.mp hf with hf | hf
    · exact h.recent f hf
    · cases List.mem_singleton.mp hf
      exact fun hm => hnew (former_subset log hm)

/-- When the worker rests and the clock goes on, all tasks are former ones. -/
theorem Lined.advance (h : Lined queue [] log) (later : Nat) :
    Lined queue [] (.advanced later :: log) where
  listed f hf :=
    ⟨List.mem_cons_of_mem _ (h.listed f hf).1,
      fun hm => (h.listed f hf).2 ((List.mem_cons.mp hm).resolve_left nofun)⟩
  waiting f hf := h.waiting f (hf.of_cons ((List.mem_cons.mp hf.made).resolve_left nofun))
  sorted := .nil
  behind := nofun
  recent := nofun
  alone f hf hnew := absurd (h.listed f (List.mem_append_left _ hf)).1 hnew

/-! ## Consistency -/

/-- The scheduler is as its log tells. -/
structure Consistent (d : Diary τ) : Prop where
  orderly : Orderly d.log
  lined : Lined d.scheduler.queue d.scheduler.inbox d.log
  serials : d.scheduler.serials = (handles d.log).length
  cancelled : d.scheduler.cancelled = (d.log.filterMap Entry.cancelled?).map (·.serial)
  fired : d.scheduler.fired = (d.log.filterMap Entry.started?).map (·.serial)

variable {d : Diary τ}

theorem consistent_new : Consistent ({} : Diary τ) where
  orderly := trivial
  lined := ⟨nofun, fun _ h => (nomatch h.made), .nil, nofun, nofun, nofun⟩
  serials := rfl
  cancelled := rfl
  fired := rfl

theorem Consistent.mem_cancelled_iff (h : Consistent d) (he : .made e ∈ d.log) :
    e.timer.serial ∈ d.scheduler.cancelled ↔ .cancelled e.timer ∈ d.log := by
  rw [h.cancelled, List.mem_map]
  constructor
  · rintro ⟨t, ht, hserial⟩
    obtain ⟨_ | t | _ | _ | _, hm, heq⟩ := List.mem_filterMap.mp ht <;> cases heq
    obtain ⟨task, hmade⟩ := mem_handles.mp (h.orderly.handed_of_cancelled hm)
    cases h.orderly.made_unique hmade he hserial
    exact hm
  · exact fun hm => ⟨e.timer, List.mem_filterMap.mpr ⟨_, hm, rfl⟩, rfl⟩

theorem Consistent.mem_fired_iff (h : Consistent d) (he : .made e ∈ d.log) :
    e.timer.serial ∈ d.scheduler.fired ↔ .started e ∈ d.log := by
  rw [h.fired, List.mem_map]
  constructor
  · rintro ⟨t, ht, hserial⟩
    obtain ⟨_ | _ | f | _ | _, hm, heq⟩ := List.mem_filterMap.mp ht <;> cases heq
    cases h.orderly.made_unique (h.orderly.made_of_started hm) he hserial
    exact hm
  · exact fun hm => ⟨e.timer, List.mem_filterMap.mpr ⟨_, hm, rfl⟩, rfl⟩

/-- A timer is pending as long as its task waits. -/
theorem Consistent.isPending_iff (h : Consistent d) (he : .made e ∈ d.log) :
    d.scheduler.isPending e.timer = true ↔ Awaits d.log e := by
  simp only [isPending, isCancelled, hasFired, Bool.and_eq_true, Bool.not_eq_true',
    Bool.eq_false_iff, ne_eq, List.contains_iff_mem, h.mem_cancelled_iff he, h.mem_fired_iff he]
  exact ⟨fun hn => ⟨he, hn.2, hn.1⟩, fun ha => ⟨ha.notCancelled, ha.notStarted⟩⟩

/-- The next due task of the queue has its turn before all others. -/
theorem Consistent.justified_started (h : Consistent d) (next : d.scheduler.NextDue d.now e)
    (live : e.timer.serial ∉ d.scheduler.cancelled) : Justified d.log (.started e) := by
  obtain ⟨hmade, hstarted⟩ := h.lined.listed e (List.mem_append_left _ next.mem)
  have hlive : .cancelled e.timer ∉ d.log := fun hm => live ((h.mem_cancelled_iff hmade).mpr hm)
  refine ⟨⟨⟨hmade, hstarted, hlive⟩, next.due⟩, fun f hf hne => ?_⟩
  rcases List.mem_append.mp (h.lined.waiting f hf.toAwaits) with hq | hi
  · -- Both are in the queue, so both are former ones, and the earlier one is next.
    have hef : .made e ∈ former d.log := by
      by_contra hnew
      exact hne (h.lined.alone e next.mem hnew next.due f hq hf.due)
    have hff : .made f ∈ former d.log := by
      by_contra hnew
      exact hne (h.lined.alone f hq hnew hf.due e next.mem next.due).symm
    have hserial : e.timer.serial ≠ f.timer.serial := fun heq =>
      hne (h.orderly.made_unique hf.made hmade heq.symm)
    exact .inl ⟨hef, hff,
      (Timer.before_or_before hserial).resolve_right (next.first f hq hf.due)⟩
  · exact .inr ⟨h.lined.recent f hi, h.lined.behind e next.mem f hi⟩

/-- When the worker finds nothing to do, nothing is ready. -/
theorem Consistent.not_ready (h : Consistent d)
    (early : ∀ f ∈ d.scheduler.queue, d.now < f.timer.deadline) (empty : d.scheduler.inbox = []) :
    ∀ e, ¬ Ready d.log e := by
  intro e he
  have hq := h.lined.waiting e he.toAwaits
  rw [empty, List.append_nil] at hq
  exact Nat.not_le_of_lt (early e hq) he.due

theorem Consistent.schedule (h : Consistent d) (deadline : Nat) (task : τ) :
    Consistent (d.perform (.schedule deadline task)) where
  orderly := ⟨h.serials, h.orderly⟩
  lined := h.lined.arrive h.orderly h.serials
  serials := congrArg (· + 1) h.serials
  cancelled := h.cancelled
  fired := h.fired

theorem Consistent.cancel (h : Consistent d) (timer : Timer) :
    Consistent (d.perform (.cancel timer)) := by
  rw [Diary.perform]
  split
  · next hm =>
    exact ⟨⟨hm, h.orderly⟩, h.lined.of_log (by simp) (by simp)
      (fun f hf => hf.of_cons (by simpa using hf.made)) rfl rfl, h.serials,
      congrArg (timer.serial :: ·) h.cancelled, h.fired⟩
  · exact h

theorem Consistent.start (h : Consistent d) (next : d.scheduler.NextDue d.now e)
    (live : e.timer.serial ∉ d.scheduler.cancelled) :
    Consistent ⟨{ d.scheduler.without e with fired := e.timer.serial :: d.scheduler.fired },
      .started e :: d.log⟩ := by
  refine ⟨⟨h.justified_started next live, h.orderly⟩, ?_, h.serials, h.cancelled,
    congrArg (e.timer.serial :: ·) h.fired⟩
  refine h.lined.remove h.orderly next.mem (by simp) (fun f hne hm => ?_) (fun f hf => ?_) rfl rfl
  · rcases List.mem_cons.mp hm with hx | hm
    · cases hx
      exact absurd rfl hne
    · exact hm
  · refine ⟨hf.of_cons (by simpa using hf.made), ?_⟩
    rintro rfl
    exact hf.notStarted List.mem_cons_self

theorem Consistent.drop (h : Consistent d) (next : d.scheduler.NextDue d.now e)
    (dead : e.timer.serial ∈ d.scheduler.cancelled) :
    Consistent { d with scheduler := d.scheduler.without e } := by
  have hmade := (h.lined.listed e (List.mem_append_left _ next.mem)).1
  refine ⟨h.orderly, ?_, h.serials, h.cancelled, h.fired⟩
  refine h.lined.remove h.orderly next.mem (fun _ => .rfl) (fun _ _ hm => hm) (fun f hf => ?_)
    rfl rfl
  refine ⟨hf, ?_⟩
  rintro rfl
  exact hf.notCancelled ((h.mem_cancelled_iff hmade).mp dead)

theorem Consistent.take (h : Consistent d) {inbox : List (Scheduled τ)}
    (early : ∀ f ∈ d.scheduler.queue, d.now < f.timer.deadline)
    (arrived : d.scheduler.inbox = e :: inbox) :
    Consistent
      { d with scheduler := { d.scheduler with queue := d.scheduler.queue ++ [e], inbox } } := by
  have hlined := h.lined
  rw [arrived] at hlined
  exact ⟨h.orderly, hlined.take early, h.serials, h.cancelled, h.fired⟩

/-- Whatever the worker does, it does in turn. -/
theorem Consistent.work (h : Consistent d) : Consistent d.work := by
  have hstep := stepped d.scheduler d.now
  rw [Diary.work]
  generalize d.scheduler.step d.now = what at hstep
  cases hstep with
  | start next live => exact h.start next live
  | drop next dead => exact h.drop next dead
  | take early arrived => exact h.take early arrived
  | rest early empty =>
    exact ⟨⟨h.not_ready early empty, h.orderly⟩, h.lined.of_log (by simp) (by simp)
      (fun f hf => hf.of_cons (by simpa using hf.made)) rfl rfl, h.serials, h.cancelled, h.fired⟩

theorem Consistent.advance (h : Consistent d) (span : Nat) :
    Consistent (d.perform (.advance span)) := by
  have hstep := stepped d.scheduler d.now
  rw [Diary.perform]
  generalize d.scheduler.step d.now = what at hstep
  cases hstep with
  | rest early empty =>
    have hlined := h.lined
    rw [empty] at hlined
    refine Consistent.work ⟨⟨⟨Nat.le_add_right _ _, h.not_ready early empty⟩, h.orderly⟩, ?_,
      h.serials, h.cancelled, h.fired⟩
    rw [empty]
    exact hlined.advance _
  | _ => exact h

theorem Consistent.perform (h : Consistent d) (deed : Deed τ) : Consistent (d.perform deed) := by
  cases deed with
  | schedule deadline task => exact h.schedule deadline task
  | cancel timer => exact h.cancel timer
  | work => exact h.work
  | advance span => exact h.advance span

theorem Consistent.performAll (h : Consistent d) (deeds : List (Deed τ)) :
    Consistent (d.performAll deeds) := by
  induction deeds generalizing d with
  | nil => exact h
  | cons deed deeds ih => exact ih (h.perform deed)

theorem consistent_run (deeds : List (Deed τ)) : Consistent (Diary.run deeds) :=
  consistent_new.performAll deeds

end MulticastTunnel.Scheduler
