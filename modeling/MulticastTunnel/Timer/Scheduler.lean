import MulticastTunnel.Timer

/-!
# Scheduler

Runs tasks once each, at the first moment when it looks at its queue and
their deadlines have passed. A new task goes into an inbox first and is taken
from there only when no task of the queue is due, so whatever a running task
schedules comes after all that was due before. What running a task does is
left to the owner, who may schedule and cancel tasks in doing so.
-/

namespace MulticastTunnel

structure Scheduled (τ : Type) where
  timer : Timer
  task : τ
deriving DecidableEq, Repr

structure Scheduler (τ : Type) where
  /-- Timers made so far. -/
  serials : Nat := 0
  queue : List (Scheduled τ) := []
  /-- Tasks not yet seen by the queue, the oldest first. -/
  inbox : List (Scheduled τ) := []
  /-- Serial numbers of the timers that were cancelled. -/
  cancelled : List Nat := []
  /-- Serial numbers of the timers whose task has started. -/
  fired : List Nat := []
deriving DecidableEq, Repr

namespace Scheduler

variable {τ : Type}

/-- Schedules a task for a moment, which may have passed. -/
def scheduleAt (s : Scheduler τ) (deadline : Nat) (task : τ) : Timer × Scheduler τ :=
  let timer : Timer := ⟨deadline, s.serials⟩
  (timer, { s with serials := s.serials + 1, inbox := s.inbox ++ [⟨timer, task⟩] })

/-- Schedules a task for `delay` milliseconds from now. -/
def schedule (s : Scheduler τ) (now delay : Nat) (task : τ) : Timer × Scheduler τ :=
  s.scheduleAt (now + delay) task

/-- Keeps the task of a timer from running, unless it has started. -/
def cancel (s : Scheduler τ) (t : Timer) : Scheduler τ :=
  { s with cancelled := t.serial :: s.cancelled }

def isCancelled (s : Scheduler τ) (t : Timer) : Bool := s.cancelled.contains t.serial

def hasFired (s : Scheduler τ) (t : Timer) : Bool := s.fired.contains t.serial

def isPending (s : Scheduler τ) (t : Timer) : Bool := !s.isCancelled t && !s.hasFired t

/-- The time until a timer's task runs, zero when it will not run any more. -/
def remaining (s : Scheduler τ) (t : Timer) (now : Nat) : Nat :=
  if s.isPending t then t.remaining now else 0

/-- The due entry of the queue that runs first. -/
def due? (s : Scheduler τ) (now : Nat) : Option (Scheduled τ) :=
  (Timer.earliest? ((s.queue.filter (·.timer.isDue now)).map fun e => (e.timer, e))).map (·.2)

inductive Step (τ : Type)
  /-- The task starts. -/
  | run (entry : Scheduled τ) (state : Scheduler τ)
  /-- An entry went from the inbox into the queue, or a cancelled one was dropped. -/
  | moved (state : Scheduler τ)
  /-- Nothing is due and the inbox is empty. -/
  | idle

/-- Due entries of the queue come before entries of the inbox. -/
def step (s : Scheduler τ) (now : Nat) : Step τ :=
  match s.due? now with
  | some e =>
    let rest := { s with queue := s.queue.filter fun f => f.timer.serial ≠ e.timer.serial }
    if s.isCancelled e.timer then .moved rest
    else .run e { rest with fired := e.timer.serial :: s.fired }
  | none =>
    match s.inbox with
    | [] => .idle
    | e :: inbox => .moved { s with queue := s.queue ++ [e], inbox }

/-- Takes steps until none is left, at most `fuel` of them. The owner's state
changes along as `run` tells for each task that starts. -/
def settle {σ : Type} (run : Scheduled τ → Scheduler τ × σ → Scheduler τ × σ) (now : Nat) :
    Nat → Scheduler τ × σ → Scheduler τ × σ
  | 0, state => state
  | fuel + 1, (s, owner) =>
    match s.step now with
    | .run e s => settle run now fuel (run e (s, owner))
    | .moved s => settle run now fuel (s, owner)
    | .idle => (s, owner)

end Scheduler

end MulticastTunnel
