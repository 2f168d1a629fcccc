import MulticastTunnel.Timer.Scheduler

/-!
# Timetables

A clock, and a scheduler of tasks that have names. When a task starts, it may
schedule one more task, named after it.
-/

namespace MulticastTunnel

structure NamedTask where
  name : String
  /-- The delay of the task that this one schedules, if it does. -/
  again : Option Nat
deriving DecidableEq, Repr

structure Timetable where
  scheduler : Scheduler NamedTask := {}
  now : Nat := 0
  /-- The timers that were asked for by name, the latest first. -/
  timers : List (String × Timer) := []
  /-- The tasks that started and when, the latest first. -/
  fired : List (String × Nat) := []
deriving DecidableEq, Repr

namespace Timetable

def schedule (deadline : Nat) (task : NamedTask) (t : Timetable) : Timer × Timetable :=
  let (timer, scheduler) := t.scheduler.scheduleAt deadline task
  (timer, { t with scheduler, timers := (task.name, timer) :: t.timers })

/-- Keeps the latest task of a name from running, unless it has started. -/
def cancel (name : String) (t : Timetable) : Timetable :=
  match t.timers.lookup name with
  | none => t
  | some timer => { t with scheduler := t.scheduler.cancel timer }

/-- Runs a task: notes its name, and schedules its successor. -/
def run (now : Nat) (e : Scheduled NamedTask) :
    Scheduler NamedTask × List (String × Nat) → Scheduler NamedTask × List (String × Nat) :=
  fun (s, fired) =>
    let s := match e.task.again with
      | none => s
      | some delay => (s.schedule now delay ⟨e.task.name ++ "+", none⟩).2
    (s, (e.task.name, now) :: fired)

/-- Runs what is due, at most `fuel` steps. -/
def settle (fuel : Nat) (t : Timetable) : Timetable :=
  let (scheduler, fired) := Scheduler.settle (run t.now) t.now fuel (t.scheduler, t.fired)
  { t with scheduler, fired }

/-- Sets the clock to one moment after the other, and runs what is due. -/
def advance (fuel : Nat) (moments : List Nat) (t : Timetable) : Timetable :=
  moments.foldl (fun t now => { t with now }.settle fuel) t

end Timetable

end MulticastTunnel
