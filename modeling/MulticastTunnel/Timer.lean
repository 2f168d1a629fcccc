/-!
# Timers

A timer has a deadline in milliseconds and a serial number. Timers run in
order of their deadlines, and those of one deadline in order of creation,
which the serial numbers tell.
-/

namespace MulticastTunnel

structure Timer where
  deadline : Nat
  /-- How many timers were made before it. -/
  serial : Nat
deriving DecidableEq, Repr

namespace Timer

def isDue (t : Timer) (now : Nat) : Bool := t.deadline ≤ now

/-- The time left until the deadline, zero once it has passed. -/
def remaining (t : Timer) (now : Nat) : Nat := t.deadline - now

/-- Whether `t` runs before `u` when both are due. -/
def Before (t u : Timer) : Prop :=
  t.deadline < u.deadline ∨ t.deadline = u.deadline ∧ t.serial < u.serial

instance (t u : Timer) : Decidable (t.Before u) := inferInstanceAs (Decidable (_ ∨ _))

theorem Before.trans {t u v : Timer} (h : t.Before u) (h' : u.Before v) : t.Before v := by
  simp only [Before] at *; omega

theorem Before.irrefl (t : Timer) : ¬ t.Before t := by simp [Before]

/-- Two timers with different serial numbers are in one order or the other. -/
theorem before_or_before {t u : Timer} (h : t.serial ≠ u.serial) : t.Before u ∨ u.Before t := by
  simp only [Before]; omega

/-- The one of two entries that runs first. -/
def sooner {α : Type} (a b : Timer × α) : Timer × α := if b.1.Before a.1 then b else a

def earliest? {α : Type} : List (Timer × α) → Option (Timer × α)
  | [] => none
  | e :: es => some (es.foldl sooner e)

theorem earliest?_eq_none_iff {α : Type} {es : List (Timer × α)} :
    earliest? es = none ↔ es = [] := by
  cases es <;> simp [earliest?]

theorem foldl_sooner {α : Type} (es : List (Timer × α)) (e : Timer × α) :
    es.foldl sooner e ∈ e :: es ∧ ∀ x ∈ e :: es, ¬ x.1.Before (es.foldl sooner e).1 := by
  induction es generalizing e with
  | nil => simp [Before.irrefl]
  | cons y ys ih =>
    obtain ⟨hm, hb⟩ := ih (sooner e y)
    simp only [List.foldl_cons]
    by_cases hy : y.1.Before e.1
    · rw [show sooner e y = y by simp [sooner, hy]] at hm hb ⊢
      refine ⟨List.mem_cons_of_mem _ hm, fun x hx => ?_⟩
      rcases List.mem_cons.mp hx with rfl | hx
      · exact fun h => hb y List.mem_cons_self (hy.trans h)
      · exact hb x hx
    · rw [show sooner e y = e by simp [sooner, hy]] at hm hb ⊢
      refine ⟨by simp only [List.mem_cons] at hm ⊢; exact hm.imp_right .inr, fun x hx => ?_⟩
      rcases List.mem_cons.mp hx with rfl | hx
      · exact hb x List.mem_cons_self
      · rcases List.mem_cons.mp hx with rfl | hx
        · intro h
          refine hb e List.mem_cons_self ?_
          simp only [Before] at *
          omega
        · exact hb x (List.mem_cons_of_mem _ hx)

/-- The earliest entry is one of the entries, and none runs before it. -/
theorem earliest?_eq_some {α : Type} {es : List (Timer × α)} {e : Timer × α}
    (h : earliest? es = some e) : e ∈ es ∧ ∀ x ∈ es, ¬ x.1.Before e.1 := by
  cases es with
  | nil => cases h
  | cons y ys => cases h; exact foldl_sooner ys y

/-- The moments at which a clock stops that goes on by `total`, and jumps by
`step` except for the last time. A step of zero stands for one jump. -/
def stops (now total step : Nat) : List Nat :=
  if total = 0 then []
  else if step = 0 then [now + total]
  else (now + min step total) :: stops (now + min step total) (total - step) step
termination_by total
decreasing_by omega

/-- Fires the timers that are due, the one that runs first at each step, until
none is due or `fuel` of them were fired. Firing changes the state and so the
timers that are pending. -/
def settle {σ α : Type} (pending : σ → List (Timer × α)) (fire : α → σ → σ) (now : Nat) :
    Nat → σ → σ
  | 0, s => s
  | fuel + 1, s =>
    match earliest? (pending s) with
    | none => s
    | some (timer, what) =>
      if timer.isDue now then settle pending fire now fuel (fire what s) else s

end Timer

end MulticastTunnel
