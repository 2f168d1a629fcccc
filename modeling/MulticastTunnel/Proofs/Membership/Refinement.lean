import MulticastTunnel.Proofs.Membership.Following

/-!
# What a run tells the relay

A run is any order of joins, leaves, queries and timers that run out, each at a
time and with an outlet of its own, whose answers nothing is assumed of. A relay
that hears every report has the filter of every group for its view; one that
misses reports gets it with the next report of a change that is pending, if it
had it before.
-/

namespace MulticastTunnel.Membership.Reporter

open Ordered

variable {ω : Type} {arrives : Nat → Bool} {group : Address}

/-- What can be asked of a reporter. -/
inductive Act
  | join (group : Address) (source : Option Address)
  | leave (group : Address) (source : Option Address)
  | leaveAll
  /-- A query, with the random number that decides when it is answered. -/
  | query (chance : Nat) (q : Query)
  /-- A timer ran out. -/
  | alarm (alarm : Alarm)

/-- Does what is asked. -/
def perform (o : Outlet ω) (now : Nat) (act : Act) (r : Reporter) (w : ω) :
    Except MembershipError Unit × Reporter × ω :=
  match act with
  | .join group source => r.join o now group source w
  | .leave group source => r.leave o now group source w
  | .leaveAll => r.leaveAll o now w
  | .query chance q => r.onQuery o now chance q w
  | .alarm alarm => (.ok (), r.fire o now alarm w)

theorem touches_perform (arrives : Nat → Bool) {r : Reporter} (h : r.Kindred) (o : Outlet ω)
    (now : Nat) (act : Act) (w : ω × Log) :
    ∃ groups, Touches arrives groups
      (Delivered arrives (r.perform o.logged now act w).2.2.2 (r.perform o.logged now act w).1)
      (r, w) (r.perform o.logged now act w).2 := by
  cases act with
  | join group source => exact ⟨_, touches_join h o now group source w⟩
  | leave group source => exact ⟨_, touches_leave h o now group source w⟩
  | leaveAll => exact ⟨_, touches_leaveAll h o now w⟩
  | query chance q => exact ⟨_, touches_onQuery h o now chance q w⟩
  | alarm alarm => exact touches_fire h o now alarm w

/-- What is asked of a new reporter, and the outlets that it gets. -/
structure Run (ω : Type) where
  family : Family
  settings : ReporterSettings
  world : ω
  /-- The outlet as each operation finds it. -/
  outlet : Nat → Outlet ω
  /-- Each operation, and when it is done. -/
  act : Nat → Nat × Act

namespace Run

variable (run : Run ω)

/-- The reporter and the log of its reports before the operation with this number. -/
def state : Nat → Reporter × ω × Log
  | 0 => ({ family := run.family, settings := run.settings }, run.world, [])
  | n + 1 =>
    ((state n).1.perform (run.outlet n).logged (run.act n).1 (run.act n).2 (state n).2).2

/-- What comes of the operation with this number. -/
def result (n : Nat) : Except MembershipError Unit :=
  ((run.state n).1.perform (run.outlet n).logged (run.act n).1 (run.act n).2 (run.state n).2).1

/-- What there is to see of a group before the operation with this number. -/
def sight (arrives : Nat → Bool) (group : Address) (n : Nat) : Sight :=
  seen arrives (run.state n) group

/-- Every report of the operation reaches the relay, and so did the earlier ones. -/
def AllDelivered (arrives : Nat → Bool) (n : Nat) : Prop :=
  Delivered arrives (run.state (n + 1)).2.2 (run.result n)

theorem kindred (n : Nat) : (run.state n).1.Kindred := by
  induction n with
  | zero => exact kindred_fresh run.family run.settings
  | succ n ih =>
    obtain ⟨groups, h⟩ := touches_perform (fun _ => true) ih (run.outlet n) (run.act n).1
      (run.act n).2 (run.state n).2
    exact h.kindred

/-- Every operation lets the sight of every group follow. -/
theorem follows (arrives : Nat → Bool) (group : Address) (n : Nat) :
    (run.sight arrives group n).Follows (run.AllDelivered arrives n)
      (run.sight arrives group (n + 1)) := by
  obtain ⟨groups, h⟩ := touches_perform arrives (run.kindred n) (run.outlet n) (run.act n).1
    (run.act n).2 (run.state n).2
  exact h.follows_all group

theorem ready_of_synced {s : Sight} (hp : s.pending = none) (h : s.view = s.filter) : s.Ready := by
  rw [Sight.Ready, hp]
  exact h

/-- While all is delivered, the view is the filter and stays ready for more. -/
theorem synced (n : Nat) (h : ∀ k < n, run.AllDelivered arrives k) :
    (run.sight arrives group n).Ready ∧
      (run.sight arrives group n).view = (run.sight arrives group n).filter := by
  induction n with
  | zero => exact ⟨rfl, rfl⟩
  | succ n ih =>
    obtain ⟨hready, hview⟩ := ih fun k hk => h k (Nat.lt_succ_of_lt hk)
    have hstep := run.follows arrives group n
    have hview' := hstep.synced (h n (Nat.lt_succ_self n)) hready hview
    refine ⟨?_, hview'⟩
    by_cases hp : (run.sight arrives group (n + 1)).pending = none
    · exact ready_of_synced hp hview'
    · exact hstep.ready hready hp

/-- A change that was ready when it came up is ready as long as it is pending. -/
theorem ready_of_pending {i j : Nat} (hij : i ≤ j)
    (hready : (run.sight arrives group i).Ready)
    (hp : ∀ k, i < k → k ≤ j → (run.sight arrives group k).pending ≠ none) :
    (run.sight arrives group j).Ready := by
  induction hij with
  | refl => exact hready
  | @step j hij ih =>
    have hj := ih fun k hk hkj => hp k hk (Nat.le_succ_of_le hkj)
    exact (run.follows arrives group j).ready hj
      (hp (j + 1) (Nat.lt_succ_of_le hij) (Nat.le_refl _))

/-- **The relay follows**: its view of every group is the filter as long as every
report is delivered. And if it was the filter when nothing was pending, then every
report of a change that the relay hears while a change came to be pending, and has
been since, makes it the filter again, whatever was lost or failed in between. -/
theorem relay_follows (run : Run ω) (arrives : Nat → Bool) (group : Address) :
    (∀ n, (∀ k < n, run.AllDelivered arrives k) →
      (run.sight arrives group n).view = (run.sight arrives group n).filter) ∧
    ∀ i j, i ≤ j → (run.sight arrives group i).pending = none →
      (∀ k, i < k → k ≤ j → (run.sight arrives group k).pending ≠ none) →
      (run.sight arrives group i).view = (run.sight arrives group i).filter →
      (run.sight arrives group j).told < (run.sight arrives group (j + 1)).told →
      (run.sight arrives group (j + 1)).view = (run.sight arrives group (j + 1)).filter := by
  refine ⟨fun n h => (run.synced n h).2, fun i j hij hnone hp hview htold => ?_⟩
  have hready := run.ready_of_pending hij (ready_of_synced hnone hview) hp
  exact (run.follows arrives group j).current hready htold

/-- A group is joined for any source, and the report of it repeated. -/
def repeated : Run Unit where
  family := .ipv4
  settings := {}
  world := ()
  outlet _ :=
    { localAddress := fun _ => .read .ipv4 [10, 0, 0, 2]
      send := fun _ w => (.ok .sent, w)
      serial := fun w => (0, w) }
  act n :=
    match n with
    | 0 => (0, .join (.read .ipv4 [232, 1, 1, 1]) none)
    | _ => (1000, .alarm (.retransmission (.read .ipv4 [232, 1, 1, 1])))

/-- The relay has the filter after the first report, and after the second one if
the first one was lost. -/
theorem repeated_follows :
    (repeated.sight (fun _ => true) (.v4 #v[232, 1, 1, 1]) 1).view = (.excluding, ∅) ∧
      (repeated.sight (fun k => k = 1) (.v4 #v[232, 1, 1, 1]) 1).view = (.including, ∅) ∧
      (repeated.sight (fun k => k = 1) (.v4 #v[232, 1, 1, 1]) 2).view = (.excluding, ∅) := by
  have hresult : repeated.result 0 = .ok () := by decide +kernel
  refine ⟨?_, by decide +kernel, ?_⟩
  · rw [(relay_follows repeated (fun _ => true) (.v4 #v[232, 1, 1, 1])).1 1 fun k hk => ?_]
    · decide +kernel
    · cases Nat.lt_one_iff.mp hk
      refine ⟨⟨by decide +kernel, fun _ _ => rfl⟩, fun c hc => ?_⟩
      rw [hresult] at hc
      cases hc
  · rw [(relay_follows repeated (fun k => k = 1) (.v4 #v[232, 1, 1, 1])).2 0 1 (by decide) rfl
      (fun k hk hk' => ?_) rfl (by decide +kernel)]
    · decide +kernel
    · cases Nat.le_antisymm hk' hk
      decide +kernel

end Run

end MulticastTunnel.Membership.Reporter
