import MulticastTunnel.Proofs.Membership.Steps

/-!
# What a demand asks for

What joins and leaves change in a demand, told by what it asks for and which
sources it blocks, and what its filter is then.
-/

namespace MulticastTunnel.Membership

open Ordered

namespace Demand

variable {d : Demand} {source other : Option Address}

/-- Whether the demand is for a source, or for any. -/
def Asks (d : Demand) : Option Address → Prop
  | none => d.anySource = true
  | some source => source ∈ d.joined

theorem not_asks_empty : ¬ ({} : Demand).Asks source := by
  cases source with
  | none => exact Bool.noConfusion
  | some source => exact OrderedSet.not_mem_empty source

theorem asks_join : (d.join source).Asks other ↔ other = source ∨ d.Asks other := by
  cases source with
  | none => cases other <;> simp [join, Asks]
  | some source => cases other <;> simp [join, Asks]

theorem asks_leave : (d.leave source).Asks other ↔ d.Asks other ∧ other ≠ source := by
  cases source with
  | none => cases other <;> simp [leave, Asks]
  | some source =>
    rw [leave]
    split
    · cases other <;> simp [Asks]
    · next hm =>
      -- Only a source that is blocked is written then, and that asks for nothing.
      have hne : ∀ s ∈ d.joined, s ≠ source := fun s hs h => hm (h ▸ hs)
      split <;> cases other <;> simp [Asks] <;> exact hne _

theorem leave_empty : ({} : Demand).leave source = {} := by cases source <;> rfl

theorem mem_blocked_join {s : Address} :
    s ∈ (d.join source).blocked ↔ s ∈ d.blocked ∧ source ≠ some s := by
  cases source with
  | none => simp [join]
  | some source => simp [join, eq_comm]

/-- A source is blocked when it is left without being asked for by itself, while
any source is asked for. -/
theorem mem_blocked_leave {s : Address} :
    s ∈ (d.leave source).blocked ↔
      source ≠ none ∧ (s ∈ d.blocked ∨ source = some s ∧ d.Asks none ∧ ¬ d.Asks (some s)) := by
  cases source with
  | none => simp [leave]
  | some source =>
    rw [leave]
    split
    · next hm =>
      have hno : ¬ (some source = some s ∧ d.Asks none ∧ ¬ d.Asks (some s)) := by
        rintro ⟨h, -, hs⟩
        cases h
        exact hs hm
      rw [or_iff_left hno]
      simp
    · next hm =>
      split
      · next ha =>
        have hyes : some source = some s ∧ d.Asks none ∧ ¬ d.Asks (some s) ↔ s = source := by
          constructor
          · rintro ⟨h, -⟩
            exact (Option.some.inj h).symm
          · rintro rfl
            exact ⟨rfl, ha, hm⟩
        rw [hyes]
        simp [or_comm]
      · next ha =>
        have hno : ¬ (some source = some s ∧ d.Asks none ∧ ¬ d.Asks (some s)) := fun h => ha h.2.1
        rw [or_iff_left hno]
        simp

theorem blocked_join (h : d.blocked = ∅) : (d.join source).blocked = ∅ :=
  OrderedSet.ext fun s => by simp [mem_blocked_join, h]

theorem blocked_leave (hs : d.Asks source) (h : d.blocked = ∅) :
    (d.leave source).blocked = ∅ := by
  apply OrderedSet.ext
  intro s
  rw [mem_blocked_leave, h]
  refine iff_of_false ?_ (OrderedSet.not_mem_empty s)
  rintro ⟨-, hb | ⟨rfl, -, hno⟩⟩
  · exact OrderedSet.not_mem_empty s hb
  · exact hno hs

/-- There is a filter exactly where something is asked for. -/
theorem filter?_eq_none_iff {group : Address} :
    d.filter? group = none ↔ ∀ source, ¬ d.Asks source := by
  unfold filter?
  split
  · next h => exact iff_of_false (by simp) fun hn => hn none h
  split
  · next ha he =>
    apply iff_of_true rfl
    intro source hs
    cases source with
    | none => exact ha hs
    | some source => exact OrderedSet.isEmpty_iff.mp he source hs
  · next he =>
    obtain ⟨source, hs⟩ := OrderedSet.isEmpty_eq_false_iff.mp (by simpa using he)
    exact iff_of_false (by simp) fun hn => hn (some source) hs

theorem exists_asks {group : Address} {f : Filter} (h : d.filter? group = some f) :
    ∃ source, d.Asks source := by
  by_contra hno
  rw [filter?_eq_none_iff.mpr (not_exists.mp hno)] at h
  cases h

theorem filter?_of_asks_any {group : Address} (h : d.Asks none) (hb : d.blocked = ∅) :
    d.filter? group = some ⟨group, .excluding, ∅⟩ := by
  have ha : d.anySource = true := h
  have hd : (∅ : Sources).diff d.joined = ∅ := OrderedSet.ext fun a => by simp
  rw [filter?, if_pos ha, hb, hd]

theorem filter?_of_asks_one {group : Address} (h : ¬ d.Asks none) (hs : d.Asks source) :
    d.filter? group = some ⟨group, .including, d.joined⟩ := by
  cases source with
  | none => exact absurd hs h
  | some source =>
    have he : d.joined.isEmpty = false := OrderedSet.isEmpty_eq_false_iff.mpr ⟨source, hs⟩
    have ha : ¬ d.anySource = true := h
    rw [filter?, if_neg ha, he]
    rfl

/-! ## The filter -/

theorem group_of_filter? {group : Address} {f : Filter} (h : d.filter? group = some f) :
    f.group = group := by
  unfold filter? at h
  split at h
  · cases h; rfl
  split at h <;> cases h
  rfl

/-- A source passes when it is asked for by itself, or any source is and it is not blocked. -/
theorem passes_iff {group s : Address} :
    (∃ f, d.filter? group = some f ∧ f.passes s = true) ↔
      d.Asks (some s) ∨ d.Asks none ∧ s ∉ d.blocked := by
  by_cases ha : d.Asks none
  · have hany : d.anySource = true := ha
    simp only [filter?, if_pos hany, Option.some.injEq, exists_eq_left', Filter.passes,
      decide_eq_true_eq, OrderedSet.mem_diff, not_and_or, not_not, ha, true_and]
    exact or_comm
  · simp only [ha, false_and, or_false]
    constructor
    · rintro ⟨f, hf, hp⟩
      by_contra hs
      have hany : ¬ d.anySource = true := ha
      simp only [filter?, if_neg hany] at hf
      split at hf
      · cases hf
      · cases hf
        have hm : s ∈ d.joined := of_decide_eq_true hp
        exact hs hm
    · intro hs
      have hm : s ∈ d.joined := hs
      exact ⟨_, filter?_of_asks_one ha hs, decide_eq_true hm⟩

/-- The filter excludes exactly when any source is asked for. -/
theorem excluding_iff {group : Address} :
    (∃ f, d.filter? group = some f ∧ f.mode = .excluding) ↔ d.Asks none := by
  constructor
  · rintro ⟨f, hf, hm⟩
    by_contra ha
    have hany : ¬ d.anySource = true := ha
    simp only [filter?, if_neg hany] at hf
    split at hf <;> cases hf
    cases hm
  · intro ha
    have hany : d.anySource = true := ha
    exact ⟨_, if_pos hany, rfl⟩

/-- A filter that includes sources includes some. -/
theorem nonempty_of_including {group : Address} {f : Filter} (h : d.filter? group = some f)
    (hm : f.mode = .including) : f.sources.isEmpty = false := by
  unfold filter? at h
  split at h
  · cases h
    cases hm
  split at h
  · cases h
  · next he =>
    cases h
    simpa using he

end Demand

namespace Reporter

/-- What is asked of a group. -/
def demand (r : Reporter) (group : Address) : Demand := (r.demands.get? group).getD {}

theorem filter?_eq_demand (r : Reporter) (group : Address) :
    r.filter? group = (r.demand group).filter? group := by
  rw [filter?, demand]
  cases r.demands.get? group <;> rfl

theorem demand_setDemand (r : Reporter) (group : Address) (new : Option Demand)
    (other : Address) :
    (r.setDemand group new).demand other =
      if other = group then new.getD {} else r.demand other := by
  rw [demand, setDemand, OrderedMap.get?_set]
  split <;> rfl

theorem SameDemands.demand {r r' : Reporter} (h : SameDemands r r') (group : Address) :
    r'.demand group = r.demand group := by
  rw [Reporter.demand, Reporter.demand, h.demands]

end Reporter

end MulticastTunnel.Membership
