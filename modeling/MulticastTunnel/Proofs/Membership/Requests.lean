import MulticastTunnel.Proofs.Membership.Demand
import MulticastTunnel.Proofs.Membership.Refinement

/-!
# Reception by history

Which sources of a group are received, told by the calls that were made and not by
the sets that a reporter keeps. A source is received when it was asked for by
itself and not left since. While any source is asked for, every source is received
but those that were left, and not joined again, since that request was newly made.
-/

namespace MulticastTunnel.Membership

open Ordered

/-- A call that asks for traffic, or takes requests back. -/
inductive Call
  | join (group : Address) (source : Option Address)
  | leave (group : Address) (source : Option Address)
  | leaveAll
deriving DecidableEq

/-! ## Requests in a history -/

/-- The call takes back what was asked of the group, for any source or for one. -/
def Call.Ends (group : Address) (source : Option Address) (c : Call) : Prop :=
  c = .leave group source ∨ c = .leaveAll

instance (group : Address) (source : Option Address) (c : Call) :
    Decidable (c.Ends group source) := inferInstanceAs (Decidable (_ ∨ _))

/-- The group was joined, for any source or for one, and that was not taken back
since. Here and below the latest call stands first. -/
def Held (group : Address) (source : Option Address) (calls : List Call) : Prop :=
  ∃ later earlier, calls = later ++ .join group source :: earlier ∧
    ∀ c ∈ later, ¬ c.Ends group source

/-- Any source of the group is asked for, and since that request was newly made the
source was left at a moment when it was not asked for by itself, and was not joined
after that. -/
def Blocked (group source : Address) (calls : List Call) : Prop :=
  ∃ since before, calls = since ++ .join group none :: before ∧
    ¬ Held group none before ∧ (∀ c ∈ since, ¬ c.Ends group none) ∧
    ∃ later earlier, since = later ++ .leave group (some source) :: earlier ∧
      ¬ Held group (some source) (earlier ++ .join group none :: before) ∧
      .join group (some source) ∉ later

section History

variable {group s : Address} {source : Option Address} {c : Call} {calls : List Call}

theorem not_held_nil : ¬ Held group source [] := by
  rintro ⟨later, earlier, heq, -⟩
  simp at heq

/-- What one more call does to a request. -/
theorem held_cons : Held group source (c :: calls) ↔
    c = .join group source ∨ Held group source calls ∧ ¬ c.Ends group source := by
  constructor
  · rintro ⟨later, earlier, heq, hlater⟩
    cases later with
    | nil => exact .inl (List.cons.inj heq).1
    | cons d later =>
      obtain ⟨rfl, rfl⟩ := List.cons.inj heq
      obtain ⟨hd, hlater⟩ := List.forall_mem_cons.mp hlater
      exact .inr ⟨⟨later, earlier, rfl, hlater⟩, hd⟩
  · rintro (rfl | ⟨⟨later, earlier, rfl, hlater⟩, hc⟩)
    · exact ⟨[], calls, rfl, fun _ hm => by cases hm⟩
    · exact ⟨c :: later, earlier, rfl, List.forall_mem_cons.mpr ⟨hc, hlater⟩⟩

theorem not_ends_join : ¬ (Call.join group source).Ends group source := by simp [Call.Ends]

/-- A request that stands was newly made at some time. -/
theorem Held.acquired (h : Held group source calls) :
    ∃ since before, calls = since ++ .join group source :: before ∧
      ¬ Held group source before ∧ ∀ c ∈ since, ¬ c.Ends group source := by
  induction calls with
  | nil => exact absurd h not_held_nil
  | cons c calls ih =>
    by_cases hheld : Held group source calls
    · obtain ⟨since, before, rfl, hbefore, hsince⟩ := ih hheld
      have hc : ¬ c.Ends group source := by
        rcases held_cons.mp h with rfl | ⟨-, hc⟩
        · exact not_ends_join
        · exact hc
      exact ⟨c :: since, before, rfl, hbefore, List.forall_mem_cons.mpr ⟨hc, hsince⟩⟩
    · rcases held_cons.mp h with rfl | ⟨hheld', -⟩
      · exact ⟨[], calls, rfl, hheld, fun _ hm => by cases hm⟩
      · exact absurd hheld' hheld

theorem Blocked.held (h : Blocked group s calls) : Held group none calls := by
  obtain ⟨since, before, rfl, -, hsince, -⟩ := h
  exact ⟨since, before, rfl, hsince⟩

theorem not_blocked_nil : ¬ Blocked group s [] := fun h => not_held_nil h.held

/-- What one more call does to a source that is blocked, or is not. -/
theorem blocked_cons : Blocked group s (c :: calls) ↔
    ¬ c.Ends group none ∧ c ≠ .join group (some s) ∧
      (Blocked group s calls ∨
        c = .leave group (some s) ∧ Held group none calls ∧ ¬ Held group (some s) calls) := by
  constructor
  · rintro ⟨since, before, heq, hbefore, hsince, later, earlier, rfl, hleft, hlater⟩
    cases later with
    | nil =>
      -- The last call is the one that left the source.
      obtain ⟨rfl, rfl⟩ := List.cons.inj heq
      obtain ⟨hc, hearlier⟩ := List.forall_mem_cons.mp hsince
      exact ⟨hc, by simp, .inr ⟨rfl, ⟨earlier, before, rfl, hearlier⟩, hleft⟩⟩
    | cons d later =>
      obtain ⟨rfl, rfl⟩ := List.cons.inj heq
      obtain ⟨hc, hsince⟩ := List.forall_mem_cons.mp hsince
      exact ⟨hc, Ne.symm (List.ne_of_not_mem_cons hlater),
        .inl ⟨_, before, rfl, hbefore, hsince, later, earlier, rfl, hleft,
          List.not_mem_of_not_mem_cons hlater⟩⟩
  · rintro ⟨hc, hne, ⟨since, before, rfl, hbefore, hsince, later, earlier, rfl, hleft, hlater⟩ |
      ⟨rfl, hheld, hleft⟩⟩
    · exact ⟨c :: (later ++ .leave group (some s) :: earlier), before, rfl, hbefore,
        List.forall_mem_cons.mpr ⟨hc, hsince⟩, c :: later, earlier, rfl, hleft,
        List.not_mem_cons_of_ne_of_not_mem (Ne.symm hne) hlater⟩
    · -- The request may have been repeated, and counts from when it was newly made.
      obtain ⟨since, before, rfl, hbefore, hsince⟩ := hheld.acquired
      exact ⟨_ :: since, before, rfl, hbefore, List.forall_mem_cons.mpr ⟨hc, hsince⟩, [], since,
        rfl, hleft, List.not_mem_nil⟩

instance decidableHeld (group : Address) (source : Option Address) :
    (calls : List Call) → Decidable (Held group source calls)
  | [] => .isFalse not_held_nil
  | _ :: calls =>
    have := decidableHeld group source calls
    decidable_of_iff _ held_cons.symm

instance decidableBlocked (group s : Address) :
    (calls : List Call) → Decidable (Blocked group s calls)
  | [] => .isFalse not_blocked_nil
  | _ :: calls =>
    have := decidableBlocked group s calls
    decidable_of_iff _ blocked_cons.symm

/-! ## A demand and its history -/

/-- The demand asks for what the calls ask of the group, and blocks what they block. -/
structure Demand.Recalls (d : Demand) (group : Address) (calls : List Call) : Prop where
  asks : ∀ source, d.Asks source ↔ Held group source calls
  blocked : ∀ s, s ∈ d.blocked ↔ Blocked group s calls

namespace Demand

variable {d : Demand}

/-- Nothing is asked for where nothing was, or where all was taken back. -/
theorem recalls_empty (h : ∀ source, ¬ Held group source calls) :
    ({} : Demand).Recalls group calls where
  asks source := iff_of_false not_asks_empty (h source)
  blocked s := iff_of_false (OrderedSet.not_mem_empty s) fun hb => h none hb.held

theorem Recalls.join (h : d.Recalls group calls) (source : Option Address) :
    (d.join source).Recalls group (.join group source :: calls) where
  asks other := by
    rw [asks_join, h.asks, held_cons]
    simp [Call.Ends, eq_comm]
  blocked s := by
    rw [mem_blocked_join, h.blocked, blocked_cons]
    simp [Call.Ends, and_comm]

theorem Recalls.leave (h : d.Recalls group calls) (source : Option Address) :
    (d.leave source).Recalls group (.leave group source :: calls) where
  asks other := by
    rw [asks_leave, h.asks, held_cons]
    simp [Call.Ends, eq_comm]
  blocked s := by
    rw [mem_blocked_leave, h.blocked, h.asks, h.asks, blocked_cons]
    simp [Call.Ends]

/-- Calls for other groups do not matter. -/
theorem Recalls.frame (h : d.Recalls group calls) {other : Address} (hne : other ≠ group)
    (hc : c = .join other source ∨ c = .leave other source) :
    d.Recalls group (c :: calls) where
  asks source := by
    rw [h.asks, held_cons]
    rcases hc with rfl | rfl <;> simp [Call.Ends, hne]
  blocked s := by
    rw [h.blocked, blocked_cons]
    rcases hc with rfl | rfl <;> simp [Call.Ends, hne]

/-- A demand that asks for nothing can be dropped. -/
theorem Recalls.drop (h : d.Recalls group calls) (hnone : d.filter? group = none) :
    ({} : Demand).Recalls group calls :=
  recalls_empty fun source hheld =>
    filter?_eq_none_iff.mp hnone source ((h.asks source).mpr hheld)

end Demand

end History

/-! ## A reporter and its history -/

namespace Reporter

variable {ω : Type} {r : Reporter} {calls : List Call}

/-- The reporter keeps for every group what the calls ask of it, and no demand that
asks for nothing. -/
structure Recalls (r : Reporter) (calls : List Call) : Prop where
  opened : r.closed = false
  demands : ∀ group, (r.demand group).Recalls group calls
  wanted : ∀ group d, r.demands.get? group = some d → ∃ source, d.Asks source

theorem recalls_nothing (family : Family) (settings : ReporterSettings) :
    Recalls { family, settings } [] where
  opened := rfl
  demands _ := Demand.recalls_empty fun _ => not_held_nil
  wanted _ _ h := by cases h

theorem Recalls.of_same {r' : Reporter} (h : r.Recalls calls) (hs : SameDemands r r') :
    r'.Recalls calls where
  opened := hs.closed.trans h.opened
  demands group := by
    rw [hs.demand]
    exact h.demands group
  wanted group d hd := by
    rw [hs.demands] at hd
    exact h.wanted group d hd

/-- A call for one group changes the demand for it. -/
theorem Recalls.set {r' : Reporter} {group : Address} {source : Option Address} {c : Call}
    (h : r.Recalls calls) (new : Option Demand) (hr : SameDemands (r.setDemand group new) r')
    (hc : c = .join group source ∨ c = .leave group source)
    (hnew : (new.getD {}).Recalls group (c :: calls))
    (hw : ∀ d, new = some d → ∃ source, d.Asks source) : r'.Recalls (c :: calls) := by
  refine Recalls.of_same ?_ hr
  constructor
  · exact h.opened
  · intro g
    rw [demand_setDemand]
    split
    · next hg => exact hg ▸ hnew
    · next hg => exact (h.demands g).frame (Ne.symm hg) hc
  · intro g d hd
    rw [setDemand, OrderedMap.get?_set] at hd
    split at hd
    · exact hw d hd
    · exact h.wanted g d hd

/-- The call that is made, unless it is refused because of its addresses. -/
def call? (r : Reporter) : Act → Option Call
  | .join group source =>
    if r.validate group source = .ok () then some (.join group source) else none
  | .leave group source =>
    if r.validate group source = .ok () then some (.leave group source) else none
  | .leaveAll => some .leaveAll
  | .query .. | .alarm _ => none

section Steps

variable (o : Outlet ω) (now : Nat) (group : Address) (source : Option Address)

/-- A join that is reported is entered. -/
theorem Recalls.join (h : r.Recalls calls) (w : ω × Log)
    (hsent : ∀ report ∈ (r.join o.logged now group source w).2.2.2, report.2 = .ok .sent) :
    (r.join o.logged now group source w).2.1.Recalls
      ((r.call? (.join group source)).toList ++ calls) := by
  rcases join_eq o.logged now group source r w with ⟨e, -, hc | hv, heq⟩ |
    ⟨demand, hdemand, hv, -, report, hrep, ⟨e, he, heq⟩ | ⟨-, heq⟩⟩
  · rw [h.opened] at hc
    cases hc
  · rw [heq, call?, if_neg (by simp [hv])]
    exact h
  · -- The report that failed would be in the log.
    rw [heq] at hsent
    rcases reportChange_eq o.logged now group (r.filter? group) (demand.filter? group)
      (r.setDemand group (some demand)) w with ⟨-, hquiet⟩ | ⟨change, p, v, -, hsend, -, -⟩
    · rw [hrep, hquiet] at he
      cases he
    · rw [hrep, hsend] at he hsent
      obtain ⟨failed, hmem, hfailed⟩ := sendRecords_send he
      rw [hsent failed hmem] at hfailed
      cases hfailed
  · obtain ⟨p, n, hr, -⟩ := reportChange_spec o.logged now group (r.filter? group)
      (demand.filter? group) (r.setDemand group (some demand)) w
    rw [heq, hrep, hr, call?, if_pos hv]
    subst hdemand
    refine h.set (some _) ⟨rfl, rfl, rfl, rfl⟩ (.inl rfl) ((h.demands group).join source) ?_
    rintro d ⟨⟩
    exact ⟨source, Demand.asks_join.mpr (.inl rfl)⟩

theorem Recalls.leave (h : r.Recalls calls) (w : ω) :
    (r.leave o now group source w).2.1.Recalls
      ((r.call? (.leave group source)).toList ++ calls) := by
  rcases leave_eq o now group source r w with ⟨heq, -, hc | hnone | ⟨e, hv⟩⟩ |
    ⟨held, left, hheld, hv, -, hleft, heq⟩
  · rw [h.opened] at hc
    cases hc
  · rw [heq, call?]
    split
    · -- Nothing was asked of the group, and nothing is.
      have hd := (h.demands group).leave source
      rw [demand, hnone, Option.getD_none, Demand.leave_empty] at hd
      refine h.set none ?_ (.inr rfl) hd fun _ hd => by cases hd
      have hset := OrderedMap.set_get? r.demands group
      rw [hnone] at hset
      exact ⟨hset.symm, rfl, rfl, rfl⟩
    · exact h
  · rw [heq, call?, if_neg (by simp [hv])]
    exact h
  · obtain ⟨p, n, hr, -⟩ := reportChange_spec o now group (r.filter? group)
      ((held.leave source).filter? group) (r.setDemand group left) w
    rw [heq, hr, call?, if_pos hv]
    have hd := (h.demands group).leave source
    rw [demand, hheld, Option.getD_some] at hd
    cases hf : (held.leave source).filter? group with
    | none =>
      rw [hf, Option.map_none] at hleft
      subst hleft
      exact h.set none ⟨rfl, rfl, rfl, rfl⟩ (.inr rfl) (hd.drop hf) fun _ hd => by cases hd
    | some f =>
      rw [hf, Option.map_some] at hleft
      subst hleft
      refine h.set (some (held.leave source)) ⟨rfl, rfl, rfl, rfl⟩ (.inr rfl) hd ?_
      rintro d ⟨⟩
      exact Demand.exists_asks hf

theorem Recalls.leaveAll (h : r.Recalls calls) (w : ω) :
    (r.leaveAll o now w).2.1.Recalls (.leaveAll :: calls) := by
  obtain ⟨hclosed, hdemands⟩ := dropAll_spec o now r.demands.keys r w
  have hnone : ∀ group, (r.leaveAll o now w).2.1.demands.get? group = none := by
    intro group
    rw [Reporter.leaveAll, hdemands]
    split
    · rfl
    · next hg =>
      exact Option.eq_none_iff_forall_ne_some.mpr fun d hd => hg (OrderedMap.mem_keys.mpr ⟨d, hd⟩)
  constructor
  · exact hclosed.trans h.opened
  · intro group
    rw [demand, hnone]
    refine Demand.recalls_empty fun source hheld => ?_
    rcases held_cons.mp hheld with heq | ⟨-, hends⟩
    · cases heq
    · exact hends (.inr rfl)
  · intro group d hd
    rw [hnone] at hd
    cases hd

theorem Recalls.perform (h : r.Recalls calls) (act : Act) (w : ω × Log)
    (hsent : ∀ report ∈ (r.perform o.logged now act w).2.2.2, report.2 = .ok .sent) :
    (r.perform o.logged now act w).2.1.Recalls ((r.call? act).toList ++ calls) := by
  cases act with
  | join group source => exact h.join o now group source w hsent
  | leave group source => exact h.leave o.logged now group source w
  | leaveAll => exact h.leaveAll o.logged now w
  | query chance q => exact h.of_same (onQuery_cases o.logged now chance q r w).sameDemands
  | alarm alarm => exact h.of_same (sameDemands_fire o.logged now alarm r w)

end Steps

/-- Traffic of the source is received. -/
def Passes (r : Reporter) (group source : Address) : Prop :=
  ∃ f, r.filter? group = some f ∧ f.passes source = true

theorem Recalls.passes_iff (h : r.Recalls calls) (group source : Address) :
    r.Passes group source ↔
      Held group (some source) calls ∨ Held group none calls ∧ ¬ Blocked group source calls := by
  have hd := h.demands group
  rw [Passes, filter?_eq_demand, Demand.passes_iff, hd.asks, hd.asks, hd.blocked]

theorem Recalls.excluding_iff (h : r.Recalls calls) (group : Address) :
    (∃ f, r.filter? group = some f ∧ f.mode = .excluding) ↔ Held group none calls := by
  rw [filter?_eq_demand, Demand.excluding_iff, (h.demands group).asks]

/-- Every group that is kept has a filter. -/
theorem Recalls.groupCount_eq (h : r.Recalls calls) : r.groupCount = r.filters.length := by
  refine (List.filterMap_length_eq_length.mpr fun e he => ?_).symm
  obtain ⟨source, hask⟩ := h.wanted e.1 e.2 (OrderedMap.get?_eq_some_iff.mpr he)
  rw [Option.isSome_iff_ne_none]
  exact fun hnone => Demand.filter?_eq_none_iff.mp hnone source hask

/-! ## Answers to queries for sources -/

/-- The records list the queried sources that are received, in one record that
includes them, and there is none when there are no such sources. -/
def Tells (r : Reporter) (group : Address) (queried : Sources) (records : List GroupRecord) :
    Prop :=
  ∃ received : Sources, (∀ s, s ∈ received ↔ s ∈ queried ∧ r.Passes group s) ∧
    records = if received.isEmpty then [] else [.ofSet .modeIsInclude group received]

theorem tells_groupRecords (r : Reporter) (group : Address) (queried : Sources) :
    r.Tells group queried (r.groupRecords group (some queried)) := by
  unfold groupRecords
  cases hf : r.filter? group with
  | none =>
    refine ⟨∅, fun s => iff_of_false (OrderedSet.not_mem_empty s) ?_, rfl⟩
    rintro ⟨-, f, hf', -⟩
    rw [hf] at hf'
    cases hf'
  | some f =>
    have hgroup : f.group = group := by
      rw [filter?_eq_demand] at hf
      exact Demand.group_of_filter? hf
    refine ⟨queried.filter f.passes, fun s => ?_, ?_⟩
    · simp [Passes, hf]
    · simp only [Filter.response, hgroup]
      split <;> rfl

/-- A query for sources is answered at once if that is how the reporter answers. -/
theorem onQuery_immediate {o : Outlet ω} {now chance : Nat} {q : Query} {group : Address}
    (hopen : r.closed = false) (htiming : r.settings.timing = .immediate)
    (hgroup : q.group = some group) (hsources : q.sources.isEmpty = false) (w : ω) :
    ∃ r', SameDemands r r' ∧ r.onQuery o now chance q w =
      r'.sendRecords o (r.groupRecords group (some (.ofList q.sources))) w := by
  refine ⟨{ r with
    robustness := if q.robustness = 0 then r.robustness else q.robustness
    queryInterval := if q.queryInterval = 0 then r.queryInterval else q.queryInterval },
    ⟨rfl, rfl, rfl, rfl⟩, ?_⟩
  simp only [onQuery, hopen, Bool.false_eq_true, if_false, htiming, hgroup, hsources]
  rfl

namespace Run

/-- The calls made before the operation with this number, the latest first. -/
def history (run : Run ω) : Nat → List Call
  | 0 => []
  | n + 1 => ((run.state n).1.call? (run.act n).2).toList ++ run.history n

theorem recalls (run : Run ω) (n : Nat)
    (hsent : ∀ report ∈ (run.state n).2.2, report.2 = .ok .sent) :
    (run.state n).1.Recalls (run.history n) := by
  induction n with
  | zero => exact recalls_nothing run.family run.settings
  | succ n ih =>
    obtain ⟨groups, h⟩ := touches_perform (fun _ => true) (run.kindred n) (run.outlet n)
      (run.act n).1 (run.act n).2 (run.state n).2
    exact (ih fun report hm => hsent report (h.grows.mem hm)).perform (run.outlet n)
      (run.act n).1 (run.act n).2 (run.state n).2 hsent

/-- **Reception by history**: while every report is sent, a source passes the filter
of a group exactly when it is asked for by itself, or any source is and it was not
left since. The filter excludes sources exactly while any source is asked for, never
includes none, and there is one for every group that is counted. An answer for
sources, at once or when its timer runs out, tells which of them pass. -/
theorem reception_recalls (run : Run ω) (n : Nat)
    (hsent : ∀ report ∈ (run.state n).2.2, report.2 = .ok .sent) (group : Address) :
    let r := (run.state n).1
    let calls := run.history n
    (∀ source, r.Passes group source ↔
      Held group (some source) calls ∨ Held group none calls ∧ ¬ Blocked group source calls) ∧
    ((∃ f, r.filter? group = some f ∧ f.mode = .excluding) ↔ Held group none calls) ∧
    (∀ f, r.filter? group = some f → f.mode = .including → f.sources.isEmpty = false) ∧
    r.groupCount = r.filters.length ∧
    (∀ (o : Outlet ω) now chance q w, r.settings.timing = .immediate → q.group = some group →
      q.sources.isEmpty = false →
      ∃ r' records, SameDemands r r' ∧ r.Tells group (.ofList q.sources) records ∧
        r.onQuery o now chance q w = r'.sendRecords o records w) ∧
    ∀ (o : Outlet ω) now answer queried w, r.groupAnswers.get? group = some answer →
      answer.sources = some queried →
      ∃ r' records, SameDemands r r' ∧ r.Tells group queried records ∧
        r.fire o now (.groupAnswer group) w = (r'.sendRecords o records w).2 := by
  intro r calls
  have h := run.recalls n hsent
  refine ⟨h.passes_iff group, h.excluding_iff group, fun f hf hm => ?_, h.groupCount_eq,
    fun o now chance q w htiming hgroup hsources => ?_,
    fun o now answer queried w hanswer hqueried => ?_⟩
  · rw [filter?_eq_demand] at hf
    exact Demand.nonempty_of_including hf hm
  · obtain ⟨r', hsame, heq⟩ := onQuery_immediate h.opened htiming hgroup hsources w
    exact ⟨r', _, hsame, r.tells_groupRecords group _, heq⟩
  · refine ⟨{ r with groupAnswers := r.groupAnswers.erase group }, _, ⟨rfl, rfl, rfl, rfl⟩,
      r.tells_groupRecords group queried, ?_⟩
    simp only [fire, hanswer, hqueried]
    rfl

/-- A group is joined for any source, one source is left, and joined again. -/
def blocking : Run Unit :=
  { repeated with
    act := fun n =>
      match n with
      | 0 => (0, .join (.v4 #v[232, 1, 2, 1]) none)
      | 1 => (1, .leave (.v4 #v[232, 1, 2, 1]) (some (.v4 #v[192, 0, 2, 7])))
      | _ => (2, .join (.v4 #v[232, 1, 2, 1]) (some (.v4 #v[192, 0, 2, 7]))) }

/-- The source is blocked until it is joined again, and the others are not. -/
theorem blocking_recalls :
    ¬ (blocking.state 2).1.Passes (.v4 #v[232, 1, 2, 1]) (.v4 #v[192, 0, 2, 7]) ∧
      (blocking.state 2).1.Passes (.v4 #v[232, 1, 2, 1]) (.v4 #v[192, 0, 2, 8]) ∧
      (blocking.state 3).1.Passes (.v4 #v[232, 1, 2, 1]) (.v4 #v[192, 0, 2, 7]) := by
  have h₂ := (reception_recalls blocking 2 (by decide +kernel) (.v4 #v[232, 1, 2, 1])).1
  have h₃ := (reception_recalls blocking 3 (by decide +kernel) (.v4 #v[232, 1, 2, 1])).1
  rw [h₂, h₂, h₃]
  decide +kernel

end Run

end Reporter

end MulticastTunnel.Membership
