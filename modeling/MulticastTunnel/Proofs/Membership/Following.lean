import MulticastTunnel.Proofs.Membership.Relay

/-!
# Following a reporter

What every operation of a reporter does to the sights of its groups: it touches
those that it reports changes of and no others. From this, over a whole run, the
relay follows: its view of a group is the filter if every report is delivered,
and otherwise it becomes the filter with the next report of a pending change.
-/

namespace MulticastTunnel.Membership

open Ordered

variable {ω : Type} {arrives : Nat → Bool}

namespace Reporter

variable {r r' : Reporter} {group : Address} {groups : List Address} {delivered : Prop}
  {s s' s'' : Reporter × ω × Log}

/-- What there is to see of a group. -/
def seen (arrives : Nat → Bool) (s : Reporter × ω × Log) (group : Address) : Sight :=
  s.1.sight group (heard arrives s.2.2)

/-- An operation touches some groups, whose sights follow, and leaves the sights
of the others. -/
structure Touches (arrives : Nat → Bool) (groups : List Address) (delivered : Prop)
    (s s' : Reporter × ω × Log) : Prop where
  kindred : s'.1.Kindred
  family : s'.1.family = s.1.family
  grows : s.2.2 <:+ s'.2.2
  follows : ∀ group ∈ groups, (seen arrives s group).Follows delivered (seen arrives s' group)
  frame : ∀ group ∉ groups, seen arrives s' group = seen arrives s group

namespace Touches

theorem follows_all (h : Touches arrives groups delivered s s') (group : Address) :
    (seen arrives s group).Follows delivered (seen arrives s' group) := by
  by_cases hm : group ∈ groups
  · exact h.follows group hm
  · rw [h.frame group hm]
    exact .refl _ _

theorem refl (arrives : Nat → Bool) (groups : List Address) (delivered : Prop)
    (h : s.1.Kindred) : Touches arrives groups delivered s s where
  kindred := h
  family := rfl
  grows := List.suffix_refl _
  follows _ _ := .refl _ _
  frame _ _ := rfl

/-- Operations on different groups, one after the other. -/
theorem trans {groups' : List Address} {first rest : Prop}
    (h : Touches arrives groups first s s') (h' : Touches arrives groups' rest s' s'')
    (hdis : ∀ group ∈ groups, group ∉ groups') (hd : delivered → first ∧ rest) :
    Touches arrives (groups ++ groups') delivered s s'' where
  kindred := h'.kindred
  family := h'.family.trans h.family
  grows := h.grows.trans h'.grows
  follows group hm := by
    by_cases hg : group ∈ groups
    · rw [h'.frame group (hdis group hg)]
      exact (h.follows group hg).imp fun hdel => (hd hdel).1
    · rw [← h.frame group hg]
      exact (h'.follows_all group).imp fun hdel => (hd hdel).2
  frame group hm := by
    rw [List.mem_append, not_or] at hm
    rw [h'.frame group hm.2, h.frame group hm.1]

end Touches

/-- What is seen stays, so nothing is touched. -/
theorem touches_of_seen (h : s'.1.Kindred) (hf : s'.1.family = s.1.family)
    (hgrows : s.2.2 <:+ s'.2.2) (hsame : ∀ group, seen arrives s' group = seen arrives s group) :
    Touches arrives groups delivered s s' := by
  refine ⟨h, hf, hgrows, fun group _ => ?_, fun group _ => hsame group⟩
  rw [hsame]
  exact .refl _ _

/-- Only demands, changes and the log are to be seen. -/
theorem touches_of_same {w w' : ω × Log} (h : r.Kindred) (hf : r'.family = r.family)
    (hd : r'.demands = r.demands) (hc : r'.changes = r.changes) (hlog : w'.2 = w.2) :
    Touches arrives groups delivered (r, w) (r', w') := by
  refine touches_of_seen (h.of_eq hf hd hc) hf ?_ ?_
  · simp only [hlog, List.suffix_refl]
  · intro group
    rw [seen, seen, hlog]
    exact sight_congr (by rw [hd]) (by rw [hc])

/-! ## Reports -/

/-- A report that tells of no change touches nothing. -/
theorem touches_sendRecords {records : List GroupRecord} (h : r.Kindred)
    (hs : Silent r.family records) (o : Outlet ω) (w : ω × Log) :
    Touches arrives [] delivered (r, w) (r.sendRecords o.logged records w).2 := by
  obtain ⟨n, hr, -⟩ := sendRecords_spec o.logged records r w
  obtain ⟨hgrows, hheard⟩ := sendRecords_heard arrives o records r w
  apply touches_of_seen (by rw [hr]; exact h.of_eq rfl rfl rfl) (by rw [hr]) hgrows
  intro group
  rw [seen, seen, sight_sendRecords]
  rcases hheard with ⟨source, p, hp, -, hcons⟩ | ⟨hsame, -⟩
  · rw [hcons, sight_cons_of_not_tellsChange (hs source p hp group)]
  · rw [hsame]

/-- A report of a change of a group touches the group. The change has to lead from
the view to the filter that is reported, and to be the one that is pending, if any
is. -/
theorem touches_sendChange {m : Reporter} {c : StateChange} {w v : ω × Log} (o : Outlet ω)
    (hlog : v.2 = w.2) (hm : m.Kindred) (hf : m.family = r.family) (hg : group.family = m.family)
    (hc : c.Kindred m.family)
    (hframe : ∀ other, other ≠ group → m.demands.get? other = r.demands.get? other ∧
      m.changes.get? other = r.changes.get? other)
    (hready : (seen arrives (r, w) group).Ready →
      c.applyTo (seen arrives (r, w) group).view = StateChange.parts (m.filter? group))
    (hp : ∀ q, m.changes.get? group = some q → q.change = c)
    (hdel : delivered → Delivered arrives (m.sendRecords o.logged (c.records group) v).2.2.2
      (m.sendRecords o.logged (c.records group) v).1 ∨ m.filter? group = r.filter? group) :
    Touches arrives [group] delivered (r, w) (m.sendRecords o.logged (c.records group) v).2 := by
  obtain ⟨n, hr, -⟩ := sendRecords_spec o.logged (c.records group) m v
  obtain ⟨hgrows, hheard⟩ := sendRecords_heard arrives o (c.records group) m v
  rw [hlog] at hgrows hheard
  have hrecords : ∀ source p, Report.toPacket ⟨m.family, c.records group⟩ source = .ok p →
      recordsOf p = c.records group := fun _ _ h =>
    recordsOf_of_toPacket (hc.records hg) h
  refine ⟨?_, ?_, hgrows, ?_, ?_⟩
  · rw [hr]
    exact hm.of_eq rfl rfl rfl
  · rw [hr]
    exact hf
  · intro other ho
    cases List.mem_singleton.mp ho
    refine Sight.follows_of_report (c := c) ?_ ?_ ?_
    · intro hready'
      rw [hready hready', seen, sight_sendRecords]
      rfl
    · intro c' hc'
      rw [seen, sight_sendRecords] at hc'
      obtain ⟨q, hq, rfl⟩ := Option.map_eq_some_iff.mp hc'
      exact hp q hq
    · rw [seen, sight_sendRecords]
      rcases hheard with ⟨source, p, htp, -, hcons⟩ | ⟨hsame, hempty⟩
      · refine .inl ?_
        rw [hcons, hrecords source p htp]
        exact StateChange.hear_records c group _
      · refine .inr ⟨by rw [hsame]; rfl, by rw [hsame]; rfl, fun hd => ?_⟩
        rcases hdel hd with hd | hsamefilter
        · rw [← StateChange.hear_records c group, (hempty hd).1]
          exact .inl rfl
        · exact .inr (congrArg StateChange.parts hsamefilter)
  · intro other ho
    have hne : other ≠ group := fun he => ho (List.mem_singleton.mpr he)
    obtain ⟨hd, hch⟩ := hframe other hne
    rw [seen, sight_sendRecords, seen]
    rcases hheard with ⟨source, p, htp, -, hcons⟩ | ⟨hsame, -⟩
    · have hquiet : tellsChange other (recordsOf p) = false := by
        rw [hrecords source p htp]
        refine not_tellsChange_of_ne fun record hrec he => hne ?_
        rw [← he, (StateChange.records_group hrec).1]
      rw [hcons, sight_cons_of_not_tellsChange hquiet]
      exact sight_congr hd hch
    · rw [hsame]
      exact sight_congr hd hch

/-! ## Changes -/

/-- The change that is noted takes a view that is ready to the new filter. -/
theorem applyTo_noted {change : StateChange} {new : Option Filter}
    {reports : List (List GroupRecord)}
    (hb : StateChange.between? (r.filter? group) new = some change)
    (hready : (r.sight group reports).Ready) :
    (r.noted group change new).applyTo (r.sight group reports).view = StateChange.parts new := by
  cases hc : r.changes.get? group with
  | none =>
    simp only [Sight.Ready, sight, hc, Option.map_none] at hready
    simp only [noted, hc, sight, hready]
    exact StateChange.applyTo_between? hb
  | some q =>
    simp only [Sight.Ready, sight, hc, Option.map_some] at hready
    simp only [noted, hc, sight]
    exact StateChange.applyTo_merge hready hb

theorem Kindred.noted {change : StateChange} {new : Option Filter} (h : r.Kindred)
    (hc : change.Kindred r.family)
    (hnew : Membership.Kindred r.family (StateChange.parts new).2) :
    (r.noted group change new).Kindred r.family := by
  cases hq : r.changes.get? group with
  | none =>
    simp only [Reporter.noted, hq]
    exact hc
  | some q =>
    simp only [Reporter.noted, hq]
    exact (h.changes group q hq).2.merge hc hnew

theorem filter?_setDemand (r : Reporter) (group : Address) (d : Option Demand) :
    (r.setDemand group d).filter? group = d.bind (·.filter? group) := by
  simp [filter?, setDemand, OrderedMap.get?_set]

/-- A report of a change that failed was not heard, and one that was delivered did
not fail. -/
theorem reportChange_heard (arrives : Nat → Bool) (o : Outlet ω) (now : Nat) (group : Address)
    (old new : Option Filter) (r : Reporter) (w : ω × Log) :
    w.2 <:+ (r.reportChange o.logged now group old new w).2.2.2 ∧
    ((r.reportChange o.logged now group old new w).1 = .ok () ∨
      heard arrives (r.reportChange o.logged now group old new w).2.2.2 = heard arrives w.2) ∧
    (Delivered arrives (r.reportChange o.logged now group old new w).2.2.2
      (r.reportChange o.logged now group old new w).1 →
        (r.reportChange o.logged now group old new w).1 = .ok ()) := by
  rcases reportChange_eq o.logged now group old new r w with
    ⟨-, heq⟩ | ⟨change, p, v, -, heq, -, hv⟩
  · rw [heq]
    exact ⟨List.suffix_refl _, .inl rfl, fun _ => rfl⟩
  · have hlog : v.2 = w.2 := hv.log
    obtain ⟨hgrows, hheard⟩ := sendRecords_heard arrives o
      ((r.noted group change new).records group) { r with changes := r.changes.set group p } v
    rw [heq]
    rw [hlog] at hgrows hheard
    refine ⟨hgrows, ?_, ?_⟩
    · rcases hheard with ⟨source, q, -, hok, -⟩ | ⟨hsame, -⟩
      · exact .inl hok
      · exact .inr hsame
    · intro hd
      rcases hheard with ⟨source, q, -, hok, -⟩ | ⟨-, hok⟩
      · exact hok
      · exact (hok hd).2

/-- Another demand for a group, and the report of what it changes. -/
theorem touches_reportChange {d : Option Demand} {new : Option Filter} (h : r.Kindred)
    (hg : group.family = r.family) (hd : ∀ d', d = some d' → d'.Kindred r.family)
    (hnew : d.bind (·.filter? group) = new) (o : Outlet ω) (now : Nat) (w : ω × Log) :
    Touches arrives [group]
      (Delivered arrives
        ((r.setDemand group d).reportChange o.logged now group (r.filter? group) new w).2.2.2
        ((r.setDemand group d).reportChange o.logged now group (r.filter? group) new w).1)
      (r, w) ((r.setDemand group d).reportChange o.logged now group (r.filter? group) new w).2 := by
  have hset : (r.setDemand group d).Kindred := h.setDemand hg hd
  have hfilter : (r.setDemand group d).filter? group = new := by
    rw [filter?_setDemand, hnew]
  have hdemands : ∀ other, other ≠ group →
      (r.setDemand group d).demands.get? other = r.demands.get? other := by
    intro other hne
    simp only [setDemand, OrderedMap.get?_set, if_neg hne]
  rcases reportChange_eq o.logged now group (r.filter? group) new (r.setDemand group d) w with
    ⟨hb, heq⟩ | ⟨change, p, v, hb, heq, hp, hv⟩
  · -- The filter stays as it was, whatever became of the demand.
    rw [heq]
    refine touches_of_seen hset rfl (List.suffix_refl _) ?_
    intro other
    by_cases ho : other = group
    · subst ho
      simp only [seen, sight, hfilter, StateChange.parts_eq_of_between? hb]
      rfl
    · exact sight_congr (hdemands other ho) rfl
  · have hlog : v.2 = w.2 := hv.log
    have hparts : Membership.Kindred r.family (StateChange.parts new).2 := by
      rw [← hfilter]
      exact hset.parts group
    have hnoted : ((r.setDemand group d).noted group change new).Kindred r.family :=
      h.noted (StateChange.kindred_between? (h.parts group) hparts hb) hparts
    rw [heq]
    refine touches_sendChange o hlog ?_ rfl hg hnoted (fun other ho => ?_) (fun hready => ?_)
      (fun q hq => ?_) .inl
    · exact hset.setChange hg fun q hq => by
        rw [hp q hq]
        exact hnoted
    · exact ⟨hdemands other ho, by simp only [setDemand, OrderedMap.get?_set, if_neg ho]⟩
    · show _ = StateChange.parts ((r.setDemand group d).filter? group)
      rw [hfilter]
      exact applyTo_noted (r := r) hb hready
    · simp only [OrderedMap.get?_set, if_true] at hq
      exact hp q hq

/-! ## Operations -/

theorem touches_join (h : r.Kindred) (o : Outlet ω) (now : Nat) (group : Address)
    (source : Option Address) (w : ω × Log) :
    Touches arrives [group]
      (Delivered arrives (r.join o.logged now group source w).2.2.2
        (r.join o.logged now group source w).1)
      (r, w) (r.join o.logged now group source w).2 := by
  rcases join_eq o.logged now group source r w with ⟨e, -, -, heq⟩ |
    ⟨demand, hdemand, hv, -, report, hrep, ⟨e, he, heq⟩ | ⟨-, heq⟩⟩
  · rw [heq]
    exact .refl arrives _ _ h
  · -- The report was not sent, so the relay did not hear it either.
    obtain ⟨hgrows, hheard, -⟩ := reportChange_heard arrives o now group (r.filter? group)
      (demand.filter? group) (r.setDemand group (some demand)) w
    rw [← hrep] at hgrows hheard
    rw [heq]
    refine touches_of_seen h rfl hgrows ?_
    intro other
    rcases hheard with hok | hsame
    · rw [hok] at he
      cases he
    · simp only [seen, hsame]
  · obtain ⟨hg, hs⟩ := validate_eq_ok hv
    rw [heq, hrep]
    refine touches_reportChange (d := some demand) h hg (fun d hd => ?_) rfl o now w
    cases hd
    rw [hdemand]
    exact (h.demand group).join hs

theorem touches_leave (h : r.Kindred) (o : Outlet ω) (now : Nat) (group : Address)
    (source : Option Address) (w : ω × Log) :
    Touches arrives [group]
      (Delivered arrives (r.leave o.logged now group source w).2.2.2
        (r.leave o.logged now group source w).1)
      (r, w) (r.leave o.logged now group source w).2 := by
  rcases leave_eq o.logged now group source r w with ⟨heq, -, -⟩ |
    ⟨held, left, hheld, hv, -, hleft, heq⟩
  · rw [heq]
    exact .refl arrives _ _ h
  · obtain ⟨hg, hs⟩ := validate_eq_ok hv
    rw [heq]
    refine touches_reportChange h hg (fun d hd => ?_) ?_ o now w
    · rw [hleft] at hd
      obtain ⟨-, -, rfl⟩ := Option.map_eq_some_iff.mp hd
      exact (h.demands group held hheld).2.leave hs
    · rw [hleft]
      cases hf : (held.leave source).filter? group with
      | none => rfl
      | some f => exact hf

/-- Groups that are dropped one after the other are touched once each. -/
theorem touches_dropAll (o : Outlet ω) (now : Nat) (w : ω × Log) (h : r.Kindred)
    (hg : ∀ group ∈ groups, group.family = r.family) (hnodup : groups.Nodup) :
    Touches arrives groups
      (Delivered arrives (r.dropAll o.logged now groups w).2.2.2
        (r.dropAll o.logged now groups w).1)
      (r, w) (r.dropAll o.logged now groups w).2 := by
  induction groups generalizing r w with
  | nil => exact .refl arrives _ _ h
  | cons group groups ih =>
    rw [List.forall_mem_cons] at hg
    obtain ⟨hnew, hnodup⟩ := List.nodup_cons.mp hnodup
    have hfirst : Touches arrives [group] _ (r, w) _ :=
      touches_reportChange (d := none) h hg.1 (fun _ hd => by cases hd) rfl o now w
    obtain ⟨-, -, hok⟩ := reportChange_heard arrives o now group (r.filter? group) none
      (r.setDemand group none) w
    set first := (r.setDemand group none).reportChange o.logged now group (r.filter? group) none w
      with hf
    have hdrop : r.drop o.logged now group w = first := rfl
    have hrest := ih first.2.2 hfirst.kindred (by rw [hfirst.family]; exact hg.2) hnodup
    simp only [dropAll, hdrop]
    refine hfirst.trans hrest ?_ ?_
    · intro other ho
      cases List.mem_singleton.mp ho
      exact hnew
    · rintro ⟨hloss, hcodec⟩
      -- Had the first one failed, its error would be the result.
      have hdel : Delivered arrives first.2.2.2 first.1 := by
        refine ⟨hloss.of_suffix hrest.grows, fun c hc => hcodec c ?_⟩
        rw [hc]
        rfl
      refine ⟨hdel, hloss, fun c hc => hcodec c ?_⟩
      rw [hok hdel]
      exact hc

theorem touches_leaveAll (h : r.Kindred) (o : Outlet ω) (now : Nat) (w : ω × Log) :
    Touches arrives r.demands.keys
      (Delivered arrives (r.leaveAll o.logged now w).2.2.2 (r.leaveAll o.logged now w).1)
      (r, w) (r.leaveAll o.logged now w).2 := by
  refine touches_dropAll o now w h (fun group hm => ?_) r.demands.nodup_keys
  obtain ⟨d, hd⟩ := OrderedMap.mem_keys.mp hm
  exact (h.demands group d hd).1

/-- A retransmission tells a pending change again and no new filter. -/
theorem touches_retransmit (h : r.Kindred) (o : Outlet ω) (now : Nat) (group : Address)
    (w : ω × Log) :
    Touches arrives [group] delivered (r, w) (r.retransmit o.logged now group w) := by
  rcases retransmit_cases o.logged now group r w with
    heq | ⟨pending, p, v, hpending, hp, hidle, heq⟩
  · rw [heq]
    exact .refl arrives _ _ h
  · obtain ⟨hg, hc⟩ := h.changes group pending hpending
    rw [heq]
    refine touches_sendChange o hidle.log ?_ rfl hg hc ?_ ?_ ?_ fun _ => .inr rfl
    · apply h.setChange hg
      intro q hq
      rw [hp q hq]
      exact hc
    · intro other ho
      exact ⟨rfl, by simp only [OrderedMap.get?_set, if_neg ho]⟩
    · intro hready
      simp only [seen, sight, Sight.Ready, hpending, Option.map_some] at hready
      exact hready
    · intro q hq
      simp only [OrderedMap.get?_set, if_true] at hq
      exact hp q hq

/-! ## Answers -/

theorem currentState_isChange (f : Filter) : f.currentState.isChange = false := by
  obtain ⟨group, mode, sources⟩ := f
  cases mode <;> rfl

theorem Kindred.generalRecords (h : r.Kindred) :
    ∀ record ∈ r.generalRecords, record.OfFamily r.family := by
  intro record hm
  obtain ⟨f, hf, rfl⟩ := List.mem_map.mp hm
  obtain ⟨⟨group, d⟩, he, hf⟩ := List.mem_filterMap.mp hf
  obtain ⟨hg, hk⟩ := h.demands group d (OrderedMap.get?_eq_some_iff.mpr he)
  obtain ⟨hgroup, hs⟩ := hk.filter? hf
  exact hs.ofFamily (hgroup ▸ hg) _

theorem silent_generalRecords (h : r.Kindred) : Silent r.family r.generalRecords := by
  refine silent_of_ofFamily h.generalRecords fun record hm => ?_
  obtain ⟨f, -, rfl⟩ := List.mem_map.mp hm
  exact currentState_isChange f

/-- The answer to a query for a group is a single record at most. -/
theorem silent_groupRecords (r : Reporter) (group : Address) (queried : Option Sources) :
    Silent r.family (r.groupRecords group queried) := by
  have hempty : Silent r.family [] :=
    silent_of_ofFamily (fun _ h => by cases h) fun _ h => by cases h
  unfold groupRecords
  split
  · exact hempty
  · exact silent_singleton _ (currentState_isChange _)
  · next f sources _ =>
    simp only [Filter.response]
    split
    · exact hempty
    · exact silent_singleton _ rfl

/-- An answer tells of no change, so nothing is touched. -/
theorem touches_of_answered (h : r.Kindred) {o : Outlet ω} {w : ω × Log}
    (ha : Answered o.logged r w s) : Touches arrives [] delivered (r, w) s := by
  rcases ha with ⟨hsame, hidle⟩ | ⟨m, records, hsame, hanswers, rfl⟩
  · exact touches_of_same h hsame.family hsame.demands hsame.changes hidle.log
  · have hm : m.Kindred := h.of_eq hsame.family hsame.demands hsame.changes
    have hsilent : Silent m.family records := by
      rcases hanswers with rfl | ⟨group, queried, rfl⟩
      · exact silent_generalRecords hm
      · exact silent_groupRecords m group queried
    have hfirst : Touches arrives [] delivered (r, w) (m, w) :=
      touches_of_same h hsame.family hsame.demands hsame.changes rfl
    exact hfirst.trans (touches_sendRecords hm hsilent o w) (fun _ hg => by cases hg)
      fun hd => ⟨hd, hd⟩

theorem touches_fire (h : r.Kindred) (o : Outlet ω) (now : Nat) (alarm : Alarm) (w : ω × Log) :
    ∃ groups, Touches arrives groups delivered (r, w) (r.fire o.logged now alarm w) := by
  rcases fire_cases o.logged now alarm r w with ⟨group, -, heq⟩ | ha
  · rw [heq]
    exact ⟨_, touches_retransmit h o now group w⟩
  · exact ⟨_, touches_of_answered h ha⟩

theorem touches_onQuery (h : r.Kindred) (o : Outlet ω) (now chance : Nat) (q : Query)
    (w : ω × Log) :
    Touches arrives [] delivered (r, w) (r.onQuery o.logged now chance q w).2 :=
  touches_of_answered h (onQuery_cases o.logged now chance q r w)

end Reporter

end MulticastTunnel.Membership
