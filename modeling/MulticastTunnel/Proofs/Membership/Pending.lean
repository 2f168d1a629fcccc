import MulticastTunnel.Proofs.Membership.FailedJoins

/-!
# Pending changes

What each operation makes of the pending change of a group. It takes up what changes of the
filter, and comes up with the first such change if that is to be reported again. Only its
alarm counts it, and sets it another timer or forgets it.
-/

namespace MulticastTunnel.Membership

open Ordered

variable {ω : Type}

namespace StateChange

variable {c next : StateChange} {old new : Option Filter} {allow block : Sources}

/-! ## Changes tell something -/

/-- Without any source to allow or to block the filter would have stayed. -/
theorem exists_mem_of_between? (h : between? old new = some (.sources allow block)) :
    ∃ a, a ∈ allow ∨ a ∈ block := by
  by_contra hnone
  push Not at hnone
  have hallow : allow = ∅ := OrderedSet.ext fun a => by simp [(hnone a).1]
  have hblock : block = ∅ := OrderedSet.ext fun a => by simp [(hnone a).2]
  have hsame : parts old = parts new := by
    rw [← applyTo_between? h, hallow, hblock]
    obtain ⟨mode, s⟩ := parts old
    cases mode <;> simp [applyTo]
  simp [between?, hsame] at h

theorem not_mem_both_of_between? (h : between? old new = some (.sources allow block))
    (a : Address) : ¬ (a ∈ allow ∧ a ∈ block) := by
  rcases between?_cases old new with ⟨hnone, -⟩ | hmode | ⟨-, allow', block', hsources, hdis, -⟩
  · cases hnone.symm.trans h
  · cases hmode.symm.trans h
  · cases hsources.symm.trans h
    exact hdis a

theorem records_sources_ne_nil (h : ∃ a, a ∈ allow ∨ a ∈ block) (group : Address) :
    (StateChange.sources allow block).records group ≠ [] := by
  obtain ⟨a, ha | ha⟩ := h
  · simp [records, OrderedSet.isEmpty_eq_false_iff.mpr ⟨a, ha⟩]
  · simp [records, OrderedSet.isEmpty_eq_false_iff.mpr ⟨a, ha⟩]

theorem records_mode_ne_nil (m : FilterMode) (s : Sources) (group : Address) :
    (StateChange.mode m s).records group ≠ [] := by
  cases m <;> simp [records]

theorem records_ne_nil (h : between? old new = some c) (group : Address) :
    c.records group ≠ [] := by
  cases c with
  | mode m s => exact records_mode_ne_nil m s group
  | sources allow block => exact records_sources_ne_nil (exists_mem_of_between? h) group

/-- The later change is never undone by the one that takes it up. -/
theorem records_merge_ne_nil (c : StateChange) (h : between? old new = some next)
    (group : Address) : (c.merge next new).records group ≠ [] := by
  cases next with
  | mode m s => cases c <;> exact records_mode_ne_nil m s group
  | sources allow' block' =>
    cases c with
    | mode m s => exact records_mode_ne_nil m _ group
    | sources allow block =>
      obtain ⟨a, ha⟩ := exists_mem_of_between? h
      have hdis := not_mem_both_of_between? h a
      refine records_sources_ne_nil ⟨a, ?_⟩ group
      simp only [OrderedSet.mem_diff, OrderedSet.mem_union]
      tauto

/-- A source that is left while it is still to be reported. -/
theorem exists_between?_erase (group : Address) {sources : Sources} {s : Address}
    (hs : s ∉ sources) :
    ∃ change, between? (some ⟨group, .including, sources.insert s⟩)
        (some ⟨group, .including, sources⟩) = some change ∧
      ∀ current, (StateChange.sources (sources.insert s) ∅).merge change current =
        .sources sources ((∅ : Sources).insert s) := by
  have hne : ∀ a ∈ sources, a ≠ s := fun a ha he => hs (he ▸ ha)
  refine ⟨.sources (sources.diff (sources.insert s)) ((sources.insert s).diff sources), ?_, ?_⟩
  · have hless : sources.insert s ≠ sources := by
      intro heq
      rw [← heq] at hs
      exact hs (OrderedSet.mem_insert.mpr (.inl rfl))
    simp [between?, parts, hless]
  · intro current
    show StateChange.sources _ _ = _
    congr 1
    · apply OrderedSet.ext
      intro a
      have := hne a
      simp only [OrderedSet.mem_diff, OrderedSet.mem_union, OrderedSet.mem_insert]
      tauto
    · apply OrderedSet.ext
      intro a
      have := hne a
      simp only [OrderedSet.mem_diff, OrderedSet.mem_union, OrderedSet.mem_insert,
        OrderedSet.not_mem_empty]
      tauto

end StateChange

namespace Reporter

variable {r r' r'' : Reporter} {o : Outlet ω} {now : Nat} {group other : Address} {w : ω}
  {old new : Option Filter}

/-! ## What operations do to a pending change -/

/-- What becomes of the pending change of a group whose filter goes from one to another. A
change that comes up is reported again as often as told, for the first time at the deadline. -/
inductive TakesUp (again deadline : Nat) (old new : Option Filter) :
    Option PendingChange → Option PendingChange → Prop
  /-- There is nothing to tell. -/
  | same {p : Option PendingChange} : StateChange.between? old new = none →
      TakesUp again deadline old new p p
  /-- What is told now is not told again. -/
  | once {c : StateChange} : StateChange.between? old new = some c → again = 0 →
      TakesUp again deadline old new none none
  | raised {c : StateChange} {timer : Timer} : StateChange.between? old new = some c →
      0 < again → timer.deadline = deadline →
      TakesUp again deadline old new none (some ⟨c, again, timer⟩)
  | merged {c : StateChange} {p : PendingChange} : StateChange.between? old new = some c →
      TakesUp again deadline old new (some p) (some { p with change := p.change.merge c new })

/-- What becomes of a pending change with its alarm, which sets the next deadline. -/
inductive Repeats (deadline : Nat) : PendingChange → Option PendingChange → Prop
  | last {p : PendingChange} : p.retransmissions ≤ 1 → Repeats deadline p none
  | again {p : PendingChange} {timer : Timer} : 1 < p.retransmissions →
      timer.deadline = deadline →
      Repeats deadline p (some { p with retransmissions := p.retransmissions - 1, timer })

/-- How often the reporter reports again what comes up now. -/
def again (r : Reporter) : Nat := r.robustness.toNat - 1

theorem note_takesUp (o : Outlet ω) (now : Nat) (group : Address) {change : StateChange}
    (h : StateChange.between? old new = some change) (r : Reporter) (w : ω) :
    ∃ p, (r.note o now group change new w).2.1 = { r with changes := r.changes.set group p } ∧
      TakesUp r.again (now + r.settings.reportInterval) old new (r.changes.get? group) p := by
  cases hc : r.changes.get? group with
  | some pending =>
    refine ⟨some { pending with change := pending.change.merge change new }, ?_, .merged h⟩
    simp only [note, hc]
    rfl
  | none =>
    by_cases hr : r.robustness.toNat - 1 = 0
    · refine ⟨none, ?_, .once h hr⟩
      have hset := OrderedMap.set_get? r.changes group
      rw [hc] at hset
      simp only [note, hc, hr, if_true, hset]
    · have hpos : 0 < r.again := Nat.pos_of_ne_zero hr
      refine ⟨some ⟨change, r.again, (o.timer (now + r.settings.reportInterval) w).1⟩, ?_,
        .raised h hpos rfl⟩
      simp only [note, hc, hr, if_false]
      rfl

theorem reportChange_takesUp (o : Outlet ω) (now : Nat) (group : Address)
    (old new : Option Filter) (r : Reporter) (w : ω) :
    ∃ p n, (r.reportChange o now group old new w).2.1 =
        { r with changes := r.changes.set group p, reportsSent := n } ∧
      TakesUp r.again (now + r.settings.reportInterval) old new (r.changes.get? group) p := by
  unfold reportChange
  split
  · next h =>
    refine ⟨r.changes.get? group, r.reportsSent, ?_, .same h⟩
    rw [OrderedMap.set_get?]
  · next change h =>
    obtain ⟨p, hp, htakes⟩ := note_takesUp o now group h r w
    obtain ⟨n, hn, -⟩ := sendRecords_spec o (r.note o now group change new w).1
      (r.note o now group change new w).2.1 (r.note o now group change new w).2.2
    refine ⟨p, n, ?_, htakes⟩
    rw [hn, hp]

/-- The pending change of the group has taken up what changed of its filter, if anything did. -/
def Carries (now : Nat) (group : Address) (r r' : Reporter) : Prop :=
  TakesUp r.again (now + r.settings.reportInterval) (r.filter? group) (r'.filter? group)
    (r.changes.get? group) (r'.changes.get? group)

theorem carries_of_same (hf : r'.filter? group = r.filter? group)
    (hc : r'.changes.get? group = r.changes.get? group) : r.Carries now group r' := by
  rw [Carries, hf, hc]
  exact .same (StateChange.between?_self _)

theorem carries_of_sameChanges (h : SameChanges r r') : r.Carries now group r' := by
  refine carries_of_same ?_ (by rw [h.changes])
  rw [filter?, filter?, h.demands]

/-- What is done to other groups makes no difference to the group. -/
structure Spares (group : Address) (r r' : Reporter) : Prop where
  filter? : r'.filter? group = r.filter? group
  pending : r'.changes.get? group = r.changes.get? group
  again : r'.again = r.again
  settings : r'.settings = r.settings

theorem Spares.refl (group : Address) (r : Reporter) : r.Spares group r := ⟨rfl, rfl, rfl, rfl⟩

theorem Spares.trans (h : r.Spares group r') (h' : r'.Spares group r'') : r.Spares group r'' :=
  ⟨h'.filter?.trans h.filter?, h'.pending.trans h.pending, h'.again.trans h.again,
    h'.settings.trans h.settings⟩

theorem Spares.carries (h : r.Spares group r') (h' : r'.Carries now group r'') :
    r.Carries now group r'' := by
  rw [Carries, h.filter?, h.pending, h.again, h.settings] at h'
  exact h'

theorem Carries.spares (h : r.Carries now group r') (h' : r'.Spares group r'') :
    r.Carries now group r'' := by
  rw [Carries, h'.filter?, h'.pending]
  exact h

theorem spares_reportChange (o : Outlet ω) (now : Nat) (d : Option Demand) (new : Option Filter)
    (r : Reporter) (w : ω) (hne : other ≠ group) :
    r.Spares other
      ((r.setDemand group d).reportChange o now group (r.filter? group) new w).2.1 := by
  obtain ⟨p, n, hs, -⟩ := reportChange_spec o now group (r.filter? group) new
    (r.setDemand group d) w
  rw [hs]
  refine ⟨?_, ?_, rfl, rfl⟩
  · simp only [filter?, setDemand, OrderedMap.get?_set, if_neg hne]
  · simp only [setDemand, OrderedMap.get?_set, if_neg hne]

/-- Another demand for a group, and the report of what it changes. -/
theorem carries_reportChange {d : Option Demand} (hnew : d.bind (·.filter? group) = new)
    (o : Outlet ω) (now : Nat) (r : Reporter) (w : ω) (other : Address) :
    r.Carries now other
      ((r.setDemand group d).reportChange o now group (r.filter? group) new w).2.1 := by
  by_cases ho : other = group
  · subst ho
    obtain ⟨p, n, hs, htakes⟩ := reportChange_takesUp o now other (r.filter? other) new
      (r.setDemand other d) w
    have hfilter : ((r.setDemand other d).reportChange o now other (r.filter? other) new
        w).2.1.filter? other = new := by
      rw [hs, ← hnew]
      exact filter?_setDemand r other d
    rw [Carries, hfilter, hs]
    simp only [OrderedMap.get?_set, if_true]
    exact htakes
  · have hspares := spares_reportChange o now d new r w ho
    exact carries_of_same hspares.filter? hspares.pending

theorem carries_join (o : Outlet ω) (now : Nat) (joined : Address) (source : Option Address)
    (r : Reporter) (w : ω) (group : Address) :
    r.Carries now group (r.join o now joined source w).2.1 := by
  rcases join_eq o now joined source r w with ⟨e, -, -, heq⟩ |
    ⟨demand, -, -, -, report, rfl, ⟨e, -, heq⟩ | ⟨-, heq⟩⟩
  · rw [heq]
    exact carries_of_same rfl rfl
  · rw [heq]
    exact carries_of_same rfl rfl
  · rw [heq]
    exact carries_reportChange (d := some demand) rfl o now r w group

theorem carries_leave (o : Outlet ω) (now : Nat) (left : Address) (source : Option Address)
    (r : Reporter) (w : ω) (group : Address) :
    r.Carries now group (r.leave o now left source w).2.1 := by
  rcases leave_eq o now left source r w with ⟨heq, -, -⟩ | ⟨held, d, -, -, -, rfl, heq⟩
  · rw [heq]
    exact carries_of_same rfl rfl
  · rw [heq]
    refine carries_reportChange ?_ o now r w group
    cases hf : (held.leave source).filter? left with
    | none => rfl
    | some f => exact hf

theorem spares_dropAll (o : Outlet ω) (now : Nat) {groups : List Address}
    (hg : group ∉ groups) (r : Reporter) (w : ω) :
    r.Spares group (r.dropAll o now groups w).2.1 := by
  induction groups generalizing r w with
  | nil => exact .refl group r
  | cons first groups ih =>
    rw [List.mem_cons, not_or] at hg
    have hfirst : r.Spares group (r.drop o now first w).2.1 :=
      spares_reportChange o now none none r w hg.1
    exact hfirst.trans (ih hg.2 _ _)

/-- No group is dropped twice, so each has one change at most. -/
theorem carries_dropAll (o : Outlet ω) (now : Nat) {groups : List Address}
    (hnodup : groups.Nodup) (r : Reporter) (w : ω) (group : Address) :
    r.Carries now group (r.dropAll o now groups w).2.1 := by
  induction groups generalizing r w with
  | nil => exact carries_of_same rfl rfl
  | cons first groups ih =>
    obtain ⟨hfirst, hnodup⟩ := List.nodup_cons.mp hnodup
    by_cases hg : group = first
    · subst hg
      have hdrop : r.Carries now group (r.drop o now group w).2.1 :=
        carries_reportChange (d := none) rfl o now r w group
      exact hdrop.spares (spares_dropAll o now hfirst _ _)
    · have hspared : r.Spares group (r.drop o now first w).2.1 :=
        spares_reportChange o now none none r w hg
      exact hspared.carries (ih hnodup _ _)

/-- Alarms and queries that are not about a change leave it alone. -/
theorem carries_of_answered {s : Reporter × ω} (h : Answered o r w s) :
    r.Carries now group s.1 := by
  rcases h with ⟨hsame, -⟩ | ⟨r', records, hsame, -, rfl⟩
  · exact carries_of_sameChanges hsame
  · obtain ⟨n, hn, -⟩ := sendRecords_spec o records r' w
    rw [hn]
    exact carries_of_sameChanges ⟨⟨hsame.demands, hsame.family, hsame.settings, hsame.closed⟩,
      hsame.changes⟩

/-- An alarm reports what is pending, and counts it. -/
theorem retransmit_eq (o : Outlet ω) (now : Nat) (group : Address) (r : Reporter) (w : ω) :
    (r.changes.get? group = none ∧ r.retransmit o now group w = (r, w)) ∨
    ∃ p q v, r.changes.get? group = some p ∧ Repeats (now + r.settings.reportInterval) p q ∧
      Idle o w v ∧
      r.retransmit o now group w =
        (sendRecords o (p.change.records group)
          { r with changes := r.changes.set group q } v).2 := by
  unfold retransmit
  split
  · next h => exact .inl ⟨h, rfl⟩
  next p hp =>
  refine .inr ?_
  simp only
  split
  · next hlast => exact ⟨p, none, w, hp, .last (by omega), .inl rfl, rfl⟩
  · next hmore =>
    exact ⟨p, _, _, hp, .again (by omega) rfl, .inr ⟨now + r.settings.reportInterval, rfl⟩, rfl⟩

theorem spares_retransmit (o : Outlet ω) (now : Nat) (r : Reporter) (w : ω)
    (hne : other ≠ group) : r.Spares other (r.retransmit o now group w).1 := by
  rcases retransmit_eq o now group r w with ⟨-, heq⟩ | ⟨p, q, v, -, -, -, heq⟩
  · rw [heq]
    exact .refl other r
  · obtain ⟨n, hn, -⟩ := sendRecords_spec o (p.change.records group)
      { r with changes := r.changes.set group q } v
    rw [heq, hn]
    refine ⟨rfl, ?_, rfl, rfl⟩
    simp only [OrderedMap.get?_set, if_neg hne]

/-- Whether the operation is the alarm to report a change of the group again. -/
def Act.repeats (group : Address) : Act → Bool
  | .alarm (.retransmission g) => g = group
  | _ => false

theorem Act.eq_of_repeats {act : Act} (h : act.repeats group = true) :
    act = .alarm (.retransmission group) := by
  cases act with
  | alarm alarm =>
    cases alarm with
    | retransmission g =>
      have hg : g = group := by simpa [repeats] using h
      rw [hg]
    | groupAnswer g => cases h
    | generalAnswer => cases h
  | _ => cases h

/-- Every operation but the alarm of a change takes up what changes. -/
theorem carries_perform {act : Act} (h : act.repeats group = false) (o : Outlet ω) (now : Nat)
    (r : Reporter) (w : ω) : r.Carries now group (r.perform o now act w).2.1 := by
  cases act with
  | join joined source => exact carries_join o now joined source r w group
  | leave left source => exact carries_leave o now left source r w group
  | leaveAll => exact carries_dropAll o now r.demands.nodup_keys r w group
  | query chance q => exact carries_of_answered (onQuery_cases o now chance q r w)
  | alarm alarm =>
    show r.Carries now group (r.fire o now alarm w).1
    rcases fire_cases o now alarm r w with ⟨g, rfl, heq⟩ | ha
    · have hg : group ≠ g := by
        rintro rfl
        simp [Act.repeats] at h
      have hspares := spares_retransmit o now r w hg
      rw [heq]
      exact carries_of_same hspares.filter? hspares.pending
    · exact carries_of_answered ha

end Reporter

end MulticastTunnel.Membership
