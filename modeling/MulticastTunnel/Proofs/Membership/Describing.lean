import MulticastTunnel.Proofs.Membership.GeneralAnswer

/-!
# Reports that leave something to receive

A filter that comes from a demand lets something pass. So the record of such a filter
describes reception, and so does the report of a change from no filter to one, whatever
change it is merged into.
-/

namespace MulticastTunnel.Membership

open Ordered

variable {ω : Type} {group : Address} {f : Filter}

/-- Something passes the filter: it includes some source, or excludes what it lists. -/
def Filter.Open (f : Filter) : Prop := f.mode = .including → f.sources.isEmpty = false

theorem Demand.open_of_filter? {d : Demand} (h : d.filter? group = some f) : f.Open :=
  Demand.nonempty_of_including h

theorem Filter.Open.currentState (h : f.Open) : f.currentState.describesReception = true := by
  unfold Filter.currentState GroupRecord.ofSet GroupRecord.describesReception
  cases hm : f.mode with
  | excluding => rfl
  | including =>
    have hsome : f.sources.toList.isEmpty = false := h hm
    simp [hsome]

namespace StateChange

/-- The change leaves something to receive. -/
def Opens : StateChange → Prop
  | .mode .excluding _ => True
  | .mode .including s => s.isEmpty = false
  | .sources allow _ => allow.isEmpty = false

variable {c next : StateChange}

theorem Opens.exists_record (h : c.Opens) (group : Address) :
    ∃ record ∈ c.records group, record.describesReception = true := by
  match c with
  | .mode .excluding s => exact ⟨_, List.mem_singleton.mpr rfl, rfl⟩
  | .mode .including s =>
    have hsome : s.toList.isEmpty = false := h
    refine ⟨_, List.mem_singleton.mpr rfl, ?_⟩
    simp [GroupRecord.describesReception, GroupRecord.ofSet, hsome]
  | .sources allow block =>
    have hsome : allow.toList.isEmpty = false := h
    have hallow : allow.isEmpty = false := h
    refine ⟨.ofSet .allowNewSources group allow, ?_, ?_⟩
    · simp [records, hallow]
    · simp [GroupRecord.describesReception, GroupRecord.ofSet, hsome]

/-- Where nothing passed before, the change to an open filter opens: its mode is new, or
all its sources are. -/
theorem between?_none (h : f.Open) :
    (f.mode = .excluding ∧ between? none (some f) = some (.mode .excluding f.sources)) ∨
    (f.mode = .including ∧ between? none (some f) = some (.sources f.sources ∅)) := by
  cases hm : f.mode with
  | excluding =>
    left
    simp [between?, parts, hm]
  | including =>
    right
    have hne : ¬ ∅ = f.sources := by
      intro he
      have hsome := h hm
      rw [← he] at hsome
      cases hsome
    have hnothing : (∅ : Sources).diff f.sources = ∅ := OrderedSet.ext fun a => by simp
    simp [between?, parts, hm, hne, hnothing]

theorem opens_of_between? (h : f.Open) (hb : between? none (some f) = some next) :
    next.Opens := by
  rcases between?_none h with ⟨-, heq⟩ | ⟨hm, heq⟩
  · cases heq.symm.trans hb
    exact trivial
  · cases heq.symm.trans hb
    exact h hm

/-- Taking up a change to an open filter opens, whatever was still to be reported. -/
theorem opens_merge (h : f.Open) (hb : between? none (some f) = some next) (c : StateChange) :
    (c.merge next (some f)).Opens := by
  have hnext := opens_of_between? h hb
  rcases between?_none h with ⟨-, heq⟩ | ⟨hm, heq⟩
  · cases heq.symm.trans hb
    match c with
    | .mode .. => exact hnext
    | .sources .. => exact hnext
  · cases heq.symm.trans hb
    match c with
    | .mode .excluding _ => exact trivial
    | .mode .including _ => exact hnext
    | .sources allow block =>
      obtain ⟨source, hs⟩ := OrderedSet.isEmpty_eq_false_iff.mp (h hm)
      show ((allow.union f.sources).diff ∅).isEmpty = false
      rw [OrderedSet.isEmpty_eq_false_iff]
      exact ⟨source, by simp [hs]⟩

end StateChange

namespace Reporter

variable {r : Reporter} {o : Outlet ω} {w : ω}

theorem opens_noted {change : StateChange} (h : f.Open)
    (hb : StateChange.between? none (some f) = some change) (r : Reporter) (group : Address) :
    (r.noted group change (some f)).Opens := by
  unfold noted
  split
  · exact StateChange.opens_merge h hb _
  · exact StateChange.opens_of_between? h hb

theorem describes_generalRecords (h : r.generalRecords ≠ []) (family : Family) :
    (⟨family, r.generalRecords⟩ : Report).describesReception = true := by
  obtain ⟨record, hm⟩ := List.exists_mem_of_ne_nil _ h
  obtain ⟨group, f, hf, rfl⟩ := (r.tellsAll_generalRecords.mem_iff record).mp hm
  rw [filter?_eq_demand] at hf
  exact List.any_eq_true.mpr ⟨_, hm, (Demand.open_of_filter? hf).currentState⟩

/-- A report that leaves something to receive was handed out at `v`, and at most lost
because the relay was unreachable. -/
def Handed (o : Outlet ω) (family : Family) (v u : ω) : Prop :=
  ∃ packet report, packet.family = family ∧ Report.ofPacket packet = .ok report ∧
    report.describesReception = true ∧ u = (o.send packet v).2 ∧
    ∀ e, (o.send packet v).1 = .error e → e = .unreachable

theorem handed_sendRecords {records : List GroupRecord}
    (hr : ∀ record ∈ records, record.OfFamily r.family)
    (hlocal : (o.localAddress w).family = r.family)
    (hopens : ∃ record ∈ records, record.describesReception = true)
    (hok : (r.sendRecords o records w).1 = .ok ()) :
    Handed o r.family w (r.sendRecords o records w).2.2 := by
  obtain ⟨record, hm, hdescribes⟩ := hopens
  rcases sendRecords_cases hr hlocal with
    ⟨hempty, -⟩ | ⟨-, herr⟩ | ⟨-, -, packet, hfamily, hread, hsent, hresult⟩
  · rw [hempty] at hm
    cases hm
  · rw [herr] at hok
    cases hok
  · exact ⟨packet, _, hfamily, hread, List.any_eq_true.mpr ⟨record, hm, hdescribes⟩, hsent,
      hresult.mp hok⟩

theorem Kindred.handed_reportChange (h : r.Kindred) {now : Nat} {d : Demand}
    (hg : group.family = r.family) (hd : d.Kindred r.family) (hnone : r.filter? group = none)
    (hf : d.filter? group = some f)
    (hlocal : ∀ v, Idle o w v → (o.localAddress v).family = r.family)
    (hok : ((r.setDemand group (some d)).reportChange o now group none (some f) w).1 = .ok ()) :
    ∃ v, Idle o w v ∧ Handed o r.family v
      ((r.setDemand group (some d)).reportChange o now group none (some f) w).2.2 := by
  have hopen := Demand.open_of_filter? hf
  rcases reportChange_eq o now group none (some f) (r.setDemand group (some d)) w with
    ⟨hb, -⟩ | ⟨change, p, v, hb, heq, -, hidle⟩
  · rcases StateChange.between?_none hopen with ⟨-, hsome⟩ | ⟨-, hsome⟩
    · cases hsome.symm.trans hb
    · cases hsome.symm.trans hb
  · have hset : (r.setDemand group (some d)).Kindred := by
      refine h.setDemand hg ?_
      rintro d ⟨⟩
      exact hd
    have hold := h.parts group
    have hnew := hset.parts group
    rw [hnone] at hold
    rw [filter?_setDemand, Option.bind_some, hf] at hnew
    have hnoted : ((r.setDemand group (some d)).noted group change (some f)).Kindred r.family :=
      hset.noted (StateChange.kindred_between? hold hnew hb) hnew
    have hopens := (opens_noted hopen hb (r.setDemand group (some d)) group).exists_record group
    have hlocal' := hlocal v hidle
    rw [heq] at hok ⊢
    refine ⟨v, hidle, handed_sendRecords ?_ ?_ hopens hok⟩
    · exact hnoted.records hg
    · exact hlocal'

/-- A join where nothing was received hands out a report. -/
theorem Kindred.handed_join (h : r.Kindred) {now : Nat} {source : Option Address}
    (hnone : r.filter? group = none)
    (hlocal : ∀ v, Idle o w v → (o.localAddress v).family = r.family)
    (hok : (r.join o now group source w).1 = .ok ()) :
    ∃ v, Idle o w v ∧ Handed o r.family v (r.join o now group source w).2.2 := by
  rcases join_eq o now group source r w with ⟨e, -, -, heq⟩ |
    ⟨demand, hdemand, hv, -, report, hreport, ⟨e, -, heq⟩ | ⟨-, heq⟩⟩
  · rw [heq] at hok
    cases hok
  · rw [heq] at hok
    cases hok
  · obtain ⟨hg, hs⟩ := validate_eq_ok hv
    have hkindred : demand.Kindred r.family := by
      rw [hdemand]
      exact (h.demand group).join hs
    have hasks : demand.Asks source := by
      rw [hdemand]
      exact Demand.asks_join.mpr (.inl rfl)
    obtain ⟨f, hf⟩ : ∃ f, demand.filter? group = some f := by
      rw [← Option.ne_none_iff_exists']
      intro hnothing
      exact Demand.filter?_eq_none_iff.mp hnothing source hasks
    rw [heq, hreport, hnone, hf] at hok ⊢
    exact h.handed_reportChange hg hkindred hnone hf hlocal hok

end Reporter

end MulticastTunnel.Membership
