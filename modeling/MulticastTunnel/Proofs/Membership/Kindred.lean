import MulticastTunnel.Proofs.Membership.Steps

/-!
# One family

Groups and sources of a reporter are of its family: joins are checked, and
filters, changes and records hold no sources that were not joined or left. So
what a reporter writes can be read back.
-/

namespace MulticastTunnel.Membership

open Ordered

variable {family : Family} {group : Address} {source : Option Address} {s t : Sources}

/-- Every source is of the family. -/
def Kindred (family : Family) (s : Sources) : Prop := ∀ a ∈ s, a.family = family

theorem kindred_empty : Kindred family ∅ := fun a h => absurd h (OrderedSet.not_mem_empty a)

theorem Kindred.insert {a : Address} (h : Kindred family s) (ha : a.family = family) :
    Kindred family (s.insert a) := by
  intro b hb
  rcases OrderedSet.mem_insert.mp hb with rfl | hb
  · exact ha
  · exact h b hb

theorem Kindred.erase (h : Kindred family s) (a : Address) : Kindred family (s.erase a) :=
  fun b hb => h b (OrderedSet.mem_erase.mp hb).1

theorem Kindred.union (h : Kindred family s) (h' : Kindred family t) :
    Kindred family (s.union t) := by
  intro a ha
  rcases OrderedSet.mem_union.mp ha with ha | ha
  · exact h a ha
  · exact h' a ha

theorem Kindred.diff (h : Kindred family s) (t : Sources) : Kindred family (s.diff t) :=
  fun a ha => h a (OrderedSet.mem_diff.mp ha).1

/-- A record of a set of sources of the family is one of the family. -/
theorem Kindred.ofFamily (h : Kindred family s) (hg : group.family = family) (type : RecordType) :
    (GroupRecord.ofSet type group s).OfFamily family where
  group := hg
  sources := h

/-! ## Demands and filters -/

/-- Whatever is asked for is of the family. -/
structure Demand.Kindred (family : Family) (d : Demand) : Prop where
  joined : Membership.Kindred family d.joined
  blocked : Membership.Kindred family d.blocked

namespace Demand

variable {d : Demand}

theorem kindred_empty : Kindred family {} where
  joined := Membership.kindred_empty
  blocked := Membership.kindred_empty

theorem Kindred.join (h : d.Kindred family) (hs : ∀ a, source = some a → a.family = family) :
    (d.join source).Kindred family := by
  cases source with
  | none => exact ⟨h.joined, h.blocked⟩
  | some a => exact ⟨h.joined.insert (hs a rfl), h.blocked.erase a⟩

theorem Kindred.leave (h : d.Kindred family) (hs : ∀ a, source = some a → a.family = family) :
    (d.leave source).Kindred family := by
  cases source with
  | none => exact ⟨h.joined, Membership.kindred_empty⟩
  | some a =>
    simp only [Demand.leave]
    split
    · exact ⟨h.joined.erase a, h.blocked⟩
    split
    · exact ⟨h.joined, h.blocked.insert (hs a rfl)⟩
    · exact h

/-- The filter of a group is for the group, and takes its sources from the demand. -/
theorem Kindred.filter? {f : Filter} (h : d.Kindred family) (hf : d.filter? group = some f) :
    f.group = group ∧ Membership.Kindred family f.sources := by
  simp only [Demand.filter?] at hf
  split at hf
  · cases hf
    exact ⟨rfl, h.blocked.diff _⟩
  split at hf
  · cases hf
  · cases hf
    exact ⟨rfl, h.joined⟩

end Demand

/-! ## Changes -/

namespace StateChange

variable {c next : StateChange} {old new : Option Filter}

/-- Every source that the change tells of is of the family. -/
def Kindred (family : Family) : StateChange → Prop
  | .mode _ s => Membership.Kindred family s
  | .sources allow block => Membership.Kindred family allow ∧ Membership.Kindred family block

theorem kindred_parts (h : ∀ f, new = some f → Membership.Kindred family f.sources) :
    Membership.Kindred family (parts new).2 := by
  cases new with
  | none => exact kindred_empty
  | some f => exact h f rfl

theorem kindred_between? (hold : Membership.Kindred family (parts old).2)
    (hnew : Membership.Kindred family (parts new).2) (h : between? old new = some c) :
    c.Kindred family := by
  simp only [between?] at h
  split at h
  · cases h
    exact hnew
  split at h
  · cases h
  split at h
  · cases h
    exact ⟨hnew.diff _, hold.diff _⟩
  · cases h
    exact ⟨hold.diff _, hnew.diff _⟩

theorem Kindred.merge (h : c.Kindred family) (h' : next.Kindred family)
    (hnew : Membership.Kindred family (parts new).2) : (c.merge next new).Kindred family := by
  cases next with
  | mode m s => cases c <;> exact h'
  | sources allow block =>
    cases c with
    | mode m s => exact hnew
    | sources allow' block' => exact ⟨(h.1.union h'.1).diff _, (h.2.union h'.2).diff _⟩

theorem Kindred.records (h : c.Kindred family) (hg : group.family = family) :
    ∀ r ∈ c.records group, r.OfFamily family := by
  intro r hr
  cases c with
  | mode m s => cases m <;> cases List.mem_singleton.mp hr <;> exact Kindred.ofFamily h hg _
  | sources allow block =>
    simp only [StateChange.records, List.mem_append] at hr
    rcases hr with hr | hr
    · split at hr
      · cases hr
      · cases List.mem_singleton.mp hr
        exact h.1.ofFamily hg _
    · split at hr
      · cases hr
      · cases List.mem_singleton.mp hr
        exact h.2.ofFamily hg _

end StateChange

/-! ## Reporters -/

/-- Groups and sources of the reporter are of its family. -/
structure Reporter.Kindred (r : Reporter) : Prop where
  demands : ∀ group d, r.demands.get? group = some d →
    group.family = r.family ∧ d.Kindred r.family
  changes : ∀ group q, r.changes.get? group = some q →
    group.family = r.family ∧ q.change.Kindred r.family

namespace Reporter

variable {r r' : Reporter}

theorem kindred_fresh (family : Family) (settings : ReporterSettings) :
    Kindred { family, settings } where
  demands := fun _ _ h => by cases h
  changes := fun _ _ h => by cases h

/-- Only family, demands and changes matter. -/
theorem Kindred.of_eq (h : r.Kindred) (hf : r'.family = r.family) (hd : r'.demands = r.demands)
    (hc : r'.changes = r.changes) : r'.Kindred where
  demands := by rw [hf, hd]; exact h.demands
  changes := by rw [hf, hc]; exact h.changes

theorem Kindred.setDemand {d : Option Demand} (h : r.Kindred) (hg : group.family = r.family)
    (hd : ∀ d', d = some d' → d'.Kindred r.family) : (r.setDemand group d).Kindred := by
  refine ⟨fun other d' hget => ?_, h.changes⟩
  simp only [Reporter.setDemand, OrderedMap.get?_set] at hget
  split at hget
  · next he =>
    subst he
    exact ⟨hg, hd d' hget⟩
  · exact h.demands other d' hget

theorem Kindred.setChange {p : Option PendingChange} (h : r.Kindred)
    (hg : group.family = r.family) (hp : ∀ q, p = some q → q.change.Kindred r.family) :
    Kindred { r with changes := r.changes.set group p } := by
  refine ⟨h.demands, fun other q hget => ?_⟩
  simp only [OrderedMap.get?_set] at hget
  split at hget
  · next he =>
    subst he
    exact ⟨hg, hp q hget⟩
  · exact h.changes other q hget

theorem Kindred.demand (h : r.Kindred) (group : Address) :
    ((r.demands.get? group).getD {}).Kindred r.family := by
  cases hd : r.demands.get? group with
  | none => exact Demand.kindred_empty
  | some d => exact (h.demands group d hd).2

theorem Kindred.filter? {f : Filter} (h : r.Kindred) (hf : r.filter? group = some f) :
    f.group = group ∧ group.family = r.family ∧ Membership.Kindred r.family f.sources := by
  obtain ⟨d, hd, hf⟩ := Option.bind_eq_some_iff.mp hf
  obtain ⟨hg, hk⟩ := h.demands group d hd
  obtain ⟨he, hs⟩ := hk.filter? hf
  exact ⟨he, hg, hs⟩

theorem Kindred.parts (h : r.Kindred) (group : Address) :
    Membership.Kindred r.family (StateChange.parts (r.filter? group)).2 :=
  StateChange.kindred_parts fun _ hf => (h.filter? hf).2.2

/-- A join or leave that is not refused is of the family. -/
theorem validate_eq_ok (h : r.validate group source = .ok ()) :
    group.family = r.family ∧ ∀ a, source = some a → a.family = r.family := by
  simp only [validate] at h
  split at h
  · cases h
  next hg =>
  have hg : group.family = r.family := by simpa using hg
  split at h
  · cases h
  split at h
  · next a =>
    split at h
    · next hs =>
      refine ⟨hg, fun b hb => ?_⟩
      cases hb
      simp only [isSourceFor, Bool.and_eq_true, decide_eq_true_eq] at hs
      rw [hs.1.1, hg]
    · cases h
  · exact ⟨hg, fun _ hb => by cases hb⟩

end Reporter

end MulticastTunnel.Membership
