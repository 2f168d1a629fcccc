import Mathlib.Tactic.Common
import MulticastTunnel.Membership.StateChange
import MulticastTunnel.Proofs.Ordered.Contents

/-!
# What state changes do

A router that hears of a group keeps a view of it, mode and sources, and
updates it by every record. A change takes a view to another one: the change
between two filters takes the first to the second, hearing it again does
nothing more, and a merged change takes every view that the earlier one took to
the old filter to the new filter.
-/

namespace MulticastTunnel.Membership

open Ordered

/-- The mode and the sources that a router takes a group to have. -/
abbrev View := FilterMode × Sources

/-- What hearing a record does to the view of its group. -/
def GroupRecord.applyTo (r : GroupRecord) (v : View) : View :=
  let sources := OrderedSet.ofList r.sources
  match r.type, v with
  | .changeToIncludeMode, _ => (.including, sources)
  | .changeToExcludeMode, _ => (.excluding, sources)
  | .allowNewSources, (.including, s) => (.including, s.union sources)
  | .allowNewSources, (.excluding, s) => (.excluding, s.diff sources)
  | .blockOldSources, (.including, s) => (.including, s.diff sources)
  | .blockOldSources, (.excluding, s) => (.excluding, s.union sources)
  | .modeIsInclude, v => v
  | .modeIsExclude, v => v

/-- Whether the record tells a change rather than a state. -/
def GroupRecord.isChange (r : GroupRecord) : Bool :=
  match r.type with
  | .modeIsInclude | .modeIsExclude => false
  | _ => true

/-- The view of a group once the records were heard in order. -/
def hear (group : Address) (records : List GroupRecord) (v : View) : View :=
  records.foldl (fun v r => if r.group = group then r.applyTo v else v) v

/-- Whether the records tell of a change of the group. -/
def tellsChange (group : Address) (records : List GroupRecord) : Bool :=
  records.any fun r => r.group = group && r.isChange

variable {group other : Address} {records : List GroupRecord} {v : View} {family : Family}

/-- Records that tell no change of the group leave the view of it. -/
theorem hear_eq_of_not_tellsChange (h : tellsChange group records = false) :
    hear group records v = v := by
  induction records generalizing v with
  | nil => rfl
  | cons r records ih =>
    simp only [tellsChange, List.any_cons, Bool.or_eq_false_iff] at h
    rw [hear, List.foldl_cons]
    have hstep : (if r.group = group then r.applyTo v else v) = v := by
      split
      · next hg =>
        have hc : r.isChange = false := by simpa [hg] using h.1
        cases ht : r.type <;> simp [GroupRecord.isChange, ht] at hc <;>
          simp [GroupRecord.applyTo, ht]
      · rfl
    rw [hstep]
    exact ih h.2

/-- Records of other groups tell nothing of the group. -/
theorem not_tellsChange_of_ne (h : ∀ r ∈ records, r.group ≠ group) :
    tellsChange group records = false := by
  rw [tellsChange, List.any_eq_false]
  intro r hr
  simp [h r hr]

namespace StateChange

variable {c next : StateChange} {old new : Option Filter}

/-- What a change does to a view. -/
def applyTo (c : StateChange) (v : View) : View :=
  match c, v with
  | .mode m s, _ => (m, s)
  | .sources allow block, (.including, s) => (.including, (s.union allow).diff block)
  | .sources allow block, (.excluding, s) => (.excluding, (s.diff allow).union block)

/-! ## Records of a change -/

theorem records_group {r : GroupRecord} (h : r ∈ c.records group) :
    r.group = group ∧ r.isChange = true := by
  cases c with
  | mode m s =>
    cases m <;> cases List.mem_singleton.mp h <;> exact ⟨rfl, rfl⟩
  | sources allow block =>
    simp only [records, List.mem_append] at h
    rcases h with h | h <;> split at h <;> simp at h <;> subst h <;> exact ⟨rfl, rfl⟩

/-- A record of added or dropped sources is left out when there are none, which
makes no difference. -/
theorem hear_unless_isEmpty {type : RecordType}
    (ht : type = .allowNewSources ∨ type = .blockOldSources) (group : Address) (s : Sources)
    (v : View) :
    hear group (if s.isEmpty then [] else [.ofSet type group s]) v =
      (GroupRecord.ofSet type group s).applyTo v := by
  split
  · next he =>
    rw [OrderedSet.eq_empty_of_isEmpty he]
    obtain ⟨mode, t⟩ := v
    rcases ht with rfl | rfl <;> cases mode <;>
      simp only [GroupRecord.applyTo, GroupRecord.ofSet, OrderedSet.ofList_toList,
        OrderedSet.union_empty, OrderedSet.diff_empty] <;> rfl
  · simp [hear, GroupRecord.ofSet]

/-- Hearing the records of a change is the change. -/
theorem hear_records (c : StateChange) (group : Address) (v : View) :
    hear group (c.records group) v = c.applyTo v := by
  cases c with
  | mode m s =>
    cases m <;> simp [hear, records, GroupRecord.ofSet, GroupRecord.applyTo, applyTo]
  | sources allow block =>
    have hallow := hear_unless_isEmpty (.inl rfl) group allow v
    have hblock := hear_unless_isEmpty (.inr rfl) group block
      ((GroupRecord.ofSet .allowNewSources group allow).applyTo v)
    rw [hear] at hallow hblock
    rw [records, hear, List.foldl_append, hallow, hblock]
    obtain ⟨mode, s⟩ := v
    cases mode <;>
      simp only [GroupRecord.applyTo, GroupRecord.ofSet, applyTo, OrderedSet.ofList_toList]

/-! ## Changes as steps -/

/-- Hearing a change twice is hearing it once. -/
theorem applyTo_applyTo (c : StateChange) (v : View) : c.applyTo (c.applyTo v) = c.applyTo v := by
  cases c with
  | mode m s => rfl
  | sources allow block =>
    obtain ⟨mode, s⟩ := v
    cases mode with
    | including =>
      refine Prod.ext rfl (OrderedSet.ext fun a => ?_)
      simp only [applyTo, OrderedSet.mem_diff, OrderedSet.mem_union]
      tauto
    | excluding =>
      refine Prod.ext rfl (OrderedSet.ext fun a => ?_)
      simp only [applyTo, OrderedSet.mem_diff, OrderedSet.mem_union]
      tauto

/-- What the change between two filters is. -/
theorem between?_cases (old new : Option Filter) :
    (between? old new = none ∧ parts old = parts new) ∨
    (between? old new = some (.mode (parts new).1 (parts new).2)) ∨
    (parts old).1 = (parts new).1 ∧ ∃ allow block, between? old new = some (.sources allow block) ∧
      (∀ a, ¬ (a ∈ allow ∧ a ∈ block)) ∧
      (StateChange.sources allow block).applyTo (parts old) = parts new := by
  simp only [between?]
  by_cases hm : (parts old).1 = (parts new).1
  · by_cases hs : (parts old).2 = (parts new).2
    · exact .inl ⟨by simp [hm, hs], Prod.ext hm hs⟩
    · refine .inr (.inr ⟨hm, ?_⟩)
      simp only [hm, ne_eq, not_true, hs, if_false]
      generalize parts old = u at *
      generalize parts new = w at *
      obtain ⟨mode, s⟩ := u
      obtain ⟨mode', s'⟩ := w
      cases hm
      cases mode with
      | including =>
        refine ⟨_, _, rfl, ?_, Prod.ext rfl (OrderedSet.ext ?_)⟩
        · intro a h
          simp only [OrderedSet.mem_diff] at h
          exact h.1.2 h.2.1
        · intro a
          simp only [applyTo, OrderedSet.mem_diff, OrderedSet.mem_union]
          tauto
      | excluding =>
        refine ⟨_, _, rfl, ?_, Prod.ext rfl (OrderedSet.ext ?_)⟩
        · intro a h
          simp only [OrderedSet.mem_diff] at h
          exact h.1.2 h.2.1
        · intro a
          simp only [applyTo, OrderedSet.mem_diff, OrderedSet.mem_union]
          tauto
  · refine .inr (.inl ?_)
    simp only [ne_eq, hm, not_false_eq_true, if_true]

theorem parts_eq_of_between? (h : between? old new = none) : parts old = parts new := by
  rcases between?_cases old new with ⟨-, he⟩ | hm | ⟨-, allow, block, hs, -⟩
  · exact he
  · rw [hm] at h
    cases h
  · rw [hs] at h
    cases h

/-- The change between two filters takes the view of the first to that of the second. -/
theorem applyTo_between? (h : between? old new = some c) : c.applyTo (parts old) = parts new := by
  rcases between?_cases old new with ⟨hn, -⟩ | hm | ⟨-, allow, block, hs, -, ha⟩
  · rw [hn] at h
    cases h
  · rw [hm] at h
    cases h
    rfl
  · rw [hs] at h
    cases h
    exact ha

/-- **Merging**: from every view that the earlier change takes to the old filter,
the merged change leads to the new one. -/
theorem applyTo_merge (hv : c.applyTo v = parts old) (h : between? old new = some next) :
    (c.merge next new).applyTo v = parts new := by
  rcases between?_cases old new with ⟨hn, -⟩ | hm | ⟨hmode, allow', block', hs, hdis, ha⟩
  · rw [hn] at h
    cases h
  · rw [hm] at h
    cases h
    cases c <;> rfl
  · rw [hs] at h
    cases h
    cases c with
    | mode m s =>
      rw [← hv] at hmode
      exact Prod.ext hmode rfl
    | sources allow block =>
      rw [← hv] at ha
      obtain ⟨mode, s⟩ := v
      rw [← ha]
      cases mode with
      | including =>
        refine Prod.ext rfl (OrderedSet.ext fun a => ?_)
        have := hdis a
        simp only [merge, applyTo, OrderedSet.mem_diff, OrderedSet.mem_union]
        tauto
      | excluding =>
        refine Prod.ext rfl (OrderedSet.ext fun a => ?_)
        have := hdis a
        simp only [merge, applyTo, OrderedSet.mem_diff, OrderedSet.mem_union]
        tauto

end StateChange

end MulticastTunnel.Membership
