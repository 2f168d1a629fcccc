import Mathlib.Data.List.Nodup
import Mathlib.Data.Set.Insert
import MulticastTunnel.Channel.Tree
import MulticastTunnel.Proofs.Ordered.Contents

/-!
# Contents of channel trees

What a tree holds after its subscriptions to one channel change. A branch is
a group and an optional source; `held` is the set of branches with at least
one subscription, and `Pruned` says that no level of the tree is kept empty,
so that the branches stored are exactly those held.
-/

namespace MulticastTunnel.ChannelTree

open Ordered

/-- A group, and one of its sources or any. -/
abbrev BranchKey := Address × Option Address

/-- The branches that somebody is subscribed under. -/
def held (t : ChannelTree) : Set BranchKey := {b | (t.branch b.1 b.2).isEmpty = false}

variable {t : ChannelTree} {c : Channel} {sink : SinkId}

theorem mem_held {group : Address} {source : Option Address} :
    (group, source) ∈ t.held ↔ (t.branch group source).isEmpty = false := Iff.rfl

/-- What is held is stored, and not as an empty level. -/
theorem mem_held_iff {group : Address} {source : Option Address} : (group, source) ∈ t.held ↔
    ∃ branches branch, t.groups.get? group = some branches ∧
      branches.get? source = some branch ∧ branch.isEmpty = false := by
  rw [mem_held, branch, branches]
  cases hg : t.groups.get? group with
  | none => exact iff_of_false (by rw [Option.getD_none]; exact Bool.noConfusion) (by simp)
  | some branches =>
    rw [Option.getD_some]
    cases hb : branches.get? source with
    | none => exact iff_of_false Bool.noConfusion (by simp [hb])
    | some branch => simp [hb]

/-- A tree without groups holds nothing. -/
theorem held_of_groups_empty (h : t.groups = ∅) : t.held = ∅ := by
  apply Set.eq_empty_of_forall_notMem
  rintro ⟨group, source⟩ hb
  obtain ⟨branches, branch, hg, -⟩ := mem_held_iff.mp hb
  rw [h] at hg
  cases hg

/-! ## One channel changes -/

theorem branches_setSinks (t : ChannelTree) (c : Channel) (sinks : OrderedSet SinkId)
    (group : Address) : (t.setSinks c sinks).branches group =
      if group = c.group then
        (t.branches c.group).set c.source
          ((t.branch c.group c.source).set c.port sinks.nonempty?).nonempty?
      else t.branches group := by
  rw [branches, setSinks, OrderedMap.get?_set]
  split
  · rw [OrderedMap.getD_nonempty?]
  · rfl

theorem branch_setSinks (t : ChannelTree) (c : Channel) (sinks : OrderedSet SinkId)
    (group : Address) (source : Option Address) : (t.setSinks c sinks).branch group source =
      if group = c.group ∧ source = c.source then
        (t.branch c.group c.source).set c.port sinks.nonempty?
      else t.branch group source := by
  rw [branch, branches_setSinks]
  by_cases hg : group = c.group
  · subst hg
    rw [if_pos rfl, OrderedMap.get?_set]
    by_cases hs : source = c.source
    · rw [if_pos hs, if_pos ⟨rfl, hs⟩, OrderedMap.getD_nonempty?]
    · rw [if_neg hs, if_neg fun h => hs h.2]
      rfl
  · rw [if_neg hg, if_neg fun h => hg h.1]
    rfl

theorem sinksOf_setSinks (t : ChannelTree) (c d : Channel) (sinks : OrderedSet SinkId) :
    (t.setSinks c sinks).sinksOf d = if d = c then sinks else t.sinksOf d := by
  obtain ⟨group, source, port⟩ := d
  rw [sinksOf, branch_setSinks]
  by_cases hb : group = c.group ∧ source = c.source
  · obtain ⟨rfl, rfl⟩ := hb
    rw [if_pos ⟨rfl, rfl⟩, OrderedMap.get?_set]
    by_cases hp : port = c.port
    · subst hp
      rw [if_pos rfl, if_pos rfl, OrderedSet.getD_nonempty?]
    · rw [if_neg hp, if_neg fun h => hp (congrArg Channel.port h)]
      rfl
  · rw [if_neg hb, if_neg fun h => hb (by subst h; exact ⟨rfl, rfl⟩)]
    rfl

theorem mem_held_setSinks {sinks : OrderedSet SinkId} {b : BranchKey} :
    b ∈ (t.setSinks c sinks).held ↔
      if b = (c.group, c.source) then
        ((t.branch c.group c.source).set c.port sinks.nonempty?).isEmpty = false
      else b ∈ t.held := by
  obtain ⟨group, source⟩ := b
  rw [mem_held, branch_setSinks]
  simp only [Prod.mk.injEq]
  split <;> rfl

/-- Who is subscribed to a channel holds its branch. -/
theorem mem_held_of_contains {group : Address} {source : Option Address} {port : UInt16}
    (h : t.contains sink ⟨group, source, port⟩ = true) : (group, source) ∈ t.held := by
  have hm : sink ∈ t.sinksOf ⟨group, source, port⟩ := by simpa [contains] using h
  rw [mem_held, OrderedMap.isEmpty_eq_false_iff]
  cases hp : (t.branch group source).get? port with
  | none => simp [sinksOf, hp] at hm
  | some sinks => exact ⟨port, sinks, hp⟩

theorem held_insert (t : ChannelTree) (sink : SinkId) (c : Channel) :
    (t.insert sink c).held = Insert.insert (c.group, c.source) t.held := by
  ext b
  rw [insert, mem_held_setSinks, Set.mem_insert_iff]
  split
  · next h =>
    refine iff_of_true ?_ (.inl h)
    have hn : ((t.sinksOf c).insert sink).isEmpty = false :=
      OrderedSet.isEmpty_eq_false_iff.mpr ⟨sink, OrderedSet.mem_insert.mpr (.inl rfl)⟩
    rw [OrderedMap.isEmpty_eq_false_iff]
    exact ⟨c.port, (t.sinksOf c).insert sink, by
      rw [OrderedMap.get?_set, if_pos rfl, OrderedSet.nonempty?, hn]; rfl⟩
  · next h => simp [h]

/-- Removing a subscription tells whether its branch was held until now and is
not any more. -/
theorem held_remove (t : ChannelTree) (sink : SinkId) (c : Channel) :
    ((t.remove sink c).1 = true → (c.group, c.source) ∈ t.held ∧
      (t.remove sink c).2.held = t.held \ {(c.group, c.source)}) ∧
    ((t.remove sink c).1 = false → (t.remove sink c).2.held = t.held) := by
  unfold remove
  split
  · next hc =>
    have hb := mem_held_of_contains hc
    have other : ∀ b, b ≠ (c.group, c.source) → (b ∈ (t.erase sink c).held ↔ b ∈ t.held) := by
      intro b hne
      rw [erase, mem_held_setSinks, if_neg hne]
    constructor
    · intro hlast
      refine ⟨hb, Set.ext fun b => ?_⟩
      by_cases h : b = (c.group, c.source)
      · subst h
        have hgone : (c.group, c.source) ∉ (t.erase sink c).held := by
          rw [mem_held, Bool.not_eq_false]
          exact hlast
        exact iff_of_false hgone fun hd => hd.2 rfl
      · rw [other b h]
        exact ⟨fun hm => ⟨hm, h⟩, fun hm => hm.1⟩
    · intro hlast
      apply Set.ext
      intro b
      by_cases h : b = (c.group, c.source)
      · subst h
        exact iff_of_true (mem_held.mpr hlast) hb
      · exact other b h
  · exact ⟨fun h => (by cases h), fun _ => rfl⟩

/-- The branches that a removal of several subscriptions empties are told once each. -/
theorem held_removeAll (sink : SinkId) (cs : List Channel) (t : ChannelTree) :
    (removeAll sink cs t).1.Nodup ∧ (∀ b ∈ (removeAll sink cs t).1, b ∈ t.held) ∧
      (removeAll sink cs t).2.held = t.held \ {b | b ∈ (removeAll sink cs t).1} := by
  induction cs generalizing t with
  | nil => exact ⟨List.nodup_nil, by simp [removeAll], by ext; simp [removeAll]⟩
  | cons c cs ih =>
    obtain ⟨hnodup, hsub, hheld⟩ := ih (t.remove sink c).2
    obtain ⟨hlast, hmore⟩ := held_remove t sink c
    simp only [removeAll]
    cases hr : (t.remove sink c).1 with
    | true =>
      obtain ⟨hb, hh⟩ := hlast hr
      simp only [if_true]
      refine ⟨List.nodup_cons.mpr ⟨?_, hnodup⟩, ?_, ?_⟩
      · intro hm
        have := hsub _ hm
        rw [hh] at this
        exact this.2 rfl
      · intro b hm
        rcases List.mem_cons.mp hm with rfl | hm
        · exact hb
        · have := hsub b hm
          rw [hh] at this
          exact this.1
      · rw [hheld, hh]
        ext b
        simp only [Set.mem_sdiff, Set.mem_singleton_iff, Set.mem_ofPred_eq, List.mem_cons, not_or,
          and_assoc]
    | false =>
      rw [hmore hr] at hsub hheld
      exact ⟨hnodup, hsub, hheld⟩

/-! ## No empty levels -/

/-- Every group stored has a branch, every branch a port and every port a sink. -/
structure Pruned (t : ChannelTree) : Prop where
  ofGroup : ∀ group branches, t.groups.get? group = some branches → branches.isEmpty = false
  ofSource : ∀ group branches source branch, t.groups.get? group = some branches →
    branches.get? source = some branch → branch.isEmpty = false
  ofPort : ∀ (c : Channel) sinks, (t.branch c.group c.source).get? c.port = some sinks →
    sinks.isEmpty = false

theorem pruned_empty : Pruned {} where
  ofGroup _ _ h := by cases h
  ofSource _ _ _ _ h := by cases h
  ofPort c sinks h := by
    have he : (({} : ChannelTree).branch c.group c.source).get? c.port = none := rfl
    rw [he] at h
    cases h

/-- Counters do not matter. -/
theorem Pruned.of_groups {t' : ChannelTree} (h : Pruned t) (hg : t'.groups = t.groups) :
    Pruned t' := by
  cases t
  cases t'
  cases hg
  exact ⟨h.ofGroup, h.ofSource, h.ofPort⟩

theorem Pruned.setSinks (h : Pruned t) (c : Channel) (sinks : OrderedSet SinkId) :
    Pruned (t.setSinks c sinks) := by
  -- A stored level other than the changed one was stored before; the changed
  -- one is stored only where `nonempty?` lets it through.
  constructor
  · intro group branches hg
    rw [ChannelTree.setSinks, OrderedMap.get?_set] at hg
    split at hg
    · exact OrderedMap.isEmpty_of_nonempty? hg
    · exact h.ofGroup _ _ hg
  · intro group branches source branch hg hb
    have hbs : (t.setSinks c sinks).branches group = branches := by
      rw [ChannelTree.branches, hg, Option.getD_some]
    rw [← hbs, branches_setSinks] at hb
    have kept : ∀ g, (t.branches g).get? source = some branch → branch.isEmpty = false := by
      intro g hb
      cases hg : t.groups.get? g with
      | none => simp [ChannelTree.branches, hg] at hb
      | some branches =>
        simp only [ChannelTree.branches, hg, Option.getD_some] at hb
        exact h.ofSource _ _ _ _ hg hb
    split at hb
    · rw [OrderedMap.get?_set] at hb
      split at hb
      · exact OrderedMap.isEmpty_of_nonempty? hb
      · exact kept c.group hb
    · exact kept group hb
  · intro d ss hd
    rw [branch_setSinks] at hd
    split at hd
    · rw [OrderedMap.get?_set] at hd
      split at hd
      · exact OrderedSet.isEmpty_of_nonempty? hd
      · exact h.ofPort ⟨c.group, c.source, d.port⟩ ss hd
    · exact h.ofPort d ss hd

theorem Pruned.remove (h : Pruned t) (sink : SinkId) (c : Channel) :
    Pruned (t.remove sink c).2 := by
  unfold ChannelTree.remove
  split
  · exact h.setSinks _ _
  · exact h

theorem Pruned.removeAll (h : Pruned t) (sink : SinkId) (cs : List Channel) :
    Pruned (removeAll sink cs t).2 := by
  induction cs generalizing t with
  | nil => exact h
  | cons c cs ih => exact ih (h.remove sink c)

/-- A group is stored exactly when one of its branches is held. -/
theorem Pruned.group_iff (h : Pruned t) {group : Address} :
    (t.groups.get? group).isSome = true ↔ ∃ source, (group, source) ∈ t.held := by
  simp only [mem_held_iff]
  constructor
  · intro hs
    obtain ⟨branches, hg⟩ := Option.isSome_iff_exists.mp hs
    obtain ⟨source, branch, hb⟩ := OrderedMap.isEmpty_eq_false_iff.mp (h.ofGroup _ _ hg)
    exact ⟨source, branches, branch, hg, hb, h.ofSource _ _ _ _ hg hb⟩
  · rintro ⟨source, branches, branch, hg, -⟩
    exact Option.isSome_iff_exists.mpr ⟨branches, hg⟩

/-- Only the empty tree holds no branch. -/
theorem Pruned.nonempty_held_iff (h : Pruned t) : t.held.Nonempty ↔ t.isEmpty = false := by
  rw [isEmpty, OrderedMap.isEmpty_eq_false_iff]
  constructor
  · rintro ⟨⟨group, source⟩, hb⟩
    exact ⟨group, Option.isSome_iff_exists.mp (h.group_iff.mpr ⟨source, hb⟩)⟩
  · rintro ⟨group, hg⟩
    obtain ⟨source, hb⟩ := h.group_iff.mp (Option.isSome_iff_exists.mpr hg)
    exact ⟨(group, source), hb⟩

/-- The branches listed are those held. -/
theorem Pruned.mem_joined (h : Pruned t) {b : BranchKey} : b ∈ t.joined ↔ b ∈ t.held := by
  obtain ⟨group, source⟩ := b
  rw [mem_held_iff]
  simp only [joined, List.mem_flatMap, List.mem_map]
  constructor
  · rintro ⟨⟨g, branches⟩, hg, s, hs, he⟩
    cases he
    obtain ⟨branch, hb⟩ := OrderedMap.mem_keys.mp hs
    rw [← OrderedMap.get?_eq_some_iff] at hg
    exact ⟨branches, branch, hg, hb, h.ofSource _ _ _ _ hg hb⟩
  · rintro ⟨branches, branch, hg, hb, -⟩
    exact ⟨(group, branches), OrderedMap.get?_eq_some_iff.mp hg, source,
      OrderedMap.mem_keys.mpr ⟨branch, hb⟩, rfl⟩

/-- Leaving the branches listed leaves nothing. -/
theorem Pruned.held_sdiff_joined (h : Pruned t) : t.held \ {b | b ∈ t.joined} = ∅ := by
  apply Set.eq_empty_of_forall_notMem
  rintro b ⟨hb, hn⟩
  exact hn (h.mem_joined.mpr hb)

theorem nodup_joined (t : ChannelTree) : t.joined.Nodup := by
  apply OrderedMap.nodup_flatMap Prod.fst
  · intro e _
    exact (OrderedMap.nodup_keys e.2).map fun _ _ h => (Prod.mk.inj h).2
  · intro e _ b hb
    obtain ⟨_, _, rfl⟩ := List.mem_map.mp hb
    rfl

/-- Who holds a branch of a pruned tree has a subscriber. -/
theorem Pruned.exists_contains (h : Pruned t) {b : BranchKey} (hb : b ∈ t.held) :
    ∃ sink port, t.contains sink ⟨b.1, b.2, port⟩ = true := by
  obtain ⟨port, sinks, hp⟩ := OrderedMap.isEmpty_eq_false_iff.mp hb
  obtain ⟨sink, hs⟩ := OrderedSet.isEmpty_eq_false_iff.mp (h.ofPort ⟨b.1, b.2, port⟩ sinks hp)
  exact ⟨sink, port, by simpa [contains, sinksOf, hp] using hs⟩

end MulticastTunnel.ChannelTree
