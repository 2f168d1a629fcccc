import Mathlib.Data.List.Chain
import MulticastTunnel.Proofs.Channel.Subscriptions

/-!
# Joins and leaves are balanced

For one branch the calls of a run come down to turns: it was joined, or it was
left. Joins that were refused are no turns. The turns alternate, and the last
one tells whether anybody is subscribed.

One step has at most one turn for a branch: `Shift.turns_cases` reads it off
the branches held before and after. So the state of a branch is its last turn,
and the next one is the other.
-/

namespace MulticastTunnel.ChannelTree

open Ordered MulticastTunnel.Membership

variable {t t' : ChannelTree} {b : BranchKey} {held held' : Set BranchKey} {calls : List Call}

/-- Somebody is subscribed under the branch. -/
def Subscribed (t : ChannelTree) (b : BranchKey) : Prop :=
  ∃ sink port, t.contains sink ⟨b.1, b.2, port⟩ = true

theorem Pruned.mem_held_iff_subscribed (h : t.Pruned) : b ∈ t.held ↔ t.Subscribed b := by
  constructor
  · exact h.exists_contains
  · rintro ⟨sink, port, hc⟩
    exact mem_held_of_contains hc

/-! ## Turns -/

inductive Turn
  | joined
  | left
deriving DecidableEq, Repr

/-- The turn that a call is for a branch. -/
def Call.turn? (b : BranchKey) : Call → Option Turn
  | join c (.ok ()) => if c = b then some .joined else none
  | leave c _ => if c = b then some .left else none
  | _ => none

/-- The turns of a branch, in order. -/
def turns (b : BranchKey) (history : List Episode) : List Turn :=
  (history.flatMap (·.calls)).filterMap (Call.turn? b)

theorem turns_snoc (b : BranchKey) (history : List Episode) (e : Episode) :
    turns b (history ++ [e]) = turns b history ++ e.calls.filterMap (Call.turn? b) := by
  unfold turns
  rw [List.flatMap_append, List.filterMap_append, List.flatMap_singleton]

/-- Joined, left, joined, left and so on. -/
structure Alternates (turns : List Turn) : Prop where
  chain : turns.IsChain (· ≠ ·)
  begins : turns.head? ≠ some .left

theorem alternates_nil : Alternates [] := ⟨.nil, by simp⟩

variable {ts : List Turn}

theorem Alternates.joined (h : Alternates ts) (hl : ts.getLast? ≠ some .joined) :
    Alternates (ts ++ [.joined]) where
  chain := by
    refine h.chain.append (.singleton _) ?_
    rintro x hx y ⟨⟩ rfl
    exact hl hx
  begins := by
    rw [List.head?_append]
    cases ts with
    | nil => simp
    | cons x ts => exact h.begins

theorem Alternates.left (h : Alternates ts) (hl : ts.getLast? = some .joined) :
    Alternates (ts ++ [.left]) where
  chain := by
    refine h.chain.append (.singleton _) ?_
    rintro x hx y ⟨⟩ rfl
    rw [Option.mem_def, hl] at hx
    cases hx
  begins := by
    rw [List.head?_append]
    cases ts with
    | nil => cases hl
    | cons x ts => exact h.begins

/-! ## One step -/

theorem mem_left_iff : (∃ answer, Call.leave b answer ∈ calls) ↔ b ∈ calls.filterMap Call.left? := by
  rw [List.mem_filterMap]
  constructor
  · rintro ⟨answer, hm⟩
    exact ⟨_, hm, rfl⟩
  · rintro ⟨call, hm, hb⟩
    cases call with
    | join c answer => cases hb
    | leave c answer =>
      cases hb
      exact ⟨answer, hm⟩
    | deliver h => cases hb

theorem Leaves.filterMap_left? {bs : List BranchKey} (h : Leaves bs calls) (hs : List Handover) :
    (hs.map Call.deliver ++ calls).filterMap Call.left? = bs := by
  have hquiet : (hs.map Call.deliver).filterMap Call.left? = [] := by
    rw [List.filterMap_map, List.filterMap_eq_nil_iff]
    intro x _
    rfl
  have hmap : calls.filterMap Call.left? = (calls.map Call.left?).filterMap id := by
    rw [List.filterMap_map]
    rfl
  rw [List.filterMap_append, hquiet, List.nil_append, hmap,
    show calls.map Call.left? = bs.map some from h, List.filterMap_map]
  exact List.filterMap_some

/-- Branches that are left each once have one turn each. -/
theorem Leaves.filterMap_turn? {bs : List BranchKey} (h : Leaves bs calls) (hn : bs.Nodup) :
    calls.filterMap (Call.turn? b) = if b ∈ bs then [.left] else [] := by
  induction bs generalizing calls with
  | nil =>
    rw [List.map_eq_nil_iff.mp h]
    rfl
  | cons c bs ih =>
    obtain ⟨hnc, hn⟩ := List.nodup_cons.mp hn
    obtain ⟨call, rest, rfl, hcall, hrest⟩ := List.map_eq_cons_iff.mp h
    cases call with
    | join _ _ => cases hcall
    | deliver _ => cases hcall
    | leave c' answer =>
      cases hcall
      by_cases hb : c = b
      · subst hb
        rw [List.filterMap_cons_some (by simp [Call.turn?]; rfl), ih hrest hn, if_neg hnc,
          if_pos List.mem_cons_self]
      · rw [List.filterMap_cons_none (by simp [Call.turn?, hb]), ih hrest hn]
        simp [Ne.symm hb]

/-- A branch has a turn exactly when it comes to be held or is held no longer. -/
theorem Shift.turns_cases (h : Shift held held' calls) (b : BranchKey) :
    (calls.filterMap (Call.turn? b) = [] ∧ (b ∈ held' ↔ b ∈ held)) ∨
    (calls.filterMap (Call.turn? b) = [.joined] ∧ b ∉ held ∧ b ∈ held') ∨
    (calls.filterMap (Call.turn? b) = [.left] ∧ b ∈ held ∧ b ∉ held') := by
  cases h with
  | @joined c hout =>
    by_cases hb : c = b
    · subst hb
      exact .inr (.inl ⟨by simp [Call.turn?], hout, Set.mem_insert c held⟩)
    · exact .inl ⟨by simp [Call.turn?, hb], by simp [Ne.symm hb]⟩
  | refused hout e => exact .inl ⟨rfl, Iff.rfl⟩
  | lowered hs hlow =>
    obtain ⟨bs, hl, hn, hsub, rfl⟩ := hlow
    have hquiet : (hs.map Call.deliver).filterMap (Call.turn? b) = [] := by
      rw [List.filterMap_map, List.filterMap_eq_nil_iff]
      intro x _
      rfl
    rw [List.filterMap_append, hquiet, List.nil_append, hl.filterMap_turn? hn]
    by_cases hb : b ∈ bs
    · exact .inr (.inr ⟨if_pos hb, hsub b hb, fun hd => hd.2 hb⟩)
    · exact .inl ⟨if_neg hb, fun hd => hd.1, fun hin => ⟨hin, hb⟩⟩

theorem Shift.not_mem_of_join {answer : Except MembershipError Unit}
    (h : Shift held held' calls) (hm : Call.join b answer ∈ calls) : b ∉ held := by
  cases h with
  | joined hout =>
    cases List.mem_singleton.mp hm
    exact hout
  | refused hout e =>
    cases List.mem_singleton.mp hm
    exact hout
  | @lowered hs _ more hlow =>
    obtain ⟨bs, hl, -⟩ := hlow
    rcases List.mem_append.mp hm with hm | hm
    · simp at hm
    · have hleft : (Call.join b answer).left? ∈ more.map Call.left? := List.mem_map_of_mem hm
      rw [show more.map Call.left? = bs.map some from hl] at hleft
      simp [Call.left?] at hleft

theorem Shift.leave_iff (h : Shift held held' calls) :
    (∃ answer, Call.leave b answer ∈ calls) ↔ b ∈ held ∧ b ∉ held' := by
  cases h with
  | joined hout => exact iff_of_false (by simp) fun h => h.2 (Set.mem_insert_of_mem _ h.1)
  | refused hout e => exact iff_of_false (by simp) fun h => h.2 h.1
  | lowered hs hlow =>
    obtain ⟨bs, hl, -, hsub, rfl⟩ := hlow
    rw [mem_left_iff, hl.filterMap_left? hs]
    constructor
    · exact fun hb => ⟨hsub b hb, fun hd => hd.2 hb⟩
    · rintro ⟨hb, hd⟩
      exact not_not.mp fun hnb => hd ⟨hb, hnb⟩

theorem Shift.nodup_left (h : Shift held held' calls) : (calls.filterMap Call.left?).Nodup := by
  cases h with
  | joined hout => exact List.nodup_nil
  | refused hout e => exact List.nodup_nil
  | lowered hs hlow =>
    obtain ⟨bs, hl, hn, -⟩ := hlow
    rw [hl.filterMap_left? hs]
    exact hn

/-- A branch is joined only while nobody is subscribed, and left, once, exactly
when the last subscription goes. -/
structure Sparing (t t' : ChannelTree) (calls : List Call) : Prop where
  joins : ∀ b answer, Call.join b answer ∈ calls → ¬ t.Subscribed b
  leaves : ∀ b, (∃ answer, Call.leave b answer ∈ calls) ↔ t.Subscribed b ∧ ¬ t'.Subscribed b
  once : (calls.filterMap Call.left?).Nodup

theorem Step.sparing (s : Step) (hp : t.Pruned) : Sparing t (s.after t) (s.calls t) := by
  have hp' : (s.after t).Pruned := hp.perform s.control s.deliver s.request s.world
  have hshift := s.shift hp
  constructor
  · intro b answer hm hs
    exact hshift.not_mem_of_join hm (hp.mem_held_iff_subscribed.mpr hs)
  · intro b
    rw [← hp.mem_held_iff_subscribed, ← hp'.mem_held_iff_subscribed]
    exact hshift.leave_iff
  · exact hshift.nodup_left

/-! ## Runs -/

/-- The turns alternate, and the last one tells whether somebody is subscribed. -/
structure Balanced (t : ChannelTree) (b : BranchKey) (turns : List Turn) : Prop where
  alternates : Alternates turns
  standing : t.Subscribed b ↔ turns.getLast? = some .joined

theorem Balanced.step (h : Balanced t b ts) (hp : t.Pruned) (s : Step) :
    Balanced (s.after t) b (ts ++ (s.calls t).filterMap (Call.turn? b)) := by
  have hp' : (s.after t).Pruned := hp.perform s.control s.deliver s.request s.world
  have hheld := hp.mem_held_iff_subscribed (b := b)
  have hheld' := hp'.mem_held_iff_subscribed (b := b)
  rcases (s.shift hp).turns_cases b with ⟨hts, hsame⟩ | ⟨hts, hout, hin⟩ | ⟨hts, hin, hout⟩
  · rw [hts, List.append_nil]
    exact ⟨h.alternates, by rw [← hheld', hsame, hheld]; exact h.standing⟩
  · rw [hts]
    refine ⟨h.alternates.joined fun hl => hout (hheld.mpr (h.standing.mpr hl)), ?_⟩
    rw [List.getLast?_concat]
    exact iff_of_true (hheld'.mp hin) rfl
  · rw [hts]
    refine ⟨h.alternates.left (h.standing.mp (hheld.mp hin)), ?_⟩
    rw [List.getLast?_concat]
    exact iff_of_false (fun hs => hout (hheld'.mpr hs)) (by simp)

theorem balanced_run (steps : List Step) (b : BranchKey) :
    Balanced (run steps).2 b (turns b (run steps).1) := by
  induction steps using List.reverseRecOn with
  | nil =>
    refine ⟨alternates_nil, iff_of_false ?_ (by simp [turns, run])⟩
    rintro ⟨sink, port, hc⟩
    exact not_contains_of_groups_empty rfl hc
  | append_singleton steps s ih =>
    rw [run_snoc]
    show Balanced (s.after (run steps).2) b (turns b ((run steps).1 ++ [s.episode _]))
    rw [turns_snoc]
    exact ih.step (represents_run steps).pruned s

/-- **Joins and leaves are balanced**: in every run, whatever control and sinks
answer, each branch is joined and left in turn, joins that are refused left
out, and somebody is subscribed to it exactly when it was joined last. No step
joins a branch that has a subscription, and each leaves exactly the branches
that lose their last one. -/
theorem run_balanced (steps : List Step) :
    (∀ b, Balanced (run steps).2 b (turns b (run steps).1)) ∧
      ∀ s : Step, Sparing (run steps).2 (s.after (run steps).2)
        (s.episode (run steps).2).calls := by
  constructor
  · intro b
    exact balanced_run steps b
  · intro s
    exact s.sparing (represents_run steps).pruned

/-- The join that is refused in between is no turn. -/
example :
    let answering (answer : Except MembershipError Unit) : Control Unit :=
      ⟨fun _ _ w => (answer, w), fun _ _ w => (answer, w)⟩
    let ask (answer : Except MembershipError Unit) (request : Request) : Step :=
      ⟨answering answer, fun _ _ w => (.ok (), w), (), request⟩
    let c : Channel := ⟨.v4 #v[232, 1, 2, 3], none, 5000⟩
    let steps := [ask (.ok ()) (.join ⟨1⟩ c), ask (.error .closed) (.leave ⟨1⟩ c),
      ask (.error .closed) (.join ⟨2⟩ c), ask (.ok ()) (.join ⟨2⟩ c)]
    turns (c.group, c.source) (run steps).1 = [.joined, .left, .joined] := by
  decide +kernel

end MulticastTunnel.ChannelTree
