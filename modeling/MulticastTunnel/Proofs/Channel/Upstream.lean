import MulticastTunnel.Proofs.Channel.Contents

/-!
# What a channel tree asks of its control

A tree joins a branch when it comes to be held and leaves it when it is held
no longer. So a relation between the held branches and the state of the
control holds at all times once the control keeps it at single joins and
leaves, whatever answers it gives: a join that is refused is not entered into
the tree, a leave is entered before it is made.
-/

namespace MulticastTunnel

open Ordered MulticastTunnel.Membership

variable {ω : Type}

/-- `P B w` holds on between the branches `B` and the state `w` of the control.
A join may fail for an excused reason only. -/
structure Membership.Control.Tracks (control : Control ω) (excused : MembershipError → Prop)
    (P : Set ChannelTree.BranchKey → ω → Prop) : Prop where
  join : ∀ {B w group source}, P B w → (group, source) ∉ B →
    (control.join group source w).1 = .ok () →
      P (insert (group, source) B) (control.join group source w).2
  refuse : ∀ {B w group source e}, P B w → (group, source) ∉ B →
    (control.join group source w).1 = .error e → excused e →
      P B (control.join group source w).2
  leave : ∀ {B w group source}, P B w → (group, source) ∈ B →
    P (B \ {(group, source)}) (control.leave group source w).2

theorem Channel.validate_ne_membership {c : Channel} {e : MembershipError} :
    c.validate ≠ .error (.membership e) := by
  unfold Channel.validate
  split
  · simp
  split
  · simp
  split <;> simp

namespace ChannelTree

/-- A pruned tree whose held branches are in relation `P` with the control. -/
def Synced (P : Set BranchKey → ω → Prop) (t : ChannelTree) (w : ω) : Prop :=
  t.Pruned ∧ P t.held w

variable {control : Control ω} {excused : MembershipError → Prop}
  {P : Set BranchKey → ω → Prop} {t : ChannelTree} {w : ω}

theorem tracks_leaveBranches (h : control.Tracks excused P) (bs : List BranchKey)
    {B : Set BranchKey} (hn : bs.Nodup) (hb : ∀ b ∈ bs, b ∈ B) (hP : P B w) :
    P (B \ {b | b ∈ bs}) (leaveBranches control bs w).2 := by
  induction bs generalizing B w with
  | nil =>
    have hall : B \ {b | b ∈ ([] : List BranchKey)} = B := by ext b; simp
    rwa [hall]
  | cons b bs ih =>
    obtain ⟨hnb, hnbs⟩ := List.nodup_cons.mp hn
    have hrest : ∀ x ∈ bs, x ∈ B \ {b} := fun x hx =>
      ⟨hb x (List.mem_cons_of_mem _ hx), fun hxb => hnb (hxb ▸ hx)⟩
    have hdiff : B \ {x | x ∈ b :: bs} = (B \ {b}) \ {x | x ∈ bs} := by
      ext x
      simp only [Set.mem_sdiff, Set.mem_ofPred_eq, List.mem_cons, Set.mem_singleton_iff, not_or,
        and_assoc]
    rw [hdiff]
    exact ih hnbs hrest (h.leave hP (hb b List.mem_cons_self))

/-- What fails upstream is the join of the control. -/
theorem control_join_of_join {sink : SinkId} {c : Channel} {e : MembershipError}
    (h : (t.join control sink c w).1 = .error (.membership e)) :
    (control.join c.group c.source w).1 = .error e := by
  revert h
  unfold join
  split
  · rintro ⟨⟩
    next e' hv => exact absurd hv Channel.validate_ne_membership
  split
  · split
    · next e' w' heq =>
      rintro ⟨⟩
      rw [heq]
    · intro h
      cases h
  · intro h
    cases h

theorem synced_join (h : control.Tracks excused P) (hs : Synced P t w) {sink : SinkId} {c : Channel}
    (he : ∀ e, (t.join control sink c w).1 = .error (.membership e) → excused e) :
    Synced P (t.join control sink c w).2.1 (t.join control sink c w).2.2 := by
  revert he
  unfold join
  split
  · exact fun _ => hs
  split
  · next hempty =>
    have hout : (c.group, c.source) ∉ t.held := by rw [mem_held, hempty]; exact Bool.noConfusion
    split
    · next e w' heq =>
      intro he
      have := h.refuse hs.2 hout (congrArg Prod.fst heq) (he e rfl)
      rw [heq] at this
      exact ⟨hs.1, this⟩
    · next w' heq =>
      intro _
      have := h.join hs.2 hout (congrArg Prod.fst heq)
      rw [heq, ← held_insert t sink c] at this
      exact ⟨hs.1.setSinks _ _, this⟩
  · next hheld =>
    intro _
    have hin : (c.group, c.source) ∈ t.held := mem_held.mpr (by simpa using hheld)
    refine ⟨hs.1.setSinks _ _, ?_⟩
    rw [held_insert, Set.insert_eq_of_mem hin]
    exact hs.2

theorem synced_leave (h : control.Tracks excused P) (hs : Synced P t w) (sink : SinkId)
    (c : Channel) : Synced P (t.leave control sink c w).2.1 (t.leave control sink c w).2.2 := by
  obtain ⟨hlast, hmore⟩ := held_remove t sink c
  have hp := hs.1.remove sink c
  simp only [leave]
  split
  · next hl =>
    obtain ⟨hb, hh⟩ := hlast hl
    refine ⟨hp, ?_⟩
    rw [hh]
    exact h.leave hs.2 hb
  · next hl =>
    refine ⟨hp, ?_⟩
    rw [hmore (by simpa using hl)]
    exact hs.2

theorem synced_leaveSink (h : control.Tracks excused P) (hs : Synced P t w) (sink : SinkId) :
    Synced P (t.leaveSink control sink w).2.1 (t.leaveSink control sink w).2.2 := by
  obtain ⟨hn, hsub, hheld⟩ := held_removeAll sink (t.channelsOf sink) t
  refine ⟨hs.1.removeAll _ _, ?_⟩
  simp only [leaveSink]
  rw [hheld]
  exact tracks_leaveBranches h _ hn hsub hs.2

theorem synced_flush (h : control.Tracks excused P) (hs : Synced P t w) :
    Synced P (t.flush control w).1 (t.flush control w).2 := by
  refine ⟨pruned_empty.of_groups rfl, ?_⟩
  have hP := tracks_leaveBranches h t.joined t.nodup_joined (fun b hb => hs.1.mem_joined.mp hb) hs.2
  rw [hs.1.held_sdiff_joined] at hP
  rw [held_of_groups_empty rfl]
  exact hP

theorem synced_evict (h : control.Tracks excused P) (sinks : List SinkId) (hs : Synced P t w) :
    Synced P (evict control sinks t w).1 (evict control sinks t w).2 := by
  induction sinks generalizing t w with
  | nil => exact hs
  | cons sink sinks ih =>
    have hcount : Synced P { t with evictions := t.evictions + 1 } w :=
      ⟨hs.1.of_groups rfl, hs.2⟩
    exact ih (synced_leaveSink h hcount sink)

theorem deliverAll_keeps {deliver : Deliver ω} {Q : ω → Prop}
    (hd : ∀ sink d w, Q w → Q (deliver sink d w).2) (d : Datagram) (sinks : List SinkId)
    (hQ : Q w) : Q (deliverAll deliver d sinks w).2 := by
  induction sinks generalizing w with
  | nil => exact hQ
  | cons sink sinks ih =>
    have := ih (hd sink d w hQ)
    simp only [deliverAll]
    split <;> exact this

theorem synced_dispatch {deliver : Deliver ω} (h : control.Tracks excused P)
    (hd : ∀ B sink d w, P B w → P B (deliver sink d w).2) (hs : Synced P t w) (d : Datagram) :
    Synced P (t.dispatch control deliver d w).2.1 (t.dispatch control deliver d w).2.2 := by
  have hP := deliverAll_keeps (hd t.held) d (t.recipients d) hs.2
  have hcount : ∀ n, Synced P { t with delivered := n }
      (deliverAll deliver d (t.recipients d) w).2 :=
    fun _ => ⟨hs.1.of_groups rfl, hP⟩
  simp only [dispatch]
  split
  · exact synced_flush h (hcount _)
  · exact synced_evict h _ (hcount _)

end ChannelTree

end MulticastTunnel
