import MulticastTunnel.Proofs.Channel.Upstream

/-!
# Answers of sinks

What a dispatch leaves of the tree depends on what the sinks answer, and on nothing else: neither
on the control, which is asked to leave branches after they were removed, nor on the state of the
world. So a dispatch may be told by the answers alone. What leaves keep outlasts all of a dispatch
but the datagram itself.
-/

namespace MulticastTunnel

open Ordered MulticastTunnel.Membership

/-- A control that has nothing to do. -/
def Membership.Control.idle : Control Unit where
  join _ _ w := (.ok (), w)
  leave _ _ w := (.ok (), w)

namespace ChannelTree

/-- Sinks that answer whatever they are given by their name. -/
def answering (answer : SinkId → Except SinkError Unit) : Deliver Unit := fun sink _ w =>
  (answer sink, w)

/-- The tree that a dispatch leaves when its recipients give these answers. -/
def dispatched (t : ChannelTree) (answer : SinkId → Except SinkError Unit) (d : Datagram) :
    ChannelTree :=
  (t.dispatch .idle (answering answer) d ()).2.1

variable {ω ω' : Type} {control : Control ω} {control' : Control ω'} {deliver : Deliver ω}
  {deliver' : Deliver ω'} {answer answer' : SinkId → Except SinkError Unit} {t : ChannelTree}
  {d : Datagram} {w : ω} {w' : ω'}

/-- Whoever is asked to leave the branches, the same ones are gone. -/
theorem evict_eq (control : Control ω) (control' : Control ω') (sinks : List SinkId)
    (t : ChannelTree) (w : ω) (w' : ω') :
    (evict control sinks t w).1 = (evict control' sinks t w').1 := by
  induction sinks generalizing t w w' with
  | nil => rfl
  | cons sink sinks ih => exact ih _ _ _

/-- A dispatch leaves the same tree when the delivery comes to the same. -/
theorem dispatch_eq (h : (deliverAll deliver d (t.recipients d) w).1 =
    (deliverAll deliver' d (t.recipients d) w').1) :
    (t.dispatch control deliver d w).2.1 = (t.dispatch control' deliver' d w').2.1 := by
  simp only [dispatch, h]
  split
  · rfl
  · exact evict_eq control control' _ _ _ _

/-- Only the answers of the recipients count. -/
theorem deliverAll_answering (sinks : List SinkId) (h : ∀ s ∈ sinks, answer s = answer' s) :
    deliverAll (answering answer) d sinks () = deliverAll (answering answer') d sinks () := by
  induction sinks with
  | nil => rfl
  | cons sink sinks ih =>
    rw [List.forall_mem_cons] at h
    simp only [deliverAll, answering, h.1]
    rw [show deliverAll (answering answer) d sinks () = _ from ih h.2]

/-! ## What leaves keep -/

section Keeps

variable {P : ω → Prop} (h : ∀ group source w, P w → P (control.leave group source w).2)

include h

theorem leaveBranches_keeps (bs : List (Address × Option Address)) (hw : P w) :
    P (leaveBranches control bs w).2 := by
  induction bs generalizing w with
  | nil => exact hw
  | cons b bs ih => exact ih (h b.1 b.2 w hw)

theorem evict_keeps (sinks : List SinkId) (t : ChannelTree) (hw : P w) :
    P (evict control sinks t w).2 := by
  induction sinks generalizing t w with
  | nil => exact hw
  | cons sink sinks ih => exact ih _ (leaveBranches_keeps h _ hw)

/-- What holds once the datagram was given to its recipients holds when all is done. -/
theorem dispatch_keeps (hw : P (deliverAll deliver d (t.recipients d) w).2) :
    P (t.dispatch control deliver d w).2.2 := by
  simp only [dispatch]
  split
  · exact leaveBranches_keeps h _ hw
  · exact evict_keeps h _ _ hw

end Keeps

end ChannelTree

end MulticastTunnel
