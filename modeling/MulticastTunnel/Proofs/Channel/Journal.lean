import MulticastTunnel.Proofs.Channel.Contents

/-!
# Journals of channel trees

A run of a tree is a list of requests, each of which meets a control, sinks and
a world of its own that answer what they like. A journal is kept of the calls
that the tree makes to them, in order and with the answers.

The journal is written by the control and the sinks themselves, `journaled`,
and nothing else depends on it: each operation comes with a lemma by which it
returns and leaves behind the same with a journal as without, and which tells
the calls that were added. A join makes at most one call, and only for a branch
that is not held. Everything else first hands the datagram out, if there is
one, and then leaves branches, each once, that were held and are not any more.
-/

namespace MulticastTunnel

open Ordered MulticastTunnel.Membership

namespace ChannelTree

/-! ## Calls -/

/-- A datagram given to a sink, and what the sink answered. -/
structure Handover where
  sink : SinkId
  datagram : Datagram
  answer : Except SinkError Unit

namespace Handover

def taken (h : Handover) : Bool := h.answer matches .ok ()

def gone (h : Handover) : Bool := h.answer matches .error .disconnected

def fatal (h : Handover) : Bool := h.answer matches .error (.fatal _)

end Handover

/-- A call that a tree makes, and the answer that it gets. -/
inductive Call
  | join (branch : BranchKey) (answer : Except MembershipError Unit)
  | leave (branch : BranchKey) (answer : Except MembershipError Unit)
  | deliver (handover : Handover)

namespace Call

def handover? : Call → Option Handover
  | deliver h => some h
  | _ => none

def left? : Call → Option BranchKey
  | leave b _ => some b
  | _ => none

end Call

end ChannelTree

/-- The same control, which enters its calls and answers into a journal. -/
def Membership.Control.journaled {ω : Type} (control : Control ω) :
    Control (List ChannelTree.Call × ω) where
  join group source := fun (calls, w) =>
    let (answer, w) := control.join group source w
    (answer, calls ++ [.join (group, source) answer], w)
  leave group source := fun (calls, w) =>
    let (answer, w) := control.leave group source w
    (answer, calls ++ [.leave (group, source) answer], w)

namespace ChannelTree

/-- The same sinks, which enter what they are given into a journal. -/
def Deliver.journaled {ω : Type} (deliver : Deliver ω) : Deliver (List Call × ω) :=
  fun sink d (calls, w) =>
    let (answer, w) := deliver sink d w
    (answer, calls ++ [.deliver ⟨sink, d, answer⟩], w)

/-! ## Runs -/

/-- What is asked of a tree. -/
inductive Request
  | join (sink : SinkId) (c : Channel)
  | leave (sink : SinkId) (c : Channel)
  | leaveSink (sink : SinkId)
  | dispatch (d : Datagram)
  | flush

inductive Outcome
  | done (result : Except ChannelError Unit)
  | delivered (count : Nat)

def Outcome.isOk : Outcome → Bool
  | done (.ok ()) => true
  | _ => false

def perform {ω : Type} (control : Control ω) (deliver : Deliver ω) :
    Request → ChannelTree → ω → Outcome × ChannelTree × ω
  | .join sink c, t, w => (t.join control sink c w).map .done id
  | .leave sink c, t, w => (t.leave control sink c w).map .done id
  | .leaveSink sink, t, w => (t.leaveSink control sink w).map .done id
  | .dispatch d, t, w => (t.dispatch control deliver d w).map .delivered id
  | .flush, t, w => (.done (.ok ()), t.flush control w)

/-- A request, and the control, the sinks and the world that it meets. -/
structure Step where
  {ω : Type}
  control : Control ω
  deliver : Deliver ω
  world : ω
  request : Request

/-- What is seen of a step. -/
structure Episode where
  request : Request
  outcome : Outcome
  calls : List Call

def Episode.handovers (e : Episode) : List Handover := e.calls.filterMap Call.handover?

namespace Step

def after (s : Step) (t : ChannelTree) : ChannelTree :=
  (perform s.control s.deliver s.request t s.world).2.1

def calls (s : Step) (t : ChannelTree) : List Call :=
  (perform s.control.journaled (Deliver.journaled s.deliver) s.request t ([], s.world)).2.2.1

def episode (s : Step) (t : ChannelTree) : Episode where
  request := s.request
  outcome := (perform s.control s.deliver s.request t s.world).1
  calls := s.calls t

end Step

/-- What is seen of the steps, the latest last, and the tree that they make of
the empty one. -/
def run (steps : List Step) : List Episode × ChannelTree :=
  steps.foldl (fun (history, t) s => (history ++ [s.episode t], s.after t)) ([], {})

theorem run_snoc (steps : List Step) (s : Step) : run (steps ++ [s]) =
    ((run steps).1 ++ [s.episode (run steps).2], s.after (run steps).2) := by
  unfold run
  rw [List.foldl_append]
  rfl

/-! ## Leaving branches -/

variable {ω : Type} {control : Control ω} {deliver : Deliver ω} {t : ChannelTree}

/-- The calls leave the branches, in this order. -/
def Leaves (bs : List BranchKey) (calls : List Call) : Prop := calls.map Call.left? = bs.map some

theorem leaves_nil : Leaves [] [] := rfl

theorem Leaves.append {bs cs : List BranchKey} {calls more : List Call} (h : Leaves bs calls)
    (hm : Leaves cs more) : Leaves (bs ++ cs) (calls ++ more) := by
  unfold Leaves
  rw [List.map_append, h, hm, List.map_append]

/-- Who leaves hands nothing out. -/
theorem Leaves.filterMap_handover? {bs : List BranchKey} {calls : List Call} (h : Leaves bs calls) :
    calls.filterMap Call.handover? = [] := by
  rw [List.filterMap_eq_nil_iff]
  intro call hc
  have hl : call.left? ∈ bs.map some := h ▸ List.mem_map_of_mem hc
  cases call with
  | join b answer => rfl
  | leave b answer => rfl
  | deliver h => simp [Call.left?] at hl

/-- The calls leave exactly the branches that were held and are not any more,
each of them once. -/
def Lowers (held held' : Set BranchKey) (calls : List Call) : Prop :=
  ∃ bs : List BranchKey, Leaves bs calls ∧ bs.Nodup ∧ (∀ b ∈ bs, b ∈ held) ∧
    held' = held \ {b | b ∈ bs}

theorem Lowers.refl (held : Set BranchKey) : Lowers held held [] :=
  ⟨[], leaves_nil, List.nodup_nil, by simp, by ext; simp⟩

theorem Lowers.trans {B B' B'' : Set BranchKey} {calls more : List Call} (h : Lowers B B' calls)
    (hm : Lowers B' B'' more) : Lowers B B'' (calls ++ more) := by
  obtain ⟨bs, hl, hn, hb, rfl⟩ := h
  obtain ⟨cs, hlc, hnc, hc, rfl⟩ := hm
  refine ⟨bs ++ cs, hl.append hlc, ?_, ?_, ?_⟩
  · exact List.nodup_append'.mpr ⟨hn, hnc, fun b hin hin' => (hc b hin').2 hin⟩
  · intro b hin
    rcases List.mem_append.mp hin with hin | hin
    · exact hb b hin
    · exact (hc b hin).1
  · ext b
    simp only [Set.mem_sdiff, Set.mem_ofPred_eq, List.mem_append, not_or, and_assoc]

theorem leaveBranches_journaled (control : Control ω) (bs : List BranchKey) (calls : List Call)
    (w : ω) : ∃ more, leaveBranches control.journaled bs (calls, w) =
        ((leaveBranches control bs w).1, calls ++ more, (leaveBranches control bs w).2) ∧
      Leaves bs more := by
  induction bs generalizing calls w with
  | nil => exact ⟨[], by rw [List.append_nil]; rfl, leaves_nil⟩
  | cons b bs ih =>
    obtain ⟨group, source⟩ := b
    let first := control.leave group source w
    obtain ⟨more, hmore, hl⟩ := ih (calls ++ [.leave (group, source) first.1]) first.2
    refine ⟨.leave (group, source) first.1 :: more, ?_, congrArg (some (group, source) :: ·) hl⟩
    show (first.1.bind fun _ => (leaveBranches control.journaled bs
        (calls ++ [.leave (group, source) first.1], first.2)).1,
      (leaveBranches control.journaled bs
        (calls ++ [.leave (group, source) first.1], first.2)).2) = _
    rw [hmore, List.append_assoc]
    rfl

theorem leave_journaled (control : Control ω) (sink : SinkId) (c : Channel) (t : ChannelTree)
    (calls : List Call) (w : ω) :
    ∃ more, t.leave control.journaled sink c (calls, w) = ((t.leave control sink c w).1,
        (t.leave control sink c w).2.1, calls ++ more, (t.leave control sink c w).2.2) ∧
      Lowers t.held (t.leave control sink c w).2.1.held more := by
  obtain ⟨hlast, hmore⟩ := held_remove t sink c
  simp only [leave]
  split
  · next hl =>
    obtain ⟨hb, hh⟩ := hlast hl
    refine ⟨_, rfl, [(c.group, c.source)], rfl, List.nodup_singleton _, by simpa using hb, ?_⟩
    rw [hh]
    ext
    simp
  · next hl =>
    refine ⟨[], by rw [List.append_nil], ?_⟩
    rw [hmore (by simpa using hl)]
    exact Lowers.refl _

theorem leaveSink_journaled (control : Control ω) (sink : SinkId) (t : ChannelTree)
    (calls : List Call) (w : ω) :
    ∃ more, t.leaveSink control.journaled sink (calls, w) = ((t.leaveSink control sink w).1,
        (t.leaveSink control sink w).2.1, calls ++ more, (t.leaveSink control sink w).2.2) ∧
      Lowers t.held (t.leaveSink control sink w).2.1.held more := by
  obtain ⟨hn, hsub, hheld⟩ := held_removeAll sink (t.channelsOf sink) t
  obtain ⟨more, hmore, hl⟩ :=
    leaveBranches_journaled control (removeAll sink (t.channelsOf sink) t).1 calls w
  refine ⟨more, ?_, _, hl, hn, hsub, hheld⟩
  simp only [leaveSink]
  rw [hmore]

theorem flush_journaled (control : Control ω) (h : t.Pruned) (calls : List Call) (w : ω) :
    ∃ more, t.flush control.journaled (calls, w) =
        ((t.flush control w).1, calls ++ more, (t.flush control w).2) ∧
      Lowers t.held (t.flush control w).1.held more := by
  obtain ⟨more, hmore, hl⟩ := leaveBranches_journaled control t.joined calls w
  refine ⟨more, ?_, t.joined, hl, t.nodup_joined, fun b hb => h.mem_joined.mp hb, ?_⟩
  · simp only [flush]
    rw [hmore]
  · rw [h.held_sdiff_joined]
    exact held_of_groups_empty rfl

theorem evict_journaled (control : Control ω) (sinks : List SinkId) (t : ChannelTree)
    (calls : List Call) (w : ω) :
    ∃ more, evict control.journaled sinks t (calls, w) =
        ((evict control sinks t w).1, calls ++ more, (evict control sinks t w).2) ∧
      Lowers t.held (evict control sinks t w).1.held more := by
  induction sinks generalizing t calls w with
  | nil => exact ⟨[], by rw [List.append_nil]; rfl, Lowers.refl _⟩
  | cons sink sinks ih =>
    let counted : ChannelTree := { t with evictions := t.evictions + 1 }
    obtain ⟨first, hfirst, hl⟩ := leaveSink_journaled control sink counted calls w
    obtain ⟨rest, hrest, hr⟩ := ih (counted.leaveSink control sink w).2.1 (calls ++ first)
      (counted.leaveSink control sink w).2.2
    refine ⟨first ++ rest, ?_, Lowers.trans hl hr⟩
    show evict control.journaled sinks
        (counted.leaveSink control.journaled sink (calls, w)).2.1
        (counted.leaveSink control.journaled sink (calls, w)).2.2 = _
    rw [hfirst, hrest, List.append_assoc]
    rfl

/-! ## Handing out -/

/-- The datagram goes to the sinks in order, and their answers make up the delivery. -/
structure HandsOut (d : Datagram) (sinks : List SinkId) (delivery : Delivery)
    (hs : List Handover) : Prop where
  sinks : hs.map (·.sink) = sinks
  datagram : ∀ h ∈ hs, h.datagram = d
  taken : delivery.taken = hs.countP (·.taken)
  gone : delivery.gone = (hs.filter (·.gone)).map (·.sink)
  failed : delivery.failed = hs.any (·.fatal)

/-- A delivery with one handover more in front. -/
def Delivery.note (x : Handover) (rest : Delivery) : Delivery :=
  match x.answer with
  | .ok () => { rest with taken := rest.taken + 1 }
  | .error .disconnected => { rest with gone := x.sink :: rest.gone }
  | .error (.fatal _) => { rest with failed := true }

theorem deliverAll_cons {d : Datagram} {sink : SinkId} {answer : Except SinkError Unit} {w w' : ω}
    (h : deliver sink d w = (answer, w')) (sinks : List SinkId) :
    deliverAll deliver d (sink :: sinks) w =
      ((deliverAll deliver d sinks w').1.note ⟨sink, d, answer⟩,
        (deliverAll deliver d sinks w').2) := by
  simp only [deliverAll, h]
  rcases answer with (_ | _) | _ <;> rfl

theorem HandsOut.cons {d : Datagram} {sinks : List SinkId} {delivery : Delivery}
    {hs : List Handover} (h : HandsOut d sinks delivery hs) (x : Handover) (hx : x.datagram = d) :
    HandsOut d (x.sink :: sinks) (delivery.note x) (x :: hs) where
  sinks := by rw [List.map_cons, h.sinks]
  datagram y hy := by
    rcases List.mem_cons.mp hy with rfl | hy
    · exact hx
    · exact h.datagram y hy
  taken := by
    obtain ⟨sink, datagram, (_ | _) | _⟩ := x <;> simp [Delivery.note, Handover.taken, h.taken]
  gone := by
    obtain ⟨sink, datagram, (_ | _) | _⟩ := x <;> simp [Delivery.note, Handover.gone, h.gone]
  failed := by
    obtain ⟨sink, datagram, (_ | _) | _⟩ := x <;> simp [Delivery.note, Handover.fatal, h.failed]

theorem deliverAll_journaled (deliver : Deliver ω) (d : Datagram) (sinks : List SinkId)
    (calls : List Call) (w : ω) :
    ∃ hs, deliverAll (Deliver.journaled deliver) d sinks (calls, w) =
        ((deliverAll deliver d sinks w).1, calls ++ hs.map .deliver,
          (deliverAll deliver d sinks w).2) ∧
      HandsOut d sinks (deliverAll deliver d sinks w).1 hs := by
  induction sinks generalizing calls w with
  | nil => exact ⟨[], by rw [List.map_nil, List.append_nil]; rfl, ⟨rfl, by simp, rfl, rfl, rfl⟩⟩
  | cons sink sinks ih =>
    obtain ⟨answer, w', hanswer⟩ : ∃ answer w', deliver sink d w = (answer, w') := ⟨_, _, rfl⟩
    have hjournaled : Deliver.journaled deliver sink d (calls, w) =
        (answer, calls ++ [.deliver ⟨sink, d, answer⟩], w') := by
      simp only [Deliver.journaled, hanswer]
    obtain ⟨hs, hmore, h⟩ := ih (calls ++ [.deliver ⟨sink, d, answer⟩]) w'
    refine ⟨⟨sink, d, answer⟩ :: hs, ?_, ?_⟩
    · rw [deliverAll_cons hjournaled, hmore, deliverAll_cons hanswer, List.append_assoc]
      rfl
    · rw [deliverAll_cons hanswer]
      exact h.cons ⟨sink, d, answer⟩ rfl

theorem dispatch_journaled (control : Control ω) (deliver : Deliver ω) (h : t.Pruned)
    (d : Datagram) (calls : List Call) (w : ω) :
    ∃ hs more, t.dispatch control.journaled (Deliver.journaled deliver) d (calls, w) =
        ((t.dispatch control deliver d w).1, (t.dispatch control deliver d w).2.1,
          calls ++ (hs.map .deliver ++ more), (t.dispatch control deliver d w).2.2) ∧
      HandsOut d (t.recipients d) (deliverAll deliver d (t.recipients d) w).1 hs ∧
      Lowers t.held (t.dispatch control deliver d w).2.1.held more := by
  obtain ⟨hs, hall, hout⟩ := deliverAll_journaled deliver d (t.recipients d) calls w
  obtain ⟨delivery, w', hdelivery⟩ :
    ∃ delivery w', deliverAll deliver d (t.recipients d) w = (delivery, w') := ⟨_, _, rfl⟩
  rw [hdelivery] at hall hout
  -- Counting what was taken changes no branch.
  let counted : ChannelTree := { t with delivered := t.delivered + delivery.taken }
  have hcounted : counted.Pruned := h.of_groups rfl
  simp only [dispatch, hall, hdelivery]
  cases hf : delivery.failed with
  | true =>
    obtain ⟨more, hmore, hl⟩ := flush_journaled control hcounted (calls ++ hs.map .deliver) w'
    refine ⟨hs, more, ?_, hout, ?_⟩
    · rw [if_pos rfl, if_pos rfl, hmore, List.append_assoc]
    · rw [if_pos rfl]
      exact hl
  | false =>
    obtain ⟨more, hmore, hl⟩ :=
      evict_journaled control delivery.gone counted (calls ++ hs.map .deliver) w'
    refine ⟨hs, more, ?_, hout, ?_⟩
    · rw [if_neg Bool.false_ne_true, if_neg Bool.false_ne_true, hmore, List.append_assoc]
    · rw [if_neg Bool.false_ne_true]
      exact hl

/-! ## One step -/

/-- What the calls of one step have to do with the branches held before and after. -/
inductive Shift (held : Set BranchKey) : Set BranchKey → List Call → Prop
  | joined {b : BranchKey} (h : b ∉ held) :
      Shift held (Insert.insert b held) [.join b (.ok ())]
  | refused {b : BranchKey} (h : b ∉ held) (e : MembershipError) :
      Shift held held [.join b (.error e)]
  | lowered (hs : List Handover) {held' : Set BranchKey} {calls : List Call}
      (h : Lowers held held' calls) : Shift held held' (hs.map .deliver ++ calls)

theorem join_journaled (control : Control ω) (sink : SinkId) (c : Channel) (t : ChannelTree)
    (calls : List Call) (w : ω) :
    ∃ more, t.join control.journaled sink c (calls, w) = ((t.join control sink c w).1,
        (t.join control sink c w).2.1, calls ++ more, (t.join control sink c w).2.2) ∧
      Shift t.held (t.join control sink c w).2.1.held more := by
  have silent : Shift t.held t.held [] := .lowered [] (Lowers.refl _)
  unfold join
  cases c.validate with
  | error e => exact ⟨[], by rw [List.append_nil], silent⟩
  | ok =>
    cases hb : (t.branch c.group c.source).isEmpty with
    | false =>
      have hin : (c.group, c.source) ∈ t.held := mem_held.mpr hb
      refine ⟨[], by rw [List.append_nil]; rfl, ?_⟩
      show Shift t.held (t.insert sink c).held []
      rw [held_insert, Set.insert_eq_of_mem hin]
      exact silent
    | true =>
      have hout : (c.group, c.source) ∉ t.held := by rw [mem_held, hb]; exact Bool.noConfusion
      obtain ⟨answer, w', hanswer⟩ :
        ∃ answer w', control.join c.group c.source w = (answer, w') := ⟨_, _, rfl⟩
      have hjournaled : control.journaled.join c.group c.source (calls, w) =
          (answer, calls ++ [.join (c.group, c.source) answer], w') := by
        simp only [Control.journaled, hanswer]
      simp only [if_true, hjournaled, hanswer]
      cases answer with
      | error e => exact ⟨_, rfl, .refused hout e⟩
      | ok =>
        refine ⟨_, rfl, ?_⟩
        show Shift t.held (t.insert sink c).held [.join (c.group, c.source) (.ok ())]
        rw [held_insert]
        exact .joined hout

/-- A journal takes part in nothing, and tells how the branches came to be
held that are. -/
theorem perform_journaled (control : Control ω) (deliver : Deliver ω) (request : Request)
    (h : t.Pruned) (calls : List Call) (w : ω) :
    ∃ more, perform control.journaled (Deliver.journaled deliver) request t (calls, w) =
        ((perform control deliver request t w).1, (perform control deliver request t w).2.1,
          calls ++ more, (perform control deliver request t w).2.2) ∧
      Shift t.held (perform control deliver request t w).2.1.held more := by
  cases request with
  | join sink c =>
    obtain ⟨more, hmore, hs⟩ := join_journaled control sink c t calls w
    exact ⟨more, congrArg (Prod.map Outcome.done id) hmore, hs⟩
  | leave sink c =>
    obtain ⟨more, hmore, hl⟩ := leave_journaled control sink c t calls w
    exact ⟨more, congrArg (Prod.map Outcome.done id) hmore, .lowered [] hl⟩
  | leaveSink sink =>
    obtain ⟨more, hmore, hl⟩ := leaveSink_journaled control sink t calls w
    exact ⟨more, congrArg (Prod.map Outcome.done id) hmore, .lowered [] hl⟩
  | dispatch d =>
    obtain ⟨hs, more, hmore, -, hl⟩ := dispatch_journaled control deliver h d calls w
    exact ⟨hs.map Call.deliver ++ more, congrArg (Prod.map Outcome.delivered id) hmore,
      .lowered hs hl⟩
  | flush =>
    obtain ⟨more, hmore, hl⟩ := flush_journaled control h calls w
    exact ⟨more, congrArg (Prod.mk (Outcome.done (.ok ()))) hmore, .lowered [] hl⟩

theorem Step.shift (s : Step) (h : t.Pruned) : Shift t.held (s.after t).held (s.calls t) := by
  obtain ⟨more, hmore, hs⟩ := perform_journaled s.control s.deliver s.request h [] s.world
  unfold calls
  rw [hmore]
  exact hs

end ChannelTree

end MulticastTunnel
