import Mathlib.Data.Finset.Card
import MulticastTunnel.Proofs.Channel.Journal
import MulticastTunnel.Proofs.Channel.Upstream

/-!
# A channel tree stands for its subscriptions

The four levels of a tree keep one finite set of subscriptions, pairs of a sink
and a channel. `contains` is membership in it, the counts are those of the
groups and channels that occur in it, and since no level is kept empty the set
decides what is stored at all.

`Episode.applyTo` tells what each request does to such a set, from nothing but
what the request returned and what the sinks answered. The main statement is
that the tree of every run stands for the set that its episodes make of the
empty one, and that a datagram goes to whom the set says.
-/

namespace MulticastTunnel.ChannelTree

open Ordered MulticastTunnel.Membership

variable {ω : Type} {control : Control ω} {deliver : Deliver ω} {t : ChannelTree} {sink : SinkId}
  {c : Channel}

/-! ## What is stored -/

theorem contains_iff : t.contains sink c = true ↔ sink ∈ t.sinksOf c := by simp [contains]

/-- Who is subscribed is found level by level. -/
theorem contains_iff_exists : t.contains sink c = true ↔
    ∃ branches branch sinks, t.groups.get? c.group = some branches ∧
      branches.get? c.source = some branch ∧ branch.get? c.port = some sinks ∧ sink ∈ sinks := by
  rw [contains_iff, sinksOf, branch, branches]
  cases hg : t.groups.get? c.group with
  | none => exact iff_of_false (OrderedSet.not_mem_empty sink) (by simp)
  | some branches =>
    rw [Option.getD_some]
    cases hb : branches.get? c.source with
    | none => exact iff_of_false (OrderedSet.not_mem_empty sink) (by simp [hb])
    | some branch =>
      rw [Option.getD_some]
      cases hp : branch.get? c.port with
      | none => exact iff_of_false (OrderedSet.not_mem_empty sink) (by simp [hb, hp])
      | some sinks => simp [hb, hp]

theorem not_contains_of_groups_empty (h : t.groups = ∅) : t.contains sink c ≠ true := by
  rw [Ne, contains_iff_exists, h]
  rintro ⟨_, _, _, hg, -⟩
  cases hg

theorem mem_channelsOf : c ∈ t.channelsOf sink ↔ t.contains sink c = true := by
  rw [contains_iff_exists]
  simp only [channelsOf, List.mem_flatMap, List.mem_filterMap]
  constructor
  · rintro ⟨⟨group, branches⟩, hg, ⟨source, branch⟩, hb, ⟨port, sinks⟩, hp, hc⟩
    rw [← OrderedMap.get?_eq_some_iff] at hg hb hp
    split at hc
    · next hs =>
      cases hc
      exact ⟨branches, branch, sinks, hg, hb, hp, hs⟩
    · cases hc
  · rintro ⟨branches, branch, sinks, hg, hb, hp, hs⟩
    exact ⟨(c.group, branches), OrderedMap.get?_eq_some_iff.mp hg, (c.source, branch),
      OrderedMap.get?_eq_some_iff.mp hb, (c.port, sinks), OrderedMap.get?_eq_some_iff.mp hp,
      if_pos hs⟩

theorem mem_recipients {d : Datagram} : sink ∈ t.recipients d ↔
    t.contains sink ⟨d.destination, none, d.destinationPort⟩ = true ∨
      t.contains sink ⟨d.destination, some d.source, d.destinationPort⟩ = true := by
  rw [contains_iff, contains_iff]
  exact OrderedSet.mem_union

/-! ## What the operations leave -/

variable {other : SinkId} {x : Channel}

theorem contains_insert : (t.insert sink c).contains other x = true ↔
    (other, x) = (sink, c) ∨ t.contains other x = true := by
  rw [contains_iff, contains_iff, insert, sinksOf_setSinks, Prod.mk.injEq]
  by_cases h : x = c
  · subst h
    simp
  · rw [if_neg h]
    simp [h]

theorem contains_remove : (t.remove sink c).2.contains other x = true ↔
    t.contains other x = true ∧ (other, x) ≠ (sink, c) := by
  unfold remove
  split
  · rw [contains_iff, contains_iff, erase, sinksOf_setSinks, Ne, Prod.mk.injEq]
    by_cases h : x = c
    · subst h
      simp
    · rw [if_neg h]
      simp [h]
  · next hc =>
    refine (and_iff_left_of_imp fun hx he => ?_).symm
    cases he
    exact hc hx

theorem contains_removeAll (cs : List Channel) :
    (removeAll sink cs t).2.contains other x = true ↔
      t.contains other x = true ∧ ¬ (other = sink ∧ x ∈ cs) := by
  induction cs generalizing t with
  | nil => simp [removeAll]
  | cons c cs ih =>
    show (removeAll sink cs (t.remove sink c).2).2.contains other x = true ↔ _
    rw [ih, contains_remove, and_assoc, Ne, Prod.mk.injEq, List.mem_cons]
    refine and_congr_right fun _ => ?_
    rw [← not_or, and_or_left]

theorem contains_join {w : ω} : (t.join control sink c w).2.1.contains other x = true ↔
    (Outcome.isOk (.done (t.join control sink c w).1) = true ∧ (other, x) = (sink, c)) ∨
      t.contains other x = true := by
  have refused : t.contains other x = true ↔
      (false = true ∧ (other, x) = (sink, c)) ∨ t.contains other x = true := by simp
  have joined : (t.insert sink c).contains other x = true ↔
      (true = true ∧ (other, x) = (sink, c)) ∨ t.contains other x = true := by
    simp [contains_insert]
  unfold join
  split
  · exact refused
  split
  · split
    · exact refused
    · exact joined
  · exact joined

theorem contains_leave {w : ω} : (t.leave control sink c w).2.1.contains other x = true ↔
    t.contains other x = true ∧ (other, x) ≠ (sink, c) := by
  simp only [leave]
  split <;> exact contains_remove

theorem contains_leaveSink {w : ω} : (t.leaveSink control sink w).2.1.contains other x = true ↔
    t.contains other x = true ∧ other ≠ sink := by
  show (removeAll sink (t.channelsOf sink) t).2.contains other x = true ↔ _
  rw [contains_removeAll, mem_channelsOf]
  refine and_congr_right fun hx => not_congr (and_iff_left_of_imp ?_)
  rintro rfl
  exact hx

theorem contains_evict (sinks : List SinkId) {w : ω} :
    (evict control sinks t w).1.contains other x = true ↔
      t.contains other x = true ∧ other ∉ sinks := by
  induction sinks generalizing t w with
  | nil => simp [evict]
  | cons sink sinks ih =>
    simp only [evict]
    rw [ih, contains_leaveSink, and_assoc, List.mem_cons, not_or]
    rfl

theorem contains_dispatch {d : Datagram} {w : ω} :
    (t.dispatch control deliver d w).2.1.contains other x = true ↔
      (deliverAll deliver d (t.recipients d) w).1.failed = false ∧
        t.contains other x = true ∧ other ∉ (deliverAll deliver d (t.recipients d) w).1.gone := by
  simp only [dispatch]
  split
  · next hf =>
    rw [hf]
    exact iff_of_false (not_contains_of_groups_empty rfl) fun h => Bool.noConfusion h.1
  · next hf =>
    rw [Bool.eq_false_of_not_eq_true hf, contains_evict]
    exact (and_iff_right rfl).symm

/-- No level is ever kept empty, whatever is asked of the control. -/
theorem Pruned.perform (h : t.Pruned) (control : Control ω) (deliver : Deliver ω)
    (request : Request) (w : ω) : (perform control deliver request t w).2.1.Pruned := by
  have htracks : control.Tracks (fun _ => True) fun _ _ => True :=
    ⟨fun _ _ _ => trivial, fun _ _ _ _ => trivial, fun _ _ => trivial⟩
  have hs : Synced (fun _ _ => True) t w := ⟨h, trivial⟩
  cases request with
  | join sink c => exact (synced_join htracks hs fun _ _ => trivial).1
  | leave sink c => exact (synced_leave htracks hs sink c).1
  | leaveSink sink => exact (synced_leaveSink htracks hs sink).1
  | dispatch d => exact (synced_dispatch htracks (fun _ _ _ _ _ => trivial) hs d).1
  | flush => exact (synced_flush htracks hs).1

/-! ## Counts -/

/-- The channels that are stored, in ascending order. -/
def channels (t : ChannelTree) : List Channel :=
  t.groups.toList.flatMap fun (group, branches) =>
    branches.toList.flatMap fun (source, branch) =>
      branch.keys.map fun port => ⟨group, source, port⟩

theorem length_channels (t : ChannelTree) : t.channels.length = t.channelCount := by
  simp only [channels, channelCount, OrderedMap.values, List.length_flatMap, List.map_map,
    List.length_map, Function.comp_def]

theorem nodup_channels (t : ChannelTree) : t.channels.Nodup := by
  apply OrderedMap.nodup_flatMap Channel.group
  · intro e _
    apply OrderedMap.nodup_flatMap Channel.source
    · intro f _
      exact (OrderedMap.nodup_keys f.2).map fun _ _ h => congrArg Channel.port h
    · intro f _ c hc
      obtain ⟨_, _, rfl⟩ := List.mem_map.mp hc
      rfl
  · intro e _ c hc
    obtain ⟨f, _, hf⟩ := List.mem_flatMap.mp hc
    obtain ⟨_, _, rfl⟩ := List.mem_map.mp hf
    rfl

/-- The channels stored are those that somebody is subscribed to. -/
theorem Pruned.mem_channels (h : t.Pruned) :
    c ∈ t.channels ↔ ∃ sink, t.contains sink c = true := by
  simp only [channels, List.mem_flatMap, List.mem_map, contains_iff_exists]
  constructor
  · rintro ⟨⟨group, branches⟩, hg, ⟨source, branch⟩, hb, port, hp, rfl⟩
    obtain ⟨sinks, hs⟩ := OrderedMap.mem_keys.mp hp
    rw [← OrderedMap.get?_eq_some_iff] at hg hb
    have hbranch : t.branch group source = branch := by
      simp [ChannelTree.branch, ChannelTree.branches, hg, hb]
    have hsome := h.ofPort ⟨group, source, port⟩ sinks (by rw [hbranch]; exact hs)
    obtain ⟨sink, hsink⟩ := OrderedSet.isEmpty_eq_false_iff.mp hsome
    exact ⟨sink, branches, branch, sinks, hg, hb, hs, hsink⟩
  · rintro ⟨sink, branches, branch, sinks, hg, hb, hp, -⟩
    exact ⟨(c.group, branches), OrderedMap.get?_eq_some_iff.mp hg, (c.source, branch),
      OrderedMap.get?_eq_some_iff.mp hb, c.port, OrderedMap.mem_keys.mpr ⟨sinks, hp⟩, rfl⟩

/-! ## The set a tree stands for -/

abbrev Subscription := SinkId × Channel

/-- The tree holds exactly the subscriptions, and nothing empty. -/
structure Represents (t : ChannelTree) (S : Finset Subscription) : Prop where
  contains : ∀ sink c, t.contains sink c = true ↔ (sink, c) ∈ S
  isEmpty : t.isEmpty = true ↔ S = ∅
  groupCount : t.groupCount = (S.image fun s => s.2.group).card
  channelCount : t.channelCount = (S.image Prod.snd).card
  pruned : t.Pruned

/-- It is enough to agree on every subscription. -/
theorem Pruned.represents {S : Finset Subscription} (h : t.Pruned)
    (hc : ∀ sink c, t.contains sink c = true ↔ (sink, c) ∈ S) : Represents t S where
  contains := hc
  isEmpty := by
    rw [← Bool.not_eq_false, ← h.nonempty_held_iff, ← Finset.not_nonempty_iff_eq_empty]
    refine not_congr ⟨?_, ?_⟩
    · rintro ⟨b, hb⟩
      obtain ⟨sink, port, hs⟩ := h.exists_contains hb
      exact ⟨_, (hc _ _).mp hs⟩
    · rintro ⟨⟨sink, c⟩, hs⟩
      exact ⟨_, mem_held_of_contains ((hc _ _).mpr hs)⟩
  groupCount := by
    have hkeys : S.image (fun s => s.2.group) = t.groups.keys.toFinset := by
      ext group
      rw [Finset.mem_image, List.mem_toFinset, OrderedMap.mem_keys, ← Option.isSome_iff_exists,
        h.group_iff]
      constructor
      · rintro ⟨⟨sink, c⟩, hs, rfl⟩
        exact ⟨c.source, mem_held_of_contains ((hc _ _).mpr hs)⟩
      · rintro ⟨source, hb⟩
        obtain ⟨sink, port, hs⟩ := h.exists_contains hb
        exact ⟨_, (hc _ _).mp hs, rfl⟩
    rw [hkeys, List.toFinset_card_of_nodup (OrderedMap.nodup_keys _)]
    exact List.length_map _ |>.symm
  channelCount := by
    have hchannels : S.image Prod.snd = t.channels.toFinset := by
      ext c
      simp only [Finset.mem_image, List.mem_toFinset, h.mem_channels, hc, Prod.exists,
        exists_eq_right]
    rw [hchannels, List.toFinset_card_of_nodup t.nodup_channels, length_channels]
  pruned := h

/-! ## Runs -/

namespace Episode

/-- The sinks that are gone. -/
def gone (e : Episode) : List SinkId := (e.handovers.filter (·.gone)).map (·.sink)

/-- Some sink failed for good. -/
def failed (e : Episode) : Bool := e.handovers.any (·.fatal)

/-- The subscriptions that an episode leaves of those there were. -/
def applyTo (e : Episode) (S : Finset Subscription) : Finset Subscription :=
  match e.request with
  | .join sink c => if e.outcome.isOk then Insert.insert (sink, c) S else S
  | .leave sink c => S.erase (sink, c)
  | .leaveSink sink => S.filter fun s => s.1 ≠ sink
  | .dispatch _ => if e.failed then ∅ else S.filter fun s => s.1 ∉ e.gone
  | .flush => ∅

variable {e : Episode} {S : Finset Subscription} {s : Subscription} {sink : SinkId}

theorem mem_applyTo_join (h : e.request = .join sink c) :
    s ∈ e.applyTo S ↔ (e.outcome.isOk = true ∧ s = (sink, c)) ∨ s ∈ S := by
  unfold applyTo
  rw [h]
  cases hok : e.outcome.isOk <;> simp

theorem mem_applyTo_leave (h : e.request = .leave sink c) :
    s ∈ e.applyTo S ↔ s ∈ S ∧ s ≠ (sink, c) := by
  unfold applyTo
  rw [h, and_comm]
  exact Finset.mem_erase

theorem mem_applyTo_leaveSink (h : e.request = .leaveSink sink) :
    s ∈ e.applyTo S ↔ s ∈ S ∧ s.1 ≠ sink := by
  unfold applyTo
  rw [h]
  exact Finset.mem_filter

theorem mem_applyTo_dispatch {d : Datagram} (h : e.request = .dispatch d) :
    s ∈ e.applyTo S ↔ e.failed = false ∧ s ∈ S ∧ s.1 ∉ e.gone := by
  unfold applyTo
  rw [h]
  cases hf : e.failed <;> simp

theorem applyTo_flush (h : e.request = .flush) : e.applyTo S = ∅ := by
  unfold applyTo
  rw [h]

end Episode

/-- The subscriptions that there are after a history. -/
def subscriptionsAfter (history : List Episode) : Finset Subscription :=
  history.foldl (fun S e => e.applyTo S) ∅

/-- What a dispatch does: the datagram is given once to each sink that is
subscribed to it, in ascending order, and only then are branches left. The
sinks that are gone are counted unless the tree is flushed. -/
structure Serves (S : Finset Subscription) (d : Datagram) (e : Episode) (t t' : ChannelTree) :
    Prop where
  ascending : (e.handovers.map (·.sink)).Pairwise fun a b => a.number < b.number
  recipients : ∀ sink, sink ∈ e.handovers.map (·.sink) ↔
    (sink, ⟨d.destination, none, d.destinationPort⟩) ∈ S ∨
      (sink, ⟨d.destination, some d.source, d.destinationPort⟩) ∈ S
  datagram : ∀ h ∈ e.handovers, h.datagram = d
  first : ∃ bs more, e.calls = e.handovers.map .deliver ++ more ∧ Leaves bs more
  outcome : e.outcome = .delivered (e.handovers.countP (·.taken))
  evictions : t'.evictions = t.evictions + if e.failed then 0 else e.gone.length

theorem exists_handovers (h : t.Pruned) (control : Control ω) (deliver : Deliver ω) (w : ω)
    (d : Datagram) :
    let e := Step.episode ⟨control, deliver, w, .dispatch d⟩ t
    (∃ bs more, e.calls = e.handovers.map .deliver ++ more ∧ Leaves bs more) ∧
      HandsOut d (t.recipients d) (deliverAll deliver d (t.recipients d) w).1 e.handovers := by
  intro e
  obtain ⟨hs, more, hmore, hout, bs, hl, -⟩ := dispatch_journaled control deliver h d [] w
  have hcalls : e.calls = hs.map .deliver ++ more := by
    show (t.dispatch control.journaled (Deliver.journaled deliver) d ([], w)).2.2.1 = _
    rw [hmore]
    rfl
  have hhandovers : e.handovers = hs := by
    have hdeliver : (hs.map Call.deliver).filterMap Call.handover? = hs := by
      rw [List.filterMap_map]
      exact List.filterMap_some
    rw [Episode.handovers, hcalls, List.filterMap_append, hdeliver, hl.filterMap_handover?,
      List.append_nil]
  rw [hhandovers]
  exact ⟨⟨bs, more, hcalls, hl⟩, hout⟩

/-- One more request does to the tree what its episode does to the set. -/
theorem Represents.step {S : Finset Subscription} (h : Represents t S) (s : Step) :
    Represents (s.after t) ((s.episode t).applyTo S) := by
  refine (h.pruned.perform s.control s.deliver s.request s.world).represents ?_
  intro other x
  obtain ⟨control, deliver, w, request⟩ := s
  cases request with
  | join sink c =>
    rw [Episode.mem_applyTo_join rfl, ← h.contains]
    exact contains_join
  | leave sink c =>
    rw [Episode.mem_applyTo_leave rfl, ← h.contains]
    exact contains_leave
  | leaveSink sink =>
    rw [Episode.mem_applyTo_leaveSink rfl, ← h.contains]
    exact contains_leaveSink
  | dispatch d =>
    obtain ⟨-, hout⟩ := exists_handovers h.pruned control deliver w d
    rw [Episode.mem_applyTo_dispatch rfl, Episode.failed, Episode.gone, ← hout.failed, ← hout.gone,
      ← h.contains]
    exact contains_dispatch
  | flush =>
    rw [Episode.applyTo_flush rfl]
    exact iff_of_false (not_contains_of_groups_empty rfl) (Finset.notMem_empty _)

theorem subscriptionsAfter_snoc (history : List Episode) (e : Episode) :
    subscriptionsAfter (history ++ [e]) = e.applyTo (subscriptionsAfter history) := by
  unfold subscriptionsAfter
  rw [List.foldl_append]
  rfl

theorem represents_run (steps : List Step) :
    Represents (run steps).2 (subscriptionsAfter (run steps).1) := by
  induction steps using List.reverseRecOn with
  | nil =>
    apply pruned_empty.represents
    intro sink c
    exact iff_of_false (not_contains_of_groups_empty rfl) (Finset.notMem_empty _)
  | append_singleton steps s ih =>
    rw [run_snoc]
    show Represents (s.after (run steps).2) (subscriptionsAfter ((run steps).1 ++ [s.episode _]))
    rw [subscriptionsAfter_snoc]
    exact ih.step s

/-! ## Evictions -/

theorem evictions_removeAll (sink : SinkId) (cs : List Channel) (t : ChannelTree) :
    (removeAll sink cs t).2.evictions = t.evictions := by
  induction cs generalizing t with
  | nil => rfl
  | cons c cs ih =>
    show (removeAll sink cs (t.remove sink c).2).2.evictions = t.evictions
    rw [ih, remove]
    split <;> rfl

theorem evictions_evict (control : Control ω) (sinks : List SinkId) (t : ChannelTree) (w : ω) :
    (evict control sinks t w).1.evictions = t.evictions + sinks.length := by
  induction sinks generalizing t w with
  | nil => rfl
  | cons sink sinks ih =>
    simp only [evict]
    rw [ih]
    show (removeAll sink _ _).2.evictions + sinks.length = t.evictions + (sinks.length + 1)
    rw [evictions_removeAll]
    exact Nat.add_right_comm t.evictions 1 sinks.length

theorem Represents.serves {S : Finset Subscription} (h : Represents t S) (control : Control ω)
    (deliver : Deliver ω) (w : ω) (d : Datagram) :
    let s : Step := ⟨control, deliver, w, .dispatch d⟩
    Serves S d (s.episode t) t (s.after t) := by
  intro s
  obtain ⟨hfirst, hout⟩ := exists_handovers h.pruned control deliver w d
  constructor
  · rw [hout.sinks]
    exact ((t.sinksOf _).union (t.sinksOf _)).ascending
  · intro sink
    rw [hout.sinks, mem_recipients, h.contains, h.contains]
  · exact hout.datagram
  · obtain ⟨bs, more, hcalls, hl⟩ := hfirst
    exact ⟨bs, more, hcalls, hl⟩
  · exact congrArg Outcome.delivered hout.taken
  · show (t.dispatch control deliver d w).2.1.evictions = t.evictions + _
    rw [Episode.failed, Episode.gone, ← hout.failed, ← hout.gone]
    simp only [dispatch]
    split
    · rfl
    · rw [evictions_evict]

/-- **A tree stands for its subscriptions**: whatever control and sinks answer,
a run leaves exactly the subscriptions that its history tells of, with the
counts of their groups and channels, and stores nothing empty. The next
datagram, whoever serves it, is given to whom the subscriptions say. -/
theorem run_refines_subscriptions (steps : List Step) :
    Represents (run steps).2 (subscriptionsAfter (run steps).1) ∧
      ∀ {ω : Type} (control : Control ω) (deliver : Deliver ω) (w : ω) (d : Datagram),
        let s : Step := ⟨control, deliver, w, .dispatch d⟩
        Serves (subscriptionsAfter (run steps).1) d (s.episode (run steps).2) (run steps).2
          (s.after (run steps).2) := by
  have h := represents_run steps
  exact ⟨h, fun control deliver w d => h.serves control deliver w d⟩

/-- Who is subscribed twice is given the datagram once, and who is gone is evicted. -/
example :
    let source : Address := .v4 #v[192, 0, 2, 9]
    let anySource : Channel := ⟨.v4 #v[232, 1, 2, 3], none, 5000⟩
    let ofSource : Channel := { anySource with source := some source }
    let ask (request : Request) : Step :=
      ⟨⟨fun _ _ w => (.ok (), w), fun _ _ w => (.ok (), w)⟩,
        fun sink _ w => (if sink = ⟨2⟩ then .error .disconnected else .ok (), w), (), request⟩
    let history := (run [ask (.join ⟨1⟩ anySource), ask (.join ⟨2⟩ ofSource),
      ask (.join ⟨1⟩ ofSource), ask (.dispatch ⟨source, 9, anySource.group, 5000, []⟩)]).1
    (history.flatMap (·.handovers)).map (·.sink) = [⟨1⟩, ⟨2⟩] ∧
      subscriptionsAfter history = {(⟨1⟩, anySource), (⟨1⟩, ofSource)} := by
  decide +kernel

end MulticastTunnel.ChannelTree
