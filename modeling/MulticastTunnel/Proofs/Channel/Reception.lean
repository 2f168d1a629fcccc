import MulticastTunnel.Proofs.Channel.Upstream
import MulticastTunnel.Proofs.Membership.Demand
import MulticastTunnel.Tunnel

/-!
# Reception follows subscriptions

A tree that joins and leaves through a reporter, whatever the reporter's
outlet and the sinks answer. The reporter receives exactly what the branches
of the tree ask for: `Receives` relates the demands of a reporter to a set of
branches, single joins and leaves keep it, and so does every run in which no
report of a join was too large to be written.
-/

namespace MulticastTunnel

open Ordered MulticastTunnel.Membership

variable {ω : Type}

namespace Membership

/-! ## The demands of a reporter -/

namespace Reporter

variable {r : Reporter} {B : Set ChannelTree.BranchKey} {group : Address}

/-- The reporter is asked for exactly the branches, and keeps no demand that
asks for nothing. -/
structure Receives (B : Set ChannelTree.BranchKey) (r : Reporter) : Prop where
  opened : r.closed = false
  valid : ∀ group source, (group, source) ∈ B → r.validate group source = .ok ()
  asks : ∀ group source, (r.demand group).Asks source ↔ (group, source) ∈ B
  unblocked : ∀ group, (r.demand group).blocked = ∅
  wanted : ∀ group d, r.demands.get? group = some d → ∃ source, d.Asks source

theorem receives_nothing (family : Family) (settings : ReporterSettings) :
    Receives ∅ { family, settings } where
  opened := rfl
  valid _ _ h := h.elim
  asks _ _ := iff_of_false Demand.not_asks_empty id
  unblocked _ := rfl
  wanted _ _ h := by cases h

/-- Only demands and what validity depends on matter. -/
theorem Receives.of_same {r' : Reporter} (h : Receives B r) (hs : SameDemands r r') :
    Receives B r' := by
  have hv : ∀ group source, r'.validate group source = r.validate group source :=
    fun group source => by simp only [validate, hs.family]
  constructor
  · rw [hs.closed]; exact h.opened
  · intro group source hb; rw [hv]; exact h.valid group source hb
  · intro group source; rw [hs.demand]; exact h.asks group source
  · intro group; rw [hs.demand]; exact h.unblocked group
  · intro group d hg; rw [hs.demands] at hg; exact h.wanted group d hg

/-- The demand for one group changes, and with it the branches of that group. -/
theorem Receives.set {r' : Reporter} {B' : Set ChannelTree.BranchKey} (h : Receives B r)
    (new : Option Demand) (hr : SameDemands { r with demands := r.demands.set group new } r')
    (hv : ∀ b ∈ B', r.validate b.1 b.2 = .ok ())
    (hnew : ∀ source, (new.getD {}).Asks source ↔ (group, source) ∈ B')
    (hold : ∀ g source, g ≠ group → ((g, source) ∈ B' ↔ (g, source) ∈ B))
    (hb : (new.getD {}).blocked = ∅) (hw : ∀ d, new = some d → ∃ source, d.Asks source) :
    Receives B' r' := by
  refine Receives.of_same ?_ hr
  have hd : ∀ g, demand { r with demands := r.demands.set group new } g =
      if g = group then new.getD {} else r.demand g := demand_setDemand r group new
  constructor
  · exact h.opened
  · exact fun g source hm => hv (g, source) hm
  · intro g source
    rw [hd]
    split
    · next hg => subst hg; exact hnew source
    · next hg => rw [hold g source hg]; exact h.asks g source
  · intro g
    rw [hd]
    split
    · exact hb
    · exact h.unblocked g
  · intro g d hg
    rw [OrderedMap.get?_set] at hg
    split at hg
    · exact hw d hg
    · exact h.wanted g d hg

theorem Receives.join {source : Option Address} (h : Receives B r) (o : Outlet ω) (now : Nat)
    (w : ω) (hok : (r.join o now group source w).1 = .ok ()) :
    Receives (insert (group, source) B) (r.join o now group source w).2.1 := by
  rcases join_cases o now group source r w with ⟨e, he, -, -⟩ | ⟨hv, -, -, p, n, hr⟩
  · rw [he] at hok
    cases hok
  · rw [hr]
    refine h.set (some ((r.demand group).join source)) ⟨rfl, rfl, rfl, rfl⟩ ?_ ?_ ?_ ?_ ?_
    · rintro b (rfl | hb)
      · exact hv
      · exact h.valid b.1 b.2 hb
    · intro other
      rw [Option.getD_some, Demand.asks_join, h.asks, Set.mem_insert_iff]
      simp
    · intro g other hg
      simp [hg]
    · exact Demand.blocked_join (h.unblocked group)
    · rintro d ⟨⟩
      exact ⟨source, Demand.asks_join.mpr (.inl rfl)⟩

/-- A join that fails for another reason than the size of its report leaves no trace. -/
theorem Receives.refuse {source : Option Address} {e : MembershipError} (h : Receives B r)
    (o : Outlet ω) (now : Nat) (w : ω) (herr : (r.join o now group source w).1 = .error e)
    (he : ∀ c, e ≠ .codec c) : Receives B (r.join o now group source w).2.1 := by
  rcases join_cases o now group source r w with ⟨_, -, -, hr⟩ | ⟨-, -, hok | ⟨c, hc⟩, -⟩
  · rwa [hr]
  · rw [herr] at hok
    cases hok
  · rw [herr] at hc
    cases hc
    exact absurd rfl (he c)

theorem Receives.leave {source : Option Address} (h : Receives B r) (o : Outlet ω) (now : Nat)
    (w : ω) (hb : (group, source) ∈ B) :
    Receives (B \ {(group, source)}) (r.leave o now group source w).2.1 := by
  have hask := (h.asks group source).mpr hb
  obtain ⟨-, hc | hn | ⟨e, he⟩⟩ | ⟨-, held, p, n, hheld, hr⟩ :=
    leave_cases o now group source r w
  · rw [h.opened] at hc
    cases hc
  · rw [demand, hn] at hask
    exact absurd hask Demand.not_asks_empty
  · rw [h.valid group source hb] at he
    cases he
  have hdem : r.demand group = held := by rw [demand, hheld]; rfl
  rw [hdem] at hask
  rw [hr]
  -- The demand that is left is dropped when nothing is asked for any more.
  have hleft : ∀ other, ((((held.leave source).filter? group).map fun _ =>
      held.leave source).getD {}).Asks other ↔ (held.leave source).Asks other := by
    intro other
    cases hf : (held.leave source).filter? group with
    | none =>
      exact iff_of_false Demand.not_asks_empty (Demand.filter?_eq_none_iff.mp hf other)
    | some f => rfl
  refine h.set (((held.leave source).filter? group).map fun _ => held.leave source)
    ⟨rfl, rfl, rfl, rfl⟩ ?_ ?_ ?_ ?_ ?_
  · exact fun b hm => h.valid b.1 b.2 hm.1
  · intro other
    rw [hleft, Demand.asks_leave, ← hdem, h.asks, Set.mem_sdiff, Set.mem_singleton_iff]
    simp
  · intro g other hg
    simp [hg]
  · cases (held.leave source).filter? group with
    | none => rfl
    | some f => exact Demand.blocked_leave hask (hdem ▸ h.unblocked group)
  · intro d hd
    cases hf : (held.leave source).filter? group with
    | none => rw [hf] at hd; cases hd
    | some f =>
      rw [hf] at hd
      cases hd
      exact Demand.exists_asks hf

theorem Receives.isSome_get? (h : Receives B r) :
    (r.demands.get? group).isSome = true ↔ ∃ source, (group, source) ∈ B := by
  constructor
  · intro hs
    obtain ⟨d, hd⟩ := Option.isSome_iff_exists.mp hs
    obtain ⟨source, hask⟩ := h.wanted group d hd
    refine ⟨source, (h.asks group source).mp ?_⟩
    rw [demand, hd]
    exact hask
  · rintro ⟨source, hb⟩
    have hask := (h.asks group source).mpr hb
    cases hd : r.demands.get? group with
    | some d => rfl
    | none =>
      rw [demand, hd] at hask
      exact absurd hask Demand.not_asks_empty

theorem Receives.isSome_filter? (h : Receives B r) :
    (r.filter? group).isSome = true ↔ ∃ source, (group, source) ∈ B := by
  rw [filter?_eq_demand, Option.isSome_iff_ne_none, ne_eq, Demand.filter?_eq_none_iff]
  simp only [h.asks, not_forall, not_not]

theorem Receives.filter?_of_any (h : Receives B r) (hb : (group, none) ∈ B) :
    r.filter? group = some ⟨group, .excluding, ∅⟩ := by
  rw [filter?_eq_demand]
  exact Demand.filter?_of_asks_any ((h.asks group none).mpr hb) (h.unblocked group)

theorem Receives.filter?_of_one {source : Option Address} (h : Receives B r)
    (hn : (group, none) ∉ B) (hb : (group, source) ∈ B) :
    ∃ sources, r.filter? group = some ⟨group, .including, sources⟩ ∧
      ∀ source, source ∈ sources ↔ (group, some source) ∈ B := by
  refine ⟨(r.demand group).joined, ?_, fun source => h.asks group (some source)⟩
  rw [filter?_eq_demand]
  exact Demand.filter?_of_asks_one (fun ha => hn ((h.asks group none).mp ha))
    ((h.asks group source).mpr hb)

/-- Traffic of a source passes exactly when it is asked for, or any is. -/
theorem Receives.passes_iff (h : Receives B r) (source : Address) :
    (∃ f, r.filter? group = some f ∧ f.passes source = true) ↔
      (group, none) ∈ B ∨ (group, some source) ∈ B := by
  by_cases hn : (group, none) ∈ B
  · refine iff_of_true ⟨_, h.filter?_of_any hn, ?_⟩ (.inl hn)
    simp [Filter.passes]
  constructor
  · rintro ⟨f, hf, hp⟩
    obtain ⟨other, hb⟩ := h.isSome_filter?.mp (by rw [hf]; rfl)
    obtain ⟨sources, hs, hmem⟩ := h.filter?_of_one hn hb
    rw [hf, Option.some.injEq] at hs
    subst hs
    exact .inr ((hmem source).mp (by simpa [Filter.passes] using hp))
  · rintro (hb | hb)
    · exact absurd hb hn
    · obtain ⟨sources, hs, hmem⟩ := h.filter?_of_one hn hb
      exact ⟨_, hs, by simpa [Filter.passes] using (hmem source).mpr hb⟩

theorem tracks_receives (o : Outlet ω) (now : Nat) :
    (control o now).Tracks (fun e => ∀ c, e ≠ .codec c) fun B s => Receives B s.1 where
  join h _ hok := h.join o now _ hok
  refuse h _ herr he := h.refuse o now _ herr he
  leave h hb := h.leave o now _ hb

end Reporter

end Membership

/-! ## Runs -/

/-- Reports through a tunnel come from an address of its family. -/
theorem Tunnel.family_localAddress {t : Tunnel} {w : World} {v : Tunnel × World}
    (h : Reporter.Idle Tunnel.outlet (t, w) v) :
    (Tunnel.outlet.localAddress v).family = t.key.family := by
  have hlocal : ∀ w, (t.localAddress w).family = t.key.family := by
    intro w
    unfold localAddress
    split
    · split
      · next hf => exact hf
      · exact Address.family_read _ _
    · exact Address.family_read _ _
  rcases h with rfl | ⟨deadline, rfl⟩
  · exact hlocal w
  · exact hlocal _

namespace ChannelTree

/-- Sinks do not reach the reporter. -/
def Deliver.beside (deliver : Deliver ω) : Deliver (Reporter × ω) := fun sink d (r, w) =>
  let (result, w) := deliver sink d w
  (result, r, w)

/-- The states that a tree, the reporter behind it and the world around both
come to. In between the reporter's timers run out, queries come in and the
world goes its own ways. At a join the outlet has an address of the reporter's
family, and the report is not too large to be written. -/
inductive Reaches (o : Outlet ω) (deliver : Deliver ω) (family : Family)
    (settings : ReporterSettings) : ChannelTree → Reporter × ω → Prop
  | start (w : ω) : Reaches o deliver family settings {} ({ family, settings }, w)
  | join {t : ChannelTree} {s : Reporter × ω} (now : Nat) (sink : SinkId) (c : Channel) :
      Reaches o deliver family settings t s →
      (∀ w, Reporter.Idle o s.2 w → (o.localAddress w).family = s.1.family) →
      (t.join (Reporter.control o now) sink c s).1 ≠
        .error (.membership (.codec (.packet .tooLarge))) →
      Reaches o deliver family settings (t.join (Reporter.control o now) sink c s).2.1
        (t.join (Reporter.control o now) sink c s).2.2
  | leave {t : ChannelTree} {s : Reporter × ω} (now : Nat) (sink : SinkId) (c : Channel) :
      Reaches o deliver family settings t s →
      Reaches o deliver family settings (t.leave (Reporter.control o now) sink c s).2.1
        (t.leave (Reporter.control o now) sink c s).2.2
  | leaveSink {t : ChannelTree} {s : Reporter × ω} (now : Nat) (sink : SinkId) :
      Reaches o deliver family settings t s →
      Reaches o deliver family settings (t.leaveSink (Reporter.control o now) sink s).2.1
        (t.leaveSink (Reporter.control o now) sink s).2.2
  | dispatch {t : ChannelTree} {s : Reporter × ω} (now : Nat) (d : Datagram) :
      Reaches o deliver family settings t s →
      Reaches o deliver family settings
        (t.dispatch (Reporter.control o now) (Deliver.beside deliver) d s).2.1
        (t.dispatch (Reporter.control o now) (Deliver.beside deliver) d s).2.2
  | flush {t : ChannelTree} {s : Reporter × ω} (now : Nat) :
      Reaches o deliver family settings t s →
      Reaches o deliver family settings (t.flush (Reporter.control o now) s).1
        (t.flush (Reporter.control o now) s).2
  | fire {t : ChannelTree} {s : Reporter × ω} (now : Nat) (alarm : Reporter.Alarm) :
      Reaches o deliver family settings t s →
      Reaches o deliver family settings t (s.1.fire o now alarm s.2)
  | query {t : ChannelTree} {s : Reporter × ω} (now chance : Nat) (q : Query) :
      Reaches o deliver family settings t s →
      Reaches o deliver family settings t (s.1.onQuery o now chance q s.2).2
  | elapse {t : ChannelTree} {r : Reporter} {w : ω} (v : ω) :
      Reaches o deliver family settings t (r, w) → Reaches o deliver family settings t (r, v)

variable {o : Outlet ω} {deliver : Deliver ω} {family : Family} {settings : ReporterSettings}
  {t : ChannelTree} {s : Reporter × ω}

theorem Reaches.synced (h : Reaches o deliver family settings t s) :
    Synced (fun B s => Reporter.Receives B s.1) t s := by
  induction h with
  | start w =>
    refine ⟨pruned_empty, ?_⟩
    rw [held_of_groups_empty rfl]
    exact Reporter.receives_nothing family settings
  | join now sink c _ hlocal hfits ih =>
    apply synced_join (Reporter.tracks_receives o now) ih
    rintro e he c rfl
    cases Reporter.join_tooLarge hlocal (control_join_of_join he)
    exact hfits he
  | leave now sink c _ ih => exact synced_leave (Reporter.tracks_receives o now) ih sink c
  | leaveSink now sink _ ih => exact synced_leaveSink (Reporter.tracks_receives o now) ih sink
  | dispatch now d _ ih =>
    exact synced_dispatch (Reporter.tracks_receives o now) (fun _ _ _ _ h => h) ih d
  | flush now _ ih => exact synced_flush (Reporter.tracks_receives o now) ih
  | fire now alarm _ ih => exact ⟨ih.1, ih.2.of_same (Reporter.sameDemands_fire o now alarm _ _)⟩
  | query now chance q _ ih =>
    exact ⟨ih.1, ih.2.of_same (Reporter.onQuery_cases o now chance q _ _).sameDemands⟩
  | elapse _ _ ih => exact ih

/-- **Reception follows subscriptions**: a group is received exactly when it is
in the tree. Its filter excludes nothing if somebody is subscribed to any
source of it, and otherwise includes the sources that somebody is subscribed
to. -/
theorem Reaches.reception_follows (h : Reaches o deliver family settings t s) (group : Address) :
    ((s.1.demands.get? group).isSome = (t.groups.get? group).isSome) ∧
    ((s.1.filter? group).isSome = (t.groups.get? group).isSome) ∧
    ((t.branch group none).isEmpty = false →
      s.1.filter? group = some ⟨group, .excluding, ∅⟩) ∧
    ((t.branch group none).isEmpty = true → (t.groups.get? group).isSome = true →
      ∃ sources, s.1.filter? group = some ⟨group, .including, sources⟩ ∧
        ∀ source, source ∈ sources ↔ (t.branch group (some source)).isEmpty = false) ∧
    ∀ source, (∃ f, s.1.filter? group = some f ∧ f.passes source = true) ↔
      ∃ sink port, t.contains sink ⟨group, none, port⟩ = true ∨
        t.contains sink ⟨group, some source, port⟩ = true := by
  obtain ⟨hp, hr⟩ := h.synced
  have hgroup : (t.groups.get? group).isSome = true ↔ ∃ source, (group, source) ∈ t.held :=
    hp.group_iff
  refine ⟨?_, ?_, fun hany => hr.filter?_of_any (mem_held.mpr hany), fun hnone hin => ?_,
    fun source => ?_⟩
  · rw [Bool.eq_iff_iff, hgroup, hr.isSome_get?]
  · rw [Bool.eq_iff_iff, hgroup, hr.isSome_filter?]
  · obtain ⟨source, hb⟩ := hgroup.mp hin
    have hn : (group, none) ∉ t.held := by
      rw [mem_held, hnone]
      exact Bool.noConfusion
    exact hr.filter?_of_one hn hb
  · rw [hr.passes_iff]
    constructor
    · rintro (hb | hb)
      · obtain ⟨sink, port, hc⟩ := hp.exists_contains hb
        exact ⟨sink, port, .inl hc⟩
      · obtain ⟨sink, port, hc⟩ := hp.exists_contains hb
        exact ⟨sink, port, .inr hc⟩
    · rintro ⟨sink, port, hc | hc⟩
      · exact .inl (mem_held_of_contains hc)
      · exact .inr (mem_held_of_contains hc)

/-! ## A run with failures -/

/-- An outlet whose state is what it answers to the next reports. Those behind them are sent. -/
def scripted : Outlet (List (Except TunnelError SendOutcome)) where
  localAddress _ := .v4 #v[0, 0, 0, 0]
  send _ answers := (answers.headD (.ok .sent), answers.tail)
  serial answers := (0, answers)

/-- The second of two sinks is gone. -/
def secondGone : Deliver (List (Except TunnelError SendOutcome)) :=
  fun sink _ answers => (if sink = ⟨2⟩ then .error .disconnected else .ok (), answers)

namespace Troubled

abbrev State := ChannelTree × Reporter × List (Except TunnelError SendOutcome)

def group : Address := .v4 #v[232, 1, 2, 3]

def otherGroup : Address := .v4 #v[232, 1, 2, 4]

def source : Address := .v4 #v[192, 0, 2, 9]

/-- The first join fails at the socket. -/
def refused : Except ChannelError Unit × State :=
  join (Reporter.control scripted 0) ⟨1⟩ ⟨group, some source, 5000⟩ {}
    ({ family := .ipv4, settings := {} },
      [.error (.socket .invalidAddress), .ok .sent, .error .unreachable, .ok .notReady,
        .error .closed])

/-- It is tried once more. -/
def repeated : Except ChannelError Unit × State :=
  join (Reporter.control scripted 0) ⟨1⟩ ⟨group, some source, 5000⟩ refused.2.1 refused.2.2

/-- A second sink wants the group from any source, which the relay does not hear of. -/
def widened : Except ChannelError Unit × State :=
  join (Reporter.control scripted 0) ⟨2⟩ ⟨group, none, 5000⟩ repeated.2.1 repeated.2.2

/-- Another group is joined while the tunnel is not ready. -/
def unsent : Except ChannelError Unit × State :=
  join (Reporter.control scripted 0) ⟨1⟩ ⟨otherGroup, some source, 5000⟩ widened.2.1 widened.2.2

/-- It is left again, which fails. -/
def abandoned : Except ChannelError Unit × State :=
  leave (Reporter.control scripted 0) ⟨1⟩ ⟨otherGroup, some source, 5000⟩ unsent.2.1 unsent.2.2

/-- A datagram for both sinks tells that the second one is gone. -/
def evicted : Nat × State :=
  dispatch (Reporter.control scripted 0) (Deliver.beside secondGone) ⟨source, 9, group, 5000, []⟩
    abandoned.2.1 abandoned.2.2

end Troubled

open Troubled in
/-- A join is taken back, a leave fails and a sink is evicted. Reception follows all the same. -/
theorem troubled_reception :
    refused.1 = .error (.membership (.send (.socket .invalidAddress))) ∧
      (refused.2.2.1.filter? group).isSome = false ∧
      widened.2.2.1.filter? group = some ⟨group, .excluding, ∅⟩ ∧
      abandoned.1 = .error (.membership (.send .closed)) ∧
      (abandoned.2.2.1.filter? otherGroup).isSome = false ∧
      evicted.2.1.evictions = 1 ∧
      ∃ sources, evicted.2.2.1.filter? group = some ⟨group, .including, sources⟩ ∧
        ∀ source, source ∈ sources ↔
          (evicted.2.1.branch group (some source)).isEmpty = false := by
  have hfamily : refused.2.2.1.family = .ipv4 ∧ repeated.2.2.1.family = .ipv4 ∧
      widened.2.2.1.family = .ipv4 := by decide +kernel
  have hfits : ∀ result ∈ [refused.1, repeated.1, widened.1, unsent.1],
      result ≠ .error (.membership (.codec (.packet .tooLarge))) := by decide +kernel
  have hrefused : Reaches scripted secondGone .ipv4 {} refused.2.1 refused.2.2 :=
    .join 0 ⟨1⟩ _ (.start _) (fun _ _ => rfl) (hfits refused.1 (by simp))
  have hrepeated : Reaches scripted secondGone .ipv4 {} repeated.2.1 repeated.2.2 :=
    .join 0 ⟨1⟩ _ hrefused (fun _ _ => hfamily.1.symm) (hfits repeated.1 (by simp))
  have hwidened : Reaches scripted secondGone .ipv4 {} widened.2.1 widened.2.2 :=
    .join 0 ⟨2⟩ _ hrepeated (fun _ _ => hfamily.2.1.symm) (hfits widened.1 (by simp))
  have hunsent : Reaches scripted secondGone .ipv4 {} unsent.2.1 unsent.2.2 :=
    .join 0 ⟨1⟩ _ hwidened (fun _ _ => hfamily.2.2.symm) (hfits unsent.1 (by simp))
  have habandoned : Reaches scripted secondGone .ipv4 {} abandoned.2.1 abandoned.2.2 :=
    .leave 0 ⟨1⟩ _ hunsent
  have hevicted : Reaches scripted secondGone .ipv4 {} evicted.2.1 evicted.2.2 :=
    .dispatch 0 _ habandoned
  refine ⟨by decide +kernel, ?_, ?_, by decide +kernel, ?_, by decide +kernel, ?_⟩
  · exact (Reaches.reception_follows hrefused group).2.1.trans (by decide +kernel)
  · exact (Reaches.reception_follows hwidened group).2.2.1 (by decide +kernel)
  · exact (Reaches.reception_follows habandoned otherGroup).2.1.trans (by decide +kernel)
  · exact (Reaches.reception_follows hevicted group).2.2.2.1 (by decide +kernel) (by decide +kernel)

end ChannelTree

end MulticastTunnel
