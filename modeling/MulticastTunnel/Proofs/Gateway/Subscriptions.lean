import MulticastTunnel.Gateway
import MulticastTunnel.Proofs.Interface.Subscribers
import MulticastTunnel.Proofs.Registry.Leases

/-!
# What a subscription is worth while it is alive

Each subscription has a lease of its own, but the tree of its interface has a sink in a
channel once or not at all. So while a subscription is alive its interface is open, however
the others that share it end; but the sink is in the channel only if the latest that became
of subscriptions of this sink to this channel there is that one was taken. `Attends` ties a
gateway to the log of what became of subscriptions and to the leases that are alive; every
request keeps it, and so does all that the interfaces do of themselves.
-/

namespace MulticastTunnel.Gateway

open Keyed MulticastTunnel.Membership

/-! ## Runs -/

/-- What becomes of subscriptions. Those that cannot be told apart are one. -/
inductive Deed
  | taken (s : Subscription)
  /-- Unsubscribed or dropped. -/
  | ended (s : Subscription)
deriving DecidableEq

def Deed.subscription : Deed → Subscription
  | taken s | ended s => s

/-- A run with the log of its deeds, the latest first, and the subscriptions that are alive.
In between the interfaces are at work, and the world moves on. -/
inductive Run (settings : InterfaceSettings) : List Deed → Multiset Subscription → Gateway → Prop
  | opened (w : World) : Run settings [] 0 { settings, site := { world := w } }
  | subscribe {log : List Deed} {live : Multiset Subscription} {g : Gateway} {s : Subscription}
      (relay : Address) (sink : SinkId) (c : Channel) : Run settings log live g →
      (g.subscribe relay sink c).1 = .ok s →
      Run settings (.taken s :: log) (s ::ₘ live) (g.subscribe relay sink c).2
  | refuse {log : List Deed} {live : Multiset Subscription} {g : Gateway} {e : GatewayError}
      (relay : Address) (sink : SinkId) (c : Channel) : Run settings log live g →
      (g.subscribe relay sink c).1 = .error e →
      Run settings log live (g.subscribe relay sink c).2
  | finish {log : List Deed} {live : Multiset Subscription} {g : Gateway} {s : Subscription} :
      Run settings log (s ::ₘ live) g →
      Run settings (.ended s :: log) live (g.unsubscribe s).2
  | act {log : List Deed} {live : Multiset Subscription} {g : Gateway} (n : Nat)
      (act : Interface.Act) : Run settings log live g → act.isRequest = false →
      Run settings log live
        { g with site := (g.site.on n fun i w => ((), i.perform act w)).2 }
  | elapse {log : List Deed} {live : Multiset Subscription} {g : Gateway} {v : World} :
      Run settings log live g → g.site.world.trace <:+ v.trace →
      Run settings log live { g with site := { g.site with world := v } }

/-- The subscription was taken, and has not been ended since. -/
def Stands (log : List Deed) (s : Subscription) : Prop :=
  ∃ recent older, log = recent ++ .taken s :: older ∧ .ended s ∉ recent

section Stands

variable {log : List Deed} {s other : Subscription}

theorem Stands.cons (h : Stands log s) {d : Deed} (hd : d ≠ .ended s) : Stands (d :: log) s := by
  obtain ⟨recent, older, rfl, hrecent⟩ := h
  refine ⟨d :: recent, older, rfl, ?_⟩
  intro hm
  rcases List.mem_cons.mp hm with rfl | hm
  · exact hd rfl
  · exact hrecent hm

/-- What stands was taken just now, or it stood before and is not what was ended just now. -/
theorem Stands.of_cons {d : Deed} (h : Stands (d :: log) s) :
    d = .taken s ∨ d ≠ .ended s ∧ Stands log s := by
  obtain ⟨recent, older, hlog, hrecent⟩ := h
  cases recent with
  | nil => exact .inl (List.cons.inj hlog).1
  | cons x recent =>
    obtain ⟨rfl, rfl⟩ := List.cons.inj hlog
    refine .inr ⟨?_, recent, older, rfl, fun hm => hrecent (List.mem_cons_of_mem _ hm)⟩
    rintro rfl
    exact hrecent List.mem_cons_self

theorem stands_taken : Stands (.taken other :: log) s ↔ other = s ∨ Stands log s := by
  constructor
  · intro h
    rcases h.of_cons with he | ⟨-, h⟩
    · exact .inl (Deed.taken.inj he)
    · exact .inr h
  · rintro (rfl | h)
    · exact ⟨[], log, rfl, List.not_mem_nil⟩
    · exact h.cons (by simp)

theorem stands_ended : Stands (.ended other :: log) s ↔ other ≠ s ∧ Stands log s := by
  constructor
  · intro h
    rcases h.of_cons with he | ⟨hne, h⟩
    · cases he
    · exact ⟨fun he => hne (congrArg Deed.ended he), h⟩
  · rintro ⟨hne, h⟩
    exact h.cons (by simpa using hne)

/-- On one interface, subscriptions are told apart by sink and channel. -/
theorem same_iff (s : Subscription) (sink : SinkId) (c : Channel) :
    s = ⟨⟨s.lease.key, s.lease.value⟩, sink, c⟩ ↔ (sink, c) = (s.sink, s.channel) := by
  obtain ⟨⟨key, value⟩, other, x⟩ := s
  constructor
  · intro h
    cases h
    rfl
  · intro h
    cases h
    rfl

theorem Stands.mem (h : Stands log s) : .taken s ∈ log := by
  obtain ⟨recent, older, rfl, -⟩ := h
  simp

end Stands

/-! ## The invariant -/

/-- What an open interface keeps for its subscribers. -/
structure Serves (log : List Deed) (w : World) (n : Nat) (i : Interface) : Prop where
  isOpen : i.closed = false
  pruned : i.channels.Pruned
  contains : w.Unfailing → ∀ sink c,
    i.channels.contains sink c = true ↔ Stands log ⟨⟨i.key, n⟩, sink, c⟩

/-- What a gateway keeps for the leases that are alive. -/
structure Attends (log : List Deed) (leases : Multiset InterfaceLease) (g : Gateway) : Prop where
  counted : g.registry.Counted leases
  leased : ∀ lease ∈ leases, ∃ i, g.site.interfaces.get? lease.value = some i ∧
    i.key = lease.key
  numbered : ∀ n i, g.site.interfaces.get? n = some i → n < g.site.opened
  known : ∀ d ∈ log, d.subscription.lease.value < g.site.opened
  serves : ∀ n i, g.site.interfaces.get? n = some i → Serves log g.site.world n i

variable {log log' : List Deed} {leases : Multiset InterfaceLease} {g g' : Gateway}
  {lease : InterfaceLease} {i j : Interface} {v w : World} {n : Nat} {key : InterfaceKey}

theorem Serves.elapse (h : Serves log w n i) (hv : w.trace <:+ v.trace) : Serves log v n i :=
  ⟨h.isOpen, h.pruned, fun hu => h.contains (hu.earlier hv)⟩

theorem Attends.elapse (h : Attends log leases g) (hv : g.site.world.trace <:+ v.trace) :
    Attends log leases { g with site := { g.site with world := v } } :=
  ⟨h.counted, h.leased, h.numbered, h.known, fun n i hi => (h.serves n i hi).elapse hv⟩

/-! ## Leases -/

/-- Starting an interface changes its tunnel alone. -/
theorem start_create (key : InterfaceKey) (settings : InterfaceSettings) (w : World) :
    w.trace <:+ ((Interface.create key settings).start w).2.2.trace ∧
      ((Interface.create key settings).start w).2.1.key = key := by
  have hlater := Tunnel.later_step .start (Interface.create key settings).tunnel w
  exact ⟨hlater.trace, hlater.key⟩

/-- Opening an interface fails, or it gives one without subscribers under the next number. -/
theorem openInterface_cases (settings : InterfaceSettings) (key : InterfaceKey) (s : Site) :
    (∃ e v, s.openInterface settings key = (.error e, { s with world := v }) ∧
      s.world.trace <:+ v.trace) ∨
    ∃ i v, s.openInterface settings key =
        (.ok s.opened, ⟨v, s.interfaces.insert s.opened i, s.opened + 1⟩) ∧
      s.world.trace <:+ v.trace ∧ i.key = key ∧ i.closed = false ∧ i.channels = {} := by
  unfold Site.openInterface
  split
  · next e v heq =>
    obtain ⟨-, rfl⟩ := Prod.mk.inj heq
    exact .inl ⟨_, _, rfl, List.suffix_cons _ _⟩
  · next v heq =>
    obtain ⟨-, rfl⟩ := Prod.mk.inj heq
    obtain ⟨htrace, hkey⟩ := start_create key settings
      (s.world.record (.opened key settings.tunnel.relayPort))
    have hlater := (List.suffix_cons _ s.world.trace).trans htrace
    split
    · next e i v hstart =>
      rw [hstart] at hlater
      exact .inl ⟨_, _, rfl, hlater⟩
    · next i v hstart =>
      rw [hstart] at hlater hkey
      obtain ⟨-, hi⟩ := Prod.mk.inj hstart
      obtain ⟨rfl, rfl⟩ := Prod.mk.inj hi
      exact .inr ⟨_, _, rfl, hlater, hkey, rfl, rfl⟩

/-- An open interface that is worked on, with what it keeps for its subscribers then. -/
theorem Attends.work (h : Attends log leases g) (hi : g.site.interfaces.get? n = some i)
    (hf : Interface.Follows (i, g.site.world) (j, v))
    (hlog : ∀ s : Subscription, s.lease.value ≠ n → (Stands log' s ↔ Stands log s))
    (hknown : ∀ d ∈ log', d ∈ log ∨ d.subscription.lease.value = n)
    (hstands : v.Unfailing → ∀ sink c,
      j.channels.contains sink c = true ↔ Stands log' ⟨⟨i.key, n⟩, sink, c⟩) :
    Attends log' leases
      { g with site := { g.site with world := v, interfaces := g.site.interfaces.insert n j } } := by
  have hkey : j.key = i.key := hf.tunnel.key
  have hopen := (h.serves n i hi).isOpen
  constructor
  · exact h.counted
  · intro lease hm
    obtain ⟨k, hk, hkl⟩ := h.leased lease hm
    show ∃ i', (g.site.interfaces.insert n j).get? lease.value = some i' ∧ i'.key = lease.key
    rw [Table.get?_insert]
    split
    · next hn =>
      rw [hn, hi] at hk
      obtain rfl := Option.some.inj hk
      exact ⟨j, rfl, hkey.trans hkl⟩
    · exact ⟨k, hk, hkl⟩
  · intro m k hm
    rw [Table.get?_insert] at hm
    split at hm
    · next hn =>
      rw [hn]
      exact h.numbered n i hi
    · exact h.numbered m k hm
  · intro d hd
    rcases hknown d hd with hd | hd
    · exact h.known d hd
    · rw [hd]
      exact h.numbered n i hi
  · intro m k hm
    rw [Table.get?_insert] at hm
    split at hm
    · next hn =>
      obtain rfl := Option.some.inj hm
      subst hn
      refine ⟨hf.closed.trans hopen, hf.pruned, ?_⟩
      rw [hkey]
      exact hstands
    · next hn =>
      have hk := (h.serves m k hm).elapse hf.tunnel.trace
      refine ⟨hk.isOpen, hk.pruned, ?_⟩
      intro hv sink c
      rw [hk.contains hv, hlog _ hn]

/-- An interface that was just opened is attended by its first lease. -/
theorem Attends.first (h : Attends log leases g) (hg : g.registry.entries.get? key = none)
    (hv : g.site.world.trace <:+ v.trace) (hkey : i.key = key) (hclosed : i.closed = false)
    (hchannels : i.channels = {}) :
    Attends log (⟨key, g.site.opened⟩ ::ₘ leases)
      { g with
        registry := ⟨g.registry.entries.insert key ⟨g.site.opened, 1⟩⟩
        site := ⟨v, g.site.interfaces.insert g.site.opened i, g.site.opened + 1⟩ } := by
  constructor
  · exact h.counted.first hg g.site.opened
  · intro lease hm
    show ∃ k, (g.site.interfaces.insert g.site.opened i).get? lease.value = some k ∧
      k.key = lease.key
    rw [Table.get?_insert]
    rcases Multiset.mem_cons.mp hm with rfl | hm
    · exact ⟨i, if_pos rfl, hkey⟩
    · obtain ⟨k, hk, hkl⟩ := h.leased lease hm
      have hne : lease.value ≠ g.site.opened := (h.numbered _ k hk).ne
      exact ⟨k, (if_neg hne).trans hk, hkl⟩
  · intro n k hk
    rw [Table.get?_insert] at hk
    split at hk
    · next hn =>
      rw [hn]
      exact Nat.lt_succ_self _
    · exact Nat.lt_succ_of_lt (h.numbered n k hk)
  · intro d hd
    exact Nat.lt_succ_of_lt (h.known d hd)
  · intro n k hk
    rw [Table.get?_insert] at hk
    split at hk
    · next hn =>
      obtain rfl := Option.some.inj hk
      have hp : i.channels.Pruned := by
        rw [hchannels]
        exact ChannelTree.pruned_empty
      refine ⟨hclosed, hp, fun _ sink c => ?_⟩
      rw [hchannels]
      refine iff_of_false (ChannelTree.not_contains_of_groups_empty rfl) ?_
      -- Nobody heard of the number before.
      intro hs
      have hknown := h.known _ hs.mem
      exact absurd hn hknown.ne
    · exact (h.serves n k hk).elapse hv

/-- A lease is of the interface that others share, or of one that is opened for it. -/
theorem Attends.acquire (h : Attends log leases g) (key : InterfaceKey) :
    (∃ e g', g.acquire key = (.error e, g') ∧ Attends log leases g') ∨
    ∃ lease g', g.acquire key = (.ok lease, g') ∧ Attends log (lease ::ₘ leases) g' := by
  unfold Gateway.acquire
  cases hg : g.registry.entries.get? key with
  | some shared =>
    rw [Registry.acquire_of_some hg]
    refine .inr ⟨_, _, rfl, h.counted.cons hg, ?_, h.numbered, h.known, h.serves⟩
    intro lease hm
    rcases Multiset.mem_cons.mp hm with rfl | hm
    · obtain ⟨other, ho, hk, hv⟩ := h.counted.exists_lease hg
      obtain ⟨i, hi, hik⟩ := h.leased other ho
      exact ⟨i, hv ▸ hi, hik.trans hk⟩
    · exact h.leased lease hm
  | none =>
    rcases openInterface_cases g.settings key g.site with
      ⟨e, v, hopen, hv⟩ | ⟨i, v, hopen, hv, hkey, hclosed, hchannels⟩
    · rw [Registry.acquire_of_error hg hopen]
      exact .inl ⟨e, _, rfl, h.elapse hv⟩
    · rw [Registry.acquire_of_ok hg hopen]
      exact .inr ⟨_, _, rfl, h.first hg hv hkey hclosed hchannels⟩

/-- The last lease of a key takes its interface along, which nobody else has a lease of. -/
theorem Attends.release (h : Attends log (lease ::ₘ leases) g) :
    Attends log leases (g.release lease) := by
  obtain ⟨i, hi, hkey⟩ := h.leased lease (Multiset.mem_cons_self lease leases)
  show Attends log leases { g with
    registry := (g.registry.release Site.closeInterface lease g.site).1
    site := (g.registry.release Site.closeInterface lease g.site).2 }
  obtain ⟨hcounted, ⟨hlast, hsite⟩ | ⟨-, hsite⟩⟩ :=
    h.counted.release Site.closeInterface g.site
  · have hclosed : Site.closeInterface lease.value g.site =
        { g.site with
          world := (i.close g.site.world).2.2
          interfaces := g.site.interfaces.erase lease.value } := by
      unfold Site.closeInterface
      rw [hi]
    have hlater := Interface.later_close (h.serves _ i hi).pruned g.site.world
    rw [hsite, hclosed]
    constructor
    · exact hcounted
    · intro other hm
      obtain ⟨k, hk, hkl⟩ := h.leased other (Multiset.mem_cons_of_mem hm)
      refine ⟨k, ?_, hkl⟩
      show (g.site.interfaces.erase lease.value).get? other.value = some k
      rw [Table.get?_erase, if_neg ?_]
      · exact hk
      · intro hn
        rw [hn, hi] at hk
        obtain rfl := Option.some.inj hk
        exact hlast other hm (hkl.symm.trans hkey)
    · intro n k hk
      rw [Table.get?_erase] at hk
      split at hk
      · cases hk
      · exact h.numbered n k hk
    · exact h.known
    · intro n k hk
      rw [Table.get?_erase] at hk
      split at hk
      · cases hk
      · exact (h.serves n k hk).elapse hlater
  · rw [hsite]
    exact ⟨hcounted, fun other hm => h.leased other (Multiset.mem_cons_of_mem hm), h.numbered,
      h.known, h.serves⟩

/-! ## Requests -/

theorem onLease_of_some {α : Type} (absent : α) (f : Interface → World → α × Interface × World)
    (hi : g.site.interfaces.get? lease.value = some i) :
    g.onLease lease absent f = ((f i g.site.world).1,
      { g with site :=
        { g.site with
          world := (f i g.site.world).2.2
          interfaces := g.site.interfaces.insert lease.value (f i g.site.world).2.1 } }) := by
  unfold onLease Site.on
  rw [hi]
  rfl

theorem Attends.subscribe (h : Attends log leases g) (relay : Address) (sink : SinkId)
    (c : Channel) :
    (∃ e g', g.subscribe relay sink c = (.error e, g') ∧ Attends log leases g') ∨
    ∃ s g', g.subscribe relay sink c = (.ok s, g') ∧
      Attends (.taken s :: log) (s.lease ::ₘ leases) g' := by
  unfold Gateway.subscribe
  rcases h.acquire ⟨relay, c.group.family⟩ with ⟨e, g', heq, h'⟩ | ⟨lease, g', heq, h'⟩
  · rw [heq]
    exact .inl ⟨e, g', rfl, h'⟩
  · rw [heq]
    obtain ⟨i, hi, hkey⟩ := h'.leased lease (Multiset.mem_cons_self lease leases)
    have hi' := h'.serves _ i hi
    have hf := Interface.follows_join hi'.pruned sink c g'.site.world
    simp only [onLease_of_some _ _ hi]
    cases hjoin : (i.join sink c g'.site.world).1 with
    | error e =>
      refine .inl ⟨_, _, rfl, Attends.release ?_⟩
      refine h'.work hi hf (fun _ _ => Iff.rfl) (fun d hd => .inl hd) ?_
      intro hv other x
      rw [Interface.contains_join_of_error hjoin]
      exact hi'.contains (hv.earlier hf.tunnel.trace) other x
    | ok _ =>
      refine .inr ⟨_, _, rfl, ?_⟩
      refine h'.work hi hf ?_ ?_ ?_
      · intro s hs
        rw [stands_taken]
        refine or_iff_right ?_
        rintro rfl
        exact hs rfl
      · intro d hd
        rcases List.mem_cons.mp hd with rfl | hd
        · exact .inr rfl
        · exact .inl hd
      · intro hv other x
        rw [Interface.contains_join_of_ok hjoin, hi'.contains (hv.earlier hf.tunnel.trace),
          stands_taken, hkey]
        exact or_congr_left (same_iff ⟨lease, sink, c⟩ other x).symm

theorem Attends.unsubscribe {s : Subscription} (h : Attends log (s.lease ::ₘ leases) g) :
    Attends (.ended s :: log) leases (g.unsubscribe s).2 := by
  obtain ⟨i, hi, hkey⟩ := h.leased s.lease (Multiset.mem_cons_self s.lease leases)
  have hi' := h.serves _ i hi
  have hf := Interface.follows_leave hi'.pruned s.sink s.channel g.site.world
  unfold Gateway.unsubscribe
  simp only [onLease_of_some _ _ hi]
  refine Attends.release ?_
  refine h.work hi hf ?_ ?_ ?_
  · intro other ho
    rw [stands_ended]
    refine and_iff_right ?_
    rintro rfl
    exact ho rfl
  · intro d hd
    rcases List.mem_cons.mp hd with rfl | hd
    · exact .inr rfl
    · exact .inl hd
  · intro hv other x
    rw [Interface.contains_leave, hi'.contains (hv.earlier hf.tunnel.trace), stands_ended, hkey, and_comm]
    exact and_congr_left' (not_congr (same_iff s other x).symm)

/-- What an interface does of itself changes nothing for its subscribers. -/
theorem Attends.act (h : Attends log leases g) (n : Nat) {act : Interface.Act}
    (ha : act.isRequest = false) :
    Attends log leases { g with site := (g.site.on n fun i w => ((), i.perform act w)).2 } := by
  unfold Site.on
  cases hi : g.site.interfaces.get? n with
  | none => exact h
  | some i =>
    have hi' := h.serves n i hi
    have hu := (Interface.Undisturbed.refl hi'.pruned g.site.world).perform ha
    refine h.work hi hu.toFollows (fun _ _ => Iff.rfl) (fun d hd => .inl hd) ?_
    intro hv sink c
    rw [hu.contains hv]
    exact hi'.contains (hv.earlier hu.tunnel.trace) sink c

variable {settings : InterfaceSettings} {live : Multiset Subscription}

theorem Run.attends (h : Run settings log live g) : Attends log (live.map (·.lease)) g := by
  induction h with
  | opened w =>
    refine ⟨fun key => .absent, ?_, ?_, ?_, ?_⟩
    · intro lease hm
      exact absurd hm (Multiset.notMem_zero lease)
    · intro n i hi
      cases hi
    · intro d hd
      cases hd
    · intro n i hi
      cases hi
  | @subscribe log live g s relay sink c _ hok ih =>
    rcases ih.subscribe relay sink c with ⟨e, g', heq, -⟩ | ⟨s', g', heq, h'⟩
    · rw [heq] at hok
      cases hok
    · rw [heq] at hok ⊢
      cases hok
      rwa [Multiset.map_cons]
  | @refuse log live g e relay sink c _ herr ih =>
    rcases ih.subscribe relay sink c with ⟨e', g', heq, h'⟩ | ⟨s, g', heq, -⟩
    · rw [heq]
      exact h'
    · rw [heq] at herr
      cases herr
  | @finish log live g s _ ih =>
    rw [Multiset.map_cons] at ih
    exact ih.unsubscribe
  | act n act _ ha ih => exact ih.act n ha
  | elapse _ hv ih => exact ih.elapse hv

/-- **What a subscription is worth while it is alive**, however the others are taken and
ended and whatever comes in: it is found under its key in the registry, and its interface is
open. If no sink ever failed, its sink is in its channel just if no other subscription of the
sink to the channel there has been ended since one was taken. -/
theorem Run.keeps_subscribed (h : Run settings log live g) {s : Subscription} (hs : s ∈ live) :
    g.registry.get? s.lease.key = some s.lease.value ∧
      ∃ i, g.site.interfaces.get? s.lease.value = some i ∧ i.key = s.lease.key ∧
        i.closed = false ∧
        (g.site.world.Unfailing →
          (i.channels.contains s.sink s.channel = true ↔ Stands log s)) := by
  have ha := h.attends
  have hm : s.lease ∈ live.map (·.lease) := Multiset.mem_map_of_mem _ hs
  obtain ⟨shared, hg, hv⟩ := ha.counted.exists_shared hm
  obtain ⟨i, hi, hkey⟩ := ha.leased s.lease hm
  have hserves := ha.serves _ i hi
  refine ⟨?_, i, hi, hkey, hserves.isOpen, ?_⟩
  · rw [Registry.get?, hg, hv]
    rfl
  · intro hu
    rw [hserves.contains hu, hkey]

/-! ## Two subscriptions to one channel -/

/-- A sink's subscription to port 5001 of group 232.1.1.1 through 192.0.2.1. -/
def subscriber (number : Nat) : Subscription :=
  ⟨⟨⟨.read .ipv4 [192, 0, 2, 1], .ipv4⟩, 0⟩, ⟨number⟩, ⟨.read .ipv4 [232, 1, 1, 1], none, 5001⟩⟩

def subscribing (number : Nat) (g : Gateway) : Gateway :=
  (g.subscribe (.read .ipv4 [192, 0, 2, 1]) ⟨number⟩ (subscriber number).channel).2

/-- Sink 1 was subscribed, and then the other sink was, whose subscription has been ended. -/
def remaining (other : Nat) : Gateway :=
  let w : World := { oracle := { nonce := fun _ => 7, chance := fun _ => 0 } }
  let g := subscribing other (subscribing 1 { settings := {}, site := { world := w } })
  (g.unsubscribe (subscriber other)).2

theorem run_remaining {other : Nat} (h : other = 1 ∨ other = 2) :
    Run {} [.ended (subscriber other), .taken (subscriber other), .taken (subscriber 1)]
      (subscriber 1 ::ₘ 0) (remaining other) := by
  rcases h with rfl | rfl
  · refine .finish (.subscribe _ _ _ (.subscribe _ _ _ (.opened _) ?_) ?_)
    · decide +kernel
    · decide +kernel
  · refine .finish (.subscribe _ _ _ (.subscribe _ _ _ (.opened _) ?_) ?_)
    · decide +kernel
    · decide +kernel

/-- Nothing came in yet. -/
theorem unfailing_remaining {other : Nat} (h : other = 1 ∨ other = 2) :
    (remaining other).site.world.Unfailing := by
  have htrace : (remaining other).site.world.trace =
      [.sent (subscriber 1).lease.key (.relayDiscovery 7) false,
        .connected (subscriber 1).lease.key ⟨.read .ipv4 [192, 0, 2, 1], 2268, 0, 0⟩ false,
        .opened (subscriber 1).lease.key 2268] := by
    rcases h with rfl | rfl <;> decide +kernel
  intro sink d hm
  rw [htrace] at hm
  simp at hm

/-- A subscription outlives that of another sink to its channel. -/
theorem remaining_keeps_subscribed :
    ∃ i, (remaining 2).site.interfaces.get? 0 = some i ∧ i.closed = false ∧
      i.channels.contains (subscriber 1).sink (subscriber 1).channel = true := by
  have hrun := run_remaining (.inr rfl)
  obtain ⟨-, i, hi, -, hopen, hcontains⟩ :=
    hrun.keeps_subscribed (Multiset.mem_cons_self (subscriber 1) 0)
  refine ⟨i, hi, hopen, (hcontains (unfailing_remaining (.inr rfl))).mpr ?_⟩
  rw [stands_ended, stands_taken, stands_taken]
  exact ⟨by decide, .inr (.inl rfl)⟩

/-- A second subscription of the same sink takes the first one along, which is alive. -/
theorem remaining_not_subscribed_of_twin :
    Run {} [.ended (subscriber 1), .taken (subscriber 1), .taken (subscriber 1)]
        (subscriber 1 ::ₘ 0) (remaining 1) ∧
      (remaining 1).site.world.Unfailing ∧
      ∃ i, (remaining 1).site.interfaces.get? (subscriber 1).lease.value = some i ∧
        i.channels.contains (subscriber 1).sink (subscriber 1).channel = false := by
  have hrun := run_remaining (.inl rfl)
  have hu := unfailing_remaining (.inl rfl)
  refine ⟨hrun, hu, ?_⟩
  have hnone : ((remaining 1).site.interfaces.get? 0).map (fun i =>
      i.channels.contains (subscriber 1).sink (subscriber 1).channel) = some false := by
    decide +kernel
  exact Option.map_eq_some_iff.mp hnone

end MulticastTunnel.Gateway
