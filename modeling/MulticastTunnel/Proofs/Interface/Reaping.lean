import MulticastTunnel.Proofs.Interface.Answering
import MulticastTunnel.Proofs.Interface.Deeds
import MulticastTunnel.Proofs.Reassembly.Ageing
import MulticastTunnel.Proofs.Reassembly.Promptness
import MulticastTunnel.Proofs.Tunnel.Clock

/-!
# How long datagrams stay unfinished

The reaper is a timer that runs out once. It is set when a packet leaves something unfinished
and no reaper is pending, and again when it has run out and something is left. `Watched` says
that it is pending while there is anything to look for, and that it runs out before any datagram
is older than the timeout by more than its interval. That is said of the time at which a datagram
was begun, not of the age that it has: so it lasts while the clock jumps and the reaper is late,
and when no timer is due any more it bounds all ages.
-/

namespace MulticastTunnel

open MulticastTunnel.Membership MulticastTunnel.Reassembly

/-! ## The clock -/

namespace Tunnel

/-- Sending reports takes no time. -/
theorem keeps_now (now : Nat) : outlet.Keeps fun s => s.2.now = now where
  send packet s h := (now_send s.1 s.2 packet).trans h
  serial _ h := h

end Tunnel

/-- What each timer that is due keeps is kept when all of them run out. -/
theorem Timer.settle_induction {σ α : Type} {pending : σ → List (Timer × α)} {fire : α → σ → σ}
    {P : σ → Prop} (h : ∀ s timer what, P s → (timer, what) ∈ pending s → P (fire what s))
    (now fuel : Nat) {s : σ} (hs : P s) : P (settle pending fire now fuel s) := by
  induction fuel generalizing s with
  | zero => exact hs
  | succ fuel ih =>
    unfold settle
    split
    · exact hs
    · next timer what heq =>
      split
      · exact ih (h s timer what hs (Timer.earliest?_eq_some heq).1)
      · exact hs

namespace Interface

/-! ## Aside from the fragments -/

/-- The fragments and the reaper are the same, and no time went by. -/
structure Aside (s s' : Interface × World) : Prop where
  reassembler : s'.1.reassembler = s.1.reassembler
  reaper : s'.1.reaper = s.1.reaper
  closed : s'.1.closed = s.1.closed
  now : s'.2.now = s.2.now
  pruned : s'.1.channels.Pruned

section Aside

variable {s : Interface × World} {i : Interface} {w : World}

theorem Aside.refl (hp : i.channels.Pruned) (w : World) : Aside (i, w) (i, w) :=
  ⟨rfl, rfl, rfl, rfl, hp⟩

/-- Whatever is delivered, no fragment is touched. -/
theorem withstands_aside (s : Interface × World) : Withstands (Aside s) where
  given _ _ _ _ h := ⟨h.reassembler, h.reaper, h.closed, h.now, h.pruned⟩
  dispatch {i w} d h := by
    have hi : Holds (fun _ u => u.2.2.now = s.2.now) i w := ⟨h.pruned, h.now⟩
    have hd := Holds.dispatch (P := fun u => u.2.now = s.2.now) (Tunnel.keeps_now s.2.now)
      (fun _ _ _ _ hnow => hnow) hi d
    exact ⟨h.reassembler, h.reaper, h.closed, hd.2, hd.1⟩

theorem aside_request (hp : i.channels.Pruned) (w : World) {act : Act}
    (ha : act.isRequest = true) : Aside (i, w) (i.perform act w) := by
  have hi : Holds (fun _ u => u.2.2.now = w.now) i w := ⟨hp, rfl⟩
  have hr := Holds.request (P := fun u => u.2.now = w.now) (Tunnel.keeps_now w.now) hi ha
  cases act with
  | join | leave | leaveSink | leaveAll => exact ⟨rfl, rfl, rfl, hr.2, hr.1⟩
  | _ => cases ha

/-- Something happens to the tunnel. -/
theorem aside_step (hp : i.channels.Pruned) (w : World) (input : Tunnel.Input) :
    Aside (i, w) ({ i with tunnel := (i.tunnel.step input w).1 }, (i.tunnel.step input w).2) :=
  ⟨rfl, rfl, rfl, Tunnel.now_step i.tunnel w input, hp⟩

/-- The reporter is asked for something. -/
theorem aside_ask (hp : i.channels.Pruned) (w : World) (act : Reporter.Act) :
    Aside (i, w) (i.carryOut (.ask act) w) :=
  ⟨rfl, rfl, rfl, (Tunnel.keeps_now w.now).perform w.now act i.reporter (w := (i.tunnel, w)) rfl,
    hp⟩

end Aside

/-! ## The watch over the fragments -/

/-- The timer is set early enough for all that a reassembler holds. It is not due, if none is. -/
structure Watches (quiet : Prop) (r : Reassembler) (now : Nat) (timer : Timer) : Prop where
  later : quiet → now < timer.deadline
  soon : timer.deadline ≤ now + reaperInterval
  timely : ∀ key b, r.cache.get? key = some b →
    timer.deadline ≤ b.created + r.limits.timeout + reaperInterval

/-- An open interface that looks for datagrams that are too old. If it is quiet, no timer is
due. -/
structure Watched (limits : Limits) (quiet : Prop) (i : Interface) (w : World) : Prop where
  closed : i.closed = false
  limits : i.reassembler.limits = limits
  pruned : i.channels.Pruned
  armed : ∀ key b, i.reassembler.cache.get? key = some b → i.reaper.isSome = true
  watches : ∀ timer, i.reaper = some timer → Watches quiet i.reassembler w.now timer

section Watched

variable {limits : Limits} {quiet : Prop} {i j : Interface} {w v : World}

theorem Watched.aside (h : Watched limits quiet i w) (ha : Aside (i, w) (j, v)) :
    Watched limits quiet j v := by
  have hr : j.reassembler = i.reassembler := ha.reassembler
  have hreaper : j.reaper = i.reaper := ha.reaper
  have hnow : v.now = w.now := ha.now
  refine ⟨ha.closed.trans h.closed, ?_, ha.pruned, ?_, ?_⟩
  · rw [hr]
    exact h.limits
  · rw [hr, hreaper]
    exact h.armed
  · rw [hr, hreaper, hnow]
    exact h.watches

theorem Watched.deliverAll (h : Watched limits quiet i w) (ps : List Packet) :
    Watched limits quiet (i.deliverAll ps w).1 (i.deliverAll ps w).2 :=
  h.aside ((withstands_aside (i, w)).deliverAll ps (.refl h.pruned w))

/-- A reaper that is set now watches what is young. -/
theorem watched_ensureReaper (hclosed : i.closed = false) (hlimits : i.reassembler.limits = limits)
    (hpruned : i.channels.Pruned)
    (hpending : ∀ timer, i.reaper = some timer → Watches quiet i.reassembler w.now timer)
    (hyoung : i.reaper = none → ∀ key b, i.reassembler.cache.get? key = some b →
      w.now ≤ b.created + i.reassembler.limits.timeout) :
    Watched limits quiet (i.ensureReaper w).1 (i.ensureReaper w).2 := by
  unfold ensureReaper
  split
  · next h =>
    refine ⟨hclosed, hlimits, hpruned, fun key b hb => ?_, hpending⟩
    rcases h with h | h
    · exact h
    · cases (Reassembler.isEmpty_iff.mp h key).symm.trans hb
  · next h =>
    have hnone : i.reaper = none := by simpa using fun hsome => h (.inl hsome)
    refine ⟨hclosed, hlimits, hpruned, fun _ _ _ => rfl, ?_⟩
    rintro timer ⟨⟩
    refine ⟨fun _ => Nat.lt_add_of_pos_right (by decide), Nat.le_refl _, fun key b hb => ?_⟩
    exact Nat.add_le_add_right (hyoung hnone key b hb) reaperInterval

/-- A packet goes into a buffer that was watched before, or begins one. -/
theorem Watched.ingest (h : Watched limits quiet i w) (p : Packet) :
    Watched limits quiet (i.ingest p w).2.1 (i.ingest p w).2.2 := by
  obtain ⟨hages, hlimits⟩ := i.reassembler.ages_process p w.now
  unfold Interface.ingest
  split
  · next e r heq =>
    -- A fragment that is refused leaves the buffers alone.
    obtain ⟨-, stats, hsame⟩ := Reassembler.process_error (congrArg Prod.fst heq)
    have hr : r = { i.reassembler with stats } := (congrArg Prod.snd heq).symm.trans hsame
    subst hr
    exact ⟨h.closed, h.limits, h.pruned, h.armed, fun timer ht =>
      ⟨(h.watches timer ht).later, (h.watches timer ht).soon, (h.watches timer ht).timely⟩⟩
  · next completed r heq =>
    -- What is begun now is watched by any timer, the rest as it was.
    rw [heq] at hages hlimits
    replace hlimits : r.limits = i.reassembler.limits := hlimits
    have hkept : Watched limits quiet ({ i with reassembler := r }.ensureReaper w).1
        ({ i with reassembler := r }.ensureReaper w).2 := by
      refine watched_ensureReaper (i := { i with reassembler := r }) h.closed
        (hlimits.trans h.limits) h.pruned ?_ ?_
      · intro timer ht
        obtain ⟨hlater, hsoon, htimely⟩ := h.watches timer ht
        refine ⟨hlater, hsoon, fun key b hb => ?_⟩
        obtain hnow | ⟨b', hb', hage⟩ := hages key b hb
        · simp only [hnow]
          omega
        · have hold := htimely key b' hb'
          simp only [hlimits]
          omega
      · intro hnone key b hb
        obtain hnow | ⟨b', hb', -⟩ := hages key b hb
        · simp only [hnow]
          omega
        · have hsome := h.armed key b' hb'
          have hnone : i.reaper = none := hnone
          rw [hnone] at hsome
          cases hsome
    exact hkept.deliverAll completed

/-- The reaper drops what is too old, and is set again if something is left. -/
theorem Watched.reap (h : Watched limits quiet i w) :
    Watched limits quiet (i.reap w).1 (i.reap w).2 := by
  have hlimits := i.reassembler.limits_evict w.now
  have hkept : Watched limits quiet
      ({ i with reaper := none, reassembler := (i.reassembler.evict w.now).2 }.ensureReaper w).1
      ({ i with reaper := none, reassembler := (i.reassembler.evict w.now).2 }.ensureReaper w).2 := by
    refine watched_ensureReaper
      (i := { i with reaper := none, reassembler := (i.reassembler.evict w.now).2 })
      h.closed (hlimits.trans h.limits) h.pruned ?_ ?_
    · intro timer ht
      cases ht
    · -- The time it took the reaper to come does not count any more: all that is left is young.
      intro _ key b hb
      simp only [hlimits]
      exact Reassembler.young_evict hb
  simp only [Interface.reap]
  rw [if_neg (by simp [h.closed])]
  apply Watched.deliverAll
  split
  · exact hkept
  · exact hkept.aside ((withstands_aside _).notify _ _ (.refl hkept.pruned _))

theorem endures_watched (limits : Limits) (quiet : Prop) :
    Endures fun s => Watched limits quiet s.1 s.2 where
  step input _ h := h.aside (aside_step h.pruned _ input)
  ask act _ h := h.aside (aside_ask h.pruned _ act)
  request ha h := h.aside (aside_request h.pruned _ ha)
  chance h := h.aside ⟨rfl, rfl, rfl, rfl, h.pruned⟩
  ingest p h := h.ingest p
  reap h := h.reap
  sinks _ _ _ h := h.aside ⟨rfl, rfl, rfl, rfl, h.pruned⟩

/-- Whatever timers run out, and in whatever order. -/
theorem Watched.settle (h : Watched limits quiet i w) (fuel : Nat) :
    Watched limits quiet (i.settle fuel w).1 (i.settle fuel w).2 :=
  Timer.settle_induction (P := fun s : Interface × World => Watched limits quiet s.1 s.2)
    (fun _ timer _ hs hm => (endures_watched limits quiet).fire hs ⟨timer, hm⟩) w.now fuel h

/-- A reaper may be late when the clock has jumped. -/
theorem Watched.jump (h : Watched limits quiet i w) {now : Nat} (hnow : w.now ≤ now) :
    Watched limits False i { w with now } := by
  refine ⟨h.closed, h.limits, h.pruned, h.armed, fun timer ht => ⟨False.elim, ?_, ?_⟩⟩
  · exact (h.watches timer ht).soon.trans (Nat.add_le_add_right hnow _)
  · exact (h.watches timer ht).timely

/-- No timer is due, so neither is the reaper. -/
theorem Watched.calm (h : Watched limits quiet i w)
    (hdue : ∀ e ∈ i.alarms, e.1.isDue w.now = false) : Watched limits True i w := by
  refine ⟨h.closed, h.limits, h.pruned, h.armed, fun timer ht =>
    ⟨fun _ => ?_, (h.watches timer ht).soon, (h.watches timer ht).timely⟩⟩
  have hm : (timer, Alarm.reaper) ∈ i.alarms := by simp [alarms, ht]
  simpa [Timer.isDue] using hdue _ hm

end Watched

/-! ## Runs on a clock -/

/-- The runs of an open interface on a clock. The clock may jump as far as it likes, and then the
timers run out that are due; whatever else happens takes no time. -/
inductive Paced (key : InterfaceKey) (settings : InterfaceSettings) : Interface → World → Prop
  | created (w : World) : Paced key settings (create key settings) w
  | deed {i : Interface} {w : World} (deed : Deed) : Paced key settings i w →
      deed.Possible i → deed ≠ .close →
      Paced key settings (i.carryOut deed w).1 (i.carryOut deed w).2
  /-- Others are at work. -/
  | elapse {i : Interface} {w v : World} : Paced key settings i w → v.now = w.now →
      Paced key settings i v
  | jump {i : Interface} {w : World} (now fuel : Nat) : Paced key settings i w → w.now ≤ now →
      (∀ e ∈ (i.settle fuel { w with now }).1.alarms,
        e.1.isDue (i.settle fuel { w with now }).2.now = false) →
      Paced key settings (i.settle fuel { w with now }).1 (i.settle fuel { w with now }).2

variable {key : InterfaceKey} {settings : InterfaceSettings} {i : Interface} {w : World}

theorem watched_create (key : InterfaceKey) (settings : InterfaceSettings) (w : World) :
    Watched settings.reassembly True (create key settings) w where
  closed := rfl
  limits := rfl
  pruned := ChannelTree.pruned_empty
  armed _ _ h := by cases h
  watches _ h := by cases h

theorem Paced.watched (h : Paced key settings i w) : Watched settings.reassembly True i w := by
  induction h with
  | created w => exact watched_create key settings w
  | deed deed _ hd hopen ih => exact (endures_watched _ _).carryOut ih hd hopen
  | elapse _ hnow ih => exact ih.aside ⟨rfl, rfl, rfl, hnow, ih.pruned⟩
  | jump now fuel _ hnow hdue ih => exact ((ih.jump hnow).settle fuel).calm hdue

/-- **Unfinished datagrams are looked for every second**, while there are any, and none grows
older than the timeout and one second. -/
theorem Paced.reaped_in_time (h : Paced key settings i w) :
    (i.reassembler.isEmpty = false → ∃ timer, i.reaper = some timer ∧
      w.now < timer.deadline ∧ timer.deadline ≤ w.now + 1000) ∧
    ∀ fragmentKey b, i.reassembler.cache.get? fragmentKey = some b →
      w.now - b.created ≤ settings.reassembly.timeout + 1000 := by
  have hw := h.watched
  refine ⟨fun hne => ?_, fun fragmentKey b hb => ?_⟩
  · have hsome : i.reaper.isSome = true := by
      by_contra hnone
      have hempty : i.reassembler.isEmpty = true := Reassembler.isEmpty_iff.mpr fun key => by
        cases hb : i.reassembler.cache.get? key with
        | none => rfl
        | some b => exact absurd (hw.armed key b hb) hnone
      cases hempty.symm.trans hne
    obtain ⟨timer, ht⟩ := Option.isSome_iff_exists.mp hsome
    exact ⟨timer, ht, (hw.watches timer ht).later trivial, (hw.watches timer ht).soon⟩
  · obtain ⟨timer, ht⟩ := Option.isSome_iff_exists.mp (hw.armed fragmentKey b hb)
    have hlater := (hw.watches timer ht).later trivial
    have htimely := (hw.watches timer ht).timely fragmentKey b hb
    rw [hw.limits, show reaperInterval = 1000 from rfl] at htimely
    omega

/-! ## A fragment alone -/

/-- The clock jumps, and the timers run out that are due. -/
def jumped (now : Nat) (s : Interface × World) : Interface × World :=
  s.1.settle 8 { s.2 with now }

/-- A fragment comes in at once. The reaper is late and finds it one millisecond too young. -/
def lingering : Interface × World :=
  jumped 60998 (jumped 59999 (performed (.ingest Reassembler.otherStart) opened))

theorem paced_lingering : Paced sessionKey sessionSettings lingering.1 lingering.2 := by
  have hopened : Paced sessionKey sessionSettings opened.1 opened.2 :=
    ((Paced.created { oracle := friendly }).deed .start trivial (by simp)).elapse rfl
  have hfragment := (hopened.deed (.act (.ingest Reassembler.otherStart)) trivial
    (by simp)).elapse (v := (performed (.ingest Reassembler.otherStart) opened).2) rfl
  exact (hfragment.jump 59999 8 (by decide +kernel) (by decide +kernel)).jump 60998 8
    (by decide +kernel) (by decide +kernel)

/-- The fragment outlasts the timeout, and the reaper is pending again. -/
theorem lingering_reaped_in_time :
    lingering.1.reassembler.isEmpty = false ∧
    (∃ timer, lingering.1.reaper = some timer ∧
      lingering.2.now < timer.deadline ∧ timer.deadline ≤ lingering.2.now + 1000) ∧
    ∃ fragmentKey b, lingering.1.reassembler.cache.get? fragmentKey = some b ∧
      sessionSettings.reassembly.timeout < lingering.2.now - b.created ∧
      lingering.2.now - b.created ≤ sessionSettings.reassembly.timeout + 1000 := by
  have hne : lingering.1.reassembler.isEmpty = false := by decide +kernel
  obtain ⟨hpending, hages⟩ := paced_lingering.reaped_in_time
  let fragmentKey := (FragmentKey.of? Reassembler.otherStart).get (by decide +kernel)
  let b := (lingering.1.reassembler.cache.get? fragmentKey).get (by decide +kernel)
  have hb : lingering.1.reassembler.cache.get? fragmentKey = some b := (Option.some_get _).symm
  exact ⟨hne, hpending hne, fragmentKey, b, hb, by decide +kernel, hages fragmentKey b hb⟩

end Interface

end MulticastTunnel
