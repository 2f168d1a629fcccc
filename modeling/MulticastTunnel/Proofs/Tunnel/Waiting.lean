import MulticastTunnel.Proofs.Tunnel.Course

/-!
# No wait without a timer

A tunnel that waits for its relay has a timer pending that will repeat what it
sent or give up, and no timer that belongs to another phase. `Timed` says which
timers go with which phase; every course keeps it. The one way to lose a timer
would be to let it run out and do nothing; that is ruled out by the fence, for
there is a nonce to repeat in every phase that waits.
-/

namespace MulticastTunnel

namespace Tunnel

/-- A timer is pending for the alarm. -/
def Pends (t : Tunnel) (alarm : Alarm) : Prop := ∃ timer, (timer, alarm) ∈ t.alarms

section Pends

variable (t : Tunnel)

@[simp] theorem pends_discovery : t.Pends .discovery ↔ t.discoveryTimer.isSome = true := by
  simp [Pends, alarms, Option.isSome_iff_exists]

@[simp] theorem pends_request : t.Pends .request ↔ t.requestTimer.isSome = true := by
  simp [Pends, alarms, Option.isSome_iff_exists]

@[simp] theorem pends_keepalive : t.Pends .keepalive ↔ t.keepaliveTimer.isSome = true := by
  simp [Pends, alarms, Option.isSome_iff_exists]

end Pends

/-- The timers that go with the phase. A grant is held only behind a request,
and a tunnel that is closed has no relay. -/
structure Timed (t : Tunnel) : Prop where
  discovering : t.phase = .discovering →
    t.discoveryTimer.isSome = true ∧ t.requestTimer = none ∧ t.keepaliveTimer = none
  requesting : t.phase = .requesting → t.requestTimer.isSome = true ∧ t.discoveryTimer = none
  established : t.phase = .established → t.discoveryTimer = none ∧ t.requestTimer = none
  disconnected : t.phase = .disconnected →
    t.discoveryTimer = none ∧ t.requestTimer = none ∧ t.keepaliveTimer = none
  granted : t.handshake.grant.isSome = true → t.phase = .requesting ∨ t.phase = .established
  closed : t.closed = true → t.phase = .disconnected

variable {key : InterfaceKey} {settings : TunnelSettings} {t u : Tunnel} {w : World}
  {input : Input} {answer : Option Message} {events : List Event}

theorem timed_of_disconnected (hp : t.phase = .disconnected) (hd : t.discoveryTimer = none)
    (hr : t.requestTimer = none) (hk : t.keepaliveTimer = none)
    (hg : t.handshake.grant = none) : Timed t where
  discovering h := by simp [hp] at h
  requesting h := by simp [hp] at h
  established h := by simp [hp] at h
  disconnected _ := ⟨hd, hr, hk⟩
  granted h := by simp [hg] at h
  closed _ := hp

/-- A pending discovery timer belongs to a discovery. -/
theorem Timed.phase_of_discoveryTimer (h : Timed t) (ht : t.discoveryTimer.isSome = true) :
    t.phase = .discovering := by
  cases hp : t.phase with
  | discovering => rfl
  | requesting => simp [(h.requesting hp).2] at ht
  | established => simp [(h.established hp).1] at ht
  | disconnected => simp [(h.disconnected hp).1] at ht

/-- A pending request timer belongs to a request. -/
theorem Timed.phase_of_requestTimer (h : Timed t) (ht : t.requestTimer.isSome = true) :
    t.phase = .requesting := by
  cases hp : t.phase with
  | requesting => rfl
  | discovering => simp [(h.discovering hp).2.1] at ht
  | established => simp [(h.established hp).2] at ht
  | disconnected => simp [(h.disconnected hp).2.1] at ht

theorem Timed.not_closed (h : Timed t) (hp : t.phase ≠ .disconnected) : t.closed = false := by
  cases hc : t.closed with
  | false => rfl
  | true => exact absurd (h.closed hc) hp

/-- A tunnel that just sent a discovery waits for its answer. -/
theorem timed_of_discovering (hp : t.phase = .discovering) (hd : t.discoveryTimer.isSome = true)
    (hr : t.requestTimer = none) (hk : t.keepaliveTimer = none) (hg : t.handshake.grant = none)
    (hc : t.closed = false) : Timed t where
  discovering _ := ⟨hd, hr, hk⟩
  requesting h := by simp [hp] at h
  established h := by simp [hp] at h
  disconnected h := by simp [hp] at h
  granted h := by simp [hg] at h
  closed h := by simp [hc] at h

/-- A tunnel that just sent a request waits for its answer. -/
theorem timed_of_requesting (hp : t.phase = .requesting) (hd : t.discoveryTimer = none)
    (hr : t.requestTimer.isSome = true) (hc : t.closed = false) : Timed t where
  discovering h := by simp [hp] at h
  requesting _ := ⟨hr, hd⟩
  established h := by simp [hp] at h
  disconnected h := by simp [hp] at h
  granted _ := .inl hp
  closed h := by simp [hc] at h

/-- The same phase and timers, whatever happened to the keepalive timer of a
tunnel that has a grant. -/
theorem Timed.keepalive (h : Timed t) (hg : t.handshake.grant.isSome = true)
    (keepaliveTimer : Option Timer) (stats : TunnelStats) :
    Timed { t with keepaliveTimer, stats } := by
  have hp := h.granted hg
  refine ⟨fun hd => ?_, h.requesting, h.established, fun hd => ?_, h.granted, h.closed⟩
  all_goals
    simp only [phase] at hd hp
    simp [hd] at hp

theorem Timed.course (h : Timed t) (hf : Fenced t w) (hin : input.Possible t)
    (hc : Course input t w answer events u) : Timed u := by
  cases hc with
  | rest stats running _ => exact ⟨h.1, h.2, h.3, h.4, h.5, h.6⟩
  | seek nonce unconnected failed serial stats running _ hopen _ =>
    refine timed_of_discovering rfl rfl rfl rfl rfl ?_
    cases hc : t.closed with
    | false => rfl
    | true => exact absurd (h.closed hc) (hopen hc)
  | report packet failed keepaliveTimer stats _ hg =>
    exact h.keepalive (by rw [hg]; rfl) keepaliveTimer stats
  | turn request failed serial stats hadv =>
    obtain ⟨hp, -, rfl⟩ := Handshake.onAdvertisement_eq_ok.mp hadv
    refine timed_of_requesting ?_ rfl rfl (h.not_closed (by simp [phase, hp]))
    simp [phase, Handshake.startRequest, Handshake.canRequest, hp]
  | establish events stats hq _ =>
    obtain ⟨hp, -, -, rfl⟩ := Handshake.onQuery_eq_ok.mp hq
    have hd : t.discoveryTimer = none := by
      rcases hp with hp | hp
      · exact (h.requesting hp).2
      · exact (h.established hp).1
    have hopen : t.closed = false := h.not_closed (by rcases hp with hp | hp <;> simp [phase, hp])
    refine ⟨fun hp => ?_, fun hp => ?_, fun _ => ⟨hd, rfl⟩, fun hp => ?_, fun _ => .inr rfl,
      fun hc => ?_⟩
    · cases hp
    · cases hp
    · cases hp
    · simp [hopen] at hc
  | renew nonce failed serial stats _ hp =>
    refine timed_of_requesting ?_ (h.established hp).1 rfl (h.not_closed (by simp [hp]))
    have hp' : t.handshake.phase = .established := hp
    simp [phase, Handshake.startRequest, Handshake.canRequest, hp']
  | repeatRequest failed serial stats _ hr =>
    obtain ⟨-, -, hp, -⟩ := Handshake.retryRequest_resend hr
    have hh := Handshake.retryRequest_resend_eq hr
    have hp' : t.phase = .requesting := by rwa [hh] at hp
    exact timed_of_requesting hp (h.requesting hp').2 rfl (h.not_closed (by simp [hp']))
  | repeatDiscovery failed serial stats hi hr =>
    subst hi
    have hp := h.phase_of_discoveryTimer (t.pends_discovery.mp hin)
    obtain rfl := Handshake.retryDiscovery_some_eq hr
    obtain ⟨-, hr, hk⟩ := h.discovering hp
    refine timed_of_discovering hp rfl hr hk ?_ (h.not_closed (by simp [hp]))
    by_contra hg
    have := h.granted (Option.isSome_iff_ne_none.mpr hg)
    simp [hp] at this
  | giveUp hi hr =>
    subst hi
    have hp := h.phase_of_discoveryTimer (t.pends_discovery.mp hin)
    obtain ⟨nonce, hn, -⟩ := hf.discovery hp
    obtain rfl := Handshake.retryDiscovery_give_up hp hn hr
    obtain ⟨-, hr, hk⟩ := h.discovering hp
    exact timed_of_disconnected rfl rfl hr hk rfl
  | lapse alarm hi hd hr =>
    subst hi
    cases alarm with
    | discovery =>
      have hp := h.phase_of_discoveryTimer (t.pends_discovery.mp hin)
      have hc := h.closed (hd rfl)
      simp [hp] at hc
    | request =>
      have hp := h.phase_of_requestTimer (t.pends_request.mp hin)
      obtain ⟨nonce, hn, -⟩ := hf.request (.inl hp)
      rcases hr rfl with hc | ⟨g, hg⟩
      · have := h.closed hc
        simp [hp] at this
      · exact absurd hg (Handshake.retryRequest_ne_none hp hn)
    | keepalive =>
      refine ⟨fun hp => ?_, h.requesting, h.established, fun hp => ?_, h.granted, h.closed⟩
      · obtain ⟨hd, hr, -⟩ := h.discovering hp
        exact ⟨hd, hr, rfl⟩
      · obtain ⟨hd, hr, -⟩ := h.disconnected hp
        exact ⟨hd, hr, rfl⟩
  | close _ =>
    unfold close
    split
    · exact h
    · exact timed_of_disconnected rfl rfl rfl rfl rfl

/-- The timers go with the phase in every reachable state. -/
theorem Reachable.timed (h : Reachable key settings t w) : Timed t := by
  induction h with
  | created w => exact timed_of_disconnected rfl rfl rfl rfl rfl
  | @step t w input hr hin ih =>
    obtain ⟨events, -, hc⟩ := takes_step input t w
    exact ih.course hr.fenced.2 hin hc
  | elapse _ _ ih => exact ih

/-! ## What the timers do -/

/-- When the timer of a discovery runs out, the discovery is repeated or given up. -/
theorem fire_discovery (ht : Timed t) (hf : Fenced t w) (hp : t.phase = .discovering) :
    (t.fire .discovery w).1.phase = .disconnected ∨
      (t.fire .discovery w).1.phase = .discovering ∧
        ∃ nonce failed, (t.fire .discovery w).2.trace =
          .sent t.key (.relayDiscovery nonce) failed :: w.trace := by
  obtain ⟨events, htrace, hc⟩ := takes_step (.fire .discovery) t w
  obtain ⟨nonce, hn, -⟩ := hf.discovery hp
  simp only [step, answer?] at htrace hc
  generalize t.fire .discovery w = s at htrace hc ⊢
  obtain ⟨u, v⟩ := s
  simp only at htrace hc ⊢
  cases hc with
  | repeatDiscovery failed serial stats _ hr =>
    obtain rfl := Handshake.retryDiscovery_some_eq hr
    exact .inr ⟨hp, _, _, htrace⟩
  | giveUp _ hr =>
    obtain rfl := Handshake.retryDiscovery_give_up hp hn hr
    exact .inl rfl
  | lapse alarm hi hd _ =>
    cases hi
    have := ht.closed (hd rfl)
    simp [hp] at this
  | rest stats running hi => exact absurd rfl (hi _)
  | seek _ _ _ _ _ _ hi => exact absurd rfl hi
  | report _ _ _ _ hi => cases hi
  | renew _ _ _ _ hi => cases hi
  | repeatRequest _ _ _ hi => cases hi
  | close hi => cases hi

/-- When the timer of a request runs out, the request is repeated, or another
relay is discovered. -/
theorem fire_request (ht : Timed t) (hf : Fenced t w) (hp : t.phase = .requesting) :
    (t.fire .request w).1.phase = .requesting ∧
        (∃ nonce failed, (t.fire .request w).2.trace =
          .sent t.key (.request nonce t.handshake.family) failed :: w.trace) ∨
      (t.fire .request w).1.phase = .discovering ∧
        ∃ nonce failed before, (t.fire .request w).2.trace =
          .sent t.key (.relayDiscovery nonce) failed :: before := by
  obtain ⟨events, htrace, hc⟩ := takes_step (.fire .request) t w
  obtain ⟨nonce, hn, -⟩ := hf.request (.inl hp)
  simp only [step, answer?] at htrace hc
  generalize t.fire .request w = s at htrace hc ⊢
  obtain ⟨u, v⟩ := s
  simp only at htrace hc ⊢
  cases hc with
  | repeatRequest failed serial stats _ hr =>
    obtain rfl := Handshake.retryRequest_resend_eq hr
    exact .inl ⟨hp, _, _, htrace⟩
  | seek _ _ _ _ _ _ _ _ _ => exact .inr ⟨rfl, _, _, _, htrace⟩
  | lapse alarm hi _ hr =>
    cases hi
    rcases hr rfl with hc | ⟨g, hg⟩
    · have := ht.closed hc
      simp [hp] at this
    · exact absurd hg (Handshake.retryRequest_ne_none hp hn)
  | rest stats running hi => exact absurd rfl (hi _)
  | report _ _ _ _ hi => cases hi
  | renew _ _ _ _ hi => cases hi
  | repeatDiscovery _ _ _ hi => cases hi
  | giveUp hi => cases hi
  | close hi => cases hi

/-- **No wait without a timer.** Which timers are pending follows from the phase,
and where an answer is awaited, the pending timer repeats the question, or it
gives up what is waited for. -/
theorem Reachable.waits_with_timer (h : Reachable key settings t w) :
    (t.phase = .discovering →
      (t.Pends .discovery ∧ ¬ t.Pends .request ∧ ¬ t.Pends .keepalive) ∧
      ((t.fire .discovery w).1.phase = .disconnected ∨
        (t.fire .discovery w).1.phase = .discovering ∧
          ∃ nonce failed, (t.fire .discovery w).2.trace =
            .sent t.key (.relayDiscovery nonce) failed :: w.trace)) ∧
    (t.phase = .requesting →
      (t.Pends .request ∧ ¬ t.Pends .discovery) ∧
      ((t.fire .request w).1.phase = .requesting ∧
          (∃ nonce failed, (t.fire .request w).2.trace =
            .sent t.key (.request nonce t.handshake.family) failed :: w.trace) ∨
        (t.fire .request w).1.phase = .discovering ∧
          ∃ nonce failed before, (t.fire .request w).2.trace =
            .sent t.key (.relayDiscovery nonce) failed :: before)) ∧
    (t.phase = .established → ¬ t.Pends .discovery ∧ ¬ t.Pends .request) ∧
    (t.phase = .disconnected → ∀ alarm, ¬ t.Pends alarm) := by
  have ht := h.timed
  have hf := h.fenced.2
  refine ⟨fun hp => ⟨?_, fire_discovery ht hf hp⟩, fun hp => ⟨?_, fire_request ht hf hp⟩,
    fun hp => ?_, fun hp alarm => ?_⟩
  · obtain ⟨hd, hr, hk⟩ := ht.discovering hp
    simp [hd, hr, hk]
  · obtain ⟨hr, hd⟩ := ht.requesting hp
    simp [hd, hr]
  · obtain ⟨hd, hr⟩ := ht.established hp
    simp [hd, hr]
  · obtain ⟨hd, hr, hk⟩ := ht.disconnected hp
    cases alarm <;> simp [hd, hr, hk]

/-- A gateway whose relay answered its discovery, and could not be reached then. -/
def stranded : Tunnel × World :=
  let key : InterfaceKey := ⟨.read .ipv4 [192, 0, 2, 1], .ipv4⟩
  let refused : SocketError := .io (.general .connectionRefused)
  let s := step .start { key, settings := {} }
    { oracle :=
        { nonce := fun _ => 7
          chance := fun _ => 0
          send := fun _ before => if before.length < 3 then none else some refused } }
  let relay : Address := .read .ipv4 [203, 0, 113, 9]
  step (.receive (.ok (Message.relayAdvertisement 7 relay).encode)) s.1 s.2

/-- It is back at its discovery, with the one timer that goes with it. -/
theorem stranded_waits :
    stranded.2.lastRequest stranded.1.key = some 7 ∧ stranded.1.phase = .discovering ∧
      stranded.1.Pends .discovery ∧ ¬ stranded.1.Pends .request := by
  have hr : Reachable ⟨.v4 #v[192, 0, 2, 1], .ipv4⟩ {} stranded.1 stranded.2 :=
    .step _ (.step .start (.created _) trivial) trivial
  obtain ⟨⟨hd, hr, -⟩, -⟩ := hr.waits_with_timer.1 rfl
  exact ⟨rfl, rfl, hd, hr⟩

end Tunnel

end MulticastTunnel
