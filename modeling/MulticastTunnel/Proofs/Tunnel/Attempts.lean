import MulticastTunnel.Proofs.Tunnel.Clock
import MulticastTunnel.Proofs.Tunnel.History
import MulticastTunnel.Proofs.Tunnel.Waiting

/-!
# How often a tunnel asks

While nobody answers, a discovery and a request are sent again whenever their timer runs out. An
`Attempt` is what both have in common: the message, how often it was sent, and the timer. A step
that nobody answers leaves the attempt as it is, or repeats its message, or it is the last one.
The limits count differently. A discovery is sent as often as the limit says, though once in any
case; a request is repeated as often as the limit says, so it is sent once more than that.
-/

namespace MulticastTunnel

namespace Message

/-- What a message asks for. -/
def awaits? : Message → Option Answer
  | .relayDiscovery _ => some .advertisement
  | .request .. => some .query
  | _ => none

/-- A discovery or a request. -/
def isAttempt (m : Message) : Bool := m.awaits?.isSome

end Message

namespace World

variable {w v : World} {key : InterfaceKey} {events : List Event}

/-- What was handed to the transport of `key` from `w` on until `v`, the earliest first. -/
def handedSince (key : InterfaceKey) (w v : World) : List Message :=
  ((w.eventsSince v).filterMap (·.sentBy? key)).reverse

theorem handedSince_eq (h : v.trace = events ++ w.trace) (key : InterfaceKey) :
    w.handedSince key v = (events.filterMap (·.sentBy? key)).reverse := by
  rw [handedSince, eventsSince_eq h]

/-- Nothing that was handed over from `w` on until `v` failed because the peer is unreachable. -/
def ReachedSince (key : InterfaceKey) (w v : World) : Prop :=
  ∀ message failed before, .sent key message failed :: before <:+ v.trace → w.trace <:+ before →
    ∀ e, w.oracle.send key before = some e → e.isUnreachable = false

/-- What is handed over at first is not the exception. -/
theorem ReachedSince.first {message : Message} {failed : Bool} (h : w.ReachedSince key v)
    (hsent : .sent key message failed :: w.trace <:+ v.trace) :
    ∀ e, w.oracle.send key w.trace = some e → e.isUnreachable = false :=
  h message failed w.trace hsent List.suffix_rfl

end World

namespace Answer

/-- What runs out when the answer does not come. -/
def alarm : Answer → Tunnel.Alarm
  | .advertisement => .discovery
  | .query => .request

/-- How long the answer is waited for. -/
def interval (settings : TunnelSettings) : Answer → Nat
  | .advertisement => settings.discoveryInterval
  | .query => settings.requestInterval

/-- How often it is asked for in all, if there is a limit. -/
def limit? (settings : TunnelSettings) : Answer → Option Nat
  | .advertisement => settings.discoveryLimit.map fun n => max 1 n.toNat
  | .query => some (settings.requestLimit.toNat + 1)

end Answer

namespace Tunnel

/-- A message that waits for its answer. -/
structure Attempt where
  awaited : Answer
  message : Message
  /-- How often it was sent. -/
  times : UInt32
  timer : Timer

/-- What a tunnel waits for, with the timer that goes with it. -/
def attempt? (t : Tunnel) : Option Attempt :=
  match t.phase with
  | .discovering => do
    let nonce ← t.handshake.discoveryNonce
    let timer ← t.discoveryTimer
    some ⟨.advertisement, .relayDiscovery nonce, t.handshake.discoveryAttempts, timer⟩
  | .requesting => do
    let nonce ← t.handshake.requestNonce
    let timer ← t.requestTimer
    some ⟨.query, .request nonce t.handshake.family, t.handshake.requestAttempts, timer⟩
  | .disconnected | .established => none

/-- Whether the message will not be sent again when the timer runs out. -/
def Attempt.isLast (settings : TunnelSettings) (a : Attempt) : Bool :=
  match a.awaited with
  | .advertisement => settings.discoveryLimit.any fun n => n ≤ a.times
  | .query => settings.requestLimit < a.times

variable {key : InterfaceKey} {settings : TunnelSettings} {t u : Tunnel} {w v : World}
  {input : Input} {a : Attempt} {log : List (Nat × Message)} {message : Message}
  {awaited : Answer} {start m serial : Nat} {nonce : Nonce}

/-- The limits as they are counted. The number of attempts may wrap around only without one. -/
theorem Attempt.isLast_iff (hm : 1 ≤ m) (hle : ∀ n, awaited.limit? settings = some n → m ≤ n)
    (hsmall : ∀ n, awaited.limit? settings = some n → n < UInt32.size) (timer : Timer) :
    Attempt.isLast settings ⟨awaited, message, .ofNat m, timer⟩ = true ↔
      awaited.limit? settings = some m := by
  cases awaited with
  | advertisement =>
    simp only [isLast, Answer.limit?] at hle hsmall ⊢
    cases hlimit : settings.discoveryLimit with
    | none => simp
    | some n =>
      rw [hlimit] at hle hsmall
      have hle : m ≤ max 1 n.toNat := hle _ rfl
      have hsmall : max 1 n.toNat < UInt32.size := hsmall _ rfl
      rw [Option.any_some, Option.map_some, decide_eq_true_eq, Option.some.injEq,
        UInt32.le_iff_toNat_le, UInt32.toNat_ofNat_of_lt' (Nat.lt_of_le_of_lt hle hsmall)]
      omega
  | query =>
    simp only [isLast, Answer.limit?] at hle hsmall ⊢
    have hle := hle _ rfl
    have hsmall := hsmall _ rfl
    rw [decide_eq_true_eq, Option.some.injEq, UInt32.lt_iff_toNat_lt,
      UInt32.toNat_ofNat_of_lt' (Nat.lt_of_le_of_lt hle hsmall)]
    omega

/-! ## What an attempt tells -/

theorem attempt?_of_discovering {timer : Timer} (hp : t.phase = .discovering)
    (hn : t.handshake.discoveryNonce = some nonce) (ht : t.discoveryTimer = some timer) :
    t.attempt? = some
      ⟨.advertisement, .relayDiscovery nonce, t.handshake.discoveryAttempts, timer⟩ := by
  simp [attempt?, hp, hn, ht]

theorem attempt?_of_requesting {timer : Timer} (hp : t.phase = .requesting)
    (hn : t.handshake.requestNonce = some nonce) (ht : t.requestTimer = some timer) :
    t.attempt? = some
      ⟨.query, .request nonce t.handshake.family, t.handshake.requestAttempts, timer⟩ := by
  simp [attempt?, hp, hn, ht]

/-- An attempt is a discovery or a request. -/
theorem attempt?_eq_some (h : t.attempt? = some a) :
    (t.phase = .discovering ∧ ∃ nonce, t.handshake.discoveryNonce = some nonce ∧
      t.discoveryTimer = some a.timer ∧
      a = ⟨.advertisement, .relayDiscovery nonce, t.handshake.discoveryAttempts, a.timer⟩) ∨
    (t.phase = .requesting ∧ ∃ nonce, t.handshake.requestNonce = some nonce ∧
      t.requestTimer = some a.timer ∧
      a = ⟨.query, .request nonce t.handshake.family, t.handshake.requestAttempts, a.timer⟩) := by
  unfold attempt? at h
  split at h
  · next hp =>
    obtain ⟨nonce, hn, h⟩ := Option.bind_eq_some_iff.mp h
    obtain ⟨timer, ht, h⟩ := Option.bind_eq_some_iff.mp h
    cases h
    exact .inl ⟨hp, nonce, hn, ht, rfl⟩
  · next hp =>
    obtain ⟨nonce, hn, h⟩ := Option.bind_eq_some_iff.mp h
    obtain ⟨timer, ht, h⟩ := Option.bind_eq_some_iff.mp h
    cases h
    exact .inr ⟨hp, nonce, hn, ht, rfl⟩
  · cases h
  · cases h

/-- The timer of an attempt is the one that is pending for its alarm. -/
theorem mem_alarms_of_attempt? (h : t.attempt? = some a) (timer : Timer) :
    (timer, a.awaited.alarm) ∈ t.alarms ↔ timer = a.timer := by
  obtain ⟨-, nonce, -, ht, ha⟩ | ⟨-, nonce, -, ht, ha⟩ := attempt?_eq_some h
  · rw [ha]
    simp [alarms, Answer.alarm, ht, eq_comm]
  · rw [ha]
    simp [alarms, Answer.alarm, ht, eq_comm]

/-! ## Steps that nobody answers -/

/-- The tunnel stays open, nothing that it hears is taken in, no message fails because the relay is
unreachable, and a timer runs out when it is due. -/
structure Unanswered (input : Input) (t : Tunnel) (w : World) : Prop where
  stays : input ≠ .close
  due : ∀ alarm, input = .fire alarm →
    ∃ timer, (timer, alarm) ∈ t.alarms ∧ timer.deadline ≤ w.now
  ignored : answer? input t w = none
  heard : ∀ e, input = .receive (.error e) → e.isUnreachable = false
  reached : w.ReachedSince t.key (t.step input w).2

theorem Unanswered.possible (h : Unanswered input t w) : input.Possible t := by
  cases input with
  | fire alarm =>
    obtain ⟨timer, hmem, -⟩ := h.due alarm rfl
    exact ⟨timer, hmem⟩
  | _ => trivial

/-- The handshake of a tunnel and the timers of its attempts. -/
structure Waits (t u : Tunnel) : Prop where
  handshake : u.handshake = t.handshake
  discoveryTimer : u.discoveryTimer = t.discoveryTimer
  requestTimer : u.requestTimer = t.requestTimer

theorem Waits.attempt?_eq (h : Waits t u) : u.attempt? = t.attempt? := by
  simp only [attempt?, phase, h.handshake, h.discoveryTimer, h.requestTimer]

/-- A tunnel that waits goes on waiting, and hands over no discovery and no request. -/
def Idles (t : Tunnel) (w : World) (s : Tunnel × World) : Prop :=
  Waits t s.1 ∧ ∃ events, s.2.trace = events ++ w.trace ∧
    ∀ e ∈ events, ∀ m, e.sentBy? t.key = some m → m.isAttempt = false

theorem idles_of_trace (h : Waits t u) (hv : v.trace = w.trace) : Idles t w (u, v) :=
  ⟨h, [], hv, fun _ he => absurd he List.not_mem_nil⟩

theorem idles_refl (t : Tunnel) (w : World) : Idles t w (t, w) := idles_of_trace ⟨rfl, rfl, rfl⟩ rfl

/-- A report is no attempt. -/
theorem idles_of_update {mac : Mac} {packet : Packet} {failed : Bool} (h : Waits t u)
    (hv : v.trace = .sent t.key (.membershipUpdate mac nonce packet) failed :: w.trace) :
    Idles t w (u, v) := by
  refine ⟨h, [_], hv, fun e he m hm => ?_⟩
  cases List.mem_singleton.mp he
  rw [Event.sentBy?, if_pos rfl] at hm
  cases hm
  rfl

/-- What is not taken in is counted at most. -/
theorem handle_of_ignored {b : Bytes} (h : answer? (.receive (.ok b)) t w = none) :
    ∃ stats, (t.handle b w).2 = ({ t with stats }, w) := by
  cases hm : Message.decode b with
  | error e =>
    rw [handle, hm]
    exact ⟨_, rfl⟩
  | ok message =>
    cases message with
    | relayAdvertisement nonce relay =>
      rcases takes_onAdvertisement (.ok b) nonce relay t w with heq | ⟨-, hsame⟩
      · rw [handle, hm]
        exact ⟨_, heq⟩
      · simp [answer?, handle, hm, hsame, Except.toOption, Message.isAnswer] at h
    | membershipQuery limited mac nonce packet gateway =>
      rcases takes_onQuery (.receive (.ok b)) limited mac nonce packet gateway t w with
        heq | ⟨-, hsame⟩
      · rw [handle, hm]
        exact ⟨_, heq⟩
      · simp [answer?, handle, hm, hsame, Except.toOption, Message.isAnswer] at h
    | _ =>
      rw [handle, hm]
      exact ⟨_, rfl⟩

theorem suffix_beginDiscovery (t : Tunnel) (w : World) :
    w.trace <:+ (t.beginDiscovery w).2.trace := by
  obtain ⟨nonce, unconnected, failed, serial, stats, v, heq, hv⟩ := beginDiscovery_eq t w
  rw [heq, hv]
  exact (List.suffix_cons _ _).trans (List.suffix_cons _ _)

/-- A report is sent under the grant that is held, or noted. -/
theorem idles_send {packet : Packet} (h : Unanswered (.send packet) t w)
    (hp : t.phase ≠ .disconnected) : Idles t w (t.send packet w).2 := by
  have hreached : w.ReachedSince t.key (t.send packet w).2.2 := h.reached
  revert hreached
  unfold send
  split
  · exact fun _ => idles_refl t w
  split
  · exact fun _ => idles_refl t w
  split
  · exact fun _ => idles_refl t w
  cases hg : t.handshake.grant with
  | none =>
    simp only [Handshake.update, hg, Option.map_none, refuse, if_neg hp]
    exact fun _ => idles_of_trace ⟨rfl, rfl, rfl⟩ rfl
  | some grant =>
    simp only [Handshake.update, hg, Option.map_some]
    split
    · next e v hsend =>
      have hv := (World.trace_of_send hsend).1
      split
      · next hunreachable =>
        intro hreached
        have hfirst := hreached.first (hv ▸ suffix_beginDiscovery t v) e (congrArg Prod.fst hsend)
        rw [hunreachable] at hfirst
        cases hfirst
      · exact fun _ => idles_of_update ⟨rfl, rfl, rfl⟩ hv
    · next v hsend =>
      have hv := (World.trace_of_send hsend).1
      intro _
      show Idles t w (ite _ _ _)
      split
      · obtain ⟨timer, v', heq, hv'⟩ := keepAlive_eq
          { t with stats := { t.stats with updates := t.stats.updates + 1 } } v
        rw [heq]
        exact idles_of_update ⟨rfl, rfl, rfl⟩ (hv'.trans hv)
      · exact idles_of_update ⟨rfl, rfl, rfl⟩ hv

/-- An attempt is left as it is until its own timer runs out. -/
theorem idles_step (h : Unanswered input t w) (ht : Timed t) (ha : t.attempt? = some a)
    (hne : input ≠ .fire a.awaited.alarm) : Idles t w (t.step input w) := by
  have hphase : t.phase ≠ .disconnected ∧ t.phase ≠ .established := by
    obtain ⟨hp, -⟩ | ⟨hp, -⟩ := attempt?_eq_some ha <;> simp [hp]
  cases input with
  | start =>
    simp only [step, start]
    split
    · exact idles_refl t w
    split
    · exact idles_refl t w
    split
    · next hp => exact absurd hp hphase.1
    · exact idles_of_trace ⟨rfl, rfl, rfl⟩ rfl
  | send packet => exact idles_send h hphase.1
  | receive received =>
    cases received with
    | ok b =>
      obtain ⟨stats, heq⟩ := handle_of_ignored h.ignored
      show Idles t w (t.handle b w).2
      rw [heq]
      exact idles_of_trace ⟨rfl, rfl, rfl⟩ rfl
    | error e =>
      simp only [step, receive, h.heard e rfl, Bool.false_eq_true, if_false]
      split
      · exact idles_refl t w
      · exact idles_of_trace ⟨rfl, rfl, rfl⟩ rfl
  | fire alarm =>
    -- No timer is pending that belongs to another attempt.
    have hpends : t.Pends alarm := h.possible
    cases alarm with
    | discovery =>
      have hp := ht.phase_of_discoveryTimer (t.pends_discovery.mp hpends)
      obtain ⟨-, nonce, -, -, hadv⟩ | ⟨hp', -⟩ := attempt?_eq_some ha
      · rw [hadv] at hne
        exact absurd rfl hne
      · cases hp.symm.trans hp'
    | request =>
      have hp := ht.phase_of_requestTimer (t.pends_request.mp hpends)
      obtain ⟨hp', -⟩ | ⟨-, nonce, -, -, hquery⟩ := attempt?_eq_some ha
      · cases hp.symm.trans hp'
      · rw [hquery] at hne
        exact absurd rfl hne
    | keepalive =>
      simp only [step, fire, onKeepaliveTimer]
      rw [if_pos (.inr hphase.2)]
      exact idles_of_trace ⟨rfl, rfl, rfl⟩ rfl
  | close => exact absurd rfl h.stays

/-! ## The timer of an attempt -/

/-- A discovery is given up, or sent again. -/
theorem fire_advertisement_eq (ht : Timed t) (ha : t.attempt? = some a)
    (hadv : a.awaited = .advertisement) (w : World) :
    t.step (.fire a.awaited.alarm) w =
      if a.isLast t.settings then
        ({ t with discoveryTimer := none, handshake := t.handshake.reset }, w)
      else
        sendDiscovery a.message
          { t with
            discoveryTimer := none
            handshake := { t.handshake with discoveryAttempts := a.times + 1 } } w := by
  obtain ⟨hp, nonce, hn, -, heq⟩ | ⟨-, nonce, -, -, heq⟩ := attempt?_eq_some ha
  · have hopen : t.closed = false := ht.not_closed (by simp [hp])
    have hp : t.handshake.phase = .discovering := hp
    rw [heq]
    simp only [step, Answer.alarm, fire, onDiscoveryTimer, hopen, Bool.false_eq_true, if_false,
      Handshake.retryDiscovery, hp, hn, Attempt.isLast]
    cases t.settings.discoveryLimit.any fun n => n ≤ t.handshake.discoveryAttempts <;> rfl
  · rw [heq] at hadv
    cases hadv

/-- A request is sent again, or a relay is discovered anew. -/
theorem fire_query_eq (ht : Timed t) (ha : t.attempt? = some a) (hquery : a.awaited = .query)
    (w : World) :
    t.step (.fire a.awaited.alarm) w =
      if a.isLast t.settings then { t with requestTimer := none }.beginDiscovery w
      else
        sendRequest a.message
          { t with
            requestTimer := none
            handshake := { t.handshake with requestAttempts := a.times + 1 } } w := by
  obtain ⟨-, nonce, -, -, heq⟩ | ⟨hp, nonce, hn, -, heq⟩ := attempt?_eq_some ha
  · rw [heq] at hquery
    cases hquery
  · have hopen : t.closed = false := ht.not_closed (by simp [hp])
    have hp : t.handshake.phase = .requesting := hp
    rw [heq]
    simp only [step, Answer.alarm, fire, onRequestTimer, hopen, Bool.false_eq_true, if_false,
      Handshake.retryRequest, hp, hn, Attempt.isLast, decide_eq_true_eq]
    by_cases hlt : t.settings.requestLimit < t.handshake.requestAttempts
    · simp only [if_pos hlt]
    · simp only [if_neg hlt]

/-- A request that reaches the relay waits for its answer. -/
theorem sendRequest_of_reached (message : Message)
    (h : ∀ e, w.oracle.send t.key w.trace = some e → e.isUnreachable = false) :
    ∃ failed serial stats v,
      sendRequest message t w =
        ({ t with
            requestTimer := some ⟨w.now + t.settings.requestInterval, serial⟩
            stats }, v) ∧
      v.trace = .sent t.key message failed :: w.trace := by
  have hnot : ¬ (w.send t.key message).1.any (·.isUnreachable) = true := by
    show ¬ (w.oracle.send t.key w.trace).any (·.isUnreachable) = true
    cases herror : w.oracle.send t.key w.trace with
    | none => simp
    | some e => simp [h e herror]
  simp only [sendRequest]
  rw [if_neg hnot]
  exact ⟨_, _, _, _, rfl, rfl⟩

theorem suffix_sendRequest (message : Message) (t : Tunnel) (w : World) :
    ∃ failed, .sent t.key message failed :: w.trace <:+ (sendRequest message t w).2.trace := by
  obtain ⟨v, heq, -, hv⟩ | ⟨failed, serial, stats, v, heq, hv⟩ := sendRequest_cases message t w
  · rw [heq]
    exact ⟨true, hv ▸ suffix_beginDiscovery t v⟩
  · rw [heq]
    exact ⟨failed, hv ▸ List.suffix_rfl⟩

/-- Unless it was the last one, an attempt is repeated when its timer runs out. -/
theorem repeats_fire (h : Unanswered (.fire a.awaited.alarm) t w) (ht : Timed t)
    (ha : t.attempt? = some a) (hl : a.isLast t.settings = false) :
    (∃ serial, (t.step (.fire a.awaited.alarm) w).1.attempt? = some
      { a with
        times := a.times + 1
        timer := ⟨w.now + a.awaited.interval t.settings, serial⟩ }) ∧
    ∃ failed, (t.step (.fire a.awaited.alarm) w).2.trace =
      .sent t.key a.message failed :: w.trace := by
  obtain ⟨hp, nonce, hn, -, heq⟩ | ⟨hp, nonce, hn, -, heq⟩ := attempt?_eq_some ha
  · have hadv : a.awaited = .advertisement := by rw [heq]
    rw [fire_advertisement_eq ht ha hadv w, hl, if_neg Bool.false_ne_true]
    refine ⟨⟨w.timers, ?_⟩, _, rfl⟩
    rw [heq]
    exact attempt?_of_discovering hp hn rfl
  · have hquery : a.awaited = .query := by rw [heq]
    have hreached := h.reached
    rw [fire_query_eq ht ha hquery w, hl, if_neg Bool.false_ne_true] at hreached ⊢
    obtain ⟨failed, hsuffix⟩ := suffix_sendRequest a.message
      { t with
        requestTimer := none
        handshake := { t.handshake with requestAttempts := a.times + 1 } } w
    obtain ⟨failed, serial, stats, v, heq', hv⟩ := sendRequest_of_reached
      (t := { t with
        requestTimer := none
        handshake := { t.handshake with requestAttempts := a.times + 1 } })
      a.message (hreached.first hsuffix)
    rw [heq']
    refine ⟨⟨serial, ?_⟩, failed, hv⟩
    rw [heq]
    exact attempt?_of_requesting hp hn rfl

/-! ## Runs that nobody answers -/

/-- What a step hands to the transport, with the moment. -/
def handed (input : Input) (t : Tunnel) (w : World) : List (Nat × Message) :=
  (w.handedSince t.key (t.step input w).2).map fun message => (w.now, message)

/-- A run in which nobody answers, with all that was handed to the transport. Timers run out when
they are due: they do not before, and no time passes them by. -/
inductive Silent (t : Tunnel) (w : World) : List (Nat × Message) → Tunnel → World → Prop
  | start : Silent t w [] t w
  | step {log : List (Nat × Message)} {u : Tunnel} {v : World} (input : Input) :
      Silent t w log u v → Unanswered input u v →
      Silent t w (log ++ u.handed input v) (u.step input v).1 (u.step input v).2
  | elapse {log : List (Nat × Message)} {u : Tunnel} {v v' : World} :
      Silent t w log u v → v.Elapsed u.key v' → v.now ≤ v'.now →
      (∀ timer alarm, (timer, alarm) ∈ u.alarms → v'.now ≤ timer.deadline) →
      Silent t w log u v'

theorem Silent.reachable (h : Silent t w log u v) (hr : Reachable key settings t w) :
    Reachable key settings u v := by
  induction h with
  | start => exact hr
  | step input _ hu ih => exact .step input ih hu.possible
  | elapse _ he _ _ ih => exact .elapse ih (ih.fenced.1 ▸ he)

/-- The timer that is pending alone runs out when it is due, whatever the world answers from then
on, as long as it lets messages through. -/
theorem Silent.expire (h : Silent t w log u v) (timer : Timer) (alarm : Alarm) (o : Oracle)
    (ha : u.alarms = [(timer, alarm)]) (hle : v.now ≤ timer.deadline)
    (ho : ∀ before, o.send u.key before = none) :
    Silent t w (log ++ u.handed (.fire alarm) { v with now := timer.deadline, oracle := o })
      (u.step (.fire alarm) { v with now := timer.deadline, oracle := o }).1
      (u.step (.fire alarm) { v with now := timer.deadline, oracle := o }).2 := by
  have hpassed : v.Elapsed u.key { v with now := timer.deadline, oracle := o } :=
    ⟨[], rfl, fun _ he => absurd he List.not_mem_nil⟩
  refine (h.elapse hpassed hle fun timer' alarm' hmem => ?_).step (.fire alarm)
    ⟨nofun, fun alarm' ha' => ?_, rfl, nofun, fun m failed before _ _ e he => ?_⟩
  · rw [ha] at hmem
    cases List.mem_singleton.mp hmem
    exact Nat.le_refl _
  · cases ha'
    exact ⟨timer, by rw [ha]; exact List.mem_cons_self, Nat.le_refl _⟩
  · exact absurd (he.symm.trans (ho before)) nofun

theorem Reachable.settings_eq (h : Reachable key settings t w) : t.settings = settings := by
  induction h with
  | created w => rfl
  | @step t w input _ _ ih =>
    obtain ⟨events, -, hc⟩ := takes_step input t w
    exact hc.configured.2.trans ih
  | elapse _ _ ih => exact ih

/-- The discoveries and the requests of a log. -/
def attempts (log : List (Nat × Message)) : List (Nat × Message) := log.filter (·.2.isAttempt)

theorem attempts_append (log log' : List (Nat × Message)) :
    attempts (log ++ log') = attempts log ++ attempts log' := List.filter_append ..

/-- The message `m` times from `start` on, one interval apart. -/
def copies (message : Message) (start interval m : Nat) : List (Nat × Message) :=
  (List.range m).map fun k => (start + k * interval, message)

theorem copies_succ (message : Message) (start interval m : Nat) :
    copies message start interval (m + 1) =
      copies message start interval m ++ [(start + m * interval, message)] := by
  simp [copies, List.range_succ]

theorem Idles.attempts_handed (h : Idles t w (t.step input w)) :
    attempts (t.handed input w) = [] := by
  obtain ⟨-, events, htrace, hnone⟩ := h
  rw [attempts, List.filter_eq_nil_iff, handed, World.handedSince_eq htrace]
  intro x hx
  obtain ⟨m, hm, rfl⟩ := List.mem_map.mp hx
  obtain ⟨e, he, hm⟩ := List.mem_filterMap.mp (List.mem_reverse.mp hm)
  simp [hnone e he m hm]

theorem Attempt.isAttempt (h : t.attempt? = some a) : a.message.isAttempt = true := by
  obtain ⟨-, nonce, -, -, heq⟩ | ⟨-, nonce, -, -, heq⟩ := attempt?_eq_some h
  · rw [heq]
    rfl
  · rw [heq]
    rfl

theorem handed_of_trace {failed : Bool}
    (h : (t.step input w).2.trace = .sent t.key message failed :: w.trace) :
    t.handed input w = [(w.now, message)] := by
  have htrace : (t.step input w).2.trace = [.sent t.key message failed] ++ w.trace := h
  rw [handed, World.handedSince_eq htrace]
  simp [Event.sentBy?]

/-- The message was sent `m` times so far, from the start on one interval apart and no more often
than the limit allows, and its timer runs out after another interval. -/
structure Asks (settings : TunnelSettings) (awaited : Answer) (message : Message) (start : Nat)
    (log : List (Nat × Message)) (m : Nat) (t : Tunnel) (w : World) : Prop where
  once : 1 ≤ m
  within : ∀ n, awaited.limit? settings = some n → m ≤ n
  sent : (start, message) :: attempts log =
    copies message start (awaited.interval settings) m
  waits : ∃ serial, t.attempt? = some
    ⟨awaited, message, .ofNat m, ⟨start + m * awaited.interval settings, serial⟩⟩
  punctual : w.now ≤ start + m * awaited.interval settings

/-- A timer that is never late runs out at its moment. -/
theorem Asks.now_eq (h : Asks settings awaited message start log m t w)
    (hu : Unanswered (.fire awaited.alarm) t w) :
    w.now = start + m * awaited.interval settings := by
  obtain ⟨serial, ha⟩ := h.waits
  obtain ⟨timer, hmem, hdue⟩ := hu.due _ rfl
  cases (mem_alarms_of_attempt? ha timer).mp hmem
  exact Nat.le_antisymm h.punctual hdue

/-- One step more, unless it is the last one of the attempt. -/
theorem Asks.step (h : Asks settings awaited message start log m t w)
    (hr : Reachable key settings t w) (hu : Unanswered input t w)
    (hsmall : ∀ n, awaited.limit? settings = some n → n < UInt32.size) :
    (∃ m', Asks settings awaited message start (log ++ t.handed input w) m'
      (t.step input w).1 (t.step input w).2) ∨
    awaited.limit? settings = some m ∧ input = .fire awaited.alarm := by
  obtain ⟨serial, ha⟩ := h.waits
  have hs := hr.settings_eq
  have hnow : (t.step input w).2.now = w.now := now_step t w input
  by_cases hi : input = .fire awaited.alarm
  swap
  · have hidle := idles_step hu hr.timed ha hi
    refine .inl ⟨m, h.once, h.within, ?_, ⟨serial, hidle.1.attempt?_eq.trans ha⟩, ?_⟩
    · rw [attempts_append, hidle.attempts_handed, List.append_nil]
      exact h.sent
    · rw [hnow]
      exact h.punctual
  subst hi
  by_cases hlast : Attempt.isLast settings
      ⟨awaited, message, .ofNat m, ⟨start + m * awaited.interval settings, serial⟩⟩ = true
  · exact .inr ⟨(Attempt.isLast_iff h.once h.within hsmall _).mp hlast, rfl⟩
  · obtain ⟨⟨serial', ha'⟩, failed, htrace⟩ :=
      repeats_fire hu hr.timed ha (hs.symm ▸ Bool.eq_false_iff.mpr hlast)
    have hmore : ∀ n, awaited.limit? settings = some n → m + 1 ≤ n := fun n hn => by
      have hne : m ≠ n := fun heq =>
        hlast ((Attempt.isLast_iff h.once h.within hsmall _).mpr (heq ▸ hn))
      have hle := h.within n hn
      omega
    have hmoment : w.now + awaited.interval t.settings =
        start + (m + 1) * awaited.interval settings := by
      rw [h.now_eq hu, hs, Nat.add_mul, Nat.one_mul, Nat.add_assoc]
    refine .inl ⟨m + 1, Nat.le_add_left _ _, hmore, ?_, ⟨serial', ?_⟩, ?_⟩
    · rw [attempts_append, handed_of_trace htrace, ← List.cons_append, h.sent, copies_succ,
        h.now_eq hu]
      congr 1
      exact List.filter_cons_of_pos (Attempt.isAttempt ha)
    · rw [ha']
      simp only [hmoment]
      rw [UInt32.ofNat_add]
      rfl
    · rw [hnow, ← hmoment]
      exact Nat.le_add_right _ _

/-- While nobody answers, a tunnel keeps asking until the timer of its last attempt runs out. -/
theorem Silent.asks (h : Silent t w log u v) (hr : Reachable key settings t w)
    (ha : t.attempt? = some ⟨awaited, message, 1, ⟨w.now + awaited.interval settings, serial⟩⟩)
    (hpos : ∀ n, awaited.limit? settings = some n → 1 ≤ n ∧ n < UInt32.size) :
    (∃ m, Asks settings awaited message w.now log m u v) ∨
    ∃ m before t₁ w₁ after, awaited.limit? settings = some m ∧ Silent t w before t₁ w₁ ∧
      Asks settings awaited message w.now before m t₁ w₁ ∧
      Unanswered (.fire awaited.alarm) t₁ w₁ ∧
      Silent (t₁.step (.fire awaited.alarm) w₁).1 (t₁.step (.fire awaited.alarm) w₁).2 after u v ∧
      log = before ++ (t₁.handed (.fire awaited.alarm) w₁ ++ after) := by
  induction h with
  | start =>
    refine .inl ⟨1, Nat.le_refl 1, fun n hn => (hpos n hn).1, ?_, ⟨serial, ?_⟩, ?_⟩
    · simp [attempts, copies]
    · rw [ha, Nat.one_mul]
      rfl
    · exact Nat.le_add_right _ _
  | @step log u v input hrun hu ih =>
    obtain ⟨m, hm⟩ | ⟨m, before, t₁, w₁, after, hlimit, hbefore, hm, hlast, hafter, rfl⟩ := ih
    · obtain hmore | ⟨hlimit, rfl⟩ := hm.step (hrun.reachable hr) hu fun n hn => (hpos n hn).2
      · exact .inl hmore
      · exact .inr ⟨m, log, u, v, [], hlimit, hrun, hm, hu, .start, by rw [List.append_nil]⟩
    · refine .inr ⟨m, before, t₁, w₁, _, hlimit, hbefore, hm, hlast, hafter.step input hu, ?_⟩
      rw [List.append_assoc, List.append_assoc]
  | @elapse log u v v' hrun he hle hdue ih =>
    obtain ⟨m, hm⟩ | ⟨m, before, t₁, w₁, after, hlimit, hbefore, hm, hlast, hafter, hlog⟩ := ih
    · obtain ⟨serial', ha'⟩ := hm.waits
      have hpunctual := hdue _ _ ((mem_alarms_of_attempt? ha' _).mpr rfl)
      exact .inl ⟨m, hm.once, hm.within, hm.sent, ⟨serial', ha'⟩, hpunctual⟩
    · exact .inr ⟨m, before, t₁, w₁, after, hlimit, hbefore, hm, hlast,
        hafter.elapse he hle hdue, hlog⟩

/-! ## The first attempt -/

/-- The message that a step hands over last. -/
theorem head?_of_getLast?_handed {events : List Event}
    (htrace : (t.step input w).2.trace = events ++ w.trace)
    (h : (t.handed input w).getLast? = some (w.now, message)) :
    (events.filterMap (·.sentBy? t.key)).head? = some message := by
  rw [handed, World.handedSince_eq htrace, List.getLast?_map, List.getLast?_reverse,
    Option.map_eq_some_iff] at h
  obtain ⟨m, hm, heq⟩ := h
  rw [hm, (Prod.mk.inj heq).2]

/-- A discovery or a request that is not repeated is the first one. -/
theorem attempt?_of_handed (hr : Reachable key settings t w) (hm : message.awaits? = some awaited)
    (hne : input ≠ .fire awaited.alarm)
    (h : (t.handed input w).getLast? = some (w.now, message)) :
    ∃ serial, (t.step input w).1.attempt? = some
      ⟨awaited, message, 1, ⟨w.now + awaited.interval settings, serial⟩⟩ := by
  obtain ⟨events, htrace, hc⟩ := takes_step input t w
  have hlast := head?_of_getLast?_handed htrace h
  rw [← hr.settings_eq]
  generalize (t.step input w).1 = u at hc ⊢
  generalize answer? input t w = answer at hc
  cases hc with
  | seek nonce unconnected failed serial stats running _ _ _ =>
    have hmessage : message = .relayDiscovery nonce := by simpa [Event.sentBy?, eq_comm] using hlast
    subst hmessage
    cases hm
    exact ⟨serial, rfl⟩
  | @turn nonce relay handshake request failed serial stats hadv =>
    have hmessage : message = .request request t.handshake.family := by
      simpa [Event.sentBy?, eq_comm] using hlast
    subst hmessage
    cases hm
    obtain ⟨hp, -, rfl⟩ := Handshake.onAdvertisement_eq_ok.mp hadv
    refine ⟨serial, ?_⟩
    simp [attempt?, phase, Handshake.startRequest, Handshake.canRequest, hp, Answer.interval]
  | renew nonce failed serial stats _ hp =>
    have hmessage : message = .request nonce t.handshake.family := by
      simpa [Event.sentBy?, eq_comm] using hlast
    subst hmessage
    cases hm
    have hp : t.handshake.phase = .established := hp
    refine ⟨serial, ?_⟩
    simp [attempt?, phase, Handshake.startRequest, Handshake.canRequest, hp, Answer.interval]
  | @repeatDiscovery nonce _ failed _ _ hi _ =>
    have hmessage : message = .relayDiscovery nonce := by simpa [Event.sentBy?, eq_comm] using hlast
    subst hmessage
    cases hm
    exact absurd hi hne
  | @repeatRequest nonce _ failed _ _ hi _ =>
    have hmessage : message = .request nonce t.handshake.family := by
      simpa [Event.sentBy?, eq_comm] using hlast
    subst hmessage
    cases hm
    exact absurd hi hne
  | @establish limited mac nonce packet gateway interval stale handshake _ stats _ htear =>
    obtain ⟨e, he, hsent⟩ := List.mem_filterMap.mp (List.mem_of_mem_head? hlast)
    obtain ⟨grant, m, failed, -, hgrant, rfl⟩ := htear e he
    obtain ⟨address, -, rfl⟩ := Option.map_eq_some_iff.mp hgrant
    rw [Event.sentBy?, if_pos rfl] at hsent
    cases hsent
    cases hm
  | report =>
    simp only [Event.sentBy?, if_true, List.filterMap_cons, List.head?_cons,
      Option.some.injEq] at hlast
    subst hlast
    cases hm
  | _ => simp at hlast

/-! ## The last attempt -/

/-- The last discovery is given up: nothing is pending then. -/
theorem Asks.gives_up (h : Asks settings .advertisement message start log m t w)
    (hr : Reachable key settings t w)
    (hlimit : Answer.limit? settings .advertisement = some m)
    (hsmall : ∀ n, Answer.limit? settings .advertisement = some n → n < UInt32.size) :
    (t.step (.fire .discovery) w).1.phase = .disconnected ∧
      (t.step (.fire .discovery) w).1.alarms = [] ∧
      (t.step (.fire .discovery) w).2 = w ∧ t.handed (.fire .discovery) w = [] := by
  obtain ⟨serial, ha⟩ := h.waits
  have hstep := fire_advertisement_eq hr.timed ha rfl w
  rw [if_pos (hr.settings_eq ▸ (Attempt.isLast_iff h.once h.within hsmall _).mpr hlimit)] at hstep
  obtain ⟨hp, -⟩ | ⟨-, nonce, -, -, heq⟩ := attempt?_eq_some ha
  · obtain ⟨-, hrequest, hkeepalive⟩ := hr.timed.discovering hp
    have hstep : t.step (.fire .discovery) w = _ := hstep
    rw [handed, hstep]
    refine ⟨rfl, ?_, rfl, ?_⟩
    · simp [alarms, hrequest, hkeepalive]
    · rw [World.handedSince_eq (List.nil_append w.trace).symm]
      rfl
  · cases heq

/-- After the last request another relay is discovered, and the grant is forgotten. -/
theorem Asks.starts_over (h : Asks settings .query message start log m t w)
    (hr : Reachable key settings t w) (hlimit : Answer.limit? settings .query = some m)
    (hsmall : ∀ n, Answer.limit? settings .query = some n → n < UInt32.size) :
    (t.step (.fire .request) w).1.phase = .discovering ∧
      (t.step (.fire .request) w).1.handshake.grant = none ∧
      ∃ nonce, t.handed (.fire .request) w = [(w.now, .relayDiscovery nonce)] := by
  obtain ⟨serial, ha⟩ := h.waits
  have hstep := fire_query_eq hr.timed ha rfl w
  rw [if_pos (hr.settings_eq ▸ (Attempt.isLast_iff h.once h.within hsmall _).mpr hlimit)] at hstep
  have hstep : t.step (.fire .request) w = _ := hstep
  obtain ⟨nonce, unconnected, failed, serial', stats, v, heq, hv⟩ :=
    beginDiscovery_eq { t with requestTimer := none } w
  rw [heq] at hstep
  have htrace : (t.step (.fire .request) w).2.trace =
      [.sent t.key (.relayDiscovery nonce) failed,
        .connected t.key ⟨t.key.discoveryAddress, t.settings.relayPort, 0, 0⟩ unconnected] ++
          w.trace := by
    rw [hstep]
    exact hv
  refine ⟨?_, ?_, nonce, ?_⟩
  · rw [hstep]
    rfl
  · rw [hstep]
    rfl
  · rw [handed, World.handedSince_eq htrace]
    simp [Event.sentBy?]

/-- **How often a tunnel asks** in a run that nobody answers. From the start of a discovery on it
hands over the same discovery again and again, one interval apart. Without a limit that goes on for
ever; with one it gives up after `max 1 n` of them, and no timer is pending then. From a request
under a fresh nonce on it hands over the same request, one more than the limit of repetitions, and
then it starts a discovery and forgets its grant. -/
theorem Reachable.asks_within_limits (hr : Reachable key settings t w) (hin : input.Possible t) :
    (∀ nonce, input ≠ .fire .discovery →
      (t.handed input w).getLast? = some (w.now, .relayDiscovery nonce) →
      ∀ log u v, Silent (t.step input w).1 (t.step input w).2 log u v →
        (∃ m, Asks settings .advertisement (.relayDiscovery nonce) w.now log m u v) ∨
        ∃ n before t₁ w₁ after, settings.discoveryLimit = some n ∧
          Silent (t.step input w).1 (t.step input w).2 before t₁ w₁ ∧
          (w.now, .relayDiscovery nonce) :: attempts before =
            copies (.relayDiscovery nonce) w.now settings.discoveryInterval (max 1 n.toNat) ∧
          w₁.now = w.now + max 1 n.toNat * settings.discoveryInterval ∧
          t₁.phase = .disconnected ∧ t₁.alarms = [] ∧
          Silent t₁ w₁ after u v ∧ log = before ++ after) ∧
    (∀ nonce family, settings.requestLimit.toNat + 1 < UInt32.size → input ≠ .fire .request →
      (t.handed input w).getLast? = some (w.now, .request nonce family) →
      ∀ log u v, Silent (t.step input w).1 (t.step input w).2 log u v →
        (∃ m, Asks settings .query (.request nonce family) w.now log m u v) ∨
        ∃ fresh before t₁ w₁ after,
          Silent (t.step input w).1 (t.step input w).2 before t₁ w₁ ∧
          (w.now, .request nonce family) :: attempts before =
            copies (.request nonce family) w.now settings.requestInterval
              (settings.requestLimit.toNat + 1) ∧
          w₁.now = w.now + (settings.requestLimit.toNat + 1) * settings.requestInterval ∧
          Unanswered (.fire .request) t₁ w₁ ∧
          t₁.handed (.fire .request) w₁ = [(w₁.now, .relayDiscovery fresh)] ∧
          (t₁.step (.fire .request) w₁).1.phase = .discovering ∧
          (t₁.step (.fire .request) w₁).1.handshake.grant = none ∧
          Silent (t₁.step (.fire .request) w₁).1 (t₁.step (.fire .request) w₁).2 after u v ∧
          log = before ++ (w₁.now, .relayDiscovery fresh) :: after) := by
  have hnow : (t.step input w).2.now = w.now := now_step t w input
  have hnext : Reachable key settings (t.step input w).1 (t.step input w).2 := .step input hr hin
  refine ⟨fun nonce hne hlast log u v hrun => ?_,
    fun nonce family hlimit hne hlast log u v hrun => ?_⟩
  · have hdiscovery : (Message.relayDiscovery nonce).awaits? = some .advertisement := rfl
    obtain ⟨serial, ha⟩ := attempt?_of_handed hr hdiscovery hne hlast
    have hpos : ∀ n, Answer.limit? settings .advertisement = some n → 1 ≤ n ∧ n < UInt32.size := by
      intro n hn
      obtain ⟨n, -, rfl⟩ := Option.map_eq_some_iff.mp hn
      have hn := n.toNat_lt
      simp only [UInt32.size]
      omega
    rw [← hnow] at ha ⊢
    obtain hasks | ⟨m, before, t₁, w₁, after, hlimit, hbefore, hasks, hlast, hafter, hlog⟩ :=
      hrun.asks hnext ha hpos
    · exact .inl hasks
    · obtain ⟨hp, halarms, hw, hnone⟩ :=
        hasks.gives_up (hbefore.reachable hnext) hlimit fun n hn => (hpos n hn).2
      obtain ⟨n, hn, rfl⟩ := Option.map_eq_some_iff.mp hlimit
      have hend := hbefore.step _ hlast
      have hmoment := hasks.now_eq hlast
      simp only [Answer.alarm, hnone, hw, List.append_nil, List.nil_append] at hend hafter hlog
      exact .inr ⟨n, before, _, w₁, after, hn, hend, hasks.sent, hmoment, hp, halarms, hafter, hlog⟩
  · have hrequest : (Message.request nonce family).awaits? = some .query := rfl
    obtain ⟨serial, ha⟩ := attempt?_of_handed hr hrequest hne hlast
    have hpos : ∀ n, Answer.limit? settings .query = some n → 1 ≤ n ∧ n < UInt32.size := by
      intro n hn
      cases hn
      exact ⟨Nat.le_add_left _ _, hlimit⟩
    rw [← hnow] at ha ⊢
    obtain hasks | ⟨m, before, t₁, w₁, after, hm, hbefore, hasks, hlast, hafter, hlog⟩ :=
      hrun.asks hnext ha hpos
    · exact .inl hasks
    · obtain ⟨hp, hgrant, fresh, hfresh⟩ :=
        hasks.starts_over (hbefore.reachable hnext) hm fun n hn => (hpos n hn).2
      cases hm
      have hmoment := hasks.now_eq hlast
      simp only [Answer.alarm, hfresh] at hlog
      exact .inr ⟨fresh, before, t₁, w₁, after, hbefore, hasks.sent, hmoment, hlast, hfresh, hp,
        hgrant, hafter, hlog⟩

/-- A gateway that sends a discovery and a request twice at most, in a world where all goes well. -/
def hasty : Tunnel × World :=
  ({ key := ⟨.read .ipv4 [192, 0, 2, 1], .ipv4⟩
     settings := { discoveryLimit := some 2, requestLimit := 1 } },
    { oracle := { nonce := fun _ => 7, chance := fun _ => 0 } })

/-- It has sent its first discovery. -/
def hastySeeking : Tunnel × World := hasty.1.step .start hasty.2

/-- It has reported under the grant of a relay, and its session is to be renewed. -/
def hastySession : Tunnel × World :=
  let found := hastySeeking.1.step relayAnswers hastySeeking.2
  let granted := found.1.step relayQueries found.2
  let told := granted.1.step (.send joinReport) granted.2
  (told.1, { told.2 with now := 125000 })

/-- It has sent the first request of the renewal. -/
def hastyRenewing : Tunnel × World := hastySession.1.step (.fire .keepalive) hastySession.2

/-- Nobody answers. The second discovery is its last one, so it has given up after four seconds. The
request of the renewal is repeated once, and then it seeks a relay again without its grant. -/
theorem hasty_gives_up_and_starts_over :
    (Input.start.Possible hasty.1 ∧ Input.start ≠ .fire .discovery ∧
      (hasty.1.handed .start hasty.2).getLast? = some (0, .relayDiscovery 7) ∧
      ∃ before t₁ w₁, Silent hastySeeking.1 hastySeeking.2 before t₁ w₁ ∧ w₁.now = 4000 ∧
        t₁.alarms = [] ∧
        (0, .relayDiscovery 7) :: attempts before = copies (.relayDiscovery 7) 0 2000 2) ∧
    (Input.fire .keepalive).Possible hastySession.1 ∧
      Input.fire .keepalive ≠ .fire .request ∧ hastySession.1.handshake.grant.isSome = true ∧
      (hastySession.1.handed (.fire .keepalive) hastySession.2).getLast? =
        some (125000, .request 7 .ipv4) ∧
      ∃ fresh before t₁ w₁, Silent hastyRenewing.1 hastyRenewing.2 before t₁ w₁ ∧
        w₁.now = 129000 ∧
        (125000, .request 7 .ipv4) :: attempts before =
          copies (.request 7 .ipv4) 125000 2000 2 ∧
        t₁.handed (.fire .request) w₁ = [(w₁.now, .relayDiscovery fresh)] ∧
        (t₁.step (.fire .request) w₁).1.phase = .discovering ∧
        (t₁.step (.fire .request) w₁).1.handshake.grant = none := by
  have hr : Reachable hasty.1.key hasty.1.settings hasty.1 hasty.2 := .created hasty.2
  have hin : Input.start.Possible hasty.1 := trivial
  have hreported := (((hr.step .start hin).step relayAnswers trivial).step relayQueries
    trivial).step (.send joinReport) trivial
  have hsession : Reachable hasty.1.key hasty.1.settings hastySession.1 hastySession.2 :=
    hreported.elapse ⟨[], rfl, fun _ he => absurd he List.not_mem_nil⟩
  have hdue : (Input.fire .keepalive).Possible hastySession.1 :=
    ⟨⟨125000, 2⟩, by decide +kernel⟩
  have hfirst : (hasty.1.handed .start hasty.2).getLast? = some (0, .relayDiscovery 7) := rfl
  have hrenewed : (hastySession.1.handed (.fire .keepalive) hastySession.2).getLast? =
      some (125000, .request 7 .ipv4) := by decide +kernel
  refine ⟨⟨hin, nofun, hfirst, ?_⟩, hdue, nofun, by decide +kernel, hrenewed, ?_⟩
  · have hagain := Silent.start.expire (t := hastySeeking.1) (w := hastySeeking.2) ⟨2000, 0⟩
      .discovery hasty.2.oracle rfl (by decide) fun _ => rfl
    have hlast := hagain.expire ⟨4000, 1⟩ .discovery hasty.2.oracle rfl (by decide) fun _ => rfl
    obtain ⟨m, hm⟩ | ⟨n, before, t₁, w₁, after, hn, hbefore, hsent, hnow, -, halarms, -⟩ :=
      (hr.asks_within_limits hin).1 7 nofun hfirst _ _ _ hlast
    · obtain ⟨serial, ha⟩ := hm.waits
      cases ha
    · cases hn
      exact ⟨before, t₁, w₁, hbefore, hnow, halarms, hsent⟩
  · have hagain := Silent.start.expire (t := hastyRenewing.1) (w := hastyRenewing.2) ⟨127000, 3⟩
      .request hasty.2.oracle (by decide +kernel) (by decide +kernel) fun _ => rfl
    have hlast := hagain.expire ⟨129000, 4⟩ .request hasty.2.oracle (by decide +kernel)
      (by decide +kernel) fun _ => rfl
    obtain ⟨m, hm⟩ |
        ⟨fresh, before, t₁, w₁, after, hbefore, hsent, hnow, -, hfresh, hp, hgrant, -⟩ :=
      (hsession.asks_within_limits hdue).2 7 .ipv4 (by decide) nofun hrenewed _ _ _ hlast
    · -- It seeks a relay by then, so the request does not wait any more.
      obtain ⟨serial, ha⟩ := hm.waits
      obtain ⟨-, nonce, -, -, heq⟩ | ⟨hp, -⟩ := attempt?_eq_some ha
      · cases heq
      · exact absurd hp (by decide +kernel)
    · exact ⟨fresh, before, t₁, w₁, hbefore, hnow, hsent, hfresh, hp, hgrant⟩

end Tunnel

end MulticastTunnel
