import MulticastTunnel.Proofs.Tunnel.Course

/-!
# The history behind an update

An update carries the grant of a query. A `Chronicle` tells a run together with
its milestones: discoveries that were started, answers that were accepted,
requests and updates that were handed to the transport. A chain of milestones
leads to every grant: a discovery, an advertisement under its nonce, a request,
and the query under the nonce of that request. Nothing in the chain is older
than the latest discovery, so no grant outlives the relay that it came from.
-/

namespace MulticastTunnel

open MulticastTunnel.Membership

namespace World

/-- What happened from `w` on until `v`, the latest first. -/
def eventsSince (w v : World) : List Event := v.trace.take (v.trace.length - w.trace.length)

theorem eventsSince_eq {w v : World} {events : List Event} (h : v.trace = events ++ w.trace) :
    w.eventsSince v = events := by
  simp [eventsSince, h]

end World

namespace Tunnel

/-- The timer of a discovery ran out, so the same discovery is sent again. -/
def Input.repeatsDiscovery : Input → Bool
  | .fire .discovery => true
  | _ => false

theorem Input.repeatsDiscovery_eq_false {input : Input} (h : input ≠ .fire .discovery) :
    input.repeatsDiscovery = false := by
  cases input with
  | fire alarm => cases alarm <;> simp_all [repeatsDiscovery]
  | _ => rfl

/-- What counts in the history of a tunnel. -/
inductive Milestone
  /-- A discovery was started. -/
  | discovery (nonce : Nonce)
  /-- An advertisement was accepted. -/
  | advertisement (nonce : Nonce)
  /-- A request was handed to the transport, for the first time or again. -/
  | request (nonce : Nonce)
  /-- A query was accepted. -/
  | query (mac : Mac) (nonce : Nonce)
  /-- An update was handed to the transport. -/
  | update (mac : Mac) (nonce : Nonce)
deriving DecidableEq

namespace Milestone

def isDiscovery : Milestone → Bool
  | discovery _ => true
  | _ => false

def isRequest : Milestone → Bool
  | request _ => true
  | _ => false

def isQuery : Milestone → Bool
  | query .. => true
  | _ => false

def isUpdate : Milestone → Bool
  | update .. => true
  | _ => false

/-- The milestone that a message to the transport is. A discovery that is sent
because its timer ran out was started before. -/
def ofSent? (input : Input) : Message → Option Milestone
  | .relayDiscovery nonce => if input.repeatsDiscovery then none else some (.discovery nonce)
  | .request nonce _ => some (.request nonce)
  | .membershipUpdate mac nonce _ => some (.update mac nonce)
  | _ => none

/-- The milestone that an accepted answer is. -/
def ofAnswer? : Message → Option Milestone
  | .relayAdvertisement nonce _ => some (.advertisement nonce)
  | .membershipQuery _ mac nonce _ _ => some (.query mac nonce)
  | _ => none

/-- The milestones among what a step did, the latest first: an answer is
accepted before anything is sent. -/
def ofStep (input : Input) (key : InterfaceKey) (events : List Event) (answer : Option Message) :
    List Milestone :=
  events.filterMap (fun e => (e.sentBy? key).bind (ofSent? input)) ++
    (answer.bind ofAnswer?).toList

section ofStep

variable (input : Input) (key : InterfaceKey) (events : List Event) (answer : Option Message)

@[simp] theorem ofStep_nil : ofStep input key [] answer = (answer.bind ofAnswer?).toList := rfl

@[simp] theorem ofStep_sent (m : Message) (failed : Bool) :
    ofStep input key (.sent key m failed :: events) answer =
      (ofSent? input m).toList ++ ofStep input key events answer := by
  cases h : ofSent? input m <;> simp [ofStep, Event.sentBy?, h]

@[simp] theorem ofStep_connected (k : InterfaceKey) (peer : SocketAddress) (failed : Bool) :
    ofStep input key (.connected k peer failed :: events) answer =
      ofStep input key events answer := by
  simp [ofStep, Event.sentBy?]

end ofStep

end Milestone

/-- The milestones of a step, the latest first. -/
def milestones (input : Input) (t : Tunnel) (w : World) : List Milestone :=
  Milestone.ofStep input t.key (w.eventsSince (t.step input w).2) (answer? input t w)

/-- A run of a tunnel with its milestones, the latest first. -/
inductive Chronicle (key : InterfaceKey) (settings : TunnelSettings) :
    List Milestone → Tunnel → World → Prop
  | created (w : World) : Chronicle key settings [] { key, settings } w
  | step {log : List Milestone} {t : Tunnel} {w : World} (input : Input) :
      Chronicle key settings log t w → input.Possible t →
      Chronicle key settings (t.milestones input w ++ log) (t.step input w).1 (t.step input w).2
  | elapse {log : List Milestone} {t : Tunnel} {w v : World} :
      Chronicle key settings log t w → w.Elapsed key v → Chronicle key settings log t v

/-! ## Chains of milestones -/

/-- The milestone was reached after `before`, and nothing that `ends` it came since. -/
def Stands (ends : Milestone → Bool) (m : Milestone) (before : List Milestone → Prop)
    (log : List Milestone) : Prop :=
  ∃ since rest, log = since ++ m :: rest ∧ (∀ x ∈ since, ends x = false) ∧ before rest

/-- The latest discovery was started under the nonce. -/
def Sought (log : List Milestone) (nonce : Nonce) : Prop :=
  Stands (·.isDiscovery) (.discovery nonce) (fun _ => True) log

/-- An advertisement under the nonce of the latest discovery was accepted. -/
def Answered (log : List Milestone) : Prop :=
  ∃ nonce, Stands (·.isDiscovery) (.advertisement nonce) (Sought · nonce) log

/-- The latest request went out under the nonce, after the latest discovery was answered. -/
def Asked (log : List Milestone) (nonce : Nonce) : Prop :=
  Stands (fun m => m.isDiscovery || m.isRequest) (.request nonce) Answered log

/-- The latest query was accepted after the latest discovery, with this code and
under the nonce of the request that was the latest then. -/
def Granted (log : List Milestone) (mac : Mac) (nonce : Nonce) : Prop :=
  Stands (fun m => m.isDiscovery || m.isQuery) (.query mac nonce) (Asked · nonce) log

section Stands

variable {ends : Milestone → Bool} {m : Milestone} {before : List Milestone → Prop}
  {log : List Milestone} {nonce : Nonce} {mac : Mac}

theorem stands_now (h : before log) : Stands ends m before (m :: log) :=
  ⟨[], log, rfl, by simp, h⟩

/-- A milestone stands until another one ends it. -/
theorem Stands.cons (h : Stands ends m before log) {x : Milestone} (hx : ends x = false) :
    Stands ends m before (x :: log) := by
  obtain ⟨since, rest, rfl, hs, hb⟩ := h
  refine ⟨x :: since, rest, rfl, fun y hy => ?_, hb⟩
  rcases List.mem_cons.mp hy with rfl | hy
  · exact hx
  · exact hs y hy

/-- A milestone that stands was reached after whatever would have ended it. -/
theorem Stands.mem (h : Stands ends m before log) {recent older : List Milestone} {x : Milestone}
    (hlog : log = recent ++ x :: older) (hx : ends x = true) (hm : m ≠ x) : m ∈ recent := by
  obtain ⟨since, rest, hlog', hs, -⟩ := h
  rw [hlog] at hlog'
  rcases List.append_eq_append_iff.mp hlog' with ⟨more, rfl, hr⟩ | ⟨more, rfl, hr⟩
  · -- The milestone would be older than `x`, which ends it.
    cases more with
    | nil =>
      have := (List.cons.inj hr).1
      exact absurd this.symm hm
    | cons y more =>
      obtain ⟨rfl, -⟩ := List.cons.inj hr
      have := hs x (by simp)
      rw [hx] at this
      cases this
  · cases more with
    | nil =>
      have := (List.cons.inj hr).1
      exact absurd this hm
    | cons y more =>
      obtain ⟨rfl, -⟩ := List.cons.inj hr
      simp

theorem Answered.cons (h : Answered log) {x : Milestone} (hx : x.isDiscovery = false) :
    Answered (x :: log) :=
  let ⟨nonce, h⟩ := h
  ⟨nonce, h.cons hx⟩

/-- Whoever asked was answered before. -/
theorem Asked.answered (h : Asked log nonce) : Answered log := by
  obtain ⟨since, rest, rfl, hs, ha⟩ := h
  induction since with
  | nil => exact ha.cons rfl
  | cons x since ih =>
    have hx := hs x (by simp)
    refine Answered.cons (ih fun y hy => hs y (List.mem_cons_of_mem _ hy)) ?_
    exact (Bool.or_eq_false_iff.mp hx).1

end Stands

/-! ## The invariant -/

/-- Every update in the log was sent under the grant that stood then. -/
def Warranted (log : List Milestone) : Prop :=
  ∀ after mac nonce before, log = after ++ .update mac nonce :: before → Granted before mac nonce

/-- What a tunnel remembers is the end of a chain of milestones. -/
structure Told (log : List Milestone) (t : Tunnel) : Prop where
  warranted : Warranted log
  granted : ∀ grant, t.handshake.grant = some grant → Granted log grant.mac grant.nonce
  sought : t.phase = .discovering →
    ∃ nonce, t.handshake.discoveryNonce = some nonce ∧ Sought log nonce
  asked : t.phase = .requesting ∨ t.phase = .established →
    ∃ nonce, t.handshake.requestNonce = some nonce ∧ Asked log nonce

variable {key : InterfaceKey} {settings : TunnelSettings} {t u : Tunnel} {w : World}
  {input : Input} {answer : Option Message} {events : List Event} {log : List Milestone}

theorem warranted_nil : Warranted [] := fun after mac nonce before h => by simp at h

theorem Warranted.cons (h : Warranted log) {m : Milestone} (hm : m.isUpdate = false) :
    Warranted (m :: log) := by
  intro after mac nonce before hlog
  cases after with
  | nil =>
    obtain ⟨rfl, -⟩ := List.cons.inj hlog
    cases hm
  | cons x after => exact h after mac nonce before (List.cons.inj hlog).2

theorem Warranted.update (h : Warranted log) {mac : Mac} {nonce : Nonce}
    (hg : Granted log mac nonce) : Warranted (.update mac nonce :: log) := by
  intro after mac' nonce' before hlog
  cases after with
  | nil =>
    obtain ⟨hm, rfl⟩ := List.cons.inj hlog
    obtain ⟨rfl, rfl⟩ := Milestone.update.inj hm
    exact hg
  | cons x after => exact h after mac' nonce' before (List.cons.inj hlog).2

/-- A tunnel that forgot its relay remembers nothing that had to be warranted. -/
theorem told_of_disconnected (h : Warranted log) (hp : t.phase = .disconnected)
    (hg : t.handshake.grant = none) : Told log t where
  warranted := h
  granted grant h := by simp [hg] at h
  sought h := by simp [hp] at h
  asked h := by simp [hp] at h

theorem Told.congr (h : Told log t) (hh : u.handshake = t.handshake) : Told log u where
  warranted := h.warranted
  granted := by simpa only [hh] using h.granted
  sought := by simpa only [phase, hh] using h.sought
  asked := by simpa only [phase, hh] using h.asked

/-- A tunnel that just sent a request remembers its nonce. -/
theorem told_of_requesting {nonce : Nonce} (h : Warranted log)
    (hg : ∀ grant, t.handshake.grant = some grant → Granted log grant.mac grant.nonce)
    (hp : t.phase = .requesting) (hn : t.handshake.requestNonce = some nonce)
    (ha : Asked log nonce) : Told log t where
  warranted := h
  granted := hg
  sought h := by simp [hp] at h
  asked _ := ⟨nonce, hn, ha⟩

/-- Asking once more, under whatever nonce, leaves the grant as it is. -/
theorem Told.request (h : Told log t) (hp : t.phase = .requesting ∨ t.phase = .established)
    (nonce : Nonce) (hg : u.handshake.grant = t.handshake.grant) (hu : u.phase = .requesting)
    (hn : u.handshake.requestNonce = some nonce) : Told (.request nonce :: log) u := by
  obtain ⟨_, -, ha⟩ := h.asked hp
  refine told_of_requesting (h.warranted.cons rfl) (fun grant h' => ?_) hu hn
    (stands_now ha.answered)
  exact (h.granted grant (hg ▸ h')).cons rfl

/-- Whatever was tried before a discovery, an update among it had its grant. -/
theorem Told.trial (h : Told log t) (ht : Trial t answer events) (input : Input) :
    Warranted (Milestone.ofStep input t.key events answer ++ log) := by
  cases ht with
  | nothing => exact h.warranted
  | report hg =>
    simpa [Milestone.ofSent?] using h.warranted.update (h.granted _ hg)
  | turn hadv =>
    simpa [Milestone.ofAnswer?] using h.warranted.cons rfl
  | turned hadv =>
    simpa [Milestone.ofSent?, Milestone.ofAnswer?] using (h.warranted.cons rfl).cons rfl
  | request _ =>
    simpa [Milestone.ofSent?] using h.warranted.cons rfl

/-- Only teardowns go out when a query is accepted. -/
theorem ofStep_teardown {stale : Option Grant}
    (he : ∀ e ∈ events, ∃ grant message failed, stale = some grant ∧
      grant.teardown = some message ∧ e = .sent t.key message failed) :
    Milestone.ofStep input t.key events answer = (answer.bind Milestone.ofAnswer?).toList := by
  induction events with
  | nil => rfl
  | cons e events ih =>
    obtain ⟨grant, message, failed, -, hm, rfl⟩ := he e (by simp)
    obtain ⟨gateway, -, rfl⟩ := Option.map_eq_some_iff.mp hm
    rw [Milestone.ofStep_sent, ih fun e he' => he e (List.mem_cons_of_mem _ he')]
    rfl

/-- A step adds to the chains what it does, or it starts a new one. -/
theorem Told.course (h : Told log t) (hc : Course input t w answer events u) :
    Told (Milestone.ofStep input t.key events answer ++ log) u := by
  cases hc with
  | rest stats running _ => exact h.congr rfl
  | seek nonce unconnected failed serial stats running hin _ htrial =>
    have hw := h.trial htrial input
    simp only [Milestone.ofStep_sent, Milestone.ofStep_connected, Milestone.ofSent?,
      Input.repeatsDiscovery_eq_false hin, Bool.false_eq_true, if_false]
    exact {
      warranted := hw.cons rfl
      granted := fun grant hg => by cases hg
      sought := fun _ => ⟨nonce, rfl, stands_now trivial⟩
      asked := fun hp => by rcases hp with hp | hp <;> cases hp }
  | report packet failed keepaliveTimer stats _ hg =>
    simp only [Milestone.ofStep_sent, Milestone.ofSent?]
    exact {
      warranted := h.warranted.update (h.granted _ hg)
      granted := fun grant hg => (h.granted grant hg).cons rfl
      sought := fun hp =>
        let ⟨nonce, hn, hs⟩ := h.sought hp
        ⟨nonce, hn, hs.cons rfl⟩
      asked := fun hp =>
        let ⟨nonce, hn, ha⟩ := h.asked hp
        ⟨nonce, hn, ha.cons rfl⟩ }
  | turn request failed serial stats hadv =>
    obtain ⟨hp, rfl, rfl⟩ := Handshake.onAdvertisement_eq_ok.mp hadv
    obtain ⟨nonce, hn, hs⟩ := h.sought hp
    simp only [Milestone.ofStep_sent, Milestone.ofStep_connected, Milestone.ofSent?,
      Milestone.ofStep_nil, Option.bind_some, Milestone.ofAnswer?, hn, Option.getD_some]
    have ha : Asked (.request request :: .advertisement nonce :: log) request :=
      stands_now ⟨nonce, stands_now hs⟩
    refine told_of_requesting ((h.warranted.cons rfl).cons rfl) (fun grant hg => ?_) ?_ ?_ ha
    all_goals simp only [phase, Handshake.startRequest, Handshake.canRequest, hp] at *
    · exact ((h.granted grant hg).cons rfl).cons rfl
    · rfl
    · rfl
  | @establish limited mac nonce packet gateway interval stale handshake _ stats hq htear =>
    obtain ⟨hp, hnonce, -, rfl⟩ := Handshake.onQuery_eq_ok.mp hq
    obtain ⟨asked, hn, ha⟩ := h.asked hp
    obtain rfl : nonce = asked := by simpa [hn] using hnonce
    rw [ofStep_teardown htear]
    exact {
      warranted := h.warranted.cons rfl
      granted := fun grant hg => by
        obtain rfl := Option.some.inj hg
        exact stands_now ha
      sought := fun hp => by cases hp
      asked := fun _ => ⟨nonce, hn, ha.cons rfl⟩ }
  | renew nonce failed serial stats _ hp =>
    have hp' : t.handshake.phase = .established := hp
    simp only [Milestone.ofStep_sent, Milestone.ofSent?]
    apply h.request (.inr hp) nonce <;>
      simp [phase, Handshake.startRequest, Handshake.canRequest, hp']
  | repeatRequest failed serial stats _ hr =>
    obtain ⟨asked, hm, hp, hn⟩ := Handshake.retryRequest_resend hr
    have hh := Handshake.retryRequest_resend_eq hr
    obtain ⟨rfl, -⟩ := Message.request.inj hm
    simp only [Milestone.ofStep_sent, Milestone.ofSent?]
    exact h.request (.inl (by rwa [hh] at hp)) _ (by rw [hh]) hp hn
  | repeatDiscovery failed serial stats hi hr =>
    subst hi
    obtain rfl := Handshake.retryDiscovery_some_eq hr
    simp only [Milestone.ofStep_sent, Milestone.ofSent?, Input.repeatsDiscovery, if_true]
    exact ⟨h.warranted, h.granted, h.sought, h.asked⟩
  | giveUp hi hr =>
    rcases Handshake.retryDiscovery_none hr with rfl | ⟨-, rfl⟩
    · exact h.congr rfl
    · exact told_of_disconnected h.warranted rfl rfl
  | lapse alarm hi hd hr => exact h.congr rfl
  | close _ =>
    unfold close
    split
    · exact h
    · exact told_of_disconnected h.warranted rfl rfl

theorem Told.step (h : Told log t) (input : Input) (w : World) :
    Told (t.milestones input w ++ log) (t.step input w).1 := by
  obtain ⟨events, htrace, hc⟩ := takes_step input t w
  rw [milestones, World.eventsSince_eq htrace]
  exact h.course hc

theorem Chronicle.told (h : Chronicle key settings log t w) : Told log t := by
  induction h with
  | created w => exact told_of_disconnected warranted_nil rfl rfl
  | @step log t w input _ _ ih => exact ih.step input w
  | elapse _ _ ih => exact ih

theorem Chronicle.reachable (h : Chronicle key settings log t w) : Reachable key settings t w := by
  induction h with
  | created w => exact .created w
  | step input _ hin ih => exact .step input ih hin
  | elapse _ he ih => exact .elapse ih he

/-! ## What the chains tell -/

/-- While no query was accepted since a discovery was started, there is no grant. -/
theorem Told.grant_eq_none (h : Told log t) {recent older : List Milestone} {nonce : Nonce}
    (hlog : log = recent ++ .discovery nonce :: older) (hq : ∀ m ∈ recent, m.isQuery = false) :
    t.handshake.grant = none := by
  cases hg : t.handshake.grant with
  | none => rfl
  | some grant =>
    have := hq _ ((h.granted grant hg).mem hlog rfl (by simp))
    cases this

/-- A valid report of a tunnel without a grant has to wait. -/
theorem send_eq_notReady (hc : t.closed = false) (hg : t.handshake.grant = none)
    {packet : Packet} {report : Report} (hf : packet.family = t.key.family)
    (hr : Report.ofPacket packet = .ok report) (w : World) :
    (t.send packet w).1 = .ok .notReady := by
  simp [send, hc, hf, hr, Handshake.update, hg]

/-- **Updates follow their queries.** Every update that was handed to the
transport carries the code and the nonce of the latest query, which was accepted
at the end of a chain that began with the latest discovery. From the start of a
discovery until a query is accepted no update is sent, and a valid report has
to wait. -/
theorem Chronicle.updates_follow_queries (h : Chronicle key settings log t w) :
    (∀ after mac nonce before, log = after ++ .update mac nonce :: before →
      Granted before mac nonce) ∧
    ∀ recent nonce older, log = recent ++ .discovery nonce :: older →
      (∀ m ∈ recent, m.isQuery = false) →
      (∀ m ∈ recent, m.isUpdate = false) ∧
      (t.closed = false → ∀ packet report, packet.family = key.family →
        Report.ofPacket packet = .ok report → (t.send packet w).1 = .ok .notReady) := by
  have ht := h.told
  refine ⟨ht.warranted, fun recent nonce older hlog hq => ⟨fun m hm => ?_, ?_⟩⟩
  · cases m with
    | update mac grantNonce =>
      obtain ⟨after, between, rfl⟩ := List.mem_iff_append.mp hm
      have hg := ht.warranted after mac grantNonce (between ++ .discovery nonce :: older)
        (by simp [hlog])
      have := hq _ (List.mem_append_right _ (List.mem_cons_of_mem _ (hg.mem rfl rfl (by simp))))
      cases this
    | _ => rfl
  · intro hc packet report hf hr
    rw [← h.reachable.fenced.1] at hf
    exact send_eq_notReady hc (ht.grant_eq_none hlog hq) hf hr w

/-- A gateway that starts its discovery under nonce 7, in a world where all goes well. -/
def seeking : Tunnel × World :=
  let key : InterfaceKey := ⟨.read .ipv4 [192, 0, 2, 1], .ipv4⟩
  step .start { key, settings := {} } { oracle := { nonce := fun _ => 7, chance := fun _ => 0 } }

def relayAnswers : Input :=
  .receive (.ok (Message.relayAdvertisement 7 (.v4 #v[203, 0, 113, 9])).encode)

/-- A general query from 10.0.0.1 under nonce 7. -/
def generalQuery : Packet :=
  ((Query.general .ipv4 10000).toPacket (.read .ipv4 [10, 0, 0, 1])
    (.read .ipv4 [224, 0, 0, 1])).toOption.get (by decide +kernel)

def relayQueries : Input :=
  .receive (.ok (Message.membershipQuery false ⟨#v[1, 2, 3, 4, 5, 6]⟩ 7 generalQuery none).encode)

/-- Group 232.1.1.1 is joined for any source. -/
def joinReport : Packet :=
  (Report.toPacket ⟨.ipv4, [⟨.changeToExcludeMode, .read .ipv4 [232, 1, 1, 1], []⟩]⟩
    (.read .ipv4 [10, 0, 0, 2])).toOption.get (by decide +kernel)

/-- The gateway has to wait with its report until its relay is found and grants it. -/
theorem seeking_reports_after_query :
    let found := step relayAnswers seeking.1 seeking.2
    let granted := step relayQueries found.1 found.2
    (seeking.1.send joinReport seeking.2).1 = .ok .notReady ∧
      granted.1.milestones (.send joinReport) granted.2 = [.update ⟨#v[1, 2, 3, 4, 5, 6]⟩ 7] ∧
      Granted [.query ⟨#v[1, 2, 3, 4, 5, 6]⟩ 7, .request 7, .advertisement 7, .discovery 7]
        ⟨#v[1, 2, 3, 4, 5, 6]⟩ 7 := by
  intro found granted
  have hs : Chronicle _ {} _ seeking.1 seeking.2 := .step .start (.created _) trivial
  have hu := ((hs.step relayAnswers trivial).step relayQueries trivial).step (.send joinReport)
    trivial
  have hr : Report.ofPacket joinReport =
      .ok ⟨.ipv4, [⟨.changeToExcludeMode, .v4 #v[232, 1, 1, 1], []⟩]⟩ := by decide +kernel
  refine ⟨?_, by decide +kernel, ?_⟩
  · exact (hs.updates_follow_queries.2 [] 7 [] (by decide +kernel) (by simp)).2 rfl joinReport _
      (by decide +kernel) hr
  · exact hu.updates_follow_queries.1 [] _ _ _ (by decide +kernel)

end Tunnel

end MulticastTunnel
