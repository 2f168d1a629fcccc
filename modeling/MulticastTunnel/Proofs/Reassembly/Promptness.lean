import MulticastTunnel.Proofs.Reassembly.Completion
import MulticastTunnel.Proofs.Reassembly.Offering

/-!
# Prompt admission

Fragments wait only while all slots are taken, and none of them by their own
datagrams. Starting and completing a datagram and dropping those that are too
old lead to another pass over the queue, so this holds after whatever happened
before. There is one exception: a complete datagram whose header cannot be
rebuilt is dropped and gives up its slot, and nobody looks at the queue then.
-/

namespace MulticastTunnel.Reassembly

open Keyed

namespace Reassembler

/-- What can be asked of a reassembler. -/
inductive Operation
  | process (p : Packet) (now : Nat)
  | evict (now : Nat)
  | close

/-- What an operation leaves of a reassembler. -/
def apply (op : Operation) (r : Reassembler) : Reassembler :=
  match op with
  | .process p now => (r.process p now).2
  | .evict now => (r.evict now).2
  | .close => r.close

/-- Whatever waits waits for a slot: all of them are taken, and none by the
datagram of a fragment that waits. -/
def Prompt (r : Reassembler) : Prop :=
  r.waiting = [] ∨ r.size = r.limits.slots ∧
    ∀ p ∈ r.waiting, ∀ key, FragmentKey.of? p = some key → r.cache.get? key = none

/-! ## What is offered in the course of an operation -/

/-- The fragment completes a datagram that has a slot, and the datagram cannot be rebuilt. -/
def Discards (r : Reassembler) (p : Packet) : Prop :=
  ∃ key fragment b c, FragmentKey.of? p = some key ∧ p.fragmentInfo = some fragment ∧
    r.cache.get? key = some b ∧ b.add? p fragment = some c ∧ c.isComplete = true ∧
    ∀ datagram, c.assemble? ≠ some (.ok datagram)

/-- The fragments that a pass has yet to offer, and the states that they are offered to. -/
def Pass.offers (now : Nat) : Pass → List Packet → List (Reassembler × Packet)
  | _, [] => []
  | pass, p :: rest => (pass.state, p) :: Pass.offers now (pass.step now p) rest

/-- The same for at most `n` passes over the queue. -/
def retryOffers (now : Nat) : Nat → Reassembler → List (Reassembler × Packet)
  | 0, _ => []
  | n + 1, r =>
    Pass.offers now { state := { r with waiting := [] } } r.waiting ++
      if (r.retryPass now).1.isEmpty then [] else retryOffers now n (r.retryPass now).2

/-- The reassembler without the datagrams that are too old. -/
def withoutExpired (r : Reassembler) (now : Nat) : Reassembler :=
  let expired := r.cache.toList.filter fun e => r.isExpired now e.2
  { r with
    cache := r.cache.filter fun _ b => !r.isExpired now b
    stats := { r.stats with timedOut := r.stats.timedOut + expired.length } }

/-- The same for an operation. -/
def offers (op : Operation) (r : Reassembler) : List (Reassembler × Packet) :=
  match op with
  | .process p now =>
    if !p.isFragment then []
    else
      (r, p) ::
        match r.offer p now with
        | (.complete _, r) | (.started, r) => r.retryOffers now r.waiting.length
        | _ => []
  | .evict now =>
    if (r.cache.toList.filter fun e => r.isExpired now e.2).isEmpty then []
    else (r.withoutExpired now).retryOffers now (r.withoutExpired now).waiting.length
  | .close => []

/-- No datagram that is completed in the course of an operation has to be discarded. -/
def Rebuilds (op : Operation) (r : Reassembler) : Prop := ∀ o ∈ r.offers op, ¬ o.1.Discards o.2

/-- The states that a reassembler comes to while no datagram has to be discarded. -/
inductive Reaches (limits : Limits) : Reassembler → Prop
  | new : Reaches limits { limits }
  | step {r : Reassembler} (op : Operation) : Reaches limits r → r.Rebuilds op →
      Reaches limits (r.apply op)

variable {r s : Reassembler} {p : Packet} {a : Admission} {pass : Pass} {now : Nat}

/-! ## One fragment -/

/-- What offering a fragment can come to. -/
inductive Outcome (r : Reassembler) (p : Packet) : Admission → Reassembler → Prop
  | denied {key : FragmentKey} (stats : Stats) : FragmentKey.of? p = some key →
      r.cache.get? key = none → r.limits.slots ≤ r.cache.size →
      Outcome r p .denied { r with stats }
  | complete (datagram : Packet) {cache : Table FragmentKey Buffer} (stats : Stats) :
      cache.size ≤ r.cache.size → Outcome r p (.complete datagram) { r with cache, stats }
  /-- A slot is given up only with a datagram that cannot be rebuilt. -/
  | dropped {cache : Table FragmentKey Buffer} (stats : Stats) : cache.size ≤ r.cache.size →
      (∀ key, r.cache.get? key = none → cache.get? key = none) →
      (¬ r.Discards p → r.cache.size ≤ cache.size) →
      Outcome r p .dropped { r with cache, stats }
  | started (key : FragmentKey) (b : Buffer) : r.cache.size < r.limits.slots →
      Outcome r p .started { r with cache := r.cache.insert key b }
  | progress {key : FragmentKey} (b : Buffer) : (r.cache.get? key).isSome = true →
      Outcome r p .progress { r with cache := r.cache.insert key b }

theorem outcome_offer (r : Reassembler) (p : Packet) (now : Nat) :
    Outcome r p (r.offer p now).1 (r.offer p now).2 := by
  have hsame : ∀ stats, Outcome r p .dropped { r with stats } := fun stats =>
    .dropped stats (Nat.le_refl _) (fun _ h => h) fun _ => Nat.le_refl _
  by_cases hp : p.isFragment = true
  swap
  · rw [offer_of_not_isFragment hp]
    exact hsame _
  obtain ⟨key, f, hkey, hinfo⟩ := exists_key_of_isFragment hp
  have hle : (r.cache.erase key).size ≤ r.cache.size := r.cache.size_filter_le _
  have ho := offered_offer r now hkey hinfo
  generalize r.offer p now = o at ho ⊢
  obtain ⟨a, s⟩ := o
  cases ho with
  | denied hnone hfull => exact .denied _ hkey hnone hfull
  | refused => exact hsame _
  | @discarded b hadd hc hfail =>
    refine .dropped _ hle (fun l hl => ?_) fun hd => ?_
    · rw [Table.get?_erase, hl, ite_self]
    · cases hg : r.cache.get? key with
      | none => exact Nat.le_of_eq (Table.size_erase_of_get?_eq_none hg).symm
      | some held =>
        rw [buffer, hg] at hadd
        exact absurd ⟨key, f, held, b, hkey, hinfo, hg, hadd, hc, hfail⟩ hd
  | complete => exact .complete _ _ hle
  | started _ hlt => exact .started key _ hlt
  | progress hheld => exact .progress _ hheld

/-- No more datagrams are under reassembly than there are slots. -/
def Bounded (r : Reassembler) : Prop := r.cache.size ≤ r.limits.slots

theorem Outcome.limits (h : Outcome r p a s) : s.limits = r.limits := by
  cases h <;> rfl

theorem Outcome.waiting (h : Outcome r p a s) : s.waiting = r.waiting := by
  cases h <;> rfl

theorem Outcome.bounded (h : Outcome r p a s) (hb : r.Bounded) : s.Bounded := by
  cases h with
  | denied => exact hb
  | complete datagram stats hle => exact Nat.le_trans hle hb
  | dropped stats hle => exact Nat.le_trans hle hb
  | started key b hlt => exact Nat.le_trans (r.cache.size_insert_le key b) hlt
  | progress b hheld => exact Nat.le_trans (Nat.le_of_eq (Table.size_insert_of_isSome hheld b)) hb

/-- What is blocked stays so, together with a fragment that is denied, unless a
datagram is completed or has to be discarded. -/
theorem Outcome.blocked {Q : List Packet} (h : Outcome r p a s) (hq : Blocked Q r)
    (hd : ¬ r.Discards p) (ha : ∀ datagram, a ≠ .complete datagram) :
    Blocked (if a = .denied then Q ++ [p] else Q) s := by
  cases h with
  | denied stats hkey hnone hfull => exact hq.concat hkey hnone hfull
  | complete datagram => exact absurd rfl (ha datagram)
  | dropped stats hle hnone hroom =>
    rcases hq with rfl | ⟨hfull, hall⟩
    · exact .inl rfl
    · exact .inr ⟨Nat.le_trans hfull (hroom hd), fun q hq key hk => hnone key (hall q hq key hk)⟩
  | started key b hlt =>
    rcases hq with rfl | ⟨hfull, -⟩
    · exact .inl rfl
    · exact absurd hfull (Nat.not_le_of_lt hlt)
  | progress b hheld => exact hq.insert hheld

/-! ## A pass over the queue -/

theorem Pass.step_bounded (hb : pass.state.Bounded) (now : Nat) (p : Packet) :
    (pass.step now p).state.Bounded ∧ (pass.step now p).state.limits = pass.state.limits := by
  have ho := outcome_offer pass.state p now
  have hb' := ho.bounded hb
  have hl := ho.limits
  simp only [Pass.step]
  split <;> exact ⟨hb', hl⟩

/-- A fragment is kept, or it is taken off the queue and may complete a datagram. -/
theorem Pass.step_length (pass : Pass) (now : Nat) (p : Packet) :
    (pass.step now p).kept.length + (pass.step now p).completed.length ≤
      pass.kept.length + pass.completed.length + 1 := by
  simp only [Pass.step]
  split
  · simp only [List.length_append, List.length_singleton]
    omega
  · simp only [List.length_append, List.length_singleton]
    omega
  · exact Nat.le_succ _

/-- As long as a pass completes nothing, what it keeps is blocked. -/
theorem Pass.step_blocked (h : pass.completed = [] → Blocked pass.kept pass.state)
    (hd : ¬ pass.state.Discards p) :
    (pass.step now p).completed = [] → Blocked (pass.step now p).kept (pass.step now p).state := by
  have ho := outcome_offer pass.state p now
  intro hc
  simp only [Pass.step] at hc ⊢
  generalize pass.state.offer p now = s at ho hc ⊢
  obtain ⟨a, s⟩ := s
  cases a with
  | complete datagram => simp at hc
  | denied => exact ho.blocked (h hc) hd (by simp)
  | started => exact ho.blocked (h hc) hd (by simp)
  | progress => exact ho.blocked (h hc) hd (by simp)
  | dropped => exact ho.blocked (h hc) hd (by simp)

theorem Pass.foldl_bounded (now : Nat) (rest : List Packet) (hb : pass.state.Bounded) :
    (rest.foldl (Pass.step now) pass).state.Bounded ∧
      (rest.foldl (Pass.step now) pass).state.limits = pass.state.limits ∧
      (rest.foldl (Pass.step now) pass).kept.length +
          (rest.foldl (Pass.step now) pass).completed.length ≤
        pass.kept.length + pass.completed.length + rest.length := by
  induction rest generalizing pass with
  | nil => exact ⟨hb, rfl, Nat.le_refl _⟩
  | cons p rest ih =>
    obtain ⟨hb', hl⟩ := Pass.step_bounded hb now p
    obtain ⟨hb'', hl', hlen⟩ := ih hb'
    have hstep := pass.step_length now p
    refine ⟨hb'', hl'.trans hl, ?_⟩
    simp only [List.foldl_cons, List.length_cons] at hlen ⊢
    omega

theorem Pass.foldl_blocked (rest : List Packet)
    (h : pass.completed = [] → Blocked pass.kept pass.state)
    (hd : ∀ o ∈ Pass.offers now pass rest, ¬ o.1.Discards o.2) :
    (rest.foldl (Pass.step now) pass).completed = [] →
      Blocked (rest.foldl (Pass.step now) pass).kept
        (rest.foldl (Pass.step now) pass).state := by
  induction rest generalizing pass with
  | nil => exact h
  | cons p rest ih =>
    obtain ⟨hd, hrest⟩ := List.forall_mem_cons.mp hd
    exact ih (Pass.step_blocked h hd) hrest

/-! ## Passes over the queue -/

theorem retryPass_bounded (hb : r.Bounded) (now : Nat) :
    (r.retryPass now).2.Bounded ∧ (r.retryPass now).2.limits = r.limits ∧
      (r.retryPass now).2.waiting.length + (r.retryPass now).1.length ≤ r.waiting.length := by
  have hstart : ({ state := { r with waiting := [] } } : Pass).state.Bounded := hb
  obtain ⟨hb', hl, hlen⟩ := Pass.foldl_bounded now r.waiting hstart
  exact ⟨hb', hl, Nat.le_trans hlen (by simp)⟩

theorem retryPasses_bounded (now n : Nat) (hb : r.Bounded) :
    (r.retryPasses now n).2.Bounded ∧ (r.retryPasses now n).2.limits = r.limits := by
  induction n generalizing r with
  | zero => exact ⟨hb, rfl⟩
  | succ n ih =>
    obtain ⟨hb', hl, -⟩ := retryPass_bounded hb now
    simp only [retryPasses]
    split
    · exact ⟨hb', hl⟩
    · obtain ⟨hb'', hl'⟩ := ih hb'
      exact ⟨hb'', hl'.trans hl⟩

/-- Passes go on until one completes nothing, and what that one leaves is blocked. -/
theorem retryPasses_blocked (now n : Nat) (hb : r.Bounded) (hn : r.waiting.length ≤ n)
    (hd : ∀ o ∈ r.retryOffers now n, ¬ o.1.Discards o.2) :
    Blocked (r.retryPasses now n).2.waiting (r.retryPasses now n).2 := by
  induction n generalizing r with
  | zero => exact .inl (List.length_eq_zero_iff.mp (Nat.le_zero.mp hn))
  | succ n ih =>
    obtain ⟨hb', -, hlen⟩ := retryPass_bounded hb now
    obtain ⟨hpass, hrest⟩ := List.forall_mem_append.mp hd
    simp only [retryPasses]
    cases hc : (r.retryPass now).1 with
    | nil => exact Pass.foldl_blocked r.waiting (fun _ => .inl rfl) hpass hc
    | cons datagram more =>
      -- A fragment less waits, so one pass less is enough.
      rw [hc, List.length_cons] at hlen
      rw [hc] at hrest
      exact ih hb' (by omega) hrest

/-! ## Operations -/

theorem evict_state (r : Reassembler) (now : Nat)
    (h : ¬ (r.cache.toList.filter fun e => r.isExpired now e.2).isEmpty = true) :
    (r.evict now).2 = ((r.withoutExpired now).retry now).2 := by
  simp only [evict, if_neg h]
  rfl

theorem apply_bounded (op : Operation) (hb : r.Bounded) :
    (r.apply op).Bounded ∧ (r.apply op).limits = r.limits := by
  cases op with
  | process p now =>
    simp only [apply, process]
    split
    · exact ⟨hb, rfl⟩
    have ho := outcome_offer r p now
    have hl := ho.limits
    have hb' := ho.bounded hb
    obtain ⟨hb'', hl'⟩ := retryPasses_bounded now (r.offer p now).2.waiting.length hb'
    split
    · simp only [enqueue]
      split <;> exact ⟨hb', hl⟩
    · exact ⟨hb'', hl'.trans hl⟩
    · exact ⟨hb'', hl'.trans hl⟩
    · exact ⟨hb', hl⟩
    · exact ⟨hb', hl⟩
  | evict now =>
    simp only [apply]
    by_cases h : (r.cache.toList.filter fun e => r.isExpired now e.2).isEmpty = true
    · simp only [evict, if_pos h, and_true]
      exact hb
    · rw [evict_state r now h]
      have hb' : (r.withoutExpired now).Bounded := Nat.le_trans (r.cache.size_filter_le _) hb
      exact retryPasses_bounded now _ hb'
  | close => exact ⟨Nat.zero_le _, rfl⟩

/-- An operation keeps what waits blocked while no datagram has to be discarded. -/
theorem apply_blocked (op : Operation) (hb : r.Bounded) (hq : Blocked r.waiting r)
    (hd : r.Rebuilds op) : Blocked (r.apply op).waiting (r.apply op) := by
  cases op with
  | process p now =>
    simp only [Rebuilds, offers] at hd
    simp only [apply, process]
    split
    · exact hq
    rename_i hfrag
    rw [if_neg hfrag] at hd
    obtain ⟨hd, hrest⟩ := List.forall_mem_cons.mp hd
    have ho := outcome_offer r p now
    have hb' := ho.bounded hb
    have hw := ho.waiting
    generalize r.offer p now = s at ho hb' hw hrest ⊢
    obtain ⟨a, s⟩ := s
    simp only at ho hb' hw hrest ⊢
    cases a with
    | denied =>
      have hdenied := ho.blocked hq hd (by simp)
      simp only [enqueue]
      split
      · cases ho
        exact hq
      · rw [if_pos rfl, ← hw] at hdenied
        exact hdenied
    | complete datagram => exact retryPasses_blocked now _ hb' (Nat.le_refl _) hrest
    | started => exact retryPasses_blocked now _ hb' (Nat.le_refl _) hrest
    | progress =>
      rw [hw]
      exact ho.blocked hq hd (by simp)
    | dropped =>
      rw [hw]
      exact ho.blocked hq hd (by simp)
  | evict now =>
    simp only [Rebuilds, offers] at hd
    simp only [apply]
    by_cases h : (r.cache.toList.filter fun e => r.isExpired now e.2).isEmpty = true
    · simp only [evict, if_pos h]
      exact hq
    · rw [evict_state r now h]
      rw [if_neg h] at hd
      have hb' : (r.withoutExpired now).Bounded := Nat.le_trans (r.cache.size_filter_le _) hb
      exact retryPasses_blocked now _ hb' (Nat.le_refl _) hd
  | close => exact .inl rfl

theorem Reaches.blocked {limits : Limits} (h : Reaches limits r) :
    r.limits = limits ∧ r.Bounded ∧ Blocked r.waiting r := by
  induction h with
  | new => exact ⟨rfl, Nat.zero_le _, .inl rfl⟩
  | step op _ hd ih =>
    obtain ⟨hl, hb, hq⟩ := ih
    obtain ⟨hb', hl'⟩ := apply_bounded op hb
    exact ⟨hl'.trans hl, hb', apply_blocked op hb hq hd⟩

/-- **Admission is prompt** after every operation, whatever was asked before and
under whatever limits, as long as no completed datagram had to be discarded. -/
theorem Reaches.prompt {limits : Limits} (h : Reaches limits r) : r.limits = limits ∧ r.Prompt := by
  obtain ⟨hl, hb, hq⟩ := h.blocked
  refine ⟨hl, ?_⟩
  rcases hq with hq | ⟨hfull, hall⟩
  · exact .inl hq
  · exact .inr ⟨Nat.le_antisymm hb hfull, hall⟩

/-- A datagram that is discarded counts as dropped. -/
theorem Discards.offer_eq (h : r.Discards p) (now : Nat) : (r.offer p now).1 = .dropped := by
  obtain ⟨key, fragment, b, c, hkey, hinfo, hg, hadd, hc, hfail⟩ := h
  simp only [offer, hkey, hinfo, hg, Option.isNone_some, Bool.false_eq_true, false_and, if_false,
    Option.getD_some, hadd, hc, if_true, release]

/-- An operation in the course of which nothing is dropped discards no datagram. -/
theorem rebuilds_of_not_dropped {op : Operation}
    (h : ∀ o ∈ r.offers op, (o.1.offer o.2 0).1 ≠ .dropped) : r.Rebuilds op := fun o ho hd =>
  h o ho (hd.offer_eq 0)

/-- A fragment of a datagram from 2001:db8::1 to ff3e::8000:1, if it has a packet. -/
def fragmentV6? (identification next field : UInt8) (data : Bytes) : Option Packet :=
  (Packet.buildV6 #v[0x20, 1, 0x0d, 0xb8, 0, 0, 0, 0, 0, 0, 0, 0, 0, 0, 0, 1]
    #v[0xff, 0x3e, 0, 0, 0, 0, 0, 0, 0, 0, 0, 0, 0x80, 0, 0, 1] Protocol.fragment 16 none
    ([next, 0, 0, field, 0, 0, 0, identification] ++ data)).toOption

/-- The start of a datagram of sixteen octets, with an extension header of 2048 octets. -/
def overlongStart : Packet :=
  (fragmentV6? 1 0 1 [17, 0xff, 0, 0, 0, 0, 0, 0]).get (by decide +kernel)

/-- The end of that datagram. -/
def overlongEnd : Packet := (fragmentV6? 1 0 8 (.zeros 8)).get (by decide +kernel)

/-- The start of another datagram. -/
def otherStart : Packet := (fragmentV6? 2 17 1 [1, 2, 3, 4, 5, 6, 7, 8]).get (by decide +kernel)

/-- A fragment waits for the only slot while another datagram has it. -/
theorem otherStart_waits :
    let r := apply (.process otherStart 0)
      (apply (.process overlongStart 0) { limits := { slots := 1 } })
    r.waiting ≠ [] ∧ r.size = 1 ∧
      ∀ p ∈ r.waiting, ∀ key, FragmentKey.of? p = some key → r.cache.get? key = none := by
  intro r
  have hr : Reaches { slots := 1 } r :=
    (Reaches.new.step (.process overlongStart 0) (rebuilds_of_not_dropped (by decide +kernel))).step
      (.process otherStart 0) (rebuilds_of_not_dropped (by decide +kernel))
  have hw : r.waiting ≠ [] := by decide +kernel
  obtain ⟨hl, hprompt⟩ := hr.prompt
  obtain ⟨hs, hnone⟩ := hprompt.resolve_left hw
  exact ⟨hw, hs.trans (congrArg Limits.slots hl), hnone⟩

/-- Once the datagram is complete it has to be discarded. The slot is free then, and
still the fragment waits. -/
theorem not_prompt_of_discarded :
    ¬ ∀ (limits : Limits) (ops : List Operation),
      (ops.foldl (fun r op => r.apply op) ({ limits } : Reassembler)).Prompt := by
  intro h
  rcases h { slots := 1 } [.process overlongStart 0, .process otherStart 0,
    .process overlongEnd 0] with hw | ⟨hs, -⟩
  · exact absurd hw (by decide +kernel)
  · exact absurd hs (by decide +kernel)

end Reassembler

end MulticastTunnel.Reassembly
