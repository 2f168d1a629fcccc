import Mathlib.Algebra.BigOperators.Fin
import Mathlib.Order.Interval.Finset.Nat
import MulticastTunnel.Proofs.Checked.Buffers
import MulticastTunnel.Proofs.Reassembly.Accounting

/-!
# Fragments are processed safely

An offer changes a buffer that earlier fragments made. A fragment that leaves the queue was counted
when it came, so its octets can be taken off the count. The count itself fits a machine word as
long as the budget leaves room for one more packet, and under any budget while each octet that
waits is somewhere in memory.
-/

namespace MulticastTunnel.Checked

open Reassembly Reassembler

variable {ε : Type} {r : Reassembler} {log : List Packet} {p : Packet} {now n : Nat} {b c : Buffer}
  {key : FragmentKey} {pass : Pass} {rest queue : List Packet}

def keyOf (p : Packet) : Checked ε (Option FragmentKey) :=
  match p.fragmentInfo with
  | some fragment =>
    pure (some {
      source := p.source
      destination := p.destination
      identification := fragment.identification
      protocol := match p.family with
        | .ipv4 => some p.protocol
        | .ipv6 => none })
  | none => pure none

def freshBuffer (created : Nat) : Checked ε Buffer := do
  let holes ← freshHoles
  pure { data := [], holes, created, first := none, total := none }

/-- The buffer that a fragment goes into. -/
def bufferOf (r : Reassembler) (key : FragmentKey) (now : Nat) : Checked ε Buffer :=
  match r.cache.get? key with
  | some b => pure b
  | none => freshBuffer now

def release (r : Reassembler) (key : FragmentKey) (b : Buffer) :
    Checked ε (Admission × Reassembler) := do
  let assembled ← assemble b
  let r := { r with cache := r.cache.erase key }
  match assembled with
  | some (.ok datagram) =>
    pure (.complete datagram,
      { r with stats := { r.stats with completed := r.stats.completed + 1 } })
  | _ => pure (.dropped, r.countDropped)

def offer (r : Reassembler) (p : Packet) (now : Nat) : Checked ε (Admission × Reassembler) := do
  let key ← keyOf p
  match key, p.fragmentInfo with
  | some key, some fragment => do
    let held := r.cache.get? key
    if held.isNone ∧ r.limits.slots ≤ r.cache.size then
      pure (.denied, { r with stats := { r.stats with denied := r.stats.denied + 1 } })
    else
      let buffer ← bufferOf r key now
      let added ← addFragment buffer p fragment
      match added with
      | none => pure (.dropped, r.countDropped)
      | some b =>
        if b.isComplete then release r key b
        else
          pure (if held.isNone then .started else .progress,
            { r with cache := r.cache.insert key b })
  | _, _ => pure (.dropped, r)

/-- A fragment that waits is offered again. -/
def passStep (now : Nat) (pass : Pass) (p : Packet) : Checked ε Pass := do
  let (admission, state) ← offer pass.state p now
  match admission with
  | .denied => pure { pass with state, kept := pass.kept ++ [p] }
  | .complete d => do
    let waitingOctets ← minus state.waitingOctets p.length
    pure { pass with
      state := { state with waitingOctets }
      completed := pass.completed ++ [d] }
  | _ => do
    let waitingOctets ← minus state.waitingOctets p.length
    pure { pass with state := { state with waitingOctets } }

def passOver (now : Nat) : List Packet → Pass → Checked ε Pass
  | [], pass => pure pass
  | p :: rest, pass => do
    let pass ← passStep now pass p
    passOver now rest pass

def retryPass (r : Reassembler) (now : Nat) : Checked ε (List Packet × Reassembler) := do
  let pass ← passOver now r.waiting { state := { r with waiting := [] } }
  pure (pass.completed, { pass.state with waiting := pass.kept })

/-- Passes over the queue until one completes nothing, as many as there is fuel for. -/
def retry (now : Nat) : (fuel : Nat) → Reassembler → Checked ε (List Packet × Reassembler)
  | 0, r => if r.waiting.isEmpty then pure ([], r) else .trapped .endless
  | fuel + 1, r =>
    if r.waiting.isEmpty then pure ([], r)
    else do
      let (completed, r) ← retryPass r now
      if completed.isEmpty then pure ([], r)
      else
        let (more, r) ← retry now fuel r
        pure (completed ++ more, r)

def enqueue (r : Reassembler) (p : Packet) :
    Checked ε (Except ReassemblyError Unit × Reassembler) := do
  let waitingOctets ← word (r.waitingOctets + p.length)
  if r.limits.budget < waitingOctets then
    pure (.error (.budgetExceeded r.waitingOctets p.length r.limits.budget), r)
  else pure (.ok (), { r with waiting := r.waiting ++ [p], waitingOctets })

def process (r : Reassembler) (p : Packet) (now : Nat) :
    Checked ε (Except ReassemblyError (List Packet) × Reassembler) :=
  if !p.isFragment then pure (.ok [p], r)
  else do
    let (admission, r) ← offer r p now
    match admission with
    | .denied => do
      let (result, r) ← enqueue r p
      pure (result.map fun _ => [], r)
    | .complete d => do
      let (more, r) ← retry now r.waiting.length r
      pure (.ok (d :: more), r)
    | .started => do
      let (completed, r) ← retry now r.waiting.length r
      pure (.ok completed, r)
    | .progress | .dropped => pure (.ok [], r)

/-! ## One offer -/

theorem keyOf_eq (p : Packet) :
    (keyOf p : Checked ε (Option FragmentKey)) = .value (FragmentKey.of? p) := by
  rw [keyOf, FragmentKey.of?]
  cases p.fragmentInfo <;> rfl

theorem freshBuffer_eq (now : Nat) :
    (freshBuffer now : Checked ε Buffer) = .value (.fresh now) := by
  rw [freshBuffer, freshHoles_eq]
  rfl

theorem bufferOf_eq (r : Reassembler) (key : FragmentKey) (now : Nat) :
    (bufferOf r key now : Checked ε Buffer) = .value (r.buffer key now) := by
  rw [bufferOf, Reassembler.buffer]
  cases r.cache.get? key with
  | some b => rfl
  | none => exact freshBuffer_eq now

theorem release_eq {A : List Arrival} (h : Keeps A b) :
    (release r key b : Checked ε (Admission × Reassembler)) = .value (r.release key b) := by
  rw [release, assemble_eq h, value_bind, Reassembler.release]
  rcases b.assemble? with _ | _ | _ <;> rfl

/-- An offer is safe where earlier fragments made all buffers. -/
theorem offer_eq (h : Filled log r) (p : Packet) (now : Nat) :
    (offer r p now : Checked ε (Admission × Reassembler)) = .value (r.offer p now) := by
  by_cases hp : p.isFragment = true
  swap
  · obtain ⟨hkey, hinfo⟩ := key_of_not_isFragment hp
    rw [offer_of_not_isFragment hp, offer, keyOf_eq, value_bind, hkey, hinfo]
    rfl
  obtain ⟨key, f, hkey, hinfo⟩ := exists_key_of_isFragment hp
  obtain ⟨as, hmade⟩ := h.buffer key now
  obtain ⟨created, haccepted⟩ := hmade.accepted
  have hkeeps : Keeps as.reverse (r.buffer key now) := by
    have := keeps_offerAll created as
    rwa [haccepted] at this
  rw [offer, keyOf_eq, value_bind, hkey, hinfo, Reassembler.offer, hkey, hinfo]
  simp only [bufferOf_eq, value_bind, addFragment_eq hinfo hkeeps]
  split
  · rfl
  show _ = value (match (r.buffer key now).add? p f with
    | none => _
    | some b => _)
  cases hadd : (r.buffer key now).add? p f with
  | none => rfl
  | some b =>
    have hkeeps' := hkeeps.add? (p := ⟨p, f⟩) hadd
    simp only
    split
    · exact release_eq hkeeps'
    · rfl

/-! ## The queue -/

/-- Earlier fragments made all buffers, and the octets of the fragments in `queue` are counted. -/
structure Sound (queue : List Packet) (r : Reassembler) : Prop where
  filled : ∃ log, Filled log r
  octets : r.waitingOctets = totalLength queue
  fragments : ∀ p ∈ queue, p.isFragment = true
  bounded : r.Bounded

theorem sound_run (limits : Limits) (ops : List Operation) :
    Sound (run limits ops).waiting (run limits ops) :=
  have h := books_run limits ops
  ⟨⟨_, h.buffers⟩, h.octets, h.isFragment, h.slots⟩

theorem Sound.requeue (h : Sound queue r) (waiting : List Packet) :
    Sound queue { r with waiting } := ⟨h.filled, h.octets, h.fragments, h.bounded⟩

theorem Sound.offer (h : Sound queue r) (hp : p.isFragment = true) (now : Nat) :
    Sound queue (r.offer p now).2 where
  filled := h.filled.imp' _ fun _ hlog => hlog.offer hp now
  octets := (waitingOctets_offer r p now).trans h.octets
  fragments := h.fragments
  bounded := (outcome_offer r p now).bounded h.bounded

/-- A fragment that is offered again leaves the others counted. -/
theorem Sound.step (h : Sound (pass.kept ++ p :: rest) pass.state) (now : Nat) :
    Sound ((pass.step now p).kept ++ rest) (pass.step now p).state := by
  have hp : p.isFragment = true := h.fragments p (by simp)
  have hoffer := h.offer hp now
  obtain ⟨⟨octets, hstate⟩, hkept⟩ : (∃ octets, (pass.step now p).state =
      { (pass.state.offer p now).2 with waitingOctets := octets }) ∧
      (pass.step now p).kept.Sublist (pass.kept ++ [p]) := by
    simp only [Pass.step]
    split <;> exact ⟨⟨_, rfl⟩, by simp⟩
  refine ⟨?_, Pass.octets_step h.octets now, fun q hq => ?_, ?_⟩
  · rw [hstate]
    exact hoffer.filled
  · refine h.fragments q ?_
    rw [← List.singleton_append, ← List.append_assoc]
    exact (hkept.append_right rest).subset hq
  · rw [hstate]
    exact hoffer.bounded

theorem passStep_eq (h : Sound (pass.kept ++ p :: rest) pass.state) (now : Nat) :
    (passStep now pass p : Checked ε Pass) = .value (pass.step now p) := by
  obtain ⟨log, hlog⟩ := h.filled
  have hoctets := h.octets
  rw [← waitingOctets_offer pass.state p now] at hoctets
  rw [passStep, offer_eq hlog, value_bind, Pass.step]
  generalize pass.state.offer p now = o at hoctets ⊢
  obtain ⟨a, s⟩ := o
  have hcounted : p.length ≤ s.waitingOctets := by
    simp only [totalLength_append, totalLength_cons] at hoctets
    omega
  cases a <;> simp only [minus_eq hcounted, value_bind, pure_eq]

/-- A pass over the queue, from what it did so far. -/
theorem passOver_eq (h : Sound (pass.kept ++ rest) pass.state) (now : Nat) :
    (passOver now rest pass : Checked ε Pass) = .value (rest.foldl (Pass.step now) pass) ∧
      Sound (rest.foldl (Pass.step now) pass).kept (rest.foldl (Pass.step now) pass).state := by
  induction rest generalizing pass with
  | nil =>
    rw [List.append_nil] at h
    exact ⟨rfl, h⟩
  | cons p rest ih =>
    rw [passOver, passStep_eq h, value_bind]
    exact ih (h.step now)

theorem retryPass_eq (h : Sound r.waiting r) (now : Nat) :
    (retryPass r now : Checked ε (List Packet × Reassembler)) = .value (r.retryPass now) ∧
      Sound (r.retryPass now).2.waiting (r.retryPass now).2 := by
  obtain ⟨hover, hsound⟩ :=
    @passOver_eq ε { state := { r with waiting := [] } } r.waiting (h.requeue []) now
  refine ⟨?_, hsound.requeue _⟩
  rw [retryPass, hover]
  rfl

/-- Passes come to their end: each but the last takes a fragment off the queue. -/
theorem retry_eq (h : Sound r.waiting r) (hn : r.waiting.length ≤ n) (now : Nat) :
    (retry now n r : Checked ε (List Packet × Reassembler)) = .value (r.retryPasses now n) := by
  induction n generalizing r with
  | zero =>
    have hnil := List.length_eq_zero_iff.mp (Nat.le_zero.mp hn)
    rw [retry, hnil]
    rfl
  | succ n ih =>
    obtain ⟨hpass, hsound⟩ := @retryPass_eq ε r h now
    have hlen := (retryPass_bounded h.bounded now).2.2
    rw [retry, retryPasses, hpass, value_bind]
    split
    · next hempty =>
      -- A pass over an empty queue does nothing.
      have hnone : r.retryPass now = ([], r) := by
        obtain ⟨limits, cache, waiting, octets, stats⟩ := r
        obtain rfl : waiting = [] := List.isEmpty_iff.mp hempty
        rfl
      rw [hnone]
      rfl
    generalize r.retryPass now = o at hsound hlen ⊢
    obtain ⟨completed, s⟩ := o
    cases completed with
    | nil => rfl
    | cons d ds =>
      have hless : s.waiting.length ≤ n := by
        simp only [List.length_cons] at hlen
        omega
      simp only [List.isEmpty_cons, Bool.false_eq_true, if_false, ih hsound hless, value_bind,
        pure_eq]

/-! ## Room for the octets that wait -/

/-- Each octet of the packets lies at an address of its own. A machine word holds the address,
which is not zero. -/
def Resident (ps : List Packet) : Prop :=
  ∃ address : (Σ i : Fin ps.length, Fin ps[i].length) → Nat,
    Function.Injective address ∧ ∀ octet, 0 < address octet ∧ address octet < wordSize

theorem card_octets (ps : List Packet) :
    Fintype.card (Σ i : Fin ps.length, Fin ps[i].length) = totalLength ps := by
  simp only [Fintype.card_sigma, Fintype.card_fin]
  exact Fin.sum_univ_fun_getElem ps (·.length)

/-- There are fewer octets in memory than words. -/
theorem totalLength_lt_of_resident {ps : List Packet} (h : Resident ps) :
    totalLength ps < wordSize := by
  obtain ⟨address, hinjective, hbounds⟩ := h
  have hle := Finset.card_le_card_of_injOn (s := Finset.univ) (t := Finset.Ioo 0 wordSize) address
    (fun octet _ => Finset.mem_coe.mpr (Finset.mem_Ioo.mpr (hbounds octet))) hinjective.injOn
  rw [Finset.card_univ, card_octets, Nat.card_Ioo] at hle
  have hword : wordSize = 18446744073709551616 := rfl
  omega

/-- Packets that are short enough may lie one behind the other. -/
theorem resident_of_totalLength_lt {ps : List Packet} (h : totalLength ps < wordSize) :
    Resident ps := by
  let index := Fintype.equivFinOfCardEq (card_octets ps)
  refine ⟨fun octet => 1 + index octet, fun octet octet' heq => ?_, fun octet => ?_⟩
  · exact index.injective (Fin.ext (Nat.add_left_cancel heq))
  · have hlt := (index octet).isLt
    show 0 < 1 + (index octet).val ∧ 1 + (index octet).val < wordSize
    omega

/-- The octets of the queue and of one more packet fit a word if the budget leaves room for it, or
if they are all in memory. -/
theorem octets_lt (limits : Limits) (ops : List Operation) (p : Packet)
    (h : limits.budget + 65575 < wordSize ∨ Resident ((run limits ops).waiting ++ [p])) :
    (run limits ops).waitingOctets + p.length < wordSize := by
  have hbooks := books_run limits ops
  rcases h with h | h
  · have hbudget := hbooks.budget
    have hlength := p.length_le
    rw [hbooks.sameLimits] at hbudget
    rw [Packet.length]
    omega
  · have htotal := totalLength_lt_of_resident h
    rwa [totalLength_append, totalLength_cons, totalLength_nil, ← hbooks.octets] at htotal

theorem enqueue_eq (h : r.waitingOctets + p.length < wordSize) :
    (enqueue r p : Checked ε (Except ReassemblyError Unit × Reassembler)) =
      .value (r.enqueue p) := by
  rw [enqueue, word_eq h, value_bind, Reassembler.enqueue]
  split <;> rfl

theorem process_eq (h : Sound r.waiting r) (hroom : r.waitingOctets + p.length < wordSize)
    (now : Nat) :
    (process r p now : Checked ε (Except ReassemblyError (List Packet) × Reassembler)) =
      .value (r.process p now) := by
  rw [process, Reassembler.process]
  split
  · rfl
  next hp =>
  have hp : p.isFragment = true := by simpa using hp
  obtain ⟨log, hlog⟩ := h.filled
  have hoffer := h.offer hp now
  have hwaiting := (outcome_offer r p now).waiting
  have hoctets := waitingOctets_offer r p now
  rw [offer_eq hlog, value_bind]
  generalize r.offer p now = o at hoffer hwaiting hoctets ⊢
  obtain ⟨a, s⟩ := o
  simp only at hoffer hwaiting hoctets
  rw [← hwaiting] at hoffer
  cases a with
  | denied =>
    simp only [enqueue_eq (r := s) (by rwa [hoctets]), value_bind, pure_eq]
  | complete d => simp only [retry_eq hoffer (Nat.le_refl _), value_bind, pure_eq]; rfl
  | started => simp only [retry_eq hoffer (Nat.le_refl _), value_bind, pure_eq]; rfl
  | progress => rfl
  | dropped => rfl

end MulticastTunnel.Checked
