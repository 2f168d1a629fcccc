import MulticastTunnel.Proofs.Reassembly.Offering
import MulticastTunnel.Proofs.Reassembly.Promptness

/-!
# The queue of a reassembler

An operation is a chain of offers with some bookkeeping of the queue between
them. Each fragment that waits, and the one that the operation takes, is
absorbed or dropped by one of the offers, or it waits on in its place. The
octets that wait are counted.
-/

namespace MulticastTunnel.Reassembly

open Keyed

/-- Whether the fragment is part of its datagram now. -/
def Admission.absorbs : Admission → Bool
  | .complete _ | .started | .progress => true
  | .denied | .dropped => false

namespace Reassembler

variable {r s t : Reassembler} {os os' : List (Reassembler × Packet)} {p : Packet} {now : Nat}
  {op : Operation} {given kept kept' : List Packet}

/-- The fragments that were absorbed when they were offered. -/
def absorbedIn (now : Nat) (os : List (Reassembler × Packet)) : List Packet :=
  (os.filter fun o => (o.1.offer o.2 now).1.absorbs).map (·.2)

/-- The fragments that were dropped when they were offered. -/
def droppedIn (now : Nat) (os : List (Reassembler × Packet)) : List Packet :=
  (os.filter fun o => (o.1.offer o.2 now).1 = .dropped).map (·.2)

@[simp] theorem absorbedIn_append (os os' : List (Reassembler × Packet)) :
    absorbedIn now (os ++ os') = absorbedIn now os ++ absorbedIn now os' := by
  simp [absorbedIn]

@[simp] theorem droppedIn_append (os os' : List (Reassembler × Packet)) :
    droppedIn now (os ++ os') = droppedIn now os ++ droppedIn now os' := by
  simp [droppedIn]

theorem absorbedIn_cons (o : Reassembler × Packet) (os : List (Reassembler × Packet)) :
    absorbedIn now (o :: os) = absorbedIn now [o] ++ absorbedIn now os :=
  absorbedIn_append [o] os

theorem droppedIn_cons (o : Reassembler × Packet) (os : List (Reassembler × Packet)) :
    droppedIn now (o :: os) = droppedIn now [o] ++ droppedIn now os :=
  droppedIn_append [o] os

/-! ## Chains of offers -/

/-- These offers lead from one state to another. Between them only the queue is written. -/
inductive Offers (now : Nat) : Reassembler → List (Reassembler × Packet) → Reassembler → Prop
  | refl (r : Reassembler) : Offers now r [] r
  | queue {r s : Reassembler} {os : List (Reassembler × Packet)} (waiting : List Packet)
      (octets : Nat) : Offers now { r with waiting, waitingOctets := octets } os s →
      Offers now r os s
  | offer {r s : Reassembler} {os : List (Reassembler × Packet)} {p : Packet} :
      Offers now (r.offer p now).2 os s → Offers now r ((r, p) :: os) s

theorem Offers.trans (h : Offers now r os s) (h' : Offers now s os' t) :
    Offers now r (os ++ os') t := by
  induction h with
  | refl r => exact h'
  | queue waiting octets _ ih => exact .queue waiting octets (ih h')
  | offer _ ih => exact .offer (ih h')

theorem Pass.offers_foldl (now : Nat) (rest : List Packet) (pass : Pass) :
    Offers now pass.state (Pass.offers now pass rest) (rest.foldl (Pass.step now) pass).state := by
  induction rest generalizing pass with
  | nil => exact .refl _
  | cons p rest ih =>
    obtain ⟨octets, hstate⟩ : ∃ octets, (pass.step now p).state =
        { (pass.state.offer p now).2 with waitingOctets := octets } := by
      simp only [Pass.step]
      split <;> exact ⟨_, rfl⟩
    refine .offer (.queue (pass.state.offer p now).2.waiting octets ?_)
    rw [← hstate]
    exact ih (pass.step now p)

theorem offers_retryPass (r : Reassembler) (now : Nat) :
    Offers now r (Pass.offers now { state := { r with waiting := [] } } r.waiting)
      (r.retryPass now).2 := by
  have hpass := Pass.offers_foldl now r.waiting { state := { r with waiting := [] } }
  have hend : Offers now
      (r.waiting.foldl (Pass.step now) { state := { r with waiting := [] } }).state
      [] (r.retryPass now).2 := .queue _ _ (.refl _)
  have hwhole := hpass.trans hend
  rw [List.append_nil] at hwhole
  exact .queue [] r.waitingOctets hwhole

theorem offers_retryPasses (r : Reassembler) (now n : Nat) :
    Offers now r (r.retryOffers now n) (r.retryPasses now n).2 := by
  induction n generalizing r with
  | zero => exact .refl r
  | succ n ih =>
    have hpass := offers_retryPass r now
    simp only [retryOffers, retryPasses]
    split
    · rwa [List.append_nil]
    · exact hpass.trans (ih _)

/-- The reassembler without what the operation drops before it offers anything. -/
def cleared (op : Operation) (r : Reassembler) : Reassembler :=
  match op with
  | .process _ _ => r
  | .evict now =>
    if (r.cache.toList.filter fun e => r.isExpired now e.2).isEmpty then r else r.withoutExpired now
  | .close => r.close

/-- The time of an operation. Nothing is offered when a reassembler closes. -/
def Operation.time : Operation → Nat
  | .process _ now => now
  | .evict now => now
  | .close => 0

/-- What an operation does is a chain of offers. -/
theorem offers_apply (op : Operation) (r : Reassembler) :
    Offers op.time (r.cleared op) (r.offers op) (r.apply op) := by
  cases op with
  | process p now =>
    simp only [cleared, offers, apply, process, Operation.time]
    split
    · exact .refl r
    refine .offer ?_
    generalize r.offer p now = o
    obtain ⟨a, s⟩ := o
    cases a with
    | denied =>
      simp only [enqueue]
      split
      · exact .refl s
      · exact .queue _ _ (.refl _)
    | complete d => exact offers_retryPasses s now s.waiting.length
    | started => exact offers_retryPasses s now s.waiting.length
    | progress => exact .refl s
    | dropped => exact .refl s
  | evict now =>
    simp only [cleared, offers, apply, Operation.time]
    by_cases h : (r.cache.toList.filter fun e => r.isExpired now e.2).isEmpty = true
    · simp only [evict, if_pos h]
      exact .refl r
    · -- The chain starts where the expired datagrams are gone.
      rw [evict_state r now h, if_neg h, if_neg h]
      exact offers_retryPasses _ now _
  | close => exact .refl r.close

/-! ## The queue -/

/-- Of the fragments that are given, each is absorbed or dropped by one of the
offers, or it is kept in its place. -/
structure Settled (now : Nat) (os : List (Reassembler × Packet)) (given kept : List Packet) :
    Prop where
  order : kept.Sublist given
  once : (absorbedIn now os ++ droppedIn now os ++ kept).Perm given

namespace Settled

theorem refl (now : Nat) (given : List Packet) : Settled now [] given given where
  order := List.Sublist.refl _
  once := List.Perm.refl _

/-- Further offers of what was kept. -/
theorem trans (h : Settled now os given kept) (h' : Settled now os' kept kept') :
    Settled now (os ++ os') given kept' where
  order := h'.order.trans h.order
  once := by
    -- The lists are merged out of order, so each fragment is counted on both sides.
    refine List.perm_iff_count.mpr fun q => ?_
    have hq := h.once.count_eq q
    have hq' := h'.once.count_eq q
    simp only [absorbedIn_append, droppedIn_append, List.count_append] at hq hq' ⊢
    omega

/-- Offers of fragments that stand behind the others. -/
theorem append {given' : List Packet} (h : Settled now os given kept)
    (h' : Settled now os' given' kept') :
    Settled now (os ++ os') (given ++ given') (kept ++ kept') where
  order := h.order.append h'.order
  once := by
    refine List.perm_iff_count.mpr fun q => ?_
    have hq := h.once.count_eq q
    have hq' := h'.once.count_eq q
    simp only [absorbedIn_append, droppedIn_append, List.count_append] at hq hq' ⊢
    omega

/-- A fragment that is denied is kept, any other one is absorbed or dropped. -/
theorem offer (r : Reassembler) (p : Packet) (now : Nat) :
    Settled now [(r, p)] [p] (if (r.offer p now).1 = .denied then [p] else []) := by
  cases h : (r.offer p now).1 <;>
    exact ⟨by simp, by simp [absorbedIn, droppedIn, h, Admission.absorbs]⟩

end Settled

/-- What a pass keeps of the fragments that it has yet to offer. -/
theorem Pass.settled_foldl (now : Nat) (rest : List Packet) (pass : Pass) :
    ∃ kept, (rest.foldl (Pass.step now) pass).kept = pass.kept ++ kept ∧
      Settled now (Pass.offers now pass rest) rest kept := by
  induction rest generalizing pass with
  | nil => exact ⟨[], (List.append_nil _).symm, .refl now []⟩
  | cons p rest ih =>
    obtain ⟨kept, hkept, hrest⟩ := ih (pass.step now p)
    have hstep : (pass.step now p).kept =
        pass.kept ++ if (pass.state.offer p now).1 = .denied then [p] else [] := by
      simp only [Pass.step]
      cases (pass.state.offer p now).1 <;> simp
    refine ⟨_, ?_, (Settled.offer pass.state p now).append hrest⟩
    rw [List.foldl_cons, hkept, hstep, List.append_assoc]

theorem settled_retryPass (r : Reassembler) (now : Nat) :
    Settled now (Pass.offers now { state := { r with waiting := [] } } r.waiting) r.waiting
      (r.retryPass now).2.waiting := by
  obtain ⟨kept, hkept, h⟩ := Pass.settled_foldl now r.waiting { state := { r with waiting := [] } }
  have hwaiting : (r.retryPass now).2.waiting = kept := hkept
  rwa [hwaiting]

theorem settled_retryPasses (r : Reassembler) (now n : Nat) :
    Settled now (r.retryOffers now n) r.waiting (r.retryPasses now n).2.waiting := by
  induction n generalizing r with
  | zero => exact .refl now r.waiting
  | succ n ih =>
    have hpass := settled_retryPass r now
    simp only [retryOffers, retryPasses]
    split
    · rwa [List.append_nil]
    · exact hpass.trans (ih _)

/-- The fragment that an operation takes, one that is not refused. -/
def taken (op : Operation) (r : Reassembler) : List Packet :=
  match op with
  | .process p now => if p.isFragment ∧ (r.process p now).1.isOk then [p] else []
  | _ => []

/-- The fragments that an operation throws away with the queue. -/
def thrownAway (op : Operation) (r : Reassembler) : List Packet :=
  match op with
  | .close => r.waiting
  | _ => []

def absorbed (op : Operation) (r : Reassembler) : List Packet := absorbedIn op.time (r.offers op)

def dropped (op : Operation) (r : Reassembler) : List Packet := droppedIn op.time (r.offers op)

/-- A fragment that is not denied is settled, and others may be offered after it. -/
theorem Settled.offer_then (h : Settled now os (r.offer p now).2.waiting kept)
    (hnot : (r.offer p now).1 ≠ .denied) : Settled now ((r, p) :: os) (r.waiting ++ [p]) kept := by
  have hfirst := (Settled.refl now r.waiting).append (Settled.offer r p now)
  rw [if_neg hnot, List.append_nil, ← (outcome_offer r p now).waiting] at hfirst
  have hall := hfirst.trans h
  rwa [(outcome_offer r p now).waiting] at hall

/-- What an operation does with the fragments that wait and the one that it takes. -/
theorem settled_apply (op : Operation) (r : Reassembler) :
    Settled op.time (r.offers op) (r.waiting ++ r.taken op)
      (r.thrownAway op ++ (r.apply op).waiting) := by
  cases op with
  | process p now =>
    simp only [offers, taken, thrownAway, apply, process, Operation.time, List.nil_append]
    by_cases hf : p.isFragment = true
    swap
    · simp only [hf, Bool.not_false, if_true, Bool.false_eq_true, false_and, if_false,
        List.append_nil]
      exact .refl now r.waiting
    simp only [hf, Bool.not_true, Bool.false_eq_true, if_false, true_and]
    have hwaiting := (outcome_offer r p now).waiting
    have hthen : ∀ os kept, Settled now os (r.offer p now).2.waiting kept →
        (r.offer p now).1 ≠ .denied → Settled now ((r, p) :: os) (r.waiting ++ [p]) kept :=
      fun _ _ h => h.offer_then
    generalize ho : r.offer p now = o at hwaiting hthen ⊢
    obtain ⟨a, s⟩ := o
    change s.waiting = r.waiting at hwaiting
    cases a with
    | denied =>
      simp only [enqueue]
      split
      · -- There is no room, so the fragment is refused.
        simp only [Except.map, Except.isOk, Except.toBool, Bool.false_eq_true, if_false,
          List.append_nil, hwaiting]
        exact ⟨List.Sublist.refl _, by simp [absorbedIn, droppedIn, ho, Admission.absorbs]⟩
      · have hfirst := (Settled.refl now r.waiting).append (Settled.offer r p now)
        rw [ho, if_pos rfl] at hfirst
        simp only [Except.map, Except.isOk, Except.toBool, if_true, hwaiting]
        exact hfirst
    | complete d => exact hthen _ _ (settled_retryPasses s now s.waiting.length) (by simp)
    | started => exact hthen _ _ (settled_retryPasses s now s.waiting.length) (by simp)
    | progress => exact hthen _ _ (.refl now s.waiting) (by simp)
    | dropped => exact hthen _ _ (.refl now s.waiting) (by simp)
  | evict now =>
    simp only [offers, taken, thrownAway, apply, Operation.time, List.append_nil, List.nil_append]
    by_cases h : (r.cache.toList.filter fun e => r.isExpired now e.2).isEmpty = true
    · simp only [evict, if_pos h]
      exact .refl now r.waiting
    · rw [evict_state r now h, if_neg h]
      exact settled_retryPasses (r.withoutExpired now) now _
  | close =>
    show Settled 0 [] (r.waiting ++ []) (r.waiting ++ [])
    exact .refl 0 _

/-! ## Octets of the queue -/

/-- The octets of the queue are counted, and are no more than the budget. -/
def Balanced (r : Reassembler) : Prop :=
  r.waitingOctets = totalLength r.waiting ∧ r.waitingOctets ≤ r.limits.budget

theorem waitingOctets_offer (r : Reassembler) (p : Packet) (now : Nat) :
    (r.offer p now).2.waitingOctets = r.waitingOctets := by
  have h := outcome_offer r p now
  generalize r.offer p now = o at h ⊢
  obtain ⟨a, s⟩ := o
  cases h <;> rfl

/-- The octets of a fragment are taken off when it is not kept. -/
theorem Pass.octets_step {pass : Pass} {rest : List Packet}
    (h : pass.state.waitingOctets = totalLength (pass.kept ++ p :: rest)) (now : Nat) :
    (pass.step now p).state.waitingOctets = totalLength ((pass.step now p).kept ++ rest) := by
  have hoffer := waitingOctets_offer pass.state p now
  simp only [totalLength_append, totalLength_cons] at h
  simp only [Pass.step]
  split
  · simp only [hoffer, totalLength_append, totalLength_cons, totalLength_nil]
    omega
  · simp only [hoffer, totalLength_append]
    omega
  · simp only [hoffer, totalLength_append]
    omega

/-- A pass takes the octets of each fragment off that it does not keep. -/
theorem Pass.octets_foldl (now : Nat) (rest : List Packet) (pass : Pass)
    (h : pass.state.waitingOctets = totalLength (pass.kept ++ rest)) :
    (rest.foldl (Pass.step now) pass).state.waitingOctets =
      totalLength (rest.foldl (Pass.step now) pass).kept := by
  induction rest generalizing pass with
  | nil => simpa using h
  | cons p rest ih => exact ih _ (Pass.octets_step h now)

theorem Settled.totalLength_le (h : Settled now os given kept) :
    totalLength kept ≤ totalLength given := by
  have := totalLength_perm h.once
  rw [totalLength_append] at this
  omega

theorem balanced_retryPasses (now n : Nat) (h : r.Balanced) (hb : r.Bounded) :
    (r.retryPasses now n).2.Balanced := by
  have hlim := (retryPasses_bounded now n hb).2
  have hle := (settled_retryPasses r now n).totalLength_le
  have hoctets : (r.retryPasses now n).2.waitingOctets =
      totalLength (r.retryPasses now n).2.waiting := by
    -- No budget from here on: between the passes the induction has the equation alone.
    clear hlim hle hb
    replace h := h.1
    induction n generalizing r with
    | zero => exact h
    | succ n ih =>
      have hpass : (r.retryPass now).2.waitingOctets = totalLength (r.retryPass now).2.waiting :=
        Pass.octets_foldl now r.waiting { state := { r with waiting := [] } } h
      simp only [retryPasses]
      split
      · exact hpass
      · exact ih hpass
  refine ⟨hoctets, ?_⟩
  rw [hlim, hoctets]
  exact Nat.le_trans hle (h.1 ▸ h.2)

theorem balanced_apply (op : Operation) (h : r.Balanced) (hb : r.Bounded) :
    (r.apply op).Balanced := by
  cases op with
  | process p now =>
    simp only [apply, process]
    split
    · exact h
    have ho := outcome_offer r p now
    have hbounded := ho.bounded hb
    have hbalanced : (r.offer p now).2.Balanced := by
      rw [Balanced, waitingOctets_offer, ho.waiting, ho.limits]
      exact h
    generalize r.offer p now = o at hbounded hbalanced ⊢
    obtain ⟨a, s⟩ := o
    obtain ⟨hoctets, hbudget⟩ : s.Balanced := hbalanced
    cases a with
    | denied =>
      simp only [enqueue]
      split
      · exact ⟨hoctets, hbudget⟩
      · rename_i hroom
        refine ⟨?_, Nat.le_of_not_lt hroom⟩
        simp only [hoctets, totalLength_append, totalLength_cons, totalLength_nil, Nat.add_zero]
    | complete d => exact balanced_retryPasses now _ ⟨hoctets, hbudget⟩ hbounded
    | started => exact balanced_retryPasses now _ ⟨hoctets, hbudget⟩ hbounded
    | progress => exact ⟨hoctets, hbudget⟩
    | dropped => exact ⟨hoctets, hbudget⟩
  | evict now =>
    simp only [apply]
    by_cases hempty : (r.cache.toList.filter fun e => r.isExpired now e.2).isEmpty = true
    · simp only [evict, if_pos hempty]
      exact h
    · rw [evict_state r now hempty]
      have hbounded : (r.withoutExpired now).Bounded := Nat.le_trans (r.cache.size_filter_le _) hb
      exact balanced_retryPasses (r := r.withoutExpired now) now _ h hbounded
  | close => exact ⟨rfl, Nat.zero_le _⟩

/-! ## What is offered is a fragment -/

theorem Pass.map_offers (now : Nat) (rest : List Packet) (pass : Pass) :
    (Pass.offers now pass rest).map (·.2) = rest := by
  induction rest generalizing pass with
  | nil => rfl
  | cons p rest ih => exact congrArg (p :: ·) (ih (pass.step now p))

/-- Only what waits is offered again. -/
theorem mem_waiting_of_retryOffers (now n : Nat) {o : Reassembler × Packet}
    (h : o ∈ r.retryOffers now n) : o.2 ∈ r.waiting := by
  induction n generalizing r with
  | zero => cases h
  | succ n ih =>
    simp only [retryOffers] at h
    rcases List.mem_append.mp h with h | h
    · have hmem := List.mem_map_of_mem (f := (·.2)) h
      rwa [Pass.map_offers] at hmem
    · split at h
      · cases h
      · exact (settled_retryPass r now).order.subset (ih h)

/-- Only fragments are offered. -/
theorem isFragment_of_mem_offers (h : ∀ p ∈ r.waiting, p.isFragment = true)
    {o : Reassembler × Packet} (ho : o ∈ r.offers op) : o.2.isFragment = true := by
  cases op with
  | process p now =>
    simp only [offers] at ho
    split at ho
    · cases ho
    rename_i hp
    have hw := (outcome_offer r p now).waiting
    rcases List.mem_cons.mp ho with rfl | ho
    · simpa using hp
    · split at ho
      · rename_i s heq
        rw [heq] at hw
        exact h _ (hw ▸ mem_waiting_of_retryOffers now _ ho)
      · rename_i s heq
        rw [heq] at hw
        exact h _ (hw ▸ mem_waiting_of_retryOffers now _ ho)
      · cases ho
  | evict now =>
    simp only [offers] at ho
    split at ho
    · cases ho
    · exact h _ (mem_waiting_of_retryOffers (r := r.withoutExpired now) now _ ho)
  | close => cases ho

theorem isFragment_of_mem_taken {q : Packet} (hq : q ∈ r.taken op) : q.isFragment = true := by
  cases op with
  | process p now =>
    simp only [taken] at hq
    split at hq
    · rename_i h
      cases List.mem_singleton.mp hq
      exact h.1
    · cases hq
  | evict now => cases hq
  | close => cases hq

end Reassembler

end MulticastTunnel.Reassembly
