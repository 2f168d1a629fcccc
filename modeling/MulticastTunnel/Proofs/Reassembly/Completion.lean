import Mathlib.Algebra.GroupWithZero.Nat
import MulticastTunnel.Proofs.Reassembly.Admission

/-!
# Completion of datagrams

Fragments of many datagrams, in any order and at any times. Each is absorbed
or waits: `Account` keeps the books of both, `Blocked` says why fragments wait,
for all slots are taken and none by their own datagrams. So when all fragments
came, nothing waits, and every datagram was handed out once.
-/

namespace MulticastTunnel.Reassembly

open Keyed

variable {ds : List Fragmented} {d : Fragmented} {A Q out : List Packet} {p : Packet}
  {r : Reassembler}

/-- The octets of packets, headers included. -/
def totalLength (ps : List Packet) : Nat := (ps.map (·.length)).sum

@[simp] theorem totalLength_nil : totalLength [] = 0 := rfl

@[simp] theorem totalLength_append (ps qs : List Packet) :
    totalLength (ps ++ qs) = totalLength ps + totalLength qs := by
  simp [totalLength]

@[simp] theorem totalLength_cons (p : Packet) (ps : List Packet) :
    totalLength (p :: ps) = p.length + totalLength ps := by
  simp [totalLength]

theorem totalLength_perm {ps qs : List Packet} (h : ps.Perm qs) :
    totalLength ps = totalLength qs := (h.map _).sum_nat

/-- The fragments `A` were absorbed and the fragments `Q` wait; the datagrams
`out` were handed out. -/
structure Account (ds : List Fragmented) (A Q out : List Packet) (r : Reassembler) : Prop where
  nodup : (A ++ Q).Nodup
  known : ∀ p ∈ Q, ∃ d ∈ ds, p ∈ d.fragments
  absorbs : Absorbs ds A r.cache
  octets : r.waitingOctets = totalLength Q
  done : ∃ done : List Fragmented, done.Nodup ∧ (∀ d, d ∈ done ↔ d ∈ ds ∧ d.Complete A) ∧
    out.Perm (done.map (·.whole))

/-- Fragments wait only while all slots are taken, and none by their datagrams. -/
def Blocked (Q : List Packet) (r : Reassembler) : Prop :=
  Q = [] ∨ r.limits.slots ≤ r.cache.size ∧
    ∀ p ∈ Q, ∀ key, FragmentKey.of? p = some key → r.cache.get? key = none

/-! ## One fragment -/

/-- The datagrams completed so far, when a fragment comes that completes its own. -/
theorem done_of_complete (hs : Distinct ds) (hd : d ∈ ds) (hp : p ∈ d.fragments) (hA : p ∉ A)
    (hc : d.Complete (p :: A))
    (h : ∃ done : List Fragmented, done.Nodup ∧ (∀ d, d ∈ done ↔ d ∈ ds ∧ d.Complete A) ∧
      out.Perm (done.map (·.whole))) :
    ∃ done : List Fragmented, done.Nodup ∧ (∀ d, d ∈ done ↔ d ∈ ds ∧ d.Complete (p :: A)) ∧
      (out ++ [d.whole]).Perm (done.map (·.whole)) := by
  obtain ⟨done, hnodup, hmem, hperm⟩ := h
  have hnot : d ∉ done := fun hm => hA (((hmem d).mp hm).2 p hp)
  refine ⟨d :: done, List.nodup_cons.mpr ⟨hnot, hnodup⟩, ?_, ?_⟩
  · intro e
    rw [List.mem_cons, hmem]
    by_cases hne : e = d
    · subst hne
      exact iff_of_true (.inl rfl) ⟨hd, hc⟩
    · rw [or_iff_right hne]
      apply and_congr_right
      intro he
      rw [complete_cons_of_ne hs hd he hne hp]
  · exact List.perm_append_comm.trans (hperm.cons d.whole)

/-- A fragment that completes nothing leaves them as they are. -/
theorem done_of_not_complete (hs : Distinct ds) (hd : d ∈ ds) (hp : p ∈ d.fragments)
    (hc : ¬ d.Complete (p :: A))
    (h : ∃ done : List Fragmented, done.Nodup ∧ (∀ d, d ∈ done ↔ d ∈ ds ∧ d.Complete A) ∧
      out.Perm (done.map (·.whole))) :
    ∃ done : List Fragmented, done.Nodup ∧ (∀ d, d ∈ done ↔ d ∈ ds ∧ d.Complete (p :: A)) ∧
      out.Perm (done.map (·.whole)) := by
  obtain ⟨done, hnodup, hmem, hperm⟩ := h
  refine ⟨done, hnodup, fun e => ?_, hperm⟩
  rw [hmem]
  apply and_congr_right
  intro he
  by_cases hne : e = d
  · subst hne
    exact iff_of_false (fun h => hc fun q hq => List.mem_cons_of_mem p (h q hq)) hc
  · rw [complete_cons_of_ne hs hd he hne hp]

/-- Room that is taken stays taken while a datagram that has a slot goes on. -/
theorem Blocked.insert {b : Buffer} {key : FragmentKey} (h : Blocked Q r)
    (hheld : (r.cache.get? key).isSome = true) :
    Blocked Q { r with cache := r.cache.insert key b } := by
  rcases h with rfl | ⟨hfull, hnone⟩
  · exact .inl rfl
  · refine .inr ⟨by simpa only [Table.size_insert_of_isSome hheld] using hfull, fun p hp k hk => ?_⟩
    have hk' := hnone p hp k hk
    show (r.cache.insert key b).get? k = none
    rw [Table.get?_insert, if_neg, hk']
    rintro rfl
    rw [hk'] at hheld
    cases hheld

theorem Blocked.concat {key : FragmentKey} (h : Blocked Q r) (hp : FragmentKey.of? p = some key)
    (hnone : r.cache.get? key = none) (hfull : r.limits.slots ≤ r.cache.size) :
    Blocked (Q ++ [p]) r := by
  refine .inr ⟨hfull, fun q hq k hk => ?_⟩
  rcases List.mem_append.mp hq with hq | hq
  · rcases h with rfl | ⟨-, hall⟩
    · cases hq
    · exact hall q hq k hk
  · cases List.mem_singleton.mp hq
    rw [hp, Option.some.injEq] at hk
    rw [← hk, hnone]

/-! ## A pass over the queue -/

/-- Books in the midst of a pass, before the fragments `rest` are offered again. -/
structure Passing (ds : List Fragmented) (A rest out : List Packet) (pass : Reassembler.Pass) :
    Prop where
  account : Account ds A (pass.kept ++ rest) (out ++ pass.completed) pass.state
  blocked : pass.completed = [] → Blocked pass.kept pass.state

/-- One fragment is offered again: it is kept or absorbed. -/
theorem Passing.step {pass : Reassembler.Pass} {rest : List Packet} (hs : Distinct ds)
    (h : Passing ds A (p :: rest) out pass) (now : Nat) :
    ∃ A', Passing ds A' rest out (pass.step now p) ∧
      (A' ++ ((pass.step now p).kept ++ rest)).Perm (A ++ (pass.kept ++ p :: rest)) ∧
      (pass.step now p).state.limits = pass.state.limits ∧
      (pass.step now p).kept.length + (pass.step now p).completed.length ≤
        pass.kept.length + pass.completed.length + 1 := by
  obtain ⟨⟨hnodup, hknown, habs, hoctets, hdone⟩, hblocked⟩ := h
  obtain ⟨d, hd, hp⟩ := hknown p (by simp)
  have hA : p ∉ A := fun hm => (List.nodup_append.mp hnodup).2.2 p hm p (by simp) rfl
  have hperm : (p :: A ++ (pass.kept ++ rest)).Perm (A ++ (pass.kept ++ p :: rest)) := by
    rw [List.cons_append, ← List.append_assoc, ← List.append_assoc]
    exact List.perm_middle.symm
  have hknown' : ∀ q ∈ pass.kept ++ rest, ∃ d ∈ ds, q ∈ d.fragments := fun q hq =>
    hknown q (by simp only [List.mem_append, List.mem_cons] at hq ⊢; tauto)
  have hoctets' : pass.state.waitingOctets - p.length = totalLength (pass.kept ++ rest) := by
    rw [hoctets]
    simp only [totalLength_append, totalLength_cons]
    omega
  simp only [Reassembler.Pass.step]
  rcases offer_cases habs hs hd hp hA now with
    ⟨hnone, hfull, stats, hoffer⟩ | ⟨hc, habs', stats, hoffer⟩ | ⟨hc, hheld, b, habs', hoffer⟩
  · -- Denied: the fragment is kept behind the others.
    rw [hoffer]
    refine ⟨A, ⟨⟨?_, ?_, habs, ?_, hdone⟩, ?_⟩, ?_, rfl, ?_⟩
    · simpa using hnodup
    · simpa using hknown
    · simpa using hoctets
    · intro he
      exact (hblocked he).concat (Fragmented.key_eq hp) hnone hfull
    · simp
    · simp only [List.length_append, List.length_singleton]
      omega
  · -- Complete: its datagram is handed out and a slot is free.
    rw [hoffer]
    refine ⟨p :: A, ⟨⟨hperm.nodup_iff.mpr hnodup, hknown', habs', hoctets', ?_⟩, fun he => ?_⟩,
      hperm, rfl, ?_⟩
    · rw [← List.append_assoc]
      exact done_of_complete hs hd hp hA hc hdone
    · simp at he
    · simp only [List.length_append, List.length_singleton]
      omega
  · -- Absorbed: started in a free slot, or one more of a datagram that has its slot.
    have hdone' := done_of_not_complete hs hd hp hc hdone
    have hb : pass.completed = [] →
        Blocked pass.kept { pass.state with cache := pass.state.cache.insert d.key b } := by
      intro he
      rcases hheld with hheld | hfree
      · exact (hblocked he).insert hheld
      · rcases hblocked he with hk | ⟨hfull, -⟩
        · exact .inl hk
        · exact absurd hfull (Nat.not_le_of_lt hfree)
    rw [hoffer]
    have hnodup' := hperm.nodup_iff.mpr hnodup
    cases (pass.state.cache.get? d.key).isNone with
    | true =>
      exact ⟨p :: A, ⟨⟨hnodup', hknown', habs', hoctets', hdone'⟩, hb⟩, hperm, rfl, Nat.le_succ _⟩
    | false =>
      exact ⟨p :: A, ⟨⟨hnodup', hknown', habs', hoctets', hdone'⟩, hb⟩, hperm, rfl, Nat.le_succ _⟩

theorem Passing.run {pass : Reassembler.Pass} {rest : List Packet} (hs : Distinct ds)
    (h : Passing ds A rest out pass) (now : Nat) :
    ∃ A', Passing ds A' [] out (rest.foldl (Reassembler.Pass.step now) pass) ∧
      (A' ++ (rest.foldl (Reassembler.Pass.step now) pass).kept).Perm
        (A ++ (pass.kept ++ rest)) ∧
      (rest.foldl (Reassembler.Pass.step now) pass).state.limits = pass.state.limits ∧
      (rest.foldl (Reassembler.Pass.step now) pass).kept.length +
          (rest.foldl (Reassembler.Pass.step now) pass).completed.length ≤
        pass.kept.length + pass.completed.length + rest.length := by
  induction rest generalizing A pass with
  | nil => exact ⟨A, h, by rw [List.append_nil]; rfl, rfl, Nat.le_refl _⟩
  | cons p rest ih =>
    obtain ⟨A', h', hperm, hlim, hlen⟩ := h.step hs now
    obtain ⟨A'', h'', hperm', hlim', hlen'⟩ := ih h'
    refine ⟨A'', h'', hperm'.trans hperm, hlim'.trans hlim, ?_⟩
    simp only [List.foldl_cons, List.length_cons] at hlen' ⊢
    omega

/-- A pass keeps the books. Unless it completes a datagram, what it leaves
waiting is blocked. -/
theorem Account.retryPass (hs : Distinct ds) (h : Account ds A r.waiting out r) (now : Nat) :
    ∃ A', Account ds A' (r.retryPass now).2.waiting (out ++ (r.retryPass now).1)
        (r.retryPass now).2 ∧
      (A' ++ (r.retryPass now).2.waiting).Perm (A ++ r.waiting) ∧
      (r.retryPass now).2.limits = r.limits ∧
      (r.retryPass now).2.waiting.length + (r.retryPass now).1.length ≤ r.waiting.length ∧
      ((r.retryPass now).1 = [] → Blocked (r.retryPass now).2.waiting (r.retryPass now).2) := by
  have hpass : Passing ds A r.waiting out { state := { r with waiting := [] } } := by
    refine ⟨⟨?_, ?_, h.absorbs, ?_, ?_⟩, fun _ => .inl rfl⟩
    · exact h.nodup
    · exact h.known
    · exact h.octets
    · rw [List.append_nil]
      exact h.done
  obtain ⟨A', ⟨hacc, hblocked⟩, hperm, hlim, hlen⟩ := hpass.run hs now
  rw [List.append_nil] at hacc
  refine ⟨A', ⟨hacc.nodup, hacc.known, hacc.absorbs, hacc.octets, hacc.done⟩, hperm, hlim, ?_,
    hblocked⟩
  exact Nat.le_trans hlen (by simp)

/-- Passes over the queue end with what still waits blocked. -/
theorem Account.retryPasses (hs : Distinct ds) (now n : Nat) (h : Account ds A r.waiting out r)
    (hn : r.waiting.length ≤ n) :
    ∃ A', Account ds A' (r.retryPasses now n).2.waiting (out ++ (r.retryPasses now n).1)
        (r.retryPasses now n).2 ∧
      (A' ++ (r.retryPasses now n).2.waiting).Perm (A ++ r.waiting) ∧
      (r.retryPasses now n).2.limits = r.limits ∧
      Blocked (r.retryPasses now n).2.waiting (r.retryPasses now n).2 := by
  induction n generalizing A out r with
  | zero =>
    have hw : r.waiting = [] := List.length_eq_zero_iff.mp (Nat.le_zero.mp hn)
    refine ⟨A, ?_, List.Perm.refl _, rfl, .inl hw⟩
    show Account ds A r.waiting (out ++ []) r
    rwa [List.append_nil]
  | succ n ih =>
    obtain ⟨A', hacc, hperm, hlim, hlen, hblocked⟩ := h.retryPass hs now
    simp only [Reassembler.retryPasses]
    cases hc : (r.retryPass now).1 with
    | nil =>
      rw [hc] at hacc
      exact ⟨A', hacc, hperm, hlim, hblocked hc⟩
    | cons x xs =>
      -- Something was completed, so fewer fragments wait.
      rw [hc, List.length_cons] at hlen
      rw [hc] at hacc
      obtain ⟨A'', hacc', hperm', hlim', hblocked'⟩ := ih hacc (by omega)
      rw [List.append_assoc] at hacc'
      exact ⟨A'', hacc', hperm'.trans hperm, hlim'.trans hlim, hblocked'⟩

theorem Account.retry (r : Reassembler) (hs : Distinct ds) (h : Account ds A r.waiting out r)
    (now : Nat) :
    ∃ A', Account ds A' (r.retry now).2.waiting (out ++ (r.retry now).1) (r.retry now).2 ∧
      (A' ++ (r.retry now).2.waiting).Perm (A ++ r.waiting) ∧
      (r.retry now).2.limits = r.limits ∧ Blocked (r.retry now).2.waiting (r.retry now).2 :=
  h.retryPasses hs now _ (Nat.le_refl _)

/-! ## Fragments one after the other -/

/-- A fragment that finds room in the books is taken without an error. -/
theorem Account.process (hs : Distinct ds) (h : Account ds A r.waiting out r)
    (hblocked : Blocked r.waiting r) (hd : d ∈ ds) (hp : p ∈ d.fragments)
    (hnew : p ∉ A ++ r.waiting) (hroom : totalLength r.waiting + p.length ≤ r.limits.budget)
    (now : Nat) :
    ∃ completed r' A', r.process p now = (.ok completed, r') ∧
      Account ds A' r'.waiting (out ++ completed) r' ∧ Blocked r'.waiting r' ∧
      (A' ++ r'.waiting).Perm (p :: (A ++ r.waiting)) ∧ r'.limits = r.limits := by
  obtain ⟨hnodup, hknown, habs, hoctets, hdone⟩ := h
  rw [List.mem_append, not_or] at hnew
  have hfrag : p.isFragment = true := by
    have hk := Fragmented.key_eq hp
    rw [FragmentKey.of?, Option.map_eq_some_iff] at hk
    obtain ⟨f, hf, -⟩ := hk
    exact Option.isSome_iff_exists.mpr ⟨f, hf⟩
  have hnodup' : (p :: A ++ r.waiting).Nodup :=
    List.nodup_cons.mpr ⟨fun hm => (List.mem_append.mp hm).elim hnew.1 hnew.2, hnodup⟩
  simp only [Reassembler.process, hfrag, Bool.not_true, Bool.false_eq_true, if_false]
  obtain ⟨hnone, hfull, stats, hoffer⟩ | ⟨hc, habs', stats, hoffer⟩ |
    ⟨hc, hheld, b, habs', hoffer⟩ := offer_cases habs hs hd hp hnew.1 now
  · -- Denied: there is room in the queue.
    have hbudget : ¬ r.limits.budget < r.waitingOctets + p.length := by omega
    rw [hoffer]
    simp only [Reassembler.enqueue, if_neg hbudget]
    refine ⟨[], _, A, rfl, ⟨?_, ?_, habs, ?_, ?_⟩, ?_, ?_, rfl⟩
    · show (A ++ (r.waiting ++ [p])).Nodup
      rw [← List.append_assoc]
      exact (List.perm_append_singleton p (A ++ r.waiting)).nodup_iff.mpr hnodup'
    · intro q hq
      rcases List.mem_append.mp hq with hq | hq
      · exact hknown q hq
      · cases List.mem_singleton.mp hq
        exact ⟨d, hd, hp⟩
    · simp [hoctets]
    · simpa using hdone
    · exact hblocked.concat (Fragmented.key_eq hp) hnone hfull
    · show (A ++ (r.waiting ++ [p])).Perm (p :: (A ++ r.waiting))
      rw [← List.append_assoc]
      exact List.perm_append_comm
  · -- Complete: a slot is free, and the queue is offered again.
    rw [hoffer]
    have hfreed : Account ds (p :: A) r.waiting (out ++ [d.whole])
        { r with cache := r.cache.erase d.key, stats } :=
      ⟨hnodup', hknown, habs', hoctets, done_of_complete hs hd hp hnew.1 hc hdone⟩
    obtain ⟨A', hacc, hperm, hlim, hbl⟩ :=
      Account.retry { r with cache := r.cache.erase d.key, stats } hs hfreed now
    refine ⟨_, _, A', rfl, ?_, hbl, hperm, hlim⟩
    rwa [List.append_assoc] at hacc
  · have hdone' := done_of_not_complete hs hd hp hc hdone
    rw [hoffer]
    cases hg : (r.cache.get? d.key).isNone with
    | true =>
      -- Started: others of the datagram may wait, so the queue is offered again.
      have hstarted : Account ds (p :: A) r.waiting out
          { r with cache := r.cache.insert d.key b } :=
        ⟨hnodup', hknown, habs', hoctets, hdone'⟩
      obtain ⟨A', hacc, hperm, hlim, hbl⟩ :=
        Account.retry { r with cache := r.cache.insert d.key b } hs hstarted now
      exact ⟨_, _, A', rfl, hacc, hbl, hperm, hlim⟩
    | false =>
      have hsome : (r.cache.get? d.key).isSome = true := by
        rw [← Option.not_isNone, hg]
        rfl
      refine ⟨[], _, p :: A, rfl, ⟨hnodup', hknown, habs', hoctets, ?_⟩, hblocked.insert hsome,
        List.Perm.refl _, rfl⟩
      rwa [List.append_nil]

/-- What comes of packets that are processed one after the other. -/
def Reassembler.processAll : List (Packet × Nat) → Reassembler →
    List (Except ReassemblyError (List Packet)) × Reassembler
  | [], r => ([], r)
  | (p, now) :: rest, r =>
    let (result, r) := r.process p now
    let (results, r) := processAll rest r
    (result :: results, r)

theorem Account.processAll (hs : Distinct ds) (input : List (Packet × Nat))
    (h : Account ds A r.waiting out r) (hblocked : Blocked r.waiting r)
    (hperm : (A ++ r.waiting ++ input.map (·.1)).Perm (ds.flatMap (·.fragments)))
    (hbudget : totalLength (ds.flatMap (·.fragments)) ≤ r.limits.budget) :
    ∃ (outs : List (List Packet)) (r' : Reassembler) (A' : List Packet),
      r.processAll input = (outs.map .ok, r') ∧
      Account ds A' r'.waiting (out ++ outs.flatten) r' ∧ Blocked r'.waiting r' ∧
      (A' ++ r'.waiting).Perm (ds.flatMap (·.fragments)) ∧ r'.limits = r.limits := by
  induction input generalizing A out r with
  | nil =>
    refine ⟨[], r, A, rfl, ?_, hblocked, by simpa using hperm, rfl⟩
    simpa using h
  | cons x input ih =>
    obtain ⟨p, now⟩ := x
    rw [List.map_cons] at hperm
    have hmem : p ∈ ds.flatMap (·.fragments) := hperm.mem_iff.mp (by simp)
    obtain ⟨d, hd, hp⟩ := List.mem_flatMap.mp hmem
    have hnodup := hperm.nodup_iff.mpr hs.nodup_fragments
    have hnew : p ∉ A ++ r.waiting := fun hm =>
      (List.nodup_append.mp hnodup).2.2 p hm p List.mem_cons_self rfl
    have hroom : totalLength r.waiting + p.length ≤ r.limits.budget := by
      have := totalLength_perm hperm
      simp only [totalLength_append, totalLength_cons] at this
      omega
    obtain ⟨completed, r', A', hr, hacc, hbl, hperm', hlim⟩ :=
      h.process hs hblocked hd hp hnew hroom now
    have hrest : (A' ++ r'.waiting ++ input.map (·.1)).Perm (ds.flatMap (·.fragments)) := by
      refine (hperm'.append_right _).trans (List.Perm.trans ?_ hperm)
      exact List.perm_middle.symm
    obtain ⟨outs, r'', A'', hr', hacc', hbl', hperm'', hlim'⟩ := ih hacc hbl hrest (hlim ▸ hbudget)
    refine ⟨completed :: outs, r'', A'', ?_, ?_, hbl', hperm'', hlim'.trans hlim⟩
    · rw [Reassembler.processAll, hr]
      simp only [hr', List.map_cons]
    · rwa [List.flatten_cons, ← List.append_assoc]

/-- What waits for a slot waits for the other fragments of a datagram that has
one, so nothing waits once all fragments came. -/
theorem waiting_eq_nil (h : Account ds A r.waiting out r)
    (hblocked : Blocked r.waiting r) (hslots : 1 ≤ r.limits.slots)
    (hall : (A ++ r.waiting).Perm (ds.flatMap (·.fragments))) : r.waiting = [] := by
  rcases hblocked with hw | ⟨hfull, hnone⟩
  · exact hw
  obtain ⟨key, b, hb⟩ := Table.exists_get?_of_size_pos (Nat.lt_of_lt_of_le hslots hfull)
  obtain ⟨d, hd, rfl, -, hc⟩ := h.absorbs.held key b hb
  obtain ⟨p, hp, hA⟩ : ∃ p ∈ d.fragments, p ∉ A := by
    by_contra hno
    exact hc fun p hp => by_contra fun hA => hno ⟨p, hp, hA⟩
  have hm : p ∈ A ++ r.waiting := hall.mem_iff.mpr (List.mem_flatMap.mpr ⟨d, hd, hp⟩)
  have := hnone p ((List.mem_append.mp hm).resolve_left hA) d.key (Fragmented.key_eq hp)
  rw [this] at hb
  cases hb

/-- **Completion**: the fragments of datagrams with keys of their own, none of
them empty, in any order and at any times, make up each datagram once. No
fragment is refused and nothing stays behind. -/
theorem processAll_completes {limits : Limits} (hslots : 1 ≤ limits.slots) (hs : Distinct ds)
    (hbudget : totalLength (ds.flatMap (·.fragments)) ≤ limits.budget)
    (input : List (Packet × Nat))
    (hinput : (input.map (·.1)).Perm (ds.flatMap (·.fragments))) :
    ∃ (outs : List (List Packet)) (r : Reassembler),
      ({ limits } : Reassembler).processAll input = (outs.map .ok, r) ∧
      outs.flatten.Perm (ds.map (·.whole)) ∧
      r.cache = ∅ ∧ r.waiting = [] ∧ r.waitingOctets = 0 := by
  have hstart : Account ds [] ({ limits } : Reassembler).waiting [] { limits } := by
    refine ⟨List.nodup_nil, fun _ h => (by cases h), absorbs_nothing ds, rfl, [], List.nodup_nil,
      fun d => ?_, List.Perm.refl _⟩
    apply iff_of_false List.not_mem_nil
    intro h
    cases h.2 d.first List.mem_cons_self
  obtain ⟨outs, r, A, hr, hacc, hblocked, hall, hlim⟩ :=
    hstart.processAll hs input (.inl rfl) (by simpa using hinput) hbudget
  have hw := waiting_eq_nil hacc hblocked (by rw [hlim]; exact hslots) hall
  rw [hw, List.append_nil] at hall
  have hcomplete : ∀ d ∈ ds, d.Complete A := fun d hd p hp =>
    hall.mem_iff.mpr (List.mem_flatMap.mpr ⟨d, hd, hp⟩)
  refine ⟨outs, r, hr, ?_, ?_, hw, by rw [hacc.octets, hw]; rfl⟩
  · obtain ⟨done, hnodup, hmem, hperm⟩ := hacc.done
    have hdone : done.Perm ds := by
      apply (List.perm_ext_iff_of_nodup hnodup hs.nodup).mpr
      intro d
      rw [hmem]
      exact and_iff_left_of_imp (hcomplete d)
    exact hperm.trans (hdone.map _)
  · apply Table.eq_empty_of_get?
    intro key
    by_contra hsome
    obtain ⟨b, hb⟩ := Option.ne_none_iff_exists'.mp hsome
    obtain ⟨d, hd, -, -, hc⟩ := hacc.absorbs.held key b hb
    exact hc (hcomplete d hd)

/-! ## Two datagrams over one slot -/

/-- An IPv4 packet given by its octets. -/
def plainV4 (b : Bytes) (hd : declaredLength b = .ok b.length)
    (hv : (b.octet 0).toNat / 16 = 4) : Packet where
  bytes := b
  layout := Layout.readV4 b
  declared := hd
  laidOut := if_pos hv

/-- The first eight octets of a datagram. -/
def headFragment : Packet :=
  plainV4 [69, 0, 0, 28, 0, 7, 32, 0, 64, 17, 103, 199, 10, 0, 0, 1, 232, 1, 1, 1,
    1, 2, 3, 4, 5, 6, 7, 8] (by decide +kernel) (by decide +kernel)

/-- The last three octets of the datagram. -/
def tailFragment : Packet :=
  plainV4 [69, 0, 0, 23, 0, 7, 0, 1, 64, 17, 135, 203, 10, 0, 0, 1, 232, 1, 1, 1, 9, 10, 11]
    (by decide +kernel) (by decide +kernel)

def exampleKey : FragmentKey :=
  ⟨.read .ipv4 [10, 0, 0, 1], .read .ipv4 [232, 1, 1, 1], 7, some 17⟩

/-- A datagram of eleven octets in two fragments. -/
def twoFragments : Fragmented where
  key := exampleKey
  first := headFragment
  rest := [tailFragment]
  whole := plainV4 [69, 0, 0, 31, 0, 7, 0, 0, 64, 17, 135, 196, 10, 0, 0, 1, 232, 1, 1, 1,
    1, 2, 3, 4, 5, 6, 7, 8, 9, 10, 11] (by decide +kernel) (by decide +kernel)
  tiles := .more ⟨by decide +kernel, ⟨0, true, 7⟩, by decide +kernel, rfl, rfl⟩
    (by decide +kernel) (by decide +kernel)
    (.last ⟨by decide +kernel, ⟨1, false, 7⟩, by decide +kernel, by decide +kernel, rfl⟩)
  small := by decide +kernel
  reassembled := by decide +kernel

/-- The first eight octets of the next datagram that the source sends. -/
def laterHead : Packet :=
  plainV4 [69, 0, 0, 28, 0, 8, 32, 0, 64, 17, 103, 198, 10, 0, 0, 1, 232, 1, 1, 1,
    21, 22, 23, 24, 25, 26, 27, 28] (by decide +kernel) (by decide +kernel)

/-- The last two octets of the next datagram. -/
def laterTail : Packet :=
  plainV4 [69, 0, 0, 22, 0, 8, 0, 1, 64, 17, 135, 203, 10, 0, 0, 1, 232, 1, 1, 1, 29, 30]
    (by decide +kernel) (by decide +kernel)

/-- A datagram of ten octets, told from the other one by its identification. -/
def laterFragments : Fragmented where
  key := { exampleKey with identification := 8 }
  first := laterHead
  rest := [laterTail]
  whole := plainV4 [69, 0, 0, 30, 0, 8, 0, 0, 64, 17, 135, 196, 10, 0, 0, 1, 232, 1, 1, 1,
    21, 22, 23, 24, 25, 26, 27, 28, 29, 30] (by decide +kernel) (by decide +kernel)
  tiles := .more ⟨by decide +kernel, ⟨0, true, 8⟩, by decide +kernel, rfl, rfl⟩
    (by decide +kernel) (by decide +kernel)
    (.last ⟨by decide +kernel, ⟨1, false, 8⟩, by decide +kernel, by decide +kernel, rfl⟩)
  small := by decide +kernel
  reassembled := by decide +kernel

/-- Both datagrams are completed, though there is a slot for one of them only: the fragments of the
later one are denied and wait until the end of the other one frees the slot. -/
theorem interleaved_completes :
    let input := [(tailFragment, 0), (laterTail, 1), (laterHead, 2), (headFragment, 5)]
    let start : Reassembler := { limits := { slots := 1, budget := 101 } }
    (start.processAll (input.take 3)).2.waiting = [laterTail, laterHead] ∧
      (start.processAll (input.take 3)).2.stats.denied = 2 ∧
      ∃ (outs : List (List Packet)) (r : Reassembler),
        start.processAll input = (outs.map .ok, r) ∧
        outs.flatten.Perm [twoFragments.whole, laterFragments.whole] ∧
        r.cache = ∅ ∧ r.waiting = [] ∧ r.waitingOctets = 0 := by
  intro input start
  have hs : Distinct [twoFragments, laterFragments] := by
    refine ⟨by decide +kernel, fun d hd p hp => ?_⟩
    have hall : ∀ p ∈ [twoFragments, laterFragments].flatMap (·.fragments), p.payload ≠ [] := by
      decide +kernel
    exact hall p (List.mem_flatMap.mpr ⟨d, hd, hp⟩)
  have hbudget : totalLength ([twoFragments, laterFragments].flatMap (·.fragments)) ≤ 101 := by
    decide +kernel
  have hinput : (input.map (·.1)).Perm
      ([twoFragments, laterFragments].flatMap (·.fragments)) := by decide +kernel
  exact ⟨by decide +kernel, by decide +kernel,
    processAll_completes (by decide) hs hbudget input hinput⟩

/-! ## An end that carries nothing -/

/-- Tells that nothing follows the first eight octets, and carries none. -/
def emptyFragment : Packet :=
  plainV4 [69, 0, 0, 20, 0, 7, 0, 1, 64, 17, 135, 206, 10, 0, 0, 1, 232, 1, 1, 1]
    (by decide +kernel) (by decide +kernel)

/-- A datagram of eight octets whose second fragment carries nothing. -/
def emptyEnd : Fragmented where
  key := exampleKey
  first := headFragment
  rest := [emptyFragment]
  whole := plainV4 [69, 0, 0, 28, 0, 7, 0, 0, 64, 17, 135, 199, 10, 0, 0, 1, 232, 1, 1, 1,
    1, 2, 3, 4, 5, 6, 7, 8] (by decide +kernel) (by decide +kernel)
  tiles := .more ⟨by decide +kernel, ⟨0, true, 7⟩, by decide +kernel, rfl, rfl⟩
    (by decide +kernel) (by decide +kernel)
    (.last ⟨by decide +kernel, ⟨1, false, 7⟩, by decide +kernel, by decide +kernel, rfl⟩)
  small := by decide +kernel
  reassembled := by decide +kernel

/-- A datagram is not completed when its last fragment is empty, which is
taken for a malformed one. -/
theorem emptyEnd_not_completed :
    ¬ ∀ (limits : Limits) (ds : List Fragmented), 1 ≤ limits.slots → (ds.map (·.key)).Nodup →
      totalLength (ds.flatMap (·.fragments)) ≤ limits.budget →
      ∀ input : List (Packet × Nat), (input.map (·.1)).Perm (ds.flatMap (·.fragments)) →
        ∃ (outs : List (List Packet)) (r : Reassembler),
          ({ limits } : Reassembler).processAll input = (outs.map .ok, r) ∧
          outs.flatten.Perm (ds.map (·.whole)) ∧
          r.cache = ∅ ∧ r.waiting = [] ∧ r.waitingOctets = 0 := by
  intro h
  obtain ⟨outs, r, hr, -, hcache, -⟩ := h {} [emptyEnd] (by decide) (List.pairwise_singleton _ _)
    (by decide +kernel) [(headFragment, 0), (emptyFragment, 0)] (List.Perm.refl _)
  -- The buffer of the first fragment still waits for the octets behind it.
  have hheld : (({ limits := {} } : Reassembler).processAll
      [(headFragment, 0), (emptyFragment, 0)]).2.cache.isEmpty = false := by decide +kernel
  rw [hr, hcache] at hheld
  cases hheld

end MulticastTunnel.Reassembly
