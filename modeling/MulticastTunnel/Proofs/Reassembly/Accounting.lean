import Mathlib.Data.List.Induction
import MulticastTunnel.Proofs.Reassembly.Overlap
import MulticastTunnel.Proofs.Reassembly.Queue

/-!
# Every fragment is accounted for

Whatever is asked of a reassembler, each fragment that it takes ends up in one
place: a buffer absorbed it, it was dropped and counted, it waits, or it was
thrown away with the whole queue. The buffers are made of what was absorbed. A
fragment that is refused for want of room leaves no trace but in the count of
those denied.
-/

namespace MulticastTunnel.Reassembly.Reassembler

open Keyed

variable {r s : Reassembler} {os : List (Reassembler × Packet)} {p : Packet} {now : Nat}
  {op : Operation} {log log' : List Packet} {key : FragmentKey} {f : Fragment}
  {as : List Arrival} {b c : Buffer}

/-! ## Buffers -/

/-- These fragments of the datagram made the buffer out of a new one, each of
them accepted, and all of them stand in the log. -/
structure MadeOf (log : List Packet) (key : FragmentKey) (as : List Arrival) (b : Buffer) :
    Prop where
  accepted : ∃ created, Buffer.offerAll created as = (as.reverse, b)
  own : ∀ a ∈ as, FragmentKey.of? a.packet = some key ∧ a.packet.fragmentInfo = some a.info
  logged : (as.map (·.packet)).Sublist log

/-- Every buffer waits for more, and is made of what was absorbed. -/
def Filled (log : List Packet) (r : Reassembler) : Prop :=
  ∀ key b, r.cache.get? key = some b →
    b.isComplete = false ∧ ∃ as, as ≠ [] ∧ MadeOf log key as b

theorem MadeOf.mono (h : MadeOf log key as b) (hsub : log.Sublist log') : MadeOf log' key as b :=
  ⟨h.accepted, h.own, h.logged.trans hsub⟩

theorem Filled.mono (h : Filled log r) (hsub : log.Sublist log') : Filled log' r := by
  intro key b hb
  obtain ⟨hc, as, hne, hmade⟩ := h key b hb
  exact ⟨hc, as, hne, hmade.mono hsub⟩

/-- Only what is in the cache matters. -/
theorem Filled.congr (h : Filled log r)
    (hsub : ∀ key b, s.cache.get? key = some b → r.cache.get? key = some b) : Filled log s :=
  fun key b hb => h key b (hsub key b hb)

/-- The buffer that a fragment would go into, be it a new one. -/
theorem Filled.buffer (h : Filled log r) (key : FragmentKey) (now : Nat) :
    ∃ as, MadeOf log key as (r.buffer key now) := by
  rw [Reassembler.buffer]
  cases hg : r.cache.get? key with
  | some b =>
    obtain ⟨-, as, -, hmade⟩ := h key b hg
    exact ⟨as, hmade⟩
  | none => exact ⟨[], ⟨now, rfl⟩, fun _ ha => (by cases ha), List.nil_sublist log⟩

/-- A fragment that is accepted is one more. -/
theorem MadeOf.add? (h : MadeOf log key as b) (hkey : FragmentKey.of? p = some key)
    (hinfo : p.fragmentInfo = some f) (hadd : b.add? p f = some c) :
    MadeOf (log ++ [p]) key (as ++ [⟨p, f⟩]) c where
  accepted := by
    obtain ⟨created, h⟩ := h.accepted
    refine ⟨created, ?_⟩
    rw [Buffer.offerAll] at h ⊢
    rw [List.foldl_append, h, List.reverse_append]
    simp only [List.foldl_cons, List.foldl_nil, Buffer.offer, hadd, List.reverse_singleton,
      List.singleton_append]
  own a ha := by
    rcases List.mem_append.mp ha with ha | ha
    · exact h.own a ha
    · cases List.mem_singleton.mp ha
      exact ⟨hkey, hinfo⟩
  logged := by
    rw [List.map_append]
    exact h.logged.append (List.Sublist.refl _)

theorem Filled.offer (h : Filled log r) (hp : p.isFragment = true) (now : Nat) :
    Filled (log ++ absorbedIn now [(r, p)]) (r.offer p now).2 := by
  obtain ⟨key, f, hkey, hinfo⟩ := exists_key_of_isFragment hp
  have ho := offered_offer r now hkey hinfo
  have hlog : absorbedIn now [(r, p)] = if (r.offer p now).1.absorbs then [p] else [] := by
    cases ha : (r.offer p now).1.absorbs <;> simp [absorbedIn, ha]
  have hgrows : log.Sublist (log ++ absorbedIn now [(r, p)]) := List.sublist_append_left _ _
  obtain ⟨as, hmade⟩ := h.buffer key now
  rw [hlog] at hgrows ⊢
  generalize r.offer p now = o at ho hgrows ⊢
  obtain ⟨a, s⟩ := o
  -- Erasing a datagram leaves the others.
  have herase : ∀ l b, (r.cache.erase key).get? l = some b → r.cache.get? l = some b := by
    intro l b hb
    rw [Table.get?_erase] at hb
    split at hb
    · cases hb
    · exact hb
  have hinsert : ∀ b, (r.buffer key now).add? p f = some b → b.isComplete = false →
      Filled (log ++ [p]) { r with cache := r.cache.insert key b } := by
    intro b hadd hc l b' hb
    have hb' : (r.cache.insert key b).get? l = some b' := hb
    rw [Table.get?_insert] at hb'
    split at hb'
    · rename_i hl
      cases hb'
      subst hl
      exact ⟨hc, _, by simp, hmade.add? hkey hinfo hadd⟩
    · exact h.mono (List.sublist_append_left _ _) l b' hb'
  cases ho with
  | denied => exact h.mono hgrows
  | refused => exact h.mono hgrows
  | discarded => exact (h.mono hgrows).congr herase
  | complete => exact (h.mono hgrows).congr herase
  | started _ _ hadd hc => exact hinsert _ hadd hc
  | progress _ hadd hc => exact hinsert _ hadd hc

/-- Along a chain of offers the log grows by what was absorbed. -/
theorem Filled.offers (h : Filled log r) (ho : Offers now r os s)
    (hfrag : ∀ o ∈ os, o.2.isFragment = true) : Filled (log ++ absorbedIn now os) s := by
  induction ho generalizing log with
  | refl r => simpa [absorbedIn] using h
  | queue waiting octets _ ih => exact ih h hfrag
  | offer _ ih =>
    obtain ⟨hp, hrest⟩ := List.forall_mem_cons.mp hfrag
    have := ih (h.offer hp now) hrest
    rwa [List.append_assoc, ← absorbedIn_cons] at this

/-- Every fragment that is dropped is counted. -/
theorem dropped_offers (ho : Offers now r os s) (hfrag : ∀ o ∈ os, o.2.isFragment = true) :
    s.stats.dropped = r.stats.dropped + (droppedIn now os).length := by
  induction ho with
  | refl r => rfl
  | queue waiting octets _ ih => exact ih hfrag
  | @offer r s os p _ ih =>
    obtain ⟨hp, hrest⟩ := List.forall_mem_cons.mp hfrag
    obtain ⟨key, f, hkey, hinfo⟩ := exists_key_of_isFragment hp
    have hstep : (r.offer p now).2.stats.dropped =
        r.stats.dropped + (droppedIn now [(r, p)]).length := by
      have ho := offered_offer r now hkey hinfo
      generalize hoffer : r.offer p now = o at ho
      obtain ⟨a, s⟩ := o
      cases ho <;> simp [droppedIn, hoffer]
    rw [ih hrest, hstep, droppedIn_cons _ os, List.length_append, Nat.add_assoc]

/-! ## Operations -/

/-- Dropping datagrams leaves the others and the count of dropped fragments. -/
theorem cleared_spec (op : Operation) (r : Reassembler) :
    (∀ key b, (r.cleared op).cache.get? key = some b → r.cache.get? key = some b) ∧
      (r.cleared op).stats.dropped = r.stats.dropped := by
  cases op with
  | process p now => exact ⟨fun _ _ h => h, rfl⟩
  | evict now =>
    simp only [cleared]
    split
    · exact ⟨fun _ _ h => h, rfl⟩
    · refine ⟨fun key b h => ?_, rfl⟩
      have hmem := Table.get?_eq_some_iff.mp h
      exact Table.get?_eq_some_iff.mpr (List.mem_of_mem_filter hmem)
  | close => exact ⟨fun _ _ h => (by cases h), rfl⟩

theorem filled_apply (op : Operation) (h : Filled log r)
    (hfrag : ∀ p ∈ r.waiting, p.isFragment = true) : Filled (log ++ r.absorbed op) (r.apply op) :=
  (h.congr (cleared_spec op r).1).offers (offers_apply op r) fun _ ho =>
    isFragment_of_mem_offers hfrag ho

theorem dropped_apply (op : Operation) (hfrag : ∀ p ∈ r.waiting, p.isFragment = true) :
    (r.apply op).stats.dropped = r.stats.dropped + (r.dropped op).length := by
  rw [← (cleared_spec op r).2]
  exact dropped_offers (offers_apply op r) fun _ ho => isFragment_of_mem_offers hfrag ho

/-! ## Runs -/

/-- What is left after some operations, one after the other. -/
def run (limits : Limits) (ops : List Operation) : Reassembler :=
  ops.foldl (fun r op => r.apply op) { limits }

/-- What there is to list of each operation of a run, one after the other. -/
def total (what : Operation → Reassembler → List Packet) :
    Reassembler → List Operation → List Packet
  | _, [] => []
  | r, op :: ops => what op r ++ total what (r.apply op) ops

theorem run_concat (limits : Limits) (ops : List Operation) (op : Operation) :
    run limits (ops ++ [op]) = (run limits ops).apply op := by
  simp [run, List.foldl_append]

theorem total_concat (what : Operation → Reassembler → List Packet) (limits : Limits)
    (ops : List Operation) (op : Operation) :
    total what { limits } (ops ++ [op]) =
      total what { limits } ops ++ what op (run limits ops) := by
  rw [run]
  generalize ({ limits } : Reassembler) = r
  induction ops generalizing r with
  | nil => simp [total]
  | cons first ops ih => simp [total, ih]

/-- The books of a run, from the first operation on. -/
structure Books (limits : Limits) (ops : List Operation) (r : Reassembler) : Prop where
  sameLimits : r.limits = limits
  slots : r.size ≤ r.limits.slots
  buffers : Filled (total absorbed { limits } ops) r
  octets : r.waitingOctets = totalLength r.waiting
  budget : r.waitingOctets ≤ r.limits.budget
  /-- Each fragment that was taken was absorbed, was dropped, was thrown away or waits. -/
  once : (total absorbed { limits } ops ++ total dropped { limits } ops ++
    total thrownAway { limits } ops ++ r.waiting).Perm (total taken { limits } ops)
  counted : r.stats.dropped = (total dropped { limits } ops).length

theorem isFragment_of_mem_total (ops : List Operation) (hp : p ∈ total taken r ops) :
    p.isFragment = true := by
  induction ops generalizing r with
  | nil => cases hp
  | cons op ops ih =>
    rcases List.mem_append.mp hp with hp | hp
    · exact isFragment_of_mem_taken hp
    · exact ih hp

theorem Books.isFragment {limits : Limits} {ops : List Operation} (h : Books limits ops r) :
    ∀ p ∈ r.waiting, p.isFragment = true := fun _ hp =>
  isFragment_of_mem_total ops (h.once.mem_iff.mp (List.mem_append_right _ hp))

theorem books_run (limits : Limits) (ops : List Operation) : Books limits ops (run limits ops) := by
  -- From the end, for the totals of a run grow by those of its last operation.
  induction ops using List.reverseRecOn with
  | nil =>
    exact ⟨rfl, Nat.zero_le _, fun _ _ h => (by cases h), rfl, Nat.zero_le _, List.Perm.refl _, rfl⟩
  | append_singleton ops op ih =>
    obtain ⟨hslots, hlim⟩ := apply_bounded op ih.slots
    obtain ⟨hoctets, hbudget⟩ := balanced_apply op ⟨ih.octets, ih.budget⟩ ih.slots
    have hsettled := (settled_apply op (run limits ops)).once
    rw [run_concat]
    constructor
    · exact hlim.trans ih.sameLimits
    · exact hslots
    · rw [total_concat]
      exact filled_apply op ih.buffers ih.isFragment
    · exact hoctets
    · exact hbudget
    · refine List.perm_iff_count.mpr fun q => ?_
      have hold := ih.once.count_eq q
      have hnew := hsettled.count_eq q
      simp only [total_concat, List.count_append, absorbed, dropped] at hold hnew ⊢
      omega
    · rw [total_concat, List.length_append, ← ih.counted]
      exact dropped_apply op ih.isFragment

/-- The fragment goes into the buffer of its datagram, and into no other one. The
datagram leaves the cache when it is complete, and is handed out. -/
def GoesIn (r : Reassembler) (p : Packet) (now : Nat) : Prop :=
  ∃ key f b, FragmentKey.of? p = some key ∧ p.fragmentInfo = some f ∧
    (r.buffer key now).add? p f = some b ∧
    (∀ l, (r.offer p now).2.cache.get? l =
      if l = key then (if b.isComplete then none else some b) else r.cache.get? l) ∧
    (b.isComplete = true → ∃ d, b.assemble? = some (.ok d) ∧ (r.offer p now).1 = .complete d)

theorem goesIn_of_absorbs (hp : p.isFragment = true) (h : (r.offer p now).1.absorbs = true) :
    r.GoesIn p now := by
  obtain ⟨key, f, hkey, hinfo⟩ := exists_key_of_isFragment hp
  have ho := offered_offer r now hkey hinfo
  simp only [GoesIn]
  generalize r.offer p now = o at ho h ⊢
  obtain ⟨a, s⟩ := o
  have hframe := fun l => ho.frame (l := l)
  cases ho with
  | denied => cases h
  | refused => cases h
  | discarded => cases h
  | @complete b d hadd hc hd =>
    refine ⟨key, f, b, hkey, hinfo, hadd, fun l => ?_, fun _ => ⟨d, hd, rfl⟩⟩
    rw [if_pos hc]
    exact Table.get?_erase r.cache key l
  | @started b _ _ hadd hc =>
    refine ⟨key, f, b, hkey, hinfo, hadd, fun l => ?_, fun hc' => by rw [hc] at hc'; cases hc'⟩
    rw [hc, if_neg Bool.false_ne_true]
    exact Table.get?_insert r.cache key l b
  | @progress b _ hadd hc =>
    refine ⟨key, f, b, hkey, hinfo, hadd, fun l => ?_, fun hc' => by rw [hc] at hc'; cases hc'⟩
    rw [hc, if_neg Bool.false_ne_true]
    exact Table.get?_insert r.cache key l b

/-- A fragment is refused for want of room only, and leaves a count behind. -/
theorem process_error {e : ReassemblyError} (h : (r.process p now).1 = .error e) :
    e = .budgetExceeded r.waitingOctets p.length r.limits.budget ∧
      ∃ stats, (r.process p now).2 = { r with stats } := by
  simp only [process] at h ⊢
  split at h
  · cases h
  rename_i hp
  rw [if_neg hp]
  have ho := outcome_offer r p now
  generalize r.offer p now = o at ho h ⊢
  obtain ⟨a, s⟩ := o
  cases a with
  | denied =>
    cases ho
    simp only [enqueue] at h ⊢
    split at h
    · rename_i hfull
      rw [if_pos hfull]
      cases h
      exact ⟨rfl, _, rfl⟩
    · cases h
  | complete d => cases h
  | started => cases h
  | progress => cases h
  | dropped => cases h

/-- **Every fragment is accounted for**, whatever is asked and under whatever limits.
The books are right after every run. What the next operation does is a chain of
offers: a fragment that is absorbed goes into one buffer, those that wait keep
their order, and one that is refused changes neither the cache nor the queue. -/
theorem run_accounts (limits : Limits) (ops : List Operation) :
    let r := run limits ops
    Books limits ops r ∧
    (∀ op, Offers op.time (r.cleared op) (r.offers op) (r.apply op) ∧
      (r.apply op).waiting.Sublist (r.waiting ++ r.taken op) ∧
      ∀ o ∈ r.offers op, (o.1.offer o.2 op.time).1.absorbs = true → o.1.GoesIn o.2 op.time) ∧
    ∀ p now e, (r.process p now).1 = .error e →
      e = .budgetExceeded r.waitingOctets p.length r.limits.budget ∧
      (r.process p now).2.cache = r.cache ∧ (r.process p now).2.waiting = r.waiting ∧
      (r.process p now).2.waitingOctets = r.waitingOctets := by
  intro r
  have hbooks := books_run limits ops
  refine ⟨hbooks, fun op => ⟨offers_apply op r, ?_, fun o ho ha => ?_⟩, fun p now e he => ?_⟩
  · exact (List.sublist_append_right _ _).trans (settled_apply op r).order
  · exact goesIn_of_absorbs (isFragment_of_mem_offers hbooks.isFragment ho) ha
  · obtain ⟨hbudget, stats, hr⟩ := process_error he
    rw [hr]
    exact ⟨hbudget, rfl, rfl, rfl⟩

end MulticastTunnel.Reassembly.Reassembler
