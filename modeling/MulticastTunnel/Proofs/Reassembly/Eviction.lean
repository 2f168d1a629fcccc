import MulticastTunnel.Proofs.Reassembly.Ageing
import MulticastTunnel.Proofs.Reassembly.Wholeness

/-!
# Eviction

What is too old is dropped all at once, and only then are the fragments that wait offered the
slots that came free. So a datagram that was dropped may be begun again in the same moment, and
still nothing that it had is part of what is rebuilt for its key from then on.
-/

namespace MulticastTunnel.Reassembly.Reassembler

open Keyed

variable {r s : Reassembler} {os : List (Reassembler × Packet)} {p d : Packet} {now : Nat}
  {op : Operation} {ops : List Operation} {log log' : List Packet} {key : FragmentKey}
  {b : Buffer} {limits : Limits}

/-! ## What is too old -/

/-- The datagrams that are too old. -/
def expired (r : Reassembler) (now : Nat) : List (FragmentKey × Buffer) :=
  r.cache.toList.filter fun e => r.isExpired now e.2

theorem mem_expired :
    (key, b) ∈ r.expired now ↔ r.cache.get? key = some b ∧ r.isExpired now b = true := by
  rw [expired, List.mem_filter, Table.get?_eq_some_iff]

/-- No two of them have the same key. -/
theorem nodup_expired (r : Reassembler) (now : Nat) : ((r.expired now).map (·.1)).Nodup :=
  r.cache.nodup.sublist (List.filter_sublist.map _)

/-- While nothing is too old there is nothing to do. -/
theorem evict_of_not_expired (h : r.expired now = []) : r.evict now = ({}, r) := by
  have hempty : (r.cache.toList.filter fun e => r.isExpired now e.2).isEmpty = true :=
    List.isEmpty_iff.mpr h
  rw [evict, if_pos hempty]

/-- The others stay before anything is offered, as they are. -/
theorem get?_cleared (r : Reassembler) (now : Nat) (key : FragmentKey) :
    (r.cleared (.evict now)).cache.get? key =
      (r.cache.get? key).filter fun b => !r.isExpired now b := by
  have hfilter : (r.withoutExpired now).cache.get? key =
      (r.cache.get? key).filter fun b => !r.isExpired now b := Table.get?_filter ..
  rw [cleared]
  split
  · next hnone =>
    have hnone : r.expired now = [] := List.isEmpty_iff.mp hnone
    -- Nothing is too old, so nothing is filtered out either.
    cases hb : r.cache.get? key with
    | none => rfl
    | some b =>
      have hnot : (key, b) ∉ r.expired now := by
        rw [hnone]
        exact List.not_mem_nil
      rw [mem_expired] at hnot
      have hyoung : r.isExpired now b = false := by simpa [hb] using hnot
      rw [Option.filter_some, hyoung]
      rfl
  · exact hfilter

theorem get?_cleared_of_isExpired (hb : r.cache.get? key = some b)
    (h : r.isExpired now b = true) : (r.cleared (.evict now)).cache.get? key = none := by
  rw [get?_cleared, hb]
  simp [h]

/-- A datagram is due when the moment of the first one has come. -/
theorem nextExpiry_le_iff (h : ∀ key b, r.cache.get? key = some b → b.created ≤ now) :
    (∃ m, r.nextExpiry = some m ∧ m ≤ now) ↔ r.expired now ≠ [] := by
  have hage : ∀ e ∈ r.cache.toList,
      (e.2.created + r.limits.timeout ≤ now ↔ r.isExpired now e.2 = true) := by
    rintro ⟨key, b⟩ he
    have hb := h key b (Table.get?_eq_some_iff.mpr he)
    rw [isExpired, decide_eq_true_eq]
    show b.created + r.limits.timeout ≤ now ↔ r.limits.timeout ≤ now - b.created
    omega
  have hne : r.expired now ≠ [] ↔ ∃ e ∈ r.cache.toList, e.2.created + r.limits.timeout ≤ now := by
    rw [expired, ne_eq, List.filter_eq_nil_iff]
    push Not
    exact exists_congr fun e => and_congr_right fun he => (hage e he).symm
  rw [hne]
  constructor
  · rintro ⟨m, hm, hle⟩
    obtain ⟨e, he, rfl⟩ := List.mem_map.mp (List.min?_eq_some_iff.mp hm).1
    exact ⟨e, he, hle⟩
  · rintro ⟨e, he, hle⟩
    have hmem : e.2.created + r.limits.timeout ∈
        r.cache.toList.map fun e => e.2.created + r.limits.timeout := List.mem_map_of_mem he
    obtain ⟨m, hm⟩ := Option.isSome_iff_exists.mp (List.isSome_min?_of_mem hmem)
    exact ⟨m, hm, Nat.le_trans ((List.min?_eq_some_iff.mp hm).2 _ hmem) hle⟩

/-! ## What is told of it -/

/-- A buffer that was made of fragments has the first of them that starts the datagram. -/
theorem MadeOf.first {as : List Arrival} (h : MadeOf log key as b) :
    b.first = (as.find? fun a => a.info.offset = 0).map (·.packet) := by
  obtain ⟨created, haccepted⟩ := h.accepted
  have hkeeps := keeps_offerAll created as
  rw [haccepted] at hkeeps
  rw [hkeeps.first, zero?, List.reverse_reverse]

theorem MadeOf.key_of_first {as : List Arrival} (h : MadeOf log key as b)
    (hp : b.first = some p) : FragmentKey.of? p = some key := by
  rw [h.first] at hp
  obtain ⟨a, ha, rfl⟩ := Option.map_eq_some_iff.mp hp
  exact (h.own a (List.mem_of_find?_eq_some ha)).1

theorem timedOut_evict (r : Reassembler) (now : Nat) :
    (r.evict now).1.timedOut =
      (r.expired now).filterMap fun e => e.2.first.filter fun p => !p.destination.isMulticast := by
  by_cases h : r.expired now = []
  · rw [evict_of_not_expired h, h]
    rfl
  · have hnonempty : ¬ (r.cache.toList.filter fun e => r.isExpired now e.2).isEmpty = true :=
      fun hempty => h (List.isEmpty_iff.mp hempty)
    rw [evict, if_neg hnonempty]
    rfl

theorem mem_timedOut_evict :
    p ∈ (r.evict now).1.timedOut ↔ ∃ key b, r.cache.get? key = some b ∧
      r.isExpired now b = true ∧ b.first = some p ∧ p.destination.isMulticast = false := by
  rw [timedOut_evict, List.mem_filterMap]
  constructor
  · rintro ⟨⟨key, b⟩, he, hp⟩
    obtain ⟨hb, hold⟩ := mem_expired.mp he
    obtain ⟨hfirst, hto⟩ := Option.filter_eq_some_iff.mp hp
    exact ⟨key, b, hb, hold, hfirst, by simpa using hto⟩
  · rintro ⟨key, b, hb, hold, hfirst, hto⟩
    exact ⟨(key, b), mem_expired.mpr ⟨hb, hold⟩,
      Option.filter_eq_some_iff.mpr ⟨hfirst, by simpa using hto⟩⟩

/-- Each datagram is told once, for its fragments have its key. -/
theorem Filled.nodup_timedOut (h : Filled log r) (now : Nat) :
    ((r.evict now).1.timedOut.map FragmentKey.of?).Nodup := by
  have hkeys : ∀ es : List (FragmentKey × Buffer), (∀ e ∈ es, r.cache.get? e.1 = some e.2) →
      ((es.filterMap fun e => e.2.first.filter fun p => !p.destination.isMulticast).map
        FragmentKey.of?).Sublist (es.map fun e => some e.1) := by
    intro es hes
    induction es with
    | nil => exact List.Sublist.refl _
    | cons e es ih =>
      obtain ⟨he, hes⟩ := List.forall_mem_cons.mp hes
      rw [List.filterMap_cons]
      split
      · exact (ih hes).cons _
      · next p hp =>
        obtain ⟨-, as, -, hmade⟩ := h e.1 e.2 he
        rw [List.map_cons, List.map_cons,
          hmade.key_of_first (Option.filter_eq_some_iff.mp hp).1]
        exact (ih hes).cons_cons _
  rw [timedOut_evict]
  have hnodup : ((r.expired now).map fun e => some e.1).Nodup := by
    have hsome := (nodup_expired r now).map fun _ _ h => Option.some.inj h
    rwa [List.map_map] at hsome
  exact hnodup.sublist (hkeys _ fun e he => (mem_expired.mp he).1)

/-- Offering fragments changes no count of what timed out. -/
theorem Offers.timedOut (h : Offers now r os s) : s.stats.timedOut = r.stats.timedOut := by
  induction h with
  | refl r => rfl
  | queue waiting octets _ ih => exact ih
  | @offer r s os p _ ih =>
    rw [ih]
    by_cases hp : p.isFragment = true
    · obtain ⟨key, f, hkey, hinfo⟩ := exists_key_of_isFragment hp
      have ho := offered_offer r now hkey hinfo
      generalize r.offer p now = o at ho
      obtain ⟨a, s⟩ := o
      cases ho <;> rfl
    · rw [offer_of_not_isFragment hp]

theorem timedOut_stats_evict (r : Reassembler) (now : Nat) :
    (r.evict now).2.stats.timedOut = r.stats.timedOut + (r.expired now).length := by
  have hoffers := (offers_apply (.evict now) r).timedOut
  rw [apply] at hoffers
  rw [hoffers, cleared]
  split
  · next hnone =>
    have hnone : r.expired now = [] := List.isEmpty_iff.mp hnone
    rw [hnone]
    rfl
  · rfl

/-! ## What comes of the keys -/

/-- A slot is left alone while no fragment of its datagram is offered. -/
theorem Offers.get?_of_not_offered (h : Offers now r os s)
    (hos : ∀ o ∈ os, FragmentKey.of? o.2 ≠ some key) : s.cache.get? key = r.cache.get? key := by
  induction h with
  | refl r => rfl
  | queue waiting octets _ ih => exact ih hos
  | @offer r s os p _ ih =>
    obtain ⟨hne, hos⟩ := List.forall_mem_cons.mp hos
    rw [ih hos]
    by_cases hp : p.isFragment = true
    · obtain ⟨own, f, hkey, hinfo⟩ := exists_key_of_isFragment hp
      exact (offered_offer r now hkey hinfo).frame fun heq => hne (heq ▸ hkey)
    · rw [offer_of_not_isFragment hp]

/-- The fragment is the last of its datagram, which is handed out, or cannot be rebuilt. -/
def Finishes (r : Reassembler) (p : Packet) (now : Nat) : Prop :=
  (∃ d, (r.offer p now).1 = .complete d) ∨ r.Discards p

/-- A datagram keeps its slot and its age until a fragment finishes it. -/
theorem Offers.stays (h : Offers now r os s) (hb : r.cache.get? key = some b) :
    (∃ b', s.cache.get? key = some b' ∧ b'.created = b.created) ∨
      ∃ o ∈ os, FragmentKey.of? o.2 = some key ∧ o.1.Finishes o.2 now := by
  induction h generalizing b with
  | refl r => exact .inl ⟨b, hb, rfl⟩
  | queue waiting octets _ ih => exact ih hb
  | @offer r s os p _ ih =>
    have hnext : (∃ b', (r.offer p now).2.cache.get? key = some b' ∧ b'.created = b.created) ∨
        (FragmentKey.of? p = some key ∧ r.Finishes p now) := by
      by_cases hp : p.isFragment = true
      swap
      · rw [offer_of_not_isFragment hp]
        exact .inl ⟨b, hb, rfl⟩
      obtain ⟨own, f, hkey, hinfo⟩ := exists_key_of_isFragment hp
      have ho := offered_offer r now hkey hinfo
      by_cases hown : key = own
      swap
      · exact .inl ⟨b, (ho.frame hown).trans hb, rfl⟩
      subst hown
      have hbuffer : r.buffer key now = b := by rw [buffer, hb, Option.getD_some]
      rw [Finishes]
      generalize r.offer p now = o at ho ⊢
      obtain ⟨a, s⟩ := o
      cases ho with
      | denied hnone =>
        rw [hb] at hnone
        cases hnone
      | refused => exact .inl ⟨b, hb, rfl⟩
      | @discarded c hadd hc hfail =>
        exact .inr ⟨hkey, .inr ⟨key, f, b, c, hkey, hinfo, hb, hbuffer ▸ hadd, hc, hfail⟩⟩
      | @complete c d => exact .inr ⟨hkey, .inl ⟨d, rfl⟩⟩
      | started hnone =>
        rw [hb] at hnone
        cases hnone
      | @progress c _ hadd =>
        refine .inl ⟨c, (Table.get?_insert ..).trans (if_pos rfl), ?_⟩
        exact Buffer.created_add? (hbuffer ▸ hadd)
    obtain ⟨c, hc, hage⟩ | ⟨hkey, hfinish⟩ := hnext
    · obtain ⟨b', hb', hage'⟩ | ⟨o, ho, hlater⟩ := ih hc
      · exact .inl ⟨b', hb', hage'.trans hage⟩
      · exact .inr ⟨o, List.mem_cons_of_mem _ ho, hlater⟩
    · exact .inr ⟨(r, p), List.mem_cons_self, hkey, hfinish⟩

/-- Only what waits is offered when what is too old was dropped. -/
theorem mem_waiting_of_mem_offers_evict {o : Reassembler × Packet}
    (h : o ∈ r.offers (.evict now)) : o.2 ∈ r.waiting := by
  simp only [offers] at h
  split at h
  · cases h
  · exact mem_waiting_of_retryOffers (r := r.withoutExpired now) now _ h

/-- What the slot of the datagram holds was made of fragments in the log. -/
def Renewed (log : List Packet) (key : FragmentKey) (r : Reassembler) : Prop :=
  ∀ b, r.cache.get? key = some b → ∃ as, MadeOf log key as b

/-- The datagram was rebuilt from fragments in the log. -/
def AssembledFrom (log : List Packet) (key : FragmentKey) (d : Packet) : Prop :=
  ∃ as b, MadeOf log key as b ∧ b.isComplete = true ∧ b.assemble? = some (.ok d)

/-- The datagrams of a key that an operation completes. -/
def completedOf (key : FragmentKey) (op : Operation) (r : Reassembler) : List Packet :=
  completedIn op.time ((r.offers op).filter fun o => FragmentKey.of? o.2 = some key)

theorem Renewed.mono (h : Renewed log key r) (hsub : log.Sublist log') : Renewed log' key r := by
  intro b hb
  obtain ⟨as, hmade⟩ := h b hb
  exact ⟨as, hmade.mono hsub⟩

theorem AssembledFrom.mono (h : AssembledFrom log key d) (hsub : log.Sublist log') :
    AssembledFrom log' key d := by
  obtain ⟨as, b, hmade, hc, hd⟩ := h
  exact ⟨as, b, hmade.mono hsub, hc, hd⟩

/-- The buffer that a fragment would go into, be it a new one. -/
theorem Renewed.buffer (h : Renewed log key r) (now : Nat) :
    ∃ as, MadeOf log key as (r.buffer key now) := by
  rw [Reassembler.buffer]
  cases hg : r.cache.get? key with
  | some b => exact h b hg
  | none => exact ⟨[], ⟨now, rfl⟩, fun _ ha => (by cases ha), List.nil_sublist log⟩

/-- A fragment goes into the slot of its datagram and into the log. -/
theorem Renewed.offer (h : Renewed log key r) (hp : p.isFragment = true) (now : Nat) :
    Renewed (log ++ absorbedIn now [(r, p)]) key (r.offer p now).2 ∧
      ∀ d, FragmentKey.of? p = some key → (r.offer p now).1 = .complete d →
        AssembledFrom (log ++ absorbedIn now [(r, p)]) key d := by
  obtain ⟨own, f, hkey, hinfo⟩ := exists_key_of_isFragment hp
  have ho := offered_offer r now hkey hinfo
  have hlog : (r.offer p now).1.absorbs = true → absorbedIn now [(r, p)] = [p] := fun ha => by
    simp [absorbedIn, ha]
  have hold := h.mono (List.sublist_append_left log (absorbedIn now [(r, p)]))
  by_cases hown : key = own
  swap
  · -- Another slot is written, if one is.
    refine ⟨fun b hb => hold b ((ho.frame hown).symm.trans hb), fun d hd => ?_⟩
    rw [hkey] at hd
    exact absurd (Option.some.inj hd).symm hown
  subst hown
  obtain ⟨as, hmade⟩ := h.buffer now
  generalize r.offer p now = o at ho hlog ⊢
  obtain ⟨a, s⟩ := o
  have herased : (r.cache.erase key).get? key = none := by rw [Table.get?_erase, if_pos rfl]
  cases ho with
  | denied => exact ⟨hold, fun d _ hd => (by cases hd)⟩
  | refused => exact ⟨hold, fun d _ hd => (by cases hd)⟩
  | discarded =>
    exact ⟨fun b hb => (by cases herased.symm.trans hb), fun d _ hd => (by cases hd)⟩
  | @complete b d hadd hc hd =>
    refine ⟨fun b hb => (by cases herased.symm.trans hb), fun d' _ hd' => ?_⟩
    cases hd'
    rw [hlog rfl]
    exact ⟨_, b, hmade.add? hkey hinfo hadd, hc, hd⟩
  | @started b _ _ hadd =>
    refine ⟨fun b' hb => ?_, fun d _ hd => (by cases hd)⟩
    have hb : (r.cache.insert key b).get? key = some b' := hb
    rw [Table.get?_insert, if_pos rfl] at hb
    cases hb
    rw [hlog rfl]
    exact ⟨_, hmade.add? hkey hinfo hadd⟩
  | @progress b _ hadd =>
    refine ⟨fun b' hb => ?_, fun d _ hd => (by cases hd)⟩
    have hb : (r.cache.insert key b).get? key = some b' := hb
    rw [Table.get?_insert, if_pos rfl] at hb
    cases hb
    rw [hlog rfl]
    exact ⟨_, hmade.add? hkey hinfo hadd⟩

/-- Along a chain of offers the log grows by what was absorbed. -/
theorem Renewed.offers (h : Renewed log key r) (ho : Offers now r os s)
    (hfrag : ∀ o ∈ os, o.2.isFragment = true) :
    Renewed (log ++ absorbedIn now os) key s ∧
      ∀ d ∈ completedIn now (os.filter fun o => FragmentKey.of? o.2 = some key),
        AssembledFrom (log ++ absorbedIn now os) key d := by
  induction ho generalizing log with
  | refl r => exact ⟨by simpa [absorbedIn] using h, fun d hd => (by cases hd)⟩
  | queue waiting octets _ ih => exact ih h hfrag
  | @offer r s os p _ ih =>
    obtain ⟨hp, hrest⟩ := List.forall_mem_cons.mp hfrag
    obtain ⟨hnext, hcompleted⟩ := h.offer hp now
    obtain ⟨hs, hlater⟩ := ih hnext hrest
    rw [List.append_assoc, ← absorbedIn_cons] at hs hlater
    refine ⟨hs, fun d hd => ?_⟩
    obtain ⟨o, ho, hd⟩ := List.mem_flatMap.mp hd
    obtain ⟨ho, hkey⟩ := List.mem_filter.mp ho
    obtain rfl | ho := List.mem_cons.mp ho
    · have hcomplete : (r.offer p now).1 = .complete d := by
        cases ha : (r.offer p now).1 with
        | complete d' =>
          rw [ha] at hd
          rw [List.mem_singleton.mp hd]
        | _ =>
          rw [ha] at hd
          cases hd
      refine (hcompleted d (by simpa using hkey) hcomplete).mono ?_
      rw [absorbedIn_cons _ os, ← List.append_assoc]
      exact List.sublist_append_left _ _
    · exact hlater d (List.mem_flatMap.mpr ⟨o, List.mem_filter.mpr ⟨ho, hkey⟩, hd⟩)

/-! ## Runs -/

/-- Only fragments wait after an operation if only fragments waited before it. -/
theorem isFragment_of_mem_waiting_apply (op : Operation)
    (hfrag : ∀ p ∈ r.waiting, p.isFragment = true) :
    ∀ p ∈ (r.apply op).waiting, p.isFragment = true := by
  intro p hp
  have hmem := (settled_apply op r).order.subset (List.mem_append_right _ hp)
  rcases List.mem_append.mp hmem with hp | hp
  · exact hfrag p hp
  · exact isFragment_of_mem_taken hp

/-- Whatever is asked, what the slot holds and all that is completed in it is made of what was in
the log before or was absorbed since. -/
theorem Renewed.run (ops : List Operation) (h : Renewed log key r)
    (hfrag : ∀ p ∈ r.waiting, p.isFragment = true) :
    Renewed (log ++ total absorbed r ops) key (ops.foldl (fun r op => r.apply op) r) ∧
      ∀ d ∈ total (completedOf key) r ops, AssembledFrom (log ++ total absorbed r ops) key d := by
  induction ops generalizing r log with
  | nil => exact ⟨by simpa [total] using h, fun d hd => (by cases hd)⟩
  | cons op ops ih =>
    have hcleared : Renewed log key (r.cleared op) :=
      fun b hb => h b ((cleared_spec op r).1 key b hb)
    obtain ⟨hnext, hcompleted⟩ := hcleared.offers (offers_apply op r) fun _ ho =>
      isFragment_of_mem_offers hfrag ho
    obtain ⟨hend, hlater⟩ := ih hnext (isFragment_of_mem_waiting_apply op hfrag)
    rw [List.append_assoc] at hend hlater
    refine ⟨hend, fun d hd => ?_⟩
    rcases List.mem_append.mp hd with hd | hd
    · refine (hcompleted d hd).mono ?_
      exact (List.Sublist.refl log).append (List.sublist_append_left _ _)
    · exact hlater d hd

/-- Nothing was begun later than the last operation. -/
theorem created_le_run (h : ∀ op ∈ ops, op.time ≤ now)
    (hb : (run limits ops).cache.get? key = some b) : b.created ≤ now := by
  induction ops using List.reverseRecOn generalizing key b with
  | nil => cases hb
  | append_singleton ops op ih =>
    rw [run_concat] at hb
    obtain hnow | ⟨b', hb', hage⟩ := (offers_apply op (run limits ops)).ages.1 key b hb
    · rw [hnow]
      exact h op (List.mem_append_right _ List.mem_cons_self)
    · rw [← hage]
      exact ih (fun op hop => h op (List.mem_append_left _ hop))
        ((cleared_spec op (run limits ops)).1 key b' hb')

/-- What dropping the datagrams that are too old does to a reassembler that absorbed the log. -/
structure Evicts (log : List Packet) (r : Reassembler) (now : Nat) : Prop where
  /-- A datagram is due if and only if one is dropped, -/
  due : (∃ m, r.nextExpiry = some m ∧ m ≤ now) ↔ r.expired now ≠ []
  /-- and where none is, nothing changes. -/
  idle : r.expired now = [] → r.evict now = ({}, r)
  /-- Exactly what is too old is gone when the first fragment that waits is offered, -/
  removed : ∀ key, (r.cleared (.evict now)).cache.get? key =
    (r.cache.get? key).filter fun b => !r.isExpired now b
  /-- and these offers are all that happens then. -/
  refilled : Offers now (r.cleared (.evict now)) (r.offers (.evict now)) (r.evict now).2 ∧
    ∀ o ∈ r.offers (.evict now), o.2 ∈ r.waiting
  /-- A datagram that was not too old is held on, unless a fragment that waited finishes it, -/
  stays : ∀ key b, r.cache.get? key = some b → r.isExpired now b = false →
    (∃ b', (r.evict now).2.cache.get? key = some b' ∧ b'.created = b.created) ∨
      ∃ o ∈ r.offers (.evict now), FragmentKey.of? o.2 = some key ∧ o.1.Finishes o.2 now
  /-- and a slot that no fragment waits for is as it was, unless its datagram was too old. -/
  kept : ∀ key, (∀ p ∈ r.waiting, FragmentKey.of? p ≠ some key) →
    (r.evict now).2.cache.get? key = (r.cache.get? key).filter fun b => !r.isExpired now b
  counted : (r.evict now).2.stats.timedOut = r.stats.timedOut + (r.expired now).length
  /-- A buffer has the first of its fragments that starts the datagram, -/
  captured : ∀ key b, r.cache.get? key = some b → ∃ as, MadeOf log key as b ∧
    b.first = (as.find? fun a => a.info.offset = 0).map (·.packet)
  /-- which is told if it has one and was not for a group, -/
  told : ∀ p, p ∈ (r.evict now).1.timedOut ↔ ∃ key b, r.cache.get? key = some b ∧
    r.isExpired now b = true ∧ b.first = some p ∧ p.destination.isMulticast = false
  /-- once for each datagram. -/
  once : ((r.evict now).1.timedOut.map FragmentKey.of?).Nodup
  /-- Under the key of a datagram that was dropped, there is one that was begun in this moment or
  none, -/
  begun : ∀ key b, r.cache.get? key = some b → r.isExpired now b = true →
    ∀ b', (r.evict now).2.cache.get? key = some b' → b'.created = now
  /-- and whatever is asked later, all that is completed for the key is made of what was absorbed
  since. -/
  renewed : ∀ key b, r.cache.get? key = some b → r.isExpired now b = true →
    ∀ later : List Operation, ∀ d ∈ total (completedOf key) r (.evict now :: later),
      AssembledFrom (total absorbed r (.evict now :: later)) key d

/-- After any run that leads to the moment, what is dropped is exactly what is too old. -/
theorem evicts_run (limits : Limits) (ops : List Operation) (now : Nat)
    (h : ∀ op ∈ ops, op.time ≤ now) :
    Evicts (total absorbed { limits } ops) (run limits ops) now := by
  have hbooks := books_run limits ops
  generalize hr : run limits ops = r at hbooks
  have hchain := offers_apply (.evict now) r
  have hfrag := hbooks.isFragment
  refine {
    due := nextExpiry_le_iff fun key b hb => created_le_run h (hr ▸ hb)
    idle := evict_of_not_expired
    removed := get?_cleared r now
    refilled := ⟨hchain, fun o => mem_waiting_of_mem_offers_evict⟩
    stays := fun key b hb hyoung => ?_
    kept := fun key hkey => ?_
    counted := timedOut_stats_evict r now
    captured := fun key b hb => ?_
    told := fun p => mem_timedOut_evict
    once := hbooks.buffers.nodup_timedOut now
    begun := fun key b hb hold b' hb' => ?_
    renewed := fun key b hb hold later => ?_ }
  · refine hchain.stays ?_
    rw [get?_cleared, hb, Option.filter_some, hyoung]
    rfl
  · rw [← get?_cleared]
    exact hchain.get?_of_not_offered fun o ho => hkey _ (mem_waiting_of_mem_offers_evict ho)
  · obtain ⟨-, as, -, hmade⟩ := hbooks.buffers key b hb
    exact ⟨as, hmade, hmade.first⟩
  · obtain hnow | ⟨c, hc, -⟩ := hchain.ages.1 key b' hb'
    · exact hnow
    · rw [get?_cleared_of_isExpired hb hold] at hc
      cases hc
  · -- The slot is empty once the datagram was dropped, so it starts with an empty log.
    have hempty : Renewed [] key (r.cleared (.evict now)) := fun c hc => by
      rw [get?_cleared_of_isExpired hb hold] at hc
      cases hc
    obtain ⟨hnext, hcompleted⟩ := hempty.offers hchain fun _ ho => isFragment_of_mem_offers hfrag ho
    obtain ⟨-, hlater⟩ := hnext.run later (isFragment_of_mem_waiting_apply _ hfrag)
    intro d hd
    rcases List.mem_append.mp hd with hd | hd
    · exact (hcompleted d hd).mono (List.sublist_append_left _ _)
    · exact hlater d hd

/-- The start of a datagram from 2001:db8::5 to 2001:db8::2. -/
def unicastStart : Packet :=
  (Packet.buildV6 #v[0x20, 1, 0x0d, 0xb8, 0, 0, 0, 0, 0, 0, 0, 0, 0, 0, 0, 5]
    #v[0x20, 1, 0x0d, 0xb8, 0, 0, 0, 0, 0, 0, 0, 0, 0, 0, 0, 2] Protocol.fragment 16 none
    [17, 0, 0, 1, 0, 0, 0, 9, 1, 2, 3, 4, 5, 6, 7, 8]).toOption.get (by decide +kernel)

/-- The datagram that has the only slot is dropped and told when it is too old, although a
fragment waits. -/
theorem unicastStart_evicted :
    let ops := [.process unicastStart 0, .process headFragment 3]
    let r := run { slots := 1, timeout := 10 } ops
    (∀ op ∈ ops, op.time ≤ 10) ∧ (∃ m, r.nextExpiry = some m ∧ m ≤ 10) ∧
      unicastStart ∈ (r.evict 10).1.timedOut ∧ (r.evict 10).2.stats.timedOut = 1 ∧
      ∃ key, FragmentKey.of? unicastStart = some key ∧ (r.evict 10).2.cache.get? key = none := by
  intro ops r
  have hclock : ∀ op ∈ ops, op.time ≤ 10 := by decide
  have h := evicts_run { slots := 1, timeout := 10 } ops 10 hclock
  obtain ⟨key, hkey⟩ := Option.isSome_iff_exists.mp
    (show (FragmentKey.of? unicastStart).isSome = true by decide +kernel)
  obtain ⟨b, hb, hold⟩ : ∃ b, r.cache.get? key = some b ∧
      (r.isExpired 10 b = true ∧ b.first = some unicastStart) := by
    have hslot : ((FragmentKey.of? unicastStart).bind r.cache.get?).any
        (fun b => r.isExpired 10 b && b.first == some unicastStart) = true := by decide +kernel
    rw [hkey, Option.bind_some] at hslot
    cases hb : r.cache.get? key with
    | none =>
      rw [hb] at hslot
      cases hslot
    | some b =>
      rw [hb] at hslot
      exact ⟨b, rfl, by simpa using hslot⟩
  refine ⟨hclock, h.due.mpr (List.ne_nil_of_mem (mem_expired.mpr ⟨hb, hold.1⟩)),
    (h.told _).mpr ⟨key, b, hb, hold.1, hold.2, by decide +kernel⟩, ?_, key, hkey, ?_⟩
  · rw [h.counted]
    decide +kernel
  · have hwaits : ∀ p ∈ r.waiting, FragmentKey.of? p ≠ FragmentKey.of? unicastStart := by
      decide +kernel
    rw [h.kept key fun p hp => hkey ▸ hwaits p hp, hb, Option.filter_some, hold.1]
    rfl

end MulticastTunnel.Reassembly.Reassembler
