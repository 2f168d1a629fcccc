import Mathlib.Data.List.Nodup
import MulticastTunnel.Proofs.Reassembly.Absorbing
import MulticastTunnel.Proofs.Reassembly.Offering

/-!
# Admission to the cache

What offering a fragment does when all fragments belong to some datagrams with
keys of their own: it is denied for want of a slot, or absorbed, and the one
that completes its datagram takes it out of the cache.
-/

namespace MulticastTunnel.Reassembly

open Keyed

/-- Datagrams that do not share a key, and no fragment of which is empty. -/
structure Distinct (ds : List Fragmented) : Prop where
  keys : (ds.map (·.key)).Nodup
  nonEmpty : ∀ d ∈ ds, d.NonEmpty

variable {ds : List Fragmented} {d e : Fragmented} {A A' : List Packet} {p : Packet}
  {cache : Table FragmentKey Buffer} {r : Reassembler}

namespace Distinct

theorem eq_of_key_eq (h : Distinct ds) (hd : d ∈ ds) (he : e ∈ ds) (hk : d.key = e.key) : d = e :=
  List.inj_on_of_nodup_map h.keys hd he hk

/-- A fragment belongs to one datagram. -/
theorem eq_of_mem (h : Distinct ds) (hd : d ∈ ds) (he : e ∈ ds) (hpd : p ∈ d.fragments)
    (hpe : p ∈ e.fragments) : d = e := by
  apply h.eq_of_key_eq hd he
  have := Fragmented.key_eq hpd
  rw [Fragmented.key_eq hpe, Option.some.injEq] at this
  exact this.symm

theorem nodup (h : Distinct ds) : ds.Nodup := h.keys.of_map _

/-- All fragments of all datagrams are different ones. -/
theorem nodup_fragments (h : Distinct ds) : (ds.flatMap (·.fragments)).Nodup := by
  rw [List.nodup_flatMap]
  refine ⟨fun d hd => d.tiles.nodup (h.nonEmpty d hd), ?_⟩
  refine h.nodup.imp_of_mem fun {d e} hd he hne => ?_
  exact List.disjoint_left.mpr fun p hpd hpe => hne (h.eq_of_mem hd he hpd hpe)

end Distinct

/-! ## The cache -/

/-- The cache holds what came of the datagrams that are not complete. -/
structure Absorbs (ds : List Fragmented) (A : List Packet) (cache : Table FragmentKey Buffer) :
    Prop where
  held : ∀ key b, cache.get? key = some b →
    ∃ d ∈ ds, d.key = key ∧ d.Holds A b ∧ ¬ d.Complete A
  kept : ∀ d ∈ ds, ∀ p ∈ d.fragments, p ∈ A → ¬ d.Complete A →
    (cache.get? d.key).isSome = true

theorem absorbs_nothing (ds : List Fragmented) : Absorbs ds [] ∅ where
  held _ _ h := by cases h
  kept _ _ _ _ h := by cases h

/-- Only fragments of the datagram itself matter to what a buffer holds. -/
theorem Fragmented.Holds.congr {b : Buffer} (h : d.Holds A b)
    (hA : ∀ p ∈ d.fragments, (p ∈ A' ↔ p ∈ A)) : d.Holds A' b := by
  have harr : ∀ n, d.Arrived A' n ↔ d.Arrived A n := by
    intro n
    constructor
    · rintro ⟨p, hp, hm, hc⟩
      exact ⟨p, hp, (hA p hp).mp hm, hc⟩
    · rintro ⟨p, hp, hm, hc⟩
      exact ⟨p, hp, (hA p hp).mpr hm, hc⟩
  have hend : d.Ended A' ↔ d.Ended A := by
    constructor
    · rintro ⟨p, hp, hm, hc⟩
      exact ⟨p, hp, (hA p hp).mp hm, hc⟩
    · rintro ⟨p, hp, hm, hc⟩
      exact ⟨p, hp, (hA p hp).mpr hm, hc⟩
  have hfirst := hA d.first List.mem_cons_self
  obtain ⟨total, noTotal, first, noFirst, data, holes⟩ := h
  rw [← hend] at total noTotal
  rw [← hfirst] at first noFirst
  refine ⟨total, noTotal, first, noFirst, fun n hn => data n ((harr n).mp hn), ?_⟩
  simpa only [harr, hend] using holes

/-- A fragment of another datagram changes nothing. -/
theorem mem_cons_of_ne (hs : Distinct ds) (hd : d ∈ ds) (he : e ∈ ds) (hne : e ≠ d)
    (hp : p ∈ d.fragments) : ∀ q ∈ e.fragments, (q ∈ p :: A ↔ q ∈ A) := by
  intro q hq
  rw [List.mem_cons]
  refine or_iff_right fun hqp => hne ?_
  subst hqp
  exact hs.eq_of_mem he hd hq hp

theorem complete_cons_of_ne (hs : Distinct ds) (hd : d ∈ ds) (he : e ∈ ds) (hne : e ≠ d)
    (hp : p ∈ d.fragments) : e.Complete (p :: A) ↔ e.Complete A := by
  have hq := mem_cons_of_ne (A := A) hs hd he hne hp
  exact ⟨fun h q hm => (hq q hm).mp (h q hm), fun h q hm => (hq q hm).mpr (h q hm)⟩

/-- The cache may change under the key of the datagram whose fragment came. -/
theorem Absorbs.cons (h : Absorbs ds A cache) (hs : Distinct ds) (hd : d ∈ ds)
    (hp : p ∈ d.fragments) {cache' : Table FragmentKey Buffer}
    (hother : ∀ key, key ≠ d.key → cache'.get? key = cache.get? key)
    (hheld : ∀ b, cache'.get? d.key = some b → d.Holds (p :: A) b ∧ ¬ d.Complete (p :: A))
    (hkept : ¬ d.Complete (p :: A) → (cache'.get? d.key).isSome = true) :
    Absorbs ds (p :: A) cache' where
  held key b hb := by
    by_cases hk : key = d.key
    · subst hk
      exact ⟨d, hd, rfl, hheld b hb⟩
    · rw [hother key hk] at hb
      obtain ⟨e, he, rfl, hh, hc⟩ := h.held key b hb
      have hne : e ≠ d := fun heq => hk (congrArg Fragmented.key heq)
      refine ⟨e, he, rfl, hh.congr (mem_cons_of_ne hs hd he hne hp), ?_⟩
      rwa [complete_cons_of_ne hs hd he hne hp]
  kept e he q hq hm hc := by
    by_cases hne : e = d
    · subst hne
      exact hkept hc
    · rw [hother e.key fun hk => hne (hs.eq_of_key_eq he hd hk)]
      apply h.kept e he q hq ((mem_cons_of_ne hs hd he hne hp q hq).mp hm)
      rwa [complete_cons_of_ne hs hd he hne hp] at hc

/-- What the cache has under the key of a datagram, or would start with. -/
theorem Absorbs.holds (h : Absorbs ds A cache) (hs : Distinct ds) (hd : d ∈ ds)
    (hp : p ∈ d.fragments) (hA : p ∉ A) (now : Nat) :
    d.Holds A ((cache.get? d.key).getD (.fresh now)) := by
  cases hg : cache.get? d.key with
  | some b =>
    obtain ⟨e, he, hk, hh, -⟩ := h.held d.key b hg
    cases hs.eq_of_key_eq he hd hk
    exact hh
  | none =>
    refine Fragmented.holds_fresh (fun q hq hm => ?_) now
    have := h.kept d hd q hq hm fun hc => hA (hc p hp)
    rw [hg] at this
    cases this

/-- **Admission**: a fragment that did not come yet is denied for want of a slot,
completes its datagram, or is taken into the cache. -/
theorem offer_cases (h : Absorbs ds A r.cache) (hs : Distinct ds) (hd : d ∈ ds)
    (hp : p ∈ d.fragments) (hA : p ∉ A) (now : Nat) :
    (r.cache.get? d.key = none ∧ r.limits.slots ≤ r.cache.size ∧
      ∃ stats, r.offer p now = (.denied, { r with stats })) ∨
    (d.Complete (p :: A) ∧ Absorbs ds (p :: A) (r.cache.erase d.key) ∧
      ∃ stats, r.offer p now =
        (.complete d.whole, { r with cache := r.cache.erase d.key, stats })) ∨
    (¬ d.Complete (p :: A) ∧
      ((r.cache.get? d.key).isSome = true ∨ r.cache.size < r.limits.slots) ∧
      ∃ b, Absorbs ds (p :: A) (r.cache.insert d.key b) ∧
        r.offer p now = (if (r.cache.get? d.key).isNone then .started else .progress,
          { r with cache := r.cache.insert d.key b })) := by
  have hne := hs.nonEmpty d hd
  obtain ⟨f, b, hf, hadd, hh⟩ := (h.holds hs hd hp hA now).add? hne hp hA
  have hadd : (r.buffer d.key now).add? p f = some b := hadd
  have hinsert : b.isComplete = false →
      ¬ d.Complete (p :: A) ∧ Absorbs ds (p :: A) (r.cache.insert d.key b) := by
    intro hc
    have hall : ¬ d.Complete (p :: A) := by
      intro hall
      rw [(hh.isComplete_iff hne).mpr hall] at hc
      cases hc
    refine ⟨hall, h.cons hs hd hp ?_ ?_ ?_⟩
    · intro key hk
      rw [Table.get?_insert, if_neg hk]
    · intro b' hb
      rw [Table.get?_insert, if_pos rfl] at hb
      cases hb
      exact ⟨hh, hall⟩
    · intro _
      rw [Table.get?_insert, if_pos rfl]
      rfl
  have ho := Reassembler.offered_offer r now (Fragmented.key_eq hp) hf
  generalize r.offer p now = o at ho ⊢
  obtain ⟨a, s⟩ := o
  cases ho with
  | denied hnone hfull => exact .inl ⟨hnone, hfull, _, rfl⟩
  | refused hno =>
    rw [hadd] at hno
    cases hno
  | discarded hadd' hc hfail =>
    cases hadd.symm.trans hadd'
    exact absurd (hh.assemble? ((hh.isComplete_iff hne).mp hc)) (hfail _)
  | complete hadd' hc hwhole =>
    cases hadd.symm.trans hadd'
    have hall := (hh.isComplete_iff hne).mp hc
    cases (hh.assemble? hall).symm.trans hwhole
    refine .inr (.inl ⟨hall, ?_, _, rfl⟩)
    refine h.cons hs hd hp (fun key hk => ?_) (fun b hb => ?_) fun hn => absurd hall hn
    · rw [Table.get?_erase, if_neg hk]
    · rw [Table.get?_erase, if_pos rfl] at hb
      cases hb
  | started hnone hlt hadd' hc =>
    cases hadd.symm.trans hadd'
    obtain ⟨hall, habs⟩ := hinsert hc
    exact .inr (.inr ⟨hall, .inr hlt, b, habs, by rw [hnone]; rfl⟩)
  | progress hheld hadd' hc =>
    cases hadd.symm.trans hadd'
    obtain ⟨hall, habs⟩ := hinsert hc
    refine .inr (.inr ⟨hall, .inl hheld, b, habs, ?_⟩)
    rw [if_neg (by simpa [← Option.isSome_iff_ne_none] using hheld)]

end MulticastTunnel.Reassembly
