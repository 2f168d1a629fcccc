import MulticastTunnel.Proofs.Reassembly.Links

/-!
# Missing octets

Which octets the holes of a list are for, octet by octet. Holes stand apart:
each is as large as it can be. So the hole that a last fragment reaches into is
all that lies behind the fragment without a gap, and cutting it off drops no
more than that.
-/

namespace MulticastTunnel.Reassembly.HoleList

variable {ss : List Span} {s t : Span} {first last n : Nat} {more : Bool}

/-- The octet lies in one of the holes. -/
def Missing (ss : List Span) (n : Nat) : Prop := ∃ s ∈ ss, s.first ≤ n ∧ n ≤ s.last

/-- The spans are not empty, in ascending order, and do not touch. -/
structure Apart (ss : List Span) : Prop where
  proper : ∀ s ∈ ss, s.first ≤ s.last
  pairwise : ss.Pairwise fun s t => s.last + 1 < t.first

/-! ## One span -/

theorem mem_cutSpan : t ∈ cutSpan first last more s ↔
    (s.last < first ∨ last < s.first) ∧ t = s ∨
    ¬ (s.last < first ∨ last < s.first) ∧
      (s.first < first ∧ t = ⟨s.first, first - 1⟩ ∨
        last < s.last ∧ more = true ∧ t = ⟨last + 1, s.last⟩) := by
  simp only [cutSpan]
  by_cases hd : s.last < first ∨ last < s.first
  · simp [hd]
  · rw [if_neg hd, List.mem_append]
    by_cases hf : s.first < first <;> by_cases hl : last < s.last ∧ more = true <;>
      simp only [hf, hl, hd, if_true, if_false, List.mem_singleton, List.not_mem_nil, true_and,
        false_and, not_false_eq_true, false_or, or_false, and_true] <;>
      grind

/-- What is left of a span lies inside it, and does not touch itself. -/
theorem apart_cutSpan (hr : first ≤ last) (hs : s.first ≤ s.last) :
    (∀ t ∈ cutSpan first last more s, s.first ≤ t.first ∧ t.first ≤ t.last ∧ t.last ≤ s.last) ∧
      (cutSpan first last more s).Pairwise fun t u => t.last + 1 < u.first := by
  constructor
  · intro t ht
    rcases mem_cutSpan.mp ht with ⟨-, rfl⟩ | ⟨hd, ⟨hf, rfl⟩ | ⟨hl, -, rfl⟩⟩
    · exact ⟨Nat.le_refl _, hs, Nat.le_refl _⟩
    · show s.first ≤ s.first ∧ s.first ≤ first - 1 ∧ first - 1 ≤ s.last
      omega
    · show s.first ≤ last + 1 ∧ last + 1 ≤ s.last ∧ s.last ≤ s.last
      omega
  · unfold cutSpan
    split
    · exact List.pairwise_singleton _ _
    · split <;> split <;> simp
      omega

theorem missing_cutSpan : Missing (cutSpan first last more s) n ↔
    (s.first ≤ n ∧ n ≤ s.last) ∧
      (n < first ∨ last < n ∧ (more = true ∨ last < s.first)) := by
  simp only [Missing, mem_cutSpan]
  constructor
  · rintro ⟨t, ⟨hd, rfl⟩ | ⟨hd, ⟨hf, rfl⟩ | ⟨hl, hm, rfl⟩⟩, h₁, h₂⟩
    · exact ⟨⟨h₁, h₂⟩, by omega⟩
    · simp only at h₁ h₂
      exact ⟨by omega, by omega⟩
    · simp only at h₁ h₂
      exact ⟨by omega, .inr ⟨by omega, .inl hm⟩⟩
  · rintro ⟨⟨h₁, h₂⟩, hn⟩
    by_cases hd : s.last < first ∨ last < s.first
    · exact ⟨s, .inl ⟨hd, rfl⟩, h₁, h₂⟩
    rcases hn with hn | ⟨hn, hm | hb⟩
    · exact ⟨⟨s.first, first - 1⟩, .inr ⟨hd, .inl ⟨by omega, rfl⟩⟩, h₁, by simp only; omega⟩
    · exact ⟨⟨last + 1, s.last⟩, .inr ⟨hd, .inr ⟨by omega, hm, rfl⟩⟩, by simp only; omega, h₂⟩
    · exact absurd (.inr hb) hd

/-! ## All spans -/

theorem apart_cut (h : Apart ss) (hr : first ≤ last) (more : Bool) :
    Apart (ss.flatMap (cutSpan first last more)) where
  proper t ht := by
    obtain ⟨s, hs, hts⟩ := List.mem_flatMap.mp ht
    exact ((apart_cutSpan hr (h.proper s hs)).1 t hts).2.1
  pairwise := by
    rw [List.pairwise_flatMap]
    refine ⟨fun s hs => (apart_cutSpan hr (h.proper s hs)).2, ?_⟩
    refine h.pairwise.imp_of_mem fun hs hs' hlt t ht u hu => ?_
    have h₁ := (apart_cutSpan hr (h.proper _ hs)).1 t ht
    have h₂ := (apart_cutSpan hr (h.proper _ hs')).1 u hu
    omega

theorem missing_flatMap {f : Span → List Span} :
    Missing (ss.flatMap f) n ↔ ∃ s ∈ ss, Missing (f s) n := by
  simp only [Missing, List.mem_flatMap]
  constructor
  · rintro ⟨t, ⟨s, hs, ht⟩, hn⟩
    exact ⟨s, hs, t, ht, hn⟩
  · rintro ⟨s, hs, t, ht, hn⟩
    exact ⟨t, ⟨s, hs, ht⟩, hn⟩

/-- With more to follow, cutting a range out takes just that range. -/
theorem missing_cut :
    Missing (ss.flatMap (cutSpan first last true)) n ↔
      Missing ss n ∧ ¬ (first ≤ n ∧ n ≤ last) := by
  simp only [missing_flatMap, missing_cutSpan, true_or, and_true]
  constructor
  · rintro ⟨s, hs, hn, hout⟩
    exact ⟨⟨s, hs, hn⟩, by omega⟩
  · rintro ⟨⟨s, hs, hn⟩, hout⟩
    exact ⟨s, hs, hn, by omega⟩

/-- The octet before a span is not missing. -/
theorem Apart.not_missing_before (h : Apart ss) (hs : s ∈ ss) (hn : n + 1 = s.first) :
    ¬ Missing ss n := by
  rintro ⟨t, ht, h₁, h₂⟩
  have hp := h.proper s hs
  have hq := h.proper t ht
  -- Two spans are the same or do not touch, in either order.
  have hor : s = t ∨ s.last + 1 < t.first ∨ t.last + 1 < s.first := by
    obtain ⟨i, hi, rfl⟩ := List.getElem_of_mem hs
    obtain ⟨j, hj, rfl⟩ := List.getElem_of_mem ht
    have hall := List.pairwise_iff_getElem.mp h.pairwise
    rcases Nat.lt_trichotomy i j with hij | rfl | hij
    · exact .inr (.inl (hall i j hi hj hij))
    · exact .inl rfl
    · exact .inr (.inr (hall j i hj hi hij))
  rcases hor with rfl | hlt | hlt <;> omega

/-- When nothing follows, what lies behind the range without a gap goes too. -/
theorem missing_cut_end (h : Apart ss) (hr : first ≤ last) :
    Missing (ss.flatMap (cutSpan first last false)) n ↔
      Missing ss n ∧ (n < first ∨ last < n ∧ ∃ m, last ≤ m ∧ m ≤ n ∧ ¬ Missing ss m) := by
  simp only [missing_flatMap, missing_cutSpan, Bool.false_eq_true, false_or]
  constructor
  · rintro ⟨s, hs, hn, hlt | ⟨hlt, hb⟩⟩
    · exact ⟨⟨s, hs, hn⟩, .inl hlt⟩
    · refine ⟨⟨s, hs, hn⟩, .inr ⟨hlt, s.first - 1, by omega, by omega, ?_⟩⟩
      exact h.not_missing_before hs (by omega)
  · rintro ⟨⟨s, hs, hn⟩, hlt | ⟨hlt, m, h₁, h₂, hm⟩⟩
    · exact ⟨s, hs, hn, .inl hlt⟩
    · refine ⟨s, hs, hn, .inr ⟨hlt, Nat.lt_of_le_of_lt h₁ ?_⟩⟩
      by_contra hge
      exact hm ⟨s, hs, by omega, by omega⟩

theorem apart_whole : Apart [⟨0, boundless⟩] where
  proper s hs := by cases List.mem_singleton.mp hs; exact Nat.zero_le _
  pairwise := List.pairwise_singleton _ _

theorem missing_whole : Missing [⟨0, boundless⟩] n ↔ n ≤ boundless := by
  simp [Missing]

/-- A list of holes is empty when nothing is missing. -/
theorem Apart.eq_nil_iff (h : Apart ss) : ss = [] ↔ ∀ n, ¬ Missing ss n := by
  constructor
  · rintro rfl n ⟨s, hs, -⟩
    cases hs
  · intro hn
    apply List.eq_nil_iff_forall_not_mem.mpr
    intro s hs
    exact hn s.first ⟨s, hs, Nat.le_refl _, h.proper s hs⟩

end MulticastTunnel.Reassembly.HoleList
