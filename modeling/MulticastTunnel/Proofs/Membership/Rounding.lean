import Mathlib.Algebra.Group.Nat.Defs
import Mathlib.Order.Bounds.Basic
import Mathlib.Order.Monotone.Basic
import MulticastTunnel.Membership.ExponentialCode

/-!
# Rounding by exponential codes

A number is written as the code of the largest number that has one and is not above it. Codes
below the limit are the numbers themselves; the others are `compose e m`, a mantissa behind its
leading one under an exponent, and `Rounds` tells which of them a number is written as. A greater
code stands for a greater number, so the code of a number that has one is that code again, and
between two neighbours there is no more room than a mantissa leaves.
-/

namespace MulticastTunnel.Membership.ExponentialCode

variable {c : ExponentialCode} {n e m code : Nat}

/-- A number that some code stands for. -/
def Codable (c : ExponentialCode) (n : Nat) : Prop := ∃ code < 2 * c.limit, c.decode code = n

/-- The times that codes tell when they count in steps of `unit`. -/
def times (c : ExponentialCode) (unit : Nat) : Set Nat := {t | ∃ k, c.Codable k ∧ t = k * unit}

/-- The code of a mantissa, without its leading one, and an exponent. -/
def compose (c : ExponentialCode) (e m : Nat) : Nat := c.limit + e * c.leading + m

theorem leading_pos (c : ExponentialCode) : 0 < c.leading := Nat.pow_pos (by decide)

theorem limit_eq (c : ExponentialCode) : c.limit = 8 * c.leading := rfl

/-- A mantissa twice the leading one has the next exponent. -/
theorem two_mul_leading (c : ExponentialCode) (e : Nat) :
    2 * c.leading * 2 ^ e = c.leading * 2 ^ (e + 1) := by
  rw [Nat.pow_succ', Nat.mul_assoc, Nat.mul_left_comm]

/-- A greater exponent at least doubles what the leading one stands for. -/
theorem two_mul_leading_le {i j : Nat} (h : i < j) :
    2 * c.leading * 2 ^ (i + 3) ≤ c.leading * 2 ^ (j + 3) := by
  rw [two_mul_leading]
  exact Nat.mul_le_mul_left _ (Nat.pow_le_pow_right (by decide) (by omega))

/-- Small codes stand for less than any leading one. -/
theorem limit_le (c : ExponentialCode) (e : Nat) : c.limit ≤ c.leading * 2 ^ (e + 3) := by
  have height : 2 ^ 3 ≤ 2 ^ (e + 3) := Nat.pow_le_pow_right (by decide) (by omega)
  have := Nat.mul_le_mul_left c.leading height
  rw [limit_eq]
  omega

theorem decode_of_lt (h : code < c.limit) : c.decode code = code := if_pos h

theorem decode_compose (he : e < 8) (hm : m < c.leading) :
    c.decode (c.compose e m) = (c.leading + m) * 2 ^ (e + 3) := by
  have hpos := c.leading_pos
  have hcode : c.compose e m = m + (8 + e) * c.leading := by
    rw [compose, limit_eq, Nat.add_mul]
    omega
  have hhigh : c.compose e m / c.leading % 8 = e := by
    rw [hcode, Nat.add_mul_div_right _ _ hpos, Nat.div_eq_of_lt hm]
    omega
  have hlow : c.compose e m % c.leading = m := by
    rw [hcode, Nat.add_mul_mod_self_right, Nat.mod_eq_of_lt hm]
  have hlarge : ¬ c.compose e m < c.limit := by
    rw [compose]
    omega
  simp only [decode, if_neg hlarge, hhigh, hlow, Nat.pow_eq]

/-- Every code that is no small number has an exponent and a mantissa. -/
theorem exists_compose (hlow : c.limit ≤ code) (hhigh : code < 2 * c.limit) :
    ∃ e < 8, ∃ m < c.leading, code = c.compose e m := by
  have hpos := c.leading_pos
  have hsplit := Nat.div_add_mod' code c.leading
  have hmod := Nat.mod_lt code hpos
  have hge : 8 ≤ code / c.leading := (Nat.le_div_iff_mul_le hpos).mpr hlow
  have hlt : code / c.leading < 16 := (Nat.div_lt_iff_lt_mul hpos).mpr (by
    rw [limit_eq] at hhigh
    omega)
  refine ⟨code / c.leading - 8, by omega, code % c.leading, hmod, ?_⟩
  rw [compose, limit_eq, Nat.sub_mul]
  have := Nat.mul_le_mul_right c.leading hge
  omega

theorem compose_lt (he : e < 8) (hm : m < c.leading) : c.compose e m < 2 * c.limit := by
  have := Nat.mul_le_mul_right c.leading (Nat.le_of_lt_succ he)
  rw [compose, limit_eq]
  omega

/-- The code with exponent `e` and mantissa `m` is that of the largest number not above `n`: the
next one is above it, or there is no next one. -/
structure Rounds (c : ExponentialCode) (n e m : Nat) : Prop where
  exponent : e < 8
  mantissa : m < c.leading
  le : (c.leading + m) * 2 ^ (e + 3) ≤ n
  next : n < (c.leading + m + 1) * 2 ^ (e + 3) ∨ e = 7 ∧ m + 1 = c.leading

/-- The search finds the exponent under which the mantissa starts with its leading one. -/
theorem rounds_encodeFrom (rest : Nat) (hrest : e + rest = 8)
    (hlow : c.leading * 2 ^ (e + 3) ≤ n) :
    ∃ e' m, c.encodeFrom n e rest = c.compose e' m ∧ c.Rounds n e' m := by
  have hpos := c.leading_pos
  induction rest generalizing e with
  | zero =>
    obtain rfl : e = 8 := hrest
    refine ⟨7, c.leading - 1, ?_, ⟨by omega, by omega, ?_, .inr ⟨rfl, by omega⟩⟩⟩
    · rw [encodeFrom, compose, limit_eq]
      omega
    · calc (c.leading + (c.leading - 1)) * 2 ^ (7 + 3)
          ≤ 2 * c.leading * 2 ^ (7 + 3) := Nat.mul_le_mul_right _ (by omega)
        _ = c.leading * 2 ^ (8 + 3) := c.two_mul_leading _
        _ ≤ n := hlow
  | succ rest ih =>
    have hpow : 0 < 2 ^ (e + 3) := Nat.two_pow_pos _
    have hge : c.leading ≤ n / 2 ^ (e + 3) := (Nat.le_div_iff_mul_le hpow).mpr hlow
    simp only [encodeFrom, Nat.pow_eq]
    split
    · next hlt =>
      have hmod : n / 2 ^ (e + 3) % c.leading = n / 2 ^ (e + 3) - c.leading := by
        rw [Nat.mod_eq_sub_mod hge, Nat.mod_eq_of_lt (by omega)]
      have hback : c.leading + (n / 2 ^ (e + 3) - c.leading) = n / 2 ^ (e + 3) := by omega
      rw [hmod]
      refine ⟨e, _, rfl, ⟨by omega, by omega, ?_, .inl ?_⟩⟩
      · rw [hback]
        exact Nat.div_mul_le_self _ _
      · rw [hback]
        exact (Nat.div_lt_iff_lt_mul hpow).mp (Nat.lt_succ_self _)
    · next hge' =>
      refine ih (by omega) ?_
      rw [show e + 1 + 3 = e + 3 + 1 by omega, ← two_mul_leading]
      exact (Nat.le_div_iff_mul_le hpow).mp (Nat.le_of_not_lt hge')

theorem encode_cases (c : ExponentialCode) (n : Nat) :
    n < c.limit ∧ c.encode n = n ∨ ∃ e m, c.encode n = c.compose e m ∧ c.Rounds n e m := by
  by_cases h : n < c.limit
  · exact .inl ⟨h, if_pos h⟩
  · right
    rw [encode, if_neg h]
    refine rounds_encodeFrom 8 rfl ?_
    rw [limit_eq] at h
    omega

theorem encode_lt (c : ExponentialCode) (n : Nat) : c.encode n < 2 * c.limit := by
  rcases c.encode_cases n with ⟨h, heq⟩ | ⟨e, m, heq, hr⟩
  · rw [heq]
    omega
  · rw [heq]
    exact compose_lt hr.exponent hr.mantissa

/-- No code between the one that a number is written as and the number. -/
theorem Rounds.decode_le {k : Nat} (h : c.Rounds n e m) (hk : c.Codable k) (hle : k ≤ n) :
    k ≤ (c.leading + m) * 2 ^ (e + 3) := by
  have hleast : c.leading * 2 ^ (e + 3) ≤ (c.leading + m) * 2 ^ (e + 3) :=
    Nat.mul_le_mul_right _ (Nat.le_add_right _ _)
  obtain ⟨code, hcode, rfl⟩ := hk
  rcases Nat.lt_or_ge code c.limit with hsmall | hlarge
  · rw [decode_of_lt hsmall]
    exact hsmall.le.trans ((c.limit_le e).trans hleast)
  obtain ⟨e', he', m', hm', rfl⟩ := exists_compose hlarge hcode
  rw [decode_compose he' hm'] at hle ⊢
  have hmost : (c.leading + m') * 2 ^ (e' + 3) ≤ 2 * c.leading * 2 ^ (e' + 3) :=
    Nat.mul_le_mul_right _ (by omega)
  rcases Nat.lt_trichotomy e' e with hlt | rfl | hgt
  · exact hmost.trans ((two_mul_leading_le hlt).trans hleast)
  · refine Nat.mul_le_mul_right _ (Nat.add_le_add_left ?_ _)
    rcases h.next with hnext | ⟨-, hlast⟩
    · have := Nat.lt_of_mul_lt_mul_right (hle.trans_lt hnext)
      omega
    · omega
  · exfalso
    rcases h.next with hnext | ⟨rfl, -⟩
    · have htop : (c.leading + m + 1) * 2 ^ (e + 3) ≤ 2 * c.leading * 2 ^ (e + 3) :=
        Nat.mul_le_mul_right _ (by have := h.mantissa; omega)
      have hbottom : c.leading * 2 ^ (e' + 3) ≤ (c.leading + m') * 2 ^ (e' + 3) :=
        Nat.mul_le_mul_right _ (Nat.le_add_right _ _)
      have := two_mul_leading_le (c := c) hgt
      omega
    · omega

/-- **Rounding down**: what a number is read back as is the greatest with a code that is not
above it. -/
theorem isGreatest_decode_encode (c : ExponentialCode) (n : Nat) :
    IsGreatest {k | c.Codable k ∧ k ≤ n} (c.decode (c.encode n)) := by
  have hcodable : c.Codable (c.decode (c.encode n)) := ⟨_, c.encode_lt n, rfl⟩
  rcases c.encode_cases n with ⟨hsmall, heq⟩ | ⟨e, m, heq, hr⟩
  · rw [heq, decode_of_lt hsmall] at hcodable ⊢
    exact ⟨⟨hcodable, Nat.le_refl n⟩, fun k hk => hk.2⟩
  · rw [heq, decode_compose hr.exponent hr.mantissa] at hcodable ⊢
    exact ⟨⟨hcodable, hr.le⟩, fun k hk => hr.decode_le hk.1 hk.2⟩

/-- The same for times that codes count in steps. -/
theorem isGreatest_times (c : ExponentialCode) {unit : Nat} (hunit : 0 < unit) (t : Nat) :
    IsGreatest {s | s ∈ c.times unit ∧ s ≤ t} (c.decode (c.encode (t / unit)) * unit) := by
  obtain ⟨⟨hcodable, hle⟩, hmax⟩ := c.isGreatest_decode_encode (t / unit)
  refine ⟨⟨⟨_, hcodable, rfl⟩, (Nat.le_div_iff_mul_le hunit).mp hle⟩, ?_⟩
  rintro s ⟨⟨k, hk, rfl⟩, hs⟩
  exact Nat.mul_le_mul_right _ (hmax ⟨hk, (Nat.le_div_iff_mul_le hunit).mpr hs⟩)

/-! ## Codes in order -/

/-- A greater code stands for a greater number. -/
theorem strictMonoOn_decode (c : ExponentialCode) :
    StrictMonoOn c.decode {code | code < 2 * c.limit} := by
  intro code hcode code' hcode' hlt
  rcases Nat.lt_or_ge code' c.limit with hsmall' | hlarge'
  · rw [decode_of_lt (hlt.trans hsmall'), decode_of_lt hsmall']
    exact hlt
  obtain ⟨e', he', m', hm', rfl⟩ := exists_compose hlarge' hcode'
  rw [decode_compose he' hm']
  have hleast : c.leading * 2 ^ (e' + 3) ≤ (c.leading + m') * 2 ^ (e' + 3) :=
    Nat.mul_le_mul_right _ (Nat.le_add_right _ _)
  rcases Nat.lt_or_ge code c.limit with hsmall | hlarge
  · rw [decode_of_lt hsmall]
    exact hsmall.trans_le ((c.limit_le e').trans hleast)
  obtain ⟨e, he, m, hm, rfl⟩ := exists_compose hlarge hcode
  rw [decode_compose he hm]
  rcases Nat.lt_trichotomy e e' with hless | rfl | hmore
  · have hmost : (c.leading + m) * 2 ^ (e + 3) < 2 * c.leading * 2 ^ (e + 3) :=
      Nat.mul_lt_mul_of_pos_right (by omega) (Nat.two_pow_pos _)
    exact hmost.trans_le ((two_mul_leading_le hless).trans hleast)
  · apply Nat.mul_lt_mul_of_pos_right _ (Nat.two_pow_pos _)
    simp only [compose] at hlt
    omega
  · -- The mantissa of the smaller code does not make up for the exponent.
    exfalso
    have hexponent : (e' + 1) * c.leading ≤ e * c.leading := Nat.mul_le_mul_right _ hmore
    simp only [compose, Nat.add_one_mul] at hlt hexponent
    omega

/-- A number that has a code is written as that code. -/
theorem encode_decode (h : code < 2 * c.limit) : c.encode (c.decode code) = code := by
  obtain ⟨⟨-, hle⟩, hmax⟩ := c.isGreatest_decode_encode (c.decode code)
  have hge : c.decode code ≤ c.decode (c.encode (c.decode code)) :=
    hmax ⟨⟨code, h, rfl⟩, Nat.le_refl _⟩
  exact c.strictMonoOn_decode.injOn (c.encode_lt _) h (Nat.le_antisymm hle hge)

theorem monotone_encode (c : ExponentialCode) : Monotone c.encode := by
  intro n k hnk
  obtain ⟨⟨hcodable, hle⟩, -⟩ := c.isGreatest_decode_encode n
  have hdecode : c.decode (c.encode n) ≤ c.decode (c.encode k) :=
    (c.isGreatest_decode_encode k).2 ⟨hcodable, hle.trans hnk⟩
  exact (c.strictMonoOn_decode.le_iff_le (c.encode_lt n) (c.encode_lt k)).mp hdecode

theorem largest_eq (c : ExponentialCode) : 2 * c.limit - 1 = c.compose 7 (c.leading - 1) := by
  have hpos := c.leading_pos
  rw [compose, limit_eq]
  omega

/-- Rounding down a number that is not too large takes no more from it than one part in as many
as the mantissa, with its leading one, can tell apart. -/
theorem leading_mul_le (hn : n ≤ c.decode (2 * c.limit - 1)) :
    c.leading * n ≤ (c.leading + 1) * c.decode (c.encode n) := by
  rcases c.encode_cases n with ⟨hsmall, heq⟩ | ⟨e, m, heq, hr⟩
  · rw [heq, decode_of_lt hsmall]
    exact Nat.mul_le_mul_right _ (Nat.le_succ _)
  rw [heq, decode_compose hr.exponent hr.mantissa]
  rcases hr.next with hnext | ⟨rfl, hlast⟩
  · calc c.leading * n
        ≤ c.leading * ((c.leading + m + 1) * 2 ^ (e + 3)) := Nat.mul_le_mul_left _ hnext.le
      _ = (c.leading * (c.leading + m) + c.leading) * 2 ^ (e + 3) := by
          rw [← Nat.mul_assoc, Nat.mul_succ]
      _ ≤ (c.leading * (c.leading + m) + (c.leading + m)) * 2 ^ (e + 3) :=
          Nat.mul_le_mul_right _ (Nat.add_le_add_left (Nat.le_add_right _ _) _)
      _ = (c.leading + 1) * ((c.leading + m) * 2 ^ (e + 3)) := by
          rw [← Nat.mul_assoc, Nat.succ_mul]
  · -- What is above the number before the last one has the last code, and is not above its number.
    obtain rfl : m = c.leading - 1 := by omega
    rw [largest_eq, decode_compose hr.exponent hr.mantissa] at hn
    exact Nat.mul_le_mul (Nat.le_succ _) hn

/-- **Optimal rounding**: every number is written as the greatest that has a code and is not above
it. Codes and numbers are in the same order, each code is that of its number, and of a number not
above the largest that has a code at most one part in 17, or in 4097, is lost. -/
theorem rounds_down_optimally :
    (∀ c : ExponentialCode,
      (∀ n, c.encode n < 2 * c.limit ∧
        IsGreatest {k | (∃ code < 2 * c.limit, c.decode code = k) ∧ k ≤ n}
          (c.decode (c.encode n))) ∧
      Monotone c.encode ∧ StrictMonoOn c.decode {code | code < 2 * c.limit} ∧
      ∀ code < 2 * c.limit, c.encode (c.decode code) = code) ∧
    (2 * short.limit = 256 ∧
      ∀ n ≤ short.decode 255, 16 * n ≤ 17 * short.decode (short.encode n)) ∧
    2 * long.limit = 65536 ∧
      ∀ n ≤ long.decode 65535, 4096 * n ≤ 4097 * long.decode (long.encode n) := by
  refine ⟨fun c => ⟨fun n => ?_, c.monotone_encode, c.strictMonoOn_decode, ?_⟩, ?_, ?_⟩
  · exact ⟨c.encode_lt n, c.isGreatest_decode_encode n⟩
  · intro code hcode
    exact encode_decode hcode
  · exact ⟨rfl, fun n hn => leading_mul_le (c := short) hn⟩
  · exact ⟨rfl, fun n hn => leading_mul_le (c := long) hn⟩

/-- What is one below a number that has a code loses the most. -/
theorem betweenCodes_rounds_down :
    (16 * 135 ≤ 17 * short.decode (short.encode 135) ∧ short.decode (short.encode 135) = 128) ∧
      4096 * 32775 ≤ 4097 * long.decode (long.encode 32775) ∧
        long.encode (long.decode 0x8001) = 0x8001 := by
  obtain ⟨hall, ⟨-, hshort⟩, -, hlong⟩ := rounds_down_optimally
  refine ⟨⟨hshort 135 (by decide), by decide⟩, hlong 32775 (by decide), ?_⟩
  exact (hall long).2.2.2 0x8001 (by decide)

/-- The code 0xff stands for the largest number, and for all that are larger. -/
example : short.decode (short.encode 31744) = 31744 ∧
    short.decode (short.encode 99999) = 31744 := by decide

end MulticastTunnel.Membership.ExponentialCode
