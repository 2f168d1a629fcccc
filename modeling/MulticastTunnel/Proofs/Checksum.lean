import Mathlib.Tactic.Common
import MulticastTunnel.Checksum
import MulticastTunnel.Proofs.Octets

/-!
# Laws of the checksum

Octets that come in pieces are summed as if they came in one. Folding carries
back in keeps a sum modulo 65535 and makes it zero only if it was. So octets
whose checksum is written where two zeros were, at an even index, have checksum
zero, and they do not have it any more when one of them is replaced.
-/

namespace MulticastTunnel.Checksum

/-- The sum of the words, with an octet left over as the first half of one. -/
def total (c : Checksum) : Nat :=
  c.sum + match c.half with
    | some o => o.toNat * 256
    | none => 0

theorem fold_mod (n : Nat) : fold n % 65535 = n % 65535 := by
  fun_induction fold n with
  | case1 n _ ih => rw [ih]; omega
  | case2 n _ => rfl

theorem fold_pos {n : Nat} (h : 0 < n) : 0 < fold n := by
  fun_induction fold n with
  | case1 n _ ih => exact ih (by omega)
  | case2 n _ => exact h

theorem toNat_finish (c : Checksum) : c.finish.toNat = 65535 - fold c.total := by
  have hlt : 65535 - fold c.total < UInt16.size := by
    show 65535 - fold c.total < 65536
    omega
  exact UInt16.toNat_ofNat_of_lt' hlt

/-- A sum comes out as zero when it is a multiple of all ones, but not when nothing was added. -/
theorem finish_eq_zero_iff (c : Checksum) : c.finish = 0 ↔ 0 < c.total ∧ c.total % 65535 = 0 := by
  have hle := fold_le c.total
  have hmod := fold_mod c.total
  rw [← UInt16.toNat_inj, toNat_finish]
  show 65535 - fold c.total = 0 ↔ _
  constructor
  · intro h
    refine ⟨Nat.pos_of_ne_zero fun hzero => ?_, by omega⟩
    have h0 : fold 0 = 0 := by rw [fold]; rfl
    rw [hzero] at h
    omega
  · rintro ⟨hpos, hzero⟩
    have hpos' := fold_pos hpos
    omega

/-! ## Words -/

/-- An octet that is left over waits for those that come next. -/
theorem words_append_carry (a b : Bytes) :
    words (a ++ b) = ((words a).1 + (words ((words a).2.toList ++ b)).1,
      (words ((words a).2.toList ++ b)).2) := by
  match a with
  | [] => simp [words]
  | [o] => simp [words]
  | high :: low :: rest =>
    have hrest := words_append_carry rest b
    simp only [List.cons_append, words, hrest, Nat.add_assoc]

theorem half_words (b : Bytes) (h : b.length % 2 = 0) : (words b).2 = none := by
  match b, h with
  | [], _ => rfl
  | [_], h => cases h
  | _ :: _ :: rest, h => exact half_words rest (by simp only [List.length_cons] at h; omega)

/-- Octets behind an even number of others are summed by themselves. -/
theorem words_append (pre rest : Bytes) (h : pre.length % 2 = 0) :
    words (pre ++ rest) = ((words pre).1 + (words rest).1, (words rest).2) := by
  rw [words_append_carry, half_words pre h]
  rfl

theorem add_append (c : Checksum) (a b : Bytes) : c.add (a ++ b) = (c.add a).add b := by
  have hwords := words_append_carry (c.half.toList ++ a) b
  rw [List.append_assoc] at hwords
  simp only [add, hwords, Nat.add_assoc]

/-- Pieces of any lengths are summed as one. -/
theorem foldl_add (c : Checksum) (pieces : List Bytes) :
    pieces.foldl add c = c.add pieces.flatten := by
  induction pieces generalizing c with
  | nil => exact (add_nil c).symm
  | cons piece pieces ih => rw [List.foldl_cons, ih, List.flatten_cons, add_append]

/-- A pseudo header is an even number of octets long, so none of them waits. -/
theorem half_pseudoHeader (addresses : AddressPair) (protocol : UInt8) (length : Nat) :
    (({} : Checksum).add (pseudoHeader addresses protocol length)).half = none := by
  apply half_words
  cases addresses <;> simp [pseudoHeader, Option.toList]

/-- Writing a word over two zeros at an even index adds it to the sum. -/
theorem total_add_overwrite {c : Checksum} (hc : c.half = none) {b : Bytes} {i w : Nat}
    (hi : i % 2 = 0) (hlen : i + 2 ≤ b.length) (h₀ : b.octet i = 0) (h₁ : b.octet (i + 1) = 0)
    (hw : w < 65536) : (c.add (b.overwrite i (.ofWord16 w))).total = (c.add b).total + w := by
  have htake : (b.take i).length = i := by rw [List.length_take]; omega
  have hget : ∀ j, j < b.length → b[j]? = some (b.octet j) := by
    intro j hj
    rw [Bytes.octet, List.getD_eq_getElem?_getD, List.getElem?_eq_getElem hj]
    rfl
  have hb : b = b.take i ++ ([0, 0] ++ b.drop (i + 2)) := by
    apply List.ext_getElem?
    intro j
    by_cases hj : j < i
    · rw [List.getElem?_append_left (by omega), List.getElem?_take_of_lt hj]
    rw [List.getElem?_append_right (by omega), htake]
    by_cases hj' : j < i + 2
    · rw [List.getElem?_append_left (by simp; omega), hget j (by omega)]
      obtain rfl | rfl : j = i ∨ j = i + 1 := by omega
      · simp [h₀]
      · simp [h₁]
    · rw [List.getElem?_append_right (by simp; omega), List.getElem?_drop]
      congr 1
      simp
      omega
  have heven : (b.take i).length % 2 = 0 := by rw [htake]; exact hi
  have hover : b.overwrite i (.ofWord16 w) =
      b.take i ++ (Bytes.ofWord16 w ++ b.drop (i + 2)) := by
    rw [Bytes.overwrite, List.append_assoc]
    rfl
  have hsum : words (Bytes.ofWord16 w ++ b.drop (i + 2)) =
      (w + (words (b.drop (i + 2))).1, (words (b.drop (i + 2))).2) := by
    simp only [Bytes.ofWord16, List.cons_append, List.nil_append, words, Bytes.toNat_ofWord16 hw]
  have hzero : words ([0, 0] ++ b.drop (i + 2)) =
      ((words (b.drop (i + 2))).1, (words (b.drop (i + 2))).2) := by
    simp [words]
  have hold : words b = ((words (b.take i)).1 + (words (b.drop (i + 2))).1,
      (words (b.drop (i + 2))).2) := by
    conv_lhs => rw [hb]
    rw [words_append _ _ heven, hzero]
  simp only [add, hc, Option.toList_none, List.nil_append, total, hover,
    words_append _ _ heven, hsum,
    hold]
  omega

/-- Which words make a sum come out as zero when they are written over two zeros. -/
theorem finish_add_overwrite_eq_zero_iff {c : Checksum} (hc : c.half = none) {b : Bytes}
    {i w : Nat} (hi : i % 2 = 0) (hlen : i + 2 ≤ b.length) (h₀ : b.octet i = 0)
    (h₁ : b.octet (i + 1) = 0) (hw : w < 65536) :
    (c.add (b.overwrite i (.ofWord16 w))).finish = 0 ↔
      0 < (c.add b).total + w ∧ ((c.add b).total + w) % 65535 = 0 := by
  rw [finish_eq_zero_iff, total_add_overwrite hc hi hlen h₀ h₁ hw]

/-- **Sealing**: with its checksum written in, a sum comes out as zero. -/
theorem finish_add_overwrite {c : Checksum} (hc : c.half = none) {b : Bytes} {i : Nat}
    (hi : i % 2 = 0) (hlen : i + 2 ≤ b.length) (h₀ : b.octet i = 0) (h₁ : b.octet (i + 1) = 0) :
    (c.add (b.overwrite i (.ofWord16 (c.add b).finish.toNat))).finish = 0 := by
  rw [finish_add_overwrite_eq_zero_iff hc hi hlen h₀ h₁ (c.add b).finish.toNat_lt, toNat_finish]
  have hle := fold_le (c.add b).total
  have hmod := fold_mod (c.add b).total
  refine ⟨?_, by omega⟩
  rcases Nat.eq_zero_or_pos (c.add b).total with hzero | hpos
  · have h0 : fold 0 = 0 := by rw [fold]; rfl
    rw [hzero, h0]
    decide
  · exact Nat.add_pos_left hpos _

/-- All ones in the place of a checksum of zero do the same. -/
theorem finish_add_overwrite_ones {c : Checksum} (hc : c.half = none) {b : Bytes} {i : Nat}
    (hi : i % 2 = 0) (hlen : i + 2 ≤ b.length) (h₀ : b.octet i = 0) (h₁ : b.octet (i + 1) = 0)
    (hzero : (c.add b).finish = 0) : (c.add (b.overwrite i (.ofWord16 65535))).finish = 0 := by
  rw [finish_add_overwrite_eq_zero_iff hc hi hlen h₀ h₁ (by decide)]
  obtain ⟨-, hmod⟩ := (finish_eq_zero_iff _).mp hzero
  exact ⟨Nat.succ_pos _, by omega⟩

/-! ## One octet in the place of another -/

/-- What an octet counts for in its word: it is the first half or the second. -/
def place (i : Nat) : Nat := if i % 2 = 0 then 256 else 1

@[simp] theorem place_zero : place 0 = 256 := rfl

@[simp] theorem place_one : place 1 = 1 := rfl

@[simp] theorem place_add_two (i : Nat) : place (i + 2) = place i := by
  rw [place, Nat.add_mod_right, place]

/-- The sum moves by as much as the octet does, in its place. -/
theorem total_set (o : UInt8) {b : Bytes} {i : Nat} (h : i < b.length) :
    (({} : Checksum).add (b.set i o)).total + place i * (b.octet i).toNat =
      (({} : Checksum).add b).total + place i * o.toNat := by
  match b, i with
  | [x], 0 =>
    simp only [List.set_cons_zero, add, Option.toList_none, List.nil_append, words, total,
      place_zero, Bytes.octet, List.getD_cons_zero]
    omega
  | x :: y :: rest, 0 =>
    simp only [List.set_cons_zero, add, Option.toList_none, List.nil_append, words, total,
      place_zero, Bytes.octet, List.getD_cons_zero]
    omega
  | x :: y :: rest, 1 =>
    simp only [List.set_cons_succ, List.set_cons_zero, add, Option.toList_none, List.nil_append,
      words, total, place_one, Bytes.octet, List.getD_cons_succ, List.getD_cons_zero]
    omega
  | x :: y :: rest, j + 2 =>
    have hrest := total_set o (b := rest) (i := j) (by simpa using h)
    have hoctet : Bytes.octet (x :: y :: rest) (j + 2) = Bytes.octet rest j := rfl
    simp only [List.set_cons_succ, add, Option.toList_none, List.nil_append, words, total,
      place_add_two, hoctet] at hrest ⊢
    omega

/-- **Detection**: no checksum is zero before and after a single octet is replaced. The sum moves
by less than 65535, so it does not come to another multiple of it. -/
theorem of_set_ne_zero {b : Bytes} {i : Nat} {o : UInt8} (hzero : of b = 0) (hi : i < b.length)
    (ho : o ≠ b.octet i) : of (b.set i o) ≠ 0 := by
  intro hset
  obtain ⟨-, hold⟩ := (finish_eq_zero_iff _).mp hzero
  obtain ⟨-, hnew⟩ := (finish_eq_zero_iff _).mp hset
  have hmoved := total_set o hi
  have hne : o.toNat ≠ (b.octet i).toNat := fun h => ho (UInt8.toNat_inj.mp h)
  have h₁ := o.toNat_lt
  have h₂ := (b.octet i).toNat_lt
  rw [place] at hmoved
  split at hmoved <;> omega

end MulticastTunnel.Checksum
