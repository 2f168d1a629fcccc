import MulticastTunnel.Proofs.Checked.Machine
import MulticastTunnel.Proofs.Checksum

/-!
# Checksums are computed safely

The words of octets are added up in one machine word. There is room for many more of them than a
packet has, and in however many pieces they come, empty and odd ones among them, the checksum is
that of all of them in one.
-/

namespace MulticastTunnel.Checked

variable {ε : Type} {b : Bytes} {n sum : Nat}

/-- The sum with the full words of `b` added to it one by one, and the octet left over. -/
def addWords (sum : Nat) : Bytes → Checked ε (Nat × Option UInt8)
  | [] => pure (sum, none)
  | [o] => pure (sum, some o)
  | high :: low :: rest => do
    let sum ← word (sum + (high.toNat * 256 + low.toNat))
    addWords sum rest

def add (c : Checksum) (b : Bytes) : Checked ε Checksum :=
  match c.half, b with
  | some _, [] => pure c
  | some high, low :: rest => do
    let sum ← word (c.sum + (high.toNat * 256 + low.toNat))
    let (sum, half) ← addWords sum rest
    pure ⟨sum, half⟩
  | none, b => do
    let (sum, half) ← addWords c.sum b
    pure ⟨sum, half⟩

/-- Carries folded back in, for as many rounds as there is fuel. -/
def fold : (fuel : Nat) → (n : Nat) → Checked ε Nat
  | 0, n => if 65535 < n then .trapped .endless else pure n
  | fuel + 1, n =>
    if 65535 < n then do
      let n ← word (n % 65536 + n / 65536)
      fold fuel n
    else pure n

def finish (c : Checksum) : Checked ε UInt16 := do
  let sum ← match c.half with
    | some high => word (c.sum + high.toNat * 256)
    | none => pure c.sum
  let folded ← fold sum sum
  pure (.ofNat (65535 - folded))

/-- A sum of the words of `b` is less than this. -/
theorem words_le (b : Bytes) : (Checksum.words b).1 ≤ 65535 * b.length := by
  fun_induction Checksum.words b with
  | case1 => exact Nat.zero_le _
  | case2 => exact Nat.zero_le _
  | case3 high low rest sum half hrest ih =>
    have h₁ := high.toNat_lt
    have h₂ := low.toNat_lt
    rw [hrest] at ih
    simp only [List.length_cons]
    omega

theorem addWords_eq (h : sum + 65535 * b.length < 18446744073709551616) :
    (addWords sum b : Checked ε _) =
      .value (sum + (Checksum.words b).1, (Checksum.words b).2) := by
  fun_induction Checksum.words b generalizing sum with
  | case1 => rfl
  | case2 => rfl
  | case3 high low rest total half hrest ih =>
    have h₁ := high.toNat_lt
    have h₂ := low.toNat_lt
    simp only [List.length_cons] at h
    rw [addWords, word_eq (by omega), value_bind, ih (by omega), hrest]
    simp only [Nat.add_assoc]

theorem add_eq (c : Checksum) (h : c.sum + 65535 * (b.length + 1) < 18446744073709551616) :
    (add c b : Checked ε Checksum) = .value (c.add b) := by
  obtain ⟨sum, half⟩ := c
  simp only at h
  cases half with
  | none =>
    simp only [add, addWords_eq (show sum + 65535 * b.length < _ by omega), value_bind, pure_eq]
    rfl
  | some high =>
    cases b with
    | nil => rw [Checksum.add_nil]; rfl
    | cons low rest =>
      have h₁ := high.toNat_lt
      have h₂ := low.toNat_lt
      simp only [List.length_cons] at h
      simp only [add, word_eq (show sum + (high.toNat * 256 + low.toNat) < _ by omega), value_bind,
        addWords_eq (show sum + (high.toNat * 256 + low.toNat) + 65535 * rest.length < _ by omega),
        pure_eq]
      simp only [Checksum.add, Option.toList_some, List.singleton_append, Checksum.words,
        Nat.add_assoc]

theorem fold_eq {fuel : Nat} (hn : n < 18446744073709551616) (hfuel : n ≤ fuel) :
    (fold fuel n : Checked ε Nat) = .value (Checksum.fold n) := by
  induction fuel generalizing n with
  | zero =>
    obtain rfl := Nat.le_zero.mp hfuel
    rw [Checksum.fold]
    rfl
  | succ fuel ih =>
    rw [fold, Checksum.fold]
    split
    · rw [word_eq (by omega), value_bind, ih (by omega) (by omega)]
    · rfl

theorem finish_eq (c : Checksum) (h : c.sum + 65535 < 18446744073709551616) :
    (finish c : Checked ε UInt16) = .value c.finish := by
  obtain ⟨sum, half⟩ := c
  simp only at h
  cases half with
  | none =>
    simp only [finish, pure_eq, value_bind, fold_eq (show sum < _ by omega) (Nat.le_refl _)]
    rfl
  | some high =>
    have h₁ := high.toNat_lt
    simp only [finish, word_eq (show sum + high.toNat * 256 < _ by omega), value_bind, pure_eq,
      fold_eq (show sum + high.toNat * 256 < _ by omega) (Nat.le_refl _)]
    rfl

theorem sum_add_le (c : Checksum) (b : Bytes) : (c.add b).sum ≤ c.sum + 65535 * (b.length + 1) := by
  have h := words_le (c.half.toList ++ b)
  rw [List.length_append] at h
  have hhalf : c.half.toList.length ≤ 1 := by cases c.half <;> simp
  simp only [Checksum.add]
  omega

/-! ## Pieces -/

theorem foldlM_add_eq (done : Bytes) (pieces : List Bytes)
    (h : done.length + pieces.flatten.length < 4294967296) :
    (pieces.foldlM add (({} : Checksum).add done) : Checked ε Checksum) =
      .value (({} : Checksum).add (done ++ pieces.flatten)) := by
  induction pieces generalizing done with
  | nil =>
    rw [List.flatten_nil, List.append_nil]
    rfl
  | cons piece pieces ih =>
    rw [List.flatten_cons, List.length_append] at h
    -- The bound is on the octets, not on the pieces: there may be any number of empty ones.
    have hsum : (({} : Checksum).add done).sum ≤ 65535 * done.length := by
      have := words_le done
      simpa [Checksum.add] using this
    rw [List.foldlM_cons, add_eq _ (by omega), value_bind, ← Checksum.add_append]
    rw [ih _ (by rw [List.length_append]; omega), List.flatten_cons, List.append_assoc]

/-- **Pieces and seals**: octets in pieces of any lengths have the checksum of all of them in one
piece, and no word overflows on the way. With its checksum written over two zeros at an even index
a string of octets has checksum zero. -/
theorem pieces_summed_and_sealed :
    (∀ pieces : List Bytes, (pieces.foldl Checksum.add {}).finish = Checksum.of pieces.flatten ∧
      (pieces.flatten.length < 4294967296 →
        (pieces.foldlM add {} >>= finish : Checked ε UInt16) =
          .value (Checksum.of pieces.flatten))) ∧
    ∀ (b : Bytes) (i : Nat), i % 2 = 0 → i + 2 ≤ b.length → b.octet i = 0 → b.octet (i + 1) = 0 →
      Checksum.of (b.overwrite i (.ofWord16 (Checksum.of b).toNat)) = 0 := by
  constructor
  · intro pieces
    constructor
    · rw [Checksum.foldl_add, Checksum.of]
    · intro hlen
      have hadd := foldlM_add_eq (ε := ε) [] pieces (by rw [List.length_nil]; omega)
      rw [Checksum.add_nil, List.nil_append] at hadd
      have hwords := words_le pieces.flatten
      rw [hadd, value_bind, finish_eq]
      · rfl
      · simp only [Checksum.add, Option.toList_none, List.nil_append]
        omega
  · intro b i hi hlen h₀ h₁
    exact Checksum.finish_add_overwrite rfl hi hlen h₀ h₁

/-- Octets in pieces of which two end in the middle of a word, and one is empty. -/
def oddPieces : List Bytes := [[0x45], [], [0, 0, 0, 0], [0x1c, 0xab]]

theorem oddPieces_summed_and_sealed :
    (oddPieces.foldlM add {} >>= finish : Checked Empty UInt16) = .value 0x0fe3 ∧
      Checksum.of (Bytes.overwrite oddPieces.flatten 2 [0x0f, 0xe3]) = 0 := by
  have hsum : Checksum.of oddPieces.flatten = 0x0fe3 := by cbv
  obtain ⟨hpieces, hseal⟩ := pieces_summed_and_sealed (ε := Empty)
  constructor
  · rw [← hsum]
    exact (hpieces oddPieces).2 (by decide)
  · have hsealed := hseal oddPieces.flatten 2 (by decide) (by decide) (by decide) (by decide)
    rw [hsum] at hsealed
    exact hsealed

end MulticastTunnel.Checked
