import Mathlib.Tactic.Common
import MulticastTunnel.Proofs.Octets

/-!
# Computations that check each step

The functions of this library read zeros where there are no octets, and compute with numbers of
any size. On a machine it is a fault to do so. A `Checked` computation looks first, and stops in
a trap when an index, a range or a cursor is out of bounds, when octets are copied to a place of
another length, or when a number does not fit its word.

A function is safe if its checked form ends as the function itself does, that is, with `of` what
the function returns. Each check has one lemma that says when it is passed.
-/

namespace MulticastTunnel

/-- What stops a computation. -/
inductive Trap
  | index
  | range
  | cursor
  | copy
  | overflow
  | underflow
  /-- A loop went on when it should have come to its end. -/
  | endless
deriving DecidableEq

/-- How a computation ends that checks each step: with a value, with an error of its own, or in a
trap. -/
inductive Checked (ε α : Type)
  | value (a : α)
  | refused (e : ε)
  | trapped (t : Trap)

namespace Checked

variable {ε δ α β : Type}

protected def bind : Checked ε α → (α → Checked ε β) → Checked ε β
  | .value a, f => f a
  | .refused e, _ => .refused e
  | .trapped t, _ => .trapped t

instance : Monad (Checked ε) where
  pure := .value
  bind := Checked.bind

@[simp] theorem pure_eq (a : α) : (pure a : Checked ε α) = .value a := rfl

@[simp] theorem value_bind (a : α) (f : α → Checked ε β) : (value a >>= f) = f a := rfl

/-- The end of a computation that cannot trap. -/
def of : Except ε α → Checked ε α
  | .ok a => .value a
  | .error e => .refused e

@[simp] theorem of_ok (a : α) : (of (.ok a) : Checked ε α) = value a := rfl

/-- An error that is passed on as part of another one. -/
def mapError (f : ε → δ) : Checked ε α → Checked δ α
  | .value a => .value a
  | .refused e => .refused (f e)
  | .trapped t => .trapped t

theorem mapError_of (f : ε → δ) (x : Except ε α) : mapError f (of x) = of (x.mapError f) := by
  cases x <;> rfl

/-- A computation whose error is kept as a result. -/
def attempt : Checked ε α → Checked δ (Except ε α)
  | .value a => .value (.ok a)
  | .refused e => .value (.error e)
  | .trapped t => .trapped t

theorem attempt_of (x : Except ε α) : (attempt (of x) : Checked δ (Except ε α)) = .value x := by
  cases x <;> rfl

theorem of_map (x : Except ε α) (f : α → β) : (of x >>= fun a => value (f a)) = of (x.map f) := by
  cases x <;> rfl

/-! ## Octets -/

section Octets

variable {b : Bytes} {i n : Nat}

def index (b : Bytes) (i : Nat) : Checked ε UInt8 :=
  match b[i]? with
  | some o => .value o
  | none => .trapped .index

theorem index_eq (h : i < b.length) : (index b i : Checked ε UInt8) = .value (b.octet i) := by
  rw [index, Bytes.octet, List.getD_eq_getElem?_getD, List.getElem?_eq_getElem h]
  rfl

def word16 (b : Bytes) (i : Nat) : Checked ε Nat := do
  let high ← index b i
  let low ← index b (i + 1)
  pure (high.toNat * 256 + low.toNat)

theorem word16_eq (h : i + 2 ≤ b.length) : (word16 b i : Checked ε Nat) = .value (b.word16 i) := by
  simp (disch := omega) only [word16, index_eq, value_bind, pure_eq, Bytes.word16]

def word32 (b : Bytes) (i : Nat) : Checked ε Nat := do
  let high ← word16 b i
  let low ← word16 b (i + 2)
  pure (high * 65536 + low)

theorem word32_eq (h : i + 4 ≤ b.length) : (word32 b i : Checked ε Nat) = .value (b.word32 i) := by
  simp (disch := omega) only [word32, word16_eq, value_bind, pure_eq, Bytes.word32]

def upTo (b : Bytes) (n : Nat) : Checked ε Bytes :=
  if n ≤ b.length then .value (b.take n) else .trapped .range

theorem upTo_eq (h : n ≤ b.length) : (upTo b n : Checked ε Bytes) = .value (b.take n) := if_pos h

def behind (b : Bytes) (n : Nat) : Checked ε Bytes :=
  if n ≤ b.length then .value (b.drop n) else .trapped .range

theorem behind_eq (h : n ≤ b.length) : (behind b n : Checked ε Bytes) = .value (b.drop n) :=
  if_pos h

/-- The octets from index `i` on and before index `n`. -/
def between (b : Bytes) (i n : Nat) : Checked ε Bytes :=
  if i ≤ n ∧ n ≤ b.length then .value ((b.take n).drop i) else .trapped .range

theorem between_eq (h : i ≤ n) (hn : n ≤ b.length) :
    (between b i n : Checked ε Bytes) = .value ((b.take n).drop i) := if_pos ⟨h, hn⟩

/-- Octets that are copied to a place for `n` of them. -/
def copied (n : Nat) (b : Bytes) : Checked ε Bytes :=
  if b.length = n then .value b else .trapped .copy

theorem copied_eq (h : b.length = n) : (copied n b : Checked ε Bytes) = .value b := if_pos h

/-- Octets that are copied over those from index `i` on and before index `n`. -/
def overwrite (b : Bytes) (i n : Nat) (patch : Bytes) : Checked ε Bytes := do
  let place ← between b i n
  let patch ← copied place.length patch
  pure (b.overwrite i patch)

theorem overwrite_eq {patch : Bytes} (h : i + patch.length = n) (hn : n ≤ b.length) :
    (overwrite b i n patch : Checked ε Bytes) = .value (b.overwrite i patch) := by
  have hlen : patch.length = ((b.take n).drop i).length := by
    rw [List.length_drop, List.length_take]
    omega
  simp only [overwrite, between_eq (show i ≤ n by omega) hn, value_bind, copied_eq hlen, pure_eq]

/-- One octet that is written over another one. -/
def replace (b : Bytes) (i : Nat) (o : UInt8) : Checked ε Bytes :=
  if i < b.length then .value (b.overwrite i [o]) else .trapped .index

theorem replace_eq {o : UInt8} (h : i < b.length) :
    (replace b i o : Checked ε Bytes) = .value (b.overwrite i [o]) := if_pos h

/-! ## Cursors

A cursor is what is left to read. Reading gives what was read and what is left then. -/

def advance (n : Nat) (b : Bytes) : Checked ε Bytes :=
  if n ≤ b.length then .value (b.drop n) else .trapped .cursor

theorem advance_eq (h : n ≤ b.length) : (advance n b : Checked ε Bytes) = .value (b.drop n) :=
  if_pos h

def take8 (b : Bytes) : Checked ε (UInt8 × Bytes) :=
  if 1 ≤ b.length then .value (b.octet 0, b.drop 1) else .trapped .cursor

theorem take8_eq (h : 1 ≤ b.length) :
    (take8 b : Checked ε (UInt8 × Bytes)) = .value (b.octet 0, b.drop 1) := if_pos h

def take16 (b : Bytes) : Checked ε (Nat × Bytes) :=
  if 2 ≤ b.length then .value (b.word16 0, b.drop 2) else .trapped .cursor

theorem take16_eq (h : 2 ≤ b.length) :
    (take16 b : Checked ε (Nat × Bytes)) = .value (b.word16 0, b.drop 2) := if_pos h

def take32 (b : Bytes) : Checked ε (Nat × Bytes) :=
  if 4 ≤ b.length then .value (b.word32 0, b.drop 4) else .trapped .cursor

theorem take32_eq (h : 4 ≤ b.length) :
    (take32 b : Checked ε (Nat × Bytes)) = .value (b.word32 0, b.drop 4) := if_pos h

/-- As many octets as there is room for. -/
def takeInto (n : Nat) (b : Bytes) : Checked ε (Bytes × Bytes) :=
  if n ≤ b.length then .value (b.take n, b.drop n) else .trapped .copy

theorem takeInto_eq (h : n ≤ b.length) :
    (takeInto n b : Checked ε (Bytes × Bytes)) = .value (b.take n, b.drop n) := if_pos h

end Octets

/-! ## Numbers -/

/-- The numbers of a machine word are below this. -/
def wordSize : Nat := 18446744073709551616

/-- A number that was computed, and has to be below a limit. -/
def within (limit n : Nat) : Checked ε Nat :=
  if n < limit then .value n else .trapped .overflow

theorem within_eq {limit n : Nat} (h : n < limit) : (within limit n : Checked ε Nat) = .value n :=
  if_pos h

/-- A number that has to fit a machine word. -/
def word (n : Nat) : Checked ε Nat := within wordSize n

theorem word_eq {n : Nat} (h : n < 18446744073709551616) : (word n : Checked ε Nat) = .value n :=
  within_eq h

def minus (m n : Nat) : Checked ε Nat := if n ≤ m then .value (m - n) else .trapped .underflow

theorem minus_eq {m n : Nat} (h : n ≤ m) : (minus m n : Checked ε Nat) = .value (m - n) := if_pos h

end Checked

end MulticastTunnel
