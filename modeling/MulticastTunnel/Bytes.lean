/-!
# Octets

Strings of octets and the big-endian words written in them. A word written
and read back is the number modulo the size of the word.
-/

namespace MulticastTunnel

/-- A string of octets, as it travels over the network. -/
abbrev Bytes := List UInt8

namespace Bytes

/-- The octet at index `i`, zero past the end. -/
def octet (b : Bytes) (i : Nat) : UInt8 := b.getD i 0

/-- The big-endian 16-bit word that starts at index `i`. -/
def word16 (b : Bytes) (i : Nat) : Nat := (b.octet i).toNat * 256 + (b.octet (i + 1)).toNat

/-- The big-endian 32-bit word that starts at index `i`. -/
def word32 (b : Bytes) (i : Nat) : Nat := b.word16 i * 65536 + b.word16 (i + 2)

/-- The low 16 bits of a number, most significant octet first. -/
def ofWord16 (n : Nat) : Bytes := [UInt8.ofNat (n / 256), UInt8.ofNat n]

/-- The low 32 bits of a number, most significant octet first. -/
def ofWord32 (n : Nat) : Bytes := ofWord16 (n / 65536) ++ ofWord16 n

/-- The `length` octets from index `start` on, fewer at the end. -/
def slice (b : Bytes) (start length : Nat) : Bytes := (b.drop start).take length

/-- The octets of `b` with `patch` written over them from index `i` on. -/
def overwrite (b : Bytes) (i : Nat) (patch : Bytes) : Bytes :=
  b.take i ++ patch ++ b.drop (i + patch.length)

def zeros (n : Nat) : Bytes := List.replicate n 0

/-- The weight of the octet before which `n` others stand, the number of
strings of `n` octets. -/
def weight (n : Nat) : Nat := Nat.pow 256 n

/-- The number written by the octets in base 256, most significant first. -/
def value (b : Bytes) : Nat := b.foldl (fun n o => n * 256 + o.toNat) 0

@[simp] theorem weight_zero : weight 0 = 1 := rfl

theorem weight_succ (n : Nat) : weight (n + 1) = weight n * 256 := rfl

theorem weight_pos (n : Nat) : 0 < weight n := Nat.pow_pos (by decide)

@[simp] theorem length_ofWord16 (n : Nat) : (ofWord16 n).length = 2 := rfl

@[simp] theorem length_ofWord32 (n : Nat) : (ofWord32 n).length = 4 := rfl

@[simp] theorem word16_ofWord16 (n : Nat) (rest : Bytes) :
    word16 (ofWord16 n ++ rest) 0 = n % 65536 := by
  simp [word16, octet, ofWord16]
  omega

theorem word16_lt (b : Bytes) (i : Nat) : b.word16 i < 65536 := by
  have h₁ := (b.octet i).toNat_lt
  have h₂ := (b.octet (i + 1)).toNat_lt
  simp only [word16]
  omega

/-- Octets behind the first `n` do not change those among them. -/
theorem octet_take_append {b : Bytes} {n i : Nat} (hi : i < n) (hn : n ≤ b.length) (t : Bytes) :
    octet (b.take n ++ t) i = octet b i := by
  simp only [octet, List.getD_eq_getElem?_getD]
  rw [List.getElem?_append_left (by simp; omega), List.getElem?_take_of_lt hi]

theorem word16_take_append {b : Bytes} {n i : Nat} (hi : i + 1 < n) (hn : n ≤ b.length)
    (t : Bytes) : word16 (b.take n ++ t) i = word16 b i := by
  simp only [word16]
  rw [octet_take_append (by omega) hn, octet_take_append hi hn]

@[simp] theorem value_nil : value [] = 0 := rfl

/-- The first octet counts once for every string that could follow it. -/
theorem value_cons (o : UInt8) (rest : Bytes) :
    value (o :: rest) = o.toNat * weight rest.length + value rest := by
  have shift : ∀ (b : Bytes) (n : Nat),
      b.foldl (fun n o => n * 256 + o.toNat) n = n * weight b.length + value b := by
    intro b
    induction b with
    | nil => intro n; simp [value]
    | cons p more ih =>
      intro n
      simp only [value, List.foldl_cons, List.length_cons, weight_succ, Nat.zero_mul, Nat.zero_add]
      rw [ih, ih p.toNat, Nat.add_mul, Nat.mul_assoc, Nat.mul_comm 256, Nat.add_assoc]
  rw [value, List.foldl_cons, Nat.zero_mul, Nat.zero_add, shift]

theorem value_lt (b : Bytes) : b.value < weight b.length := by
  induction b with
  | nil => simp
  | cons o rest ih =>
    have ho := o.toNat_lt
    simp only [value_cons, List.length_cons, weight_succ]
    calc
      o.toNat * weight rest.length + value rest < (o.toNat + 1) * weight rest.length := by
        rw [Nat.add_mul]; omega
      _ ≤ 256 * weight rest.length := Nat.mul_le_mul_right _ (by omega)
      _ = weight rest.length * 256 := Nat.mul_comm _ _

/-- Among strings of one length, the number written tells the octets. -/
theorem eq_of_value_eq {a b : Bytes} (hl : a.length = b.length) (hv : a.value = b.value) :
    a = b := by
  induction a generalizing b with
  | nil => exact (List.length_eq_zero_iff.mp hl.symm).symm
  | cons o rest ih =>
    cases b with
    | nil => simp at hl
    | cons p more =>
      have hl' : rest.length = more.length := by simpa using hl
      have h₁ := value_lt rest
      have h₂ := value_lt more
      simp only [value_cons] at hv
      rw [hl'] at hv h₁
      have hpos := weight_pos more.length
      have hop : o.toNat = p.toNat := by
        have e₁ : (o.toNat * weight more.length + value rest) / weight more.length = o.toNat := by
          rw [Nat.mul_comm, Nat.mul_add_div hpos, Nat.div_eq_of_lt h₁, Nat.add_zero]
        have e₂ : (p.toNat * weight more.length + value more) / weight more.length = p.toNat := by
          rw [Nat.mul_comm, Nat.mul_add_div hpos, Nat.div_eq_of_lt h₂, Nat.add_zero]
        rw [← e₁, ← e₂, hv]
      have hrest : value rest = value more := by rw [hop] at hv; omega
      rw [UInt8.toNat_inj.mp hop, ih hl' hrest]

/-- The order of the numbers that octets from index `i` on write. -/
def orderFrom {n : Nat} (a b : Vector UInt8 n) (i : Nat) : Ordering :=
  if h : i < n then
    if a[i] < b[i] then .lt
    else if b[i] < a[i] then .gt
    else orderFrom a b (i + 1)
  else .eq

theorem value_drop {n : Nat} (a : Vector UInt8 n) {i : Nat} (h : i < n) :
    value (a.toList.drop i) = a[i].toNat * weight (n - (i + 1)) + value (a.toList.drop (i + 1)) := by
  rw [List.drop_eq_getElem_cons (by simpa using h), value_cons]
  simp

theorem value_drop_lt {n : Nat} (a : Vector UInt8 n) (i : Nat) :
    value (a.toList.drop i) < weight (n - i) := by
  simpa using value_lt (a.toList.drop i)

/-- A smaller first octet makes a smaller number, whatever follows it. -/
theorem mul_weight_add_lt {p q r s w : Nat} (hpq : p < q) (hr : r < w) : p * w + r < q * w + s := by
  have := Nat.mul_le_mul_right w (Nat.succ_le_of_lt hpq)
  rw [Nat.succ_mul] at this
  omega

/-- The first octets that differ decide which of two numbers is smaller. -/
theorem orderFrom_eq {n : Nat} (a b : Vector UInt8 n) (i : Nat) :
    orderFrom a b i = compare (value (a.toList.drop i)) (value (b.toList.drop i)) := by
  fun_induction orderFrom a b i with
  | case1 i h hlt =>
    rw [value_drop a h, value_drop b h, eq_comm, Nat.compare_eq_lt]
    exact mul_weight_add_lt (UInt8.lt_iff_toNat_lt.mp hlt) (value_drop_lt a _)
  | case2 i h _ hgt =>
    rw [value_drop a h, value_drop b h, eq_comm, Nat.compare_eq_gt]
    exact mul_weight_add_lt (UInt8.lt_iff_toNat_lt.mp hgt) (value_drop_lt b _)
  | case3 i h hlt hgt ih =>
    have he : a[i].toNat = b[i].toNat := by
      rw [UInt8.lt_iff_toNat_lt] at hlt hgt
      omega
    rw [ih, value_drop a h, value_drop b h, he, Nat.compare_eq_ite_lt, Nat.compare_eq_ite_lt]
    simp
  | case4 i h =>
    have hn : ∀ c : Vector UInt8 n, c.toList.drop i = [] := fun c => by simp; omega
    rw [hn a, hn b]
    rfl

end Bytes

end MulticastTunnel
