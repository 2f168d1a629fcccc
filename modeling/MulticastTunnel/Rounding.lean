/-!
# Rounding

Quotients are rounded to the nearest integer, the even one of two, and to
binary64 numbers, whose significands have 53 bits.
-/

namespace MulticastTunnel.Rounding

/-- The integer nearest to a quotient, and of two the even one. -/
def nearest (numerator denominator : Nat) : Nat :=
  let q := numerator / denominator
  let twice := 2 * (numerator % denominator)
  if twice < denominator ∨ twice = denominator ∧ q % 2 = 0 then q else q + 1

structure Ratio where
  numerator : Nat
  denominator : Nat
deriving DecidableEq, Repr

/-- The exponent `k` for which a quotient lies between `2 ^ k` and `2 ^ (k + 1)`,
for quotients of at least one. -/
def binaryExponent (r : Ratio) : Nat := Nat.log2 (r.numerator / r.denominator)

/-- The binary64 number nearest to a quotient of at least one. -/
def toBinary64 (r : Ratio) : Ratio :=
  let k := binaryExponent r
  if k ≤ 52 then
    let scale := Nat.pow 2 (52 - k)
    ⟨nearest (r.numerator * scale) r.denominator, scale⟩
  else
    let scale := Nat.pow 2 (k - 52)
    ⟨nearest r.numerator (r.denominator * scale) * scale, 1⟩

/-- The quotient of two numbers in binary64, for quotients of at least one. -/
def divide (n d : Nat) : Ratio :=
  let dividend := toBinary64 ⟨n, 1⟩
  toBinary64 ⟨dividend.numerator, dividend.denominator * d⟩

def twoPlaces (r : Ratio) : String :=
  let hundredths := nearest (100 * r.numerator) r.denominator
  let cents := hundredths % 100
  toString (hundredths / 100) ++ "." ++ (if cents < 10 then "0" else "") ++ toString cents

end MulticastTunnel.Rounding
