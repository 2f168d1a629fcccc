/-!
# Exponential codes

Times in queries are written with a few significant bits and an exponent. A
code of `bits` mantissa bits is the number itself when its top bit is clear;
else it holds an exponent and a mantissa whose leading one is left out.
Writing rounds down to the next number that has a code.
-/

namespace MulticastTunnel.Membership

/-- The widths of a code: mantissa bits below three exponent bits and the flag. -/
structure ExponentialCode where
  bits : Nat

namespace ExponentialCode

/-- Eight bits: response codes of IGMP and query intervals. -/
def short : ExponentialCode := ⟨4⟩

/-- Sixteen bits: response codes of MLD. -/
def long : ExponentialCode := ⟨12⟩

/-- The weight of the leading one of a mantissa. -/
def leading (c : ExponentialCode) : Nat := Nat.pow 2 c.bits

/-- Codes below this are the numbers themselves. -/
def limit (c : ExponentialCode) : Nat := 8 * c.leading

def decode (c : ExponentialCode) (code : Nat) : Nat :=
  if code < c.limit then code
  else
    let exponent := code / c.leading % 8
    let mantissa := code % c.leading
    (c.leading + mantissa) * Nat.pow 2 (exponent + 3)

/-- The first exponent from `e` on, of `n` that are left, under which `value`
has no bits above the leading one; the largest code when there is none. -/
def encodeFrom (c : ExponentialCode) (value e : Nat) : Nat → Nat
  | 0 => 2 * c.limit - 1
  | n + 1 =>
    let mantissa := value / Nat.pow 2 (e + 3)
    if mantissa < 2 * c.leading then c.limit + e * c.leading + mantissa % c.leading
    else c.encodeFrom value (e + 1) n

/-- The code of the largest number with a code that is at most `value`. -/
def encode (c : ExponentialCode) (value : Nat) : Nat :=
  if value < c.limit then value else c.encodeFrom value 0 8

end ExponentialCode

end MulticastTunnel.Membership
