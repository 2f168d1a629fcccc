import MulticastTunnel.Address

/-!
# Internet checksum

The ones' complement of the ones' complement sum of the big-endian 16-bit
words. Octets may come in pieces: an odd octet waits for the next piece, and
at the end it counts as the first half of a word.
-/

namespace MulticastTunnel

/-- The sum of the words so far and an octet that waits for its second half. -/
structure Checksum where
  sum : Nat := 0
  half : Option UInt8 := none
deriving DecidableEq

namespace Checksum

/-- The sum of the full words of `b`, and the octet left over. -/
def words : Bytes → Nat × Option UInt8
  | [] => (0, none)
  | [o] => (0, some o)
  | a :: b :: rest =>
    let (sum, half) := words rest
    (a.toNat * 256 + b.toNat + sum, half)

def add (c : Checksum) (b : Bytes) : Checksum :=
  let (sum, half) := words (c.half.toList ++ b)
  ⟨c.sum + sum, half⟩

/-- The octets in front of a transport header that the checksum covers too:
addresses, protocol and length, the last two in the widths of the family. -/
def pseudoHeader (addresses : AddressPair) (protocol : UInt8) (length : Nat) : Bytes :=
  match addresses with
  | .v4 s d => s.toList ++ d.toList ++ [0, protocol] ++ Bytes.ofWord16 length
  | .v6 s d => s.toList ++ d.toList ++ Bytes.ofWord32 length ++ [0, 0, 0, protocol]

/-- Carries folded back in until 16 bits hold the sum. -/
def fold (n : Nat) : Nat :=
  if h : 65535 < n then fold (n % 65536 + n / 65536) else n
termination_by n
decreasing_by omega

def finish (c : Checksum) : UInt16 :=
  let tail := match c.half with
    | some o => o.toNat * 256
    | none => 0
  UInt16.ofNat (65535 - fold (c.sum + tail))

/-- The checksum of octets that come in one piece. -/
def of (b : Bytes) : UInt16 := (({} : Checksum).add b).finish

theorem fold_le (n : Nat) : fold n ≤ 65535 := by
  fun_induction fold n with
  | case1 n h ih => exact ih
  | case2 n h => omega

@[simp] theorem add_nil (c : Checksum) : c.add [] = c := by
  obtain ⟨sum, half⟩ := c
  cases half <;> simp [add, words]

end Checksum

end MulticastTunnel
