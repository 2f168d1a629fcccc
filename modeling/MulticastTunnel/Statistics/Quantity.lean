import MulticastTunnel.Address.Text
import MulticastTunnel.Rounding

/-!
# Quantities as text

Sizes, bit rates and durations in the largest unit that they fill. Sizes and
rates above the smallest unit have two decimals.
-/

namespace MulticastTunnel.Statistics

/-- A quantity in the first of these units that it fills, the largest first,
or else as it is. -/
def inUnits (n : Nat) (smallest : String) : List (Nat × String) → String
  | [] => toString n ++ " " ++ smallest
  | (unit, name) :: units =>
    if unit ≤ n then Rounding.twoPlaces (Rounding.divide n unit) ++ " " ++ name
    else inUnits n smallest units

def sizeText (octets : Nat) : String :=
  inUnits octets "B" [(1073741824, "GB"), (1048576, "MB"), (1024, "KB")]

def rateText (bitsPerSecond : Nat) : String :=
  inUnits bitsPerSecond "bps" [(1000000000, "Gbps"), (1000000, "Mbps"), (1000, "Kbps")]

def twoDigits (n : Nat) : String := Text.padZeros 2 (toString n)

def durationText (seconds : Nat) : String :=
  let h := seconds / 3600
  let m := seconds % 3600 / 60
  let s := seconds % 60
  if 0 < h then toString h ++ "h " ++ twoDigits m ++ "m " ++ twoDigits s ++ "s"
  else if 0 < m then toString m ++ "m " ++ twoDigits s ++ "s"
  else toString s ++ "s"

end MulticastTunnel.Statistics
