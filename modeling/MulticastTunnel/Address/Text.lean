import MulticastTunnel.Address

/-!
# Addresses as text

IPv4 addresses are four decimal numbers without leading zeros. IPv6 addresses
are written with the longest run of two or more zero groups left out, the
first of equally long ones, and with an IPv4 tail only for mapped addresses;
they are read in every form that names eight groups. A socket adds its port,
and an IPv6 address then stands in brackets.
-/

namespace MulticastTunnel

namespace Text

/-- The text of a number in base 16, without leading zeros. -/
def hexadecimal (n : Nat) : String := String.ofList (Nat.toDigits 16 n)

/-- `digits` padded with zeros on the left to `width` characters. -/
def padZeros (width : Nat) (digits : String) : String :=
  String.ofList (List.replicate (width - digits.length) '0') ++ digits

/-- Two lower-case digits in base 16 for each octet. -/
def hexOctets (b : Bytes) : String :=
  b.foldl (fun s o => s ++ padZeros 2 (hexadecimal o.toNat)) ""

/-- The value of a digit in a base of at most 16. -/
def digit? (base : Nat) (c : Char) : Option Nat :=
  let d : Option Nat :=
    if '0' ≤ c ∧ c ≤ '9' then some (c.toNat - '0'.toNat)
    else if 'a' ≤ c ∧ c ≤ 'f' then some (c.toNat - 'a'.toNat + 10)
    else if 'A' ≤ c ∧ c ≤ 'F' then some (c.toNat - 'A'.toNat + 10)
    else none
  d.filter (· < base)

/-- The octets that pairs of hexadecimal digits write. -/
def octets? : List Char → Option Bytes
  | [] => some []
  | [_] => none
  | high :: low :: rest => do
    let h ← digit? 16 high
    let l ← digit? 16 low
    return UInt8.ofNat (h * 16 + l) :: (← octets? rest)

def numberOf (base : Nat) (digits : List Char) : Nat :=
  digits.foldl (fun n c => n * base + (digit? base c).getD 0) 0

/-- A non-empty run of digits at the start of the text, and what follows it. -/
def takeDigits? (base : Nat) (s : List Char) : Option (List Char × List Char) :=
  let digits := s.takeWhile fun c => (digit? base c).isSome
  if digits.isEmpty then none else some (digits, s.dropWhile fun c => (digit? base c).isSome)

/-- A decimal number of any length up to `limit`, and what follows it. -/
def decimal? (limit : Nat) (s : List Char) : Option (Nat × List Char) := do
  let (digits, rest) ← takeDigits? 10 s
  let n := numberOf 10 digits
  if n ≤ limit then some (n, rest) else none

/-- The text after the character `c`. -/
def after? (c : Char) : List Char → Option (List Char)
  | d :: rest => if d = c then some rest else none
  | [] => none

end Text

namespace Address

open Text

/-- One to three decimal digits up to 255 without a leading zero. -/
def decimalOctet? (s : List Char) : Option (UInt8 × List Char) := do
  let (digits, rest) ← takeDigits? 10 s
  if digits.length ≤ 3 ∧ (digits.length = 1 ∨ digits.head? ≠ some '0') then
    let n := numberOf 10 digits
    if n ≤ 255 then some (UInt8.ofNat n, rest) else none
  else none

/-- Four octets with dots between them, and what follows. -/
def dotted? (s : List Char) : Option (Vector UInt8 4 × List Char) := do
  let (a, s) ← decimalOctet? s
  let (b, s) ← after? '.' s >>= decimalOctet?
  let (c, s) ← after? '.' s >>= decimalOctet?
  let (d, s) ← after? '.' s >>= decimalOctet?
  some (#v[a, b, c, d], s)

def hexGroup? (s : List Char) : Option (Nat × List Char) := do
  let (digits, rest) ← takeDigits? 16 s
  if digits.length ≤ 4 then some (numberOf 16 digits, rest) else none

/-- What `item` reads after a colon, which the first item of a row lacks. -/
def separated? {α : Type} (first : Bool) (item : List Char → Option (α × List Char))
    (s : List Char) : Option (α × List Char) :=
  if first then item s else after? ':' s >>= item

/-- At most `limit` groups with colons between them. Two groups may be written
as an IPv4 address, which ends the row; the flag tells that it did. -/
def groups : (limit : Nat) → (first : Bool) → List Char → List Nat × Bool × List Char
  | 0, _, s => ([], false, s)
  | limit + 1, first, s =>
    match if 1 ≤ limit then separated? first dotted? s else none with
    | some (o, rest) =>
      ([o[0].toNat * 256 + o[1].toNat, o[2].toNat * 256 + o[3].toNat], true, rest)
    | none =>
      match separated? first hexGroup? s with
      | none => ([], false, s)
      | some (g, rest) =>
        let (more, tail, rest) := groups limit false rest
        (g :: more, tail, rest)

def ofGroups (gs : List Nat) : Vector UInt8 16 :=
  Vector.ofFn fun i =>
    let g := gs.getD (i.val / 2) 0
    if i.val % 2 = 0 then UInt8.ofNat (g / 256) else UInt8.ofNat g

/-- Eight groups, or fewer around one double colon. -/
def colons? (s : List Char) : Option (Vector UInt8 16 × List Char) :=
  let (head, tail, rest) := groups 8 true s
  if head.length = 8 then some (ofGroups head, rest)
  else if tail then none
  else do
    let rest ← after? ':' rest >>= after? ':'
    let (back, _, rest) := groups (7 - head.length) true rest
    some (ofGroups (head ++ List.replicate (8 - head.length - back.length) 0 ++ back), rest)

def ofText? (text : String) : Option Address :=
  let s := text.toList
  match (dotted? s).map (fun (o, rest) => (Address.v4 o, rest))
      <|> (colons? s).map (fun (o, rest) => (Address.v6 o, rest)) with
  | some (a, []) => some a
  | _ => none

/-- The eight 16-bit groups of an IPv6 address. -/
def groupsOf (o : Vector UInt8 16) : List Nat :=
  (List.range 8).map fun i => Bytes.word16 o.toList (2 * i)

def zeroRun (gs : List Nat) : Nat := (gs.takeWhile (· = 0)).length

/-- Start and length of the longest run of zeros, the first of equal ones. -/
def longestZeros (gs : List Nat) : Nat × Nat :=
  (List.range gs.length).foldl
    (fun best i =>
      let run := zeroRun (gs.drop i)
      if best.2 < run then (i, run) else best)
    (0, 0)

def dottedText (o : List UInt8) : String := ".".intercalate (o.map fun b => toString b.toNat)

def groupsText (gs : List Nat) : String := ":".intercalate (gs.map hexadecimal)

def toText : Address → String
  | .v4 o => dottedText o.toList
  | .v6 o =>
    match mapped? o with
    | some tail => "::ffff:" ++ dottedText tail.toList
    | none =>
      let gs := groupsOf o
      let (start, run) := longestZeros gs
      if 1 < run then groupsText (gs.take start) ++ "::" ++ groupsText (gs.drop (start + run))
      else groupsText gs

end Address

namespace SocketAddress

open Text

/-- A colon and a decimal port at the end of the text. -/
def port? (s : List Char) : Option UInt16 := do
  let (n, rest) ← after? ':' s >>= decimal? 65535
  if rest.isEmpty then some (UInt16.ofNat n) else none

/-- The socket that the text names, of no flow. -/
def ofText? (text : String) : Option SocketAddress :=
  let s := text.toList
  match Address.dotted? s with
  | some (o, rest) => (port? rest).map (⟨.v4 o, ·, 0, 0⟩)
  | none => do
    let (o, rest) ← after? '[' s >>= Address.colons?
    let (scope, rest) ← match after? '%' rest with
      | some rest => decimal? 4294967295 rest
      | none => some (0, rest)
    let port ← after? ']' rest >>= port?
    some ⟨.v6 o, port, 0, UInt32.ofNat scope⟩

def toText (a : SocketAddress) : String :=
  match a.address with
  | .v4 _ => a.address.toText ++ ":" ++ toString a.port.toNat
  | .v6 _ =>
    let scope := if a.scope = 0 then "" else "%" ++ toString a.scope.toNat
    "[" ++ a.address.toText ++ scope ++ "]:" ++ toString a.port.toNat

end SocketAddress

end MulticastTunnel
