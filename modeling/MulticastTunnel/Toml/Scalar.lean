import MulticastTunnel.Address.Text
import MulticastTunnel.Text.Reader
import MulticastTunnel.Toml.Value

/-!
# TOML scalars

Strings in four notations, integers in four bases, numbers with a fraction or
an exponent, truth values, and dates and times.
-/

namespace MulticastTunnel.Toml

open Text Text.Reader

/-! ## Characters -/

def isBlank (c : Char) : Bool := c = ' ' || c = '\t'

/-- Whether a character is an ASCII control character. -/
def isControl (c : Char) : Bool := c.toNat < 0x20 || c.toNat = 0x7f

/-- Whether a character can stand in a comment. -/
def isInline (c : Char) : Bool := c = '\t' || !isControl c

def isDecimal (c : Char) : Bool := (digit? 10 c).isSome

def blanks : Reader Unit := do
  let _ ← span isBlank

/-- A line feed, which a carriage return may precede. -/
def lineBreak : Reader Unit := char '\n' <|> chars ['\r', '\n']

def comment : Reader Unit := do
  char '#'
  let _ ← span isInline

/-! ## Strings -/

def doubleQuote : Char := '\x22'

def singleQuote : Char := '\x27'

/-- Exactly `n` digits of a base, as a number. -/
def digits (base : Nat) : (n : Nat) → Reader Nat
  | 0 => return 0
  | n + 1 => do
    let high ← digits base n
    let c ← one fun c => (digit? base c).isSome
    return high * base + (digit? base c).getD 0

def scalar (n : Nat) : Reader Char := if n.isValidChar then return Char.ofNat n else failure

/-- A character written by a backslash and what follows it. -/
def escape : Reader Char := do
  char '\\'
  match ← one fun _ => true with
  | 'b' => return '\x08'
  | 't' => return '\t'
  | 'n' => return '\n'
  | 'f' => return '\x0c'
  | 'r' => return '\r'
  | '\\' => return '\\'
  | 'u' => digits 16 4 >>= scalar
  | 'U' => digits 16 8 >>= scalar
  | c => if c = doubleQuote then return c else failure

/-- A character that stands for itself between double quotes. -/
def isPlain (c : Char) : Bool := isInline c && c ≠ doubleQuote && c ≠ '\\'

/-- A character that stands for itself between single quotes. -/
def isLiteral (c : Char) : Bool := isInline c && c ≠ singleQuote

def basicString : Reader String := do
  char doubleQuote
  let parts ← many (spanOne isPlain <|> (do return [← escape]))
  char doubleQuote
  return String.ofList parts.flatten

def literalString : Reader String := do
  char singleQuote
  let cs ← span isLiteral
  char singleQuote
  return String.ofList cs

/-- A backslash at the end of a line, which joins it with the next text. -/
def continuation : Reader (List Char) := do
  char '\\'
  blanks
  lineBreak
  let _ ← many (lineBreak <|> do let _ ← one isBlank)
  return []

/-- One or two quotes before a text that `follows` allows. -/
def quotesBefore (quote : Char) (follows : List Char → Bool) : Reader (List Char) :=
  (do chars [quote, quote]; before follows; return [quote, quote]) <|>
    (do char quote; before follows; return [quote])

/-- A string between three quotes, whose parts `part` reads. Fewer than three
quotes may stand in it, also at its end. -/
def multiLine (quote : Char) (part : Reader (List Char)) : Reader String := do
  let delimiter := [quote, quote, quote]
  chars delimiter
  let _ ← optional lineBreak
  let parts ← many (part <|> quotesBefore quote fun s => s.head?.any (· ≠ quote))
  let last ← optional (quotesBefore quote fun s => delimiter.isPrefixOf s)
  chars delimiter
  return String.ofList (parts.flatten ++ last.getD [])

def lineBreakPart : Reader (List Char) := do
  lineBreak
  return ['\n']

def multiLineBasic : Reader String :=
  multiLine doubleQuote
    (spanOne isPlain <|> continuation <|> (do return [← escape]) <|> lineBreakPart)

def multiLineLiteral : Reader String :=
  multiLine singleQuote (spanOne isLiteral <|> lineBreakPart)

def string : Reader String := multiLineBasic <|> basicString <|> multiLineLiteral <|> literalString

/-! ## Numbers -/

/-- Digits of a base, where an underscore may stand between two of them. -/
def grouped (base : Nat) : Reader (List Char) := do
  let digit := one fun c => (digit? base c).isSome
  let first ← digit
  let rest ← many (digit <|> char '_' *> digit)
  return first :: rest

/-- A sign, of which a minus is true. -/
def sign : Reader Bool := (char '-' *> pure true) <|> (char '+' *> pure false)

/-- Decimal digits without leading zeros. -/
def leading : Reader (List Char) :=
  (char '0' *> pure ['0']) <|> grouped 10

def isInteger (n : Int) : Bool := -9223372036854775808 ≤ n && n ≤ 9223372036854775807

def bounded (n : Int) : Reader Value := if isInteger n then return .integer n else failure

def inBase (mark : Char) (base : Nat) : Reader Value := do
  chars ['0', mark]
  bounded (numberOf base (← grouped base))

def decimal : Reader Value := do
  let negative ← optional sign
  let n := numberOf 10 (← leading)
  bounded (if negative = some true then -n else n)

def integer : Reader Value := inBase 'x' 16 <|> inBase 'o' 8 <|> inBase 'b' 2 <|> decimal

/-- Whether the number that `digits` write, times a power of ten, is larger
than every binary64 number even after rounding. -/
def isHuge (digits : List Char) (exponent : Int) : Bool :=
  let n := numberOf 10 digits
  let magnitude : Int := (Nat.toDigits 10 n).length + exponent
  if n = 0 ∨ magnitude < 300 then false
  else if 320 < magnitude then true
  else
    Nat.pow 2 1024 - Nat.pow 2 970 ≤ n * Nat.pow 10 exponent.toNat / Nat.pow 10 (-exponent).toNat

def exponent : Reader Int := do
  let _ ← one fun c => c = 'e' || c = 'E'
  let negative ← optional sign
  let n := numberOf 10 (← grouped 10)
  return if negative = some true then -n else n

/-- A number with a fraction, an exponent or both, or one of the numbers that
are written as words. A positive number that is too large is refused. -/
def float : Reader Value := do
  let number : Reader Unit := do
    let negative ← optional sign
    let whole ← leading
    let (fraction, power) ← (do return ([], ← exponent)) <|> (do
      char '.'
      let ds ← grouped 10
      return (ds, (← optional exponent).getD 0))
    if negative ≠ some true ∧ isHuge (whole ++ fraction) (power - fraction.length) then failure
  let word : Reader Unit := do
    let _ ← optional sign
    chars "inf".toList <|> chars "nan".toList
  let text ← taken (number <|> word)
  return .float (String.ofList text)

def boolean : Reader Value :=
  (chars "true".toList *> pure (.boolean true)) <|>
    (chars "false".toList *> pure (.boolean false))

/-! ## Dates and times -/

def twoDigits (low high : Nat) : Reader Nat := do
  let n ← digits 10 2
  if low ≤ n ∧ n ≤ high then return n else failure

def isLeapYear (year : Nat) : Bool := year % 4 = 0 && (year % 100 ≠ 0 || year % 400 = 0)

def daysIn (year month : Nat) : Nat :=
  if month = 2 then if isLeapYear year then 29 else 28
  else if month ∈ [4, 6, 9, 11] then 30
  else 31

def date : Reader Unit := do
  let year ← digits 10 4
  char '-'
  let month ← twoDigits 1 12
  char '-'
  let _ ← twoDigits 1 (daysIn year month)

def time : Reader Unit := do
  let _ ← twoDigits 0 23
  char ':'
  let _ ← twoDigits 0 59
  char ':'
  let _ ← twoDigits 0 60
  let _ ← optional (char '.' *> spanOne isDecimal)

def offset : Reader Unit :=
  (do let _ ← one fun c => c = 'Z' || c = 'z') <|> do
    let _ ← sign
    let _ ← twoDigits 0 23
    char ':'
    let _ ← twoDigits 0 59

def dateTime : Reader Value := do
  let both : Reader Unit := do
    date
    let _ ← optional do
      let _ ← one fun c => c = 'T' || c = 't' || c = ' '
      time
      optional offset
  let text ← taken (both <|> time)
  return .dateTime (String.ofList text)

def scalarValue : Reader Value :=
  (.string <$> string) <|> dateTime <|> float <|> integer <|> boolean

end MulticastTunnel.Toml
