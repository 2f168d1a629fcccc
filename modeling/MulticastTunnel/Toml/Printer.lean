import MulticastTunnel.Toml.Scalar

/-!
# Writing TOML

A string is written in the first notation of this list in which no character
of it needs an escape: between double quotes, between single quotes, and the
same over several lines. Where there is none, it stands between double quotes
with escapes.
-/

namespace MulticastTunnel.Toml

/-! ## Strings -/

def longestRun (c : Char) (s : List Char) : Nat :=
  (s.foldl (fun (longest, run) d =>
    let run := if d = c then run + 1 else 0
    (max longest run, run)) (0, 0)).1

/-- Whether a character has to be escaped in every notation. -/
def needsEscape (c : Char) : Bool := isControl c && c ≠ '\t' && c ≠ '\n'

/-- The characters between double quotes that stand for the text. Of quotes in
a row, at most `quotes` stand for themselves; `run` of them precede the text. -/
def escaped (lines : Bool) (quotes : Nat) : (run : Nat) → List Char → List Char
  | _, [] => []
  | run, c :: cs =>
    if c = doubleQuote then
      if run < quotes then c :: escaped lines quotes (run + 1) cs
      else '\\' :: c :: escaped lines quotes 0 cs
    else
      let written : List Char :=
        if c = '\x08' then ['\\', 'b']
        else if c = '\t' then ['\\', 't']
        else if c = '\n' then if lines then [c] else ['\\', 'n']
        else if c = '\x0c' then ['\\', 'f']
        else if c = '\r' then ['\\', 'r']
        else if c = '\\' then ['\\', '\\']
        else if isControl c then
          ['\\', 'u'] ++ (Text.padZeros 4 (Text.hexadecimal c.toNat)).toList.map Char.toUpper
        else [c]
      written ++ escaped lines quotes 0 cs

def quoted (s : String) : String :=
  let cs := s.toList
  let lines := '\n' ∈ cs
  let between (quote : Char) (times : Nat) (body : List Char) : String :=
    let delimiter := List.replicate times quote
    let start := if lines ∧ times = 3 then ['\n'] else []
    String.ofList (delimiter ++ start ++ body ++ delimiter)
  let controls := cs.any needsEscape
  let backslash := '\\' ∈ cs
  let double := longestRun doubleQuote cs
  let single := longestRun singleQuote cs
  let basic := between doubleQuote 1 (escaped false 0 0 cs)
  let basicLines := between doubleQuote 3 (escaped true 2 0 cs)
  if controls then if lines then basicLines else basic
  else if ¬ backslash ∧ double = 0 ∧ ¬ lines then basic
  else if single = 0 ∧ ¬ lines then between singleQuote 1 cs
  else if ¬ backslash ∧ double ≤ 2 then basicLines
  else if single ≤ 2 then between singleQuote 3 cs
  else if lines then basicLines
  else basic

/-! ## Documents -/

/-- The text of a string, an integer or a truth value. Integers out of range,
and all other values, are not written. -/
def Value.render? : Value → Option String
  | .string s => some (quoted s)
  | .integer n => if isInteger n then some (toString n) else none
  | .boolean b => some (if b then "true" else "false")
  | _ => none

def renderEntries? (entries : List (String × Value)) : Option String := do
  let lines ← entries.mapM fun (name, v) => do
    return name ++ " = " ++ (← v.render?) ++ "\n"
  return String.join lines

/-- A document of plain keys and then tables of plain keys. -/
def render? (entries : List (String × Value)) (tables : List (String × List (String × Value))) :
    Option String := do
  let sections ← tables.mapM fun (name, es) => do
    return "\n[" ++ name ++ "]\n" ++ (← renderEntries? es)
  return (← renderEntries? entries) ++ String.join sections

end MulticastTunnel.Toml
