/-!
# Readers

A reader takes something off the start of a text and leaves the rest, or
refuses the text. A choice of two readers tries the second one on the same
text when the first refuses it.
-/

namespace MulticastTunnel.Text

abbrev Reader := StateT (List Char) Option

namespace Reader

variable {α β : Type}

def one (p : Char → Bool) : Reader Char
  | c :: rest => if p c then some (c, rest) else none
  | [] => none

def char (c : Char) : Reader Unit := do
  let _ ← one (· == c)

def chars (cs : List Char) : Reader Unit := cs.forM char

/-- All characters of a class up to the first other one. -/
def span (p : Char → Bool) : Reader (List Char) := fun s => some (s.takeWhile p, s.dropWhile p)

def spanOne (p : Char → Bool) : Reader (List Char) := do
  let c ← one p
  let cs ← span p
  return c :: cs

def finish : Reader Unit
  | [] => some ((), [])
  | _ :: _ => none

/-- Looks at the rest of the text and leaves it there. -/
def before (p : List Char → Bool) : Reader Unit := fun s => if p s then some ((), s) else none

def taken (r : Reader α) : Reader (List Char) := fun s =>
  match r s with
  | none => none
  | some (_, rest) => some (s.take (s.length - rest.length), rest)

/-- What a reader takes again and again, until it refuses or takes nothing. -/
def manyFrom (r : Reader α) (s : List Char) : List α × List Char :=
  match r s with
  | none => ([], s)
  | some (a, rest) =>
    if rest.length < s.length then
      let (as, rest) := manyFrom r rest
      (a :: as, rest)
    else ([], s)
termination_by s.length

def many (r : Reader α) : Reader (List α) := fun s => some (manyFrom r s)

/-- One or more of `r`, with `separator` between them. -/
def separatedBy (separator : Reader β) (r : Reader α) : Reader (List α) := do
  let a ← r
  let as ← many (separator *> r)
  return a :: as

/-- What a reader takes from a text that it takes whole. -/
def whole? (r : Reader α) (s : String) : Option α :=
  match r s.toList with
  | some (a, []) => some a
  | _ => none

end Reader

end MulticastTunnel.Text
