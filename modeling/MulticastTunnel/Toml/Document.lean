import MulticastTunnel.Toml.Scalar

/-!
# TOML documents

A document is a list of statements, one a line: a key with a value, the header
of a table, or the header of one more table of an array. Blank lines and
comments are passed over.
-/

namespace MulticastTunnel.Toml

open Text Text.Reader

/-! ## Values -/

/-- Arrays and tables in braces lie fewer than this many levels deep, and keys
have fewer parts. -/
def depthLimit : Nat := 80

def bareKey : Reader String := do
  let cs ← spanOne fun c => c.isAlphanum || c = '-' || c = '_'
  return String.ofList cs

/-- The parts of a key, with dots between them. -/
def key : Reader (List String) := do
  let parts ← separatedBy (char '.')
    (blanks *> (bareKey <|> basicString <|> literalString) <* blanks)
  if parts.length < depthLimit then return parts else failure

/-- Blanks, line breaks and comments, which may stand in an array. -/
def gap : Reader Unit := do
  let _ ← many (lineBreak <|> comment <|> do let _ ← one isBlank)

def array (value : Reader Value) : Reader Value := do
  char '['
  let items ← optional do
    let items ← separatedBy (char ',') (gap *> value <* gap)
    let _ ← optional (char ',')
    return items
  gap
  char ']'
  return .array true (items.getD [])

/-- The path and the last part of a key. -/
def splitKey (parts : List String) : List String × String :=
  (parts.dropLast, parts.getLastD "")

/-- A key, an equals sign and a value. -/
def assignment (value : Reader Value) : Reader (List String × Value) := do
  let parts ← key
  char '='
  blanks
  let v ← value
  return (parts, v)

def inlineTable (value : Reader Value) : Reader Value := do
  char '\x7b'
  let entries ← optional (separatedBy (char ',') (assignment value <* blanks))
  blanks
  char '\x7d'
  let table := (entries.getD []).foldlM (fun t (parts, v) =>
    let (path, last) := splitKey parts
    Value.assign path last v t) (Value.table .inline [])
  table.elim failure pure

/-- A value in which arrays and tables lie at most `depth` levels deep. -/
def valueWithin : (depth : Nat) → Reader Value
  | 0 => scalarValue
  | depth + 1 =>
    scalarValue <|> array (valueWithin depth) <|> inlineTable (valueWithin depth)

def value : Reader Value := valueWithin (depthLimit - 1)

/-! ## Statements -/

inductive Statement
  | assign (key : List String) (value : Value)
  /-- The statements that follow are about this table. -/
  | table (key : List String)
  /-- The statements that follow are about a new table of this array. -/
  | element (key : List String)

def statement : Reader Statement :=
  (do
    chars ['[', '[']
    let parts ← key
    chars [']', ']']
    return .element parts) <|>
  (do
    char '['
    let parts ← key
    char ']'
    return .table parts) <|>
  (do
    let (parts, v) ← assignment value
    return .assign parts v)

/-- A line, which may hold no statement. It ends with a line break or with the
document. -/
def line : Reader (Option Statement) := do
  blanks
  let s ← optional statement
  blanks
  let _ ← optional comment
  lineBreak <|> finish
  return s

def document : Reader (List Statement) := do
  let _ ← optional (char '\ufeff')
  let lines ← many line
  finish
  return lines.filterMap id

/-! ## Tables -/

/-- A document as far as it was read, and the table that statements are about. -/
structure Builder where
  root : Value := .table .header []
  current : List String := []

def Builder.add (b : Builder) : Statement → Option Builder
  | .assign parts v => do
    let (path, last) := splitKey parts
    let root ← b.root.change false (Value.assign path last v) b.current
    return { b with root }
  | .table parts => do
    let (path, last) := splitKey parts
    return { root := ← b.root.openTable path last, current := parts }
  | .element parts => do
    let (path, last) := splitKey parts
    return { root := ← b.root.openElement path last, current := parts }

def ofText? (text : String) : Option Value := do
  let statements ← document.whole? text
  let built ← statements.foldlM Builder.add {}
  return built.root

end MulticastTunnel.Toml
