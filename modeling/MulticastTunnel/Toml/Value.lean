/-!
# TOML documents as data

A document is a table whose entries keep the order in which they were
written. What a table may still take depends on how it came to be: tables in
braces are complete, tables made by dotted keys grow by dotted keys alone, and
a table that a header only passed through may get a header of its own.
-/

namespace MulticastTunnel.Toml

/-- How a table came to be. -/
inductive Origin
  /-- By its own header, or as the whole document. -/
  | header
  /-- By the header of a table inside it. -/
  | implied
  /-- By a dotted key. -/
  | dotted
  /-- In braces. -/
  | inline
deriving DecidableEq, Repr

inductive Value
  | string (s : String)
  | integer (n : Int)
  /-- A number that is no integer, as it is written. -/
  | float (text : String)
  | boolean (b : Bool)
  /-- A date, a time or both, as it is written. -/
  | dateTime (text : String)
  /-- An array, which is complete, or one of tables that grows by headers. -/
  | array (complete : Bool) (items : List Value)
  | table (origin : Origin) (entries : List (String × Value))

namespace Value

/-- The entries with another value for a key, which is added if it is new. -/
def setEntry (key : String) (v : Value) (entries : List (String × Value)) :
    List (String × Value) :=
  if (entries.lookup key).isSome then
    entries.map fun (k, old) => if k = key then (k, v) else (k, old)
  else entries ++ [(key, v)]

/-- Whether a key can lead into a table of this origin. -/
def Origin.isOpenTo (dotted : Bool) : Origin → Bool
  | .inline => false
  | .header => !dotted
  | .implied | .dotted => true

/-- Changes the table under a path. Tables on the way are made where there is
none, and of an array of tables the last one is meant. A path through anything
else is refused. -/
def change (dotted : Bool) (f : Value → Option Value) : (path : List String) → Value →
    Option Value
  | [], v => f v
  | key :: path, .table origin entries => do
    let put (v : Value) : Value := .table origin (setEntry key v entries)
    match entries.lookup key with
    | none => put <$> change dotted f path (.table (if dotted then .dotted else .implied) [])
    | some (.table o es) =>
      if Origin.isOpenTo dotted o then put <$> change dotted f path (.table o es) else none
    | some (.array false items) =>
      let last ← change dotted f path (← items.getLast?)
      return put (.array false (items.dropLast ++ [last]))
    | some _ => none
  | _ :: _, _ => none

/-- Gives a key of the table under `path` a value. The key must be new, and a
table reached by a dotted key must have been made by one. -/
def assign (path : List String) (key : String) (v : Value) (root : Value) : Option Value :=
  root.change true (fun
    | .table origin entries =>
      if (origin = .dotted) = path.isEmpty ∨ (entries.lookup key).isSome then none
      else some (.table origin (entries ++ [(key, v)]))
    | _ => none) path

/-- Makes the table that a header names. One that was only passed through
before keeps what it holds. -/
def openTable (path : List String) (key : String) (root : Value) : Option Value :=
  root.change false (fun
    | .table origin entries =>
      match entries.lookup key with
      | none => some (.table origin (entries ++ [(key, .table .header [])]))
      | some (.table .implied es) => some (.table origin (setEntry key (.table .header es) entries))
      | some _ => none
    | _ => none) path

/-- Adds a table to the array of tables that a header names. -/
def openElement (path : List String) (key : String) (root : Value) : Option Value :=
  root.change false (fun
    | .table origin entries =>
      match entries.lookup key with
      | none => some (.table origin (entries ++ [(key, .array false [.table .header []])]))
      | some (.array false items) =>
        some (.table origin (setEntry key (.array false (items ++ [.table .header []])) entries))
      | some _ => none
    | _ => none) path

end Value

end MulticastTunnel.Toml
