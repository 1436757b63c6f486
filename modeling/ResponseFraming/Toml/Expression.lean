import ResponseFraming.Toml.Scalar

/-!
# TOML expressions

Values, with arrays and tables in braces, and the entries of a table.  `addPair?` gives a dotted
key its value: the tables on its way are made where they are missing, and may be there already
only as parents, as tables of dotted keys, or as the last of repeated tables.
-/

namespace ResponseFraming.Toml

/-! ## Tables under keys -/

/-- Changes the entries of the table at the end of a path.  A missing table on the way is made
with the origin `made`; one that is there has an origin that `admits` allows.  The change gets the
origin of its table too. -/
def Entries.within? (made : Origin) (admits : Origin → Bool)
    (change : Origin → Entries → Option Entries) :
    List String → Origin → Entries → Option Entries
  | [], origin, entries => change origin entries
  | key :: path, _, entries =>
    match entries.get? key with
    | none => do
      let inner ← within? made admits change path made []
      return entries.push key (.table made inner)
    | some (.table origin inner) =>
      if admits origin then do
        let inner ← within? made admits change path origin inner
        return entries.set key (.table origin inner)
      else none
    | some (.tables elements) =>
      match elements.getLast? with
      | some (.table origin inner) => do
        let inner ← within? made admits change path origin inner
        return entries.set key (.tables (elements.dropLast ++ [.table origin inner]))
      | _ => none
    | some _ => none

/-- A dotted key with its value: the path to a table, the key in it and the value. -/
structure Pair where
  path : List String
  key : String
  value : Value

namespace Pair

def of? (key : List String) (value : Value) : Option Pair :=
  key.getLast?.map fun last => ⟨key.dropLast, last, value⟩

end Pair

/-- Adds a pair to a table's entries.  At the end of a path stands a table of dotted keys. -/
def Entries.addPair? (entries : Entries) (pair : Pair) : Option Entries :=
  entries.within? .dotted (fun origin => origin = .parent ∨ origin = .dotted)
    (fun origin inner =>
      if origin = .dotted ∨ pair.path = [] then inner.add? pair.key pair.value else none)
    pair.path .header

/-! ## Values -/

def pair (value : Reader Value) : Reader Pair := do
  let key ← dottedKey
  Reader.char '='
  blanks
  match Pair.of? key (← value) with
  | some pair => return pair
  | none => failure

/-- An array; after its last element there may be one more comma. -/
def array (value : Reader Value) : Reader Value := do
  Reader.char '['
  let element := do
    gap
    let v ← value
    gap
    return v
  let elements ← Reader.optional do
    let elements ← Reader.separated (Reader.char ',') element
    let _ ← Reader.optional (Reader.char ',')
    return elements
  gap
  Reader.char ']'
  return .array (elements.getD [])

/-- A table in braces, on one line and without a comma at its end. -/
def inlineTable (value : Reader Value) : Reader Value := do
  Reader.char '\x7b'
  let entry := do
    let p ← pair value
    blanks
    return p
  let pairs ← Reader.optional (Reader.separated (Reader.char ',') entry)
  blanks
  Reader.char '\x7d'
  match (pairs.getD []).foldlM Entries.addPair? [] with
  | some entries => return .table .inline entries
  | none => failure

/-- A value, with `inner` for the values inside an array or a table in braces, if there may be
such. -/
def valueOver (inner : Option (Reader Value)) : Reader Value := do
  match ← Reader.peek, inner with
  | '"', _ | '\'', _ => return .string (← string)
  | '[', some inner => array inner
  | '\x7b', some inner => inlineTable inner
  | _, _ => scalar

/-- A value with at most `nesting` arrays and tables in braces inside each other. -/
def value : Nat → Reader Value
  | 0 => valueOver none
  | nesting + 1 => valueOver (some (value nesting))

end ResponseFraming.Toml
