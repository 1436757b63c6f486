import ResponseFraming.Decimal

/-!
# TOML values

A document is a table; a table is a list of entries in the order in which their keys were first
given.  Tables remember how they came to be, as that decides how they may be extended.
-/

namespace ResponseFraming.Toml

/-- How a table came to be. -/
inductive Origin
  /-- By a header of its own, or as the document. -/
  | header
  /-- As a parent named on the way in a header. -/
  | parent
  /-- As a parent named on the way in a dotted key. -/
  | dotted
  /-- In braces. -/
  | inline
deriving DecidableEq, Repr

inductive Value
  | string (s : String)
  | integer (n : Int)
  | float (x : Binary64)
  | boolean (b : Bool)
  /-- A date, a time or both.  No key takes one, so its fields are not kept. -/
  | datetime
  | array (elements : List Value)
  /-- Tables under repeated headers in double brackets. -/
  | tables (elements : List Value)
  | table (origin : Origin) (entries : List (String × Value))
deriving Repr

abbrev Entries := List (String × Value)

abbrev Parser := String → Option Entries

namespace Entries

def get? (entries : Entries) (key : String) : Option Value :=
  (entries.find? (·.1 == key)).map (·.2)

def set (entries : Entries) (key : String) (value : Value) : Entries :=
  entries.map fun entry => if entry.1 = key then (key, value) else entry

def remove (entries : Entries) (key : String) : Entries := entries.filter (·.1 != key)

def push (entries : Entries) (key : String) (value : Value) : Entries :=
  entries ++ [(key, value)]

def add? (entries : Entries) (key : String) (value : Value) : Option Entries :=
  match entries.get? key with
  | none => some (entries.push key value)
  | some _ => none

end Entries

def Value.kind : Value → String
  | string _ => "string"
  | integer _ => "integer"
  | float _ => "float"
  | boolean _ => "boolean"
  | datetime => "datetime"
  | array _ => "array"
  | tables _ => "array of tables"
  | table .. => "table"

end ResponseFraming.Toml
