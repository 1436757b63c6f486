import ResponseFraming.Toml.Expression

/-!
# TOML documents

A document is read as lines, the lines are grouped into sections under their headers, and the
sections are put into one table.  `parse?` gives the entries of that table.
-/

namespace ResponseFraming.Toml

inductive Line
  | blank
  /-- A table's name in brackets; `repeated` if they are doubled. -/
  | header (repeated : Bool) (name : List String)
  | pair (p : Pair)

/-- A header with the pairs up to the next header. -/
structure Section where
  repeated : Bool
  path : List String
  key : String
  pairs : List Pair

/-! ## Lines -/

/-- Up to 79 arrays and tables in braces may stand inside each other. -/
def deepestNesting : Nat := 79

def header : Reader Line := do
  Reader.char '['
  let repeated := (← Reader.optional (Reader.char '[')).isSome
  let name ← dottedKey
  Reader.char ']'
  if repeated then Reader.char ']'
  return .header repeated name

def line : Reader Line := do
  blanks
  let content ← header <|> (Line.pair <$> pair (value deepestNesting)) <|> pure .blank
  lineRest
  return content

def lines? (input : List Char) : Option (List Line) := do
  match line input with
  | some (l, []) => return [l]
  | some (l, rest) =>
    let (_, rest) ← newline rest
    if rest.length < input.length then return l :: (← lines? rest) else none
  | none => none
termination_by input.length

/-! ## Sections -/

/-- The pairs before the first header, and the sections. -/
def group : List Line → Option (List Pair × List Section)
  | [] => some ([], [])
  | .blank :: rest => group rest
  | .pair p :: rest => do
    let (pairs, sections) ← group rest
    return (p :: pairs, sections)
  | .header repeated name :: rest => do
    let (pairs, sections) ← group rest
    return ([], ⟨repeated, name.dropLast, ← name.getLast?, pairs⟩ :: sections)

def addPairs? (entries : Entries) (pairs : List Pair) : Option Entries :=
  pairs.foldlM Entries.addPair? entries

/-- Puts a section's table under its key.  A plain table may be there already as a parent only,
and moves to the end; a repeated one follows those of the same name. -/
def Section.place? (s : Section) (entries : Entries) : Option Entries :=
  match s.repeated, entries.get? s.key with
  | false, none => do return entries.push s.key (.table .header (← addPairs? [] s.pairs))
  | false, some (.table .parent inner) => do
    return (entries.remove s.key).push s.key (.table .header (← addPairs? inner s.pairs))
  | true, none => do
    return entries.push s.key (.tables [.table .header (← addPairs? [] s.pairs)])
  | true, some (.tables elements) => do
    return entries.set s.key
      (.tables (elements ++ [.table .header (← addPairs? [] s.pairs)]))
  | _, some _ => none

def addSection? (entries : Entries) (s : Section) : Option Entries :=
  entries.within? .parent (· != .inline) (fun _ => s.place?) s.path .header

def assemble? (lines : List Line) : Option Entries := do
  let (pairs, sections) ← group lines
  sections.foldlM addSection? (← addPairs? [] pairs)

/-- The entries of a document, if the text is one.  A byte order mark may stand in front. -/
def parse? (text : String) : Option Entries := do
  match text.toList with
  | '\uFEFF' :: input => assemble? (← lines? input)
  | input => assemble? (← lines? input)

end ResponseFraming.Toml
