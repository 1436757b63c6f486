/-!
# Readers

A reader takes what it wants from the front of a text and leaves the rest, or fails.
-/

namespace ResponseFraming.Toml

abbrev Reader := StateT (List Char) Option

namespace Reader

variable {α : Type}

/-- A function on texts as a reader. -/
def of (f : List Char → Option (α × List Char)) : Reader α := f

def satisfy (p : Char → Bool) : Reader Char := of fun
  | c :: rest => if p c then some (c, rest) else none
  | [] => none

def char (c : Char) : Reader Unit := do
  let _ ← satisfy (· == c)

/-- The characters of a kind at the front, possibly none. -/
def span (p : Char → Bool) : Reader (List Char) := of fun input =>
  some (input.takeWhile p, input.dropWhile p)

/-- The next character stays where it is. -/
def peek : Reader Char := of fun
  | c :: rest => some (c, c :: rest)
  | [] => none

def optional (r : Reader α) : Reader (Option α) := (some <$> r) <|> pure none

/-- What a reader gives as often as it succeeds; reading nothing counts as a failure. -/
def many (r : Reader α) (input : List Char) : List α × List Char :=
  match r input with
  | none => ([], input)
  | some (a, rest) =>
    if rest.length < input.length then (a :: (many r rest).1, (many r rest).2) else ([], input)
termination_by input.length

def separated (separator : Reader Unit) (r : Reader α) : Reader (List α) := do
  let first ← r
  let others ← of fun input => some (many (do separator; r) input)
  return first :: others

end Reader

/-! ## Blanks -/

def isBlank (c : Char) : Bool := c == ' ' || c == '\t'

def blanks : Reader Unit := do
  let _ ← Reader.span isBlank

def newline : Reader Unit := Reader.of fun
  | '\n' :: rest => some ((), rest)
  | '\r' :: '\n' :: rest => some ((), rest)
  | _ => none

/-- Whether a comment may hold the character: tab, what ASCII prints, and all beyond ASCII. -/
def isText (c : Char) : Bool := c == '\t' || (' ' ≤ c && c ≤ '~') || '\x80' ≤ c

def comment : Reader Unit := do
  Reader.char '#'
  let _ ← Reader.span isText

/-- Blanks and a comment, up to the end of the line. -/
def lineRest : Reader Unit := do
  blanks
  let _ ← Reader.optional comment

/-- Blanks, comments and line ends, as they may stand between the elements of an array. -/
def gap : Reader Unit := do
  let _ ← Reader.of fun input => some (Reader.many (do lineRest; newline) input)
  blanks

end ResponseFraming.Toml
