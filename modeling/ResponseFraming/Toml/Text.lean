import ResponseFraming.Toml.Reader

/-!
# TOML strings and keys

Strings in double quotes know escapes, those in single quotes do not.  Tripled quotes allow line
ends; there a line end right after the opening is dropped, a backslash at the end of a line drops
all blanks and line ends after it, and one or two quotes may stand before the closing three.
-/

namespace ResponseFraming.Toml

def hexValue? (c : Char) : Option Nat :=
  if c.isDigit then some (c.toNat - '0'.toNat)
  else if 'a' ≤ c ∧ c ≤ 'f' then some (c.toNat - 'a'.toNat + 10)
  else if 'A' ≤ c ∧ c ≤ 'F' then some (c.toNat - 'A'.toNat + 10)
  else none

/-- The character whose code point the digits write, which is no surrogate. -/
def codePoint? (digits : List Char) : Option Char := do
  let n ← digits.foldlM (fun n c => (n * 16 + ·) <$> hexValue? c) 0
  if n < 0xD800 ∨ (0xDFFF < n ∧ n < 0x110000) then some (Char.ofNat n) else none

def escape? : Char → Option Char
  | 'b' => some '\x08'
  | 't' => some '\t'
  | 'n' => some '\n'
  | 'f' => some '\x0C'
  | 'r' => some '\r'
  | '"' => some '"'
  | '\\' => some '\\'
  | _ => none

/-- A first character before the rest of a string. -/
def before (c : Char) (s : List Char × List Char) : List Char × List Char := (c :: s.1, s.2)

def basicString : List Char → Option (List Char × List Char)
  | [] => none
  | '"' :: rest => some ([], rest)
  | '\\' :: 'u' :: a :: b :: c :: d :: rest => do
    return before (← codePoint? [a, b, c, d]) (← basicString rest)
  | '\\' :: 'U' :: a :: b :: c :: d :: e :: f :: g :: h :: rest => do
    return before (← codePoint? [a, b, c, d, e, f, g, h]) (← basicString rest)
  | '\\' :: c :: rest => do return before (← escape? c) (← basicString rest)
  | c :: rest => if isText c && c != '\\' then before c <$> basicString rest else none

def literalString : List Char → Option (List Char × List Char)
  | [] => none
  | '\'' :: rest => some ([], rest)
  | c :: rest => if isText c then before c <$> literalString rest else none

/-- Whether the line ends here but for blanks. -/
def endsLine (input : List Char) : Bool := ((do blanks; newline : Reader Unit) input).isSome

/-- A string in tripled double quotes, after the opening.  While `joining`, blanks and line ends
are dropped. -/
def multilineString (joining : Bool) : List Char → Option (List Char × List Char)
  | [] => none
  | '"' :: '"' :: '"' :: '"' :: '"' :: rest => some (['"', '"'], rest)
  | '"' :: '"' :: '"' :: '"' :: rest => some (['"'], rest)
  | '"' :: '"' :: '"' :: rest => some ([], rest)
  | '\r' :: '\n' :: rest =>
    if joining then multilineString true rest else before '\n' <$> multilineString false rest
  | '\\' :: 'u' :: a :: b :: c :: d :: rest => do
    return before (← codePoint? [a, b, c, d]) (← multilineString false rest)
  | '\\' :: 'U' :: a :: b :: c :: d :: e :: f :: g :: h :: rest => do
    return before (← codePoint? [a, b, c, d, e, f, g, h]) (← multilineString false rest)
  | '\\' :: c :: rest =>
    if endsLine (c :: rest) then multilineString true rest
    else do return before (← escape? c) (← multilineString false rest)
  | c :: rest =>
    if joining && (isBlank c || c == '\n') then multilineString true rest
    else if (isText c && c != '\\') || c == '\n' then before c <$> multilineString false rest
    else none

def multilineLiteral : List Char → Option (List Char × List Char)
  | [] => none
  | '\'' :: '\'' :: '\'' :: '\'' :: '\'' :: rest => some (['\'', '\''], rest)
  | '\'' :: '\'' :: '\'' :: '\'' :: rest => some (['\''], rest)
  | '\'' :: '\'' :: '\'' :: rest => some ([], rest)
  | '\r' :: '\n' :: rest => before '\n' <$> multilineLiteral rest
  | c :: rest => if isText c || c == '\n' then before c <$> multilineLiteral rest else none

def quoted : Reader String := Reader.of fun
  | '"' :: rest => (basicString rest).map fun s => (String.ofList s.1, s.2)
  | '\'' :: rest => (literalString rest).map fun s => (String.ofList s.1, s.2)
  | _ => none

def string : Reader String := Reader.of fun
  | '"' :: '"' :: '"' :: rest => (start multilineStart rest).map fun s => (String.ofList s.1, s.2)
  | '\'' :: '\'' :: '\'' :: rest =>
    (start multilineLiteral rest).map fun s => (String.ofList s.1, s.2)
  | input => quoted input
where
  multilineStart := multilineString false
  /-- Drops a line end right after the opening. -/
  start (body : List Char → Option (List Char × List Char)) (input : List Char) :
      Option (List Char × List Char) :=
    match newline input with
    | some (_, rest) => body rest
    | none => body input

/-! ## Keys -/

def isKeyChar (c : Char) : Bool := c.isAlphanum || c == '_' || c == '-'

def bareKey : Reader String := do
  let first ← Reader.satisfy isKeyChar
  return String.ofList (first :: (← Reader.span isKeyChar))

def keyPart : Reader String := do
  blanks
  let part ← quoted <|> bareKey
  blanks
  return part

/-- A key with dots between its parts; there are fewer than 80 of them. -/
def dottedKey : Reader (List String) := do
  let parts ← Reader.separated (Reader.char '.') keyPart
  if parts.length < 80 then return parts else failure

end ResponseFraming.Toml
