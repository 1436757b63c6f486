/-!
# JSON

Values that a report needs, and their text over several lines: two blanks for each level, one
element or field on a line, and nothing between the brackets of an empty array or object.
-/

namespace ResponseFraming

inductive Json
  | null
  | boolean (b : Bool)
  | number (n : Nat)
  | string (s : String)
  | array (elements : List Json)
  | object (fields : List (String × Json))
deriving Repr

namespace Json

/-- Quotes, backslashes and the characters below the space are escaped. -/
def escape (c : Char) : List Char :=
  match c with
  | '"' => ['\\', '"']
  | '\\' => ['\\', '\\']
  | '\x08' => ['\\', 'b']
  | '\t' => ['\\', 't']
  | '\n' => ['\\', 'n']
  | '\x0C' => ['\\', 'f']
  | '\r' => ['\\', 'r']
  | c =>
    if c < ' ' then
      ['\\', 'u', '0', '0', Nat.digitChar (c.toNat / 16), Nat.digitChar (c.toNat % 16)]
    else [c]

def quote (s : String) : String := String.ofList ('"' :: s.toList.flatMap escape ++ ['"'])

def lineBreak (level : Nat) : String := "\n" ++ String.ofList (List.replicate (2 * level) ' ')

def block (opening closing : String) (level : Nat) (lines : List String) : String :=
  if lines = [] then opening ++ closing
  else
    opening ++ lineBreak (level + 1) ++ ("," ++ lineBreak (level + 1)).intercalate lines ++
      lineBreak level ++ closing

mutual

def layout (level : Nat) : Json → String
  | null => "null"
  | boolean b => if b then "true" else "false"
  | number n => toString n
  | string s => quote s
  | array elements => block "[" "]" level (layoutElements (level + 1) elements)
  | object fields => block "\x7b" "\x7d" level (layoutFields (level + 1) fields)

def layoutElements (level : Nat) : List Json → List String
  | [] => []
  | j :: rest => layout level j :: layoutElements level rest

def layoutFields (level : Nat) : List (String × Json) → List String
  | [] => []
  | (name, j) :: rest => (quote name ++ ": " ++ layout level j) :: layoutFields level rest

end

def pretty (j : Json) : String := j.layout 0

def nullable {α : Type} (f : α → Json) (a : Option α) : Json := (a.map f).getD null

end Json

end ResponseFraming
