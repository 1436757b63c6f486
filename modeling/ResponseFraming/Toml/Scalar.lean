import ResponseFraming.Toml.Value
import ResponseFraming.Toml.Text

/-!
# TOML values without quotes or brackets

Numbers, booleans, dates and times are runs of letters, digits and the marks that can stand in
them.  The longest such run is read first and then recognised as a whole, since nothing that may
follow a value can be part of a run.  Only a space between a date and a time needs a second run.
-/

namespace ResponseFraming.Toml

def isRunChar (c : Char) : Bool :=
  c.isAlphanum || c == '_' || c == '+' || c == '-' || c == '.' || c == ':'

/-- The digits of a run in which single underscores may stand between digits. -/
def ungroup (isDigit : Char → Bool) : List Char → Option (List Char)
  | [] => none
  | [c] => if isDigit c then some [c] else none
  | c :: '_' :: rest => if isDigit c then (c :: ·) <$> ungroup isDigit rest else none
  | c :: rest => if isDigit c then (c :: ·) <$> ungroup isDigit rest else none

def digitsValue (base : Nat) (digits : List Char) : Nat :=
  digits.foldl (fun n c => n * base + (hexValue? c).getD 0) 0

/-- Whether a sign stands in front, and what follows it. -/
def unsign : List Char → Bool × List Char
  | '+' :: rest => (false, rest)
  | '-' :: rest => (true, rest)
  | run => (false, run)

/-- The digits of a decimal integer without its sign; only zero begins with a zero. -/
def decimalDigits? (run : List Char) : Option (List Char) := do
  let digits ← ungroup Char.isDigit run
  if digits.head? = some '0' ∧ run.length ≠ 1 then none else some digits

/-! ## Integers -/

def withinInt64 (n : Int) : Option Int :=
  if Int64.minValue.toInt ≤ n ∧ n ≤ Int64.maxValue.toInt then some n else none

def basedInteger? (base : Nat) (run : List Char) : Option Int := do
  let digits ← ungroup (fun c => (hexValue? c).any (· < base)) run
  withinInt64 (digitsValue base digits)

def integer? : List Char → Option Int
  | '0' :: 'x' :: run => basedInteger? 16 run
  | '0' :: 'o' :: run => basedInteger? 8 run
  | '0' :: 'b' :: run => basedInteger? 2 run
  | run => do
    let (negative, run) := unsign run
    let n : Int := digitsValue 10 (← decimalDigits? run)
    withinInt64 (if negative then -n else n)

/-! ## Floating-point numbers -/

/-- The run before the first character of a kind, and what follows that character. -/
def cut (p : Char → Bool) (run : List Char) : List Char × Option (List Char) :=
  match run.dropWhile (!p ·) with
  | [] => (run, none)
  | _ :: rest => (run.takeWhile (!p ·), some rest)

def exponent? (run : List Char) : Option Int := do
  let (negative, run) := unsign run
  let n : Int := digitsValue 10 (← ungroup Char.isDigit run)
  return if negative then -n else n

/-- A decimal number with a fraction, an exponent or both.  One too large for a finite number is
refused, unless it is negative. -/
def decimal? (negative : Bool) (run : List Char) : Option Binary64 := do
  let (significand, exponent) := cut (fun c => c == 'e' || c == 'E') run
  let (whole, fraction) := cut (· == '.') significand
  if exponent = none ∧ fraction = none then none
  let whole ← decimalDigits? whole
  let fraction ← (fraction.map (ungroup Char.isDigit)).getD (some [])
  let exponent ← (exponent.map exponent?).getD (some 0)
  let x := Binary64.ofDecimal negative (digitsValue 10 (whole ++ fraction))
    (exponent - fraction.length)
  if x = .infinity false then none else some x

def float? (run : List Char) : Option Binary64 :=
  let (negative, run) := unsign run
  if run = ['i', 'n', 'f'] then some (.infinity negative)
  else if run = ['n', 'a', 'n'] then some .nan
  else decimal? negative run

/-! ## Dates and times -/

def number? (digits : List Char) : Option Nat :=
  if digits.all Char.isDigit then some (digitsValue 10 digits) else none

def daysInMonth (year month : Nat) : Nat :=
  if month = 2 then
    if year % 4 = 0 ∧ (year % 100 ≠ 0 ∨ year % 400 = 0) then 29 else 28
  else if month = 4 ∨ month = 6 ∨ month = 9 ∨ month = 11 then 30
  else 31

/-- What follows a date at the front. -/
def date? : List Char → Option (List Char)
  | a :: b :: c :: d :: '-' :: e :: f :: '-' :: g :: h :: rest => do
    let year ← number? [a, b, c, d]
    let month ← number? [e, f]
    let day ← number? [g, h]
    if 1 ≤ month ∧ month ≤ 12 ∧ 1 ≤ day ∧ day ≤ daysInMonth year month then some rest else none
  | _ => none

def clock? : List Char → Option (List Char)
  | a :: b :: ':' :: c :: d :: rest => do
    let hour ← number? [a, b]
    let minute ← number? [c, d]
    if hour ≤ 23 ∧ minute ≤ 59 then some rest else none
  | _ => none

/-- What follows a time at the front.  There may be a leap second and a fraction. -/
def time? (run : List Char) : Option (List Char) := do
  match ← clock? run with
  | ':' :: a :: b :: rest =>
    let second ← number? [a, b]
    if 60 < second then none
    match rest with
    | '.' :: c :: rest => if c.isDigit then some (rest.dropWhile Char.isDigit) else none
    | rest => some rest
  | _ => none

/-- Whether the rest of a run is nothing or a time zone. -/
def isZone : List Char → Bool
  | [] | ['Z'] | ['z'] => true
  | '+' :: run | '-' :: run => clock? run = some []
  | _ => false

/-- A date, a time, or a date, a mark or space, a time and perhaps a zone. -/
def isDatetime (run : List Char) : Bool :=
  match date? run with
  | some [] => true
  | some (mark :: rest) =>
    (mark == 'T' || mark == 't' || mark == ' ') && (time? rest).any isZone
  | none => time? run = some []

/-! ## Runs -/

def scalar? (run : List Char) : Option Value :=
  if run = ['t', 'r', 'u', 'e'] then some (.boolean true)
  else if run = ['f', 'a', 'l', 's', 'e'] then some (.boolean false)
  else if isDatetime run then some .datetime
  else (Value.integer <$> integer? run) <|> (Value.float <$> float? run)

/-- A run, and after a date also a space and the run after it, if that begins with a digit. -/
def run : Reader (List Char) := do
  let first ← Reader.span isRunChar
  if date? first = some [] then
    let time ← Reader.optional do
      Reader.char ' '
      let digit ← Reader.satisfy Char.isDigit
      return digit :: (← Reader.span isRunChar)
    return first ++ (time.map (' ' :: ·)).getD []
  else return first

def scalar : Reader Value := do
  match scalar? (← run) with
  | some value => return value
  | none => failure

end ResponseFraming.Toml
