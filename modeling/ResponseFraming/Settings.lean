import ResponseFraming.Failure
import ResponseFraming.Policy

/-!
# Settings

Policies as TOML, and the configuration file of the command line, whose table `demux` is a policy.
Options of the command line can make a policy stricter but not more lenient.
-/

namespace ResponseFraming

namespace Policy

def decodeTruncation : Toml.Decoder Truncation :=
  Toml.Decode.word (Truncation.lenient.name, .lenient) (Truncation.strict.name, .strict)

def decodeLateHead : Toml.Decoder LateHead :=
  Toml.Decode.word (LateHead.ignore.name, .ignore) (LateHead.reject.name, .reject)

def put (key : String) (p : Policy) (v : Toml.Value) : Except Toml.Misfit Policy :=
  if key = "truncation" then do return { p with truncation := ← decodeTruncation v }
  else if key = "late_head" then do return { p with lateHead := ← decodeLateHead v }
  else .ok p

def ofEntries (entries : Toml.Entries) : Except Toml.Misfit Policy :=
  Toml.Decode.entries put .default entries

/-- A policy is a table, or an array that gives both choices in order, where the last may be
missing.  A date counts as a table without a known key. -/
def decode : Toml.Decoder Policy
  | .table _ entries => ofEntries entries
  | .datetime => .ok .default
  | .array elements | .tables elements =>
    ofEntries (["truncation", "late_head"].zip elements)
  | v => Toml.Decode.wrongType .policy v

def ofToml (text : String) (parse : Toml.Parser := Toml.parse?) : Except Failure Policy :=
  decodeToml parse ofEntries text

def ofFile (files : Files) (path : String) (parse : Toml.Parser := Toml.parse?) :
    Except Failure Policy := do
  ofToml (← readText files path) parse

end Policy

structure Settings where
  policy : Policy
deriving DecidableEq, Repr

namespace Settings

def default : Settings := ⟨.default⟩

def put (key : String) (s : Settings) (v : Toml.Value) : Except Toml.Misfit Settings :=
  if key = "demux" then do return { s with policy := ← Policy.decode v } else .ok s

def ofEntries (entries : Toml.Entries) : Except Toml.Misfit Settings :=
  Toml.Decode.entries put default entries

def ofToml (text : String) (parse : Toml.Parser := Toml.parse?) : Except Failure Settings :=
  decodeToml parse ofEntries text

def ofFile (files : Files) (path : String) (parse : Toml.Parser := Toml.parse?) :
    Except Failure Settings := do
  let text ← inContext (.reading "config" path) (readText files path)
  inContext (.parsing "config" path) (ofToml text parse)

/-- Settings from a file, or the default ones, made stricter as two options ask. -/
def resolve (files : Files) (path : Option String) (strict rejectLateHead : Bool)
    (parse : Toml.Parser := Toml.parse?) : Except Failure Settings := do
  let settings ← (path.map (ofFile files · parse)).getD (.ok default)
  let p := settings.policy
  let p := if strict then { p with truncation := .strict } else p
  let p := if rejectLateHead then { p with lateHead := .reject } else p
  return ⟨p⟩

def toToml (s : Settings) : String := "[demux]\n" ++ s.policy.toToml

end Settings

end ResponseFraming
