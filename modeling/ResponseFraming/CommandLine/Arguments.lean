/-!
# Arguments of the command line

`invocation?` reads the arguments from left to right and gives nothing when they cannot be used.
An option's value may be attached to it, after an equals sign or, for a one-letter option, without
one.  A value that stands by itself does not begin with a dash, unless it is the dash alone.
-/

namespace ResponseFraming.CommandLine

structure ReplayOptions where
  fixture : String
  config : Option String
  strict : Bool
  rejectLateHead : Bool
  format : String
deriving DecidableEq, Repr

inductive Invocation
  | replay (options : ReplayOptions)
  /-- Print the default configuration. -/
  | config
  /-- Print the version under a program's name. -/
  | version (program : String)
  | help
deriving DecidableEq, Repr

inductive OptionName
  | fixture
  | config
  | format
  | strict
  | rejectLateHead
  | version
  | help
deriving DecidableEq, Repr

def longName? : String → Option OptionName
  | "fixture" => some .fixture
  | "config" => some .config
  | "format" => some .format
  | "strict" => some .strict
  | "reject-late-head" => some .rejectLateHead
  | "version" => some .version
  | "help" => some .help
  | _ => none

def shortName? : Char → Option OptionName
  | 'f' => some .fixture
  | 'c' => some .config
  | 'V' => some .version
  | 'h' => some .help
  | _ => none

def OptionName.takesValue : OptionName → Bool
  | fixture | config | format => true
  | _ => false

/-- An option in an argument, with the value attached to it. -/
structure Occurrence where
  name : OptionName
  attached : Option String
deriving DecidableEq, Repr

/-- The option that an argument gives, if it is one.  Letters after a one-letter option without a
value are other options, which the versions and help asked for here make irrelevant. -/
def occurrence? (argument : String) : Option Occurrence :=
  match argument.toList with
  | '-' :: '-' :: text =>
    let name := text.takeWhile (· != '=')
    let value := text.dropWhile (· != '=')
    (longName? (String.ofList name)).map
      (⟨·, if value = [] then none else some (String.ofList value.tail)⟩)
  | '-' :: letter :: text =>
    (shortName? letter).map fun name =>
      if text = [] ∨ !name.takesValue then ⟨name, none⟩
      else ⟨name, some (String.ofList (if text.head? = some '=' then text.tail else text))⟩
  | _ => none

def isValue (argument : String) : Bool := !argument.startsWith "-" || argument = "-"

/-- The options of a replay as far as they have been read. -/
structure Given where
  fixture : Option String := none
  config : Option String := none
  strict : Bool := false
  rejectLateHead : Bool := false
  format : Option String := none
deriving DecidableEq, Repr

namespace Given

/-- Adds an option with its value.  No option may come twice, and a path is not empty. -/
def put? (g : Given) (name : OptionName) (value : String) : Option Given :=
  match name with
  | .fixture =>
    if g.fixture.isSome ∨ value = "" then none else some { g with fixture := some value }
  | .config => if g.config.isSome ∨ value = "" then none else some { g with config := some value }
  | .format => if g.format.isSome then none else some { g with format := some value }
  | _ => none

def set? (g : Given) : OptionName → Option Given
  | .strict => if g.strict then none else some { g with strict := true }
  | .rejectLateHead => if g.rejectLateHead then none else some { g with rejectLateHead := true }
  | _ => none

def options? (g : Given) : Option ReplayOptions :=
  g.fixture.map fun fixture =>
    ⟨fixture, g.config, g.strict, g.rejectLateHead, g.format.getD "text"⟩

end Given

/-- The arguments of a replay.  Nothing may follow two dashes. -/
def replay? (g : Given) : List String → Option Invocation
  | [] | ["--"] => g.options?.map .replay
  | argument :: rest =>
    match occurrence? argument with
    | none => none
    | some ⟨.version, none⟩ => some (.version "attestline-replay")
    | some ⟨.help, none⟩ => some .help
    | some ⟨name, some value⟩ => (g.put? name value).bind (replay? · rest)
    | some ⟨name, none⟩ =>
      if name.takesValue then
        match rest with
        | value :: rest => if isValue value then (g.put? name value).bind (replay? · rest) else none
        | [] => none
      else (g.set? name).bind (replay? · rest)

/-- Arguments of which only the version and help options are known. -/
def plain? (program : String) (none? : Option Invocation) : List String → Option Invocation
  | [] | ["--"] => none?
  | argument :: _ =>
    match occurrence? argument with
    | some ⟨.version, none⟩ => some (.version program)
    | some ⟨.help, none⟩ => some .help
    | _ => none

/-- Help is for the program or for one of its commands. -/
def help? : List String → Option Invocation
  | [] | ["replay"] | ["config"] | ["help"] => some .help
  | _ => none

def invocation? : List String → Option Invocation
  | "replay" :: rest => replay? {} rest
  | "config" :: rest => plain? "attestline-config" (some .config) rest
  | "help" :: rest => help? rest
  | arguments => plain? "attestline" none arguments

end ResponseFraming.CommandLine
