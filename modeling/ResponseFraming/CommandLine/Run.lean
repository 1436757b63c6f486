import ResponseFraming.CommandLine.Arguments
import ResponseFraming.Replay
import ResponseFraming.Settings

/-!
# Running the command line

`run` says what the program prints and with which code it ends, given the files that it can read.
The configuration is looked at before the recording.  A report is printed also when the replay
ended with an error, and only then is the error a failure.  The syntax of the files and of the JSON
output are parameters.
-/

namespace ResponseFraming.CommandLine

structure Outcome where
  output : String
  exitCode : UInt8
  failure : Option Failure
deriving DecidableEq, Repr

namespace Outcome

def success (output : String) : Outcome := ⟨output, 0, none⟩

def failed (output : String) (f : Failure) : Outcome := ⟨output, 1, some f⟩

def usage : Outcome := ⟨"", 2, none⟩

end Outcome

structure Formats where
  parse : Toml.Parser
  pretty : Json → String

def Formats.standard : Formats := ⟨Toml.parse?, Json.pretty⟩

def render (formats : Formats) (format : String) (r : Report) : String :=
  if format = "json" then formats.pretty r.toJson ++ "\n" else r.text

def report (formats : Formats) (files : Files) (options : ReplayOptions) :
    Except Failure Report := do
  let settings ←
    Settings.resolve files options.config options.strict options.rejectLateHead formats.parse
  let recording ← Recording.ofFile files options.fixture formats.parse
  return replay (← recording.chunks) settings.policy

def runReplay (formats : Formats) (files : Files) (options : ReplayOptions) : Outcome :=
  match report formats files options with
  | .error f => .failed "" f
  | .ok r =>
    match r.error with
    | some message => .failed (render formats options.format r) (.of (.replay message))
    | none => .success (render formats options.format r)

def helpText : String :=
  "Usage: attestline replay --fixture PATH [--config PATH] [--strict] [--reject-late-head]\n" ++
    "                         [--format text|json]\n" ++
    "       attestline config\n"

def run (files : Files) (arguments : List String) (formats : Formats := .standard) : Outcome :=
  match invocation? arguments with
  | none => .usage
  | some (.replay options) => runReplay formats files options
  | some .config => .success Settings.default.toToml
  | some (.version program) => .success (program ++ " 0.1.0\n")
  | some .help => .success helpText

def paths (arguments : List String) : List String :=
  match invocation? arguments with
  | some (.replay options) => options.config.toList ++ [options.fixture]
  | _ => []

end ResponseFraming.CommandLine
