/-!
# Policies

What a demultiplexer does about the two faults of framing that it can also live with.  The words
of `name` stand in configuration files, those of `label` in the text report.
-/

namespace ResponseFraming

inductive Truncation
  | lenient
  | strict
deriving DecidableEq, Repr

namespace Truncation

def name : Truncation → String
  | lenient => "lenient"
  | strict => "strict"

def label : Truncation → String
  | lenient => "Lenient"
  | strict => "Strict"

end Truncation

inductive LateHead
  | ignore
  | reject
deriving DecidableEq, Repr

namespace LateHead

def name : LateHead → String
  | ignore => "ignore"
  | reject => "reject"

def label : LateHead → String
  | ignore => "Ignore"
  | reject => "Reject"

end LateHead

/-- Both choices; each defaults to the one that lets the stream go on. -/
structure Policy where
  truncation : Truncation := .lenient
  lateHead : LateHead := .ignore
deriving DecidableEq, Repr

namespace Policy

def default : Policy := {}

def strict : Policy := ⟨.strict, .reject⟩

def toToml (p : Policy) : String :=
  "truncation = \"" ++ p.truncation.name ++ "\"\nlate_head = \"" ++ p.lateHead.name ++ "\"\n"

end Policy

end ResponseFraming
