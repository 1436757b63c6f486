import ResponseFraming.Files
import ResponseFraming.Toml.Decode
import ResponseFraming.Toml.Document

/-!
# Failures

Why a configuration or a recording cannot be used: a cause, and around it the contexts in which
it arose, the outermost first.
-/

namespace ResponseFraming

inductive RecordFault
  | fieldsWithoutStatus
  | trailersWithoutCompletion
deriving DecidableEq, Repr

inductive Cause
  | read (fault : ReadFault)
  /-- The text is not a TOML document. -/
  | syntaxError
  | misfit (m : Toml.Misfit)
  | record (fault : RecordFault)
  /-- A replay ended with this error. -/
  | replay (message : String)
deriving DecidableEq, Repr

inductive Context
  | reading (what path : String)
  | parsing (what path : String)
  /-- The record at this position, counted from one. -/
  | record (position : Nat)
deriving DecidableEq, Repr

structure Failure where
  contexts : List Context
  cause : Cause
deriving DecidableEq, Repr

def RecordFault.message : RecordFault → String
  | fieldsWithoutStatus => "headers given without a status"
  | trailersWithoutCompletion => "trailers given on a chunk that is not complete"

def Cause.message : Cause → String
  | read fault => fault.message
  | syntaxError => "TOML parse error"
  | misfit m => m.message
  | record fault => fault.message
  | replay message => "replay failed: " ++ message

def Context.message : Context → String
  | reading what path => "reading " ++ what ++ " " ++ path
  | parsing what path => "parsing " ++ what ++ " " ++ path
  | record position => "chunk " ++ toString position

namespace Failure

def of (cause : Cause) : Failure := ⟨[], cause⟩

def within (context : Context) (f : Failure) : Failure :=
  { f with contexts := context :: f.contexts }

def chain (f : Failure) : List String := f.contexts.map Context.message ++ [f.cause.message]

def message (f : Failure) : String := ": ".intercalate f.chain

def headline (f : Failure) : String := f.chain.head?.getD ""

end Failure

/-! ## Reading -/

def inContext {α : Type} (context : Context) (result : Except Failure α) : Except Failure α :=
  result.mapError (·.within context)

def readText (files : Files) (path : String) : Except Failure String :=
  (files.text path).mapError fun fault => .of (.read fault)

def decodeToml {α : Type} (parse : Toml.Parser) (decode : Toml.Entries → Except Toml.Misfit α)
    (text : String) : Except Failure α :=
  match parse text with
  | some entries => (decode entries).mapError fun m => .of (.misfit m)
  | none => .error (.of .syntaxError)

end ResponseFraming
