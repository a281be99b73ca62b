import SourceCorpus.Config.Model
import SourceCorpus.Text.Utf8

/-!
Programs as they are seen from outside: they get arguments, variables and an input, and leave an
output, messages and a status.
-/

namespace SourceCorpus

abbrev Bytes := List UInt8

/-- How a program ended. -/
inductive ExitStatus where
  | code (code : Nat)
  | signal (number : Nat)
  deriving DecidableEq, Repr

namespace ExitStatus

def signalNames : List (Nat × String) :=
  [(1, "HUP"), (2, "INT"), (3, "QUIT"), (4, "ILL"), (5, "TRAP"), (6, "ABRT"), (7, "BUS"),
    (8, "FPE"), (9, "KILL"), (10, "USR1"), (11, "SEGV"), (12, "USR2"), (13, "PIPE"),
    (14, "ALRM"), (15, "TERM")]

def text : ExitStatus → String
  | code n => s!"exit status: {n}"
  | signal n =>
    let name := match signalNames.lookup n with
      | some name => " (SIG" ++ name ++ ")"
      | none => ""
    s!"signal: {n}" ++ name

end ExitStatus

/-- What a program did, and how long it took. -/
structure Execution where
  output : Bytes
  messages : Bytes
  status : ExitStatus
  milliseconds : Nat
  deriving DecidableEq, Repr

/-- Variables by name; the first of a name counts. -/
abbrev Environment := List (String × String)

/-- What runs programs; `none` if there is no such program. -/
abbrev System := CommandLine → Environment → Bytes → Option Execution

end SourceCorpus
