import SourceCorpus.Config.Model
import SourceCorpus.Generation.Prompt
import SourceCorpus.Generation.Response

/-!
Asking a generator for purposes. Calls reach the generator one at a time, and none takes longer than
the settings allow; a request that fails is counted and not tried again.
-/

namespace SourceCorpus

/-- What a generator gets for one call. -/
structure GenerationContext where
  prompt : String
  question : String
  /-- The source of the object that the question is about. -/
  source : String
  detailed : Bool
  /-- Whether the generator is to forget what was said before. -/
  reset : Bool
  timeoutMilliseconds : Nat
  deriving DecidableEq, Repr

inductive Reply where
  | text (text : String)
  | failure (failure : GenerationFailure)
  /-- The generator ends and leaves nothing. -/
  | nothing
  deriving DecidableEq, Repr

/-- What comes of a call, and after how long. -/
structure Generation where
  reply : Reply
  milliseconds : Nat
  deriving DecidableEq, Repr

/-- A generator. What it makes of a context may depend on the number of calls before. -/
abbrev Generator := Nat → GenerationContext → Generation

/-- The calls that were made, and how many requests failed. -/
structure Tally where
  calls : List GenerationContext
  failures : Nat
  deriving DecidableEq, Repr

def Tally.zero : Tally := ⟨[], 0⟩

def Tally.addCall (t : Tally) (context : GenerationContext) : Tally :=
  { t with calls := t.calls ++ [context] }

def Tally.addFailure (t : Tally) : Tally := { t with failures := t.failures + 1 }

/-- A question about one object. -/
structure PurposeRequest where
  query : String
  material : PromptMaterial
  detailed : Bool
  deriving DecidableEq, Repr

structure Augmenter where
  settings : GenerationSettings
  generator : Generator

namespace Augmenter

def contextOf (a : Augmenter) (r : PurposeRequest) (prompt : String) : GenerationContext :=
  { prompt := prompt
    question := r.query
    source := r.material.objectSource
    detailed := r.detailed
    reset := a.settings.reset
    timeoutMilliseconds := a.settings.timeoutMilliseconds }

def receive (timeout : Nat) (g : Generation) : Except GenerationFailure String :=
  if timeout < g.milliseconds then .error (.timeout timeout)
  else match g.reply with
    | .text text => .ok text
    | .failure failure => .error failure
    | .nothing => .error (.provider "generator exited without a result")

/-- Answers a request. A prompt that is too long makes no call. -/
def request (a : Augmenter) (r : PurposeRequest) (t : Tally) :
    Except GenerationFailure String × Tally :=
  match buildPrompt a.settings.promptTemplate r.query r.material a.settings.contextLength with
  | .error failure => (.error failure, t)
  | .ok prompt =>
    let context := a.contextOf r prompt
    let generation := a.generator t.calls.length context
    ((receive context.timeoutMilliseconds generation).bind Response.clean, t.addCall context)

/-- Answers a request, and counts it if it fails. -/
def explain (a : Augmenter) (r : PurposeRequest) (t : Tally) :
    Except GenerationFailure String × Tally :=
  match a.request r t with
  | (.ok text, t) => (.ok text, t)
  | (.error failure, t) => (.error failure, t.addFailure)

end Augmenter

end SourceCorpus
