import SourceCorpus.Generation.Augmenter

/-! Generators that follow a script: the first rule that a question meets says what comes of it. -/

namespace SourceCorpus

inductive ScriptedReply where
  | text (text : String)
  /-- The context's own prompt, question or source. -/
  | prompt | question | source
  | failure (failure : GenerationFailure)
  | nothing
  /-- A text after a time. -/
  | late (milliseconds : Nat) (text : String)
  deriving DecidableEq, Repr

structure ScriptRule where
  /-- What a question has to contain for this rule. -/
  contains : String
  reply : ScriptedReply
  deriving DecidableEq, Repr

namespace ScriptedReply

def toGeneration (context : GenerationContext) : ScriptedReply → Generation
  | text s => ⟨.text s, 0⟩
  | prompt => ⟨.text context.prompt, 0⟩
  | question => ⟨.text context.question, 0⟩
  | source => ⟨.text context.source, 0⟩
  | failure f => ⟨.failure f, 0⟩
  | nothing => ⟨.nothing, 0⟩
  | late milliseconds s => ⟨.text s, milliseconds⟩

end ScriptedReply

def Generator.ofRules (rules : List ScriptRule) : Generator := fun _ context =>
  match rules.find? fun rule => Text.contains context.question rule.contains with
  | some rule => rule.reply.toGeneration context
  | none => ⟨.failure (.provider "no rule"), 0⟩

end SourceCorpus
