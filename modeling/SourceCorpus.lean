import SourceCorpus.Config.Limits
import SourceCorpus.Config.Model
import SourceCorpus.Config.Run
import SourceCorpus.Dataset.Assembler
import SourceCorpus.Dataset.Corpus
import SourceCorpus.Dataset.Record
import SourceCorpus.Digest.Sha256
import SourceCorpus.Discovery.Glob
import SourceCorpus.Discovery.Ignore
import SourceCorpus.Discovery.Sources
import SourceCorpus.Disk.Basic
import SourceCorpus.Disk.Change
import SourceCorpus.Extraction.Arena
import SourceCorpus.Extraction.Extract
import SourceCorpus.Extraction.Facts
import SourceCorpus.Failure
import SourceCorpus.Generation.Augmenter
import SourceCorpus.Generation.Command
import SourceCorpus.Generation.Prompt
import SourceCorpus.Generation.Response
import SourceCorpus.Generation.Script
import SourceCorpus.Generation.Switchboard
import SourceCorpus.Graph.Basic
import SourceCorpus.Graph.Build
import SourceCorpus.Graph.Rendering
import SourceCorpus.Graph.Resolution
import SourceCorpus.Json.Parser
import SourceCorpus.Json.Printer
import SourceCorpus.Json.Value
import SourceCorpus.Model.CodeModel
import SourceCorpus.Model.Import
import SourceCorpus.Model.Object
import SourceCorpus.Model.Table
import SourceCorpus.Naming.Module
import SourceCorpus.Pipeline.Files
import SourceCorpus.Pipeline.Inquiry
import SourceCorpus.Pipeline.Run
import SourceCorpus.Pipeline.Workers
import SourceCorpus.Programs.Basic
import SourceCorpus.Programs.Format
import SourceCorpus.Programs.Script
import SourceCorpus.Programs.Shell
import SourceCorpus.Programs.Utility
import SourceCorpus.Proofs.Config.Budget
import SourceCorpus.Proofs.Dataset.Merging
import SourceCorpus.Proofs.Discovery.Identifiers
import SourceCorpus.Proofs.Disk.Files
import SourceCorpus.Proofs.Disk.Replacement
import SourceCorpus.Proofs.Disk.Stops
import SourceCorpus.Proofs.Extraction.Accounts
import SourceCorpus.Proofs.Extraction.Assignments
import SourceCorpus.Proofs.Extraction.Calls
import SourceCorpus.Proofs.Extraction.Declarations
import SourceCorpus.Proofs.Extraction.Descendants
import SourceCorpus.Proofs.Extraction.Docstrings
import SourceCorpus.Proofs.Extraction.Hierarchy
import SourceCorpus.Proofs.Extraction.Imports
import SourceCorpus.Proofs.Extraction.InstanceAttributes
import SourceCorpus.Proofs.Extraction.LambdaDefaults
import SourceCorpus.Proofs.Extraction.NameCharacters
import SourceCorpus.Proofs.Extraction.Naming
import SourceCorpus.Proofs.Extraction.Nesting
import SourceCorpus.Proofs.Extraction.Numbering
import SourceCorpus.Proofs.Extraction.Objects
import SourceCorpus.Proofs.Extraction.Ownership
import SourceCorpus.Proofs.Extraction.Parameters
import SourceCorpus.Proofs.Extraction.QualifiedNames
import SourceCorpus.Proofs.Extraction.Reads
import SourceCorpus.Proofs.Extraction.RecordedNames
import SourceCorpus.Proofs.Extraction.Statements
import SourceCorpus.Proofs.Extraction.Targets
import SourceCorpus.Proofs.Extraction.Walk
import SourceCorpus.Proofs.Generation.ConcurrentRequests
import SourceCorpus.Proofs.Generation.Conversations
import SourceCorpus.Proofs.Generation.Filling
import SourceCorpus.Proofs.Generation.Lines
import SourceCorpus.Proofs.Generation.Prompts
import SourceCorpus.Proofs.Generation.Responses
import SourceCorpus.Proofs.Generation.Switchboard
import SourceCorpus.Proofs.Graph.Completeness
import SourceCorpus.Proofs.Graph.Edges
import SourceCorpus.Proofs.Graph.ForeignNames
import SourceCorpus.Proofs.Graph.ImportScopes
import SourceCorpus.Proofs.Graph.Index
import SourceCorpus.Proofs.Graph.Inheritance
import SourceCorpus.Proofs.Graph.Neighbours
import SourceCorpus.Proofs.Graph.Operations
import SourceCorpus.Proofs.Graph.PlainCalls
import SourceCorpus.Proofs.Graph.Relations
import SourceCorpus.Proofs.Graph.Rendering
import SourceCorpus.Proofs.Graph.Resolution
import SourceCorpus.Proofs.Graph.SelfInheritance
import SourceCorpus.Proofs.Json.Quoting
import SourceCorpus.Proofs.Json.RoundTrip
import SourceCorpus.Proofs.Naming.AbsoluteNames
import SourceCorpus.Proofs.Naming.RelativeImports
import SourceCorpus.Proofs.Order.FirstOccurrences
import SourceCorpus.Proofs.Pipeline.Attempts
import SourceCorpus.Proofs.Pipeline.Augmentation
import SourceCorpus.Proofs.Pipeline.CorpusRecords
import SourceCorpus.Proofs.Pipeline.EarlierAnswers
import SourceCorpus.Proofs.Pipeline.Incremental
import SourceCorpus.Proofs.Pipeline.NestedExplanations
import SourceCorpus.Proofs.Pipeline.Reuse
import SourceCorpus.Proofs.Pipeline.Schedules
import SourceCorpus.Proofs.Pipeline.Settlement
import SourceCorpus.Proofs.Pipeline.Stability
import SourceCorpus.Proofs.Pipeline.Tallies
import SourceCorpus.Proofs.Pipeline.Turns
import SourceCorpus.Proofs.Question.Cuts
import SourceCorpus.Proofs.Question.Instructions
import SourceCorpus.Proofs.Question.Substitution
import SourceCorpus.Proofs.Question.Templates
import SourceCorpus.Proofs.Question.Topics
import SourceCorpus.Proofs.Store.Agreement
import SourceCorpus.Proofs.Store.Answers
import SourceCorpus.Proofs.Store.Atomicity
import SourceCorpus.Proofs.Store.Exchange
import SourceCorpus.Proofs.Store.Interruption
import SourceCorpus.Proofs.Store.Places
import SourceCorpus.Proofs.Store.Writes
import SourceCorpus.Proofs.Syntax.CasePatterns
import SourceCorpus.Proofs.Syntax.CompoundStatements
import SourceCorpus.Proofs.Syntax.Expressions
import SourceCorpus.Proofs.Syntax.Grammar
import SourceCorpus.Proofs.Syntax.Problems
import SourceCorpus.Proofs.Syntax.Reading
import SourceCorpus.Proofs.Syntax.Shape
import SourceCorpus.Proofs.Syntax.SimpleStatements
import SourceCorpus.Proofs.Text.Gaps
import SourceCorpus.Proofs.Text.Margins
import SourceCorpus.Proofs.Text.Paths
import SourceCorpus.Proofs.Text.Pieces
import SourceCorpus.Proofs.Text.Trimming
import SourceCorpus.Question.Answer
import SourceCorpus.Question.Bank
import SourceCorpus.Question.Basic
import SourceCorpus.Question.Topic
import SourceCorpus.Store.Basic
import SourceCorpus.Store.Directory
import SourceCorpus.Store.Memory
import SourceCorpus.Syntax.Builder
import SourceCorpus.Syntax.CasePattern
import SourceCorpus.Syntax.Expression
import SourceCorpus.Syntax.Grammar
import SourceCorpus.Syntax.Kind
import SourceCorpus.Syntax.Layout
import SourceCorpus.Syntax.Position
import SourceCorpus.Syntax.Statement
import SourceCorpus.Syntax.StringBody
import SourceCorpus.Syntax.Target
import SourceCorpus.Syntax.Token
import SourceCorpus.Syntax.Tree
import SourceCorpus.Text.Blank
import SourceCorpus.Text.Bytes
import SourceCorpus.Text.Docstring
import SourceCorpus.Text.Identifier
import SourceCorpus.Text.Lines
import SourceCorpus.Text.Path
import SourceCorpus.Text.Replace
import SourceCorpus.Text.Sorted
import SourceCorpus.Text.Utf8
import SourceCorpus.Yaml.Field
import SourceCorpus.Yaml.Node
import SourceCorpus.Yaml.Scalar
import SourceCorpus.Yaml.Source
import SourceCorpus.Yaml.Token
