import SourceCorpus.Discovery.Sources
import SourceCorpus.Generation.Command
import SourceCorpus.Pipeline.Files
import SourceCorpus.Store.Directory

/-!
A whole run, as a configuration describes it: the sources, the bank and the generator are read from
a disk, and the datasets are written to it. Only a wrong configuration or a corpus that cannot be
written makes it fail.
-/

namespace SourceCorpus

namespace RunConfig

def bank (c : RunConfig) (d : Disk) : Except RunFault QuestionBank :=
  match c.questionsPath with
  | none => .ok .default
  | some path => match d.readText (Place.ofPath path) with
    | .error fault => .error (.config (.unreadableBank path fault))
    | .ok text => QuestionBank.ofJson text

def modelConfig (d : Disk) (path : String) : Except RunFault ModelConfig :=
  match d.readText (Place.ofPath path) with
  | .error fault => .error (.config (.unreadableModelConfig path fault))
  | .ok text => ModelConfig.ofText text

/-- The generator that a model configuration describes. -/
def augmenterAt (system : System) (d : Disk) (path : String) : Except RunFault Augmenter := do
  let config ← modelConfig d path
  match config.command? with
  | none => .error (.config (.noCommand path))
  | some command => .ok ⟨config.settings, command.toGenerator system⟩

def augmenter? (c : RunConfig) (system : System) (d : Disk) :
    Except RunFault (Option Augmenter) :=
  if c.useGenerator then
    match c.modelConfigPath with
    | none => .error (.config .noModelConfig)
    | some path => (augmenterAt system d path).map some
  else .ok none

def pipeline (c : RunConfig) (system : System) (d : Disk) : Except RunFault Pipeline := do
  let bank ← c.bank d
  let augmenter? ← c.augmenter? system d
  return ⟨⟨bank, augmenter?, c.detailed⟩, c.validity, c.reuse⟩

/-- Runs the configuration. -/
def run (c : RunConfig) (system : System) (d : Disk) : Except RunFault Report × Disk :=
  match c.pipeline system d with
  | .error fault => (.error fault, d)
  | .ok pipeline =>
    let store : DirectoryStore := ⟨Place.ofPath c.outputDirectory, d⟩
    let (report, store, _) := pipeline.run (store, .zero) (Discovery.load d c.start)
    (report, store.disk)

end RunConfig

end SourceCorpus
