import SourceCorpus.Proofs.Extraction.Reads

/-!
Default values of the parameters of lambdas. Main statement: the object that executes a lambda
records what its default values call and read, exactly if they call nothing and read only names that
the object reads elsewhere.
-/

namespace SourceCorpus.Extraction

open Syntax Tree

/-- The steps by which something is evaluated on behalf of the definition that the way begins in, the
default values of lambdas included. -/
def isExecuted : Pass := fun parent part => isOwned parent part || part.isKind .lambdaParameters

mutual

def nodesVia (pass : Pass) : Tree → List Tree
  | .node kind role extent children =>
    .node kind role extent children :: nodesOf pass (.node kind role extent children) children
  | t => [t]

def nodesOf (pass : Pass) (parent : Tree) : List Tree → List Tree
  | [] => []
  | c :: cs => (if pass parent c then nodesVia pass c else []) ++ nodesOf pass parent cs

end

/-- The lambdas that the owner executes, except those in the default values of others. -/
def ownLambdas (owner : Tree) : List Tree :=
  ((regionOf owner).flatMap (nodesVia isOwned)).filter (·.isKind .lambda)

def defaultValues (lambda : Tree) : List Tree :=
  match lambda.child? .parameters with
  | some parameters => (parameters.children.filter (·.hasDefault)).filterMap (·.child? .value)
  | none => []

def ownDefaults (owner : Tree) : List Tree := (ownLambdas owner).flatMap defaultValues

/-- The calls in default values, at any depth and also in further lambdas. -/
def defaultCalls (owner : Tree) : List Tree := (ownDefaults owner).flatMap (callsVia isExecuted)

def defaultReads (owner : Tree) : List Tree :=
  (ownDefaults owner).flatMap (readsVia isExecuted .value)

/-- The object is that of the owner, and records each call and each name read in the default values
of lambdas, beside the calls that are recorded of the owner anyway. -/
structure RecordsDefaults (source : List Char) (owner : Tree) (o : CodeObject) : Prop where
  object : IsObjectOf source owner o
  calls : AreSitesOf source o.calls (ownCalls isRecorded owner ++ defaultCalls owner)
  reads : ∀ t ∈ defaultReads owner, ⟨t.text source, .read⟩ ∈ o.references

structure HasPlainDefaults (source : List Char) (owner : Tree) : Prop where
  calls : defaultCalls owner = []
  reads : ∀ t ∈ defaultReads owner, ∃ t' ∈ ownReads isRecorded owner,
    t'.text source = t.text source

instance (source : List Char) (owner : Tree) : Decidable (HasPlainDefaults source owner) :=
  decidable_of_iff (defaultCalls owner = [] ∧ ∀ t ∈ defaultReads owner,
      ∃ t' ∈ ownReads isRecorded owner, t'.text source = t.text source)
    ⟨fun h => ⟨h.1, h.2⟩, fun h => ⟨h.calls, h.reads⟩⟩

variable {source : List Char} {owner : Tree} {o : CodeObject}

/-- The sites of some calls are not the sites of more calls. -/
theorem areSitesOf_append_iff {sites : List CallSite} {calls calls' : List Tree}
    (h : AreSitesOf source sites calls) : AreSitesOf source sites (calls ++ calls') ↔ calls' = [] := by
  constructor
  · intro hmore
    have hlength := h.length_eq.symm.trans hmore.length_eq
    rw [List.length_map, List.length_map, List.length_append] at hlength
    exact List.eq_nil_of_length_eq_zero (by omega)
  · rintro rfl
    rwa [List.append_nil]

theorem recordsDefaults_iff_hasPlainDefaults (hobject : IsObjectOf source owner o)
    (hcalls : AreSitesOf source o.calls (ownCalls isRecorded owner))
    (hreads : ReadsItsOwn source owner o) :
    RecordsDefaults source owner o ↔ HasPlainDefaults source owner := by
  have hread (t : Tree) : (⟨t.text source, .read⟩ : NameRef) ∈ o.references ↔
      ∃ t' ∈ ownReads isRecorded owner, t'.text source = t.text source := hreads (t.text source)
  constructor
  · intro h
    exact ⟨(areSitesOf_append_iff hcalls).1 h.calls, fun t ht => (hread t).1 (h.reads t ht)⟩
  · intro h
    exact ⟨hobject, (areSitesOf_append_iff hcalls).2 h.calls, fun t ht => (hread t).2 (h.reads t ht)⟩

/-- What the default values of lambdas call and read is recorded in the objects that execute the
lambdas, exactly if they call nothing and read only what these objects read elsewhere. -/
theorem recordsDefaults_iff {file source : String} {m : CodeModel}
    (h : extract file source = .ok m) :
    List.Forall₂ (RecordsDefaults source.toList) (owners (parse source.toList)) m.objects.toList ↔
      ∀ owner ∈ owners (parse source.toList), HasPlainDefaults source.toList owner := by
  let tree := parse source.toList
  obtain ⟨hproblem, hm⟩ := extract_eq_ok_iff.1 h
  obtain ⟨hstatement, hmodule⟩ := isStatement_parse hproblem
  subst hm
  have hcalls : RecordsCalls isRecorded source.toList tree
      (modelOf file source.toList tree).objects.toList :=
    recordsCalls_modelOf file hstatement hmodule
  have hrecorded : List.Forall₂ _ (owners tree) (modelOf file source.toList tree).objects.toList :=
    .mp (fun _ _ ho hreads => And.intro ho hreads) hcalls
      (readsItsOwn_modelOf file hstatement hmodule)
  exact forall₂_congr_left hrecorded fun owner _ o ho =>
    recordsDefaults_iff_hasPlainDefaults ho.1.1 ho.1.2 ho.2

/-- A default value that reads what the function reads anyway is accounted for. -/
theorem recordsDefaults_of_shared_name :
    let source := "def f(y, z=g()):\n    return lambda a=1, b=y: a + y\n"
    ∃ m, extract "t.py" source = .ok m ∧
      List.Forall₂ (RecordsDefaults source.toList) (owners (parse source.toList))
        m.objects.toList ∧
      (owners (parse source.toList)).map (fun owner => (defaultReads owner).length) = [0, 1] := by
  intro source
  have hextract : extract "t.py" source =
      .ok (modelOf "t.py" source.toList (parse source.toList)) :=
    extract_eq_ok_iff.2 ⟨by decide +kernel, rfl⟩
  exact ⟨_, hextract, (recordsDefaults_iff hextract).2 (by decide +kernel), by decide +kernel⟩

/-- The default value of a lambda is lost, while that of a function is recorded. -/
theorem not_recordsDefaults_of_call :
    let source := "x = lambda a=f(b): a\n"
    let sibling := "def x(a=f(b)): a\n"
    ∃ m m', extract "t.py" source = .ok m ∧ extract "t.py" sibling = .ok m' ∧
      ¬List.Forall₂ (RecordsDefaults source.toList) (owners (parse source.toList))
        m.objects.toList ∧
      m.objects.toList.map (fun o => (o.calls.map (·.callee), o.references.map (·.name))) =
        [([], ["a", "x"])] ∧
      m'.objects.toList.map (fun o => (o.calls.map (·.callee), o.references.map (·.name))) =
        [(["f"], ["f", "b"]), ([], ["a"])] := by
  intro source sibling
  have hextract {source : String} (hproblem : (parse source.toList).hasProblem = false) :
      extract "t.py" source = .ok (modelOf "t.py" source.toList (parse source.toList)) :=
    extract_eq_ok_iff.2 ⟨hproblem, rfl⟩
  have hsource : extract "t.py" source = .ok _ := hextract (by decide +kernel)
  refine ⟨_, _, hsource, hextract (by decide +kernel), fun h => ?_, by decide +kernel,
    by decide +kernel⟩
  -- One call is evaluated in the module, and none is recorded.
  have hcounts : List.Forall₂ (· = ·)
      ((owners (parse source.toList)).map fun owner =>
        (ownCalls isRecorded owner ++ defaultCalls owner).length)
      ((modelOf "t.py" source.toList (parse source.toList)).objects.toList.map
        (·.calls.length)) := by
    rw [List.forall₂_map_left_iff, List.forall₂_map_right_iff]
    exact h.imp fun owner o ho => by simpa using ho.calls.length_eq.symm
  rw [List.forall₂_eq_eq_eq] at hcounts
  exact absurd hcounts (by decide +kernel)

end SourceCorpus.Extraction
