import SourceCorpus.Model.Import
import SourceCorpus.Syntax.Tree
import SourceCorpus.Text.Docstring

/-!
What a syntax tree says, as a list of facts in the order in which the source states them. The facts
of a body belong to the innermost definition around it; a nested definition is one fact that holds
the facts of its own body. Decorators, defaults of parameters and bases are evaluated where the
definition stands, so their facts come before it and belong to the enclosing body.
-/

namespace SourceCorpus.Extraction

open Syntax

/-- What is known of a definition before its body is read. -/
structure Header where
  name : String
  kind : ObjectKind
  docstring : Option String
  span : Span
  decorators : List String
  parameters : List Parameter
  returnType : Option String
  isAsync : Bool
  bases : List String
  keywords : List String
  deriving DecidableEq, Repr

inductive Fact where
  | called (site : CallSite)
  | named (ref : NameRef)
  | assigned (binding : Variable)
  | returned (value : String)
  /-- The name is assigned on the instance of the method at hand. -/
  | instanceAttribute (name : String)
  /-- An import; its scope is not known yet. -/
  | imported (statement : ObjectId → Import)
  | defined (header : Header) (body : List Fact)

/-- Where a fact is found. -/
structure Place where
  /-- The kind of the definition around it. -/
  owner : ObjectKind
  /-- Inside a definition or a compound statement. -/
  conditional : Bool
  /-- The name of the instance, in a method. -/
  selfName : Option String
  deriving DecidableEq, Repr

def Place.top : Place := ⟨.module, false, none⟩

def Place.branch (p : Place) : Place := { p with conditional := true }

/-- How an assignment binds its targets. -/
structure Binding where
  value : Option String
  typeHint : Option String
  chained : Bool
  line : Nat
  deriving DecidableEq, Repr

/-! ### Reading single nodes -/

section

variable (source : List Char)

def spanOf (t : Tree) : Span :=
  ⟨t.start.row + 1, t.extent.stop.row + 1, t.start.byte, t.extent.stop.byte⟩

def compactText (t : Tree) : String := String.ofList (Text.compactChars (t.chars source))

def withoutComments (ts : List Tree) : List Tree := ts.filter fun t => !t.isKind .comment

/-- The number of arguments of a call. A bare comprehension is one argument. -/
def argumentCount (arguments : Tree) : Nat :=
  if arguments.isKind .generatorExpression then 1
  else (withoutComments arguments.children).length

def callSite? (call : Tree) : Option CallSite :=
  (call.child? .function).map fun function =>
    { callee := compactText source function
      argumentCount := ((call.child? .arguments).map argumentCount).getD 0
      line := call.line }

/-- The contents of a string, or of strings in a row. -/
def stringContents? (expression : Tree) : Option (List Char) :=
  if expression.isKind .string then some (Docstring.literalChars (expression.chars source))
  else if expression.isKind .concatenatedString then
    some ((expression.children.filter (·.isKind .string)).flatMap fun part =>
      Docstring.literalChars (part.chars source))
  else none

/-- The docstring of a body: the string, or the strings in a row, that its first statement begins
with. -/
def docstringOf? (body : List Tree) : Option String := do
  let first ← (withoutComments body).head?
  if !first.isKind .expressionStatement then none
  let raw ← first.children.head?.bind (stringContents? source)
  let cleaned := Docstring.cleanChars raw
  if cleaned.isEmpty then none else some (String.ofList cleaned)

/-! ### Imports -/

/-- The imported name, and the name that it is given. -/
def importedName? (t : Tree) : Option ImportedName :=
  if t.isKind .dottedName then some ⟨compactText source t, none⟩
  else if t.isKind .aliasedImport then
    (t.child? .name).map fun name =>
      ⟨compactText source name, (t.child? .asName).map (·.text source)⟩
  else none

def importedNames (statement : Tree) : List ImportedName :=
  (statement.children.filter (·.hasRole .name)).filterMap (importedName? source)

/-- The imports of a statement, up to their scope. A plain import makes one for every module. -/
def importsOf (statement : Tree) (conditional : Bool) : List (ObjectId → Import) :=
  if statement.isKind .importStatement then
    (importedNames source statement).map fun n scope =>
      { module := n.name, names := [], asName := n.asName, level := 0, line := statement.line
        conditional := conditional, scope := scope }
  else
    let module := if statement.isKind .futureImportStatement then "__future__"
      else ((statement.child? .moduleName).map (compactText source)).getD ""
    let wildcard := if statement.children.any (·.isKind .wildcardImport) then
      [(⟨"*", none⟩ : ImportedName)] else []
    [fun scope =>
      { module := module
        names := importedNames source statement ++ wildcard
        asName := none
        level := (module.toList.takeWhile (· = '.')).length
        line := statement.line, conditional := conditional, scope := scope }]

/-! ### Parameters -/

def splatName? (splat : Tree) : Option String := splat.children.head?.map (·.text source)

def parameter? (keywordOnly : Bool) (t : Tree) : Option Parameter :=
  let plain : ParameterKind := if keywordOnly then .keywordOnly else .positionalOrKeyword
  let textOf (role : Role) : Option String := (t.child? role).map (·.text source)
  let named (node : Tree) : Option (String × ParameterKind) :=
    match node.kind? with
    | some .listSplatPattern => (splatName? source node).map fun name => (name, .varPositional)
    | some .dictionarySplatPattern => (splatName? source node).map fun name => (name, .varKeyword)
    | _ => some (node.text source, plain)
  match t.kind? with
  | some .identifier | some .listSplatPattern | some .dictionarySplatPattern =>
    (named t).map fun (name, kind) => ⟨name, none, none, kind⟩
  | some .defaultParameter =>
    (textOf .name).map fun name => ⟨name, textOf .value, none, plain⟩
  | some .typedDefaultParameter =>
    (textOf .name).map fun name => ⟨name, textOf .value, textOf .type, plain⟩
  | some .typedParameter =>
    t.children.head?.bind fun inner =>
      (named inner).map fun (name, kind) => ⟨name, none, textOf .type, kind⟩
  | _ => none

/-- A separator `/` makes the parameters before it positional. -/
def makePositional (p : Parameter) : Parameter :=
  if p.kind = .positionalOrKeyword then { p with kind := .positionalOnly } else p

/-- The parameters read so far are in `done`, newest first. -/
def parametersFrom (keywordOnly : Bool) (done : List Parameter) : List Tree → List Parameter
  | [] => done.reverse
  | t :: ts =>
    if t.isKind .comment then parametersFrom keywordOnly done ts
    else if t.isKind .positionalSeparator then
      parametersFrom keywordOnly (done.map makePositional) ts
    else if t.isKind .keywordSeparator then parametersFrom true done ts
    else match parameter? source keywordOnly t with
      | some p => parametersFrom (keywordOnly || p.kind = .varPositional) (p :: done) ts
      | none => parametersFrom keywordOnly done ts

def parametersOf (definition : Tree) : List Parameter :=
  match definition.child? .parameters with
  | some parameters => parametersFrom source false [] parameters.children
  | none => []

/-! ### Definitions -/

/-- The name of the instance in a method: its first parameter, if that is positional. -/
def selfNameOf? (owner : ObjectKind) (header : Header) : Option String :=
  if header.kind ≠ .class ∧ owner = .class ∧
      !header.decorators.any (fun d => d == "staticmethod" || d == "classmethod") then
    match header.parameters.head? with
    | some p =>
      if p.kind = .positionalOnly ∨ p.kind = .positionalOrKeyword then some p.name else none
    | none => none
  else none

def definitionKind (owner : ObjectKind) (definition : Tree) : ObjectKind :=
  if definition.isKind .classDefinition then .class
  else if owner = .class then .method else .function

/-- The arguments of a class statement: bases, or keywords if `keywords` is set. -/
def classArguments (keywords : Bool) (definition : Tree) : List String :=
  match definition.child? .superclasses with
  | some arguments =>
    ((withoutComments arguments.children).filter fun t =>
      t.isKind .keywordArgument == keywords).map (compactText source)
  | none => []

def headerOf? (owner : ObjectKind) (decorators : List String) (definition : Tree) :
    Option Header :=
  (definition.child? .name).map fun name =>
    { name := name.text source
      kind := definitionKind owner definition
      docstring := (definition.child? .body).bind fun body => docstringOf? source body.children
      span := spanOf definition
      decorators := decorators
      parameters := parametersOf source definition
      returnType := (definition.child? .returnType).map (·.text source)
      isAsync := definition.children.head?.any (·.isKind .asyncMarker)
      bases := classArguments source false definition
      keywords := classArguments source true definition }

/-- The text of the expression behind the `@`. -/
def decoratorText? (decorator : Tree) : Option String :=
  (withoutComments decorator.children).head?.map fun expression =>
    String.ofList (Text.trimChars (expression.chars source))

def decoratorsOf (decorated : Tree) : List String :=
  (decorated.children.filter (·.isKind .decorator)).filterMap (decoratorText? source)

/-! ### Assignments -/

mutual

def targetCount : Tree → Nat
  | .node _ _ _ children => targetCountOf children
  | _ => 0

def targetCountOf : List Tree → Nat
  | [] => 0
  | t :: ts =>
    (if t.hasRole .left then 1 else 0) +
      (if t.hasRole .right && t.isKind .assignment then targetCount t else 0) + targetCountOf ts

end

mutual

def innermostValue? : Tree → Option Tree
  | .node _ _ _ children => innermostValueOf? children
  | _ => none

def innermostValueOf? : List Tree → Option Tree
  | [] => none
  | t :: ts =>
    if t.hasRole .right then
      if t.isKind .assignment then innermostValue? t else some t
    else innermostValueOf? ts

end

def bindingOf (assignment : Tree) : Binding :=
  { value := (innermostValue? assignment).map (·.text source)
    typeHint := (assignment.child? .type).map (·.text source)
    chained := targetCount assignment > 1
    line := assignment.line }

def augmentedBindingOf (assignment : Tree) : Binding :=
  { value := (assignment.child? .right).map (·.text source)
    typeHint := none, chained := false, line := assignment.line }

def Binding.targetKind (b : Binding) : TargetKind :=
  if b.chained then .chained else if b.typeHint.isSome then .annotated else .simple

/-- The kind of a target inside a sequence of targets. -/
def Binding.elementKind (b : Binding) : TargetKind := if b.chained then .chained else .unpacked

def Binding.bound (b : Binding) (name : String) (target : TargetKind) : Variable :=
  ⟨name, b.value, b.typeHint, target, b.line⟩

/-- The name that a member access assigns on the instance. -/
def instanceName? (place : Place) (t : Tree) : Option String :=
  match t.child? .object, t.child? .member, place.selfName with
  | some object, some member, some selfName =>
    if object.isKind .identifier && object.text source == selfName then some (member.text source)
    else none
  | _, _, _ => none

end

/-- Statements whose body runs on some paths only. -/
def isCompound : Kind → Bool
  | .ifStatement | .forStatement | .whileStatement | .tryStatement | .withStatement
  | .matchStatement => true
  | _ => false

def read (name : String) : Fact := .named ⟨name, .read⟩

def write (name : String) : Fact := .named ⟨name, .write⟩

/-- Where the facts of a definition's body are found. -/
def Place.inside (p : Place) (header : Option Header) : Place :=
  match header with
  | some header => ⟨header.kind, true, selfNameOf? p.owner header⟩
  | none => p

/-- A definition, and before it what is evaluated where it stands. -/
def definitionFacts (header : Option Header) (before body : List Fact) : List Fact :=
  match header with
  | some header => before ++ [.defined header body]
  | none => []

/-! ### The walk -/

/-- In which capacity a node is read. -/
inductive Reading where
  /-- It is evaluated. -/
  | value
  /-- It is the target of a loop or an alias. -/
  | bound
  /-- It is the right side of an assignment, which may be an assignment itself. -/
  | rightSide
  /-- It is the rest of a chain of assignments, of which the targets are asked for. -/
  | chain (b : Binding) (target : TargetKind)
  /-- It is a target of an assignment. -/
  | assigned (b : Binding) (target : TargetKind)
  | decorator
  | definition (decorators : List String)
  /-- It is the parameters of a definition, of which the defaults are asked for. -/
  | defaults
  /-- It is the block of a definition. -/
  | body

/-- A node that does not play its part in a special way is evaluated. -/
def Reading.at : Reading → Kind → Reading
  | .value, .functionDefinition | .value, .classDefinition => .definition []
  | .bound, kind =>
    match kind with
    | .identifier | .asPatternTarget | .patternList | .tuplePattern | .listPattern
    | .listSplatPattern | .tuple | .list | .parenthesizedExpression => .bound
    | .functionDefinition | .classDefinition => .definition []
    | _ => .value
  | .rightSide, kind => if kind = .assignment then .rightSide else .value
  | .assigned b target, kind =>
    match kind with
    | .identifier | .patternList | .tuplePattern | .listPattern | .listSplatPattern | .tuple
    | .list | .listSplat | .parenthesizedExpression | .memberAccess => .assigned b target
    | _ => .value
  | reading, _ => reading

mutual

/-- The facts of the tree, found at the place. -/
def factsOf (source : List Char) (reading : Reading) (place : Place) : Tree → List Fact
  | .node kind role extent children =>
    let t : Tree := .node kind role extent children
    match reading.at kind with
    | .bound =>
      if kind = .identifier || (kind = .asPatternTarget && children.isEmpty) then
        [write (t.text source)]
      else factsOfAll source .bound place children
    | .rightSide => factsInRole source .rightSide place .right children
    | .chain b target =>
      if kind = .assignment then targetFacts source b target place children else []
    | .assigned b target =>
      match kind with
      | .identifier => [write (t.text source), .assigned (b.bound (t.text source) target)]
      | .listSplatPattern | .listSplat => factsOfAll source (.assigned b .starred) place children
      | .memberAccess =>
        ((instanceName? source place t).map .instanceAttribute).toList ++
          factsInRole source .value place .object children
      | _ => factsOfAll source (.assigned b b.elementKind) place children
    | .decorator => if kind = .decorator then firstFacts source place children else []
    | .definition decorators =>
      let header := headerOf? source place.owner decorators t
      definitionFacts header
        (factsOfAll source .defaults place children ++
          factsInRole source .value place .superclasses children)
        (factsInRole source .body (place.inside header) .body children)
    | .defaults =>
      match kind with
      | .parameters => factsOfAll source .defaults place children
      | .defaultParameter | .typedDefaultParameter =>
        factsInRole source .value place .value children
      | _ => []
    | .body => factsOfAll source .value place children
    | .value =>
      match kind with
      | .comment | .globalStatement | .nonlocalStatement => []
      | .decoratedDefinition =>
        factsOfAll source .decorator place children ++
          factsInRole source (.definition (decoratorsOf source t)) place .definition children
      | .importStatement | .importFromStatement | .futureImportStatement =>
        (importsOf source t place.conditional).map .imported
      | .call =>
        ((callSite? source t).map .called).toList ++ factsOfAll source .value place children
      | .identifier => [read (t.text source)]
      | .memberAccess => factsInRole source .value place .object children
      | .keywordArgument => factsInRole source .value place .value children
      | .lambda => factsInRole source .value place .body children
      | .namedExpression =>
        ((t.child? .name).map fun name => write (name.text source)).toList ++
          factsInRole source .value place .value children
      | .asPattern => aliasFacts source place children
      | .assignment =>
        let b := bindingOf source t
        factsInRole source .rightSide place .right children ++
          targetFacts source b b.targetKind place children
      | .augmentedAssignment =>
        let b := augmentedBindingOf source t
        factsInRole source .value place .right children ++
          ((children.filter fun c => c.hasRole .left && c.isKind .identifier).map fun c =>
            read (c.text source)) ++
          factsInRole source (.assigned b .augmented) place .left children
      | .returnStatement =>
        ((withoutComments children).head?.map fun value =>
          .returned (value.text source)).toList ++
          factsOfAll source .value place children
      | .forStatement | .forInClause =>
        let inner := if kind = .forStatement then place.branch else place
        factsInRole source .bound inner .left children ++
          factsInRole source .value inner .right children ++
          factsInRole source .value inner .body children ++
          factsInRole source .value inner .alternative children
      | .ifStatement | .whileStatement | .tryStatement | .withStatement | .matchStatement =>
        factsOfAll source .value place.branch children
      | _ => factsOfAll source .value place children
  | _ => []

def factsOfAll (source : List Char) (reading : Reading) (place : Place) :
    List Tree → List Fact
  | [] => []
  | t :: ts => factsOf source reading place t ++ factsOfAll source reading place ts

def factsInRole (source : List Char) (reading : Reading) (place : Place) (role : Role) :
    List Tree → List Fact
  | [] => []
  | t :: ts =>
    (if t.hasRole role then factsOf source reading place t else []) ++
      factsInRole source reading place role ts

/-- The targets of a chain of assignments, from left to right. -/
def targetFacts (source : List Char) (b : Binding) (target : TargetKind) (place : Place) :
    List Tree → List Fact
  | [] => []
  | t :: ts =>
    (if t.hasRole .left then factsOf source (.assigned b target) place t
      else if t.hasRole .right then factsOf source (.chain b target) place t
      else []) ++
      targetFacts source b target place ts

/-- The parts of an expression with an alias, which is bound. -/
def aliasFacts (source : List Char) (place : Place) : List Tree → List Fact
  | [] => []
  | t :: ts =>
    factsOf source (if t.isKind .asPatternTarget then .bound else .value) place t ++
      aliasFacts source place ts

/-- The facts of the first child that is not a comment. -/
def firstFacts (source : List Char) (place : Place) : List Tree → List Fact
  | [] => []
  | t :: ts =>
    if t.isKind .comment then firstFacts source place ts else factsOf source .value place t

end

end SourceCorpus.Extraction
