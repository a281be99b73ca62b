/-!
The objects that a source text defines: the module itself, its classes, functions and methods, and
what is known of each of them.
-/

namespace SourceCorpus

/-- The place of an object among the objects of its model. -/
abbrev ObjectId := Nat

inductive ObjectKind where
  | module | «class» | function | method
  deriving DecidableEq, Repr, Inhabited

namespace ObjectKind

def name : ObjectKind → String
  | module => "module"
  | «class» => "class"
  | function => "function"
  | method => "method"

def isCallable : ObjectKind → Bool
  | function | method => true
  | _ => false

end ObjectKind

/-- A stretch of the source. Lines count from one and include the last; bytes are half open. -/
structure Span where
  startLine : Nat
  endLine : Nat
  startByte : Nat
  endByte : Nat
  deriving DecidableEq, Repr, Inhabited

inductive ParameterKind where
  | positionalOnly | positionalOrKeyword | varPositional | keywordOnly | varKeyword
  deriving DecidableEq, Repr

structure Parameter where
  name : String
  default : Option String
  typeHint : Option String
  kind : ParameterKind
  deriving DecidableEq, Repr

/-- The name as a signature spells it. -/
def Parameter.displayName (p : Parameter) : String :=
  match p.kind with
  | .varPositional => "*" ++ p.name
  | .varKeyword => "**" ++ p.name
  | _ => p.name

/-- A call: the text of what is called without blanks, and how many arguments it gets. -/
structure CallSite where
  callee : String
  argumentCount : Nat
  line : Nat
  deriving DecidableEq, Repr

inductive Access where
  | read | write
  deriving DecidableEq, Repr

structure NameRef where
  name : String
  access : Access
  deriving DecidableEq, Repr

/-- The form of the target through which a variable was bound. -/
inductive TargetKind where
  | simple | unpacked | chained | starred | annotated | augmented
  deriving DecidableEq, Repr

structure Variable where
  name : String
  value : Option String
  typeHint : Option String
  target : TargetKind
  line : Nat
  deriving DecidableEq, Repr

structure ClassData where
  /-- The bases in order, without blanks. -/
  bases : List String
  /-- The keyword arguments of the class statement, without blanks. -/
  keywords : List String
  /-- What is assigned in the body of the class. -/
  attributes : List Variable
  /-- The names that methods assign on their instance. -/
  instanceAttributes : List String
  deriving DecidableEq, Repr

structure FunctionData where
  isAsync : Bool
  /-- What each `return` with a value returns, in order. -/
  returns : List String
  locals : List Variable
  deriving DecidableEq, Repr

inductive Payload where
  | module
  | «class» (data : ClassData)
  | function (data : FunctionData)
  | method (data : FunctionData)
  deriving DecidableEq, Repr

def Payload.kind : Payload → ObjectKind
  | .module => .module
  | .class _ => .class
  | .function _ => .function
  | .method _ => .method

structure CodeObject where
  name : String
  /-- The name by which the object is known in its model. -/
  qualifiedName : String
  docstring : Option String
  span : Span
  decorators : List String
  parameters : List Parameter
  returnType : Option String
  calls : List CallSite
  references : List NameRef
  children : List ObjectId
  parent : Option ObjectId
  depth : Nat
  payload : Payload
  deriving DecidableEq, Repr

namespace CodeObject

def kind (o : CodeObject) : ObjectKind := o.payload.kind

def classData? (o : CodeObject) : Option ClassData :=
  match o.payload with
  | .class data => some data
  | _ => none

def functionData? (o : CodeObject) : Option FunctionData :=
  match o.payload with
  | .function data | .method data => some data
  | _ => none

def namesWith (o : CodeObject) (access : Access) : List String :=
  (o.references.filter (·.access == access)).map (·.name)

def reads (o : CodeObject) : List String := o.namesWith .read

def writes (o : CodeObject) : List String := o.namesWith .write

end CodeObject

end SourceCorpus
