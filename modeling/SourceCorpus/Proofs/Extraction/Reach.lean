import Mathlib.Data.List.Perm.Basic
import SourceCorpus.Proofs.Syntax.Shape
import SourceCorpus.Extraction.Facts

/-!
Which calls of a syntax tree are evaluated where: calls are reached from the root of a tree by steps
from a node to its children, and a step may be forbidden. Main statement: the calls reached by some
steps are those reached without certain ones among them, and those behind one of these.
-/

namespace SourceCorpus.Syntax.Tree

/-- The steps from a node to a child of it that are allowed. -/
abbrev Pass := Tree → Tree → Bool

mutual

/-- The calls that are reached from the root by allowed steps, in order. -/
def callsVia (pass : Pass) : Tree → List Tree
  | node kind role extent children =>
    (if kind = .call then [node kind role extent children] else []) ++
      callsOf pass (node kind role extent children) children
  | _ => []

def callsOf (pass : Pass) (parent : Tree) : List Tree → List Tree
  | [] => []
  | c :: cs => (if pass parent c then callsVia pass c else []) ++ callsOf pass parent cs

end

mutual

/-- The calls that are reached by steps of the one sort, of which at least one is of the other. -/
def callsBehind (pass special : Pass) : Tree → List Tree
  | node kind role extent children =>
    callsBehindOf pass special (node kind role extent children) children
  | _ => []

def callsBehindOf (pass special : Pass) (parent : Tree) : List Tree → List Tree
  | [] => []
  | c :: cs =>
    (if pass parent c then
      if special parent c then callsVia pass c else callsBehind pass special c
    else []) ++ callsBehindOf pass special parent cs

end

def definitions (t : Tree) : List Tree := t.preorder.filter isDefinition

variable {pass special : Pass} {kind : Kind} {role : Option Role} {extent : Extent}
  {children : List Tree} {t : Tree}

@[simp]
theorem isKind_node (kind' : Kind) : (node kind role extent children).isKind kind' = (kind == kind') :=
  rfl

@[simp]
theorem isDefinition_node : (node kind role extent children).isDefinition = kind.isDefinition := rfl

def partCalls (pass : Pass) (parent c : Tree) : List Tree :=
  if pass parent c then callsVia pass c else []

theorem callsOf_eq_flatMap (parent : Tree) (ts : List Tree) :
    callsOf pass parent ts = ts.flatMap (partCalls pass parent) := by
  induction ts with
  | nil => rfl
  | cons t ts ih => rw [callsOf, ih, List.flatMap_cons, partCalls]

theorem callsVia_node :
    callsVia pass (node kind role extent children) =
      (if kind = .call then [node kind role extent children] else []) ++
        children.flatMap (partCalls pass (node kind role extent children)) := by
  rw [callsVia, callsOf_eq_flatMap]

theorem callsBehindOf_eq_flatMap (parent : Tree) (ts : List Tree) :
    callsBehindOf pass special parent ts = ts.flatMap fun c =>
      if pass parent c then
        if special parent c then callsVia pass c else callsBehind pass special c
      else [] := by
  induction ts with
  | nil => rfl
  | cons t ts ih => rw [callsBehindOf, ih, List.flatMap_cons]

theorem definitions_node :
    (node kind role extent children).definitions =
      (if kind.isDefinition then [node kind role extent children] else []) ++
        children.flatMap definitions := by
  have hself : (node kind role extent children).isDefinition = kind.isDefinition := rfl
  rw [definitions, preorder_node, List.filter_cons, List.filter_flatMap, hself]
  split <;> rfl

theorem HasNoDefinition.definitions_eq_nil (h : t.HasNoDefinition) : t.definitions = [] := by
  refine List.filter_eq_nil_iff.2 fun n hn => ?_
  rw [isDefinition, h n hn]
  exact Bool.false_ne_true

theorem HasNoCall.callsVia_eq_nil (h : t.HasNoCall) : callsVia pass t = [] := by
  induction t using Tree.induction with
  | node kind role extent children ih =>
    obtain ⟨hkind, hchildren⟩ := avoids_node.1 h
    rw [callsVia_node, if_neg (beq_eq_false_iff_ne.1 hkind), List.nil_append, List.flatMap_eq_nil_iff]
    intro c hc
    rw [partCalls, ih c hc (hchildren c hc), ite_self]
  | error => rfl
  | missing => rfl

theorem IsInert.callsVia_eq_nil (h : t.IsInert) : callsVia pass t = [] :=
  HasNoCall.callsVia_eq_nil (IsInert.hasNoCall h)

theorem callsVia_congr {pass' : Pass} (h : ∀ parent part, pass parent part = pass' parent part)
    (t : Tree) : callsVia pass t = callsVia pass' t := by
  have hpass : pass = pass' := by
    funext parent part
    exact h parent part
  rw [hpass]

/-- The reached calls, sorted by whether a special step leads to them. -/
theorem callsVia_perm (pass special : Pass) (t : Tree) :
    (callsVia pass t).Perm (callsVia (fun parent part => pass parent part && !special parent part) t ++
      callsBehind pass special t) := by
  induction t using Tree.induction with
  | node kind role extent children ih =>
    rw [callsVia_node, callsVia_node, callsBehind, callsBehindOf_eq_flatMap, List.append_assoc]
    refine .append_left _ (.trans (.flatMap_left _ fun c hc => ?_) (List.flatMap_append_perm ..).symm)
    by_cases hpass : pass (node kind role extent children) c
    · by_cases hspecial : special (node kind role extent children) c
      · simp [partCalls, hpass, hspecial]
      · simpa [partCalls, hpass, hspecial] using ih c hc
    · simp [partCalls, hpass]
  | error => exact .refl _
  | missing => exact .refl _

theorem hasRole_eq_false_of_hasRole {t : Tree} {role role' : Role} (h : t.hasRole role)
    (hne : role ≠ role') : t.hasRole role' = false := by
  rw [hasRole, beq_iff_eq] at h
  simpa [hasRole, h] using hne

/-- The body of a definition is a block. -/
theorem isKind_block_of_fits (hkind : kind.isDefinition) {c : Tree} (hc : Fits kind c)
    (hbody : c.hasRole .body) : c.isKind .block := by
  have hparts : Fits .functionDefinition c := by cases kind <;> first | exact hc | cases hkind
  have hno {role' : Role} (h : c.hasRole role') (hne : role' ≠ .body) : False := by
    rw [hasRole_eq_false_of_hasRole h hne] at hbody
    cases hbody
  rcases hparts with h | ⟨-, -, h, -⟩ | ⟨-, ⟨h, -⟩ | ⟨h, -⟩ | ⟨h, -⟩ | ⟨h, -⟩⟩
  · exact h.2
  · rw [hbody] at h
    cases h
  · exact (hno h (by decide)).elim
  · exact (hno h (by decide)).elim
  · exact (hno h (by decide)).elim
  · rw [hasRole, h] at hbody
    cases hbody

/-- All parts of a definition but its body are without declarations. -/
theorem hasNoDeclaration_of_fits {c : Tree} (hc : Fits .functionDefinition c)
    (hbody : ¬c.hasRole .body) : c.HasNoDeclaration := by
  rcases hc with h | h | h
  · exact absurd h.1 hbody
  · exact h.2.1.hasNoDeclaration
  · exact h.1

theorem hasNoDeclaration_of_superclasses {c : Tree} (hc : Fits .functionDefinition c)
    (hrole : c.hasRole .superclasses) : c.HasNoDeclaration :=
  hasNoDeclaration_of_fits hc
    (Bool.eq_false_iff.1 (hasRole_eq_false_of_hasRole hrole (by decide)))

/-- What is decorated is a definition. -/
theorem isDefinition_of_fits {c : Tree} (hc : Fits .decoratedDefinition c)
    (hrole : c.hasRole .definition) : c.isDefinition := by
  rcases hc with ⟨-, h | h⟩ | h
  · exact h.2
  · rw [h.1] at hrole
    cases hrole
  · rw [hasRole, h.1] at hrole
    cases hrole

/-- Decorators are without declarations. -/
theorem hasNoDeclaration_of_fits_decorated {c : Tree} (hc : Fits .decoratedDefinition c)
    (hrole : c.hasRole .definition = false) : c.HasNoDeclaration := by
  rcases hc with ⟨-, h | h⟩ | h
  · rw [h.1] at hrole
    cases hrole
  · exact h.2.hasNoDeclaration
  · exact h.2.2

/-- The name of a definition is an identifier. -/
theorem isKind_identifier_of_fits (hkind : kind.isDefinition) {c : Tree} (hc : Fits kind c)
    (hname : c.hasRole .name) : c.isKind .identifier := by
  have hparts : Fits .functionDefinition c := by cases kind <;> first | exact hc | cases hkind
  have hno {role' : Role} (h : c.hasRole role') (hne : role' ≠ .name) : False := by
    rw [hasRole_eq_false_of_hasRole h hne] at hname
    cases hname
  rcases hparts with ⟨h, -⟩ | ⟨-, -, -, -, h⟩ | ⟨-, ⟨h, -⟩ | ⟨h, -⟩ | ⟨h, -⟩ | ⟨h, -⟩⟩
  · exact (hno h (by decide)).elim
  · exact h hname
  · exact (hno h (by decide)).elim
  · exact (hno h (by decide)).elim
  · exact (hno h (by decide)).elim
  · rw [hasRole, h] at hname
    cases hname

/-- The parameters of a definition are a list of their own. -/
theorem isKind_parameters_of_fits (hkind : kind.isDefinition) {c : Tree} (hc : Fits kind c)
    (hrole : c.hasRole .parameters) : c.isKind .parameters := by
  have hparts : Fits .functionDefinition c := by cases kind <;> first | exact hc | cases hkind
  have hno {role' : Role} (h : c.hasRole role') (hne : role' ≠ .parameters) : False := by
    rw [hasRole_eq_false_of_hasRole h hne] at hrole
    cases hrole
  rcases hparts with ⟨h, -⟩ | ⟨-, -, -, h, -⟩ | ⟨-, ⟨-, h⟩ | ⟨h, -⟩ | ⟨h, -⟩ | ⟨h, -⟩⟩
  · exact (hno h (by decide)).elim
  · rw [hrole] at h
    cases h
  · exact h
  · exact (hno h (by decide)).elim
  · exact (hno h (by decide)).elim
  · rw [hasRole, h] at hrole
    cases hrole

theorem isOrdinary_of_isKind_block {c : Tree} (hbody : c.hasRole .body) (hblock : c.isKind .block) :
    c.isOrdinary := by
  rw [isKind, beq_iff_eq] at hblock
  rw [Tree.isOrdinary, hasRole_eq_false_of_hasRole hbody (by decide),
    hasRole_eq_false_of_hasRole hbody (by decide), hblock]
  rfl

/-! ### Steps -/

def hasDefault (t : Tree) : Bool := t.isKind .defaultParameter || t.isKind .typedDefaultParameter

/-- The step leads into no annotation, no type parameters and no parameters of a lambda, and into the
parameters of a definition only for their default values. -/
def isEvaluated : Pass := fun parent part =>
  !(part.hasRole .type || part.hasRole .returnType || part.isKind .typeParameter ||
    part.isKind .lambdaParameters || (parent.isKind .parameters && !part.hasDefault) ||
    (parent.hasDefault && !part.hasRole .value))

def entersBody : Pass := fun parent part => parent.isDefinition && part.hasRole .body

def isTypeArgument : Pass := fun parent part =>
  parent.isKind .genericType && part.isKind .typeParameter

/-- The step leads into a decorator that has a joined line where its expression should be. -/
def isJoined : Pass := fun parent _ =>
  parent.isKind .decorator &&
    (Extraction.withoutComments parent.children).head?.any (·.isKind .lineContinuation)

/-- The steps by which a call is evaluated on behalf of the definition that the way begins in. -/
def isOwned : Pass := fun parent part => isEvaluated parent part && !entersBody parent part

/-- The steps by which a call is recorded. -/
def isRecorded : Pass := fun parent part =>
  (isEvaluated parent part || isTypeArgument parent part) && !entersBody parent part &&
    !isJoined parent part

theorem isKind_eq_false_of_not_isConfined {t : Tree} (h : t.kind?.any Kind.isConfined = false)
    {kind : Kind} (hkind : kind.isConfined) : t.isKind kind = false := by
  rw [isKind, beq_eq_false_iff_ne]
  intro hk
  rw [hk, Option.any_some, hkind] at h
  cases h

theorem isEvaluated_of_isOrdinary {parent c : Tree} (hparameters : parent.isKind .parameters = false)
    (hdefault : parent.hasDefault → c.hasRole .value) (hc : c.isOrdinary) :
    isEvaluated parent c := by
  simp only [Tree.isOrdinary, Bool.not_eq_true', Bool.or_eq_false_iff] at hc
  obtain ⟨⟨htype, hreturn⟩, hkind⟩ := hc
  have hbrackets : c.isKind .typeParameter = false := isKind_eq_false_of_not_isConfined hkind rfl
  have hlambda : c.isKind .lambdaParameters = false := isKind_eq_false_of_not_isConfined hkind rfl
  cases hvalue : c.hasRole .value <;>
    simp_all [isEvaluated]

theorem isEvaluated_of_isTypeArgument {parent part : Tree} (h : isTypeArgument parent part) :
    isEvaluated parent part = false := by
  rw [isTypeArgument, Bool.and_eq_true] at h
  simp [isEvaluated, h.2]

/-- What is evaluated and recorded is evaluated and not behind a joined line, or recorded and no type
argument. -/
theorem isOwned_and_not_isJoined (parent part : Tree) :
    (isOwned parent part && !isJoined parent part) =
      (isRecorded parent part && !isTypeArgument parent part) := by
  cases htype : isTypeArgument parent part with
  | true => simp [isOwned, isEvaluated_of_isTypeArgument htype]
  | false => simp [isOwned, isRecorded, htype]

end SourceCorpus.Syntax.Tree
