import SourceCorpus.Proofs.Extraction.Calls

/-!
Parameters of definitions. Main statement: the objects list the parameters of their definitions in
order, each of the kind that the stars and separators around it give it, with the texts of its default
value and its annotation.
-/

namespace SourceCorpus.Extraction

open Syntax Tree

def hasStars (stars : Kind) (t : Tree) : Bool :=
  t.isKind stars || (t.isKind .typedParameter && t.children.any (·.isKind stars))

def endsPositional (t : Tree) : Bool := t.isKind .keywordSeparator || hasStars .listSplatPattern t

/-- The kind of the parameter between what stands before it and what stands behind it. -/
def kindAmong (before after : List Tree) (t : Tree) : ParameterKind :=
  if hasStars .listSplatPattern t then .varPositional
  else if hasStars .dictionarySplatPattern t then .varKeyword
  else if before.any endsPositional then .keywordOnly
  else if after.any (·.isKind .positionalSeparator) then .positionalOnly
  else .positionalOrKeyword

def unstarred? (t : Tree) : Option Tree :=
  if t.isKind .listSplatPattern || t.isKind .dictionarySplatPattern then
    t.children.find? (!·.isTrivia)
  else some t

def parameterName? (t : Tree) : Option Tree :=
  match t.kind? with
  | some .defaultParameter | some .typedDefaultParameter => t.child? .name
  | some .typedParameter => (t.children.find? (!·.isTrivia)).bind unstarred?
  | _ => unstarred? t

/-- Separators, comments and tuples without a default value are no parameters. -/
def isParameterNode (t : Tree) : Bool :=
  !(t.isTrivia || t.isKind .keywordSeparator || t.isKind .positionalSeparator ||
    t.isKind .tuplePattern)

def parameterPlaces (nodes : List Tree) : List (Tree × Nat) :=
  nodes.zipIdx.filter (isParameterNode ·.1)

def parameterNodes (owner : Tree) : List Tree :=
  if owner.isDefinition then ((owner.child? .parameters).map (·.children)).getD [] else []

structure IsParameterAt (source : List Char) (nodes : List Tree) (place : Tree × Nat)
    (p : Parameter) : Prop where
  kind : p.kind = kindAmong (nodes.take place.2) (nodes.drop (place.2 + 1)) place.1
  default : p.default = (place.1.child? .value).map (·.text source)
  typeHint : p.typeHint = (place.1.child? .type).map (·.text source)
  /-- A comment behind the stars would be taken for the name. -/
  name : (∀ n ∈ place.1.preorder, n.isTrivia = false) →
    (parameterName? place.1).map (·.text source) = some p.name

/-- The object lists the parameters of its definition. -/
structure ListsParameters (source : List Char) (owner : Tree) (o : CodeObject) : Prop where
  object : IsObjectOf source owner o
  parameters : List.Forall₂ (IsParameterAt source (parameterNodes owner))
    (parameterPlaces (parameterNodes owner)) o.parameters

variable {source : List Char} {t : Tree} {nodes before after : List Tree} {done : List Parameter}

/-! ### Single parameters -/

structure IsParameterOf (source : List Char) (plain : ParameterKind) (t : Tree) (p : Parameter) :
    Prop where
  kind : p.kind = if hasStars .listSplatPattern t then .varPositional
    else if hasStars .dictionarySplatPattern t then .varKeyword else plain
  default : p.default = (t.child? .value).map (·.text source)
  typeHint : p.typeHint = (t.child? .type).map (·.text source)
  name : (∀ n ∈ t.preorder, n.isTrivia = false) →
    (parameterName? t).map (·.text source) = some p.name

theorem child?_eq_none {role : Role} (h : ∀ c ∈ t.children, c.hasRole role = false) :
    t.child? role = none := by
  rw [child?, List.find?_eq_none]
  intro c hc
  rw [h c hc]
  exact Bool.false_ne_true

theorem hasRole_of_role?_eq_none {c : Tree} (h : c.role? = none) (role : Role) :
    c.hasRole role = false := by
  rw [hasRole, h]
  rfl

theorem parameter?_eq_none (keywordOnly : Bool) (h : isParameterNode t = false) :
    parameter? source keywordOnly t = none := by
  cases t with
  | node kind role extent children =>
    cases kind <;> first | rfl | cases h
  | error => rfl
  | missing => rfl

/-- Without comments, the first child that is no gap is the first child. -/
theorem find?_isTrivia_eq_head? {ts : List Tree} (h : ∀ c ∈ ts, c.isTrivia = false) :
    ts.find? (!·.isTrivia) = ts.head? := by
  cases ts with
  | nil => rfl
  | cons c cs =>
    have hc := h c List.mem_cons_self
    rw [List.find?_cons_of_pos (by rw [hc]; rfl), List.head?_cons]

theorem isTrivia_of_preorder (h : ∀ n ∈ t.preorder, n.isTrivia = false) :
    ∀ c ∈ t.children, c.isTrivia = false :=
  fun c hc => h c (mem_preorder_of_mem_children hc (self_mem_preorder c))

theorem exists_eq_node_of_isParameterName (h : IsParameterName t) :
    ∃ kind extent children, t = .node kind none extent children ∧
      (∀ role, t.child? role = none) ∧ (kind = .identifier ∨
        (kind = .listSplatPattern ∨ kind = .dictionarySplatPattern) ∧
          ∃ first rest, children = first :: rest) := by
  obtain ⟨hrole, hkind, hparts, hbehind⟩ := h
  have hnone (role : Role) : t.child? role = none :=
    child?_eq_none fun c hc => hasRole_of_role?_eq_none (hparts c hc) role
  cases t with
  | node kind role extent children =>
    obtain rfl : role = none := hrole
    simp only [isKind_node, beq_iff_eq, beq_eq_false_iff_ne] at hkind hbehind
    refine ⟨kind, extent, children, rfl, hnone, hkind.imp_right fun hstars => ⟨hstars, ?_⟩⟩
    refine List.exists_cons_of_ne_nil (hbehind ?_)
    rintro rfl
    rcases hstars with h | h <;> cases h
  | error => rcases hkind with h | h | h <;> cases h
  | missing => rcases hkind with h | h | h <;> cases h

theorem exists_parameter?_of_name (keywordOnly : Bool) (h : IsParameterName t) :
    ∃ p, parameter? source keywordOnly t = some p ∧
      IsParameterOf source (if keywordOnly then .keywordOnly else .positionalOrKeyword) t p := by
  obtain ⟨kind, extent, children, rfl, hnone, rfl | ⟨rfl | rfl, first, rest, rfl⟩⟩ :=
    exists_eq_node_of_isParameterName h
  · refine ⟨_, rfl, rfl, ?_, ?_, fun _ => rfl⟩
    · rw [hnone]
      rfl
    · rw [hnone]
      rfl
  all_goals
    refine ⟨_, rfl, rfl, ?_, ?_, fun hcomments => ?_⟩
    · rw [hnone]
      rfl
    · rw [hnone]
      rfl
    · have hfirst := find?_isTrivia_eq_head? (isTrivia_of_preorder hcomments)
      exact congrArg (Option.map (·.text source)) hfirst

/-- Behind the name, nothing has stars. -/
theorem hasStars_typedParameter {stars : Kind} {role : Option Role} {extent : Extent} {name : Tree}
    {rest : List Tree} (hstars : stars = .listSplatPattern ∨ stars = .dictionarySplatPattern)
    (hrest : ∀ c ∈ rest, (c.isKind .type ∧ c.hasRole .type) ∨ (c.isTrivia ∧ c.role? = none)) :
    hasStars stars (.node .typedParameter role extent (name :: rest)) = name.isKind stars := by
  have hplain : rest.any (·.isKind stars) = false := by
    rw [List.any_eq_false]
    intro c hc hkind
    rw [isKind, beq_iff_eq] at hkind
    rcases hrest c hc with ⟨htype, -⟩ | ⟨htrivia, -⟩
    · rcases hstars with rfl | rfl <;> simp [isKind, hkind] at htype
    · rcases hstars with rfl | rfl <;> simp [Tree.isTrivia, hkind, Kind.isTrivia] at htrivia
  have hnot : (Kind.typedParameter == stars) = false := by rcases hstars with rfl | rfl <;> rfl
  rw [hasStars, isKind_node, isKind_node, hnot, Tree.children, List.any_cons, hplain]
  simp

theorem exists_parameter?_of_typed (keywordOnly : Bool) {role : Option Role} {extent : Extent}
    {name : Tree} {rest : List Tree} (hname : IsParameterName name)
    (hrest : ∀ c ∈ rest, (c.isKind .type ∧ c.hasRole .type) ∨ (c.isTrivia ∧ c.role? = none)) :
    ∃ p, parameter? source keywordOnly (.node .typedParameter role extent (name :: rest)) = some p ∧
      IsParameterOf source (if keywordOnly then .keywordOnly else .positionalOrKeyword)
        (.node .typedParameter role extent (name :: rest)) p := by
  have hvalue : (Syntax.Tree.node .typedParameter role extent (name :: rest)).child? .value = none := by
    refine child?_eq_none fun c hc => ?_
    rcases List.mem_cons.1 hc with rfl | hc
    · exact hasRole_of_role?_eq_none hname.role _
    · rcases hrest c hc with ⟨-, htype⟩ | ⟨-, hrole⟩
      · rw [hasRole_eq_false_of_hasRole htype (by decide)]
      · exact hasRole_of_role?_eq_none hrole _
  have hstars : hasStars .listSplatPattern (.node .typedParameter role extent (name :: rest)) = _ :=
    hasStars_typedParameter (.inl rfl) hrest
  have hstars' : hasStars .dictionarySplatPattern
      (.node .typedParameter role extent (name :: rest)) = _ :=
    hasStars_typedParameter (.inr rfl) hrest
  -- Without comments, the name comes first, and so does what is behind its stars.
  have hfirst (hcomments : ∀ n ∈ (Syntax.Tree.node .typedParameter role extent (name :: rest)).preorder,
      n.isTrivia = false) : parameterName? (.node .typedParameter role extent (name :: rest)) =
        if name.isKind .listSplatPattern || name.isKind .dictionarySplatPattern then
          name.children.head? else some name := by
    have hchildren : ∀ c ∈ name :: rest, c.isTrivia = false := isTrivia_of_preorder hcomments
    have hinner : name.children.find? (!·.isTrivia) = name.children.head? := by
      refine find?_isTrivia_eq_head? (isTrivia_of_preorder fun n hn => hcomments n ?_)
      exact mem_preorder_of_mem_children (c := name) List.mem_cons_self hn
    change ((name :: rest).find? (!·.isTrivia)).bind unstarred? = _
    rw [find?_isTrivia_eq_head? hchildren, List.head?_cons, Option.bind_some, unstarred?, hinner]
  obtain ⟨kind, extent', children, rfl, -, rfl | ⟨rfl | rfl, first, parts, rfl⟩⟩ :=
    exists_eq_node_of_isParameterName hname
  all_goals
    refine ⟨_, rfl, ?_, ?_, rfl, fun hcomments => ?_⟩
    · rw [hstars, hstars']
      rfl
    · rw [hvalue]
      rfl
    · rw [hfirst hcomments]
      rfl

theorem exists_child?_eq_some {role : Role} (h : ∃ c ∈ t.children, c.hasRole role) :
    ∃ c, t.child? role = some c := by
  obtain ⟨c, hc, hrole⟩ := h
  exact Option.isSome_iff_exists.1 (List.find?_isSome.2 ⟨c, hc, hrole⟩)

theorem exists_parameter? (keywordOnly : Bool) (hform : IsParameterForm t)
    (hnode : isParameterNode t) : ∃ p, parameter? source keywordOnly t = some p ∧
      IsParameterOf source (if keywordOnly then .keywordOnly else .positionalOrKeyword) t p := by
  cases hform with
  | trivia h => simp [isParameterNode, h] at hnode
  | separator h => rcases h with h | h <;> simp [isParameterNode, h] at hnode
  | tuple h => simp [isParameterNode, h] at hnode
  | name h => exact exists_parameter?_of_name keywordOnly h
  | typed hname hrest => exact exists_parameter?_of_typed keywordOnly hname hrest
  | @default role extent children hname htype =>
    let t : Tree := .node .defaultParameter role extent children
    obtain ⟨c, hc⟩ : ∃ c, t.child? .name = some c := exists_child?_eq_some hname
    have hnone : t.child? .type = none := child?_eq_none htype
    have hread : parameter? source keywordOnly t = ((t.child? .name).map (·.text source)).map _ := rfl
    rw [hc] at hread
    refine ⟨_, hread, rfl, rfl, ?_, fun _ => ?_⟩
    · exact (congrArg (Option.map (·.text source)) hnone).symm
    · exact congrArg (Option.map (·.text source)) hc
  | @typedDefault role extent children hname =>
    let t : Tree := .node .typedDefaultParameter role extent children
    obtain ⟨c, hc⟩ : ∃ c, t.child? .name = some c := exists_child?_eq_some hname
    have hread : parameter? source keywordOnly t = ((t.child? .name).map (·.text source)).map _ := rfl
    rw [hc] at hread
    exact ⟨_, hread, rfl, rfl, rfl, fun _ => congrArg (Option.map (·.text source)) hc⟩

/-! ### Lists of parameters -/

/-- What a separator behind it makes of the kind of a parameter. -/
theorem kindAmong_concat (before after : List Tree) (t u : Tree) :
    kindAmong before (after ++ [u]) t =
      if u.isKind .positionalSeparator then
        if kindAmong before after t = .positionalOrKeyword then .positionalOnly
        else kindAmong before after t
      else kindAmong before after t := by
  unfold kindAmong
  rw [List.any_append, List.any_cons, List.any_nil, Bool.or_false]
  grind

@[simp] theorem makePositional_default (p : Parameter) : (makePositional p).default = p.default := by
  unfold makePositional
  split <;> rfl

@[simp] theorem makePositional_typeHint (p : Parameter) :
    (makePositional p).typeHint = p.typeHint := by
  unfold makePositional
  split <;> rfl

@[simp] theorem makePositional_name (p : Parameter) : (makePositional p).name = p.name := by
  unfold makePositional
  split <;> rfl

/-- Nodes behind those read so far change nothing but the kind, and that only if they separate. -/
theorem IsParameterAt.concat {place : Tree × Nat} {p : Parameter}
    (h : IsParameterAt source nodes place p) (hplace : place.2 < nodes.length) (u : Tree) :
    IsParameterAt source (nodes ++ [u]) place
      (if u.isKind .positionalSeparator then makePositional p else p) := by
  have htake : (nodes ++ [u]).take place.2 = nodes.take place.2 :=
    List.take_append_of_le_length (Nat.le_of_lt hplace)
  have hdrop : (nodes ++ [u]).drop (place.2 + 1) = nodes.drop (place.2 + 1) ++ [u] :=
    List.drop_append_of_le_length hplace
  have hkind := kindAmong_concat (nodes.take place.2) (nodes.drop (place.2 + 1)) place.1 u
  rw [← h.kind] at hkind
  by_cases hseparator : u.isKind .positionalSeparator
  · rw [if_pos hseparator] at hkind ⊢
    refine ⟨?_, ?_, ?_, fun hcomments => ?_⟩
    · rw [htake, hdrop, hkind]
      unfold makePositional
      grind
    · rw [← h.default, makePositional_default]
    · rw [← h.typeHint, makePositional_typeHint]
    · rw [makePositional_name, h.name hcomments]
  · rw [if_neg hseparator] at hkind ⊢
    exact ⟨by rw [htake, hdrop, hkind], h.default, h.typeHint, h.name⟩

theorem parameterPlaces_concat (nodes : List Tree) (t : Tree) :
    parameterPlaces (nodes ++ [t]) =
      parameterPlaces nodes ++ if isParameterNode t then [(t, nodes.length)] else [] := by
  rw [parameterPlaces, List.zipIdx_append, List.filter_append, List.zipIdx_singleton,
    List.filter_singleton, Nat.zero_add]
  cases isParameterNode t <;> rfl

theorem lt_length_of_mem_parameterPlaces {place : Tree × Nat} (h : place ∈ parameterPlaces nodes) :
    place.2 < nodes.length := by
  have hle := List.snd_lt_of_mem_zipIdx (List.mem_filter.1 h).1
  simpa using hle

def AreParameters (source : List Char) (nodes : List Tree) (ps : List Parameter) : Prop :=
  List.Forall₂ (IsParameterAt source nodes) (parameterPlaces nodes) ps

/-- One more node. -/
theorem AreParameters.concat {ps : List Parameter} (h : AreParameters source nodes ps) (u : Tree) :
    List.Forall₂ (IsParameterAt source (nodes ++ [u])) (parameterPlaces nodes)
      (ps.map fun p => if u.isKind .positionalSeparator then makePositional p else p) := by
  rw [List.forall₂_map_right_iff]
  have hplaces : ∀ place ∈ parameterPlaces nodes, place.2 < nodes.length :=
    fun _ => lt_length_of_mem_parameterPlaces
  exact ((List.forall₂_and_left _ _).2 ⟨hplaces, h⟩).imp fun _ _ hp => hp.2.concat hp.1 u

theorem AreParameters.skip {ps : List Parameter} (h : AreParameters source nodes ps)
    (hnode : isParameterNode t = false) :
    AreParameters source (nodes ++ [t])
      (if t.isKind .positionalSeparator then ps.map makePositional else ps) := by
  have hconcat := h.concat t
  rw [AreParameters, parameterPlaces_concat, hnode, if_neg Bool.false_ne_true, List.append_nil]
  split
  next hseparator => simpa only [if_pos hseparator] using hconcat
  next hseparator => simpa only [if_neg hseparator, List.map_id'] using hconcat

theorem AreParameters.push {ps : List Parameter} {p : Parameter}
    (h : AreParameters source nodes ps) (hnode : isParameterNode t)
    (hp : IsParameterAt source (nodes ++ [t]) (t, nodes.length) p) :
    AreParameters source (nodes ++ [t]) (ps ++ [p]) := by
  have hconcat := h.concat t
  have hseparator : t.isKind .positionalSeparator = false := by
    rw [isParameterNode, Bool.not_eq_true', Bool.or_eq_false_iff, Bool.or_eq_false_iff] at hnode
    exact hnode.1.2
  rw [AreParameters, parameterPlaces_concat, hnode, if_pos rfl]
  simp only [hseparator, Bool.false_eq_true, if_false, List.map_id'] at hconcat
  exact List.rel_append hconcat (.cons hp .nil)

/-- The last node so far has nothing behind it that could make it positional. -/
theorem IsParameterOf.isParameterAt {p : Parameter}
    (h : IsParameterOf source
      (if nodes.any endsPositional then .keywordOnly else .positionalOrKeyword) t p) :
    IsParameterAt source (nodes ++ [t]) (t, nodes.length) p := by
  refine ⟨?_, h.default, h.typeHint, h.name⟩
  rw [h.kind, kindAmong, List.take_left, List.drop_eq_nil_of_le (by simp)]
  rfl

theorem parametersFrom_of_isParameterNode {p : Parameter} {ts : List Tree} {keywordOnly : Bool}
    (hnode : isParameterNode t) (hread : parameter? source keywordOnly t = some p)
    (hp : IsParameterOf source (if keywordOnly then .keywordOnly else .positionalOrKeyword) t p) :
    parametersFrom source keywordOnly done (t :: ts) =
      parametersFrom source (keywordOnly || endsPositional t) (p :: done) ts := by
  simp only [isParameterNode, Bool.not_eq_true', Bool.or_eq_false_iff] at hnode
  obtain ⟨⟨⟨htrivia, hkeyword⟩, hpositional⟩, -⟩ := hnode
  have hcomment : t.isKind .comment = false := by
    rw [Bool.eq_false_iff]
    intro hkind
    rw [isKind, beq_iff_eq] at hkind
    simp [Tree.isTrivia, hkind, Kind.isTrivia] at htrivia
  have hends : decide (p.kind = .varPositional) = endsPositional t := by
    rw [endsPositional, hkeyword, hp.kind]
    grind
  rw [parametersFrom, hcomment, hpositional, hkeyword, hread, ← hends]
  rfl

theorem parametersFrom_of_not_isParameterNode {ts : List Tree} {keywordOnly : Bool}
    (hnode : isParameterNode t = false) :
    parametersFrom source keywordOnly done (t :: ts) =
      parametersFrom source (keywordOnly || endsPositional t)
        (if t.isKind .positionalSeparator then done.map makePositional else done) ts := by
  rw [parametersFrom, parameter?_eq_none keywordOnly hnode, Bool.or_comm]
  cases t with
  | node kind role extent children =>
    cases kind <;> first | rfl | cases hnode
  | error => rfl
  | missing => rfl

theorem areParameters_parametersFrom (hforms : ∀ t ∈ after, IsParameterForm t)
    (h : AreParameters source before done.reverse) :
    AreParameters source (before ++ after)
      (parametersFrom source (before.any endsPositional) done after) := by
  induction after generalizing before done with
  | nil => rwa [List.append_nil, parametersFrom]
  | cons t ts ih =>
    have hts : ∀ t ∈ ts, IsParameterForm t := fun u hu => hforms u (List.mem_cons_of_mem t hu)
    have hany : (before ++ [t]).any endsPositional =
        (before.any endsPositional || endsPositional t) := by simp
    rw [List.append_cons]
    by_cases hnode : isParameterNode t
    · obtain ⟨p, hread, hp⟩ : ∃ p, parameter? source (before.any endsPositional) t = some p ∧ _ :=
        exists_parameter? _ (hforms t List.mem_cons_self) hnode
      rw [parametersFrom_of_isParameterNode hnode hread hp, ← hany]
      refine ih hts ?_
      rw [List.reverse_cons]
      exact h.push hnode hp.isParameterAt
    · rw [Bool.not_eq_true] at hnode
      rw [parametersFrom_of_not_isParameterNode hnode, ← hany]
      refine ih hts ?_
      rw [apply_ite List.reverse, ← List.map_reverse]
      exact h.skip hnode

/-! ### Objects -/

theorem isParameterForm_of_shaped {d list : Tree} (hshaped : Shaped d)
    (hdefinition : d.isDefinition) (hlist : d.child? .parameters = some list)
    (ht : t ∈ list.children) : IsParameterForm t := by
  have hmem : list ∈ d.children := List.mem_of_find?_eq_some hlist
  have hrole : list.hasRole .parameters := by simpa using List.find?_some hlist
  have hlisted : Shaped list :=
    hshaped.of_mem_preorder (mem_preorder_of_mem_children hmem (self_mem_preorder list))
  have hkind : list.isKind .parameters := by
    cases hshaped with
    | node fits => exact isKind_parameters_of_fits hdefinition (fits list hmem) hrole
  cases hlisted with
  | node fits =>
    rw [isKind_node, beq_iff_eq] at hkind
    subst hkind
    exact (fits t ht).2.2.2.2

/-- What is read of the parameters of a definition is what stands between its parentheses. -/
theorem areParameters_parametersOf {d : Tree} (hshaped : Shaped d) (hdefinition : d.isDefinition) :
    AreParameters source (parameterNodes d) (parametersOf source d) := by
  rw [parametersOf, parameterNodes, if_pos hdefinition]
  cases hlist : d.child? .parameters with
  | none => exact .nil
  | some list =>
    have hforms : ∀ t ∈ list.children, IsParameterForm t :=
      fun t ht => isParameterForm_of_shaped hshaped hdefinition hlist ht
    have hall : AreParameters source ([] ++ list.children)
        (parametersFrom source (([] : List Tree).any endsPositional) [] list.children) :=
      areParameters_parametersFrom hforms .nil
    exact hall

theorem listsParameters_of_represents {entry : Header × List Fact} {d : Tree} {o : CodeObject}
    (hshaped : Shaped d) (h : Describes source entry d) (ho : Represents entry o) :
    ListsParameters source d o := by
  refine ⟨(isObjectOf_of_represents h ho).1, ?_⟩
  obtain ⟨place, decorators, hheader, -⟩ := h.origin
  obtain ⟨name, -, hentry⟩ := Option.map_eq_some_iff.1 hheader
  rw [ho.parameters, ← hentry]
  exact areParameters_parametersOf hshaped h.isDefinition

/-- Each object lists the parameters of its definition, in the order of the source, and of the kinds
that the stars and separators among them give. -/
theorem listsParameters {file source : String} {m : CodeModel} (h : extract file source = .ok m) :
    List.Forall₂ (ListsParameters source.toList) (owners (parse source.toList))
      m.objects.toList := by
  obtain ⟨hproblem, rfl⟩ := extract_eq_ok_iff.1 h
  obtain ⟨hstatement, hmodule⟩ := isStatement_parse hproblem
  have hdefinition := not_isDefinition_of_isKind_module hmodule
  refine forall₂_owners_modelOf file hstatement hmodule
    (fun _ _ _ ho => ⟨ho.object.withChildren _, ho.parameters⟩)
    ⟨isObjectOf_moduleObject file _ _ hdefinition, ?_⟩
    fun _ _ _ hshaped => listsParameters_of_represents hshaped
  rw [parameterNodes, hdefinition]
  exact .nil

/-- The separators stand in an order that has no meaning, behind a parameter with stars. -/
theorem listsParameters_of_late_separators :
    let source := "def f(a: t, b=1, *c: u, # d\n      e: v = 2, /, *, g, **h): pass\n"
    ∃ m, extract "t.py" source = .ok m ∧
      List.Forall₂ (ListsParameters source.toList) (owners (parse source.toList))
        m.objects.toList ∧
      m.objects.toList.map (·.parameters) = [[],
        [⟨"a", none, some "t", .positionalOnly⟩, ⟨"b", some "1", none, .positionalOnly⟩,
          ⟨"c", none, some "u", .varPositional⟩, ⟨"e", some "2", some "v", .keywordOnly⟩,
          ⟨"g", none, none, .keywordOnly⟩, ⟨"h", none, none, .varKeyword⟩]] := by
  intro source
  have hextract : extract "t.py" source =
      .ok (modelOf "t.py" source.toList (parse source.toList)) :=
    extract_eq_ok_iff.2 ⟨by decide +kernel, rfl⟩
  exact ⟨_, hextract, listsParameters hextract, by decide +kernel⟩

end SourceCorpus.Extraction
