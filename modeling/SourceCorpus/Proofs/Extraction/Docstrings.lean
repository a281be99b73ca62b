import SourceCorpus.Proofs.Extraction.Calls

/-!
The docstrings of a model. Main statement: the module and the definitions whose body opens with a
string that stands alone are those with a docstring, exactly if no body opens with a string beside
other expressions, or with one behind a joined line.
-/

namespace SourceCorpus.Extraction

open Syntax Tree

variable {source : List Char} {body : List Tree} {first owner statement tree : Tree}

def bodyOf (owner : Tree) : List Tree :=
  if owner.isDefinition then ((owner.child? .body).map (·.children)).getD [] else owner.children

def IsText (source : List Char) (expression : Tree) : Prop :=
  ∃ raw ∈ stringContents? source expression, Docstring.cleanChars raw ≠ []

instance (source : List Char) (expression : Tree) : Decidable (IsText source expression) :=
  inferInstanceAs (Decidable (∃ raw ∈ stringContents? source expression, _))

/-- The expression that the statement is, if there is nothing beside it. A comma is no node, and only
the extent of the statement tells of it. -/
def soleExpression? (statement : Tree) : Option Tree :=
  match statement.children with
  | [expression] => if expression.extent = statement.extent then some expression else none
  | _ => none

def IsSoleText (source : List Char) (statement : Tree) : Prop :=
  statement.isKind .expressionStatement ∧
    ∃ expression ∈ soleExpression? statement, IsText source expression

def BeginsWithText (source : List Char) (statement : Tree) : Prop :=
  statement.isKind .expressionStatement ∧
    ∃ expression ∈ statement.children.head?, IsText source expression

/-- The first statement of the body is a text and nothing else. -/
def OpensWithText (source : List Char) (owner : Tree) : Prop :=
  ∃ statement ∈ (bodyOf owner).find? (!·.isTrivia), IsSoleText source statement

instance (source : List Char) (statement : Tree) : Decidable (IsSoleText source statement) :=
  inferInstanceAs (Decidable (_ ∧ ∃ expression ∈ soleExpression? statement, _))

instance (source : List Char) (statement : Tree) : Decidable (BeginsWithText source statement) :=
  inferInstanceAs (Decidable (_ ∧ ∃ expression ∈ statement.children.head?, _))

instance (source : List Char) (owner : Tree) : Decidable (OpensWithText source owner) :=
  inferInstanceAs (Decidable (∃ statement ∈ (bodyOf owner).find? (!·.isTrivia),
    IsSoleText source statement))

/-- The module and the definitions have docstrings if their bodies open with a text, and only then.
-/
structure RecordsDocstrings (source : List Char) (tree : Tree) (m : CodeModel) : Prop where
  model : m.docstring.isSome ↔ OpensWithText source tree
  objects : List.Forall₂ (fun owner o => IsObjectOf source owner o ∧
    (o.docstring.isSome ↔ OpensWithText source owner)) (owners tree) m.objects.toList

/-- Neither does a joined line come before the text that the body opens with, nor another expression
behind one. -/
structure ShowsText (source : List Char) (owner : Tree) : Prop where
  joined : ∀ first ∈ (withoutComments (bodyOf owner)).head?, first.isKind .lineContinuation →
    ¬OpensWithText source owner
  alone : ∀ first ∈ (withoutComments (bodyOf owner)).head?, BeginsWithText source first →
    IsSoleText source first

instance (source : List Char) (owner : Tree) : Decidable (ShowsText source owner) :=
  decidable_of_iff
    ((∀ first ∈ (withoutComments (bodyOf owner)).head?, first.isKind .lineContinuation →
        ¬OpensWithText source owner) ∧
      ∀ first ∈ (withoutComments (bodyOf owner)).head?, BeginsWithText source first →
        IsSoleText source first)
    ⟨fun ⟨hjoined, halone⟩ => ⟨hjoined, halone⟩, fun h => ⟨h.joined, h.alone⟩⟩

/-! ### One body -/

theorem IsSoleText.beginsWithText (h : IsSoleText source statement) :
    BeginsWithText source statement := by
  obtain ⟨hkind, expression, hsole, htext⟩ := h
  refine ⟨hkind, expression, ?_, htext⟩
  rw [soleExpression?] at hsole
  split at hsole
  case h_1 hchildren =>
    rw [Option.mem_def, Option.ite_none_right_eq_some] at hsole
    rw [hchildren, List.head?_cons, Option.mem_def, hsole.2]
  case h_2 => cases hsole

theorem BeginsWithText.isKind_lineContinuation_eq_false (h : BeginsWithText source first) :
    first.isKind .lineContinuation = false := by
  have hkind := h.1
  rw [isKind, beq_iff_eq] at hkind
  rw [isKind, hkind]
  rfl

/-- A docstring is what the first part of a body begins with. -/
theorem isSome_docstringOf?_iff : (docstringOf? source body).isSome ↔
    ∃ first ∈ (withoutComments body).head?, BeginsWithText source first := by
  rw [docstringOf?]
  cases (withoutComments body).head? with
  | none => simp
  | some first =>
    rw [Option.bind_eq_bind, Option.bind_some]
    cases hkind : first.isKind .expressionStatement with
    | false => simp [BeginsWithText, hkind]
    | true =>
      cases hhead : first.children.head? with
      | none => simp [BeginsWithText, hhead]
      | some expression =>
        cases hraw : stringContents? source expression with
        | none => simp [BeginsWithText, hhead, IsText, hraw]
        | some raw =>
          simp [BeginsWithText, hhead, IsText, hraw, hkind]

/-- The first part that is no comment is the first statement, unless it is a joined line. -/
theorem find?_isTrivia_eq (h : ∀ first ∈ (withoutComments body).head?,
    first.isKind .lineContinuation = false) :
    body.find? (!·.isTrivia) = (withoutComments body).head? := by
  rw [withoutComments, List.head?_filter] at h ⊢
  induction body with
  | nil => rfl
  | cons part body ih =>
    cases hcomment : part.isKind .comment with
    | true =>
      have htrivia : part.isTrivia = true := isTrivia_of_isKind_comment hcomment
      simp only [List.find?_cons, hcomment, htrivia, Bool.not_true] at h ⊢
      exact ih h
    | false =>
      simp only [List.find?_cons, hcomment, Bool.not_false] at h ⊢
      have htrivia : part.isTrivia = false := isTrivia_eq_false hcomment (h part rfl)
      simp only [htrivia, Bool.not_false]

theorem BeginsWithText.find?_isTrivia_eq_some (h : BeginsWithText source first)
    (hfirst : first ∈ (withoutComments body).head?) : body.find? (!·.isTrivia) = some first := by
  rw [find?_isTrivia_eq fun first' hfirst' =>
    Option.mem_unique hfirst' hfirst ▸ h.isKind_lineContinuation_eq_false]
  exact hfirst

/-- A docstring tells what the body opens with if and only if the body shows it. -/
theorem isSome_docstringOf?_iff_opensWithText_iff :
    ((docstringOf? source (bodyOf owner)).isSome ↔ OpensWithText source owner) ↔
      ShowsText source owner := by
  rw [isSome_docstringOf?_iff]
  constructor
  · intro h
    refine ⟨fun first hfirst hjoined hopens => ?_, fun first hfirst hbegins => ?_⟩
    · obtain ⟨first', hfirst', hbegins⟩ := h.2 hopens
      obtain rfl : first' = first := Option.mem_unique hfirst' hfirst
      rw [hbegins.isKind_lineContinuation_eq_false] at hjoined
      cases hjoined
    · obtain ⟨statement, hstatement, hsole⟩ := h.1 ⟨first, hfirst, hbegins⟩
      rw [hbegins.find?_isTrivia_eq_some hfirst, Option.mem_some_iff] at hstatement
      exact hstatement ▸ hsole
  · intro h
    constructor
    · rintro ⟨first, hfirst, hbegins⟩
      exact ⟨first, hbegins.find?_isTrivia_eq_some hfirst, h.alone first hfirst hbegins⟩
    · intro hopens
      have hfirst : ∀ first ∈ (withoutComments (bodyOf owner)).head?,
          first.isKind .lineContinuation = false := fun first hfirst =>
        Bool.eq_false_iff.2 fun hjoined => h.joined first hfirst hjoined hopens
      obtain ⟨statement, hstatement, hsole⟩ := hopens
      rw [find?_isTrivia_eq hfirst] at hstatement
      exact ⟨statement, hstatement, hsole.beginsWithText⟩

/-! ### All bodies -/

theorem docstring_of_headerOf? {owner : ObjectKind} {decorators : List String} {d : Tree}
    {header : Header} (hdefinition : d.isDefinition)
    (h : headerOf? source owner decorators d = some header) :
    header.docstring = docstringOf? source (bodyOf d) := by
  obtain ⟨name, -, rfl⟩ := Option.map_eq_some_iff.1 h
  rw [bodyOf, if_pos hdefinition]
  cases d.child? .body <;> rfl

/-- Every object has the docstring that the body of its owner begins with. -/
theorem docstrings_modelOf (file : String) (h : IsStatement tree) (hmodule : tree.isKind .module) :
    List.Forall₂ (fun owner o => IsObjectOf source owner o ∧
      o.docstring = docstringOf? source (bodyOf owner)) (owners tree)
      (modelOf file source tree).objects.toList := by
  have hdefinition : tree.isDefinition = false := not_isDefinition_of_isKind_module hmodule
  refine forall₂_owners_modelOf file h hmodule (fun _ _ _ ho => ⟨ho.1.withChildren _, ho.2⟩)
    ⟨isObjectOf_moduleObject file _ _ hdefinition, ?_⟩ fun entry d o _ hd ho => ?_
  · rw [bodyOf, hdefinition]
    rfl
  · obtain ⟨place, decorators, hheader, -⟩ := hd.origin
    refine ⟨(isObjectOf_of_represents hd ho).1, ?_⟩
    rw [ho.docstring, docstring_of_headerOf? hd.isDefinition hheader]

/-- Docstrings are recorded as they are meant if and only if every body shows the text that it opens
with. -/
theorem recordsDocstrings_iff {file source : String} {m : CodeModel}
    (h : extract file source = .ok m) :
    RecordsDocstrings source.toList (parse source.toList) m ↔
      ∀ owner ∈ owners (parse source.toList), ShowsText source.toList owner := by
  let tree := parse source.toList
  obtain ⟨hproblem, hm⟩ := extract_eq_ok_iff.1 h
  obtain ⟨hstatement, hmodule⟩ := isStatement_parse hproblem
  have hobjects : List.Forall₂ (fun owner o => IsObjectOf source.toList owner o ∧
      o.docstring = docstringOf? source.toList (bodyOf owner)) (owners tree) m.objects.toList := by
    rw [hm]
    exact docstrings_modelOf file hstatement hmodule
  have hall : List.Forall₂ (fun owner o => IsObjectOf source.toList owner o ∧
      (o.docstring.isSome ↔ OpensWithText source.toList owner)) (owners tree) m.objects.toList ↔
      ∀ owner ∈ owners tree, ShowsText source.toList owner := by
    refine forall₂_congr_left hobjects fun owner _ o ho => ?_
    rw [ho.2, isSome_docstringOf?_iff_opensWithText_iff]
    exact and_iff_right ho.1
  refine ⟨fun hrecords => hall.1 hrecords.objects, fun hshows => ⟨?_, hall.2 hshows⟩⟩
  have hbody : bodyOf tree = tree.children := by
    rw [bodyOf, not_isDefinition_of_isKind_module hmodule]
    rfl
  have hmodel : m.docstring = docstringOf? source.toList (bodyOf tree) := by
    rw [hm, hbody]
    rfl
  rw [hmodel]
  exact isSome_docstringOf?_iff_opensWithText_iff.2 (hshows tree List.mem_cons_self)

/-- A text behind a comment, two in a row, and one that is blank. -/
theorem recordsDocstrings_of_texts :
    let source := "# c\n\"m\"\nclass C:\n    'a' r\"\"\"b\"\"\"\n    def f(self):\n        ' '\n"
    ∃ m, extract "t.py" source = .ok m ∧
      RecordsDocstrings source.toList (parse source.toList) m ∧
      m.objects.toList.map (·.docstring) = [some "m", some "ab", none] := by
  intro source
  have hextract : extract "t.py" source =
      .ok (modelOf "t.py" source.toList (parse source.toList)) :=
    extract_eq_ok_iff.2 ⟨by decide +kernel, rfl⟩
  exact ⟨_, hextract, (recordsDocstrings_iff hextract).2 (by decide +kernel), by decide +kernel⟩

/-- The first of two expressions is taken for a docstring. -/
theorem not_recordsDocstrings_of_tuple :
    let source := "\"a\", 1\n"
    ∃ m, extract "t.py" source = .ok m ∧
      ¬RecordsDocstrings source.toList (parse source.toList) m := by
  intro source
  have hextract : extract "t.py" source =
      .ok (modelOf "t.py" source.toList (parse source.toList)) :=
    extract_eq_ok_iff.2 ⟨by decide +kernel, rfl⟩
  refine ⟨_, hextract, fun h => ?_⟩
  exact absurd (h.model.1 (by decide +kernel)) (by decide +kernel)

end SourceCorpus.Extraction
