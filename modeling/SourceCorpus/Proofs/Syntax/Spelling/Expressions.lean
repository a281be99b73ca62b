import SourceCorpus.Proofs.Syntax.Spelling.Reading

/-!
Expressions keep dotted names spelled. Main statement: an operand with the members, calls and
subscripts applied to it is one node that reaches from its first token to its last.
-/

namespace SourceCorpus.Syntax

open SourceCorpus.Syntax.Tree

namespace Parse

variable {self : Rule → Parse Unit} {source : List Char} {n : Nat} {l : Lookahead} {m : Mark}
  {kind : Kind}

theorem keeps_moreItems {item : Parse Unit} (h : Keeps source n item) (closer : Sign) :
    Keeps source n (moreItems item closer) := by
  refine .peeking fun l hl => .ite (fun _ => .taking hl.after fun _ => .done _) fun _ => ?_
  refine .bind (.repeated (.peeking fun l hl => ?_)) fun _ => .done _
  refine .ite (fun _ => .taking hl.after fun _ => .done _) fun _ => .ite (fun _ => ?_) fun _ => ?_
  · refine .taking hl.after fun _ => .peeking fun next hnext => .ite (fun _ => ?_) fun _ => ?_
    · exact .taking hnext.after fun _ => .done _
    · exact h.bind fun _ => .done _
  · exact runs_fail _

theorem keeps_restarLone (count : Nat) : Keeps source n (mapSince count Tree.restarLone) :=
  keeps_mapSince count fun _ h => h.restarLone

section

variable (hself : ∀ rule n, Keeps source n (self rule))
include hself

theorem keeps_expressionList (follow : Expected) :
    Keeps source n (expressionList self follow) := by
  refine .peeking fun l _ => Keeps.mark fun m _ => (hself _ _).bind fun _ => ?_
  refine .peeking fun l hl => .ite (fun _ => ?_) fun _ => .done _
  refine .bind (.repeated (.peeking fun l hl => .ite (fun _ => ?_) fun _ => .done _)) fun _ =>
    keeps_close rfl rfl
  refine .taking hl.after fun _ => .peeking fun _ _ => .ite (fun _ => ?_) fun _ => .done _
  exact (hself _ _).bind fun _ => .done _

theorem keeps_yieldExpression (hl : l.Fits source) (follow : Expected) :
    Keeps source n (yieldExpression self l follow) := by
  refine Keeps.mark fun m _ => .taking hl.after fun _ => .peeking fun next hnext => ?_
  refine .ite (fun _ => ?_) fun _ => .ite (fun _ => ?_) fun _ => keeps_close rfl rfl
  · exact .taking hnext.after fun _ => (hself _ _).bind fun _ => keeps_close rfl rfl
  · exact (keeps_expressionList hself follow).bind fun _ => keeps_close rfl rfl

theorem keeps_splat (hkind : kind.isTrivia = false) (hdottable : kind.isDottable = false)
    (hl : l.Fits source) : Keeps source n (splat self kind l) := by
  refine Keeps.mark fun m _ => .taking hl.after fun _ => .peeking fun _ _ => ?_
  exact .optional (runs_fail _) ((hself _ _).bind fun _ => keeps_close hkind hdottable)

/-! ### Comprehensions -/

theorem keeps_loopTargets : Keeps source n (loopTargets self) := by
  refine .peeking fun l _ => Keeps.mark fun m _ => (hself _ _).bind fun _ => ?_
  refine .peeking fun l hl => .ite (fun _ => ?_) fun _ => keeps_retarget _
  refine .bind (.repeated (.peeking fun l hl => .ite (fun _ => ?_) fun _ => .done _)) fun _ =>
    (keeps_retarget _).bind fun _ => keeps_close rfl rfl
  refine .taking hl.after fun _ => .peeking fun _ _ => .ite (fun _ => ?_) fun _ => .done _
  exact (hself _ _).bind fun _ => .done _

theorem keeps_forInClause (hl : l.Fits source) : Keeps source n (forInClause self l) := by
  refine Keeps.mark fun m _ => .optional (keeps_take hl.after) ((keeps_keyword _ _).bind fun _ => ?_)
  refine (keeps_inRole (keeps_loopTargets hself)).bind fun _ => (keeps_keyword _ _).bind fun _ => ?_
  refine .bind (.repeated ?_) fun _ => keeps_close rfl rfl
  refine (keeps_inRole (hself _ _)).bind fun _ => .peeking fun l hl => ?_
  refine .ite (fun _ => .taking hl.after fun _ => ?_) fun _ => .done _
  exact .peeking fun _ _ => .done _

theorem keeps_comprehensionClauses : Keeps source n (comprehensionClauses self) := by
  refine .repeated (.peeking fun l hl => .ite (fun _ => ?_) fun _ => .ite (fun _ => ?_) fun _ => ?_)
  · exact (keeps_forInClause hself hl).bind fun _ => .done _
  · refine Keeps.mark fun m _ => .taking hl.after fun _ => (hself _ _).bind fun _ => ?_
    exact (keeps_close rfl rfl).bind fun _ => .done _
  · exact .done _

/-! ### Brackets -/

theorem keeps_element : Keeps source n (element self) :=
  .peeking fun _ hl => .ite (fun _ => keeps_yieldExpression hself hl _) fun _ =>
    .ite (fun _ => keeps_splat hself rfl rfl hl) fun _ => hself _ _

/-- A comprehension behind its body. -/
theorem runs_comprehension (closer : Sign) (hkind : kind.isTrivia = false)
    (hdottable : kind.isDottable = false) :
    Runs (Ready source m.count) (do
        comprehensionClauses self
        sign closer .bracketed
        close m kind) (Spanned source m) :=
  (keeps_comprehensionClauses hself).bind fun _ => (keeps_sign _ _).bind fun _ =>
    runs_close_spans hkind hdottable

theorem makes_parenthesized (hl : l.Fits source) : Makes source l (parenthesized self l) := by
  refine .mark fun m _ => .taking hl.after fun _ => .peeking fun first hfirst => ?_
  refine .ite (fun _ => .taking hfirst.after fun _ => runs_close_spans rfl rfl) fun _ => ?_
  refine (keeps_inRole (keeps_element hself)).bind fun _ => .peeking fun _ _ => ?_
  refine .ite (fun _ => runs_comprehension hself _ rfl rfl) fun _ => ?_
  refine (keeps_moreItems (keeps_element hself) _).bind fun _ => ?_
  refine .ite (fun _ => runs_close_spans rfl rfl) fun _ => ?_
  exact (keeps_restarLone _).bind fun _ => runs_close_spans rfl rfl

theorem makes_listDisplay (hl : l.Fits source) : Makes source l (listDisplay self l) := by
  refine .mark fun m _ => .taking hl.after fun _ => .peeking fun first hfirst => ?_
  refine .ite (fun _ => .taking hfirst.after fun _ => runs_close_spans rfl rfl) fun _ => ?_
  refine (keeps_inRole (keeps_element hself)).bind fun _ => .peeking fun _ _ => ?_
  refine .ite (fun _ => runs_comprehension hself _ rfl rfl) fun _ => ?_
  refine (keeps_moreItems (keeps_element hself) _).bind fun _ => ?_
  exact .optional (keeps_restarLone _) (runs_close_spans rfl rfl)

theorem keeps_pairRest : Keeps source m.count (pairRest self m) :=
  (keeps_sign _ _).bind fun _ => (keeps_inRole (hself _ _)).bind fun _ => keeps_close rfl rfl

theorem keeps_dictionaryItem : Keeps source n (dictionaryItem self) := by
  refine .peeking fun l hl => .ite (fun _ => keeps_splat hself rfl rfl hl) fun _ => ?_
  exact Keeps.mark fun m _ => (hself _ _).bind fun _ => keeps_pairRest hself

theorem makes_dictionaryOrSet (hl : l.Fits source) : Makes source l (dictionaryOrSet self l) := by
  refine .mark fun m _ => .taking hl.after fun _ => .peeking fun first hfirst => ?_
  have hdictionary : Runs (Ready source m.count) (do
      let _ ← moreItems (dictionaryItem self) .closeBrace
      close m .dictionary) (Spanned source m) :=
    (keeps_moreItems (keeps_dictionaryItem hself) _).bind fun _ => runs_close_spans rfl rfl
  refine .ite (fun _ => .taking hfirst.after fun _ => runs_close_spans rfl rfl) fun _ => ?_
  refine .ite (fun _ => ?_) fun _ => .ite (fun _ => ?_) fun _ => ?_
  · exact .taking hfirst.after fun _ => (keeps_sign _ _).bind fun _ => runs_close_spans rfl rfl
  · exact (keeps_dictionaryItem hself).bind fun _ => hdictionary
  · refine .marking fun e _ he => (keeps_inRole (keeps_element hself)).bind fun _ => ?_
    refine .peeking fun next _ => .ite (fun _ => ?_) fun _ => .outward he ?_
    · refine (keeps_pairRest hself).bind fun _ => .outward he (.peeking fun _ _ => ?_)
      exact .ite (fun _ => runs_comprehension hself _ rfl rfl) fun _ => hdictionary
    · refine .ite (fun _ => runs_comprehension hself _ rfl rfl) fun _ => ?_
      refine (keeps_moreItems (keeps_element hself) _).bind fun _ => ?_
      exact .optional (keeps_restarLone _) (runs_close_spans rfl rfl)

/-! ### Arguments and subscripts -/

theorem keeps_argument : Keeps source n (argument self) := by
  refine .peeking fun l hl => ?_
  split
  · exact (keeps_splat hself rfl rfl hl).bind fun _ => .done _
  · exact (keeps_splat hself rfl rfl hl).bind fun _ => .done _
  next htoken =>
    refine .get fun before hbefore => .taking hl.after fun _ => .peeking fun next _ => ?_
    refine .bind (.set hbefore) fun _ => .ite (fun _ => ?_) fun _ => (hself _ _).bind fun _ => .done _
    refine Keeps.mark fun m _ => (keeps_inRole (makes_identifier hl htoken).keeps).bind fun _ => ?_
    refine (keeps_sign _ _).bind fun _ => (keeps_inRole (hself _ _)).bind fun _ => ?_
    exact (keeps_close rfl rfl).bind fun _ => .done _
  · exact (hself _ _).bind fun _ => .done _

theorem keeps_argumentList (generator : Bool) (hl : l.Fits source) :
    Keeps source n (argumentList self generator l) := by
  refine Keeps.mark fun m _ => .taking hl.after fun _ => .peeking fun first hfirst => ?_
  refine .ite (fun _ => .taking hfirst.after fun _ => keeps_close rfl rfl) fun _ => ?_
  refine .ite (fun _ => .taking hfirst.after fun _ => ?_) fun _ => ?_
  · exact (keeps_sign _ _).bind fun _ => keeps_close rfl rfl
  · have hitem : Keeps source m.count (do let _ ← argument self) :=
      (keeps_argument hself).bind fun _ => .done _
    refine (keeps_argument hself).bind fun _ => .peeking fun _ _ => .ite (fun _ => ?_) fun _ => ?_
    · exact (keeps_withRole _ _).bind fun _ => (runs_comprehension hself _ rfl rfl).imp fun _ h => h.1
    · exact (keeps_moreItems hitem _).bind fun _ => keeps_close rfl rfl

theorem keeps_subscriptItem : Keeps source n (subscriptItem self) := by
  refine .peeking fun l _ => Keeps.mark fun m _ => .optional (hself _ _) ?_
  refine .peeking fun colon hcolon => .ite (fun _ => ?_) fun _ => .done _
  refine .taking hcolon.after fun _ => .peeking fun _ _ => .optional (hself _ _) ?_
  refine .peeking fun colon hcolon => .ite (fun _ => ?_) fun _ => keeps_close rfl rfl
  refine .taking hcolon.after fun _ => .peeking fun _ _ => ?_
  exact .optional (hself _ _) (keeps_close rfl rfl)

theorem keeps_subscriptItems : Keeps source n (do
    subscriptItem self
    let _ ← moreItems (subscriptItem self) .closeBracket) :=
  (keeps_subscriptItem hself).bind fun _ =>
    (keeps_moreItems (keeps_subscriptItem hself) _).bind fun _ => .done _

/-- The operand with one more member, call or subscript is one node again. -/
theorem runs_postfixStep_spans (follow : Expected) :
    Runs (Spanned source m) (postfixStep self follow m) (Spanned source m) := by
  intro s a s' hs hp
  have hstep : Gives (Passes source m.count s) (postfixStep self follow m) fun _ =>
      Spanned source m := by
    refine (gives_peek follow s).bind fun l => ?_
    split
    next hdot =>
      rintro s' a s'' ⟨hpass, hl, hle⟩ hp
      -- Only a member access is read with the place of its object: the others are no dotted names.
      have hmember : Runs (fun s => Spanned source m s ∧
          s.stop.offset ≤ l.before.position.offset) (do
            (do
              mapSince m.count (·.withRole .object)
              take l)
            inRole .member identifier
            close m .memberAccess
            return true) (Spanned source m) :=
        (runs_object hl hdot).bind fun _ => runs_member.bind fun _ => runs_close_member.bind fun _ =>
          .done _
      exact hmember s' a s'' ⟨⟨hpass.ready, hs.2.of_passes hpass⟩, hpass.stop ▸ hle⟩ hp
    · rintro s' a s'' ⟨hpass, hl, hle⟩ hp
      have hcall : Runs (Ready source m.count) (do
          mapSince m.count (·.withRole .function)
          inRole .arguments (argumentList self true l)
          close m .call
          return true) (Spanned source m) :=
        (keeps_withRole _ _).bind fun _ => (keeps_inRole (keeps_argumentList hself true hl)).bind
          fun _ => (runs_close_spans rfl rfl).bind fun _ => .done _
      exact hcall s' a s'' hpass.ready hp
    · rintro s' a s'' ⟨hpass, hl, hle⟩ hp
      have hsubscript : Runs (Ready source m.count) (do
          mapSince m.count (·.withRole .value)
          take l
          inRole .subscript do
            subscriptItem self
            let _ ← moreItems (subscriptItem self) .closeBracket
          close m .subscript
          return true) (Spanned source m) :=
        (keeps_withRole _ _).bind fun _ => .taking hl.after fun _ =>
          (keeps_inRole (keeps_subscriptItems hself)).bind fun _ =>
            (runs_close_spans rfl rfl).bind fun _ => .done _
      exact hsubscript s' a s'' hpass.ready hp
    · rintro s' a s'' ⟨hpass, hl, hle⟩ hp
      cases hp
      exact ⟨hpass.ready, hs.2.of_passes hpass⟩
  exact hstep s a s' (.refl hs.1) hp

/-! ### Strings -/

omit hself in
theorem keeps_typeConversion : Keeps source n typeConversion := by
  refine .peeking fun l hl => ?_
  split
  · exact .ite (fun _ => (makes_leaf (hl.before.drop 2) rfl rfl).keeps) fun _ => .done _
  · exact .done _

theorem keeps_formatSpecifier : Keeps source n (formatSpecifier self) := by
  refine .peeking fun l hl => .ite (fun _ => Keeps.mark fun m _ => ?_) fun _ => .done _
  refine .taking (hl.before.drop 1) fun _ => .bind (.repeated ?_) fun _ => keeps_close rfl rfl
  refine .get fun s hs => ?_
  split
  · exact .get fun _ _ => runs_fail _
  · refine .ite (fun _ => ?_) fun _ => .ite (fun _ => .done _) fun _ => ?_
    · exact (hself _ _).bind fun _ => .done _
    · exact (keeps_skipChars 1).bind fun _ => .done _

theorem keeps_interpolation (nested : Bool) : Keeps source n (interpolation self nested) := by
  have hexpression {k : Nat} {first : Lookahead} (hfirst : first.Fits source) : Keeps source k (
      if first.isWord .yield then yieldExpression self first .bracketed
      else expressionList self .bracketed) :=
    .ite (fun _ => keeps_yieldExpression hself hfirst _) fun _ => keeps_expressionList hself _
  refine .inner fun before hbefore => .of_imp (Q := Ready source before.count) ?_ ?_
  · rintro s rfl
    exact hbefore
  · refine .get fun here _ => (keeps_skipChars 1).bind fun _ => .peeking fun first hfirst => ?_
    refine (keeps_inRole (hexpression hfirst)).bind fun _ => .peeking fun l hl => ?_
    refine .optional (keeps_take hl.after) (keeps_typeConversion.bind fun _ => ?_)
    refine (keeps_formatSpecifier hself).bind fun _ => (keeps_sign _ _).bind fun _ => ?_
    exact keeps_close (m := ⟨before.count, here.cursor.position⟩) (by cases nested <;> rfl)
      (by cases nested <;> rfl)

theorem makes_stringLiteral (hl : l.Fits source) (d : Delimiter) :
    Makes source l (stringLiteral self l d) := by
  refine .mark fun m _ => .taking hl.after fun _ => ?_
  refine .bind (Keeps.modify fun _ => ⟨rfl, rfl, rfl, rfl⟩) fun _ => ?_
  refine .bind (.repeated ?_) fun _ => runs_close_spans rfl rfl
  refine .get fun s hs => ?_
  split
  · exact (keeps_skipChars _).bind fun _ => .done _
  · refine (keeps_skipChars _).bind fun _ => ?_
    exact .bind (Keeps.modify fun _ => ⟨rfl, rfl, rfl, rfl⟩) fun _ => .done _
  · exact (hself _ _).bind fun _ => .done _
  · exact runs_fail _

theorem makes_strings (hl : l.Fits source) (d : Delimiter) (follow : Expected) :
    Makes source l (strings self l d follow) := by
  refine .begin fun m hm => ((makes_stringLiteral hself hl d).first hm).bind fun _ => ?_
  refine .peeking_spanned fun next _ => ?_
  split
  · refine .of_spanned (.bind (.repeated (.peeking fun l hl => ?_)) fun _ => runs_close_spans rfl rfl)
    split
    · exact (makes_stringLiteral hself hl _).keeps.bind fun _ => .done _
    · exact .done _
  · exact .done _

/-! ### Operands -/

theorem makes_atom (hl : l.Fits source) (level : Nat) (follow : Expected) :
    Makes source l (atom self level follow l) := by
  have hleaf {kind : Kind} (hkind : kind.isTrivia = false) (hdottable : kind.isDottable = false) :
      Makes source l (do
        leaf kind l
        return true) := fun n =>
    (makes_leaf hl.after hkind hdottable n).bind fun _ => .done _
  unfold atom
  split
  case h_4 htoken =>
    refine .begin fun m hm => ((makes_identifier hl htoken).first hm).bind fun _ => ?_
    refine .peeking_spanned fun next hnext => .ite (fun _ => .of_spanned ?_) fun _ => .done _
    refine (keeps_withRole _ _).bind fun _ => .taking hnext.after fun _ => ?_
    refine (keeps_inRole (hself _ _)).bind fun _ => (runs_close_spans rfl rfl).bind fun _ => .done _
  case h_8 => exact fun n => (makes_parenthesized hself hl n).bind fun _ => .done _
  case h_9 => exact fun n => (makes_listDisplay hself hl n).bind fun _ => .done _
  case h_10 => exact fun n => (makes_dictionaryOrSet hself hl n).bind fun _ => .done _
  case h_11 => exact fun n => (makes_strings hself hl _ follow n).bind fun _ => .done _
  case h_12 => exact fun _ => runs_fail _
  all_goals exact hleaf rfl rfl

theorem makes_primary (hl : l.Fits source) (level : Nat) (follow : Expected) :
    Makes source l (primary self level follow l) := by
  refine .begin fun m hm => ((makes_atom hself hl level follow).first hm).bind fun _ => ?_
  exact .ite (fun _ => .repeated (runs_postfixStep_spans hself follow)) fun _ => .done _

theorem keeps_starredOperand (hl : l.Fits source) (follow : Expected) :
    Keeps source n (starredOperand self follow l) := by
  refine .get fun before _ => .taking hl.after fun _ => .peeking fun next hnext => ?_
  refine (makes_primary hself hnext _ _).keeps.bind fun _ => (keeps_since _).bind fun ts => ?_
  refine (Keeps.forIn (fun t _ => ?_) _ _).bind fun _ => ?_
  · split
    · exact (runs_fail _).bind fun _ => .done _
    · exact Runs.bind (.done _) fun _ => .done _
  · refine keeps_mapSince _ fun t ht => ?_
    cases hstar : t.starLeading? l.place with
    | none => exact ht
    | some t' => exact (ht.isStarredName hstar).spelled

/-! ### Parameters -/

theorem keeps_typeBounds (follow : Expected) : Keeps source n (typeBounds self follow) := by
  refine .repeated (.peeking fun l hl => .ite (fun _ => ?_) fun _ => .done _)
  exact .taking hl.after fun _ => (hself _ _).bind fun _ => .done _

theorem keeps_typeHint (bounded : Bool) (follow : Expected) :
    Keeps source n (typeHint self bounded follow) := by
  refine .peeking fun l _ => Keeps.mark fun m _ => (hself _ _).bind fun _ => ?_
  exact .optional (keeps_typeBounds hself follow) (keeps_close rfl rfl)

theorem keeps_parameterRest (isLambda mayType mayDefault : Bool) :
    Keeps source m.count (parameterRest self m isLambda mayType mayDefault) := by
  have hvalue {follow : Expected} {kind : Kind} (hkind : kind.isTrivia = false)
      (hdottable : kind.isDottable = false) : Keeps source m.count (do
        inRole .value (expressionIn self follow)
        close m kind) :=
    (keeps_inRole (hself _ _)).bind fun _ => keeps_close hkind hdottable
  refine .peeking fun l hl => .ite (fun _ => ?_) fun _ => .ite (fun _ => ?_) fun _ => .done _
  · refine .taking hl.after fun _ => (keeps_inRole (keeps_typeHint hself true _)).bind fun _ => ?_
    refine .peeking fun l hl => .ite (fun _ => ?_) fun _ => keeps_close rfl rfl
    refine (keeps_mapSince _ fun t ht => ?_).bind fun _ => .taking hl.after fun _ => hvalue rfl rfl
    split
    · exact ht.withRole _
    · exact ht
  · exact (keeps_withRole _ _).bind fun _ => .taking hl.after fun _ => hvalue rfl rfl

theorem keeps_parameter (isLambda : Bool) : Keeps source n (parameter self isLambda) := by
  refine .peeking fun l hl => Keeps.mark fun m _ => ?_
  split
  · refine .get fun before hbefore => .taking hl.after fun _ => .peeking fun next hnext => ?_
    split
    next htoken =>
      refine (makes_identifier hnext htoken).keeps.bind fun _ => (keeps_close rfl rfl).bind fun _ => ?_
      exact keeps_parameterRest hself _ _ _
    · exact .bind (.set hbefore) fun _ => (makes_leaf hl.after rfl rfl).keeps
  · refine .taking hl.after fun _ => keeps_identifier.bind fun _ => ?_
    refine (keeps_close rfl rfl).bind fun _ => ?_
    exact keeps_parameterRest hself _ _ _
  · exact (makes_leaf hl.after rfl rfl).keeps
  · refine (makes_parenthesized hself hl).keeps.bind fun _ => (keeps_retarget _).bind fun _ => ?_
    exact keeps_parameterRest hself _ _ _
  next htoken =>
    exact (makes_identifier hl htoken).keeps.bind fun _ => keeps_parameterRest hself _ _ _
  · exact runs_fail _

theorem keeps_parameters : Keeps source n (parameters self) := by
  refine .peeking fun l hl => .optional (runs_fail _) (Keeps.mark fun m _ => ?_)
  refine .taking hl.after fun _ => ?_
  refine .bind (.repeated (.peeking fun l hl => .ite (fun _ => ?_) fun _ => ?_)) fun _ =>
    keeps_close rfl rfl
  · exact .taking hl.after fun _ => .done _
  · refine .ite (fun _ => .get fun _ _ => .throw_bind _ _) fun _ => ?_
    refine (keeps_parameter hself false).bind fun _ => .peeking fun l hl => ?_
    refine .ite (fun _ => .taking hl.after fun _ => .done _) fun _ => ?_
    refine .ite (fun _ => .taking hl.after fun _ => .done _) fun _ => ?_
    exact .ite (fun _ => .get fun _ _ => .throw _) fun _ => runs_fail _

theorem keeps_lambdaParameters : Keeps source n (lambdaParameters self) := by
  refine .peeking fun l _ => Keeps.mark fun m _ => .bind (.repeated ?_) fun _ => keeps_close rfl rfl
  refine (keeps_parameter hself true).bind fun _ => .peeking fun l hl => ?_
  refine .ite (fun _ => .taking hl.after fun _ => ?_) fun _ => .done _
  exact .peeking fun _ _ => .done _

theorem keeps_lambdaExpression (hl : l.Fits source) (level : Nat) (follow : Expected) :
    Keeps source n (lambdaExpression self level follow l) := by
  refine Keeps.mark fun m _ => .taking hl.after fun _ => .peeking fun _ _ => ?_
  refine .optional (keeps_inRole (keeps_lambdaParameters hself)) ((keeps_sign _ _).bind fun _ => ?_)
  exact (keeps_inRole (hself _ _)).bind fun _ => keeps_close rfl rfl

theorem keeps_awaitExpression (hl : l.Fits source) (level : Nat) (follow : Expected) :
    Keeps source n (awaitExpression self level follow l) := by
  refine Keeps.mark fun m _ => .get fun before hbefore => .taking hl.after fun _ => ?_
  refine .peeking fun next _ => .ite (fun _ => ?_) fun _ => .bind (.set hbefore) fun _ => ?_
  · exact (hself _ _).bind fun _ => keeps_close rfl rfl
  · exact (makes_primary hself hl level follow).keeps

theorem keeps_prefixed (hl : l.Fits source) (level : Nat) (follow : Expected) :
    Keeps source n (prefixed self level follow l) := by
  refine Keeps.mark fun m _ => ?_
  have hprimary : Keeps source m.count (primary self level follow l) :=
    (makes_primary hself hl level follow).keeps
  have hunary {kind : Kind} (hkind : kind.isTrivia = false) (hdottable : kind.isDottable = false)
      (level' : Nat) : Keeps source m.count (do
        take l
        self (.expression level' false follow)
        close m kind) :=
    .taking hl.after fun _ => (hself _ _).bind fun _ => keeps_close hkind hdottable
  split
  · exact .ite (fun _ => hunary rfl rfl _) fun _ => hprimary
  · exact .ite (fun _ => keeps_lambdaExpression hself hl level follow) fun _ => hprimary
  · exact keeps_awaitExpression hself hl level follow
  · exact hunary rfl rfl _
  · exact hunary rfl rfl _
  · exact hunary rfl rfl _
  · exact keeps_starredOperand hself hl follow
  · exact hprimary

/-! ### Operators -/

omit hself in
theorem keeps_comparisonOperator (hl : l.Fits source) :
    Keeps source n (comparisonOperator l) := by
  refine .taking hl.after fun _ => .ite (fun _ => ?_) fun _ => .ite (fun _ => ?_) fun _ => .done _
  · refine .peeking fun next hnext => .ite (fun _ => keeps_take hnext.after) fun _ => ?_
    exact .get fun _ _ => .throw _
  · exact .peeking fun next hnext => .ite (fun _ => keeps_take hnext.after) fun _ => .done _

theorem keeps_infixStep (level : Nat) (follow : Expected) :
    Keeps source m.count (infixStep self level follow m) := by
  have hclose {kind : Kind} (hkind : kind.isTrivia = false) (hdottable : kind.isDottable = false) :
      Keeps source m.count (do close m kind; return true) :=
    (keeps_close hkind hdottable).bind fun _ => .done _
  refine .peeking fun l hl => .ite (fun _ => .ite (fun _ => ?_) fun _ => .done _) fun _ => ?_
  · refine .bind (.repeated (.peeking fun l hl => .ite (fun _ => ?_) fun _ => .done _)) fun _ =>
      hclose rfl rfl
    exact (keeps_comparisonOperator hl).bind fun _ => (hself _ _).bind fun _ => .done _
  · have hoperator {level' : Nat} {kind : Kind} (hkind : kind.isTrivia = false)
        (hdottable : kind.isDottable = false) : Keeps source m.count (do
          take l
          self (.expression level' false follow)
          close m kind
          return true) :=
      .taking hl.after fun _ => (hself _ _).bind fun _ => hclose hkind hdottable
    split
    · split
      · exact .ite (fun _ => hoperator rfl rfl) fun _ => .done _
      · exact .done _
    · exact .ite (fun _ => hoperator rfl rfl) fun _ => .done _
    · exact .ite (fun _ => hoperator rfl rfl) fun _ => .done _
    · refine .ite (fun _ => .taking hl.after fun _ => (hself _ _).bind fun _ => ?_) fun _ => .done _
      exact (keeps_keyword _ _).bind fun _ => (hself _ _).bind fun _ => hclose rfl rfl
    · refine .ite (fun _ => .taking hl.after fun _ => .peeking fun next _ => ?_) fun _ => .done _
      refine .optional (runs_fail _) ((keeps_inRole ?_).bind fun _ => hclose rfl rfl)
      exact Keeps.mark fun target _ => (hself _ _).bind fun _ => keeps_close rfl rfl
    · exact .done _

theorem keeps_expression (level : Nat) (opened : Bool) (follow : Expected) :
    Keeps source n (expression self level opened follow) :=
  .peeking fun _ hl => Keeps.mark fun _ _ => (keeps_prefixed hself hl level follow).bind fun _ =>
    .repeated (keeps_infixStep hself level follow)

end

end Parse

end SourceCorpus.Syntax
