import Scrapscript.Grammar
import Scrapscript.Proofs.Grammar.Phrase
import Scrapscript.Proofs.Tree.Condensed

/-!
Two parses side by side. Cursors are *alike* if the grammar cannot tell them apart: their words are
of the same kinds, and where a line break matters both have one or neither has. All that the grammar
is made of takes alike cursors to alike ones and leaves the same skeletons behind.
-/

namespace Scrapscript

open Scrapscript.Tree (condensedOf)

namespace Word

/-- Whether an identifier and an equals sign come next. -/
def Declares (words : List Word) : Prop :=
  words.head?.map (·.token.kind) = some .ident ∧ words.tail.head?.map (·.token.kind) = some .equals

/-- Whether it matters if a line breaks between a word and those after it: a tag's name stands on
the line of its hash, and a declaration begins on a line of its own. -/
def Heeds (word : Word) (more : List Word) : Prop :=
  word.token.kind = .hash ∧ more.head?.map (·.token.kind) = some .ident ∨ Declares more

/-- Words of the same kinds, with the same line breaks where they matter. -/
inductive Alike : List Word → List Word → Prop
  | nil : Alike [] []
  | cons {word other : Word} {more others : List Word}
      (kind : word.token.kind = other.token.kind) (later : Alike more others)
      (breaks : Heeds word more →
        word.after.tokens.any Token.breaksLine = other.after.tokens.any Token.breaksLine) :
      Alike (word :: more) (other :: others)

namespace Alike

variable {words others : List Word}

theorem kind_head (alike : Alike words others) :
    words.head?.map (·.token.kind) = others.head?.map (·.token.kind) := by
  cases alike with
  | nil => rfl
  | cons kind later breaks => simp [kind]

theorem tail (alike : Alike words others) : Alike words.tail others.tail := by
  cases alike with
  | nil => exact .nil
  | cons kind later breaks => exact later

theorem length_eq (alike : Alike words others) : words.length = others.length := by
  induction alike with
  | nil => rfl
  | cons kind later breaks inductionHypothesis => simp [inductionHypothesis]

theorem isEmpty_eq (alike : Alike words others) : words.isEmpty = others.isEmpty := by
  cases alike <;> rfl

end Alike

end Word

namespace Cursor

structure Alike (cursor other : Cursor) : Prop where
  words : Word.Alike cursor.words other.words
  breaks : Word.Declares cursor.words → cursor.afterLineBreak = other.afterLineBreak
  errors : cursor.errors.length = other.errors.length
  tooDeep : cursor.tooDeep = other.tooDeep

namespace Alike

variable {cursor other : Cursor}

theorem kind? (alike : cursor.Alike other) : cursor.kind? = other.kind? :=
  alike.words.kind_head

theorem following? (alike : cursor.Alike other) : cursor.following? = other.following? :=
  alike.words.tail.kind_head

theorem atEnd (alike : cursor.Alike other) : cursor.atEnd = other.atEnd :=
  alike.words.isEmpty_eq

theorem sees (alike : cursor.Alike other) (kind : TokenKind) :
    cursor.sees kind = other.sees kind := by
  rw [Cursor.sees, Cursor.sees, alike.kind?]

theorem seesArgument (alike : cursor.Alike other) : cursor.seesArgument = other.seesArgument := by
  rw [Cursor.seesArgument, Cursor.seesArgument, alike.kind?]

theorem seesNegative (alike : cursor.Alike other) : cursor.seesNegative = other.seesNegative := by
  rw [Cursor.seesNegative, Cursor.seesNegative, alike.sees, alike.following?]

theorem seesExpression (alike : cursor.Alike other) :
    cursor.seesExpression = other.seesExpression := by
  rw [Cursor.seesExpression, Cursor.seesExpression, alike.seesArgument, alike.sees,
    alike.seesNegative]

theorem seesMore (alike : cursor.Alike other) : Grammar.seesMore cursor = Grammar.seesMore other := by
  simp only [Grammar.seesMore, alike.atEnd, alike.sees]

theorem operatorAt? (alike : cursor.Alike other) (power : Nat) :
    Grammar.operatorAt? power cursor = Grammar.operatorAt? power other := by
  rw [Grammar.operatorAt?, Grammar.operatorAt?, alike.kind?]

/-- The start of the next declaration is the one place where an application heeds line breaks. -/
theorem seesDeclaration (alike : cursor.Alike other) :
    Grammar.seesDeclaration cursor = Grammar.seesDeclaration other := by
  by_cases declares : Word.Declares cursor.words
  · simp only [Grammar.seesDeclaration, alike.breaks declares, alike.sees, alike.following?]
  · have unseen (breaks : Bool) :
        (breaks && cursor.sees .ident && cursor.following? == some .equals) = false := by
      refine Bool.eq_false_iff.mpr fun seen => ?_
      simp only [Bool.and_eq_true] at seen
      exact declares ⟨eq_of_beq seen.1.2, eq_of_beq seen.2⟩
    rw [Grammar.seesDeclaration, Grammar.seesDeclaration, ← alike.sees, ← alike.following?, unseen,
      unseen]

theorem settled (alike : cursor.Alike other) : cursor.settled.Alike other.settled :=
  ⟨alike.words, fun _ => rfl, alike.errors, alike.tooDeep⟩

theorem advanced (alike : cursor.Alike other) : cursor.advanced.Alike other.advanced := by
  have words := alike.words
  cases next : cursor.words with
  | nil =>
      rw [next] at words
      cases otherNext : other.words with
      | nil => simpa [Cursor.advanced, next, otherNext] using alike.settled
      | cons word more => simp [otherNext] at words; cases words
  | cons word more =>
      rw [next] at words
      generalize otherNext : other.words = others at words
      cases words with
      | cons kind later breaks =>
          rw [advanced_eq next, advanced_eq otherNext]
          exact ⟨later, fun declares => breaks (.inr declares), alike.errors, alike.tooDeep⟩

/-- The line breaks after a hash matter as well. -/
theorem afterLineBreak_advanced (alike : cursor.Alike other) (hash : cursor.sees .hash = true)
    (ident : cursor.advanced.sees .ident = true) :
    cursor.advanced.afterLineBreak = other.advanced.afterLineBreak := by
  obtain ⟨word, more, next, isHash⟩ := sees_iff.mp hash
  have words := alike.words
  rw [next] at words
  generalize otherNext : other.words = others at words
  cases words with
  | cons kind later breaks =>
      rw [advanced_eq next] at ident ⊢
      rw [advanced_eq otherNext]
      exact breaks (.inl ⟨isHash, eq_of_beq ident⟩)

theorem report (alike : cursor.Alike other) (fault otherFault : SyntaxFault)
    (start stop otherStart otherStop : Nat) :
    (cursor.report fault start stop).Alike (other.report otherFault otherStart otherStop) :=
  ⟨alike.words, alike.breaks, by simp [alike.errors], alike.tooDeep⟩

end Alike

end Cursor

/-- Siblings with the same skeletons, and alike cursors after them. -/
structure Placement.Alike (placement other : Placement) : Prop where
  trees : condensedOf Token.unspelled placement.trees = condensedOf Token.unspelled other.trees
  rest : placement.rest.Alike other.rest

/-- Attempts that end alike. -/
inductive Outcome.Alike : Outcome → Outcome → Prop
  | found {node other : Tree} {rest otherRest : Cursor}
      (same : condensedOf Token.unspelled [node] = condensedOf Token.unspelled [other])
      (alike : rest.Alike otherRest) : Alike (.found node rest) (.found other otherRest)
  | absent {rest otherRest : Cursor} (alike : rest.Alike otherRest) :
      Alike (.absent rest) (.absent otherRest)
  | cut {node other : Tree} {rest otherRest : Cursor}
      (same : condensedOf Token.unspelled [node] = condensedOf Token.unspelled [other])
      (alike : rest.Alike otherRest) : Alike (.cut node rest) (.cut other otherRest)

/-- A phrase that does the same at alike cursors. -/
def Phrase.Uniform (phrase : Phrase) : Prop :=
  ∀ ⦃cursor other : Cursor⦄, cursor.Alike other → (phrase cursor).Alike (phrase other)

/-- A rule that ends in the same way at alike cursors. -/
def Rule.Uniform (rule : Rule) : Prop :=
  ∀ ⦃cursor other : Cursor⦄, cursor.Alike other → (rule cursor).Alike (rule other)

/-- A condition that does not tell alike cursors apart. -/
def Cursor.Blind (condition : Cursor → Bool) : Prop :=
  ∀ ⦃cursor other : Cursor⦄, cursor.Alike other → condition cursor = condition other

namespace Cursor

theorem blind_sees (kind : TokenKind) : Blind (·.sees kind) := by
  intro cursor other alike
  exact alike.sees kind

theorem blind_seesExpression : Blind (·.seesExpression) := by
  intro cursor other alike
  exact alike.seesExpression

theorem blind_seesMore : Blind Grammar.seesMore := by
  intro cursor other alike
  exact alike.seesMore

theorem blind_inside : Blind (! ·.atEnd) := by
  intro cursor other alike
  simp only [alike.atEnd]

end Cursor

namespace Phrase

variable {phrase : Phrase} {phrases : List Phrase} {condition : Cursor → Bool} {rule : Rule}

theorem blanks_uniform : blanks.Uniform := by
  intro cursor other alike
  exact ⟨by simp [blanks], alike.settled⟩

theorem take_uniform : take.Uniform := by
  intro cursor other alike
  have rest := alike.advanced
  have words := alike.words
  unfold take
  cases next : cursor.words with
  | nil =>
      rw [next] at words
      generalize otherNext : other.words = others at words
      cases words
      exact blanks_uniform alike
  | cons word more =>
      rw [next] at words
      generalize otherNext : other.words = others at words
      cases words with
      | cons kind later breaks => exact ⟨by simp [Token.unspelled, kind], rest⟩

theorem nil_uniform : (sequence []).Uniform := by
  intro cursor other alike
  exact ⟨rfl, alike⟩

theorem Uniform.followedBy (uniform : phrase.Uniform) (others : (sequence phrases).Uniform) :
    (sequence (phrase :: phrases)).Uniform := by
  intro cursor other alike
  have first := uniform alike
  have second := others first.rest
  exact ⟨by simp [sequence, first.trees, second.trees], second.rest⟩

theorem Uniform.only (uniform : phrase.Uniform) : (sequence [phrase]).Uniform :=
  uniform.followedBy nil_uniform

theorem Uniform.when (uniform : phrase.Uniform) (blind : Cursor.Blind condition) :
    (Phrase.when condition phrase).Uniform := by
  intro cursor other alike
  unfold Phrase.when
  rw [blind alike]
  cases condition other with
  | true => exact uniform alike
  | false => exact ⟨rfl, alike⟩

/-- A choice between two phrases. -/
theorem Uniform.ite {otherwise : Phrase} (uniform : phrase.Uniform)
    (otherUniform : otherwise.Uniform) (blind : Cursor.Blind condition) :
    Uniform fun cursor => if condition cursor then phrase cursor else otherwise cursor := by
  intro cursor other alike
  simp only [blind alike]
  cases condition other with
  | true => exact uniform alike
  | false => exact otherUniform alike

theorem Uniform.repeated (uniform : phrase.Uniform) (blind : Cursor.Blind condition)
    {rounds otherRounds : List Word} (same : rounds.length = otherRounds.length)
    {cursor other : Cursor} (alike : cursor.Alike other) :
    (Phrase.repeated condition phrase rounds cursor).Alike
      (Phrase.repeated condition phrase otherRounds other) := by
  induction rounds generalizing otherRounds cursor other with
  | nil =>
      cases otherRounds with
      | nil => exact ⟨rfl, alike⟩
      | cons round otherRounds => simp at same
  | cons round rounds inductionHypothesis =>
      cases otherRounds with
      | nil => simp at same
      | cons otherRound otherRounds =>
          simp only [Phrase.repeated, blind alike]
          cases condition other with
          | false => exact ⟨rfl, alike⟩
          | true =>
              have first := uniform alike
              have second := inductionHypothesis (Nat.succ.inj same) first.rest
              exact ⟨by simp [first.trees, second.trees], second.rest⟩

theorem Uniform.many (uniform : phrase.Uniform) (blind : Cursor.Blind condition) :
    (Phrase.many condition phrase).Uniform := by
  intro cursor other alike
  exact uniform.repeated blind alike.words.length_eq alike

theorem Uniform.enclose (uniform : phrase.Uniform) (kind : NodeKind) :
    (Phrase.enclose kind phrase).Uniform := by
  intro cursor other alike
  have inside := uniform alike.settled
  exact ⟨by simp [Phrase.enclose, inside.trees], inside.rest⟩

/-- An error is placed whatever it says. -/
theorem missing_alike {cursor other : Cursor} (fault otherFault : SyntaxFault)
    (alike : cursor.Alike other) : (missing fault cursor).Alike (missing otherFault other) :=
  ⟨rfl, alike.report ..⟩

theorem missing_uniform (fault : SyntaxFault) : (missing fault).Uniform := by
  intro cursor other alike
  exact missing_alike fault fault alike

theorem reject_alike {cursor other : Cursor} (fault otherFault : SyntaxFault)
    (alike : cursor.Alike other) : (reject fault cursor).Alike (reject otherFault other) :=
  take_uniform.enclose .error (alike.report ..)

theorem expect_uniform (kind : TokenKind) (fault : SyntaxFault) : (expect kind fault).Uniform :=
  take_uniform.ite (missing_uniform fault) (Cursor.blind_sees kind)

end Phrase

namespace Rule

variable {rule : Rule} {condition : Cursor → Bool} {phrase : Phrase}

theorem Uniform.require (uniform : rule.Uniform) (fault : SyntaxFault) :
    (Phrase.require rule fault).Uniform := by
  intro cursor other alike
  have ended := uniform alike
  unfold Phrase.require
  generalize rule cursor = outcome at ended
  generalize rule other = otherOutcome at ended
  cases ended with
  | found same rest => exact ⟨by simp [same], rest⟩
  | absent rest => exact ⟨by simp [Phrase.missing], rest.report ..⟩
  | @cut node otherNode _ _ same rest =>
      refine ⟨?_, rest.report ..⟩
      simp only [Phrase.missing, Tree.condensedOf_append, Tree.condensedOf_blanks]
      rw [Tree.condensedOf_cons _ node, Tree.condensedOf_cons _ otherNode, same]

theorem Uniform.allow (uniform : rule.Uniform) : (Phrase.allow rule).Uniform := by
  intro cursor other alike
  have ended := uniform alike
  unfold Phrase.allow
  generalize rule cursor = outcome at ended
  generalize rule other = otherOutcome at ended
  cases ended with
  | found same rest => exact ⟨by simp [same], rest⟩
  | absent rest => exact ⟨by simp, rest⟩
  | cut same rest => exact ⟨by simp [same], rest⟩

theorem nothing_uniform : nothing.Uniform := by
  intro cursor other alike
  exact .absent alike.settled

theorem Uniform.settled (uniform : rule.Uniform) : (Rule.settled rule).Uniform := by
  intro cursor other alike
  exact uniform alike.settled

/-- Nodes around alike rows. -/
theorem found_alike {kind : NodeKind} {placement other : Placement}
    (alike : placement.Alike other) :
    Outcome.Alike (.found (.node kind placement.trees) placement.rest)
      (.found (.node kind other.trees) other.rest) :=
  .found (by simp [alike.trees]) alike.rest

theorem build_alike {kind : NodeKind} {cursor other : Cursor}
    (alike : (phrase cursor.settled).Alike (phrase other.settled)) :
    (build kind phrase cursor).Alike (build kind phrase other) :=
  found_alike alike

theorem build_uniform (uniform : phrase.Uniform) (kind : NodeKind) :
    (build kind phrase).Uniform := by
  intro cursor other alike
  exact build_alike (uniform alike.settled)

/-- A node around a node and an alike row after it. -/
theorem wrapped_alike {kind : NodeKind} {node otherNode : Tree} {placement other : Placement}
    (same : condensedOf Token.unspelled [node] = condensedOf Token.unspelled [otherNode])
    (alike : placement.Alike other) :
    condensedOf Token.unspelled [.node kind (node :: placement.trees)] =
      condensedOf Token.unspelled [.node kind (otherNode :: other.trees)] := by
  rw [Tree.condensedOf_node, Tree.condensedOf_node, Tree.condensedOf_cons _ node,
    Tree.condensedOf_cons _ otherNode, same, alike.trees]

theorem Uniform.extended (uniform : rule.Uniform) (blind : Cursor.Blind condition)
    (kind : NodeKind) (tail : phrase.Uniform) :
    (rule.extended condition kind phrase).Uniform := by
  intro cursor other alike
  have ended := uniform alike
  unfold Rule.extended
  generalize rule cursor = outcome at ended
  generalize rule other = otherOutcome at ended
  cases ended with
  | @found _ _ rest otherRest same restAlike =>
      simp only [blind restAlike]
      cases condition otherRest with
      | true => exact .found (wrapped_alike same (tail restAlike)) (tail restAlike).rest
      | false => exact .found same restAlike
  | absent restAlike => exact .absent restAlike
  | cut same restAlike => exact .cut same restAlike

/-- Growth that is the same at alike cursors. -/
structure GrowsAlike (growth : Cursor → Option Growth) : Prop where
  same : ∀ {cursor other : Cursor}, cursor.Alike other → growth cursor = growth other
  uniform : ∀ {cursor : Cursor} {larger : Growth}, growth cursor = some larger →
    larger.tail.Uniform

variable {growth : Cursor → Option Growth}

theorem GrowsAlike.grow (grows : GrowsAlike growth) {rounds otherRounds : List Word}
    (count : rounds.length = otherRounds.length) {node otherNode : Tree} {cursor other : Cursor}
    (same : condensedOf Token.unspelled [node] = condensedOf Token.unspelled [otherNode])
    (alike : cursor.Alike other) :
    (Rule.grow growth rounds node cursor).Alike (Rule.grow growth otherRounds otherNode other) := by
  induction rounds generalizing otherRounds node otherNode cursor other with
  | nil =>
      cases otherRounds with
      | nil => exact .found same alike
      | cons round otherRounds => simp at count
  | cons round rounds inductionHypothesis =>
      cases otherRounds with
      | nil => simp at count
      | cons otherRound otherRounds =>
          unfold Rule.grow
          rw [grows.same alike]
          cases next : growth other with
          | none => exact .found same alike
          | some larger =>
              have tail := grows.uniform next alike
              exact inductionHypothesis (Nat.succ.inj count) (wrapped_alike same tail) tail.rest

theorem Uniform.grown (uniform : rule.Uniform) (grows : GrowsAlike growth) :
    (rule.grown growth).Uniform := by
  intro cursor other alike
  have ended := uniform alike
  unfold Rule.grown
  generalize rule cursor = outcome at ended
  generalize rule other = otherOutcome at ended
  cases ended with
  | found same restAlike => exact grows.grow restAlike.words.length_eq same restAlike
  | absent restAlike => exact .absent restAlike
  | cut same restAlike => exact .cut same restAlike

/-- Growth by one kind of node under a condition. -/
theorem growsAlike_ite {kind : NodeKind} (blind : Cursor.Blind condition)
    (tail : phrase.Uniform) :
    GrowsAlike fun cursor => if condition cursor then some ⟨kind, phrase⟩ else none := by
  constructor
  · intro cursor other alike
    rw [blind alike]
  · intro cursor larger grown
    simp only [Option.ite_none_right_eq_some, Option.some.injEq] at grown
    obtain ⟨-, rfl⟩ := grown
    exact tail

theorem cutOff_uniform : cutOff.Uniform := by
  intro cursor other alike
  have drained := Phrase.take_uniform.many Cursor.blind_inside alike.settled
  refine .cut (by simp [drained.trees]) ⟨drained.rest.words, drained.rest.breaks, ?_, rfl⟩
  simp [drained.rest.errors]

end Rule

/-- A level at which functions and operations come out alike. -/
structure Level.Uniform (below : Level) : Prop where
  function : below.function.Uniform
  binary : ∀ power, (below.binary power).Uniform

namespace Grammar

open Scrapscript.Phrase Scrapscript.Rule

variable {below : Level}

theorem name_uniform : name.Uniform :=
  take_uniform.enclose .identifier

theorem ascription_uniform (uniform : below.Uniform) : (ascription below).Uniform :=
  (uniform.function.extended (Cursor.blind_sees .colon) .ascription
    (take_uniform.followedBy (uniform.function.require _).only)).settled

theorem binding_uniform (uniform : below.Uniform) : (binding below).Uniform := by
  have ascribed := ascription_uniform uniform
  have declared := ascribed.extended (Cursor.blind_sees .equals) .declaration
    (take_uniform.followedBy (ascribed.require .missingBoundExpression).only)
  exact declared.allow.ite (missing_uniform _) Cursor.blind_seesExpression

theorem expression_uniform (uniform : below.Uniform) : (expression below).Uniform :=
  ((ascription_uniform uniform).grown (growsAlike_ite (Cursor.blind_sees .semicolon)
    (take_uniform.followedBy (binding_uniform uniform).only))).settled

theorem spread_uniform (uniform : below.Uniform) : (spread below).Uniform :=
  (take_uniform.followedBy ((uniform.binary 0).allow.when
    Cursor.blind_seesExpression).only).enclose .spread

theorem separator_uniform (closer : TokenKind) : (separator closer).Uniform :=
  (missing_uniform .missingComma).when fun _ _ alike => by
    simp only [alike.sees, alike.seesExpression]

theorem listItem_uniform (uniform : below.Uniform) : (listItem below).Uniform := by
  have separated {item : Phrase} (itemUniform : item.Uniform) :=
    itemUniform.followedBy (separator_uniform .closeBracket).only
  refine take_uniform.ite (Uniform.ite (separated (spread_uniform uniform)) (Uniform.ite
    (separated (ascription_uniform uniform).allow) ?_ ?_) ?_) ?_
  · exact fun _ _ alike => reject_alike _ _ alike
  · exact Cursor.blind_seesExpression
  · exact (Cursor.blind_sees .dotDot)
  · exact (Cursor.blind_sees .comma)

theorem recordField_uniform (uniform : below.Uniform) : (recordField below).Uniform := by
  have value := take_uniform.followedBy
    ((ascription_uniform uniform).require .missingFieldValue).only
  exact (name_uniform.followedBy
    (value.when (Cursor.blind_sees .equals)).only).enclose .recordField

theorem recordItem_uniform (uniform : below.Uniform) : (recordItem below).Uniform := by
  have separated {item : Phrase} (itemUniform : item.Uniform) :=
    itemUniform.followedBy (separator_uniform .closeBrace).only
  refine take_uniform.ite (Uniform.ite (separated (spread_uniform uniform)) (Uniform.ite
    (separated (recordField_uniform uniform)) ?_ ?_) ?_) ?_
  · exact fun _ _ alike => reject_alike _ _ alike
  · exact (Cursor.blind_sees .ident)
  · exact (Cursor.blind_sees .dotDot)
  · exact (Cursor.blind_sees .comma)

theorem guard_uniform (uniform : below.Uniform) : (guard below).Uniform :=
  (take_uniform.followedBy ((uniform.binary 0).require _).only).enclose .guard

theorem caseBody_uniform (uniform : below.Uniform) : (caseBody below).Uniform :=
  (take_uniform.followedBy (uniform.function.require .missingCaseBody).only).ite
    (missing_uniform _) (Cursor.blind_sees .arrow)

theorem patternCase_uniform (uniform : below.Uniform) : (patternCase below).Uniform :=
  (take_uniform.followedBy (((uniform.binary 0).require _).followedBy
    (((guard_uniform uniform).when (Cursor.blind_sees .question)).followedBy
      (caseBody_uniform uniform).only))).enclose .patternCase

/-- A tag and its name: the one place where a line break matters that does not come before a
declaration. -/
theorem tag_alike {cursor other : Cursor} (alike : cursor.Alike other)
    (hash : cursor.kind? = some .hash) :
    (build .tag (sequence [take, tagName]) cursor).Alike
      (build .tag (sequence [take, tagName]) other) := by
  apply build_alike
  have seen : cursor.sees .hash = true := Cursor.sees_of_kind? hash
  have otherSeen : other.sees .hash = true := by rw [← alike.sees, seen]
  have rest := alike.advanced
  have named : (tagName cursor.advanced).Alike (tagName other.advanced) := by
    unfold tagName
    cases ident : cursor.advanced.sees .ident with
    | false =>
        rw [← rest.sees, ident]
        exact missing_uniform _ rest
    | true =>
        rw [← rest.sees, ident, alike.afterLineBreak_advanced seen ident]
        cases other.advanced.afterLineBreak with
        | true => exact missing_uniform _ rest
        | false => exact name_uniform rest
  have settledSeen : cursor.settled.sees .hash = true := seen
  have otherSettledSeen : other.settled.sees .hash = true := otherSeen
  simp only [Phrase.sequence, take_rest settledSeen, take_rest otherSettledSeen,
    Cursor.settled_advanced]
  exact ⟨by simp [(take_uniform alike.settled).trees, named.trees], named.rest⟩

theorem atom_uniform (uniform : below.Uniform) : (atom below).Uniform := by
  intro cursor other alike
  have leaf (kind : NodeKind) := build_uniform take_uniform kind alike
  have pair (kind : NodeKind) := build_uniform (take_uniform.followedBy take_uniform.only) kind alike
  have absent := nothing_uniform alike
  unfold atom
  rw [← alike.kind?, ← alike.seesNegative, ← alike.following?]
  cases next : cursor.kind? with
  | none => exact absent
  | some token =>
      cases token
      case ident | underscore | int | float | string | bytes | byte => exact leaf _
      case minus =>
        cases cursor.seesNegative with
        | true => exact pair .number
        | false => exact absent
      case hash => exact tag_alike alike next
      case openParen =>
        cases cursor.following? == some .closeParen with
        | true => exact pair .hole
        | false =>
            exact build_uniform (take_uniform.followedBy (((expression_uniform uniform).require
              _).followedBy (expect_uniform _ _).only)) .parenthesized alike
      case openBracket =>
        exact build_uniform (take_uniform.followedBy (((listItem_uniform uniform).many
          Cursor.blind_seesMore).followedBy (expect_uniform _ _).only)) .list alike
      case openBrace =>
        exact build_uniform (take_uniform.followedBy (((recordItem_uniform uniform).many
          Cursor.blind_seesMore).followedBy (expect_uniform _ _).only)) .record alike
      case pipe =>
        exact build_uniform ((patternCase_uniform uniform).many (Cursor.blind_sees .pipe))
          .patternMatch alike
      all_goals exact absent

theorem fieldName_uniform : fieldName.Uniform :=
  name_uniform.ite (missing_uniform _) (Cursor.blind_sees .ident)

theorem access_uniform (uniform : below.Uniform) : (access below).Uniform :=
  ((atom_uniform uniform).grown (growsAlike_ite (Cursor.blind_sees .dot)
    (take_uniform.followedBy fieldName_uniform.only))).settled

theorem application_uniform (uniform : below.Uniform) : (application below).Uniform :=
  ((access_uniform uniform).grown (growsAlike_ite
    (fun _ _ alike => by rw [alike.seesArgument, alike.seesDeclaration])
    (access_uniform uniform).allow)).settled

theorem joining_growsAlike (uniform : below.Uniform) (power : Nat) :
    GrowsAlike (joining below power) := by
  constructor
  · intro cursor other alike
    rw [joining, joining, alike.operatorAt?]
  · intro cursor larger grown
    unfold joining at grown
    split at grown
    · contradiction
    · obtain rfl := Option.some.inj grown
      exact (take_uniform.enclose .operator).followedBy ((uniform.binary _).require _).only

theorem binary_uniform (uniform : below.Uniform) (power : Nat) : (binary below power).Uniform :=
  ((application_uniform uniform).grown (joining_growsAlike uniform power)).settled

theorem function_uniform (uniform : below.Uniform) : (function below).Uniform :=
  ((uniform.binary 0).extended (Cursor.blind_sees .arrow) .function
    (take_uniform.followedBy (uniform.function.require _).only)).settled

theorem uniform_ofDepth (depth : Nat) : (Level.ofDepth depth).Uniform := by
  induction depth with
  | zero => exact ⟨cutOff_uniform, fun _ => cutOff_uniform⟩
  | succ depth inductionHypothesis =>
      exact ⟨function_uniform inductionHypothesis, binary_uniform inductionHypothesis⟩

theorem sourceItem_uniform : sourceItem.Uniform := by
  have expression := expression_uniform (uniform_ofDepth depthLimit)
  have item : item.Uniform := (expression.extended (Cursor.blind_sees .equals) .declaration
    (take_uniform.followedBy (expression.require _).only)).settled
  exact item.allow.ite (fun _ _ alike => reject_alike _ _ alike) Cursor.blind_seesExpression

theorem sourceFile_uniform : sourceFile.Uniform :=
  (sourceItem_uniform.many Cursor.blind_inside).followedBy blanks_uniform.only

end Grammar

end Scrapscript
