import Scrapscript.Proofs.Grammar.Written
import Scrapscript.Proofs.Locality

/-!
The commas of a list. After an element the parser reports a comma that is missing, so that a list
without errors has one between any two elements. Where such a list stands does not matter, since it
is parsed in the same way on its own.
-/

namespace Scrapscript

open Scrapscript.Tree (leaves withoutTrivia hasErrorIn isToken)

namespace Rule

variable {rule : Rule} {growth : Cursor → Option Growth} {kind : NodeKind} {children : List Tree}
  {cursor rest : Cursor}

/-- A node of a kind that nothing grows into was there before. -/
theorem found_of_grown (advances : Advances growth)
    (unlike : ∀ cursor larger, growth cursor = some larger → larger.kind ≠ kind)
    (found : rule.grown growth cursor = .found (.node kind children) rest) :
    rule cursor = .found (.node kind children) rest := by
  obtain ⟨node, middle, inner, grown, -⟩ := advances.grown_eq_found_iff.mp found
  cases grown with
  | start => exact inner
  | step before grows => exact absurd rfl (unlike _ _ grows)

theorem found_of_extended {condition : Cursor → Bool} {other : NodeKind} {tail : Phrase}
    (unlike : other ≠ kind)
    (found : rule.extended condition other tail cursor = .found (.node kind children) rest) :
    rule cursor = .found (.node kind children) rest := by
  obtain ⟨node, middle, inner, ⟨-, larger, -⟩ | ⟨-, rfl, rfl⟩⟩ := extended_eq_found_iff.mp found
  · exact absurd (Tree.node.inj larger).1.symm unlike
  · exact inner

end Rule

namespace Grammar

open Scrapscript.Phrase Scrapscript.Rule

variable {kind : NodeKind} {children : List Tree} {cursor rest : Cursor}

theorem unlike_onlyIf {condition : Cursor → Bool} {other : NodeKind} {tail : Phrase}
    (unlike : other ≠ kind) :
    ∀ cursor larger, Growth.onlyIf condition other tail cursor = some larger →
      larger.kind ≠ kind := by
  intro cursor larger grows
  obtain ⟨-, rfl⟩ := Growth.onlyIf_eq_some_iff.mp grows
  exact unlike

/-- The smallest expressions are not wrapped into anything where they are an item. -/
theorem atom_of_item (atomic : kind.isAtom = true)
    (found : item cursor = .found (.node kind children) rest) :
    atom operandLevel cursor.settled = .found (.node kind children) rest := by
  have unlike (other : NodeKind) (compound : other.isAtom = false) : other ≠ kind := by
    rintro rfl
    rw [atomic] at compound
    contradiction
  have joined (cursor : Cursor) (larger : Growth)
      (joins : joining operandLevel 0 cursor = some larger) : larger.kind ≠ kind := by
    obtain ⟨operator, -, -, -, -, -, rfl⟩ := joining_eq_some joins
    apply unlike
    unfold operationKind
    split
    · rfl
    · rfl
  have asExpression := found_of_extended (unlike _ rfl) found
  have asAscription := found_of_grown (clauses_advance (sound_ofDepth _))
    (unlike_onlyIf (unlike _ rfl)) asExpression
  have asFunction := found_of_extended (unlike _ rfl) asAscription
  have asOperation := found_of_extended (unlike _ rfl) asFunction
  have asApplication := found_of_grown (joining_advances (sound_ofDepth _) _) joined asOperation
  have asAccess := found_of_grown (arguments_advance (sound_ofDepth _))
    (unlike_onlyIf (unlike _ rfl)) asApplication
  have asAtom := found_of_grown accessing_advances (unlike_onlyIf (unlike _ rfl)) asAccess
  simp only [Cursor.settled_settled] at asAtom
  exact asAtom

/-- Whether an element starts here. -/
def seesElement (cursor : Cursor) : Bool :=
  cursor.seesExpression || cursor.sees .dotDot

theorem seesElement_eq_false {token : TokenKind} (seen : cursor.sees token = true)
    (separates : token = .comma ∨ token = .closeBracket) : seesElement cursor = false := by
  have next : cursor.kind? = some token := eq_of_beq seen
  have unseen : cursor.seesExpression = false := by
    rcases separates with rfl | rfl
    · exact Cursor.seesExpression_eq_false next rfl (by decide) (by decide)
    · exact Cursor.seesExpression_eq_false next rfl (by decide) (by decide)
  rcases separates with rfl | rfl
  · simp [seesElement, unseen, Cursor.sees, next]
  · simp [seesElement, unseen, Cursor.sees, next]

/-- Whether a row is empty or begins with a comma. -/
def leadsWithComma (row : List Tree) : Bool :=
  row.head?.all (isToken .comma)

theorem commasBetween_cons {tree : Tree} {row : List Tree} (led : leadsWithComma row = true)
    (separated : commasBetween row = true) : commasBetween (tree :: row) = true := by
  cases row with
  | nil => rfl
  | cons second rest =>
      have comma : second.isToken .comma = true := led
      simp [commasBetween, comma, separated]

theorem commasBetween_comma {comma : Tree} {row : List Tree} (isComma : comma.isToken .comma = true)
    (separated : commasBetween row = true) : commasBetween (comma :: row) = true := by
  cases row with
  | nil => rfl
  | cons second rest => simp [commasBetween, isComma, separated]

theorem commasBetween_tail {tree : Tree} {row : List Tree}
    (separated : commasBetween (tree :: row) = true) : commasBetween row = true := by
  cases row with
  | nil => rfl
  | cons => exact ((Bool.and_eq_true ..).mp separated).2

/-- Where no comma is reported missing, no element starts. -/
theorem separator_of_clean (clean : hasErrorIn (separator .closeBracket cursor).trees = false) :
    separator .closeBracket cursor = ⟨[], cursor⟩ ∧ seesElement cursor = false := by
  by_cases comma : cursor.sees .comma = true
  · exact ⟨by simp [separator, when, comma], seesElement_eq_false comma (.inl rfl)⟩
  by_cases closed : cursor.sees .closeBracket = true
  · exact ⟨by simp [separator, when, closed], seesElement_eq_false closed (.inr rfl)⟩
  · cases more : seesElement cursor with
    | true =>
        have condition : (cursor.seesExpression || cursor.sees .dotDot) = true := more
        simp [separator, when, comma, closed, condition, missing, hasErrorIn,
          Tree.hasError] at clean
    | false =>
        have condition : (cursor.seesExpression || cursor.sees .dotDot) = false := more
        exact ⟨by simp [separator, when, condition], rfl⟩

theorem length_allow_le (rule : Rule) (cursor : Cursor) :
    (withoutTrivia (allow rule cursor).trees).length ≤ 1 := by
  have single (node : Tree) : (withoutTrivia [node]).length ≤ 1 := List.length_filter_le _ _
  unfold allow
  cases rule cursor with
  | found node rest => simpa using single node
  | absent rest => simp
  | cut node rest => simpa using single node

/-- A step through a list without errors: a comma, or at most one tree after which no element
starts. -/
theorem listItem_cases {below : Level} (clean : hasErrorIn (listItem below cursor).trees = false) :
    (∃ comma, withoutTrivia (listItem below cursor).trees = [comma] ∧
        comma.isToken .comma = true) ∨
      seesElement cursor = true ∧ seesElement (listItem below cursor).rest = false ∧
        (withoutTrivia (listItem below cursor).trees).length ≤ 1 := by
  unfold listItem at clean ⊢
  by_cases comma : cursor.sees .comma = true
  · left
    simp only [comma, if_true]
    obtain ⟨word, more, next, kind⟩ := Cursor.sees_iff.mp comma
    exact ⟨.leaf word.token, by simp [take_eq next], by simp [isToken, Tree.isTokenOf, kind]⟩
  right
  simp only [comma, Bool.false_eq_true, if_false] at clean ⊢
  by_cases dots : cursor.sees .dotDot = true
  · simp only [dots, if_true, Phrase.sequence, Tree.hasErrorIn_append,
      Bool.or_eq_false_iff] at clean ⊢
    obtain ⟨skipped, ended⟩ := separator_of_clean clean.2.1
    rw [skipped]
    exact ⟨by simp [seesElement, dots], ended, by simp [spread, enclose]⟩
  simp only [dots, Bool.false_eq_true, if_false] at clean ⊢
  by_cases expression : cursor.seesExpression = true
  · simp only [expression, if_true, Phrase.sequence, Tree.hasErrorIn_append,
      Bool.or_eq_false_iff] at clean ⊢
    obtain ⟨skipped, ended⟩ := separator_of_clean clean.2.1
    rw [skipped]
    exact ⟨by simp [seesElement, expression], ended, by simpa using length_allow_le _ cursor⟩
  · simp [expression, hasErrorIn_reject] at clean

/-- The steps through a list without errors. The row starts with a comma unless the first step is
one through an element. -/
theorem commasBetween_of_repeated {below : Level} {placement : Placement}
    (repeated : Repeated seesMore (listItem below) cursor placement)
    (clean : hasErrorIn placement.trees = false) :
    commasBetween (withoutTrivia placement.trees) = true ∧
      (seesElement cursor = false → leadsWithComma (withoutTrivia placement.trees) = true) := by
  induction repeated with
  | done => exact ⟨rfl, fun _ => rfl⟩
  | @round cursor others more later inductionHypothesis =>
      rw [Tree.hasErrorIn_append, Bool.or_eq_false_iff] at clean
      obtain ⟨separated, led⟩ := inductionHypothesis clean.2
      rw [Tree.withoutTrivia_append]
      rcases listItem_cases clean.1 with ⟨comma, row, isComma⟩ | ⟨starts, ended, single⟩
      · rw [row]
        exact ⟨commasBetween_comma isComma separated, fun _ => isComma⟩
      · refine ⟨?_, fun unseen => absurd starts (by simp [unseen])⟩
        match row : withoutTrivia (listItem below cursor).trees, single with
        | [], _ => exact separated
        | [tree], _ => exact commasBetween_cons (led ended) separated

/-- What a list is built of. -/
theorem list_of_atom {below : Level}
    (found : atom below cursor = .found (.node .list children) rest) :
    cursor.sees .openBracket = true ∧
      children = (sequence [take, many seesMore (listItem below),
        expect .closeBracket (.missingCloser .closeBracket)] cursor.settled).trees := by
  cases next : cursor.kind? with
  | none => simp [atom, next, nothing] at found
  | some token =>
      cases token <;> simp only [atom, next] at found
      case openBracket =>
        exact ⟨Cursor.sees_of_kind? next, (Tree.node.inj (Outcome.found.inj found).1).2.symm⟩
      case minus | openParen =>
        split at found
        · simp [build] at found
        · simp [build, nothing] at found
      all_goals simp [build, nothing] at found

theorem exists_expected (token : TokenKind) (fault : SyntaxFault) (cursor : Cursor) :
    ∃ tree, withoutTrivia (expect token fault cursor).trees = [tree] := by
  unfold expect
  split
  · rename_i seen
    obtain ⟨word, more, next, -⟩ := Cursor.sees_iff.mp seen
    exact ⟨.leaf word.token, by simp [take_eq next]⟩
  · exact ⟨.node .error [], by simp [missing]⟩

/-- A list that is found without errors has its commas. -/
theorem separates_of_atom {below : Level} (sound : below.Sound)
    (found : atom below cursor = .found (.node .list children) rest)
    (clean : hasErrorIn children = false) :
    separates .list (withoutTrivia children) = true := by
  obtain ⟨opened, rfl⟩ := list_of_atom found
  have settledOpened : cursor.settled.sees .openBracket = true := opened
  obtain ⟨word, more, next, -⟩ := Cursor.sees_iff.mp settledOpened
  have items := (listItem_advances sound).many cursor.settled.advanced
  generalize placed : many seesMore (listItem below) cursor.settled.advanced = placement at items
  simp only [Phrase.sequence, take_eq next, placed, Tree.hasErrorIn_append,
    Bool.or_eq_false_iff] at clean ⊢
  obtain ⟨separated, -⟩ := commasBetween_of_repeated items clean.2.1
  obtain ⟨closer, closing⟩ :=
    exists_expected .closeBracket (.missingCloser .closeBracket) placement.rest
  simpa [separates, closing, leaves] using separated

end Grammar

namespace Parse

/-- Wherever a list without errors stands in a document, its elements have commas between them. -/
theorem separates_list {text : Text} {node : Node}
    (visited : node ∈ (ofText text).root.descendants) (list : node.kind = .list)
    (clean : node.hasError = false) :
    Grammar.separates .list (withoutTrivia node.children) = true := by
  have parsed := ofText_text visited clean (by rw [list]; rfl)
  rw [ofText, ofTokens, Parse.mk.injEq] at parsed
  have whole : node.tree = .node .list node.children := by rw [Node.tree, list]
  rw [Node.hasError, whole] at clean
  rw [whole] at parsed
  obtain ⟨rest, found, -⟩ := Grammar.found_of_single
    (by rw [parsed.1]; simpa [hasErrorIn] using clean) (by rw [parsed.1]; rfl)
  simp only [Tree.hasError, Bool.or_eq_false_iff] at clean
  exact Grammar.separates_of_atom (Grammar.sound_ofDepth _) (Grammar.atom_of_item rfl found) clean.2

end Parse

end Scrapscript
