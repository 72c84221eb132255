import Scrapscript.Proofs.ErrorNodes
import Scrapscript.Proofs.Grammar.Footing
import Scrapscript.Proofs.Tokenization

/-!
Where the errors of a parse stand that report a missing piece. They stand at gaps, that is, between
a significant token and the next one: at the start of the gap, unless a piece was looked for there
in vain, which is reported at the end of the gap. So such errors stand right after a significant
token exactly if no blanks are in a gap where a piece was looked for in vain.
-/

namespace Scrapscript

theorem Cursor.stands_ofTokens {tokens : List Token} (wide : ∀ token ∈ tokens, 0 < token.width) :
    (Cursor.ofTokens tokens).Stands tokens :=
  ⟨wide, fun _ => ⟨[], remaining_ofTokens tokens, rfl⟩, fun _ => nofun⟩

namespace Parse

variable {text : Text}

theorem sited_errors (shallow : (ofText text).tooDeep = false) :
    ∀ error ∈ (ofText text).errors, error.Sited (Lexer.tokenize text) (ofText text).errors := by
  have stands : (Cursor.ofTokens (Lexer.tokenize text)).Stands (Lexer.tokenize text) :=
    Cursor.stands_ofTokens fun _ listed => Lexer.width_pos listed
  have sited := (Grammar.sourceFile_stands stands).sited shallow
  intro error listed
  exact (sited error (List.mem_reverse.mp listed)).mono
    (List.subset_reverse.mpr (List.Subset.refl _))

/-- Every empty error node is that of an error at the same place, and so has its footing. -/
theorem footing_of_errorNode (shallow : (ofText text).tooDeep = false) {node : Node}
    (listed : node ∈ (ofText text).root.ofKind .error) (empty : node.start = node.stop) :
    Footing (Lexer.tokenize text) (ofText text).errors node.start := by
  have span := List.mem_map_of_mem (f := fun node : Node => (node.start, node.stop)) listed
  rw [← spans_errors text shallow] at span
  obtain ⟨error, reported, same⟩ := List.mem_map.mp span
  obtain ⟨starts, stops⟩ := Prod.mk.inj same
  rw [← starts]
  exact (sited_errors shallow error reported).footing (by omega)

theorem exists_errorNode (shallow : (ofText text).tooDeep = false) {error : SyntaxError}
    (reported : error ∈ (ofText text).errors) :
    ∃ node ∈ (ofText text).root.ofKind .error,
      node.start = error.start ∧ node.stop = error.stop := by
  have span :=
    List.mem_map_of_mem (f := fun error : SyntaxError => (error.start, error.stop)) reported
  rw [spans_errors text shallow] at span
  obtain ⟨node, listed, same⟩ := List.mem_map.mp span
  exact ⟨node, listed, Prod.mk.inj same⟩

/-- Empty error nodes stand right after significant tokens exactly if every piece that was looked
for in vain was looked for right after one. -/
theorem errorNodes_follow_words_iff (shallow : (ofText text).tooDeep = false) :
    (∀ node ∈ (ofText text).root.ofKind .error, node.start = node.stop →
        Token.wordEndsAt (Lexer.tokenize text) node.start = true) ↔
      ∀ error ∈ (ofText text).errors, error.fault.isAttempted = true →
        Token.Gap (Lexer.tokenize text) error.start error.start := by
  constructor
  · intro follow error reported attempted
    obtain ⟨empty, start, gap⟩ := (sited_errors shallow error reported).attempted attempted
    obtain ⟨node, listed, starts, stops⟩ := exists_errorNode shallow reported
    have ends := follow node listed (by omega)
    rw [starts] at ends
    have same := gap.eq_of_wordEndsAt (fun _ listed => Lexer.width_pos listed) ends
    exact same ▸ gap
  · intro gaps node listed empty
    rcases footing_of_errorNode shallow listed empty with ends | ⟨error, reported, attempted, same⟩
    · exact ends
    · exact same ▸ (gaps error reported attempted).wordEndsAt

/-- Errors are where their error nodes are. A piece whose absence is foreseen is reported right
after a significant token, and one that was looked for in vain at the end of the gap after one. Any
other missing piece is reported at one of these places. So all of them are reported right after
significant tokens exactly if there are no blanks in a gap where a piece was looked for in vain. -/
theorem missing_pieces_stand_at_gaps (shallow : (ofText text).tooDeep = false) :
    (ofText text).errors.map (fun error => (error.start, error.stop)) =
        ((ofText text).root.ofKind .error).map (fun node => (node.start, node.stop)) ∧
      (∀ error ∈ (ofText text).errors, error.fault.isForeseen = true →
        error.start = error.stop ∧
          Token.wordEndsAt (Lexer.tokenize text) error.start = true) ∧
      (∀ error ∈ (ofText text).errors, error.fault.isAttempted = true →
        error.start = error.stop ∧ ∃ start, Token.Gap (Lexer.tokenize text) start error.start) ∧
      (∀ node ∈ (ofText text).root.ofKind .error, node.start = node.stop →
        Token.wordEndsAt (Lexer.tokenize text) node.start = true ∨
          ∃ error ∈ (ofText text).errors,
            error.fault.isAttempted = true ∧ error.start = node.start) ∧
      ((∀ node ∈ (ofText text).root.ofKind .error, node.start = node.stop →
          Token.wordEndsAt (Lexer.tokenize text) node.start = true) ↔
        ∀ error ∈ (ofText text).errors, error.fault.isAttempted = true →
          Token.Gap (Lexer.tokenize text) error.start error.start) := by
  refine ⟨spans_errors text shallow, ?_, ?_, ?_, errorNodes_follow_words_iff shallow⟩
  · intro error reported foreseen
    exact (sited_errors shallow error reported).foreseen foreseen
  · intro error reported attempted
    exact (sited_errors shallow error reported).attempted attempted
  · intro node listed empty
    exact footing_of_errorNode shallow listed empty

/-- In `(1 + ` the operand was looked for in vain after the blank, and there the parenthesis is
missed as well. -/
theorem missing_pieces_stand_at_gaps_unclosed :
    (ofText ['(', '1', ' ', '+', ' ']).tooDeep = false ∧
      (ofText ['(', '1', ' ', '+', ' ']).errors =
        [⟨.missingOperand, 5, 5⟩, ⟨.missingCloser .closeParen, 5, 5⟩] ∧
      ∃ start, Token.Gap (Lexer.tokenize ['(', '1', ' ', '+', ' ']) start 5 := by
  have shallow : (ofText ['(', '1', ' ', '+', ' ']).tooDeep = false := by decide +kernel
  have errors : (ofText ['(', '1', ' ', '+', ' ']).errors =
      [⟨.missingOperand, 5, 5⟩, ⟨.missingCloser .closeParen, 5, 5⟩] := by decide +kernel
  obtain ⟨-, -, attempted, -⟩ := missing_pieces_stand_at_gaps shallow
  exact ⟨shallow, errors, (attempted _ (by rw [errors]; exact .head _) rfl).2⟩

/-- In `x = ` the expression is missed after the blank, and no significant token ends there. -/
theorem missing_expression_after_blank :
    (ofText ['x', ' ', '=', ' ']).tooDeep = false ∧
      ∃ node ∈ (ofText ['x', ' ', '=', ' ']).root.ofKind .error, node.start = node.stop ∧
        Token.wordEndsAt (Lexer.tokenize ['x', ' ', '=', ' ']) node.start = false := by
  decide +kernel

end Parse

end Scrapscript
