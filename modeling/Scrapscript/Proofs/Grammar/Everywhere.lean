import Scrapscript.Grammar
import Scrapscript.Proofs.Grammar.Loop

/-!
What holds of all nodes that the grammar makes. Each building block adds at most one node to those
of its parts, and what is to be shown of that node is the only thing that is left to say of it. The
constructs that have no node of their own, or one that is no item, are settled here as well.
-/

namespace Scrapscript

open Scrapscript.Tree (leaves EverywhereIn everywhereIn_append everywhereIn_leaves)

variable {holds : NodeKind → List Tree → Prop}

/-- Something holds of all nodes that a phrase places. -/
def Phrase.Makes (holds : NodeKind → List Tree → Prop) (phrase : Phrase) (cursor : Cursor) : Prop :=
  EverywhereIn holds (phrase cursor).trees

/-- Something holds of all nodes of the one built. -/
def Outcome.Makes (holds : NodeKind → List Tree → Prop) : Outcome → Prop
  | .found node _ | .cut node _ => node.Everywhere holds
  | .absent _ => True

def Rule.Makes (holds : NodeKind → List Tree → Prop) (rule : Rule) : Prop :=
  ∀ cursor, (rule cursor).Makes holds

namespace Phrase

variable {cursor : Cursor} {phrase : Phrase} {phrases : List Phrase} {rule : Rule}
  {condition : Cursor → Bool}

theorem makes_blanks (blanks : Blanks) {trees : List Tree} (makes : EverywhereIn holds trees) :
    EverywhereIn holds (leaves blanks.tokens ++ trees) :=
  (everywhereIn_append _ _).mpr ⟨everywhereIn_leaves _, makes⟩

theorem makes_take : take.Makes holds cursor := by
  unfold Makes take
  split
  · exact everywhereIn_leaves _
  · exact makes_blanks _ ⟨trivial, trivial⟩

theorem makes_nil : (sequence []).Makes holds cursor :=
  trivial

theorem makes_sequence (first : phrase.Makes holds cursor)
    (others : (sequence phrases).Makes holds (phrase cursor).rest) :
    (sequence (phrase :: phrases)).Makes holds cursor :=
  (everywhereIn_append _ _).mpr ⟨first, others⟩

theorem Makes.only (makes : phrase.Makes holds cursor) : (sequence [phrase]).Makes holds cursor :=
  makes_sequence makes makes_nil

theorem makes_when (makes : condition cursor = true → phrase.Makes holds cursor) :
    (when condition phrase).Makes holds cursor := by
  unfold Makes when
  split
  · rename_i met
    exact makes met
  · trivial

theorem makes_many (makes : ∀ cursor, condition cursor = true → phrase.Makes holds cursor) :
    (many condition phrase).Makes holds cursor := by
  unfold Makes many
  generalize cursor.words = rounds
  induction rounds generalizing cursor with
  | nil => trivial
  | cons round rounds inductionHypothesis =>
      unfold repeated
      split
      · rename_i met
        exact (everywhereIn_append _ _).mpr ⟨makes cursor met, inductionHypothesis⟩
      · trivial

theorem Makes.enclose {kind : NodeKind} (makes : phrase.Makes holds cursor.settled)
    (top : holds kind (phrase cursor.settled).trees) :
    (Phrase.enclose kind phrase).Makes holds cursor :=
  makes_blanks _ ⟨⟨top, makes⟩, trivial⟩

theorem makes_allow (makes : rule.Makes holds) : (allow rule).Makes holds cursor := by
  have built := makes cursor
  unfold Makes allow
  cases ended : rule cursor <;> rw [ended] at built
  case found | cut => exact makes_blanks _ ⟨built, trivial⟩
  case absent => exact everywhereIn_leaves _

section

variable (errors : ∀ row, holds .error row)

include errors

theorem makes_missing (fault : SyntaxFault) : (missing fault).Makes holds cursor :=
  ⟨⟨errors _, trivial⟩, trivial⟩

theorem makes_reject (fault : SyntaxFault) : (reject fault).Makes holds cursor :=
  makes_take.enclose (errors _)

theorem makes_expect (kind : TokenKind) (fault : SyntaxFault) :
    (expect kind fault).Makes holds cursor := by
  unfold Makes expect
  split
  · exact makes_take
  · exact makes_missing errors fault

theorem makes_require (makes : rule.Makes holds) (fault : SyntaxFault) :
    (require rule fault).Makes holds cursor := by
  have built := makes cursor
  unfold Makes require
  cases ended : rule cursor <;> rw [ended] at built
  case found => exact makes_blanks _ ⟨built, trivial⟩
  case absent => exact makes_blanks _ (makes_missing errors fault)
  case cut => exact makes_blanks _ ⟨built, makes_missing errors fault⟩

theorem makes_tokenThen (makes : rule.Makes holds) (fault : SyntaxFault) :
    (sequence [take, require rule fault]).Makes holds cursor :=
  makes_sequence makes_take (makes_require errors makes fault).only

end

end Phrase

namespace Rule

variable {cursor : Cursor} {rule : Rule} {kind : NodeKind} {phrase tail : Phrase}
  {condition : Cursor → Bool} {growth : Cursor → Option Growth}

theorem Makes.settled (makes : ∀ cursor : Cursor, (rule cursor.settled).Makes holds) :
    (Rule.settled rule).Makes holds :=
  makes

theorem makes_extended (makes : (rule cursor).Makes holds)
    (tails : ∀ cursor, condition cursor = true → tail.Makes holds cursor)
    (top : ∀ children rest, rule.extended condition kind tail cursor =
      .found (.node kind children) rest → holds kind children) :
    (rule.extended condition kind tail cursor).Makes holds := by
  cases ended : rule cursor with
  | found node rest =>
      rw [ended] at makes
      cases met : condition rest with
      | true =>
          have found : rule.extended condition kind tail cursor =
              .found (.node kind (node :: (tail rest).trees)) (tail rest).rest :=
            extended_eq_found_iff.mpr ⟨node, rest, ended, .inl ⟨met, rfl, rfl⟩⟩
          have whole := top _ _ found
          rw [found]
          exact ⟨whole, makes, tails rest met⟩
      | false => simpa [Rule.extended, ended, met] using makes
  | absent rest => simp [Rule.extended, ended, Outcome.Makes]
  | cut node rest => simpa [Rule.extended, ended] using makes

/-- Whatever the limit on the rounds, something holds of what a node grows into. -/
theorem makes_grow {node : Tree} (rounds : List Word) (makes : node.Everywhere holds)
    (tails : ∀ cursor larger, growth cursor = some larger → larger.tail.Makes holds cursor)
    (top : ∀ inner between larger, Grown growth node cursor inner between →
      growth between = some larger →
      holds larger.kind (inner :: (larger.tail between).trees)) :
    (grow growth rounds node cursor).Makes holds := by
  induction rounds generalizing node cursor with
  | nil => exact makes
  | cons round rounds inductionHypothesis =>
      unfold grow
      split
      · exact makes
      · rename_i larger grows
        refine inductionHypothesis ⟨top _ _ _ .start grows, makes, tails _ _ grows⟩ ?_
        intro inner between further grown furtherGrows
        exact top _ _ _ ((Grown.step .start grows).append grown) furtherGrows

theorem makes_grown (makes : (rule cursor).Makes holds)
    (tails : ∀ cursor larger, growth cursor = some larger → larger.tail.Makes holds cursor)
    (top : ∀ node middle inner between larger, rule cursor = .found node middle →
      Grown growth node middle inner between → growth between = some larger →
      holds larger.kind (inner :: (larger.tail between).trees)) :
    (rule.grown growth cursor).Makes holds := by
  unfold Rule.grown
  cases ended : rule cursor <;> rw [ended] at makes
  case found node middle =>
    exact makes_grow _ makes tails fun inner between larger =>
      top node middle inner between larger ended
  case absent => trivial
  case cut => exact makes

theorem makes_grownIf (makes : (rule cursor).Makes holds)
    (tails : ∀ cursor, condition cursor = true → tail.Makes holds cursor)
    (top : ∀ node middle inner between, rule cursor = .found node middle →
      Grown (Growth.onlyIf condition kind tail) node middle (.node kind inner) between →
      holds kind inner) :
    (rule.grown (fun cursor => if condition cursor then some ⟨kind, tail⟩ else none)
      cursor).Makes holds := by
  refine makes_grown makes (fun cursor larger grows => ?_) ?_
  · obtain ⟨met, rfl⟩ := Growth.onlyIf_eq_some_iff.mp grows
    exact tails cursor met
  · intro node middle inner between larger found grown grows
    have step : Grown (Growth.onlyIf condition kind tail) node middle _ _ := .step grown grows
    obtain ⟨-, rfl⟩ := Growth.onlyIf_eq_some_iff.mp grows
    exact top _ _ _ _ found step

theorem makes_cutOff (errors : ∀ row, holds .error row) : cutOff.Makes holds := by
  intro cursor
  exact ⟨errors _, Phrase.makes_many fun _ _ => Phrase.makes_take⟩

end Rule

/-- A level of whose nodes something holds. -/
structure Level.Makes (holds : NodeKind → List Tree → Prop) (below : Level) : Prop where
  function : below.function.Makes holds
  binary : ∀ power, (below.binary power).Makes holds

namespace Grammar

open Scrapscript.Phrase Scrapscript.Rule

section

-- What is to be shown says nothing of the nodes that are no items, error nodes among them.
variable {below : Level} {cursor : Cursor} (parts : ∀ {kind}, kind.isItem = false →
  ∀ row, holds kind row)

include parts

theorem makes_nameOr {condition : Cursor → Bool} {fault : SyntaxFault}
    (named : condition cursor = true → name.Makes holds cursor) :
    Phrase.Makes holds
      (fun cursor => if condition cursor then name cursor else missing fault cursor) cursor := by
  unfold Phrase.Makes
  dsimp only
  split
  · rename_i met
    exact named met
  · exact makes_missing (parts rfl) fault

theorem makes_separator (closer : TokenKind) : (separator closer).Makes holds cursor :=
  makes_when fun _ => makes_missing (parts rfl) _

section

variable (makes : below.Makes holds)

include makes

theorem makes_spread : (spread below).Makes holds cursor :=
  (makes_sequence makes_take
    (makes_when fun _ => makes_allow (makes.binary 0)).only).enclose (parts rfl _)

theorem makes_guard : (guard below).Makes holds cursor :=
  (makes_tokenThen (parts rfl) (makes.binary 0) _).enclose (parts rfl _)

theorem makes_caseBody : (caseBody below).Makes holds cursor := by
  unfold Phrase.Makes caseBody
  split
  · exact makes_tokenThen (parts rfl) makes.function _
  · exact makes_missing (parts rfl) _

theorem makes_patternCase : (patternCase below).Makes holds cursor :=
  (makes_sequence makes_take
    (makes_sequence (makes_require (parts rfl) (makes.binary 0) _)
      (makes_sequence (makes_when fun _ => makes_guard parts makes)
        (makes_caseBody parts makes).only))).enclose (parts rfl _)

end

section

variable (named : ∀ {cursor : Cursor}, cursor.sees .ident = true → name.Makes holds cursor)
  (ascribed : (ascription below).Makes holds)

include ascribed

theorem makes_listItem (makes : below.Makes holds) : (listItem below).Makes holds cursor := by
  unfold Phrase.Makes listItem
  split
  · exact makes_take
  split
  · exact makes_sequence (makes_spread parts makes) (makes_separator parts _).only
  split
  · exact makes_sequence (makes_allow ascribed) (makes_separator parts _).only
  · exact makes_reject (parts rfl) _

include named

theorem makes_recordField (seen : cursor.sees .ident = true) :
    (recordField below).Makes holds cursor := by
  have settledSeen : cursor.settled.sees .ident = true := seen
  exact (makes_sequence (named settledSeen)
    (makes_when fun _ => makes_tokenThen (parts rfl) ascribed _).only).enclose (parts rfl _)

theorem makes_recordItem (makes : below.Makes holds) : (recordItem below).Makes holds cursor := by
  unfold Phrase.Makes recordItem
  split
  · exact makes_take
  split
  · exact makes_sequence (makes_spread parts makes) (makes_separator parts _).only
  split
  · rename_i seen
    exact makes_sequence (makes_recordField parts named ascribed seen)
      (makes_separator parts _).only
  · exact makes_reject (parts rfl) _

/-- The nodes inside of an atom. -/
theorem makes_inside_atom (makes : below.Makes holds) (expressed : (expression below).Makes holds)
    {node : Tree} {rest : Cursor} (found : atom below cursor = .found node rest) :
    ∃ kind children, node = .node kind children ∧ EverywhereIn holds children := by
  have built {kind : NodeKind} {phrase : Phrase} (makes : phrase.Makes holds cursor.settled)
      (found : build kind phrase cursor = .found node rest) :
      ∃ kind children, node = .node kind children ∧ EverywhereIn holds children := by
    simp only [build, Outcome.found.injEq] at found
    exact ⟨kind, _, found.1.symm, makes⟩
  have pair : (sequence [take, take]).Makes holds cursor.settled :=
    makes_sequence makes_take makes_take.only
  cases next : cursor.kind? with
  | none => simp [atom, next, nothing] at found
  | some token =>
      cases token <;> simp only [atom, next] at found
      case ident | underscore | int | float | string | bytes | byte => exact built makes_take found
      case minus =>
        split at found
        · exact built pair found
        · simp [nothing] at found
      case hash =>
        have tagged {cursor : Cursor} : tagName.Makes holds cursor :=
          makes_nameOr parts fun holds => named ((Bool.and_eq_true ..).mp holds).1
        exact built (makes_sequence makes_take tagged.only) found
      case openParen =>
        split at found
        · exact built pair found
        · exact built (makes_sequence makes_take
            (makes_sequence (makes_require (parts rfl) expressed _)
              (makes_expect (parts rfl) _ _).only)) found
      case openBracket =>
        exact built (makes_sequence makes_take
          (makes_sequence (makes_many fun _ _ => makes_listItem parts ascribed makes)
            (makes_expect (parts rfl) _ _).only)) found
      case openBrace =>
        exact built (makes_sequence makes_take
          (makes_sequence (makes_many fun _ _ => makes_recordItem parts named ascribed makes)
            (makes_expect (parts rfl) _ _).only)) found
      case pipe => exact built (makes_many fun _ _ => makes_patternCase parts makes) found
      all_goals simp [nothing] at found

end

theorem makes_sourceFile (makes : item.Makes holds) : sourceFile.Makes holds cursor := by
  have placed (cursor : Cursor) : sourceItem.Makes holds cursor := by
    unfold Phrase.Makes sourceItem
    split
    · exact makes_allow makes
    · exact makes_reject (parts rfl) _
  exact makes_sequence (makes_many fun cursor _ => placed cursor)
    (Phrase.Makes.only (everywhereIn_leaves _))

end

end Grammar

end Scrapscript
