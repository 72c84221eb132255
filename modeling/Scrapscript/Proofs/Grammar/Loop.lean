import Scrapscript.Proofs.Grammar.Operation

/-!
The loops of the grammar as relations. A loop is bounded by the words that are left; since each round
uses up a word, the bound is never met, and a loop goes on exactly as long as its condition says.
-/

namespace Scrapscript

namespace Phrase

/-- What a phrase places that is repeated as long as a condition holds. -/
inductive Repeated (condition : Cursor → Bool) (phrase : Phrase) : Cursor → Placement → Prop
  | done {cursor : Cursor} (ended : condition cursor = false) :
      Repeated condition phrase cursor ⟨[], cursor⟩
  | round {cursor : Cursor} {others : Placement} (more : condition cursor = true)
      (later : Repeated condition phrase (phrase cursor).rest others) :
      Repeated condition phrase cursor ⟨(phrase cursor).trees ++ others.trees, others.rest⟩

variable {condition : Cursor → Bool} {phrase : Phrase} {cursor : Cursor}

/-- Each round uses up a word. -/
def Advances (condition : Cursor → Bool) (phrase : Phrase) : Prop :=
  ∀ cursor, condition cursor = true → (phrase cursor).rest.words.length < cursor.words.length

theorem Advances.repeated (advances : Advances condition phrase) (rounds : List Word)
    (cursor : Cursor) (enough : cursor.words.length ≤ rounds.length) :
    Repeated condition phrase cursor (repeated condition phrase rounds cursor) := by
  induction rounds generalizing cursor with
  | nil =>
      refine .done (Bool.eq_false_iff.mpr fun more => ?_)
      have shorter := advances cursor more
      simp only [List.length_nil] at enough
      omega
  | cons round rounds inductionHypothesis =>
      unfold Phrase.repeated
      cases more : condition cursor with
      | false => exact .done more
      | true =>
          have shorter := advances cursor more
          simp only [List.length_cons] at enough
          exact .round more (inductionHypothesis _ (by omega))

theorem Advances.many (advances : Advances condition phrase) (cursor : Cursor) :
    Repeated condition phrase cursor (many condition phrase cursor) :=
  advances.repeated cursor.words cursor (Nat.le_refl _)

theorem Repeated.unique {placement other : Placement}
    (repeated : Repeated condition phrase cursor placement)
    (same : Repeated condition phrase cursor other) : placement = other := by
  induction repeated generalizing other with
  | done ended =>
      cases same with
      | done => rfl
      | round more later => simp [ended] at more
  | round more later inductionHypothesis =>
      cases same with
      | done ended => simp [more] at ended
      | round more otherLater => rw [inductionHypothesis otherLater]

theorem Repeated.placed {placement : Placement}
    (repeated : Repeated condition phrase cursor placement)
    (rounds : ∀ cursor, condition cursor = true →
      Placed cursor (phrase cursor).trees (phrase cursor).rest) :
    Placed cursor placement.trees placement.rest := by
  induction repeated with
  | done ended => exact .nothing _
  | round more later inductionHypothesis => exact .append (rounds _ more) inductionHypothesis

theorem Repeated.many_eq {placement : Placement} (advances : Advances condition phrase)
    (repeated : Repeated condition phrase cursor placement) :
    many condition phrase cursor = placement :=
  (advances.many cursor).unique repeated

end Phrase

namespace Rule

/-- The nodes that a node is wrapped into one after the other. -/
inductive Grown (growth : Cursor → Option Growth) (node : Tree) (cursor : Cursor) :
    Tree → Cursor → Prop
  | start : Grown growth node cursor node cursor
  | step {inner : Tree} {middle : Cursor} {larger : Growth}
      (before : Grown growth node cursor inner middle) (grows : growth middle = some larger) :
      Grown growth node cursor (.node larger.kind (inner :: (larger.tail middle).trees))
        (larger.tail middle).rest

variable {growth : Cursor → Option Growth} {node final : Tree} {cursor rest : Cursor}

/-- Each step of growth uses up a word. -/
def Advances (growth : Cursor → Option Growth) : Prop :=
  ∀ cursor larger, growth cursor = some larger →
    (larger.tail cursor).rest.words.length < cursor.words.length

theorem Advances.growth_eq_none (advances : Advances growth) (exhausted : cursor.words = []) :
    growth cursor = none := by
  cases next : growth cursor with
  | none => rfl
  | some larger =>
      have less := advances cursor larger next
      simp [exhausted] at less

theorem Grown.length_words_le (grown : Grown growth node cursor final rest)
    (advances : Advances growth) : rest.words.length ≤ cursor.words.length := by
  induction grown with
  | start => exact Nat.le_refl _
  | @step inner middle larger before grows inductionHypothesis =>
      have shorter := advances middle larger grows
      omega

theorem Grown.append {middle : Tree} {between : Cursor}
    (first : Grown growth node cursor middle between)
    (second : Grown growth middle between final rest) : Grown growth node cursor final rest := by
  induction second with
  | start => exact first
  | step before grows inductionHypothesis => exact .step inductionHypothesis grows

/-- A node that has nothing to grow into stays as it is. -/
theorem Grown.eq_of_none (grown : Grown growth node cursor final rest)
    (stopped : growth cursor = none) : final = node ∧ rest = cursor := by
  induction grown with
  | start => exact ⟨rfl, rfl⟩
  | step before grows inductionHypothesis =>
      rw [inductionHypothesis.2, stopped] at grows
      contradiction

/-- Whatever steps of growth come first, the loop goes on from there. -/
theorem Grown.grow_eq (grown : Grown growth node cursor final rest) (advances : Advances growth)
    (rounds : List Word) (enough : cursor.words.length ≤ rounds.length) :
    ∃ others : List Word, rest.words.length ≤ others.length ∧
      grow growth rounds node cursor = grow growth others final rest := by
  induction grown with
  | start => exact ⟨rounds, enough, rfl⟩
  | @step inner middle larger before grows inductionHypothesis =>
      obtain ⟨others, enough, same⟩ := inductionHypothesis
      have shorter := advances middle larger grows
      cases others with
      | nil =>
          simp only [List.length_nil] at enough
          omega
      | cons round others =>
          refine ⟨others, ?_, ?_⟩
          · simp only [List.length_cons] at enough
            omega
          · rw [same, grow, grows]

theorem grow_of_growth_eq_none (ended : growth cursor = none) (rounds : List Word) :
    grow growth rounds node cursor = .found node cursor := by
  cases rounds with
  | nil => rfl
  | cons round rounds => rw [grow, ended]

theorem exists_grown (advances : Advances growth) (rounds : List Word) (node : Tree)
    (cursor : Cursor) (enough : cursor.words.length ≤ rounds.length) :
    ∃ final rest, Grown growth node cursor final rest ∧ growth rest = none := by
  induction rounds generalizing node cursor with
  | nil =>
      have exhausted := List.length_eq_zero_iff.mp (Nat.le_zero.mp enough)
      exact ⟨node, cursor, .start, advances.growth_eq_none exhausted⟩
  | cons round rounds inductionHypothesis =>
      cases grows : growth cursor with
      | none => exact ⟨node, cursor, .start, grows⟩
      | some larger =>
          have shorter := advances cursor larger grows
          simp only [List.length_cons] at enough
          obtain ⟨final, rest, grown, ended⟩ :=
            inductionHypothesis (.node larger.kind (node :: (larger.tail cursor).trees))
              (larger.tail cursor).rest (by omega)
          exact ⟨final, rest, (Grown.step .start grows).append grown, ended⟩

/-- A rule with growth finds what the node below grows into. -/
theorem Advances.grown_eq_found_iff (advances : Advances growth) {rule : Rule} :
    rule.grown growth cursor = .found final rest ↔
      ∃ node middle, rule cursor = .found node middle ∧ Grown growth node middle final rest ∧
        growth rest = none := by
  unfold Rule.grown
  constructor
  · intro found
    cases ended : rule cursor with
    | absent | cut => simp [ended] at found
    | found node middle =>
        obtain ⟨other, otherRest, grown, stopped⟩ :=
          exists_grown advances middle.words node middle (Nat.le_refl _)
        obtain ⟨others, -, same⟩ := grown.grow_eq advances middle.words (Nat.le_refl _)
        rw [ended] at found
        simp only [same, grow_of_growth_eq_none stopped, Outcome.found.injEq] at found
        obtain ⟨rfl, rfl⟩ := found
        exact ⟨node, middle, rfl, grown, stopped⟩
  · intro found
    obtain ⟨node, middle, found, grown, stopped⟩ := found
    obtain ⟨others, -, same⟩ := grown.grow_eq advances middle.words (Nat.le_refl _)
    rw [found]
    simp only [same, grow_of_growth_eq_none stopped]

theorem extended_eq_found_iff {rule : Rule} {condition : Cursor → Bool} {kind : NodeKind}
    {tail : Phrase} :
    rule.extended condition kind tail cursor = .found final rest ↔
      ∃ node middle, rule cursor = .found node middle ∧
        (condition middle = true ∧ final = .node kind (node :: (tail middle).trees) ∧
            rest = (tail middle).rest ∨
          condition middle = false ∧ final = node ∧ rest = middle) := by
  unfold Rule.extended
  cases ended : rule cursor with
  | absent | cut => simp
  | found node middle =>
      simp only [Outcome.found.injEq]
      constructor
      · intro found
        refine ⟨node, middle, ⟨rfl, rfl⟩, ?_⟩
        cases holds : condition middle with
        | true =>
            simp only [holds, if_true, Outcome.found.injEq] at found
            exact .inl ⟨rfl, found.1.symm, found.2.symm⟩
        | false =>
            simp only [holds, Bool.false_eq_true, if_false, Outcome.found.injEq] at found
            exact .inr ⟨rfl, found.1.symm, found.2.symm⟩
      · intro found
        obtain ⟨_, _, ⟨rfl, rfl⟩, ⟨holds, rfl, rfl⟩ | ⟨holds, rfl, rfl⟩⟩ := found
        · simp [holds]
        · simp [holds]

/-- The larger node of a kind wherever a condition holds. -/
def Growth.onlyIf (condition : Cursor → Bool) (kind : NodeKind) (tail : Phrase) :
    Cursor → Option Growth :=
  fun cursor => if condition cursor then some ⟨kind, tail⟩ else none

theorem Growth.onlyIf_eq_some_iff {condition : Cursor → Bool} {kind : NodeKind} {tail : Phrase}
    {larger : Growth} :
    onlyIf condition kind tail cursor = some larger ↔
      condition cursor = true ∧ larger = ⟨kind, tail⟩ := by
  rw [onlyIf, Option.ite_none_right_eq_some, Option.some.injEq, eq_comm (a := larger)]

end Rule

namespace Grammar

open Scrapscript.Phrase Scrapscript.Rule

variable {below : Level} {cursor : Cursor}

theorem advances_onlyIf {condition : Cursor → Bool} {kind : NodeKind} {tail : Phrase}
    (progress : ∀ cursor, condition cursor = true →
      (tail cursor).rest.words.length < cursor.words.length) :
    Rule.Advances (Growth.onlyIf condition kind tail) := by
  intro cursor larger grows
  obtain ⟨holds, rfl⟩ := Growth.onlyIf_eq_some_iff.mp grows
  exact progress cursor holds

theorem growth_onlyIf_eq_none {condition : Cursor → Bool} {kind : NodeKind} {tail : Phrase} :
    Growth.onlyIf condition kind tail cursor = none ↔ condition cursor = false := by
  simp [Growth.onlyIf]

theorem accessing_advances :
    Rule.Advances (Growth.onlyIf (·.sees .dot) .fieldAccess (sequence [take, fieldName])) :=
  advances_onlyIf fun _ seen => length_takeThen_lt seen (fieldName_yields _).only

theorem clauses_advance (sound : below.Sound) :
    Rule.Advances (Growth.onlyIf (·.sees .semicolon) .whereClause
      (sequence [take, binding below])) :=
  advances_onlyIf fun _ seen => length_takeThen_lt seen (binding_yields sound _).only

/-- Whether another argument follows. -/
def seesFurther (cursor : Cursor) : Bool :=
  cursor.seesArgument && !seesDeclaration cursor

theorem arguments_advance (sound : below.Sound) :
    Rule.Advances (Growth.onlyIf seesFurther .application (allow (access below))) := by
  apply advances_onlyIf
  intro cursor further
  have seen : cursor.seesArgument = true := ((Bool.and_eq_true ..).mp further).1
  apply (access_builds sound).length_allowed_lt (by simp [Cursor.seesExpression, seen])
  intro exhausted
  simp [Cursor.seesArgument, Cursor.kind?, exhausted] at seen

theorem joining_advances (sound : below.Sound) (power : Nat) :
    Rule.Advances (joining below power) :=
  (joining_grows sound power).progress

theorem patternCase_advances (sound : below.Sound) :
    Phrase.Advances (·.sees .pipe) (patternCase below) :=
  fun _ seen => length_patternCase_lt sound seen

/-- The guard of a pattern case, if there is one. -/
theorem caseGuard_yields (sound : below.Sound) (cursor : Cursor) :
    (when (·.sees .question) (guard below)).Yields cursor fun _ _ => True :=
  yields_when (fun seen => (guard_yields sound seen).mono fun _ _ _ => trivial) fun _ => trivial

/-- The operand of a spread, if there is one. -/
theorem spreadOperand_yields (sound : below.Sound) (cursor : Cursor) :
    (when (·.seesExpression) (allow (below.binary 0))).Yields cursor fun _ _ => True :=
  yields_when (fun seen => ((sound.operand 0).allowed seen).mono fun _ _ _ => trivial)
    fun _ => trivial

theorem length_spread_lt (sound : below.Sound) (seen : cursor.sees .dotDot = true) :
    (spread below cursor).rest.words.length < cursor.words.length := by
  have settledSeen : cursor.settled.sees .dotDot = true := seen
  exact length_takeThen_lt settledSeen (spreadOperand_yields sound _).only

/-- The value of a record field, if there is one. -/
theorem fieldValue_yields (sound : below.Sound) (cursor : Cursor) :
    (when (·.sees .equals)
      (sequence [take, require (ascription below) .missingFieldValue])).Yields cursor
        fun _ _ => True :=
  yields_when (fun seen => (yields_takeThen seen (by decide)
      ((ascription_builds sound).required _ _).only).mono fun _ _ _ => trivial)
    fun _ => trivial

theorem length_recordField_lt (sound : below.Sound) (seen : cursor.sees .ident = true) :
    (recordField below cursor).rest.words.length < cursor.words.length := by
  have settledSeen : cursor.settled.sees .ident = true := seen
  have value := (fieldValue_yields sound (name cursor.settled).rest).only.placed.length_words_le
  have advanced := Cursor.length_advanced_lt (Cursor.words_ne_nil_of_sees seen)
  rw [name_rest settledSeen, Cursor.settled_advanced] at value
  simp only [recordField, enclose, Phrase.sequence, name_rest settledSeen,
    Cursor.settled_advanced] at value ⊢
  omega

theorem length_separated_lt {phrase : Phrase} (closer : TokenKind)
    (progress : (phrase cursor).rest.words.length < cursor.words.length) :
    (sequence [phrase, separator closer] cursor).rest.words.length < cursor.words.length := by
  have separator := (separator_yields closer (phrase cursor).rest).only.placed.length_words_le
  exact Nat.lt_of_le_of_lt separator progress

theorem length_reject_lt (fault : SyntaxFault) (inside : cursor.atEnd = false) :
    (reject fault cursor).rest.words.length < cursor.words.length := by
  obtain ⟨word, more, next⟩ := Cursor.atEnd_eq_false_iff.mp inside
  have begun : cursor.words ≠ [] := by simp [next]
  simpa [reject_eq fault next] using Cursor.length_advanced_lt begun

theorem length_take_lt {token : TokenKind} (seen : cursor.sees token = true) :
    (take cursor).rest.words.length < cursor.words.length := by
  rw [take_rest seen]
  exact Cursor.length_advanced_lt (Cursor.words_ne_nil_of_sees seen)

theorem listItem_advances (sound : below.Sound) : Phrase.Advances seesMore (listItem below) := by
  intro cursor more
  have inside := seesMore_atEnd more
  unfold listItem
  split
  · rename_i comma
    exact length_take_lt comma
  split
  · rename_i dots
    exact length_separated_lt _ (length_spread_lt sound dots)
  split
  · rename_i seen
    have begun : cursor.words ≠ [] := by
      obtain ⟨word, more, next⟩ := Cursor.atEnd_eq_false_iff.mp inside
      simp [next]
    exact length_separated_lt _ ((ascription_builds sound).length_allowed_lt seen begun)
  · exact length_reject_lt _ inside

theorem recordItem_advances (sound : below.Sound) :
    Phrase.Advances seesMore (recordItem below) := by
  intro cursor more
  unfold recordItem
  split
  · rename_i comma
    exact length_take_lt comma
  split
  · rename_i dots
    exact length_separated_lt _ (length_spread_lt sound dots)
  split
  · rename_i seen
    exact length_separated_lt _ (length_recordField_lt sound seen)
  · exact length_reject_lt _ (seesMore_atEnd more)

end Grammar

end Scrapscript
