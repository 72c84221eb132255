import Scrapscript.Proofs.Machine.Routines
import Scrapscript.Proofs.Tree.Condensed

/-!
What the spelling of tokens has to do with a parse: nothing. A program sees the kinds of the tokens
ahead, how many are left and where lines break; on two documents whose tokens look alike in this
way, the machine takes the same steps and builds trees that differ in the texts of their leaves
only.
-/

namespace Scrapscript

/-- All that a program can see of a token. -/
def Token.look (token : Token) : TokenKind × Bool :=
  (token.kind, token.breaksLine)

def Word.look (word : Word) : (TokenKind × Bool) × List (TokenKind × Bool) :=
  (word.token.look, word.after.tokens.map Token.look)

namespace Tree

mutual

/-- The tree without the texts of its leaves. -/
def unspelled : Tree → Tree
  | leaf token => leaf token.unspelled
  | node kind children => node kind (unspelledOf children)

def unspelledOf : List Tree → List Tree
  | [] => []
  | first :: rest => first.unspelled :: unspelledOf rest

end

theorem unspelledOf_eq_map (row : List Tree) : unspelledOf row = row.map unspelled := by
  induction row with
  | nil => rfl
  | cons first rest inductionHypothesis => rw [unspelledOf, List.map_cons, inductionHypothesis]

@[simp]
theorem unspelledOf_append (first second : List Tree) :
    unspelledOf (first ++ second) = unspelledOf first ++ unspelledOf second := by
  simp [unspelledOf_eq_map]

theorem unspelledOf_leaves {tokens others : List Token}
    (alike : tokens.map Token.look = others.map Token.look) :
    unspelledOf (leaves tokens) = unspelledOf (leaves others) := by
  have erased (tokens : List Token) :
      unspelledOf (leaves tokens) = (tokens.map Token.look).map fun look => leaf ⟨look.1, []⟩ := by
    simp [unspelledOf_eq_map, leaves, unspelled, Token.look, Token.unspelled]
  rw [erased, erased, alike]

end Tree

namespace Cursor

variable {cursor other : Cursor}

/-- Two cursors that look alike, whatever their tokens spell and their errors say. -/
structure Respells (cursor other : Cursor) : Prop where
  blanks : cursor.blanks.tokens.map Token.look = other.blanks.tokens.map Token.look
  words : cursor.words.map Word.look = other.words.map Word.look
  errors : cursor.errors.length = other.errors.length
  tooDeep : cursor.tooDeep = other.tooDeep

namespace Respells

theorem length_words (respells : cursor.Respells other) :
    cursor.words.length = other.words.length := by
  simpa using congrArg List.length respells.words

/-- A program sees no difference. -/
theorem glance_eq (respells : cursor.Respells other) : cursor.glance = other.glance := by
  have kinds (cursor : Cursor) (index : Nat) :
      cursor.words[index]?.map (·.token.kind) =
        (cursor.words.map Word.look)[index]?.map (·.1.1) := by
    simp [Word.look, Token.look, Function.comp_def]
  have breaks (cursor : Cursor) :
      cursor.afterLineBreak = (cursor.blanks.tokens.map Token.look).any Prod.snd := by
    simp [afterLineBreak, Token.look, Function.comp_def]
  have sizes (cursor : Cursor) : cursor.remaining.length =
      (cursor.blanks.tokens.map Token.look).length +
        ((cursor.words.map Word.look).map (·.2.length + 1)).sum := by
    simp [remaining, Word.look, Function.comp_def, List.length_flatMap]
  have first := kinds cursor 0
  have second := kinds cursor 1
  rw [respells.words, ← kinds other] at first second
  simp only [glance, kind?, following?, List.head?_eq_getElem?, List.getElem?_tail, breaks, sizes,
    respells.blanks, respells.words, first, second]

theorem settled (respells : cursor.Respells other) : cursor.settled.Respells other.settled :=
  ⟨rfl, respells.words, respells.errors, respells.tooDeep⟩

theorem report (respells : cursor.Respells other) (fault otherFault : SyntaxFault)
    (start stop otherStart otherStop : Nat) :
    (cursor.report fault start stop).Respells (other.report otherFault otherStart otherStop) :=
  ⟨respells.blanks, respells.words, by simp [respells.errors], respells.tooDeep⟩

end Respells

end Cursor

/-- Two placements whose trees differ in the texts of their leaves only. -/
structure Placement.Respells (placement other : Placement) : Prop where
  trees : Tree.unspelledOf placement.trees = Tree.unspelledOf other.trees
  rest : placement.rest.Respells other.rest

namespace Phrase

variable {cursor other : Cursor}

theorem blanks_respells (respells : cursor.Respells other) :
    (blanks cursor).Respells (blanks other) :=
  ⟨Tree.unspelledOf_leaves respells.blanks, respells.settled⟩

theorem take_respells (respells : cursor.Respells other) : (take cursor).Respells (take other) := by
  have words := respells.words
  have size := respells.length_words
  cases next : cursor.words with
  | nil =>
      have otherNext : other.words = [] := by simpa [next] using size.symm
      simpa only [take, next, otherNext] using blanks_respells respells
  | cons word more =>
      cases otherNext : other.words with
      | nil => simp [next, otherNext] at size
      | cons otherWord others =>
          simp only [next, otherNext, List.map_cons, List.cons.injEq, Word.look, Prod.mk.injEq]
            at words
          rw [take_eq next, take_eq otherNext]
          refine ⟨?_, ?_⟩
          · have leaf : word.token.unspelled = otherWord.token.unspelled := by
              rw [Token.unspelled, Token.unspelled, show word.token.kind = otherWord.token.kind from
                congrArg Prod.fst words.1.1]
            simp only [Tree.unspelledOf_append, Tree.unspelledOf_leaves respells.blanks]
            simp [Tree.unspelledOf, Tree.unspelled, leaf]
          · simp only [Cursor.advanced_eq next, Cursor.advanced_eq otherNext]
            exact ⟨words.1.2, words.2, respells.errors, respells.tooDeep⟩

theorem missing_respells (respells : cursor.Respells other) (fault otherFault : SyntaxFault) :
    (missing fault cursor).Respells (missing otherFault other) :=
  ⟨rfl, respells.report _ _ _ _ _ _⟩

theorem reject_respells (respells : cursor.Respells other) (fault otherFault : SyntaxFault) :
    (reject fault cursor).Respells (reject otherFault other) := by
  have inside := take_respells ((respells.report fault otherFault cursor.start cursor.nextStop
    other.start other.nextStop).settled)
  refine ⟨?_, inside.rest⟩
  simp [reject, enclose, Tree.unspelledOf_leaves respells.blanks, Tree.unspelledOf, Tree.unspelled,
    inside.trees]

theorem repeated_respells {condition : Cursor → Bool} {phrase : Phrase}
    (blind : ∀ cursor other : Cursor, cursor.Respells other → condition cursor = condition other)
    (uniform : ∀ cursor other : Cursor, cursor.Respells other →
      (phrase cursor).Respells (phrase other))
    (rounds otherRounds : List Word) (size : rounds.length = otherRounds.length)
    (respells : cursor.Respells other) :
    (repeated condition phrase rounds cursor).Respells
      (repeated condition phrase otherRounds other) := by
  induction rounds generalizing cursor other otherRounds with
  | nil =>
      obtain rfl : otherRounds = [] := by simpa using size.symm
      exact ⟨rfl, respells⟩
  | cons round rounds inductionHypothesis =>
      obtain ⟨otherRound, otherRounds, rfl⟩ := List.exists_cons_of_length_eq_add_one size.symm
      simp only [repeated, blind cursor other respells]
      split
      · have first := uniform cursor other respells
        have others := inductionHypothesis otherRounds (by simpa using size) first.rest
        exact ⟨by simp [first.trees, others.trees], others.rest⟩
      · exact ⟨rfl, respells⟩

theorem cutOff_respells (respells : cursor.Respells other) :
    (allow Rule.cutOff cursor).Respells (allow Rule.cutOff other) := by
  have blind (cursor other : Cursor) (respells : cursor.Respells other) :
      (!cursor.atEnd) = !other.atEnd := by
    rw [← Cursor.glance_atEnd, ← Cursor.glance_atEnd, respells.glance_eq]
  have drained := repeated_respells blind (fun _ _ => take_respells) cursor.words other.words
    respells.length_words respells.settled
  refine ⟨?_, ?_⟩
  · simp only [allow, Rule.cutOff, many, Tree.unspelledOf_append,
      Tree.unspelledOf_leaves respells.blanks, Tree.unspelledOf, Tree.unspelled]
    rw [Cursor.settled_words, Cursor.settled_words, drained.trees]
  · have ended := drained.rest
    exact ⟨ended.blanks, ended.words, congrArg Nat.succ ended.errors, rfl⟩

end Phrase

namespace Builder

variable {builder other later : Builder}

/-- Two builders whose trees differ in the texts of their leaves only. -/
structure Respells (builder other : Builder) : Prop where
  begun : builder.begun = other.begun
  children : builder.children.map Tree.unspelled = other.children.map Tree.unspelled

theorem Respells.mark_eq (respells : builder.Respells other) : builder.mark = other.mark := by
  simpa [mark] using congrArg List.length respells.children

theorem Respells.add {trees others : List Tree} (respells : builder.Respells other)
    (alike : Tree.unspelledOf trees = Tree.unspelledOf others) :
    (builder.add trees).Respells (other.add others) := by
  rw [Tree.unspelledOf_eq_map, Tree.unspelledOf_eq_map] at alike
  exact ⟨respells.begun, by simp [Builder.add, respells.children, alike]⟩

theorem Respells.start (respells : builder.Respells other) (kind : NodeKind) :
    (builder.start kind).Respells (other.start kind) :=
  ⟨by simp [Builder.start, respells.begun, respells.mark_eq], respells.children⟩

theorem Respells.startAt? {mark : Nat} {kind : NodeKind} (respells : builder.Respells other)
    (started : builder.startAt? mark kind = some later) :
    ∃ twin, other.startAt? mark kind = some twin ∧ later.Respells twin := by
  simp only [Builder.startAt?, Option.ite_none_right_eq_some, Option.some.injEq] at started ⊢
  obtain ⟨good, rfl⟩ := started
  rw [respells.mark_eq, respells.begun] at good
  exact ⟨_, ⟨good, rfl⟩, by simp [respells.begun], respells.children⟩

theorem Respells.finish? (respells : builder.Respells other)
    (finished : builder.finish? = some later) :
    ∃ twin, other.finish? = some twin ∧ later.Respells twin := by
  unfold Builder.finish? at finished ⊢
  rw [respells.begun] at finished
  split at finished
  · contradiction
  · rename_i kind first begun known
    obtain rfl := Option.some.inj finished
    refine ⟨_, rfl, rfl, ?_⟩
    have before := congrArg (List.take first) respells.children
    have inside := congrArg (List.drop first) respells.children
    rw [← List.map_take, ← List.map_take] at before
    rw [← List.map_drop, ← List.map_drop, ← Tree.unspelledOf_eq_map,
      ← Tree.unspelledOf_eq_map] at inside
    simp only [List.map_append, before, List.map_cons, Tree.unspelled, inside, List.map_nil]

end Builder

namespace Machine

variable {state other after : State} {machine twin next final : Machine}

/-- Two states that look alike to a program. -/
structure State.Respells (state other : State) : Prop where
  cursor : state.cursor.Respells other.cursor
  builder : state.builder.Respells other.builder
  depth : state.depth = other.depth

namespace State

theorem Respells.place {placement twin : Placement} (respells : state.Respells other)
    (alike : placement.Respells twin) : (state.place placement).Respells (other.place twin) :=
  ⟨alike.rest, respells.builder.add alike.trees, respells.depth⟩

theorem Respells.perform? {action : Action} (respells : state.Respells other)
    (acted : state.perform? action = some after) :
    ∃ twin, other.perform? action = some twin ∧ after.Respells twin := by
  have settled := respells.place (Phrase.blanks_respells respells.cursor)
  cases action with
  | flush =>
      obtain rfl := Option.some.inj acted
      exact ⟨_, rfl, settled⟩
  | bump =>
      obtain rfl := Option.some.inj acted
      exact ⟨_, rfl, respells.place (Phrase.take_respells respells.cursor)⟩
  | start kind =>
      obtain rfl := Option.some.inj acted
      exact ⟨_, rfl, settled.cursor, settled.builder.start kind, settled.depth⟩
  | startAt mark kind =>
      obtain ⟨builder, started, rfl⟩ := Option.map_eq_some_iff.mp acted
      obtain ⟨twin, alsoStarted, alike⟩ := respells.builder.startAt? started
      exact ⟨{ other with builder := twin }, by simp [State.perform?, alsoStarted],
        respells.cursor, alike, respells.depth⟩
  | finish =>
      obtain ⟨builder, finished, rfl⟩ := Option.map_eq_some_iff.mp acted
      obtain ⟨twin, alsoFinished, alike⟩ := respells.builder.finish? finished
      exact ⟨{ other with builder := twin }, by simp [State.perform?, alsoFinished],
        respells.cursor, alike, respells.depth⟩
  | missing complaint =>
      obtain rfl := Option.some.inj acted
      exact ⟨_, rfl, respells.place (Phrase.missing_respells respells.cursor _ _)⟩
  | reject complaint =>
      obtain rfl := Option.some.inj acted
      exact ⟨_, rfl, respells.place (Phrase.reject_respells respells.cursor _ _)⟩

end State

/-- Two machines that do the same on tokens that look alike. -/
structure Respells (machine twin : Machine) : Prop where
  control : machine.control = twin.control
  stack : machine.stack = twin.stack
  state : machine.state.Respells twin.state

theorem enter_respells (routine : Routine) (continuation : Bool → Program)
    (stack : List Activation) (respells : state.Respells other) :
    (enter routine continuation stack state).Respells
      (enter routine continuation stack other) := by
  simp only [enter, respells.cursor.tooDeep, respells.depth]
  split
  · split
    · exact ⟨rfl, rfl, respells⟩
    · split
      · exact ⟨rfl, rfl, respells.place (Phrase.cutOff_respells respells.cursor)⟩
      · exact ⟨rfl, rfl, respells.cursor, respells.builder, congrArg (· + 1) respells.depth⟩
  · exact ⟨rfl, rfl, respells⟩

/-- A program sees no difference, so that the machines take the same step. -/
theorem Respells.step (respells : machine.Respells twin) (stepped : Step machine next) :
    ∃ twinNext, Step twin twinNext ∧ next.Respells twinNext := by
  obtain ⟨control, stack, state⟩ := machine
  obtain ⟨twinControl, twinStack, other⟩ := twin
  obtain ⟨rfl, rfl, alike⟩ := respells
  have alike : state.Respells other := alike
  have settled := alike.place (Phrase.blanks_respells alike.cursor)
  cases control with
  | done answer =>
      cases stack with
      | nil => contradiction
      | cons activation stack =>
          obtain rfl := Option.some.inj stepped
          refine ⟨_, rfl, rfl, rfl, ?_⟩
          simp only [leave]
          split
          · exact ⟨alike.cursor, alike.builder, congrArg (· - 1) alike.depth⟩
          · exact alike
  | perform action continuation =>
      obtain ⟨after, acted, rfl⟩ := Option.map_eq_some_iff.mp stepped
      obtain ⟨twin, alsoActed, same⟩ := alike.perform? acted
      exact ⟨⟨continuation, stack, twin⟩, by simp [Step, Machine.step, alsoActed], rfl, rfl, same⟩
  | look continuation =>
      obtain rfl := Option.some.inj stepped
      exact ⟨_, rfl, congrArg continuation alike.cursor.glance_eq, rfl, alike⟩
  | mark continuation =>
      obtain rfl := Option.some.inj stepped
      exact ⟨_, rfl, congrArg continuation settled.builder.mark_eq, rfl, settled⟩
  | call routine continuation =>
      obtain rfl := Option.some.inj stepped
      exact ⟨_, rfl, enter_respells routine continuation stack alike⟩
  | again round continuation =>
      obtain rfl := Option.some.inj stepped
      exact ⟨_, rfl, rfl, rfl, alike⟩

theorem Respells.steps (respells : machine.Respells twin) (run : Steps machine final) :
    ∃ twinFinal, Steps twin twinFinal ∧ final.Respells twinFinal := by
  induction run with
  | refl => exact ⟨twin, .refl, respells⟩
  | tail earlier stepped inductionHypothesis =>
      obtain ⟨reached, twinRun, alike⟩ := inductionHypothesis
      obtain ⟨twinNext, twinStep, same⟩ := alike.step stepped
      exact ⟨twinNext, twinRun.tail twinStep, same⟩

end Machine

theorem Cursor.ofTokens_respells {tokens others : List Token}
    (alike : tokens.map Token.look = others.map Token.look) :
    (ofTokens tokens).Respells (ofTokens others) := by
  have grouped : (ofTokens tokens).blanks.tokens.map Token.look =
        (ofTokens others).blanks.tokens.map Token.look ∧
      (ofTokens tokens).words.map Word.look = (ofTokens others).words.map Word.look := by
    induction tokens generalizing others with
    | nil =>
        obtain rfl : others = [] := by simpa using alike.symm
        exact ⟨rfl, rfl⟩
    | cons token rest inductionHypothesis =>
        cases others with
        | nil => simp at alike
        | cons other others =>
            simp only [List.map_cons, List.cons.injEq] at alike
            obtain ⟨blanks, words⟩ := inductionHypothesis alike.2
            simp only [ofTokens] at blanks words
            have kind : token.kind = other.kind := congrArg Prod.fst alike.1
            cases trivia : token.isTrivia with
            | true =>
                have alsoTrivia : other.isTrivia = true := by rwa [Token.isTrivia, ← kind]
                simp [ofTokens, Word.group, trivia, alsoTrivia, Blanks.cons, alike.1, blanks, words]
            | false =>
                have alsoWord : other.isTrivia = false := by rwa [Token.isTrivia, ← kind]
                simp [ofTokens, Word.group, trivia, alsoWord, Word.look, alike.1, blanks, words]
  exact ⟨grouped.1, grouped.2, rfl, rfl⟩

/-- Documents whose tokens look alike have trees that differ in the texts of their leaves only. -/
theorem Parse.unspelled_of_look {text other : Text}
    (alike : (Lexer.tokenize text).map Token.look = (Lexer.tokenize other).map Token.look) :
    (ofText text).tree.unspelled = (ofText other).tree.unspelled ∧
      (ofText text).errors.length = (ofText other).errors.length ∧
      (ofText text).tooDeep = (ofText other).tooDeep := by
  have begun : (Machine.start text).Respells (Machine.start other) :=
    ⟨rfl, rfl, Cursor.ofTokens_respells alike, ⟨rfl, rfl⟩, rfl⟩
  obtain ⟨final, run, respells⟩ := begun.steps (Machine.start_steps text)
  have halted : final.step = none := by
    have control : final.control = .done true := respells.control.symm
    have stack : final.stack = [] := respells.stack.symm
    simp [Machine.step, control, stack]
  obtain rfl := (Machine.start_steps other).eq_of_halted (Machine.ended_step other) run halted
  have errors := respells.state.cursor.errors
  have tree := respells.state.builder.children
  refine ⟨?_, ?_, respells.state.cursor.tooDeep⟩
  · simpa [Machine.ended, Builder.empty, Builder.add] using tree
  · simpa [Parse.ofText, Parse.ofTokens, Machine.ended] using errors

end Scrapscript
