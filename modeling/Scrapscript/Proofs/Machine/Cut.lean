import Scrapscript.Proofs.Locality
import Scrapscript.Proofs.Machine.Debt

/-!
What a parse that is cut off leaves behind: one error, one error node with all words that were left,
and after them nothing but missing pieces. Where that node is among the trees under construction is
followed through every step.
-/

namespace Scrapscript

namespace Tree

/-- The trees in a row of trees and where they start, each before what is below it. -/
def spots (start : Nat) (row : List Tree) : List (Tree × Nat) :=
  (Place.preorderOf .sourceFile 0 [] [] start row).map fun place => (place.tree, place.start)

theorem map_preorderOf_eq_spots (kind : NodeKind) (origin : Nat) (above : List Frame)
    (before : List Tree) (start : Nat) (row : List Tree) :
    (Place.preorderOf kind origin above before start row).map
      (fun place => (place.tree, place.start)) = spots start row := by
  simpa [spots] using
    Place.map_preorderOf 0 kind .sourceFile origin 0 above [] before [] start row

theorem map_preorder_eq_spots (above : List Frame) (start : Nat) (tree : Tree) :
    (Place.preorder above start tree).map (fun place => (place.tree, place.start)) =
      spots start [tree] := by
  simpa [spots, Place.preorderOf] using Place.map_preorder 0 above _ start tree

theorem spots_append (start : Nat) (first second : List Tree) :
    spots start (first ++ second) = spots start first ++ spots (start + widthOf first) second := by
  induction first generalizing start with
  | nil => simp [spots, Place.preorderOf, widthOf]
  | cons tree rest inductionHypothesis =>
      have split (row : List Tree) :
          spots start (tree :: row) = spots start [tree] ++ spots (start + tree.width) row := by
        rw [← map_preorder_eq_spots [⟨.sourceFile, 0, [], row⟩],
          ← map_preorderOf_eq_spots .sourceFile 0 [] [tree] (start + tree.width)]
        simp [spots, Place.preorderOf]
      rw [List.cons_append, split, split rest, inductionHypothesis, List.append_assoc, widthOf,
        Nat.add_assoc]

theorem spots_node (start : Nat) (kind : NodeKind) (children : List Tree) :
    spots start [.node kind children] = (.node kind children, start) :: spots start children := by
  rw [← map_preorder_eq_spots [], Place.preorder, List.map_cons, map_preorderOf_eq_spots]
  rfl

end Tree

namespace Builder

variable {builder later : Builder}

/-- The trees of a builder and where they start. -/
def spots (builder : Builder) : List (Tree × Nat) :=
  Tree.spots 0 builder.children

def tokens (builder : Builder) : List Token :=
  Tree.tokensOf builder.children

theorem spots_add (builder : Builder) (trees : List Tree) :
    (builder.add trees).spots =
      builder.spots ++ Tree.spots (Token.widthOf builder.tokens) trees := by
  rw [spots, add, Tree.spots_append, Nat.zero_add, Tree.widthOf_eq]
  rfl

theorem tokens_add (builder : Builder) (trees : List Tree) :
    (builder.add trees).tokens = builder.tokens ++ Tree.tokensOf trees :=
  Tree.tokensOf_append _ _

/-- A node that is finished is one more tree, around some that were there. -/
theorem spots_finish (finished : builder.finish? = some later) :
    builder.spots ⊆ later.spots := by
  unfold finish? at finished
  split at finished
  · contradiction
  · rename_i kind first begun known
    obtain rfl := Option.some.inj finished
    have divided := List.take_append_drop first builder.children
    rw [spots, spots, Tree.spots_append, Tree.spots_node, ← divided, Tree.spots_append, divided]
    intro spot membership
    rcases List.mem_append.mp membership with before | inside
    · exact List.mem_append_left _ before
    · exact List.mem_append_right _ (List.mem_cons_of_mem _ inside)

theorem tokens_finish (finished : builder.finish? = some later) :
    later.tokens = builder.tokens := by
  unfold finish? at finished
  split at finished
  · contradiction
  · rename_i kind first begun known
    obtain rfl := Option.some.inj finished
    have divided := congrArg Tree.tokensOf (List.take_append_drop first builder.children)
    rw [Tree.tokensOf_append] at divided
    simpa [tokens, Tree.tokensOf_append, Tree.tokensOf, Tree.tokens] using divided

end Builder

/-- What a phrase places comes next among the tokens, and the cursor moves by its width. -/
structure Placement.Continues (placement : Placement) (cursor : Cursor) : Prop where
  tokens : Tree.tokensOf placement.trees ++ placement.rest.remaining = cursor.remaining
  stop : placement.rest.stop = cursor.stop + Tree.widthOf placement.trees

theorem Placed.continues {cursor rest : Cursor} {trees : List Tree}
    (placed : Placed cursor trees rest) : Placement.Continues ⟨trees, rest⟩ cursor :=
  ⟨placed.tokens, placed.stop_eq⟩

namespace Phrase

variable (cursor : Cursor)

theorem take_continues : (take cursor).Continues cursor := by
  cases next : cursor.words with
  | nil =>
      simp only [take, next]
      exact (Placed.blanks cursor).continues
  | cons word more =>
      rw [take_eq next]
      constructor
      · simpa [Tree.tokensOf, Tree.tokens] using Cursor.remaining_advanced next
      · simp [Cursor.advanced_eq next, Cursor.start, Tree.widthOf, Tree.width, Nat.add_assoc]

theorem reject_continues (fault : SyntaxFault) : (reject fault cursor).Continues cursor := by
  have inside := take_continues (cursor.report fault cursor.start cursor.nextStop).settled
  have settled := (cursor.report fault cursor.start cursor.nextStop).remaining_settled
  constructor
  · rw [← inside.tokens] at settled
    simpa [reject, enclose, Tree.tokensOf, Tree.tokens] using settled
  · have stop := inside.stop
    simpa [reject, enclose, Tree.widthOf, Tree.width, Nat.add_assoc] using stop

/-- What is done at the nesting limit: all words that are left go into an error node. -/
theorem allow_cutOff : ∃ (inside : List Token) (last : Blanks),
    inside ++ last.tokens = cursor.settled.remaining ∧
      allow Rule.cutOff cursor =
        ⟨Tree.leaves cursor.blanks.tokens ++ [.node .error (Tree.leaves inside)],
          ⟨last, [], cursor.start + Token.widthOf inside,
            ⟨.nestedTooDeeply, if cursor.atEnd then cursor.stop else cursor.start,
              cursor.start + Token.widthOf inside⟩ :: cursor.errors, true⟩⟩ := by
  obtain ⟨inside, last, drained, remaining⟩ :=
    Rule.repeated_take cursor.settled.words cursor.settled rfl
  refine ⟨inside, last, remaining, ?_⟩
  simp only [allow, Rule.cutOff, many, drained]
  rfl

end Phrase

theorem Blanks.countP_tokens (blanks : Blanks) : blanks.tokens.countP (! ·.isTrivia) = 0 := by
  rw [List.countP_eq_zero]
  intro token membership
  simp [blanks.trivia token membership]

/-- Whether an error is that of the nesting limit. -/
def SyntaxError.isCut (error : SyntaxError) : Bool :=
  error.fault == .nestedTooDeeply

namespace Machine

variable {state after : State} {machine next : Machine} {all : List Token}

namespace State

/-- What is placed and what is left are all tokens of the document. -/
structure Spells (all : List Token) (state : State) : Prop where
  tokens : state.builder.tokens ++ state.cursor.remaining = all
  stop : state.cursor.stop = Token.widthOf state.builder.tokens

theorem Spells.place {placement : Placement} (spells : state.Spells all)
    (continues : placement.Continues state.cursor) : (state.place placement).Spells all := by
  constructor
  · rw [← spells.tokens, ← continues.tokens]
    simp [State.place, Builder.tokens_add]
  · have stop := continues.stop
    rw [spells.stop, Tree.widthOf_eq, ← Token.widthOf_append] at stop
    simpa [State.place, Builder.tokens_add] using stop

theorem Spells.moves (spells : state.Spells all) (moves : state.Moves after) :
    after.Spells all := by
  have settled := spells.place (Placed.blanks state.cursor).continues
  cases moves with
  | still | deeper | shallower => exact ⟨spells.tokens, spells.stop⟩
  | cut =>
      obtain ⟨inside, last, remaining, cut⟩ := Phrase.allow_cutOff state.cursor
      rw [State.cut, cut]
      exact spells.place (Placed.cut _ remaining).continues
  | act action acted =>
      cases action with
      | flush | start =>
          obtain rfl := Option.some.inj acted
          exact ⟨settled.tokens, settled.stop⟩
      | bump =>
          obtain rfl := Option.some.inj acted
          exact spells.place (Phrase.take_continues _)
      | missing complaint =>
          obtain rfl := Option.some.inj acted
          exact spells.place (Placed.missing _ _).continues
      | reject complaint =>
          obtain rfl := Option.some.inj acted
          exact spells.place (Phrase.reject_continues _ _)
      | startAt mark kind =>
          obtain ⟨builder, started, rfl⟩ := Option.map_eq_some_iff.mp acted
          simp only [Builder.startAt?, Option.ite_none_right_eq_some, Option.some.injEq] at started
          obtain ⟨-, rfl⟩ := started
          exact ⟨spells.tokens, spells.stop⟩
      | finish =>
          obtain ⟨builder, finished, rfl⟩ := Option.map_eq_some_iff.mp acted
          have same := Builder.tokens_finish finished
          exact ⟨same ▸ spells.tokens, same ▸ spells.stop⟩

theorem Moves.spots_subset (moves : state.Moves after) :
    state.builder.spots ⊆ after.builder.spots := by
  have added (trees : List Tree) : state.builder.spots ⊆ (state.builder.add trees).spots := by
    rw [Builder.spots_add]
    exact List.subset_append_left _ _
  cases moves with
  | still | deeper | shallower => exact List.Subset.refl _
  | cut => exact added _
  | act action acted =>
      cases action with
      | flush | bump | missing | reject | start =>
          obtain rfl := Option.some.inj acted
          exact added _
      | startAt mark kind =>
          obtain ⟨builder, started, rfl⟩ := Option.map_eq_some_iff.mp acted
          simp only [Builder.startAt?, Option.ite_none_right_eq_some, Option.some.injEq] at started
          obtain ⟨-, rfl⟩ := started
          exact List.Subset.refl _
      | finish =>
          obtain ⟨builder, finished, rfl⟩ := Option.map_eq_some_iff.mp acted
          exact Builder.spots_finish finished

theorem Shifts.stop_le {cursor rest : Cursor} (shifts : Shifts cursor rest) :
    cursor.stop ≤ rest.stop := by
  cases shifts with
  | still => exact Nat.le_refl _
  | settled => exact Nat.le_add_right _ _
  | taken => exact (Phrase.take_continues cursor).stop ▸ Nat.le_add_right _ _
  | missing => exact Nat.le_refl _
  | rejected => exact (Phrase.reject_continues cursor _).stop ▸ Nat.le_add_right _ _
  | cut =>
      obtain ⟨inside, last, -, cut⟩ := Phrase.allow_cutOff cursor
      rw [cut]
      simp only [Cursor.start]
      omega

/-- Apart from the nesting limit, a step adds errors of other kinds. They are empty and not before
the cursor if no word is left. -/
theorem Shifts.errors {cursor rest : Cursor} (shifts : Shifts cursor rest)
    (same : rest.tooDeep = cursor.tooDeep) :
    ∃ added, rest.errors = added ++ cursor.errors ∧
      ∀ error ∈ added, error.isCut = false ∧
        (cursor.words = [] → error.start = error.stop ∧ cursor.stop ≤ error.start) := by
  have taken (cursor : Cursor) : (Phrase.take cursor).rest.errors = cursor.errors := by
    cases next : cursor.words with
    | nil => simp [Phrase.take, Phrase.blanks, next]
    | cons word more => simp [Phrase.take_eq next, Cursor.advanced_eq next]
  cases shifts with
  | still | settled => exact ⟨[], rfl, by simp⟩
  | taken => exact ⟨[], taken cursor, by simp⟩
  | missing complaint =>
      refine ⟨[⟨complaint.fault, cursor.stop, cursor.stop⟩], rfl, ?_⟩
      simp [SyntaxError.isCut, complaint.ordinary]
  | rejected complaint =>
      refine ⟨[⟨complaint.fault, cursor.start, cursor.nextStop⟩], taken _, ?_⟩
      simp only [List.mem_singleton, forall_eq]
      refine ⟨by simp [SyntaxError.isCut, complaint.ordinary], fun ended => ⟨?_, ?_⟩⟩
      · simp [Cursor.nextStop, Cursor.nextText, ended, Text.bytes]
      · exact Nat.le_add_right _ _
  | cut shallow =>
      obtain ⟨inside, last, -, cut⟩ := Phrase.allow_cutOff cursor
      simp [cut, shallow] at same

end State

/-- How the parse of a document is cut off. -/
structure Cut (all : List Token) where
  before : List Token
  /-- The tokens of the error node. -/
  inside : List Token
  after : List Token
  whole : before ++ inside ++ after = all
  /-- No word is left. -/
  blank : ∀ token ∈ after, token.isTrivia = true
  /-- Half as many words come first as there may be levels of nesting. -/
  late : Grammar.depthLimit / 2 ≤ before.countP (! ·.isTrivia)
  error : SyntaxError
  fault : error.fault = .nestedTooDeeply
  start : inside = [] ∨ error.start = Token.widthOf before
  stop : error.stop = Token.widthOf (before ++ inside)

namespace Cut

variable (cut : Cut all)

/-- The error node and where it starts. -/
def spot : Tree × Nat :=
  (.node .error (Tree.leaves cut.inside), Token.widthOf cut.before)

/-- The error of the cut is the only one of its kind, and the newer ones only say that something is
missing. The newest error comes first. -/
def Among (errors : List SyntaxError) : Prop :=
  ∃ later earlier, errors = later ++ cut.error :: earlier ∧
    (∀ error ∈ later, error.isCut = false ∧ error.start = error.stop ∧
      cut.error.stop ≤ error.start) ∧
    ∀ error ∈ earlier, error.isCut = false

end Cut

namespace State

/-- A parse has the error of the nesting limit, and the error node for it, exactly if it is cut
off. -/
inductive Accounts (all : List Token) (state : State) : Prop
  | shallow (shallow : state.cursor.tooDeep = false)
      (ordinary : ∀ error ∈ state.cursor.errors, error.isCut = false)
  | cut (deep : state.cursor.tooDeep = true) (exhausted : state.cursor.words = [])
      (cut : Cut all) (placed : cut.spot ∈ state.builder.spots)
      (passed : cut.error.stop ≤ state.cursor.stop) (among : cut.Among state.cursor.errors)

theorem Accounts.moves (accounts : state.Accounts all) (moves : state.Moves after)
    (same : after.cursor.tooDeep = state.cursor.tooDeep) : after.Accounts all := by
  obtain ⟨added, errors, sorts⟩ := moves.shifts.errors same
  cases accounts with
  | shallow shallow ordinary =>
      refine .shallow (same.trans shallow) fun error membership => ?_
      rw [errors] at membership
      rcases List.mem_append.mp membership with new | old
      · exact (sorts error new).1
      · exact ordinary error old
  | cut deep exhausted cut placed passed among =>
      have fewer := moves.shifts.length_words_le
      rw [exhausted, List.length_nil, Nat.le_zero, List.length_eq_zero_iff] at fewer
      obtain ⟨later, earlier, split, empty, ordinary⟩ := among
      refine .cut (same.trans deep) fewer cut (moves.spots_subset placed)
        (Nat.le_trans passed moves.shifts.stop_le) ⟨added ++ later, earlier, ?_, ?_, ordinary⟩
      · rw [errors, split, List.append_assoc]
      · intro error membership
        rcases List.mem_append.mp membership with new | old
        · obtain ⟨other, width⟩ := sorts error new
          exact ⟨other, (width exhausted).1, Nat.le_trans passed (width exhausted).2⟩
        · exact empty error old

/-- The cut that is made at the nesting limit. -/
theorem Accounts.cutOff (accounts : state.Accounts all) (spells : state.Spells all)
    (shallow : state.cursor.tooDeep = false)
    (late : state.cursor.words.length + Grammar.depthLimit / 2 ≤ all.countP (! ·.isTrivia)) :
    state.cut.Accounts all := by
  obtain ⟨inside, last, remaining, cut⟩ := Phrase.allow_cutOff state.cursor
  have whole :
      state.builder.tokens ++ state.cursor.blanks.tokens ++ inside ++ last.tokens = all := by
    rw [List.append_assoc, remaining, List.append_assoc, state.cursor.remaining_settled,
      spells.tokens]
  have counted := congrArg (List.countP (! ·.isTrivia)) spells.tokens
  rw [List.countP_append, state.cursor.countP_remaining] at counted
  have starts : state.cursor.start =
      Token.widthOf (state.builder.tokens ++ state.cursor.blanks.tokens) := by
    rw [Cursor.start, spells.stop, Token.widthOf_append]
  have ordinary : ∀ error ∈ state.cursor.errors, error.isCut = false := by
    cases accounts with
    | shallow _ ordinary => exact ordinary
    | cut deep => exact absurd (shallow.symm.trans deep) Bool.false_ne_true
  let made : Cut all :=
    { before := state.builder.tokens ++ state.cursor.blanks.tokens
      inside, after := last.tokens, whole, blank := last.trivia
      late := by
        rw [List.countP_append, Blanks.countP_tokens]
        omega
      error := ⟨.nestedTooDeeply,
        if state.cursor.atEnd then state.cursor.stop else state.cursor.start,
        state.cursor.start + Token.widthOf inside⟩
      fault := rfl
      start := by
        cases ended : state.cursor.atEnd with
        | true =>
            have exhausted : state.cursor.words = [] := by simpa [Cursor.atEnd] using ended
            have nothing : state.cursor.settled.remaining = [] := by
              simp [Cursor.remaining, exhausted]
            rw [nothing] at remaining
            exact .inl (List.append_eq_nil_iff.mp remaining).1
        | false => exact .inr (by simp [starts])
      stop := by rw [Token.widthOf_append, starts] }
  have placed : state.cut = state.place ⟨Tree.leaves state.cursor.blanks.tokens ++
      [.node .error (Tree.leaves inside)], ⟨last, [], made.error.stop,
        made.error :: state.cursor.errors, true⟩⟩ := by
    rw [State.cut, cut]
  rw [placed]
  refine .cut rfl rfl made ?_ (Nat.le_refl _) ⟨[], _, rfl, by simp, ordinary⟩
  simp only [State.place, Builder.spots_add, Tree.spots_append, Tree.spots_node]
  simp [Cut.spot, made, Token.widthOf_append]

theorem Accounts.step (accounts : state.Accounts all) (spells : state.Spells all)
    (moves : state.Moves after)
    (late : state.cursor.tooDeep = false → after.cursor.tooDeep = true →
      state.cursor.words.length + Grammar.depthLimit / 2 ≤ all.countP (! ·.isTrivia)) :
    after.Accounts all := by
  cases moves with
  | cut shallow full =>
      have deep : state.cut.cursor.tooDeep = true := by
        obtain ⟨inside, last, -, cut⟩ := Phrase.allow_cutOff state.cursor
        simp [State.cut, cut, State.place]
      exact accounts.cutOff spells shallow (late shallow deep)
  | still => exact accounts
  | deeper shallow room => exact accounts.moves (.deeper shallow room) rfl
  | shallower => exact accounts.moves .shallower rfl
  | act action acted => exact accounts.moves (.act action acted) (State.perform?_tooDeep acted)

end State

/-- Wherever the machine gets on its way through a document, the state accounts for the cut. -/
theorem Steps.accounts {text : Text} (reached : Steps (start text) machine) :
    machine.state.Spells (Lexer.tokenize text) ∧ machine.state.Accounts (Lexer.tokenize text) := by
  have all : (start text).state.cursor.remaining = Lexer.tokenize text :=
    Cursor.remaining_ofTokens _
  have total : (start text).state.cursor.words.length =
      (Lexer.tokenize text).countP (! ·.isTrivia) := by
    rw [← all, Cursor.countP_remaining]
  induction reached with
  | refl => exact ⟨⟨all, rfl⟩, .shallow rfl nofun⟩
  | @tail machine next earlier stepped inductionHypothesis =>
      obtain ⟨spells, accounts⟩ := inductionHypothesis
      refine ⟨spells.moves stepped.moves, ?_⟩
      have run : Steps (start text) machine := earlier
      obtain ⟨debt, ahead, owes⟩ := run.owes (start_owes text)
      refine accounts.step spells stepped.moves fun shallow deep => ?_
      rw [← total]
      exact stepped.words_of_cut (run.counted (start_counted text)) owes shallow deep

end Machine

end Scrapscript
