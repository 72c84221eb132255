import Scrapscript.Proofs.Grammar.Separated
import Scrapscript.Proofs.Shape

/-!
Minus signs and what comes before them. Right after an operand a minus sign is an operator, and
everywhere else it belongs to a number. A run along the significant tokens keeps in mind whether
the last one has ended an operand, and checks each minus sign against that. For each kind of node
without errors it is said in which state such a run may enter it, and in which state it comes out.
-/

namespace Scrapscript

open Scrapscript.Tree (withoutTrivia tokensOf isToken isTokenOf isNodeOf EverywhereIn)

/-- Tokens that an operand may end with. -/
def TokenKind.endsOperand : TokenKind → Bool
  | ident | underscore | int | float | string | bytes | byte
  | closeParen | closeBracket | closeBrace => true
  | _ => false

/-- The kind of a significant token and that of the node around it, if there is one. -/
structure Seat where
  token : TokenKind
  node? : Option NodeKind

namespace Seat

variable {operand other next : Bool} {seats earlier later : List Seat} {seat : Seat}

/-- Whether an operand has ended with a token, given whether one has ended right before it. There is
no answer at a minus sign that stands in the wrong node. -/
def step (operand : Bool) (seat : Seat) : Option Bool :=
  if seat.token = .minus ∧ seat.node? ≠ some (if operand then .operator else .number) then none
  else some seat.token.endsOperand

def run (operand : Bool) (seats : List Seat) : Option Bool :=
  seats.foldlM step operand

theorem step_eq_some_iff :
    step operand seat = some next ↔
      (seat.token = .minus → seat.node? = some (if operand then .operator else .number)) ∧
        seat.token.endsOperand = next := by
  rw [step, Option.ite_none_left_eq_some, Option.some.injEq, not_and, Decidable.not_not]

theorem step_of_ne_minus (unlike : seat.token ≠ .minus) :
    step operand seat = some seat.token.endsOperand :=
  step_eq_some_iff.mpr ⟨fun minus => absurd minus unlike, rfl⟩

theorem run_cons (first : step operand seat = some other) (rest : run other seats = some next) :
    run operand (seat :: seats) = some next := by
  rw [run, List.foldlM_cons, first]
  exact rest

theorem run_append (first : run operand earlier = some other)
    (second : run other later = some next) : run operand (earlier ++ later) = some next := by
  rw [run, List.foldlM_append, show earlier.foldlM step operand = some other from first]
  exact second

theorem exists_run_of_append (ran : run operand (earlier ++ later) = some next) :
    ∃ middle, run operand earlier = some middle ∧ run middle later = some next := by
  rw [run, List.foldlM_append] at ran
  exact Option.bind_eq_some_iff.mp ran

/-- What comes before does not matter, unless the first token is a minus sign. -/
theorem run_of_head (head : seats.head? = some seat) (unlike : seat.token ≠ .minus)
    (ran : run operand seats = some next) : run other seats = some next := by
  obtain ⟨others, rfl⟩ := List.head?_eq_some_iff.mp head
  rw [run, List.foldlM_cons, step_of_ne_minus unlike] at ran ⊢
  exact ran

/-- A run remembers the last token. -/
theorem eq_of_run (ran : run false seats = some next) :
    next = seats.getLast?.any (·.token.endsOperand) := by
  rcases seats.eq_nil_or_concat with rfl | ⟨earlier, last, rfl⟩
  · simpa [run] using ran.symm
  · rw [List.concat_eq_append] at ran ⊢
    obtain ⟨middle, -, stepped⟩ := exists_run_of_append ran
    have final : step middle last = some next := by simpa [run] using stepped
    simpa using (step_eq_some_iff.mp final).2.symm

/-- Where the run goes through, each minus sign stands in the right node. -/
theorem node_of_run (ran : run false (earlier ++ seat :: later) = some next)
    (minus : seat.token = .minus) :
    seat.node? =
      some (if earlier.getLast?.any (·.token.endsOperand) then .operator else .number) := by
  obtain ⟨middle, before, after⟩ := exists_run_of_append ran
  rw [run, List.foldlM_cons] at after
  obtain ⟨_, stepped, -⟩ := Option.bind_eq_some_iff.mp after
  rw [← eq_of_run before]
  exact (step_eq_some_iff.mp stepped).1 minus

end Seat

namespace Tree

mutual

/-- The significant tokens of a tree in a node of some kind. -/
def seats (kind : NodeKind) : Tree → List Seat
  | leaf token => if token.isTrivia then [] else [⟨token.kind, some kind⟩]
  | node inner children => seatsOf inner children

def seatsOf (kind : NodeKind) : List Tree → List Seat
  | [] => []
  | first :: rest => first.seats kind ++ seatsOf kind rest

end

theorem seatsOf_append (kind : NodeKind) (first second : List Tree) :
    seatsOf kind (first ++ second) = seatsOf kind first ++ seatsOf kind second := by
  induction first with
  | nil => rfl
  | cons tree rest inductionHypothesis => simp [seatsOf, inductionHypothesis]

theorem seatsOf_withoutTrivia (kind : NodeKind) (row : List Tree) :
    seatsOf kind (withoutTrivia row) = seatsOf kind row := by
  induction row with
  | nil => rfl
  | cons tree rest inductionHypothesis =>
      cases tree with
      | node inner children => simp [seatsOf, inductionHypothesis]
      | leaf token =>
          by_cases trivia : token.isTrivia = true <;>
            simp [withoutTrivia_leaf, trivia, seatsOf, seats, inductionHypothesis]

mutual

theorem token_seats (kind : NodeKind) : (tree : Tree) →
    (tree.seats kind).map Seat.token = (tree.tokens.filter (! ·.isTrivia)).map Token.kind
  | leaf token => by by_cases trivia : token.isTrivia = true <;> simp [seats, tokens, trivia]
  | node inner children => by simpa [seats, tokens] using token_seatsOf inner children

theorem token_seatsOf (kind : NodeKind) : (row : List Tree) →
    (seatsOf kind row).map Seat.token = ((tokensOf row).filter (! ·.isTrivia)).map Token.kind
  | [] => rfl
  | first :: rest => by
      simp [seatsOf, tokensOf, token_seats kind first, token_seatsOf kind rest]

end

/-- The first token of a row, if it is significant, has the first seat. -/
theorem exists_head_seatsOf {kind : NodeKind} {row : List Tree} {token : Token}
    (first : (tokensOf row).head? = some token) (significant : token.isTrivia = false) :
    ∃ seat, (seatsOf kind row).head? = some seat ∧ seat.token = token.kind := by
  obtain ⟨others, spelled⟩ := List.head?_eq_some_iff.mp first
  have kinds := congrArg List.head? (token_seatsOf kind row)
  rw [spelled, List.filter_cons_of_pos (by simp [significant]), List.head?_map] at kinds
  exact Option.map_eq_some_iff.mp kinds

end Tree

def Leaf.seat (leaf : Leaf) : Seat :=
  ⟨leaf.kind, leaf.parent?.map Node.kind⟩

namespace Place

mutual

theorem seat_preorder (frame : Frame) (above : List Frame) (start : Nat) : (tree : Tree) →
    (((preorder (frame :: above) start tree).filterMap leaf?).filter (! ·.isTrivia)).map Leaf.seat =
      tree.seats frame.kind
  | .leaf token => by
      by_cases trivia : token.isTrivia = true <;>
        simp [preorder, leaf?, Tree.seats, trivia, Leaf.isTrivia, Leaf.seat, Leaf.kind,
          Leaf.parent?]
  | .node kind children => by
      simpa [preorder, leaf?, List.filterMap_cons, Tree.seats] using
        seat_preorderOf kind start (frame :: above) [] start children

theorem seat_preorderOf (kind : NodeKind) (origin : Nat) (above : List Frame) (before : List Tree)
    (start : Nat) : (row : List Tree) →
    (((preorderOf kind origin above before start row).filterMap leaf?).filter (! ·.isTrivia)).map
      Leaf.seat = Tree.seatsOf kind row
  | [] => rfl
  | first :: rest => by
      simp only [preorderOf, List.filterMap_append, List.filter_append, List.map_append,
        Tree.seatsOf, seat_preorder _ above start first,
        seat_preorderOf kind origin above _ (start + first.width) rest]

end

end Place

/-- The significant tokens of a node in their seats. -/
theorem Node.seat_leaves (node : Node) :
    (node.leaves.filter (! ·.isTrivia)).map Leaf.seat = Tree.seatsOf node.kind node.children :=
  Place.seat_preorderOf node.kind node.start node.above [] node.start node.children

namespace Tree

/-- A run goes through a row and comes out in some state. -/
def Signs (kind : NodeKind) (operand : Bool) (row : List Tree) (next : Bool) : Prop :=
  Seat.run operand (seatsOf kind row) = some next

section

variable {kind inner : NodeKind} {operand middle next : Bool}
  {row first second children : List Tree} {token : Token}

theorem signs_withoutTrivia :
    Signs kind operand (withoutTrivia row) next ↔ Signs kind operand row next := by
  rw [Signs, seatsOf_withoutTrivia, Signs]

theorem signs_nil : Signs kind operand [] operand :=
  rfl

theorem signs_blanks (blanks : Blanks) : Signs kind operand (leaves blanks.tokens) operand := by
  rw [← signs_withoutTrivia, withoutTrivia_blanks]
  exact signs_nil

theorem signs_append (before : Signs kind operand first middle)
    (after : Signs kind middle second next) : Signs kind operand (first ++ second) next := by
  rw [Signs, seatsOf_append]
  exact Seat.run_append before after

/-- A token other than a minus sign goes through in every state. -/
theorem signs_leaf (significant : token.isTrivia = false) (unlike : token.kind ≠ .minus)
    (rest : Signs kind token.kind.endsOperand row next) :
    Signs kind operand (leaf token :: row) next := by
  rw [Signs, seatsOf, seats, if_neg (by simp [significant]), List.singleton_append]
  exact Seat.run_cons (Seat.step_of_ne_minus unlike) rest

theorem signs_node (inside : Signs inner operand children middle)
    (rest : Signs kind middle row next) :
    Signs kind operand (node inner children :: row) next :=
  Seat.run_append inside rest

/-- A row that begins with another significant token goes through in every state. -/
theorem Signs.anyway {other : Bool} (signs : Signs kind operand row next)
    (begins : (tokensOf row).head? = some token) (significant : token.isTrivia = false)
    (unlike : token.kind ≠ .minus) : Signs kind other row next := by
  obtain ⟨seat, head, same⟩ := exists_head_seatsOf begins significant
  exact Seat.run_of_head head (same ▸ unlike) signs

end

end Tree

open Scrapscript.Tree (Signs signs_nil signs_leaf signs_node signs_append)

/-- The states in which a run enters a node without errors, and those in which it comes out. The
parts of collections and of pattern matches are entered in both states; a spread may have no
operand to end with. -/
def Signed (kind : NodeKind) (children : List Tree) : Prop :=
  match kind with
  | .sourceFile | .error => True
  | .operator => Signs kind true children false
  | .spread => ∃ next, ∀ operand, Signs kind operand children next
  | .identifier | .recordField | .patternCase | .guard =>
      ∀ operand, Signs kind operand children true
  | _ => Signs kind false children true

/-- What is needed of a node to see its signs. -/
structure Orderly (kind : NodeKind) (children : List Tree) : Prop where
  allowed : Grammar.allows Grammar.noGap kind (withoutTrivia children) = true
  grouped : Grammar.groups kind (withoutTrivia children) = true
  separated : kind = .list → Grammar.separates .list (withoutTrivia children) = true
  begun : Begun kind children

/-- A node that is orderly and in which the signs are right. -/
structure Legible (kind : NodeKind) (children : List Tree) : Prop
    extends Orderly kind children where
  signed : Signed kind children

namespace Grammar

variable {kind : NodeKind} {operand middle next : Bool} {row : List Tree} {token : TokenKind}
  {place : Tree → Bool} {places : List (Tree → Bool)} {level : NodeKind → Bool}

/-- The trees that fill a place take a run from one state to another. -/
def Takes (kind : NodeKind) (operand : Bool) (place : Tree → Bool) (next : Bool) : Prop :=
  ∀ tree, place tree = true → tree.Everywhere Legible → Signs kind operand [tree] next

/-- The rows that fill some places take a run from one state to another. -/
def Passes (kind : NodeKind) (operand : Bool) (places : List (Tree → Bool)) (next : Bool) : Prop :=
  ∀ row, fills places row = true → EverywhereIn Legible row → Signs kind operand row next

theorem passes_nil : Passes kind operand [] operand := by
  intro row filled _
  cases row with
  | nil => exact signs_nil
  | cons => contradiction

theorem Passes.cons (first : Takes kind operand place middle)
    (rest : Passes kind middle places next) :
    Passes kind operand (place :: places) next := by
  intro row filled legible
  obtain ⟨tree, others, rfl, placed, filled⟩ := exists_of_fills_cons filled
  have before : Signs kind operand [tree] middle := first tree placed legible.1
  exact signs_append before (rest others filled legible.2)

theorem takes_tokenOf {accepts : TokenKind → Bool}
    (plain : ∀ token, accepts token = true →
      token.isTrivia = false ∧ token ≠ .minus ∧ token.endsOperand = next) :
    Takes kind operand (isTokenOf accepts) next := by
  intro tree accepted _
  obtain ⟨leaf, rfl, accepted⟩ := exists_leaf_of_isTokenOf accepted
  obtain ⟨significant, unlike, rfl⟩ := plain leaf.kind accepted
  exact signs_leaf significant unlike signs_nil

theorem takes_token (plain : (token.isTrivia || token == .minus) = false) :
    Takes kind operand (isToken token) token.endsOperand := by
  obtain ⟨significant, unlike⟩ := Bool.or_eq_false_iff.mp plain
  refine takes_tokenOf fun other same => ?_
  rw [eq_of_beq same]
  exact ⟨significant, beq_eq_false_iff_ne.mp unlike, rfl⟩

theorem takes_closer (plain : (token.isTrivia || token == .minus) = false) :
    Takes kind operand (orGap noGap (isToken token)) token.endsOperand := by
  intro tree placed legible
  exact takes_token plain tree (by simpa [orGap] using placed) legible

/-- The sign of a number comes where no operand has ended. -/
theorem takes_sign : Takes .number false (isToken .minus) false := by
  intro tree sign _
  obtain ⟨leaf, rfl, minus⟩ := exists_leaf_of_isToken sign
  have significant : leaf.isTrivia = false := by rw [Token.isTrivia, minus]; rfl
  simp [Signs, Tree.seatsOf, Tree.seats, significant, Seat.run, Seat.step, minus,
    TokenKind.endsOperand]

/-- An operator's sign comes where an operand has ended. -/
theorem takes_symbol : Takes .operator true (isTokenOf TokenKind.isBinaryOperator) false := by
  intro tree accepted _
  obtain ⟨leaf, rfl, operator⟩ := exists_leaf_of_isTokenOf accepted
  obtain ⟨significant, between⟩ : leaf.isTrivia = false ∧ leaf.kind.endsOperand = false := by
    rw [Token.isTrivia]
    cases same : leaf.kind <;> rw [same] at operator <;> first | decide | contradiction
  simp [Signs, Tree.seatsOf, Tree.seats, significant, Seat.run, Seat.step, between]

/-- An expression is entered where no operand has ended, and ends one. -/
theorem takes_node (spared : [.sourceFile, .error, .operator, .spread].any level = false) :
    Takes kind false (isNodeOf level) true := by
  intro tree leveled legible
  cases tree with
  | leaf => contradiction
  | node inner children =>
      have signed := legible.1.signed
      have leveled : level inner = true := leveled
      refine signs_node ?_ signs_nil
      cases inner
      case sourceFile | error | operator | spread => simp [leveled] at spared
      case identifier | recordField | patternCase | guard => exact signed false
      all_goals exact signed

theorem takes_nodeOf (spared : [.sourceFile, .error, .operator, .spread].any level = false) :
    Takes kind false (nodeOf noGap level) true :=
  fun tree placed => takes_node spared tree (isNodeOf_of_nodeOf placed)

/-- The parts of collections and of pattern matches are entered in both states. -/
theorem takes_part {part : NodeKind}
    (among : part ∈ [.identifier, .recordField, .patternCase, .guard]) :
    Takes kind operand (isNodeOf (· == part)) true := by
  intro tree isPart legible
  cases tree with
  | leaf => contradiction
  | node inner children =>
      obtain rfl : inner = part := eq_of_beq isPart
      have signed := legible.1.signed
      refine signs_node ?_ signs_nil
      simp only [List.mem_cons, List.not_mem_nil, or_false] at among
      rcases among with rfl | rfl | rfl | rfl
      all_goals exact signed operand

theorem takes_binding : Takes .whereClause false (isBinding noGap) true := by
  intro tree bound legible
  have item : nodeOf noGap NodeKind.isItem tree = true := by
    unfold isBinding at bound
    split at bound
    · rfl
    · refine nodeOf_mono (fun kind ascribed => ?_) tree bound
      simp [NodeKind.isItem, NodeKind.isExpression, ascribed]
  exact takes_nodeOf rfl tree item legible

/-- An operator comes where an operand has ended. -/
theorem takes_operator {accepts : TokenKind → Bool} :
    Takes kind true (fun tree => tree.operator?.any accepts) false := by
  intro tree found legible
  obtain ⟨operator, named, -⟩ := Option.any_eq_true _ _ |>.mp found
  unfold Tree.operator? at named
  split at named
  · exact signs_node legible.1.signed signs_nil
  · contradiction

/-- An argument does not begin with a minus sign, so that it comes where an operand has ended. -/
theorem signs_application (grouped : groups .application row = true)
    (allowed : allows noGap .application row = true) (legible : EverywhereIn Legible row) :
    Signs .application false row true := by
  obtain ⟨applied, argument, rfl, leveled, argumentLeveled⟩ := exists_of_fills_two allowed
  have before : Signs .application false [applied] true :=
    takes_nodeOf rfl applied leveled legible.1
  have after : Signs .application false [argument] true :=
    takes_nodeOf rfl argument argumentLeveled legible.2.1
  obtain ⟨token, first, unlike⟩ := Option.any_eq_true _ _ |>.mp grouped
  have significant : token.isTrivia = false := by
    cases argument with
    | leaf => contradiction
    | node inner children =>
        refine legible.2.1.1.begun ?_ token first
        rintro rfl
        contradiction
  have begins : (tokensOf [argument]).head? = some token := by simpa [tokensOf] using first
  have unlike : token.kind ≠ .minus := by simp_all
  exact signs_append before (after.anyway begins significant unlike)

theorem isNodeOf_or {tree : Tree} {other : NodeKind → Bool}
    (either : tree.isNodeOf (fun kind => level kind || other kind) = true) :
    tree.isNodeOf level = true ∨ tree.isNodeOf other = true := by
  cases tree with
  | leaf => contradiction
  | node => exact (Bool.or_eq_true ..).mp either

/-- A spread is entered in both states. -/
theorem exists_signs_spread {tree : Tree} (spread : tree.isNodeOf (· == .spread) = true)
    (legible : tree.Everywhere Legible) : ∃ next, ∀ operand, Signs kind operand [tree] next := by
  cases tree with
  | leaf => contradiction
  | node inner children =>
      obtain rfl : inner = .spread := eq_of_beq spread
      obtain ⟨next, signs⟩ := legible.1.signed
      exact ⟨next, fun operand => signs_node (signs operand) signs_nil⟩

theorem leadsWithComma_of_between {tree : Tree} (separated : commasBetween (tree :: row) = true)
    (unlike : tree.isToken .comma = false) : leadsWithComma row = true := by
  cases row with
  | nil => rfl
  | cons second rest =>
      simp only [commasBetween, unlike, Bool.false_or, Bool.and_eq_true] at separated
      exact separated.1

/-- The elements of a list have commas between them, so that each is entered where no operand has
ended. -/
theorem exists_signs_elements (separated : commasBetween row = true)
    (ready : operand = true → leadsWithComma row = true)
    (elements : ∀ tree ∈ row, tree.isToken .comma = true ∨ tree.isNodeOf NodeKind.isElement = true)
    (legible : EverywhereIn Legible row) : ∃ next, Signs .list operand row next := by
  induction row generalizing operand with
  | nil => exact ⟨operand, signs_nil⟩
  | cons tree rest inductionHypothesis =>
      obtain ⟨first, others⟩ := List.forall_mem_cons.mp elements
      have tail := commasBetween_tail separated
      rcases first with comma | element
      · have before : Signs .list operand [tree] false := takes_token rfl tree comma legible.1
        have onward : ∃ next, Signs .list false rest next :=
          inductionHypothesis tail nofun others legible.2
        obtain ⟨next, after⟩ := onward
        exact ⟨next, signs_append before after⟩
      · have unlike : tree.isToken .comma = false := by
          cases tree with
          | leaf => contradiction
          | node => rfl
        obtain rfl : operand = false := by
          apply Bool.eq_false_iff.mpr
          intro ended
          have led : tree.isToken .comma = true := ready ended
          rw [unlike] at led
          contradiction
        -- A spread may end without an operand, but in both states the next tree is a comma.
        have before : ∃ middle, Signs .list false [tree] middle := by
          have expression : Takes .list false (isNodeOf NodeKind.isAscribed) true := takes_node rfl
          rcases isNodeOf_or element with ascribed | spread
          · exact ⟨true, expression tree ascribed legible.1⟩
          · obtain ⟨middle, signs⟩ := exists_signs_spread spread legible.1
            exact ⟨middle, signs false⟩
        obtain ⟨middle, before⟩ := before
        obtain ⟨next, after⟩ := inductionHypothesis tail
          (fun _ => leadsWithComma_of_between separated unlike) others legible.2
        exact ⟨next, signs_append before after⟩

/-- The entries of a record are entered in both states. -/
theorem exists_signs_entries
    (entries : ∀ tree ∈ row, tree.isToken .comma = true ∨ tree.isNodeOf NodeKind.isEntry = true)
    (legible : EverywhereIn Legible row) : ∃ next, Signs .record operand row next := by
  induction row generalizing operand with
  | nil => exact ⟨operand, signs_nil⟩
  | cons tree rest inductionHypothesis =>
      obtain ⟨first, others⟩ := List.forall_mem_cons.mp entries
      have before : ∃ middle, Signs .record operand [tree] middle := by
        rcases first with comma | entry
        · exact ⟨_, takes_token rfl tree comma legible.1⟩
        · rcases isNodeOf_or entry with field | spread
          · exact ⟨true, takes_part (by simp) tree field legible.1⟩
          · obtain ⟨middle, signs⟩ := exists_signs_spread spread legible.1
            exact ⟨middle, signs operand⟩
      obtain ⟨middle, before⟩ := before
      obtain ⟨next, after⟩ := inductionHypothesis others legible.2
      exact ⟨next, signs_append before after⟩

/-- A collection of items that a run goes through ends with its closer. -/
theorem signs_collection {opener closer : TokenKind}
    (opens : (opener.isTrivia || opener == .minus || opener.endsOperand) = false)
    (closes : (closer.isTrivia || closer == .minus) = false) (ends : closer.endsOperand = true)
    (collected : collects (isToken opener) (orComma (nodeOf noGap level))
      (orGap noGap (isToken closer)) row = true)
    (legible : EverywhereIn Legible row)
    (items : ∀ {items}, EverywhereIn Legible items → items = row.tail.dropLast →
      (∀ tree ∈ items, tree.isToken .comma = true ∨ tree.isNodeOf level = true) →
      ∃ next, Signs kind false items next) :
    Signs kind false row true := by
  obtain ⟨opening, inside, closing, rfl, opened, closed, all⟩ := collection_parts collected
  obtain ⟨-, legible⟩ := legible
  obtain ⟨insideLegible, closingLegible⟩ := (Tree.everywhereIn_append _ _).mp legible
  obtain ⟨next, signs⟩ := items insideLegible (by simp) all
  obtain ⟨plain, begins⟩ := Bool.or_eq_false_iff.mp opens
  obtain ⟨significant, unlike⟩ := Bool.or_eq_false_iff.mp plain
  subst opened closed
  apply signs_leaf significant (beq_eq_false_iff_ne.mp unlike)
  rw [begins]
  have last : Signs kind next [.leaf closing] closing.kind.endsOperand :=
    takes_token closes _ (by simp [isToken, isTokenOf]) closingLegible.1
  rw [ends] at last
  exact signs_append signs last

/-- The cases of a pattern match are entered in both states. -/
theorem signs_cases (cases : ∀ tree ∈ row, tree.isNodeOf (· == .patternCase) = true)
    (legible : EverywhereIn Legible row) : Signs .patternMatch true row true := by
  induction row with
  | nil => exact signs_nil
  | cons tree rest inductionHypothesis =>
      obtain ⟨first, others⟩ := List.forall_mem_cons.mp cases
      have before : Signs .patternMatch true [tree] true :=
        takes_part (by simp) tree first legible.1
      exact signs_append before (inductionHypothesis others legible.2)

theorem signs_patternMatch (allowed : allows noGap .patternMatch row = true)
    (legible : EverywhereIn Legible row) : Signs .patternMatch false row true := by
  simp only [allows, Bool.and_eq_true, List.all_eq_true] at allowed
  cases row with
  | nil => simp at allowed
  | cons tree rest =>
      obtain ⟨first, others⟩ := List.forall_mem_cons.mp allowed.2
      have before : Signs .patternMatch false [tree] true :=
        takes_part (by simp) tree first legible.1
      exact signs_append before (signs_cases others legible.2)

theorem signs_patternCase (allowed : allows noGap .patternCase row = true)
    (legible : EverywhereIn Legible row) : Signs .patternCase operand row true := by
  have begins {places : List (Tree → Bool)} (passes : Passes .patternCase true places true) :
      Passes .patternCase operand
        (isToken .pipe :: nodeOf noGap NodeKind.isBinary :: places) true :=
    .cons (takes_token rfl) (.cons (takes_nodeOf rfl) passes)
  obtain ⟨ending, among, filled⟩ := List.any_eq_true.mp allowed
  have ends : Passes .patternCase true ending true := by
    simp only [caseEnds, List.mem_cons, List.not_mem_nil, or_false] at among
    rcases among with rfl | rfl
    · exact .cons (takes_token rfl) (.cons (takes_nodeOf rfl) passes_nil)
    · intro row gap _
      obtain ⟨_, -, wrong⟩ := exists_of_fills_one gap
      contradiction
  rcases (Bool.or_eq_true ..).mp filled with plain | guarded
  · exact begins ends row plain legible
  · exact begins (.cons (takes_part (by simp)) ends) row guarded legible

theorem plain_of_isNumber (token : TokenKind) (number : token.isNumber = true) :
    token.isTrivia = false ∧ token ≠ .minus ∧ token.endsOperand = true := by
  cases token <;> first | decide | contradiction

theorem plain_of_isBytes (token : TokenKind) (bytes : (token == .bytes || token == .byte) = true) :
    token.isTrivia = false ∧ token ≠ .minus ∧ token.endsOperand = true := by
  cases token <;> first | decide | contradiction

/-- The step from the children of a node to the node. -/
theorem signed_row (allowed : allows noGap kind row = true) (grouped : groups kind row = true)
    (separated : kind = .list → separates .list row = true) (legible : EverywhereIn Legible row) :
    Signed kind row := by
  -- Where the table lists the places of a row, the chain of states follows that list.
  cases kind
  case sourceFile | error => trivial
  case declaration | ascription | function | fieldAccess =>
    exact Passes.cons (takes_nodeOf rfl) (.cons (takes_token rfl) (.cons (takes_nodeOf rfl)
      passes_nil)) row allowed legible
  case whereClause =>
    exact Passes.cons (takes_nodeOf rfl) (.cons (takes_token rfl) (.cons takes_binding
      passes_nil)) row allowed legible
  case operation | pipeline =>
    exact Passes.cons (takes_nodeOf rfl) (.cons takes_operator (.cons (takes_nodeOf rfl)
      passes_nil)) row allowed legible
  case application => exact signs_application grouped allowed legible
  case parenthesized =>
    exact Passes.cons (takes_token rfl) (.cons (takes_nodeOf rfl) (.cons (takes_closer rfl)
      passes_nil)) row allowed legible
  case hole =>
    exact Passes.cons (takes_token rfl) (.cons (takes_token rfl) passes_nil) row allowed legible
  case tag =>
    exact Passes.cons (takes_token rfl) (.cons (takes_nodeOf rfl) passes_nil) row allowed legible
  case placeholder | text =>
    exact Passes.cons (takes_token rfl) passes_nil row allowed legible
  case bytes =>
    exact Passes.cons (takes_tokenOf plain_of_isBytes) passes_nil row allowed legible
  case number =>
    rcases (Bool.or_eq_true ..).mp allowed with single | signed
    · exact Passes.cons (takes_tokenOf plain_of_isNumber) passes_nil row single legible
    · exact Passes.cons takes_sign (.cons (takes_tokenOf plain_of_isNumber) passes_nil) row signed
        legible
  case operator => exact Passes.cons takes_symbol passes_nil row allowed legible
  case list =>
    refine signs_collection rfl rfl rfl allowed legible fun inside same elements => ?_
    exact exists_signs_elements (same ▸ separated rfl) nofun elements inside
  case record =>
    refine signs_collection rfl rfl rfl allowed legible fun inside _ entries => ?_
    exact exists_signs_entries entries inside
  case patternMatch => exact signs_patternMatch allowed legible
  case patternCase => exact fun _ => signs_patternCase allowed legible
  case identifier =>
    exact fun _ => Passes.cons (takes_token rfl) passes_nil row allowed legible
  case guard =>
    exact fun _ => Passes.cons (takes_token rfl) (.cons (takes_nodeOf rfl) passes_nil) row allowed
      legible
  case recordField =>
    intro operand
    rcases (Bool.or_eq_true ..).mp allowed with short | long
    · exact Passes.cons (takes_part (by simp)) passes_nil row short legible
    · exact Passes.cons (takes_part (by simp)) (.cons (takes_token rfl) (.cons (takes_nodeOf rfl)
        passes_nil)) row long legible
  case spread =>
    rcases (Bool.or_eq_true ..).mp allowed with short | long
    · exact ⟨_, fun _ => Passes.cons (takes_token rfl) passes_nil row short legible⟩
    · exact ⟨_, fun _ => Passes.cons (takes_token rfl) (.cons (takes_nodeOf rfl) passes_nil) row
        long legible⟩

end Grammar

theorem Orderly.legible {kind : NodeKind} {children : List Tree} (orderly : Orderly kind children)
    (inside : EverywhereIn Legible children) : Legible kind children := by
  have signed := Grammar.signed_row orderly.allowed orderly.grouped orderly.separated
    (Tree.everywhereIn_withoutTrivia inside)
  simp only [Signed, Tree.signs_withoutTrivia] at signed
  exact ⟨orderly, signed⟩

mutual

/-- The signs are right in every node, from the inside out. -/
theorem Tree.legible_of_orderly : (tree : Tree) → tree.Everywhere Orderly → tree.Everywhere Legible
  | leaf _, _ => trivial
  | node _ children, orderly =>
      have inside := legibleIn_of_orderly children orderly.2
      ⟨orderly.1.legible inside, inside⟩

theorem Tree.legibleIn_of_orderly : (row : List Tree) → EverywhereIn Orderly row →
    EverywhereIn Legible row
  | [], _ => trivial
  | first :: rest, orderly =>
      ⟨legible_of_orderly first orderly.1, legibleIn_of_orderly rest orderly.2⟩

end

end Scrapscript
