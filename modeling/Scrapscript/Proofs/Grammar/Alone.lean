import Scrapscript.Proofs.Grammar.Words
import Scrapscript.Proofs.Items

/-!
Nodes on their own. A node that some rule of the grammar finds without errors is found again if the
document ends right after it, and since nothing is left then, it is the one item of a document of
its own.
-/

namespace Scrapscript

open Scrapscript.Tree (leaves hasErrorIn)

/-- A node without errors that is an item is the whole of a document that consists of its tokens. -/
def StandsAlone (kind : NodeKind) (children : List Tree) : Prop :=
  (Tree.node kind children).hasError = false → kind.isItem = true →
    Parse.ofTokens (Tree.node kind children).tokens = ⟨[.node kind children], [], false⟩

/-- The document ends after the words that are kept. -/
def Splice.ending (tail : List Word) : Splice :=
  ⟨tail, .empty, [], .inl rfl⟩

/-- A cursor before some words only. -/
def Cursor.before (words : List Word) : Cursor :=
  ⟨.empty, words, 0, [], false⟩

/-- What a rule finds up to the last word, another rule finds as well. -/
def Rule.Lifts (rule larger : Rule) : Prop :=
  ∀ (cursor : Cursor) (node : Tree) (rest : Cursor), rule cursor.settled = .found node rest →
    rest.words = [] → larger cursor.settled = .found node rest

namespace Rule

variable {rule larger largest : Rule}

theorem Lifts.trans (lifts : rule.Lifts larger) (more : larger.Lifts largest) :
    rule.Lifts largest := by
  intro cursor node rest found exhausted
  exact more cursor node rest (lifts cursor node rest found exhausted) exhausted

theorem Lifts.settled (lifts : rule.Lifts larger) : rule.Lifts (Rule.settled larger) := by
  intro cursor node rest found exhausted
  rw [Rule.settled, Cursor.settled_settled]
  exact lifts cursor node rest found exhausted

theorem Lifts.of_settled (lifts : (Rule.settled rule).Lifts larger) : rule.Lifts larger := by
  intro cursor node rest found exhausted
  apply lifts cursor node rest _ exhausted
  rwa [Rule.settled, Cursor.settled_settled]

theorem lifts_grown {growth : Cursor → Option Growth} (advances : Advances growth) :
    rule.Lifts (rule.grown growth) := by
  intro cursor node rest found exhausted
  exact advances.grown_eq_found_iff.mpr
    ⟨node, rest, found, .start, advances.growth_eq_none exhausted⟩

theorem lifts_extended {token : TokenKind} {kind : NodeKind} {tail : Phrase} :
    rule.Lifts (rule.extended (·.sees token) kind tail) := by
  intro cursor node rest found exhausted
  have unseen : rest.sees token = false := by simp [Cursor.sees, Cursor.kind?, exhausted]
  exact extended_eq_found_iff.mpr ⟨node, rest, found, .inr ⟨unseen, rfl, rfl⟩⟩

theorem Grown.words_suffix {growth : Cursor → Option Growth} {node final : Tree}
    {cursor rest : Cursor} (grown : Grown growth node cursor final rest)
    (placed : ∀ cursor larger, growth cursor = some larger →
      Placed cursor (larger.tail cursor).trees (larger.tail cursor).rest) :
    rest.words <:+ cursor.words := by
  induction grown with
  | start => exact List.suffix_refl _
  | step before grows inductionHypothesis =>
      exact (placed _ _ grows).words_suffix.trans inductionHypothesis

end Rule

namespace Grammar

open Scrapscript.Phrase Scrapscript.Rule

variable {below : Level} {cursor rest : Cursor} {node : Tree}

section

theorem lifts_access : (atom below).Lifts (access below) :=
  (lifts_grown accessing_advances).settled

theorem lifts_application (sound : below.Sound) : (access below).Lifts (application below) :=
  (lifts_grown (arguments_advance sound)).settled

theorem lifts_binary (sound : below.Sound) (power : Nat) :
    (application below).Lifts (binary below power) :=
  (lifts_grown (joining_advances sound power)).settled

theorem lifts_function : (below.binary 0).Lifts (function below) :=
  lifts_extended.settled

theorem lifts_ascription : below.function.Lifts (ascription below) :=
  lifts_extended.settled

theorem lifts_expression (sound : below.Sound) : (ascription below).Lifts (expression below) :=
  (lifts_grown (clauses_advance sound)).settled

theorem lifts_item : (expression outermost).Lifts item :=
  lifts_extended.settled

/-- The level at which the operands of an item are read. -/
def operandLevel : Level :=
  Level.ofDepth 254

theorem ascription_lifts : (ascription outermost).Lifts item :=
  (lifts_expression (sound_ofDepth _)).trans lifts_item

theorem ascription_settled (cursor : Cursor) :
    ascription below cursor.settled = ascription below cursor := by
  rw [ascription, Rule.settled, Rule.settled, Cursor.settled_settled]

theorem expression_settled (cursor : Cursor) :
    expression below cursor.settled = expression below cursor := by
  rw [expression, Rule.settled, Rule.settled, Cursor.settled_settled]

/-- An ascription that has to follow is an expression that has to follow, if nothing comes after. -/
theorem require_expression_eq (sound : below.Sound) {fault : SyntaxFault}
    (exhausted : (require (ascription below) fault cursor).rest.words = []) :
    require (expression below) fault cursor = require (ascription below) fault cursor := by
  have same : expression below cursor = ascription below cursor := by
    rw [← expression_settled, ← ascription_settled]
    cases ended : ascription below cursor.settled with
    | found node rest =>
        rw [ascription_settled] at ended
        simp only [require, ended] at exhausted
        rw [← ascription_settled] at ended
        exact lifts_expression sound cursor node rest ended exhausted
    | absent rest | cut node rest =>
        rw [expression, Rule.settled, Cursor.settled_settled, Rule.grown, ended]
  simp only [require, same]

/-- The binding of a where clause is an item, if nothing comes after. -/
theorem bound_lifts :
    ((ascription outermost).extended (·.sees .equals) .declaration
      (sequence [take, require (ascription outermost) .missingBoundExpression])).Lifts item := by
  have sound : outermost.Sound := sound_ofDepth depthLimit
  intro cursor final rest found exhausted
  obtain ⟨node, middle, first, extent⟩ := extended_eq_found_iff.mp found
  rcases extent with ⟨equals, rfl, rfl⟩ | ⟨unseen, rfl, rfl⟩
  · have noClause : middle.sees .semicolon = false := by
      have next : middle.kind? = some .equals := eq_of_beq equals
      simp [Cursor.sees, next]
    have whole : expression outermost cursor.settled = .found node middle := by
      rw [expression, Rule.settled, Cursor.settled_settled]
      exact (clauses_advance sound).grown_eq_found_iff.mpr
        ⟨node, middle, first, .start, growth_onlyIf_eq_none.mpr noClause⟩
    have tail : sequence [take, require (expression outermost) .missingBoundExpression] middle =
        sequence [take, require (ascription outermost) .missingBoundExpression] middle := by
      simp only [Phrase.sequence] at exhausted ⊢
      rw [require_expression_eq sound exhausted]
    rw [item, Rule.settled, Cursor.settled_settled]
    exact extended_eq_found_iff.mpr ⟨node, middle, whole, .inl ⟨equals, by rw [tail], by rw [tail]⟩⟩
  · exact ascription_lifts cursor final rest first exhausted

theorem function_lifts : (function (Level.ofDepth 255)).Lifts item :=
  have ascribed : outermost.function.Lifts (ascription outermost) := lifts_ascription
  ascribed.trans ascription_lifts

theorem binary_lifts : (binary operandLevel 0).Lifts item :=
  have returned : ((Level.ofDepth 255).binary 0).Lifts (function (Level.ofDepth 255)) :=
    lifts_function
  returned.trans function_lifts

theorem application_lifts : (application operandLevel).Lifts item :=
  (lifts_binary (sound_ofDepth _) 0).trans binary_lifts

theorem access_lifts : (access operandLevel).Lifts item :=
  (lifts_application (sound_ofDepth _)).trans application_lifts

theorem atom_lifts : (atom operandLevel).Lifts item :=
  lifts_access.trans access_lifts

end

/-- An item that is found in a document of its own. -/
theorem alone_of_item {words : List Word} (found : item (.before words) = .found node rest)
    (exhausted : rest.words = []) (blanks : rest.blanks = .empty) (errors : rest.errors = [])
    (shallow : rest.tooDeep = false) :
    Parse.ofTokens node.tokens = ⟨[node], [], false⟩ := by
  have meets := item_builds (.before words)
  rw [found] at meets
  have tokens := meets.2.2.2.1.tokens
  have spelled : node.tokens = words.flatMap fun word => word.token :: word.after.tokens := by
    simpa [Tree.tokensOf, Cursor.remaining, exhausted, blanks, Cursor.before] using tokens
  have start : Cursor.ofTokens node.tokens = .before words := by
    rw [Cursor.ofTokens, spelled, Word.group_flatMap]
    rfl
  rw [Parse.ofTokens, start, sourceFile_of_found found exhausted]
  simp [Cursor.before, blanks, errors, shallow, leaves]

variable {front : List Word} {rule echo : Rule} {good : Tree → Cursor → Prop}

theorem tracks_before (words : cursor.words = front ++ rest.words) (begun : front ≠ []) :
    (Splice.ending rest.words).Tracks front cursor.settled
      (.before ((Splice.ending rest.words).onto front)) :=
  ⟨words, rfl, fun _ => rfl, fun ended => absurd ended begun, rfl, rfl⟩

/-- A node that is found again where the document ends right after it. -/
theorem alone_of_echo {words tail : List Word} {otherRest : Cursor} (lifts : echo.Lifts item)
    (echoed : echo (.before words) = .found node otherRest)
    (tracks : (Splice.ending tail).Tracks [] rest otherRest) :
    Parse.ofTokens node.tokens = ⟨[node], [], false⟩ := by
  have exhausted : otherRest.words = [] := tracks.others
  exact alone_of_item (lifts (.before words) node otherRest echoed exhausted) exhausted
    (tracks.ended rfl) tracks.errors tracks.shallow

/-- A node that a rule finds, if the rule follows itself to where the document ends. -/
theorem alone_of_found (follows : ∀ splice, rule.Follows splice echo) (builds : rule.Builds good)
    (lifts : echo.Lifts item) (found : rule cursor.settled = .found node rest)
    (clean : node.hasError = false) : Parse.ofTokens node.tokens = ⟨[node], [], false⟩ := by
  have meets := builds cursor.settled
  rw [found] at meets
  obtain ⟨front, split⟩ := meets.2.2.2.1.words_suffix
  have begun : front ≠ [] := by
    intro none
    have progress := meets.2.1
    rw [none, List.nil_append] at split
    rw [split] at progress
    exact Nat.lt_irrefl _ progress
  have tracks := tracks_before split.symm begun
  obtain ⟨otherRest, echoed, otherTracks⟩ :=
    (follows _).found tracks found clean (List.nil_append _).symm fun _ => rfl
  exact alone_of_echo lifts echoed otherTracks

/-- A node that a node found by a rule has grown into. -/
theorem alone_of_grown {growth echoGrowth : Cursor → Option Growth} {final : Tree} {middle : Cursor}
    (follows : ∀ splice, rule.Follows splice echo) (builds : rule.Builds good)
    (along : ∀ splice, GrowsAlong splice growth echoGrowth)
    (lifts : (echo.grown echoGrowth).Lifts item) (found : rule cursor.settled = .found node middle)
    (grown : Grown growth node middle final rest) (clean : final.hasError = false) :
    Parse.ofTokens final.tokens = ⟨[final], [], false⟩ := by
  have meets := builds cursor.settled
  rw [found] at meets
  have shorter := grown.length_words_le (along (.ending rest.words)).advances
  have placed : ∀ cursor larger, growth cursor = some larger →
      Placed cursor (larger.tail cursor).trees (larger.tail cursor).rest :=
    fun _ _ grows => (along (.ending rest.words)).placed grows
  obtain ⟨front, split⟩ := (grown.words_suffix placed).trans meets.2.2.2.1.words_suffix
  have begun : front ≠ [] := by
    intro none
    have progress := Nat.lt_of_le_of_lt shorter meets.2.1
    rw [none, List.nil_append] at split
    rw [split] at progress
    exact Nat.lt_irrefl _ progress
  have tracks := tracks_before split.symm begun
  obtain ⟨otherMiddle, otherRest, otherFound, otherGrown, otherTracks⟩ :=
    (along _).grown grown (fun between clean words clear => (follows _).found tracks found clean words clear) clean
      (List.nil_append _).symm fun _ => rfl
  have echoes := (along (.ending rest.words)).echoes
  exact alone_of_echo lifts (echoes.grown_eq_found_iff.mpr ⟨node, otherMiddle, otherFound, otherGrown,
    echoes.growth_eq_none otherTracks.others⟩) otherTracks

section

variable {depth : Nat} {final : Tree} {middle : Cursor} (clean : final.hasError = false)

include clean

theorem atom_alone (shallow : depth ≤ 254)
    (found : atom (.ofDepth depth) cursor.settled = .found final rest) :
    Parse.ofTokens final.tokens = ⟨[final], [], false⟩ :=
  alone_of_found (fun _ => atom_follows (follows_ofDepth shallow)) (atom_builds (sound_ofDepth _))
    atom_lifts found clean

theorem access_alone (shallow : depth ≤ 254)
    (found : atom (.ofDepth depth) cursor.settled = .found node middle)
    (grown : Grown (Growth.onlyIf (·.sees .dot) .fieldAccess (sequence [take, fieldName]))
      node middle final rest) :
    Parse.ofTokens final.tokens = ⟨[final], [], false⟩ :=
  alone_of_grown (fun _ => atom_follows (follows_ofDepth shallow)) (atom_builds (sound_ofDepth _))
    (fun _ => accessing_along) access_lifts.of_settled found grown clean

theorem application_alone (shallow : depth ≤ 254)
    (found : access (.ofDepth depth) cursor.settled = .found node middle)
    (grown : Grown
      (Growth.onlyIf seesFurther .application (allow (access (.ofDepth depth)))) node middle
      final rest) :
    Parse.ofTokens final.tokens = ⟨[final], [], false⟩ :=
  alone_of_grown (fun _ => access_follows (follows_ofDepth shallow))
    (access_builds (sound_ofDepth _)) (fun _ => arguments_along (follows_ofDepth shallow))
    application_lifts.of_settled found grown clean

/-- In a document of its own an operation is read from the loosest operators on. -/
theorem binary_alone (shallow : depth ≤ 254) {power : Nat}
    (found : application (.ofDepth depth) cursor.settled = .found node middle)
    (grown : Grown (joining (.ofDepth depth) power) node middle final rest) :
    Parse.ofTokens final.tokens = ⟨[final], [], false⟩ :=
  alone_of_grown (fun _ => application_follows (follows_ofDepth shallow))
    (application_builds (sound_ofDepth _))
    (fun _ => joining_along (follows_ofDepth shallow) (Nat.zero_le _)) binary_lifts.of_settled found
    grown clean

theorem function_alone (shallow : depth ≤ 255)
    (found : function (.ofDepth depth) cursor.settled = .found final rest) :
    Parse.ofTokens final.tokens = ⟨[final], [], false⟩ :=
  alone_of_found (fun _ => function_follows (follows_ofDepth shallow))
    (function_builds (sound_ofDepth _)) function_lifts found clean

theorem ascription_alone (shallow : depth ≤ depthLimit)
    (found : ascription (.ofDepth depth) cursor.settled = .found final rest) :
    Parse.ofTokens final.tokens = ⟨[final], [], false⟩ :=
  alone_of_found (fun _ => ascription_follows (follows_ofDepth shallow))
    (ascription_builds (sound_ofDepth _)) ascription_lifts found clean

theorem expression_alone (shallow : depth ≤ depthLimit)
    (found : ascription (.ofDepth depth) cursor.settled = .found node middle)
    (grown : Grown (Growth.onlyIf (·.sees .semicolon) .whereClause
      (sequence [take, binding (.ofDepth depth)])) node middle final rest) :
    Parse.ofTokens final.tokens = ⟨[final], [], false⟩ :=
  alone_of_grown (fun _ => ascription_follows (follows_ofDepth shallow))
    (ascription_builds (sound_ofDepth _)) (fun _ => clauses_along (follows_ofDepth shallow))
    lifts_item.of_settled found grown clean

theorem bound_alone (shallow : depth ≤ depthLimit)
    (found : (ascription (.ofDepth depth)).extended (·.sees .equals) .declaration
      (sequence [take, require (ascription (.ofDepth depth)) .missingBoundExpression])
      cursor.settled = .found final rest) :
    Parse.ofTokens final.tokens = ⟨[final], [], false⟩ :=
  alone_of_found (fun _ => bound_follows (follows_ofDepth shallow)) (bound_builds (sound_ofDepth _))
    bound_lifts found clean

theorem item_alone (found : item cursor.settled = .found final rest) :
    Parse.ofTokens final.tokens = ⟨[final], [], false⟩ :=
  alone_of_found (fun _ => item_follows) item_builds (fun _ _ _ found _ => found) found clean

end

end Grammar

end Scrapscript
