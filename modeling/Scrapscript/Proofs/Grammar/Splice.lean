import Scrapscript.Proofs.Grammar.Alike
import Scrapscript.Proofs.Grammar.Loop

/-!
The same words in two documents. A splice keeps some words of a document and puts something else
after them: nothing, or a declaration on a line of its own. As long as a parse without errors stays
among the words that are kept, a parse of the other document follows it step by step.
-/

namespace Scrapscript

open Scrapscript.Tree (leaves hasErrorIn)

/-- What follows some words in a document, and what follows them in another one instead. -/
structure Splice where
  /-- The words that follow. -/
  tail : List Word
  /-- The blanks that follow in the other document. -/
  blanks : Blanks
  /-- The words that follow in the other document. -/
  others : List Word
  /-- In the other document either nothing more follows or a declaration on a later line. -/
  apart : others = [] ∨ Word.Declares others ∧ blanks.tokens.any Token.breaksLine = true

namespace Splice

/-- The words that are kept and what follows them in the other document. -/
def onto (splice : Splice) : List Word → List Word
  | [] => splice.others
  | [last] => { last with after := splice.blanks } :: splice.others
  | first :: second :: front => first :: splice.onto (second :: front)

/-- Two cursors before the same words that are kept. -/
structure Tracks (splice : Splice) (front : List Word) (cursor other : Cursor) : Prop where
  words : cursor.words = front ++ splice.tail
  others : other.words = splice.onto front
  blanks : front ≠ [] → other.blanks = cursor.blanks
  ended : front = [] → other.blanks = splice.blanks
  errors : other.errors = []
  shallow : other.tooDeep = false

variable {splice : Splice} {front later : List Word} {cursor other : Cursor}

theorem onto_cons (splice : Splice) (first : Word) (front : List Word) :
    ∃ after, splice.onto (first :: front) = { first with after } :: splice.onto front ∧
      (front = [] → after = splice.blanks) ∧ (front ≠ [] → after = first.after) := by
  cases front with
  | nil => exact ⟨splice.blanks, rfl, by simp, by simp⟩
  | cons second front => exact ⟨first.after, rfl, by simp, by simp⟩

theorem kind_others (splice : Splice) :
    splice.others.head?.map (·.token.kind) = none ∨
      splice.others.head?.map (·.token.kind) = some .ident := by
  rcases splice.apart with none | ⟨declares, -⟩
  · simp [none]
  · exact .inr declares.1

namespace Tracks

variable (tracks : splice.Tracks front cursor other)

include tracks

theorem kind? (kept : front ≠ []) : other.kind? = cursor.kind? := by
  cases front with
  | nil => contradiction
  | cons first front =>
      obtain ⟨after, words, -⟩ := splice.onto_cons first front
      simp [Cursor.kind?, tracks.words, tracks.others, words]

theorem sees (kept : front ≠ []) (token : TokenKind) : other.sees token = cursor.sees token := by
  rw [Cursor.sees, Cursor.sees, tracks.kind? kept]

theorem seesArgument (kept : front ≠ []) : other.seesArgument = cursor.seesArgument := by
  rw [Cursor.seesArgument, Cursor.seesArgument, tracks.kind? kept]

theorem afterLineBreak (kept : front ≠ []) : other.afterLineBreak = cursor.afterLineBreak := by
  rw [Cursor.afterLineBreak, Cursor.afterLineBreak, tracks.blanks kept]

theorem atEnd (kept : front ≠ []) : other.atEnd = false ∧ cursor.atEnd = false := by
  cases front with
  | nil => contradiction
  | cons first front =>
      obtain ⟨after, words, -⟩ := splice.onto_cons first front
      simp [Cursor.atEnd, tracks.words, tracks.others, words]

/-- One word further on, the other document may have an identifier instead, or nothing. -/
theorem following? (kept : front ≠ []) :
    other.following? = cursor.following? ∨ other.following? = none ∨
      other.following? = some .ident := by
  match front with
  | [] => contradiction
  | [last] =>
      right
      simpa [Cursor.following?, tracks.others, onto] using splice.kind_others
  | first :: second :: front =>
      left
      obtain ⟨after, words, -⟩ := splice.onto_cons second front
      simp [Cursor.following?, tracks.words, tracks.others, onto, words]

/-- After the last word that is kept the other document has an identifier or nothing. -/
theorem sees_ended (ended : front = []) {token : TokenKind} (unlike : token ≠ .ident) :
    other.sees token = false := by
  rw [Cursor.sees, Cursor.kind?, tracks.others, ended, onto]
  rcases splice.kind_others with none | ident
  · simp [none]
  · simpa [ident] using unlike.symm

/-- The other document does not show anything new but identifiers. -/
theorem sees_of_other {token : TokenKind} (unlike : token ≠ .ident)
    (seen : other.sees token = true) : cursor.sees token = true := by
  by_cases ended : front = []
  · rw [tracks.sees_ended ended unlike] at seen
    contradiction
  · rwa [← tracks.sees ended]

theorem seesNegative_of_other (seen : other.seesNegative = true) :
    cursor.seesNegative = true := by
  simp only [Cursor.seesNegative, Bool.and_eq_true] at seen ⊢
  have minus := tracks.sees_of_other (by decide) seen.1
  refine ⟨minus, ?_⟩
  have kept : front ≠ [] := by
    intro ended
    simp [tracks.sees_ended ended] at seen
  rcases tracks.following? kept with same | none | ident
  · rw [← same, seen.2]
  · simp [none] at seen
  · simp [ident, TokenKind.isNumber] at seen

theorem seesExpression_of_other (kept : front ≠ []) (seen : other.seesExpression = true) :
    cursor.seesExpression = true := by
  simp only [Cursor.seesExpression, Bool.or_eq_true, tracks.seesArgument kept,
    tracks.sees kept] at seen ⊢
  exact seen.imp_right tracks.seesNegative_of_other

theorem seesDeclaration_of_other (kept : front ≠ [])
    (seen : Grammar.seesDeclaration other = true) : Grammar.seesDeclaration cursor = true := by
  simp only [Grammar.seesDeclaration, tracks.afterLineBreak kept, tracks.sees kept,
    Bool.and_eq_true, beq_iff_eq] at seen ⊢
  refine ⟨seen.1, ?_⟩
  rcases tracks.following? kept with same | none | ident
  · rw [← same, seen.2]
  · simp [none] at seen
  · simp [ident] at seen

/-- Where the words that are kept end, no argument follows in the other document. -/
theorem seesFurther_ended (ended : front = []) : Grammar.seesFurther other = false := by
  subst ended
  have words : other.words = splice.others := tracks.others
  rcases splice.apart with none | ⟨declares, breaks⟩
  · simp [Grammar.seesFurther, Cursor.seesArgument, Cursor.kind?, words, none]
  · have declared : Grammar.seesDeclaration other = true := by
      simp only [Grammar.seesDeclaration, Cursor.afterLineBreak, Cursor.sees, Cursor.kind?,
        Cursor.following?, words, tracks.ended rfl, breaks, declares.1, declares.2]
      rfl
    simp [Grammar.seesFurther, declared]

theorem settled (kept : front ≠ []) : splice.Tracks front cursor.settled other.settled :=
  ⟨tracks.words, tracks.others, fun _ => rfl, fun ended => absurd ended kept, tracks.errors,
    tracks.shallow⟩

end Tracks

theorem Tracks.advanced {first : Word} (tracks : splice.Tracks (first :: front) cursor other) :
    splice.Tracks front cursor.advanced other.advanced := by
  obtain ⟨after, words, ended, kept⟩ := splice.onto_cons first front
  have next : cursor.words = first :: (front ++ splice.tail) := tracks.words
  have otherNext := tracks.others.trans words
  rw [Cursor.advanced_eq next, Cursor.advanced_eq otherNext]
  exact ⟨rfl, rfl, kept, ended, tracks.errors, tracks.shallow⟩

end Splice

/-- A parse uses up words from the front. -/
theorem Placed.words_suffix {cursor rest : Cursor} {trees : List Tree}
    (placed : Placed cursor trees rest) : rest.words <:+ cursor.words := by
  induction placed with
  | nothing | blanks | missing => exact List.suffix_refl _
  | word next proper | rejected fault next =>
      simp only [Cursor.report_advanced, Cursor.report_words, Cursor.advanced_eq next, next]
      exact List.suffix_cons _ _
  | node begun settled proper inside ended formed inductionHypothesis => exact inductionHypothesis
  | cut => exact List.nil_suffix
  | append before after inductionBefore inductionAfter => exact inductionAfter.trans inductionBefore

namespace Splice

variable {splice : Splice} {front later : List Word} {cursor other rest : Cursor}

/-- Where a parse still has the words after those that are kept, it has a part of these as well. -/
theorem exists_between (splice : Splice) (suffix : rest.words <:+ cursor.words)
    (words : rest.words = later ++ splice.tail) :
    ∃ between, cursor.words = between ++ splice.tail := by
  obtain ⟨used, split⟩ := suffix
  exact ⟨used ++ later, by rw [← split, words, List.append_assoc]⟩

theorem between_ne_nil {between : List Word} (suffix : rest.words <:+ cursor.words)
    (words : rest.words = later ++ splice.tail) (inside : later ≠ [])
    (split : cursor.words = between ++ splice.tail) : between ≠ [] := by
  intro ended
  have shorter := suffix.length_le
  have some := List.length_pos_iff.mpr inside
  rw [words, split, ended, List.length_append, List.nil_append] at shorter
  omega

/-- A parse that uses up a word uses one that is kept. -/
theorem Tracks.kept (tracks : splice.Tracks front cursor other)
    (progress : rest.words.length < cursor.words.length)
    (words : rest.words = later ++ splice.tail) : front ≠ [] := by
  intro ended
  rw [words, tracks.words, ended] at progress
  simp only [List.length_append, List.length_nil] at progress
  omega

end Splice

namespace Phrase

/-- Where a phrase leaves no errors and stays among the words that are kept, another phrase does the
same in the other document. -/
def Follows (splice : Splice) (later : List Word) (phrase echo : Phrase) (cursor other : Cursor) :
    Prop :=
  hasErrorIn (phrase cursor).trees = false →
    (phrase cursor).rest.words = later ++ splice.tail →
    (echo other).trees = (phrase cursor).trees ∧
      splice.Tracks later (phrase cursor).rest (echo other).rest

variable {splice : Splice} {front later : List Word} {cursor other : Cursor}
  {phrase echo : Phrase} {phrases echoes : List Phrase}

/-- One phrase after another. Of the first one only what leaves the others without errors
matters. -/
theorem follows_sequence
    (placed : Placed (phrase cursor).rest (sequence phrases (phrase cursor).rest).trees
      (sequence phrases (phrase cursor).rest).rest)
    (first : ∀ between, (phrase cursor).rest.words = between ++ splice.tail →
      hasErrorIn (sequence phrases (phrase cursor).rest).trees = false →
      (sequence phrases (phrase cursor).rest).rest.words = later ++ splice.tail →
      phrase.Follows splice between echo cursor other)
    (others : ∀ between, splice.Tracks between (phrase cursor).rest (echo other).rest →
      (sequence phrases).Follows splice later (sequence echoes) (phrase cursor).rest
        (echo other).rest) :
    (sequence (phrase :: phrases)).Follows splice later (sequence (echo :: echoes)) cursor other := by
  intro clean words
  simp only [Phrase.sequence, Tree.hasErrorIn_append, Bool.or_eq_false_iff] at clean words ⊢
  obtain ⟨between, split⟩ := splice.exists_between placed.words_suffix words
  obtain ⟨trees, tracks⟩ := first between split clean.2 words clean.1 split
  obtain ⟨otherTrees, otherTracks⟩ := others between tracks clean.2 words
  exact ⟨by rw [trees, otherTrees], otherTracks⟩

theorem Follows.only (follows : phrase.Follows splice later echo cursor other) :
    (sequence [phrase]).Follows splice later (sequence [echo]) cursor other := by
  intro clean words
  rw [sequence_singleton] at clean words ⊢
  rw [sequence_singleton]
  exact follows clean words

theorem take_tracks {first : Word} (tracks : splice.Tracks (first :: front) cursor other) :
    (take other).trees = (take cursor).trees ∧
      splice.Tracks front (take cursor).rest (take other).rest := by
  obtain ⟨after, words, -⟩ := splice.onto_cons first front
  have next : cursor.words = first :: (front ++ splice.tail) := tracks.words
  have otherNext := tracks.others.trans words
  rw [take_eq next, take_eq otherNext]
  exact ⟨by rw [tracks.blanks (by simp)], tracks.advanced⟩

theorem take_follows (tracks : splice.Tracks front cursor other) (begun : cursor.words ≠ []) :
    take.Follows splice later take cursor other := by
  intro _ words
  obtain ⟨word, more, next⟩ := List.exists_cons_of_ne_nil begun
  have progress := Cursor.length_advanced_lt begun
  have ending : (take cursor).rest = cursor.advanced := by rw [take_eq next]
  rw [← ending] at progress
  have kept := tracks.kept progress words
  obtain ⟨first, front, rfl⟩ := List.exists_cons_of_ne_nil kept
  obtain ⟨trees, rest⟩ := take_tracks tracks
  have same : front = later := by
    simpa [rest.words] using words
  exact ⟨trees, same ▸ rest⟩

/-- A phrase that starts with a word. -/
theorem follows_takeThen (tracks : splice.Tracks front cursor other) (begun : cursor.words ≠ [])
    (placed : Placed cursor.advanced (sequence phrases cursor.advanced).trees
      (sequence phrases cursor.advanced).rest)
    (others : ∀ between, splice.Tracks between cursor.advanced other.advanced →
      (sequence phrases).Follows splice later (sequence echoes) cursor.advanced other.advanced) :
    (sequence (take :: phrases)).Follows splice later (sequence (take :: echoes)) cursor other := by
  intro clean words
  obtain ⟨word, more, next⟩ := List.exists_cons_of_ne_nil begun
  have ending : (take cursor).rest = cursor.advanced := by rw [take_eq next]
  have progress : (sequence (take :: phrases) cursor).rest.words.length < cursor.words.length := by
    simp only [Phrase.sequence, ending]
    exact Nat.lt_of_le_of_lt placed.length_words_le (Cursor.length_advanced_lt begun)
  obtain ⟨first, front, rfl⟩ := List.exists_cons_of_ne_nil (tracks.kept progress words)
  obtain ⟨after, otherWords, -⟩ := splice.onto_cons first front
  have otherEnding : (take other).rest = other.advanced := by
    rw [take_eq (tracks.others.trans otherWords)]
  rw [← ending] at placed
  rw [← ending, ← otherEnding] at others
  exact follows_sequence placed (fun _ _ _ _ => take_follows tracks begun) others clean words

theorem hasErrorIn_missing (fault : SyntaxFault) (cursor : Cursor) :
    hasErrorIn (missing fault cursor).trees = true := by
  simp [missing, hasErrorIn, Tree.hasError]

theorem hasErrorIn_reject (fault : SyntaxFault) (cursor : Cursor) :
    hasErrorIn (reject fault cursor).trees = true := by
  simp [reject, enclose, hasErrorIn, Tree.hasError]

theorem expect_follows (tracks : splice.Tracks front cursor other) (closer : TokenKind)
    (fault : SyntaxFault) :
    (expect closer fault).Follows splice later (expect closer fault) cursor other := by
  intro clean words
  cases seen : cursor.sees closer with
  | false => simp [expect, seen, hasErrorIn_missing] at clean
  | true =>
      have begun := Cursor.words_ne_nil_of_sees seen
      have same : expect closer fault cursor = take cursor := by simp [expect, seen]
      rw [same] at clean words ⊢
      have taken := take_follows tracks begun clean words
      have kept : front ≠ [] := tracks.kept (Grammar.length_take_lt seen) words
      have otherSame : expect closer fault other = take other := by
        simp [expect, tracks.sees kept, seen]
      rwa [otherSame]

theorem Follows.enclose {kind : NodeKind} (tracks : splice.Tracks front cursor other)
    (progress : (phrase cursor.settled).rest.words.length < cursor.words.length)
    (follows : splice.Tracks front cursor.settled other.settled →
      phrase.Follows splice later echo cursor.settled other.settled) :
    (enclose kind phrase).Follows splice later (Phrase.enclose kind echo) cursor other := by
  intro clean words
  simp only [Phrase.enclose, Tree.hasErrorIn_append, hasErrorIn, Tree.hasError,
    Bool.or_eq_false_iff] at clean words ⊢
  have kept := tracks.kept progress words
  obtain ⟨trees, rest⟩ := follows (tracks.settled kept) clean.2.1.2 words
  exact ⟨by rw [trees, tracks.blanks kept], rest⟩

section

variable {condition : Cursor → Bool} {placement : Placement} {fits : List Word → Cursor → Prop}

/-- What holds where a loop ends and where it goes on holds before each round. -/
theorem Repeated.fits_start {between : List Word} (repeated : Repeated condition phrase cursor placement)
    (advances : Advances condition phrase)
    (rounds : ∀ cursor, condition cursor = true →
      Placed cursor (phrase cursor).trees (phrase cursor).rest)
    (begun : ∀ {between cursor}, condition cursor = true → between ≠ [] → fits between cursor)
    (ended : fits later placement.rest) (words : placement.rest.words = later ++ splice.tail)
    (split : cursor.words = between ++ splice.tail) : fits between cursor := by
  cases repeated with
  | done =>
      obtain rfl : later = between := List.append_cancel_right (words.symm.trans split)
      exact ended
  | round more others =>
      refine begun more fun none => ?_
      have shorter := advances cursor more
      have rest := (others.placed rounds).length_words_le
      have ending := congrArg List.length words
      rw [split, none, List.nil_append] at shorter
      rw [List.length_append] at ending
      dsimp only at ending
      omega

/-- A loop that goes on in both documents and ends in both. -/
theorem Repeated.follows (fits : List Word → Cursor → Prop)
    (repeated : Repeated condition phrase cursor placement)
    (tracks : splice.Tracks front cursor other) (advances : Advances condition phrase)
    (rounds : ∀ cursor, condition cursor = true →
      Placed cursor (phrase cursor).trees (phrase cursor).rest)
    (agrees : ∀ {front cursor other}, splice.Tracks front cursor other → front ≠ [] →
      condition cursor = true → condition other = true)
    (step : ∀ {front between cursor other}, splice.Tracks front cursor other →
      condition cursor = true → fits between (phrase cursor).rest →
      phrase.Follows splice between echo cursor other)
    (begun : ∀ {between cursor}, condition cursor = true → between ≠ [] → fits between cursor)
    (stop : ∀ {cursor other}, splice.Tracks later cursor other → condition cursor = false →
      condition other = false)
    (ended : fits later placement.rest) (clean : hasErrorIn placement.trees = false)
    (words : placement.rest.words = later ++ splice.tail) :
    ∃ otherPlacement, Repeated condition echo other otherPlacement ∧
      otherPlacement.trees = placement.trees ∧
      splice.Tracks later placement.rest otherPlacement.rest := by
  induction repeated generalizing front other with
  | done finished =>
      obtain rfl : front = later := List.append_cancel_right (tracks.words.symm.trans words)
      exact ⟨⟨[], other⟩, .done (stop tracks finished), rfl, tracks⟩
  | @round cursor others more later inductionHypothesis =>
      simp only [Tree.hasErrorIn_append, Bool.or_eq_false_iff] at clean
      have placed := later.placed rounds
      obtain ⟨between, split⟩ := splice.exists_between placed.words_suffix words
      have fitting := later.fits_start advances rounds begun ended words split
      obtain ⟨trees, otherTracks⟩ := step tracks more fitting clean.1 split
      obtain ⟨otherOthers, otherLater, otherTrees, lastTracks⟩ :=
        inductionHypothesis otherTracks ended clean.2 words
      have kept := tracks.kept (advances cursor more) split
      refine ⟨_, .round (agrees tracks kept more) otherLater, ?_, lastTracks⟩
      rw [trees, otherTrees]

end

/-- A phrase under a condition, which has to hold in the other document whenever the phrase goes
through and to fail whenever it is left out. -/
theorem follows_when {condition : Cursor → Bool} (tracks : splice.Tracks front cursor other)
    (taken : condition cursor = true → hasErrorIn (phrase cursor).trees = false →
      (phrase cursor).rest.words = later ++ splice.tail → condition other = true)
    (follows : condition cursor = true → phrase.Follows splice later echo cursor other)
    (skipped : front = later → condition cursor = false → condition other = false) :
    (when condition phrase).Follows splice later (when condition echo) cursor other := by
  intro clean words
  cases holds : condition cursor with
  | true =>
      have same : when condition phrase cursor = phrase cursor := by simp [when, holds]
      rw [same] at clean words ⊢
      have otherSame : when condition echo other = echo other := by
        simp [when, taken holds clean words]
      rw [otherSame]
      exact follows holds clean words
  | false =>
      have same : when condition phrase cursor = ⟨[], cursor⟩ := by simp [when, holds]
      rw [same] at words ⊢
      obtain rfl : front = later := by simpa [tracks.words] using words
      have otherSame : when condition echo other = ⟨[], other⟩ := by
        simp [when, skipped rfl holds]
      rw [otherSame]
      exact ⟨rfl, tracks⟩

/-- A phrase under a token that is not an identifier. -/
theorem follows_whenSees {token : TokenKind} (tracks : splice.Tracks front cursor other)
    (unlike : token ≠ .ident)
    (progress : cursor.sees token = true →
      (phrase cursor).rest.words.length < cursor.words.length)
    (follows : cursor.sees token = true → phrase.Follows splice later echo cursor other) :
    (when (·.sees token) phrase).Follows splice later (when (·.sees token) echo) cursor other := by
  apply follows_when tracks _ follows
  · intro _ unseen
    exact Bool.eq_false_iff.mpr fun seen => by simp [tracks.sees_of_other unlike seen] at unseen
  · intro seen _ words
    rw [tracks.sees (tracks.kept (progress seen) words), seen]

end Phrase

/-- A declaration is in sight only where the words that are kept end. -/
def Grammar.Clear (later : List Word) (rest : Cursor) : Prop :=
  seesDeclaration rest = true → later = []

/-- Where a rule finds a node without errors among the words that are kept, another rule finds the
same node in the other document. -/
structure Rule.Follows (splice : Splice) (rule echo : Rule) : Prop where
  found : ∀ {front later cursor other node rest}, splice.Tracks front cursor other →
    rule cursor = .found node rest → node.hasError = false →
    rest.words = later ++ splice.tail → Grammar.Clear later rest →
    ∃ otherRest, echo other = .found node otherRest ∧ splice.Tracks later rest otherRest
  progress : ∀ {cursor node rest}, rule cursor = .found node rest →
    rest.words.length < cursor.words.length
  cut : ∀ {cursor node rest}, rule cursor = .cut node rest → node.hasError = true

namespace Rule

variable {splice : Splice} {front later : List Word} {cursor other : Cursor} {rule echo : Rule}

theorem Follows.required (follows : rule.Follows splice echo) (fault : SyntaxFault)
    (tracks : splice.Tracks front cursor other)
    (clear : Grammar.Clear later (Phrase.require rule fault cursor).rest) :
    (Phrase.require rule fault).Follows splice later (Phrase.require echo fault) cursor other := by
  intro clean words
  cases ended : rule cursor with
  | found node rest =>
      simp only [Phrase.require, ended] at clean words clear ⊢
      simp only [Tree.hasErrorIn_append, hasErrorIn, Bool.or_eq_false_iff] at clean
      obtain ⟨otherRest, found, otherTracks⟩ := follows.found tracks ended clean.2.1 words clear
      have kept := tracks.kept (follows.progress ended) words
      simp only [found]
      exact ⟨by rw [tracks.blanks kept], otherTracks⟩
  | absent rest => simp [Phrase.require, ended, Phrase.hasErrorIn_missing] at clean
  | cut node rest => simp [Phrase.require, ended, hasErrorIn, Phrase.hasErrorIn_missing] at clean

section

variable {good otherGood : Tree → Cursor → Prop} (follows : rule.Follows splice echo)
  (builds : rule.Builds good) (seen : cursor.seesExpression = true)

include follows builds seen

/-- Where an expression starts, a rule that leaves no errors finds a node. -/
theorem Follows.exists_found (clean : hasErrorIn (Phrase.allow rule cursor).trees = false) :
    ∃ node rest, rule cursor = .found node rest ∧ node.hasError = false := by
  cases ended : rule cursor with
  | found node rest =>
      simp only [Phrase.allow, ended, Tree.hasErrorIn_append, hasErrorIn,
        Bool.or_eq_false_iff] at clean
      exact ⟨node, rest, rfl, clean.2.1⟩
  | absent rest =>
      have meets := builds cursor
      simp [ended, Outcome.Meets, seen] at meets
  | cut node rest => simp [Phrase.allow, ended, hasErrorIn, follows.cut ended] at clean

theorem Follows.allowed (tracks : splice.Tracks front cursor other)
    (clear : Grammar.Clear later (Phrase.allow rule cursor).rest) :
    (Phrase.allow rule).Follows splice later (Phrase.allow echo) cursor other := by
  intro clean words
  obtain ⟨node, rest, ended, nodeClean⟩ := follows.exists_found builds seen clean
  simp only [Phrase.allow, ended] at words clear ⊢
  obtain ⟨otherRest, found, otherTracks⟩ := follows.found tracks ended nodeClean words clear
  have kept := tracks.kept (follows.progress ended) words
  simp only [found]
  exact ⟨by rw [tracks.blanks kept], otherTracks⟩

/-- In the other document an expression starts there as well. -/
theorem Follows.seesExpression (otherBuilds : echo.Builds otherGood)
    (tracks : splice.Tracks front cursor other)
    (clear : Grammar.Clear later (Phrase.allow rule cursor).rest)
    (clean : hasErrorIn (Phrase.allow rule cursor).trees = false)
    (words : (Phrase.allow rule cursor).rest.words = later ++ splice.tail) :
    other.seesExpression = true := by
  obtain ⟨node, rest, ended, nodeClean⟩ := follows.exists_found builds seen clean
  simp only [Phrase.allow, ended] at words clear
  obtain ⟨otherRest, found, -⟩ := follows.found tracks ended nodeClean words clear
  have meets := otherBuilds other
  rw [found] at meets
  exact meets.1

end

theorem Follows.settled (follows : rule.Follows splice echo) :
    (Rule.settled rule).Follows splice (Rule.settled echo) := by
  constructor
  case found =>
    intro front later cursor other node rest tracks found clean words clear
    have settledFound : rule cursor.settled = .found node rest := found
    have progress := follows.progress settledFound
    rw [Cursor.settled_words] at progress
    exact follows.found (tracks.settled (tracks.kept progress words)) found clean words clear
  case progress =>
    intro cursor node rest found
    have settledFound : rule cursor.settled = .found node rest := found
    have progress := follows.progress settledFound
    rwa [Cursor.settled_words] at progress
  case cut =>
    intro cursor node rest cut
    exact follows.cut cut

theorem cut_of_extended {condition : Cursor → Bool} {kind : NodeKind} {tail : Phrase}
    {node : Tree} {rest : Cursor}
    (cut : rule.extended condition kind tail cursor = .cut node rest) :
    rule cursor = .cut node rest := by
  unfold Rule.extended at cut
  split at cut
  · split at cut <;> contradiction
  · contradiction
  · rename_i ended
    rw [ended, cut]

theorem exists_grow_eq (growth : Cursor → Option Growth) (rounds : List Word) (node : Tree)
    (cursor : Cursor) : ∃ final rest, grow growth rounds node cursor = .found final rest := by
  induction rounds generalizing node cursor with
  | nil => exact ⟨node, cursor, rfl⟩
  | cons round rounds inductionHypothesis =>
      unfold grow
      cases growth cursor with
      | none => exact ⟨node, cursor, rfl⟩
      | some larger => exact inductionHypothesis _ _

theorem cut_of_grown {growth : Cursor → Option Growth} {node : Tree} {rest : Cursor}
    (cut : rule.grown growth cursor = .cut node rest) : rule cursor = .cut node rest := by
  unfold Rule.grown at cut
  split at cut
  · rename_i inner middle ended
    obtain ⟨final, last, grown⟩ := exists_grow_eq growth middle.words inner middle
    rw [grown] at cut
    contradiction
  · contradiction
  · rename_i ended
    rw [ended, cut]

theorem clear_of_sees {token : TokenKind} (unlike : token ≠ .ident)
    (seen : cursor.sees token = true) : Grammar.Clear later cursor := by
  intro declaration
  have ident : cursor.sees .ident = true := by
    simp only [Grammar.seesDeclaration, Bool.and_eq_true] at declaration
    exact declaration.1.2
  simp only [Cursor.sees, beq_iff_eq] at seen ident
  rw [seen] at ident
  exact absurd (Option.some.inj ident) unlike

/-- A token and a node that has to follow it. -/
theorem Follows.tokenThen {token : TokenKind} {fault : SyntaxFault} {good : Tree → Cursor → Prop}
    (follows : rule.Follows splice echo) (builds : rule.Builds good)
    (tracks : splice.Tracks front cursor other) (seen : cursor.sees token = true)
    (clear : Grammar.Clear later
      (Phrase.sequence [Phrase.take, Phrase.require rule fault] cursor).rest) :
    (Phrase.sequence [Phrase.take, Phrase.require rule fault]).Follows splice later
      (Phrase.sequence [Phrase.take, Phrase.require echo fault]) cursor other := by
  have begun := Cursor.words_ne_nil_of_sees seen
  simp only [Phrase.sequence, Phrase.take_rest seen] at clear
  exact Phrase.follows_takeThen tracks begun (builds.required fault _).only.placed
    fun between tracks => (follows.required fault tracks clear).only

/-- A larger node that starts with the one found: a token that is not an identifier, and a further
node. -/
theorem Follows.extended {token : TokenKind} {kind : NodeKind} {inner innerEcho : Rule}
    {fault : SyntaxFault} {good : Tree → Cursor → Prop} (follows : rule.Follows splice echo)
    (innerFollows : inner.Follows splice innerEcho) (builds : inner.Builds good)
    (unlike : token ≠ .ident) (proper : token ≠ .error) :
    (rule.extended (·.sees token) kind
      (Phrase.sequence [Phrase.take, Phrase.require inner fault])).Follows splice
        (echo.extended (·.sees token) kind
          (Phrase.sequence [Phrase.take, Phrase.require innerEcho fault])) := by
  have progress {cursor : Cursor} (seen : cursor.sees token = true) :=
    Phrase.length_takeThen_lt seen (builds.required fault cursor.advanced).only
  constructor
  case found =>
    intro front later cursor other final rest tracks found clean words clear
    obtain ⟨node, middle, ended, extent⟩ := extended_eq_found_iff.mp found
    rcases extent with ⟨seen, rfl, rfl⟩ | ⟨unseen, rfl, rfl⟩
    · simp only [Tree.hasError, hasErrorIn, Bool.or_eq_false_iff] at clean
      have placed := (Phrase.yields_takeThen seen proper (builds.required fault _).only).placed
      obtain ⟨between, split⟩ := splice.exists_between placed.words_suffix words
      obtain ⟨otherMiddle, otherFound, between⟩ :=
        follows.found tracks ended clean.2.1 split (clear_of_sees unlike seen)
      obtain ⟨trees, otherTracks⟩ :=
        innerFollows.tokenThen builds between seen clear clean.2.2 words
      have otherSeen : otherMiddle.sees token = true := by
        rw [between.sees (between.kept (progress seen) words), seen]
      refine ⟨_, extended_eq_found_iff.mpr
        ⟨_, _, otherFound, .inl ⟨otherSeen, ?_, rfl⟩⟩, otherTracks⟩
      rw [trees]
    · obtain ⟨otherRest, otherFound, otherTracks⟩ := follows.found tracks ended clean words clear
      refine ⟨otherRest, extended_eq_found_iff.mpr ⟨_, _, otherFound, .inr ⟨?_, rfl, rfl⟩⟩,
        otherTracks⟩
      refine Bool.eq_false_iff.mpr fun seen => ?_
      simp [otherTracks.sees_of_other unlike seen] at unseen
  case progress =>
    intro cursor final rest found
    obtain ⟨node, middle, ended, extent⟩ := extended_eq_found_iff.mp found
    have shorter := follows.progress ended
    rcases extent with ⟨seen, rfl, rfl⟩ | ⟨unseen, rfl, rfl⟩
    · exact Nat.lt_trans (progress seen) shorter
    · exact shorter
  case cut =>
    intro cursor node rest cut
    exact follows.cut (cut_of_extended cut)

/-- Growth that goes on in the other document as long as it stays among the words that are kept. -/
structure GrowsAlong (splice : Splice) (growth echo : Cursor → Option Growth) : Prop where
  advances : Advances growth
  echoes : Advances echo
  placed : ∀ {cursor larger}, growth cursor = some larger →
    Placed cursor (larger.tail cursor).trees (larger.tail cursor).rest
  clear : ∀ {cursor larger later}, growth cursor = some larger → Grammar.Clear later cursor
  step : ∀ {front later cursor other larger}, splice.Tracks front cursor other →
    growth cursor = some larger → Grammar.Clear later (larger.tail cursor).rest →
    hasErrorIn (larger.tail cursor).trees = false →
    (larger.tail cursor).rest.words = later ++ splice.tail →
    ∃ otherLarger, echo other = some otherLarger ∧ otherLarger.kind = larger.kind ∧
      (otherLarger.tail other).trees = (larger.tail cursor).trees ∧
      splice.Tracks later (larger.tail cursor).rest (otherLarger.tail other).rest

/-- All steps of growth, from a node that is found in both documents. -/
theorem GrowsAlong.grown {growth echo : Cursor → Option Growth} {node final : Tree}
    {middle rest : Cursor} {found : Cursor → Prop} (along : GrowsAlong splice growth echo)
    (grown : Grown growth node middle final rest)
    (start : ∀ between, node.hasError = false → middle.words = between ++ splice.tail →
      Grammar.Clear between middle →
      ∃ otherMiddle, found otherMiddle ∧ splice.Tracks between middle otherMiddle)
    (clean : final.hasError = false) (words : rest.words = later ++ splice.tail)
    (clear : Grammar.Clear later rest) :
    ∃ otherMiddle otherRest, found otherMiddle ∧ Grown echo node otherMiddle final otherRest ∧
      splice.Tracks later rest otherRest := by
  induction grown generalizing later with
  | start =>
      obtain ⟨otherMiddle, holds, tracks⟩ := start later clean words clear
      exact ⟨otherMiddle, otherMiddle, holds, .start, tracks⟩
  | @step inner last larger before grows inductionHypothesis =>
      simp only [Tree.hasError, hasErrorIn, Bool.or_eq_false_iff] at clean
      obtain ⟨between, split⟩ := splice.exists_between (along.placed grows).words_suffix words
      obtain ⟨otherMiddle, otherLast, holds, otherBefore, tracks⟩ :=
        inductionHypothesis clean.2.1 split (along.clear grows)
      obtain ⟨otherLarger, otherGrows, kind, trees, otherTracks⟩ :=
        along.step tracks grows clear clean.2.2 words
      refine ⟨otherMiddle, _, holds, ?_, otherTracks⟩
      rw [← kind, ← trees]
      exact .step otherBefore otherGrows

theorem Follows.grown {growth echoGrowth : Cursor → Option Growth}
    (follows : rule.Follows splice echo) (along : GrowsAlong splice growth echoGrowth)
    (stop : ∀ {front cursor other}, splice.Tracks front cursor other → growth cursor = none →
      Grammar.Clear front cursor → echoGrowth other = none) :
    (rule.grown growth).Follows splice (echo.grown echoGrowth) := by
  constructor
  case found =>
    intro front later cursor other final rest tracks found clean words clear
    obtain ⟨node, middle, ended, grown, stopped⟩ := along.advances.grown_eq_found_iff.mp found
    obtain ⟨otherMiddle, otherRest, otherFound, otherGrown, otherTracks⟩ :=
      along.grown grown (fun between clean words clear => follows.found tracks ended clean words clear)
        clean words clear
    exact ⟨otherRest, along.echoes.grown_eq_found_iff.mpr
      ⟨node, otherMiddle, otherFound, otherGrown, stop otherTracks stopped clear⟩, otherTracks⟩
  case progress =>
    intro cursor final rest found
    obtain ⟨node, middle, ended, grown, stopped⟩ := along.advances.grown_eq_found_iff.mp found
    exact Nat.lt_of_le_of_lt (grown.length_words_le along.advances) (follows.progress ended)
  case cut =>
    intro cursor node rest cut
    exact follows.cut (cut_of_grown cut)

end Rule

end Scrapscript
