import Scrapscript.Proofs.Composition
import Scrapscript.Proofs.Document
import Scrapscript.Proofs.Edit
import Scrapscript.Proofs.Machine.Respelling

/-!
Renaming. The edits of a renaming spell all references to one name anew, and a document without
errors keeps its structure, unless the new name is drawn into what is right before it.
-/

namespace Scrapscript

theorem Token.look_of_ident {token : Token} (kind : token.kind = .ident) :
    token.look = (.ident, false) := by
  have visible : (TokenKind.ident == .whitespace) = false := rfl
  simp [look, breaksLine, kind, visible]

/-- Whether a token refers to a name. -/
def Leaf.refersTo (name : Text) (leaf : Leaf) : Bool :=
  leaf.isReference && leaf.text == name

theorem Leaf.kind_of_refersTo {node : Node} {leaf : Leaf} {name : Text}
    (named : node.tree.Everywhere Named) (visited : leaf ∈ node.leaves)
    (refers : leaf.refersTo name = true) : leaf.token.kind = .ident := by
  obtain ⟨isReference, -⟩ := Bool.and_eq_true_iff.mp refers
  obtain ⟨-, -, -, kind⟩ := parent_of_isReference named visited isReference
  exact kind

namespace Document

variable {document : Document} {position : Position} {target : Node} {text : Text}

/-- Where a reference is located, the token that is found refers to it. -/
theorem exists_leaf_of_locate? (named : document.root.tree.Everywhere Named)
    (located : document.locate? position = some target) (refers : isReference target = true) :
    ∃ leaf ∈ document.root.leaves, document.leafAt? position = some leaf ∧
      leaf.refersTo target.text = true := by
  unfold locate? at located
  split at located
  · contradiction
  rename_i offset there
  split at located
  · rename_i leaf found
    obtain ⟨visited, -, -⟩ := mem_leaves_of_leafAt? found there
    have isReference : leaf.isReference = true := by
      rw [Leaf.isReference, located]
      exact refers
    obtain ⟨parent, above, tokens, -⟩ := Leaf.parent_of_isReference named visited isReference
    obtain rfl := Option.some.inj (above.symm.trans located)
    refine ⟨leaf, visited, found, ?_⟩
    simp [Leaf.refersTo, isReference, Node.text, Tree.text, tokens, Token.textOf, Leaf.text]
  · -- The root of a document is no identifier.
    obtain rfl := Option.some.inj located
    contradiction

/-- The references at a position, as ranges of tokens. -/
theorem nodeRange_referencesAt (named : document.root.tree.Everywhere Named)
    (found : document.referenceAt? position = some target) :
    (document.referencesAt position).map document.nodeRange =
      (document.root.leaves.filter (Leaf.refersTo target.text)).map document.leafRange := by
  -- Both are read off where the references start and which tokens they have.
  let range (spot : Nat × List Token) : Range :=
    document.range spot.1 (spot.1 + Token.widthOf spot.2)
  let matching (spot : Nat × List Token) : Bool := Token.textOf spot.2 == target.text
  have nodes : (document.referencesAt position).map document.nodeRange =
      (((document.root.descendants.filter isReference).map
        fun node => (node.start, node.tree.tokens)).filter matching).map range := by
    rw [List.filter_map, List.map_map, List.filter_filter, referencesAt, found]
    congr 1
    · funext node
      rw [nodeRange, Node.stop_eq]
      rfl
    · exact List.filter_congr fun node _ => Bool.and_comm _ _
  have tokens : (document.root.leaves.filter (Leaf.refersTo target.text)).map document.leafRange =
      (((document.root.leaves.filter Leaf.isReference).map
        fun leaf => (leaf.start, [leaf.token])).filter matching).map range := by
    rw [List.filter_map, List.map_map, List.filter_filter]
    congr 1
    refine List.filter_congr fun leaf _ => ?_
    simp [Leaf.refersTo, matching, Token.textOf, Leaf.text, Bool.and_comm]
  rw [nodes, tokens, Node.references_eq named]

/-- A renaming edits each token that refers to the name. -/
theorem rename?_eq_some (named : document.root.tree.Everywhere Named)
    (found : document.locate? position = some target) (refers : isReference target = true)
    (uri name : String) :
    document.rename? uri position name = some ⟨[(uri,
      (document.root.leaves.filter (Leaf.refersTo target.text)).map fun leaf =>
        ⟨document.leafRange leaf, name⟩)]⟩ := by
  have referenced : document.referenceAt? position = some target := by
    simp [referenceAt?, found, refers]
  have edits : (document.references uri position).map
        (fun location => (⟨location.range, name⟩ : TextEdit)) =
      (document.root.leaves.filter (Leaf.refersTo target.text)).map fun leaf =>
        ⟨document.leafRange leaf, name⟩ := by
    have ranges := congrArg (List.map fun range => (⟨range, name⟩ : TextEdit))
      (nodeRange_referencesAt named referenced)
    rw [List.map_map, List.map_map] at ranges
    rw [references, List.map_map]
    exact ranges
  unfold rename?
  split
  · rename_i none
    obtain ⟨leaf, visited, -, isReference⟩ := exists_leaf_of_locate? named found refers
    have listed := List.mem_filter.mpr ⟨visited, isReference⟩
    rw [none, List.map_nil, eq_comm, List.map_eq_nil_iff] at edits
    simp [edits] at listed
  · rw [edits]

/-- Edits of tokens spell them anew. -/
theorem edited?_leaves (opened : ofText text = .ok document) (marked : Leaf → Bool)
    (name : String) :
    document.edited? ((document.root.leaves.filter marked).map fun leaf =>
        ⟨document.leafRange leaf, name⟩) =
      some (Token.textOf (document.root.leaves.map fun leaf =>
        Token.respelled name.toList (leaf.token, marked leaf))) := by
  have tokens := token_leaves opened
  obtain ⟨same, -⟩ := eq_of_ofText opened
  have indexed : document.index = .ofText document.text := by rw [same]
  have whole : document.text = [] ++ [] ++ Token.textOf (document.root.leaves.map Leaf.token) := by
    rw [tokens, Lexer.textOf_tokenize, same]
    rfl
  have located : document.root.leaves.map (fun leaf => (leaf.token, leaf.start)) =
      Token.located (Text.bytes ([] ++ [])) (document.root.leaves.map Leaf.token) := by
    rw [Node.token_leaves]
    exact document.root.located_leaves
  exact editedFrom?_leaves indexed whole located

/-- The tokens of a document without errors after the references to a name are spelled anew. -/
theorem tokenize_respelled {old name : Text} (opened : ofText text = .ok document)
    (clean : document.parse.errors = [])
    (alone : ∃ token, Lexer.tokenize name = [token] ∧ token.kind = .ident)
    (apart : name.head?.any Lexer.isLetter = true →
      TokenKind.keepsApart [] (document.root.leaves.map fun leaf =>
        (leaf.kind, leaf.refersTo old)) = true) :
    Lexer.tokenize (Token.textOf (document.root.leaves.map fun leaf =>
        Token.respelled name (leaf.token, leaf.refersTo old))) =
      document.root.leaves.map fun leaf =>
        Token.respelled name (leaf.token, leaf.refersTo old) := by
  let entries := document.root.leaves.map fun leaf => (leaf.token, leaf.refersTo old)
  have tokens : entries.map Prod.fst = Lexer.tokenize text := by
    rw [← token_leaves opened, List.map_map]
    rfl
  have read : Lexer.tokenize (Token.textOf (entries.map Prod.fst)) = entries.map Prod.fst := by
    rw [tokens, Lexer.textOf_tokenize]
  have looks : Lexer.looks entries =
      document.root.leaves.map fun leaf => (leaf.kind, leaf.refersTo old) := by
    rw [Lexer.looks, List.map_map]
    rfl
  have proper : ∀ entry ∈ entries, entry.1.kind ≠ .error := by
    intro entry listed
    obtain ⟨rfl, -⟩ := eq_of_ofText opened
    exact Parse.kind_ne_error clean entry.1 (tokens ▸ List.mem_map_of_mem listed)
  have marked : ∀ entry ∈ entries, entry.2 = true → entry.1.kind = .ident :=
    List.forall_mem_map.mpr fun leaf visited refers =>
      Leaf.kind_of_refersTo (named_root opened) visited refers
  have respelled := Lexer.tokenize_respelled alone proper marked (looks ▸ apart) read
  rwa [List.map_map] at respelled

/-- If a document has no errors and a reference in it is renamed to what is an identifier on its
own, then the document has no errors afterwards either and the same tree, in which only the tokens
that refer to the name are spelled anew. If the new name begins with a letter, none of these may be
right after a literal of bytes, or right after a slash or a hyphen that is right after an
identifier. The text is a document again unless it has become too large. -/
theorem rename?_preserves_structure (opened : ofText text = .ok document)
    (clean : document.parse.errors = []) (found : document.locate? position = some target)
    (identifier : target.kind = .identifier) (untagged : target.parentIs .tag = false)
    (uri name : String)
    (alone : ∃ token, Lexer.tokenize name.toList = [token] ∧ token.kind = .ident)
    (apart : name.toList.head?.any Lexer.isLetter = true →
      TokenKind.keepsApart [] (document.root.leaves.map fun leaf =>
        (leaf.kind, leaf.refersTo target.text)) = true) :
    ∃ edits edited, document.rename? uri position name = some ⟨[(uri, edits)]⟩ ∧
      document.edited? edits = some edited ∧
      (Parse.ofText edited).errors = [] ∧ (Parse.ofText edited).tooDeep = false ∧
      (Parse.ofText edited).tree.unspelled = document.parse.tree.unspelled ∧
      ((Parse.ofText edited).root.leaves.map Leaf.token = document.root.leaves.map fun leaf =>
        if leaf.refersTo target.text then ⟨.ident, name.toList⟩ else leaf.token) ∧
      (edited.bytes < UInt32.size →
        ofText edited = .ok ⟨edited, .ofText edited, .ofText edited⟩) := by
  have refers : isReference target = true := by simp [isReference, identifier, untagged]
  have named := named_root opened
  have renames := rename?_eq_some named found refers uri name
  have edited := edited?_leaves opened (Leaf.refersTo target.text) name
  generalize spelled : Token.textOf _ = changed at edited
  have original := token_leaves opened
  have tokens : Lexer.tokenize changed = document.root.leaves.map fun leaf =>
      Token.respelled name.toList (leaf.token, leaf.refersTo target.text) :=
    spelled ▸ tokenize_respelled opened clean alone apart
  -- A program sees no difference between the old name and the new one.
  have alike : (Lexer.tokenize changed).map Token.look = (Lexer.tokenize text).map Token.look := by
    rw [tokens, ← original, List.map_map, List.map_map]
    refine List.map_congr_left fun leaf visited => ?_
    cases refers : leaf.refersTo target.text with
    | false => simp [Token.respelled, refers]
    | true =>
        have kind := Leaf.kind_of_refersTo named visited refers
        simp [Token.respelled, refers, Token.look_of_ident kind, Token.look_of_ident]
  obtain ⟨tree, errors, deep⟩ := Parse.unspelled_of_look alike
  obtain ⟨rfl, shallow⟩ := eq_of_ofText opened
  have again := deep.trans shallow
  refine ⟨_, changed, renames, edited, ?_, again, tree, ?_, fun small =>
    ofText_of_shallow small again⟩
  · rw [clean] at errors
    exact List.length_eq_zero_iff.mp errors
  · rw [Node.token_leaves]
    exact (Parse.tokens_root changed).trans tokens

/-- A reference that a look-up finds. -/
theorem exists_reference (text : Text) (position : Position) (name : Text)
    (found : (locate? ⟨text, .ofText text, .ofText text⟩ position).any
      (fun node => isReference node && node.text == name) = true) :
    ∃ target, locate? ⟨text, .ofText text, .ofText text⟩ position = some target ∧
      target.kind = .identifier ∧ target.parentIs .tag = false ∧ target.text = name := by
  cases located : locate? ⟨text, .ofText text, .ofText text⟩ position with
  | none => simp [located] at found
  | some target => simpa [located, isReference, and_assoc] using found

/-- A name that a tag has as well, after a slash and a blank. -/
theorem rename?_preserves_structure_tagged :
    ∃ document target edits edited,
      ofText ['#', '_', 'b', ' ', 'x', '/', ' ', '_', 'b'] = .ok document ∧
      document.parse.errors = [] ∧ document.locate? ⟨0, 8⟩ = some target ∧
      target.kind = .identifier ∧ target.parentIs .tag = false ∧
      TokenKind.keepsApart [] (document.root.leaves.map fun leaf =>
        (leaf.kind, leaf.refersTo target.text)) = true ∧
      document.rename? "file:///a" ⟨0, 8⟩ "y" = some ⟨[("file:///a", edits)]⟩ ∧
      document.edited? edits = some edited ∧
      (Parse.ofText edited).errors = [] ∧ (Parse.ofText edited).tooDeep = false ∧
      (Parse.ofText edited).tree.unspelled = document.parse.tree.unspelled ∧
      ((Parse.ofText edited).root.leaves.map Leaf.token = document.root.leaves.map fun leaf =>
        if leaf.refersTo target.text then ⟨.ident, "y".toList⟩ else leaf.token) ∧
      (edited.bytes < UInt32.size →
        ofText edited = .ok ⟨edited, .ofText edited, .ofText edited⟩) := by
  have opened := ofText_of_shallow (by decide)
    (show (Parse.ofText ['#', '_', 'b', ' ', 'x', '/', ' ', '_', 'b']).tooDeep = false by
      decide +kernel)
  have clean : (Parse.ofText ['#', '_', 'b', ' ', 'x', '/', ' ', '_', 'b']).errors = [] := by
    decide +kernel
  obtain ⟨target, located, identifier, untagged, name⟩ :=
    exists_reference ['#', '_', 'b', ' ', 'x', '/', ' ', '_', 'b'] ⟨0, 8⟩ ['_', 'b']
      (by decide +kernel)
  have apart : TokenKind.keepsApart []
      ((Parse.ofText ['#', '_', 'b', ' ', 'x', '/', ' ', '_', 'b']).root.leaves.map fun leaf =>
        (leaf.kind, leaf.refersTo target.text)) = true := by
    rw [name]
    decide +kernel
  obtain ⟨edits, edited, renames⟩ :=
    rename?_preserves_structure opened clean located identifier untagged "file:///a" "y"
      ⟨⟨.ident, ['y']⟩, by decide +kernel, rfl⟩ fun _ => apart
  exact ⟨_, target, edits, edited, opened, clean, located, identifier, untagged, apart,
    renames⟩

/-- After `x/` the name `_y` is an identifier of its own, and `y` is not. -/
theorem rename?_joins_identifiers :
    ∃ document target renamed, ofText ['x', '/', '_', 'y'] = .ok document ∧
      document.parse.errors = [] ∧ document.locate? ⟨0, 3⟩ = some target ∧
      target.kind = .identifier ∧ target.parentIs .tag = false ∧
      (∃ token, Lexer.tokenize "y".toList = [token] ∧ token.kind = .ident) ∧
      document.rename? "file:///a" ⟨0, 3⟩ "y" =
        some ⟨[("file:///a", [⟨Range.between ⟨0, 2⟩ ⟨0, 4⟩, "y"⟩])]⟩ ∧
      document.edited? [⟨Range.between ⟨0, 2⟩ ⟨0, 4⟩, "y"⟩] = some ['x', '/', 'y'] ∧
      ofText ['x', '/', 'y'] = .ok renamed ∧
      renamed.parse.tree.unspelled ≠ document.parse.tree.unspelled := by
  obtain ⟨target, located, identifier, untagged, -⟩ :=
    exists_reference ['x', '/', '_', 'y'] ⟨0, 3⟩ ['_', 'y'] (by decide +kernel)
  refine ⟨_, target, _, ofText_of_shallow (by decide) (by decide +kernel), by decide +kernel,
    located, identifier, untagged, ⟨⟨.ident, ['y']⟩, by decide +kernel, rfl⟩, by decide +kernel,
    by decide +kernel, ofText_of_shallow (by decide) (by decide +kernel), fun same => ?_⟩
  have tokens := congrArg Tree.tokens same
  revert tokens
  decide +kernel

end Document

end Scrapscript
