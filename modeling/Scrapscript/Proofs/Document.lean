import Scrapscript.Proofs.Edit
import Scrapscript.Proofs.Opening
import Scrapscript.Proofs.Reference
import Scrapscript.Proofs.Tree.Touching

/-!
A document that a text opens as. Its nodes and tokens start and stop at character boundaries of the
text, so that their ranges have the positions of these as their ends.
-/

namespace Scrapscript

/-- The offsets between two characters of a text, its ends included. -/
def Text.IsBoundary (text : Text) (offset : Nat) : Prop :=
  ∃ before : Text, before <+: text ∧ before.bytes = offset

namespace LineIndex

variable {text : Text} {start stop offset : Nat} {position : Position}

theorem position_le (starts : text.IsBoundary start) (stops : text.IsBoundary stop)
    (ordered : start ≤ stop) : (ofText text).position start ≤ (ofText text).position stop := by
  obtain ⟨before, begins, rfl⟩ := starts
  obtain ⟨later, laterBegins, rfl⟩ := stops
  rw [position_bytes begins, position_bytes laterBegins]
  exact endPosition_le_of_bytes_le begins laterBegins ordered

theorem position_lt (starts : text.IsBoundary start) (stops : text.IsBoundary stop)
    (ordered : start < stop) : (ofText text).position start < (ofText text).position stop := by
  obtain ⟨before, begins, rfl⟩ := starts
  obtain ⟨later, laterBegins, rfl⟩ := stops
  rw [position_bytes begins, position_bytes laterBegins]
  exact endPosition_lt_of_bytes_lt begins laterBegins ordered

theorem range_ends (starts : text.IsBoundary start) (stops : text.IsBoundary stop)
    (ordered : start ≤ stop) :
    ((ofText text).range start stop).start = (ofText text).position start ∧
      ((ofText text).range start stop).stop = (ofText text).position stop :=
  Range.between_of_le (position_le starts stops ordered)

/-- A position leads to a boundary on its line, and the position of that boundary leads to the same
one. -/
theorem offset?_snapped (found : (ofText text).offset? position = some offset) :
    text.IsBoundary offset ∧ ((ofText text).position offset).line = position.line ∧
      (ofText text).offset? ((ofText text).position offset) = some offset := by
  obtain ⟨before, begins, rfl, line, -⟩ := (offset?_eq_some_iff.mp found).1
  refine ⟨⟨before, begins, rfl⟩, ?_, offset?_position begins⟩
  rwa [position_bytes begins]

end LineIndex

namespace Document

variable {document : Document} {text : Text} {position : Position} {offset : Nat}

theorem allowed_root (opened : ofText text = .ok document) :
    document.root.tree.Everywhere Allowed := by
  obtain ⟨rfl, shallow⟩ := eq_of_ofText opened
  exact Parse.allowed_root shallow

theorem named_root (opened : ofText text = .ok document) : document.root.tree.Everywhere Named := by
  obtain ⟨rfl, shallow⟩ := eq_of_ofText opened
  exact Parse.named_root shallow

theorem led_root (opened : ofText text = .ok document) : document.root.tree.Everywhere Led := by
  obtain ⟨rfl, shallow⟩ := eq_of_ofText opened
  exact Parse.led_root shallow

theorem token_leaves (opened : ofText text = .ok document) :
    document.root.leaves.map Leaf.token = Lexer.tokenize text := by
  obtain ⟨rfl, -⟩ := eq_of_ofText opened
  rw [Node.token_leaves]
  exact Parse.tokens_root text

variable {node : Node} {leaf : Leaf}

theorem allowed_of_visited (opened : ofText text = .ok document)
    (visited : node ∈ document.root.descendants) : Allowed node.kind node.children :=
  Node.holds_of_descendant (allowed_root opened) visited

theorem isBoundary_of_node (opened : ofText text = .ok document)
    (visited : node ∈ document.root.descendants) :
    text.IsBoundary node.start ∧ text.IsBoundary node.stop := by
  obtain ⟨rfl, -⟩ := eq_of_ofText opened
  obtain ⟨before, after, spelled, start, stop⟩ := Node.exists_text_around visited rfl
  have whole : text = before ++ node.text ++ after := (Parse.text_root text).symm.trans spelled
  refine ⟨⟨before, ?_, start.symm⟩, ⟨before ++ node.text, ⟨after, whole.symm⟩, ?_⟩⟩
  · exact ⟨node.text ++ after, by simp [whole]⟩
  · rw [stop, Text.bytes_append]

theorem nodeRange_ends (opened : ofText text = .ok document)
    (visited : node ∈ document.root.descendants) :
    (document.nodeRange node).start = document.index.position node.start ∧
      (document.nodeRange node).stop = document.index.position node.stop := by
  obtain ⟨starts, stops⟩ := isBoundary_of_node opened visited
  obtain ⟨rfl, -⟩ := eq_of_ofText opened
  exact LineIndex.range_ends starts stops (by simp [Node.stop])

theorem exists_offset (opened : ofText text = .ok document)
    (inside : position.line ≤ text.count '\n') :
    ∃ offset, document.offset? position = some offset := by
  obtain ⟨rfl, -⟩ := eq_of_ofText opened
  apply Option.ne_none_iff_exists'.mp
  intro absent
  have past := (LineIndex.offset?_eq_none_iff position).mp absent
  exact Nat.not_le_of_lt past inside

theorem mem_of_pick {leaves : List Leaf} {leaf : Leaf} (picked : pick leaves = some leaf) :
    leaf ∈ leaves := by
  unfold pick at picked
  split at picked
  · contradiction
  · simp [← Option.some.inj picked]
  · split at picked
    · simp [← Option.some.inj picked]
    · simp [← Option.some.inj picked]

theorem mem_leaves_of_leafAt? {leaf : Leaf} (found : document.leafAt? position = some leaf)
    (there : document.offset? position = some offset) :
    leaf ∈ document.root.leaves ∧ leaf.start ≤ offset ∧ offset ≤ leaf.stop := by
  simp only [leafAt?, there] at found
  obtain ⟨visited, touched⟩ := Node.mem_touching.mp (mem_of_pick found)
  exact ⟨visited, (Leaf.touches_iff.mp touched).2⟩

end Document

end Scrapscript
