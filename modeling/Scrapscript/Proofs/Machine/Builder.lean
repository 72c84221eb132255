import Scrapscript.Tree

/-!
A tree under construction. Nodes are begun and finished one inside the other. A node may also be
begun late, at a mark that was set earlier; it then takes in all that was placed since.
-/

namespace Scrapscript

structure Builder where
  /-- The nodes that are not finished, innermost first, each with the place of its first child. -/
  begun : List (NodeKind × Nat)
  /-- The trees that belong to no finished node, over all nodes that are not finished. -/
  children : List Tree

namespace Builder

def empty : Builder :=
  ⟨[], []⟩

/-- The place of the next tree. -/
def mark (builder : Builder) : Nat :=
  builder.children.length

def add (builder : Builder) (trees : List Tree) : Builder :=
  { builder with children := builder.children ++ trees }

def start (builder : Builder) (kind : NodeKind) : Builder :=
  { builder with begun := (kind, builder.mark) :: builder.begun }

/-- Begins a node at an earlier mark. A mark is of use only as long as the node in which it was set
is the innermost one and has not lost the trees before it. -/
def startAt? (builder : Builder) (mark : Nat) (kind : NodeKind) : Option Builder :=
  if mark ≤ builder.mark ∧ builder.begun.head?.all (·.2 ≤ mark) = true then
    some { builder with begun := (kind, mark) :: builder.begun }
  else none

def finish? (builder : Builder) : Option Builder :=
  match builder.begun with
  | [] => none
  | (kind, first) :: begun =>
      some ⟨begun, builder.children.take first ++ [.node kind (builder.children.drop first)]⟩

/-- The tree, once every node is finished. -/
def tree? (builder : Builder) : Option Tree :=
  match builder.begun, builder.children with
  | [], [tree] => some tree
  | _, _ => none

/-- No node has lost its first child, and a node that was begun later lies further on. -/
def Valid (builder : Builder) : Prop :=
  (builder.mark :: builder.begun.map Prod.snd).Pairwise (· ≥ ·)

variable {builder later : Builder} {kind : NodeKind} {trees : List Tree}

@[simp]
theorem add_nil (builder : Builder) : builder.add [] = builder := by
  simp [add]

@[simp]
theorem add_add (builder : Builder) (first second : List Tree) :
    (builder.add first).add second = builder.add (first ++ second) := by
  simp [add]

theorem empty_valid : empty.Valid := by
  simp [Valid, empty]

theorem Valid.add (valid : builder.Valid) (trees : List Tree) : (builder.add trees).Valid := by
  simp only [Valid, mark, Builder.add, List.length_append, List.pairwise_cons] at valid ⊢
  refine ⟨fun first begun => ?_, valid.2⟩
  exact Nat.le_trans (valid.1 first begun) (Nat.le_add_right _ _)

theorem Valid.start (valid : builder.Valid) (kind : NodeKind) : (builder.start kind).Valid := by
  simp only [Valid, Builder.start, List.map_cons, List.pairwise_cons] at valid ⊢
  exact ⟨List.forall_mem_cons.mpr ⟨Nat.le_refl _, valid.1⟩, valid⟩

theorem Valid.startAt {mark : Nat} (valid : builder.Valid)
    (started : builder.startAt? mark kind = some later) : later.Valid := by
  simp only [startAt?, Option.ite_none_right_eq_some, Option.some.injEq] at started
  obtain ⟨⟨reached, within⟩, rfl⟩ := started
  simp only [Valid, List.map_cons, List.pairwise_cons] at valid ⊢
  refine ⟨List.forall_mem_cons.mpr ⟨reached, valid.1⟩, ?_, valid.2⟩
  -- The innermost node begins at or before the mark, and the others before that.
  cases begun : builder.begun with
  | nil => simp
  | cons innermost outer =>
      simp only [begun, List.head?_cons, Option.all_some, decide_eq_true_eq] at within
      simp only [begun, List.map_cons, List.pairwise_cons] at valid
      refine List.forall_mem_cons.mpr ⟨within, fun first membership => ?_⟩
      exact Nat.le_trans (valid.2.1 first membership) within

theorem Valid.finish (valid : builder.Valid) (finished : builder.finish? = some later) :
    later.Valid := by
  unfold finish? at finished
  split at finished
  · contradiction
  · rename_i kind first begun known
    obtain rfl := Option.some.inj finished
    simp only [Valid, known, List.map_cons, List.pairwise_cons, mark] at valid ⊢
    refine ⟨fun place membership => ?_, valid.2.2⟩
    have inside := valid.1 first (by simp)
    have earlier := valid.2.1 place membership
    simp only [List.length_append, List.length_take, List.length_singleton]
    omega

/-- A mark is good for a node as long as only trees were added since. -/
theorem Valid.startAt?_mark (valid : builder.Valid) (kind : NodeKind) (trees : List Tree) :
    (builder.add trees).startAt? builder.mark kind = some ((builder.start kind).add trees) := by
  have within : builder.begun.head?.all (·.2 ≤ builder.mark) = true := by
    cases begun : builder.begun with
    | nil => rfl
    | cons innermost outer =>
        simp only [Valid, begun, List.map_cons, List.pairwise_cons] at valid
        simpa using valid.1 innermost.2 (by simp)
  simpa [startAt?, Builder.add, Builder.start, mark] using within

@[simp]
theorem finish?_start (builder : Builder) (kind : NodeKind) (trees : List Tree) :
    ((builder.start kind).add trees).finish? = some (builder.add [.node kind trees]) := by
  simp [finish?, start, add, mark]

/-- A node that was begun at a mark can be finished. -/
theorem exists_finish?_of_startAt? {mark : Nat} (started : builder.startAt? mark kind = some later)
    (trees : List Tree) : ∃ finished, (later.add trees).finish? = some finished := by
  simp only [startAt?, Option.ite_none_right_eq_some, Option.some.injEq] at started
  obtain ⟨-, rfl⟩ := started
  exact ⟨_, rfl⟩

end Builder

end Scrapscript
