import OrchestraRag.Library.Nesting
import OrchestraRag.Parser.Sites

/-!
# The nodes of a tree in order

The positions of the nodes of a tree are the paths to them, a node before those below it and those
to its right (`pairwise_positions`); `Node.collect` gathers what a function gives for the nodes, in
the order of their positions.
-/

namespace OrchestraRag

/-! ### Positions -/

/-- The paths that a function gives for the nodes of a list, of which the first one has the index
`i`. -/
def childPaths (paths : Node → List Path) (i : ℕ) : List Node → List Path
  | [] => []
  | node :: nodes => (paths node).map (i :: ·) ++ childPaths paths (i + 1) nodes

theorem mem_childPaths {paths : Node → List Path} {i : ℕ} {nodes : List Node} {path : Path} :
  path ∈ childPaths paths i nodes
    ↔ ∃ k child tail, nodes[k]? = some child ∧ path = (i + k) :: tail ∧ tail ∈ paths child
  := by
  induction nodes generalizing i with
  | nil => simp [childPaths]
  | cons child nodes ih =>
      rw [childPaths, List.mem_append, ih, List.mem_map]
      constructor
      · rintro (⟨tail, htail, rfl⟩ | ⟨k, below, tail, hbelow, rfl, htail⟩)
        · use 0, child, tail, rfl, rfl
        · use k + 1, below, tail, hbelow
          constructor
          · rw [Nat.add_assoc, Nat.add_comm 1 k]
          · apply htail
      · rintro ⟨_ | k, below, tail, hbelow, rfl, htail⟩
        · obtain rfl := Option.some.inj hbelow
          exact Or.inl ⟨tail, htail, rfl⟩
        · apply Or.inr
          use k, below, tail, hbelow
          constructor
          · rw [Nat.add_assoc, Nat.add_comm 1 k]
          · apply htail

mutual

/-- The positions of the nodes of a tree, a node before those below it. -/
def Node.positions : Node → List Path
  | .mk _ _ _ children => [] :: childPositions 0 children

def childPositions (i : ℕ) : List Node → List Path
  | [] => []
  | child :: children => child.positions.map (i :: ·) ++ childPositions (i + 1) children

end

theorem childPositions_eq (i : ℕ) (nodes : List Node) :
  childPositions i nodes = childPaths Node.positions i nodes
  := by
  induction nodes generalizing i with
  | nil => rfl
  | cons node nodes ih => rw [childPositions, childPaths, ih]

theorem mem_childPositions {i : ℕ} {nodes : List Node} {path : Path} :
  path ∈ childPositions i nodes
    ↔ ∃ k child tail, nodes[k]? = some child ∧ path = (i + k) :: tail ∧ tail ∈ child.positions
  := by
  rw [childPositions_eq]
  apply mem_childPaths

/-- A path is a position exactly if it leads to a node. -/
theorem mem_positions {node : Node} {path : Path} :
  path ∈ node.positions ↔ ∃ below, node.follow path = some below
  := by
  induction path generalizing node with
  | nil =>
      obtain ⟨kind, fieldName, range, children⟩ := node
      apply iff_of_true
      · rw [Node.positions]
        apply List.mem_cons_self
      · exact ⟨_, rfl⟩
  | cons i path ih =>
      obtain ⟨kind, fieldName, range, children⟩ := node
      rw [Node.positions, List.mem_cons, mem_childPositions, Node.follow, Node.children]
      constructor
      · rintro (hnil | ⟨k, child, tail, hchild, hpath, htail⟩)
        · cases hnil
        · rw [Nat.zero_add] at hpath
          obtain ⟨rfl, rfl⟩ := List.cons.inj hpath
          rw [hchild]
          apply ih.mp htail
      · rintro ⟨below, hbelow⟩
        obtain ⟨child, hchild, hfollow⟩ := Option.bind_eq_some_iff.mp hbelow
        apply Or.inr
        use i, child, path, hchild
        rw [Nat.zero_add]
        exact ⟨rfl, ih.mpr ⟨below, hfollow⟩⟩

/-- Of two positions, the later one is below the earlier one or to its right. -/
def Follows (p q : Path) : Prop :=
  Below p q ∨ Before p q

theorem Follows.cons {p q : Path} (h : Follows p q) (i : ℕ) :
  Follows (i :: p) (i :: q)
  := by
  rcases h with ⟨k, h⟩ | ⟨start, k, l, hlt, hk, hl⟩
  · exact Or.inl ⟨k, List.cons_prefix_cons.mpr ⟨rfl, h⟩⟩
  · apply Or.inr
    use i :: start, k, l, hlt
    exact ⟨List.cons_prefix_cons.mpr ⟨rfl, hk⟩, List.cons_prefix_cons.mpr ⟨rfl, hl⟩⟩

theorem Follows.ne {p q : Path} (h : Follows p q) :
  p ≠ q
  := by
  rcases h with h | h
  · apply h.ne
  · apply h.ne

mutual

theorem pairwise_positions :
  ∀ node : Node, node.positions.Pairwise Follows
  | .mk kind fieldName range children => by
      rw [Node.positions, List.pairwise_cons]
      constructor
      · intro path hpath
        obtain ⟨k, child, tail, -, rfl, -⟩ := mem_childPositions.mp hpath
        exact Or.inl ⟨0 + k, tail, rfl⟩
      · apply pairwise_childPositions

theorem pairwise_childPositions (i : ℕ) :
  ∀ nodes : List Node, (childPositions i nodes).Pairwise Follows
  | [] => List.Pairwise.nil
  | child :: nodes => by
      rw [childPositions, List.pairwise_append]
      refine ⟨?_, pairwise_childPositions (i + 1) nodes, ?_⟩
      · apply (pairwise_positions child).map
        intro p q h
        apply h.cons
      · intro p hp q hq
        obtain ⟨tail, -, rfl⟩ := List.mem_map.mp hp
        obtain ⟨k, below, rest, -, rfl, -⟩ := mem_childPositions.mp hq
        apply Or.inr
        use [], i, i + 1 + k, by omega
        exact ⟨⟨tail, rfl⟩, ⟨rest, rfl⟩⟩

end

/-! ### What is collected -/

/-- What `f` gives for the nodes of a tree, in the order of their positions. -/
def Node.collect {β : Type} (f : Node → Option β) (node : Node) : List β :=
  node.positions.filterMap (fun path => (node.follow path).bind f)

theorem filterMap_childPositions {β : Type} {f : Node → Option β} {g : Path → Option β} {i : ℕ}
    {nodes : List Node}
    (h : ∀ k child tail, nodes[k]? = some child →
      g ((i + k) :: tail) = (child.follow tail).bind f) :
  (childPositions i nodes).filterMap g = nodes.flatMap (Node.collect f)
  := by
  induction nodes generalizing i with
  | nil => rfl
  | cons child nodes ih =>
      have hfirst : g ∘ (i :: ·) = fun path => (child.follow path).bind f := by
        funext tail
        apply h 0 child tail rfl
      have hrest : ∀ k below tail, nodes[k]? = some below →
          g ((i + 1 + k) :: tail) = (below.follow tail).bind f := by
        intro k below tail hbelow
        rw [Nat.add_assoc, Nat.add_comm 1 k]
        apply h (k + 1) below tail hbelow
      rw [childPositions, List.filterMap_append, List.filterMap_map, hfirst, ih hrest,
        List.flatMap_cons, Node.collect]

/-- A node gives what it gives itself, and then what its children give. -/
theorem collect_mk {β : Type} (f : Node → Option β) (kind : String) (fieldName : Option String)
    (range : Range) (children : List Node) :
  (Node.mk kind fieldName range children).collect f
    = (f (.mk kind fieldName range children)).toList ++ children.flatMap (Node.collect f)
  := by
  have hchildren : (childPositions 0 children).filterMap
        (fun path => ((Node.mk kind fieldName range children).follow path).bind f)
      = children.flatMap (Node.collect f) := by
    apply filterMap_childPositions
    intro k child tail hchild
    rw [Nat.zero_add, Node.follow, Node.children, hchild]
    rfl
  rw [Node.collect, Node.positions, List.filterMap_cons, hchildren]
  simp only [Node.follow, Option.bind_some]
  cases f (.mk kind fieldName range children) with
  | none => rfl
  | some b => rfl

end OrchestraRag
