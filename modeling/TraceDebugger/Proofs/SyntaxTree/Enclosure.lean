/-
The node for a span of the source.

The nodes of a tree are seen one after the other, and the best node so far is kept: it gives way to
an enclosing node that is shorter, or as long and deeper.  What is kept in the end is the best of
all enclosing nodes, and the first of those that are as good.

* `narrower_of_not_narrower` — what is preferred to a node is preferred to all that were not;
* `Found.step` — what one more node preserves, and so (`found_find?`) what the whole search finds;
* `IsBest.not_narrower` — no enclosing node is preferred to what is found;
* `Json.Precedes.asymm` — of two places at most one comes before the other in pre-order;
* `chooses_narrowest` — the main result.
-/
import TraceDebugger.Proofs.SyntaxTree.Places

namespace TraceDebugger

/-! ### Pre-order -/

/-- In a list without repetition at most one of two values comes before the other. -/
theorem not_pair_sublist_swap {α : Type} {values : List α} {a b : α} (hnodup : values.Nodup)
    (h : [a, b].Sublist values) : ¬ [b, a].Sublist values := by
  induction values with
  | nil => cases h
  | cons value rest ih =>
    obtain ⟨hnot, hrest⟩ := List.nodup_cons.mp hnodup
    intro hswap
    cases h with
    | cons _ h =>
      cases hswap with
      | cons _ hswap => exact ih hrest h hswap
      | cons_cons _ _ => exact hnot (h.subset (by simp))
    | cons_cons _ hb =>
      cases hswap with
      | cons _ hswap => exact hnot (hswap.subset (by simp))
      | cons_cons _ _ => exact hnot (hb.subset (by simp))

/-- Of two places at most one comes before the other. -/
theorem Json.Precedes.asymm {value : Json} {first second : Path} (h : Precedes value first second)
    (hu : value.uniqueNames = true) : ¬ Precedes value second first := by
  -- on how the first place comes before; names that stand once cannot be in both orders
  induction h with
  | above => exact nofun
  | member hv _ ih =>
    obtain ⟨hnodup, hinside⟩ := Bool.and_eq_true_iff.mp hu
    intro hback
    cases hback with
    | member hv' hback =>
      obtain rfl := Option.some.inj (hv.symm.trans hv')
      exact ih (uniqueNames_of_member? hv hinside) hback
    | members hsame =>
      exact not_pair_sublist_swap (of_decide_eq_true hnodup) hsame hsame
  | members hnames =>
    obtain ⟨hnodup, -⟩ := Bool.and_eq_true_iff.mp hu
    have hswap := not_pair_sublist_swap (of_decide_eq_true hnodup) hnames
    intro hback
    cases hback with
    | member _ _ => exact hswap hnames
    | members hback => exact hswap hback
  | item hv _ ih =>
    intro hback
    cases hback with
    | item hv' hback =>
      obtain rfl := Option.some.inj (hv.symm.trans hv')
      exact ih (uniqueNames_of_mem (List.mem_of_getElem? hv) hu) hback
    | items hlt => exact absurd hlt (Nat.lt_irrefl _)
  | items hlt =>
    intro hback
    cases hback with
    | item _ _ => exact absurd hlt (Nat.lt_irrefl _)
    | items hback => exact absurd hlt (Nat.lt_asymm hback)

namespace SyntaxTree

/-- The nodes of a tree stand in pre-order. -/
theorem pairwise_precedes {index : Int} {root : Json} {tree : SyntaxTree}
    (h : ofJson index root = .ok tree) (hu : root.uniqueNames = true) :
    tree.nodes.Pairwise fun node later => root.Precedes node.path later.path := by
  refine (enumerates_walk.1 [] root tree.nodes hu (walk_of_ofJson h)).sorted.imp fun hsorted => ?_
  obtain ⟨first, second, hfirst, hsecond, hprecedes⟩ := hsorted
  rw [hfirst, hsecond]
  exact hprecedes

/-! ### The best node so far -/

variable {start length : Int} {nodes : List Node} {node other : Node}

theorem narrower_iff : narrower node other = true ↔ other.span.length < node.span.length ∨
    other.span.length = node.span.length ∧ node.path.length < other.path.length := by
  rw [narrower, Bool.or_eq_true, Bool.and_eq_true, decide_eq_true_iff, beq_iff_eq,
    decide_eq_true_iff]

theorem narrower_eq_false_iff : narrower node other = false ↔
    node.span.length ≤ other.span.length ∧
      (other.span.length = node.span.length → other.path.length ≤ node.path.length) := by
  rw [← Bool.not_eq_true, narrower_iff]
  omega

/-- What is preferred to a node is preferred to all that are not preferred to that node. -/
theorem narrower_of_not_narrower {first second third : Node} (h : narrower first second = false)
    (h' : narrower first third = true) : narrower second third = true := by
  rw [narrower_eq_false_iff] at h
  rw [narrower_iff] at h' ⊢
  omega

/-- A node of a list encloses a span, is preferred to every earlier node that does, and no later
node that does is preferred to it. -/
structure IsBest (start length : Int) (before : List Node) (node : Node) (after : List Node) :
    Prop where
  encloses : node.encloses start length = true
  before : ∀ earlier ∈ before, earlier.encloses start length = true → narrower earlier node = true
  after : ∀ later ∈ after, later.encloses start length = true → narrower node later = false

/-- What has been kept of some nodes: none if none encloses the span, and else the best one. -/
def Found (start length : Int) (nodes : List Node) : Option Node → Prop
  | none => ∀ node ∈ nodes, node.encloses start length = false
  | some node => ∃ before after, nodes = before ++ node :: after ∧
    IsBest start length before node after

/-- No enclosing node is preferred to the best one. -/
theorem IsBest.not_narrower {before after : List Node} (h : IsBest start length before node after)
    (ho : other ∈ before ++ node :: after) (hencloses : other.encloses start length = true) :
    narrower node other = false := by
  rcases List.mem_append.mp ho with hbefore | hafter
  · have hn := narrower_iff.mp (h.before other hbefore hencloses)
    rw [narrower_eq_false_iff]
    omega
  · rcases List.mem_cons.mp hafter with rfl | hafter
    · exact narrower_eq_false_iff.mpr ⟨Int.le_refl _, fun _ => Nat.le_refl _⟩
    · exact h.after other hafter hencloses

/-- What is preferred to the best node is preferred to all enclosing ones. -/
theorem IsBest.narrower_of_mem {before after : List Node}
    (h : IsBest start length before node after) (hn : narrower node other = true) :
    ∀ earlier ∈ before ++ node :: after, earlier.encloses start length = true →
      narrower earlier other = true :=
  fun _ hearlier hencloses => narrower_of_not_narrower (h.not_narrower hearlier hencloses) hn

/-- A node that is not preferred leaves the best one as it is. -/
theorem IsBest.concat {before after : List Node} (h : IsBest start length before node after)
    (hn : other.encloses start length = true → narrower node other = false) :
    IsBest start length before node (after ++ [other]) := by
  refine ⟨h.encloses, h.before, fun later hlater hencloses => ?_⟩
  rcases List.mem_append.mp hlater with hafter | hother
  · exact h.after later hafter hencloses
  · obtain rfl := List.mem_singleton.mp hother
    exact hn hencloses

/-- **One more node.** -/
theorem Found.step {best : Option Node} (h : Found start length nodes best) (other : Node) :
    Found start length (nodes ++ [other]) (better start length best other) := by
  cases best with
  | none =>
    rw [better]
    split_ifs with hencloses
    · refine ⟨nodes, [], rfl, hencloses, fun earlier hearlier htrue => ?_, nofun⟩
      exact absurd htrue (ne_true_of_eq_false (h earlier hearlier))
    · intro node hn
      rcases List.mem_append.mp hn with hn | hn
      · exact h node hn
      · obtain rfl := List.mem_singleton.mp hn
        exact eq_false_of_ne_true hencloses
  | some node =>
    obtain ⟨before, after, rfl, hbest⟩ := h
    rw [better]
    -- the best node stays unless the new one is strictly narrower, so the first of equals is kept
    split_ifs with hencloses hnarrower
    · exact ⟨before ++ node :: after, [], rfl, hencloses, hbest.narrower_of_mem hnarrower, nofun⟩
    · exact ⟨before, after ++ [other], by simp,
        hbest.concat fun _ => eq_false_of_ne_true hnarrower⟩
    · exact ⟨before, after ++ [other], by simp,
        hbest.concat fun htrue => absurd htrue hencloses⟩

/-- **The whole search.** -/
theorem found_find? (tree : SyntaxTree) (start length : Int) :
    Found start length tree.nodes (tree.find? start length) := by
  have hall : ∀ nodes : List Node,
      Found start length nodes (nodes.foldl (better start length) none) := by
    intro nodes
    induction nodes using List.reverseRecOn with
    | nil => exact nofun
    | append_singleton nodes node ih =>
      rw [List.foldl_concat]
      exact ih.step node
  exact hall tree.nodes

/-! ### The node that is chosen -/

/-- The node of a tree for a span: the shortest of the enclosing ones, of these the deepest, and of
these the first in pre-order. -/
structure Chosen (root : Json) (tree : SyntaxTree) (start length : Int) (node : Node) : Prop where
  mem : node ∈ tree.nodes
  encloses : node.encloses start length = true
  shortest : ∀ other ∈ tree.nodes, other.encloses start length = true →
    node.span.length ≤ other.span.length
  deepest : ∀ other ∈ tree.nodes, other.encloses start length = true →
    other.span.length = node.span.length → other.path.length ≤ node.path.length
  first : ∀ other ∈ tree.nodes, other.encloses start length = true →
    other.span.length = node.span.length → other.path.length = node.path.length →
    other = node ∨ root.Precedes node.path other.path

variable {index : Int} {root : Json} {tree : SyntaxTree}

theorem find?_eq_none_iff : tree.find? start length = none ↔
    ∀ node ∈ tree.nodes, node.encloses start length = false := by
  have hfound := found_find? tree start length
  constructor
  · intro hnone
    rw [hnone] at hfound
    exact hfound
  · intro hall
    cases hsome : tree.find? start length with
    | none => rfl
    | some node =>
      rw [hsome] at hfound
      obtain ⟨before, after, hnodes, hbest⟩ := hfound
      have hmem : node ∈ tree.nodes := hnodes ▸ List.mem_append_right _ List.mem_cons_self
      exact absurd hbest.encloses (ne_true_of_eq_false (hall node hmem))

/-- If a node encloses the span, one is found. -/
theorem exists_find?_eq_some (hmem : node ∈ tree.nodes)
    (hencloses : node.encloses start length = true) :
    ∃ best, tree.find? start length = some best := by
  refine Option.ne_none_iff_exists'.mp fun hnone => ?_
  exact absurd hencloses (ne_true_of_eq_false (find?_eq_none_iff.mp hnone node hmem))

theorem chosen_of_find?_eq_some (hp : tree.nodes.Pairwise fun node later =>
      root.Precedes node.path later.path) (h : tree.find? start length = some node) :
    tree.Chosen root start length node := by
  have hfound := found_find? tree start length
  rw [h] at hfound
  obtain ⟨before, after, hnodes, hbest⟩ := hfound
  have hbetter : ∀ other ∈ tree.nodes, other.encloses start length = true →
      narrower node other = false := fun other ho => hbest.not_narrower (hnodes ▸ ho)
  refine
    { mem := hnodes ▸ List.mem_append_right _ List.mem_cons_self
      encloses := hbest.encloses
      shortest := fun other ho hencloses =>
        (narrower_eq_false_iff.mp (hbetter other ho hencloses)).1
      deepest := fun other ho hencloses =>
        (narrower_eq_false_iff.mp (hbetter other ho hencloses)).2
      first := fun other ho hencloses hlength hdepth => ?_ }
  rw [hnodes] at hp ho
  rcases List.mem_append.mp ho with hbefore | hafter
  · -- an earlier node has given way, so it is no tie
    have := narrower_iff.mp (hbest.before other hbefore hencloses)
    omega
  · have hlater := (List.pairwise_cons.mp (List.pairwise_append.mp hp).2.1).1
    exact (List.mem_cons.mp hafter).imp_right (hlater other)

/-- At most one node is chosen. -/
theorem Chosen.unique (hu : root.uniqueNames = true) (h : tree.Chosen root start length node)
    (h' : tree.Chosen root start length other) : node = other := by
  have hlength : other.span.length = node.span.length :=
    Int.le_antisymm (h'.shortest node h.mem h.encloses) (h.shortest other h'.mem h'.encloses)
  have hdepth : other.path.length = node.path.length :=
    Nat.le_antisymm (h.deepest other h'.mem h'.encloses hlength)
      (h'.deepest node h.mem h.encloses hlength.symm)
  obtain rfl | hfirst := h.first other h'.mem h'.encloses hlength hdepth
  · rfl
  · obtain rfl | hback := h'.first node h.mem h.encloses hlength.symm hdepth.symm
    · rfl
    · exact absurd hback (hfirst.asymm hu)

theorem find?_eq_some_iff (h : ofJson index root = .ok tree) (hu : root.uniqueNames = true) :
    tree.find? start length = some node ↔ tree.Chosen root start length node := by
  have hp := pairwise_precedes h hu
  refine ⟨chosen_of_find?_eq_some hp, fun hchosen => ?_⟩
  obtain ⟨best, hbest⟩ := exists_find?_eq_some hchosen.mem hchosen.encloses
  rw [hbest, (chosen_of_find?_eq_some hp hbest).unique hu hchosen]

theorem encloses_iff : node.encloses start length = true ↔
    node.span.start ≤ start ∧ start + length ≤ node.span.start + node.span.length := by
  rw [Node.encloses, Bool.and_eq_true, decide_eq_true_iff, decide_eq_true_iff]

/-- A node of just this span is preferred to all that are not. -/
theorem Chosen.same_span (h : tree.Chosen root start length node) (ho : other ∈ tree.nodes)
    (hstart : other.span.start = start) (hlength : other.span.length = length) :
    node.span.start = start ∧ node.span.length = length := by
  have hencloses := encloses_iff.mp h.encloses
  have hle := h.shortest other ho (encloses_iff.mpr (by omega))
  omega

/-- A node is preferred to those above it that have the same span. -/
theorem Chosen.not_above (h : tree.Chosen root start length node) (ho : other ∈ tree.nodes)
    (habove : node.path <+: other.path) (hne : node.path ≠ other.path) :
    ¬ (other.span.start = node.span.start ∧ other.span.length = node.span.length) := by
  rintro ⟨hstart, hlength⟩
  have hencloses := encloses_iff.mp h.encloses
  have hle := h.deepest other ho (encloses_iff.mpr (by omega)) hlength
  exact hne (habove.eq_of_length_le hle)

/-- **The node for a span.**  There is none exactly if no node encloses the span, and else it is the
shortest enclosing node, of these the deepest, and of these the first in pre-order.  So it has just
this span if some node has, and no node below it has the span that it has. -/
theorem chooses_narrowest (h : ofJson index root = .ok tree) (hu : root.uniqueNames = true)
    (start length : Int) :
    (tree.find? start length = none ↔
      ∀ node ∈ tree.nodes, node.encloses start length = false) ∧
    (∀ node, tree.find? start length = some node ↔ tree.Chosen root start length node) ∧
    ((∃ same ∈ tree.nodes, same.span.start = start ∧ same.span.length = length) →
      ∃ node, tree.find? start length = some node ∧
        node.span.start = start ∧ node.span.length = length) ∧
    ∀ node, tree.find? start length = some node → ∀ below ∈ tree.nodes,
      node.path <+: below.path → node.path ≠ below.path →
      ¬ (below.span.start = node.span.start ∧ below.span.length = node.span.length) := by
  refine ⟨find?_eq_none_iff, fun _ => find?_eq_some_iff h hu, ?_, ?_⟩
  · rintro ⟨same, hmem, hstart, hlength⟩
    have hencloses : same.encloses start length = true := encloses_iff.mpr (by omega)
    obtain ⟨node, hbest⟩ := exists_find?_eq_some hmem hencloses
    exact ⟨node, hbest, ((find?_eq_some_iff h hu).mp hbest).same_span hmem hstart hlength⟩
  · intro node hbest below hmem habove hne
    exact ((find?_eq_some_iff h hu).mp hbest).not_above hmem habove hne

/-- A declaration at the same span for every identity. -/
def twin (id : Int) : List (String × Json) :=
  [("nodeType", .str "VariableDeclaration"), ("id", .int id), ("src", .str "5:10:0")]

/-- A contract with two declarations of one span. -/
def twins : List (String × Json) :=
  [("nodeType", .str "ContractDefinition"), ("id", .int 2), ("src", .str "0:40:0"),
    ("nodes", .arr [.obj (twin 3), .obj (twin 4)])]

/-- A source that the contract fills. -/
def filled : List (String × Json) :=
  [("nodeType", .str "SourceUnit"), ("id", .int 1), ("src", .str "0:40:0"),
    ("nodes", .arr [.obj twins])]

/-- The tree of the source. -/
def filledTree : SyntaxTree :=
  ⟨0, [⟨.number 1, .str "SourceUnit", ⟨0, 40, 0⟩, [], filled⟩,
    ⟨.number 2, .str "ContractDefinition", ⟨0, 40, 0⟩, [.member "nodes", .item 0], twins⟩,
    ⟨.number 3, .str "VariableDeclaration", ⟨5, 10, 0⟩,
      [.member "nodes", .item 0, .member "nodes", .item 0], twin 3⟩,
    ⟨.number 4, .str "VariableDeclaration", ⟨5, 10, 0⟩,
      [.member "nodes", .item 0, .member "nodes", .item 1], twin 4⟩]⟩

/-- For its whole span the contract is chosen, and for a span in the declarations the first of
them. -/
theorem filledTree_chooses :
    ofJson 0 (.obj filled) = .ok filledTree ∧ (Json.obj filled).uniqueNames = true ∧
      (∃ node, filledTree.Chosen (.obj filled) 0 40 node ∧ node.id = .number 2) ∧
      ∃ node, filledTree.Chosen (.obj filled) 6 2 node ∧ node.id = .number 3 := by
  have hbuilt : ofJson 0 (.obj filled) = .ok filledTree := by rfl
  have hunique : (Json.obj filled).uniqueNames = true := by decide
  exact ⟨hbuilt, hunique, ⟨_, ((chooses_narrowest hbuilt hunique 0 40).2.1 _).mp rfl, rfl⟩,
    ⟨_, ((chooses_narrowest hbuilt hunique 6 2).2.1 _).mp rfl, rfl⟩⟩

end SyntaxTree

end TraceDebugger
