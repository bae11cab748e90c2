import ConfigExpr.Proofs.VisitTrace

/-! Visits against the children of nodes. A visitor never sees a list of children: it walks call by
call and argument by argument. Whatever it does with what it is told, it is told the trace of the
tree, and a visitor of the leaves is one that has no use for the rest. -/
namespace ConfigExpr

namespace Visitor

variable {m : Type → Type} [Monad m]

def onLeaves (leaf : Node → m Unit) : Visitor m where
  string text := leaf (.string text)
  number digits := leaf (.number digits)
  boolean value := leaf (.boolean value)
  memberName name := leaf (.memberName name)

def pruning (skips : String → Bool) (report : Event → m Unit) : Visitor m where
  expression tree walk := do
    report (.enter (.expression tree))
    walk
    report (.leave (.expression tree))
  call tree walk :=
    if skips tree.name then report (.skip (.call tree))
    else do
      report (.enter (.call tree))
      walk
      report (.leave (.call tree))
  argument argument walk := do
    report (.argument argument.toNode)
    walk
  string text := report (.leaf (.string text))
  number digits := report (.leaf (.number digits))
  boolean value := report (.leaf (.boolean value))
  memberName name := report (.leaf (.memberName name))

end Visitor

section Visits

variable {m : Type → Type} [Monad m] [LawfulMonad m] (skips : String → Bool)
  (report : Event → m Unit)

theorem Node.forM_trace_call (tree : Call) : forM ((Node.call tree).trace skips) report =
    (Visitor.pruning skips report).call tree (forM ((tree.arguments.map Argument.toNode).flatMap
      fun child => .argument child :: child.trace skips) report) := by
  cases named : skips tree.name with
  | true =>
    have unwalked : (Node.call tree).isWalked skips = false := by simp [isWalked, isNamed, named]
    rw [trace_of_not_walked unwalked]
    simp [opening, unwalked, isLeaf, Visitor.pruning, named]
  | false =>
    have walked : (Node.call tree).isWalked skips := by simp [isWalked, isLeaf, isNamed, named]
    rw [trace_of_walked walked]
    simp [Visitor.pruning, named, announce, isCall, children]

theorem Node.forM_trace_of_leaf {node : Node} (leaf : node.isLeaf) :
    forM (node.trace skips) report = report (.leaf node) := by
  rw [trace_of_leaf leaf, List.forM_cons, List.forM_nil, bind_pure_unit]

mutual

theorem Argument.visit_pruning : ∀ x : Argument, x.visit (.pruning skips report) =
    forM (Event.argument x.toNode :: x.toNode.trace skips) report
  | .call name arguments => by
    have inner := Argument.visitList_pruning arguments
    rw [Argument.visit, inner, List.forM_cons, toNode, Node.forM_trace_call, List.flatMap_map]
    rfl
  | .string text => by
    rw [toNode, List.forM_cons, Node.forM_trace_of_leaf skips report rfl]
    rfl
  | .number digits => by
    rw [toNode, List.forM_cons, Node.forM_trace_of_leaf skips report rfl]
    rfl
  | .boolean value => by
    rw [toNode, List.forM_cons, Node.forM_trace_of_leaf skips report rfl]
    rfl

theorem Argument.visitList_pruning : ∀ xs : List Argument,
    visitList (.pruning skips report) xs =
      forM (xs.flatMap fun x => Event.argument x.toNode :: x.toNode.trace skips) report
  | [] => rfl
  | x :: r => by
    rw [Argument.visitList, Argument.visit_pruning x, Argument.visitList_pruning r,
      List.flatMap_cons, List.forM_append]

end

theorem Call.visit_pruning (tree : Call) : tree.visit (.pruning skips report) =
    forM ((Node.call tree).trace skips) report := by
  rw [Call.visit, Argument.visitList_pruning, Node.forM_trace_call, List.flatMap_map]

theorem Expression.visit_pruning (tree : Expression) : tree.visit (.pruning skips report) =
    forM ((Node.expression tree).trace skips) report := by
  have members : (tree.members.map Node.memberName).flatMap (Node.trace skips) =
      tree.members.map fun name => Event.leaf (.memberName name) := by
    rw [List.flatMap_map, List.map_eq_flatMap]
    exact List.flatMap_congr fun name _ => Node.trace_of_leaf rfl
  have walked : (Node.expression tree).isWalked skips := rfl
  rw [Expression.visit, Call.visit_pruning, Node.trace_of_walked walked]
  simp [Visitor.pruning, Node.announce, Node.isCall, Node.children, members]

/-! A visitor of the leaves is told the rest as well, and does nothing then. -/

def Event.ifLeaf (leaf : Node → m Unit) : Event → m Unit
  | .leaf node => leaf node
  | _ => pure ()

theorem Event.forM_ifLeaf (leaf : Node → m Unit) (events : List Event) :
    forM events (ifLeaf leaf) = forM (events.filterMap leaf?) leaf := by
  induction events with
  | nil => rfl
  | cons event r ih => cases event <;> simp [ifLeaf, leaf?, List.filterMap_cons, ih]

theorem Visitor.onLeaves_eq_pruning (leaf : Node → m Unit) :
    onLeaves leaf = pruning (fun _ => false) (Event.ifLeaf leaf) := by
  simp [onLeaves, pruning, Event.ifLeaf]

theorem Placed.isReached_of_no_skips (place : Placed) : place.isReached (fun _ => false) := by
  have named : ∀ node : Node, node.isNamed (fun _ => false) = false := by
    intro node
    cases node <;> rfl
  simp [isReached, named]

theorem Expression.visit_onLeaves (leaf : Node → m Unit) (tree : Expression) :
    tree.visit (.onLeaves leaf) =
      forM ((((Node.expression tree).listing 0).map Prod.snd).filter Node.isLeaf) leaf := by
  rw [Visitor.onLeaves_eq_pruning, Expression.visit_pruning, Event.forM_ifLeaf, Node.leaves_trace,
    ← List.length_nil, Node.listing_eq_places, List.map_map, List.filter_map]
  simp only [Placed.isReached_of_no_skips, Bool.true_and]
  rfl

/-- Leaves, rendering and walks of one tree, read from its nodes in preorder. -/
theorem traversals_agree (tree : Expression) (leaf : Node → m Unit) :
    let root := Node.expression tree
    let nodes := root.places []
    let events := root.trace skips
    root.listing 0 = nodes.map (fun place => (place.above.length, place.node)) ∧
    tree.visit (.onLeaves leaf) =
      forM (((root.listing 0).map Prod.snd).filter Node.isLeaf) leaf ∧
    tree.sexp = root.rendering ∧
    tree.visit (.pruning skips report) = forM events report ∧
    events.filterMap Event.entered? = (nodes.filter (·.isEntered skips)).map (·.node) ∧
    events.filterMap Event.skipped? = (nodes.filter fun place =>
      place.isReached skips && place.node.isNamed skips).map (·.node) ∧
    events.filterMap Event.argument? = (nodes.filter fun place =>
      place.isReached skips && place.isArgument).map (·.node) ∧
    Event.nested? events [] = some (nodes.filter (·.isEntered skips)) :=
  ⟨Node.listing_eq_places [] _, tree.visit_onLeaves leaf, tree.sexp_eq_rendering,
    tree.visit_pruning skips report, Node.entered_trace skips _, Node.skipped_trace skips _,
    Node.arguments_trace skips _, Node.nested?_whole_trace skips _⟩

end Visits

def nestedCalls : Expression :=
  ⟨⟨"g", [.call "f" [.call "f" [.number "1"]], .string "x", .call "h" [.boolean true]]⟩, ["m"]⟩

def Event.log (event : Event) : StateM (List Event) Unit := modify (· ++ [event])

theorem traversals_agree_recorded : LawfulMonad (StateM (List Event)) ∧
    nestedCalls.visit (.pruning (· == "f") Event.log) =
      forM ((Node.expression nestedCalls).trace (· == "f")) Event.log ∧
    Event.nested? ((Node.expression nestedCalls).trace (· == "f")) [] =
      some (((Node.expression nestedCalls).places []).filter (·.isEntered (· == "f"))) :=
  have ⟨_, _, _, visit, _, _, _, nested⟩ :=
    traversals_agree (· == "f") Event.log nestedCalls fun node => Event.log (.leaf node)
  ⟨inferInstance, visit, nested⟩

example : (nestedCalls.visit (.pruning (· == "f") Event.log) []).2 =
    let h : Node := .call ⟨"h", [.boolean true]⟩
    let f : Node := .call ⟨"f", [.call "f" [.number "1"]]⟩
    [.enter (.expression nestedCalls), .enter (.call nestedCalls.function), .argument f, .skip f,
      .argument (.string "x"), .leaf (.string "x"), .argument h, .enter h,
      .argument (.boolean true), .leaf (.boolean true), .leave h,
      .leave (.call nestedCalls.function), .leaf (.memberName "m"),
      .leave (.expression nestedCalls)] := rfl

end ConfigExpr
