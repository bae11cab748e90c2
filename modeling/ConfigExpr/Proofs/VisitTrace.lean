import ConfigExpr.Proofs.SexpDecoding
import Mathlib.Data.List.Basic

/-! What a visit is told that leaves out some calls. A trace goes down through the children of each
node, and what it holds is read off the preorder of the nodes: which of them are entered, skipped
or passed as arguments, and that the walks lie one inside the other. -/
namespace ConfigExpr

/-- A node with the nodes that it stands in, the nearest first. -/
structure Placed where
  node : Node
  above : List Node
  deriving DecidableEq, Repr

namespace Node

def isLeaf : Node → Bool
  | expression _ | call _ => false
  | _ => true

def isCall : Node → Bool
  | call _ => true
  | _ => false

def isNamed (skips : String → Bool) : Node → Bool
  | call tree => skips tree.name
  | _ => false

def isWalked (skips : String → Bool) (node : Node) : Bool := !node.isLeaf && !node.isNamed skips

def places (above : List Node) (node : Node) : List Placed :=
  ⟨node, above⟩ :: node.children.attach.flatMap fun ⟨child, _⟩ => child.places (node :: above)
termination_by node.size
decreasing_by exact size_child (by assumption)

end Node

/-- What a visitor is told: that a call gets the node as an argument, that its children are visited
now or have been visited, that they are left out, or that it is a leaf. -/
inductive Event where
  | argument (node : Node)
  | enter (node : Node)
  | leave (node : Node)
  | skip (node : Node)
  | leaf (node : Node)
  deriving DecidableEq, Repr

namespace Event

def argument? : Event → Option Node
  | argument node => some node
  | _ => none

def entered? : Event → Option Node
  | enter node => some node
  | _ => none

def skipped? : Event → Option Node
  | skip node => some node
  | _ => none

def leaf? : Event → Option Node
  | leaf node => some node
  | _ => none

/-- The nodes that are entered, each with the nodes that are open then. A node is left when it is
the innermost of the open ones, and all are left at the end. -/
def nested? : List Event → List Node → Option (List Placed)
  | [], [] => some []
  | [], _ :: _ => none
  | enter node :: r, opened => (nested? r (node :: opened)).map (⟨node, opened⟩ :: ·)
  | leave _ :: _, [] => none
  | leave node :: r, innermost :: opened => if node = innermost then nested? r opened else none
  | _ :: r, opened => nested? r opened

end Event

namespace Node

/-- What comes before a child: calls have arguments, and an expression has none. -/
def announce (node child : Node) : List Event := if node.isCall then [.argument child] else []

def opening (skips : String → Bool) (node : Node) : Event :=
  if node.isWalked skips then .enter node else if node.isLeaf then .leaf node else .skip node

def trace (skips : String → Bool) (node : Node) : List Event :=
  node.opening skips ::
    if node.isWalked skips then
      (node.children.attach.flatMap fun ⟨child, _⟩ => node.announce child ++ child.trace skips) ++
        [.leave node]
    else []
termination_by node.size
decreasing_by exact size_child (by assumption)

variable {skips : String → Bool} {above : List Node} {node : Node}

theorem places_eq (above : List Node) (node : Node) :
    node.places above = ⟨node, above⟩ :: node.children.flatMap (places (node :: above)) := by
  rw [places]
  simp

theorem trace_of_walked (walked : node.isWalked skips) :
    node.trace skips = .enter node ::
      ((node.children.flatMap fun child => node.announce child ++ child.trace skips) ++
        [.leave node]) := by
  rw [trace, opening, if_pos walked, if_pos walked]
  simp

theorem trace_of_not_walked (unwalked : node.isWalked skips = false) :
    node.trace skips = [node.opening skips] := by
  rw [trace, if_neg (by simp [unwalked])]

theorem trace_of_leaf (leaf : node.isLeaf) : node.trace skips = [.leaf node] := by
  have unwalked : node.isWalked skips = false := by simp [isWalked, leaf]
  rw [trace_of_not_walked unwalked, opening, if_neg (by simp [unwalked]), if_pos leaf]

theorem listing_eq_places (above : List Node) (node : Node) :
    node.listing above.length =
      (node.places above).map fun place => (place.above.length, place.node) := by
  induction node using inductionOnChildren generalizing above with
  | step node ih =>
    rw [listing_eq, places_eq, List.map_cons, List.map_flatMap]
    exact congrArg _ (List.flatMap_congr fun child mem => ih child mem (node :: above))

theorem suffix_of_mem_places {place : Placed} (mem : place ∈ node.places above) :
    above <:+ place.above := by
  induction node using inductionOnChildren generalizing above with
  | step node ih =>
    rw [places_eq, List.mem_cons, List.mem_flatMap] at mem
    rcases mem with rfl | ⟨child, hc, below⟩
    · exact List.suffix_rfl
    · exact (List.suffix_cons node above).trans (ih child hc below)

end Node

def Placed.isReached (skips : String → Bool) (place : Placed) : Bool :=
  !place.above.any (·.isNamed skips)

namespace Node

variable {skips : String → Bool} {above : List Node} {node : Node}

def reached (skips : String → Bool) (above : List Node) (node : Node) : List Placed :=
  (node.places above).filter (·.isReached skips)

theorem reached_of_named (named : above.any (·.isNamed skips)) : node.reached skips above = [] := by
  rw [reached, List.filter_eq_nil_iff]
  intro place mem
  obtain ⟨call, hc, skipped⟩ := List.any_eq_true.mp named
  have inside := (suffix_of_mem_places mem).subset hc
  simpa [Placed.isReached] using ⟨call, inside, skipped⟩

theorem children_of_leaf (leaf : node.isLeaf) : node.children = [] := by
  cases node <;> simp_all [isLeaf, children]

theorem reached_eq (clear : above.any (·.isNamed skips) = false) : node.reached skips above =
    ⟨node, above⟩ :: node.children.flatMap (reached skips (node :: above)) := by
  rw [reached, places_eq, List.filter_cons_of_pos (by simp [Placed.isReached, clear]),
    List.filter_flatMap]
  rfl

theorem reached_of_not_walked (clear : above.any (·.isNamed skips) = false)
    (unwalked : node.isWalked skips = false) : node.reached skips above = [⟨node, above⟩] := by
  rw [reached_eq clear]
  by_cases leaf : node.isLeaf
  · rw [children_of_leaf leaf]
    rfl
  · have named : (node :: above).any (·.isNamed skips) := by simp_all [isWalked]
    have below : node.children.flatMap (reached skips (node :: above)) = [] :=
      List.flatMap_eq_nil_iff.mpr fun child _ => reached_of_named named
    rw [below]

theorem clear_of_walked (clear : above.any (·.isNamed skips) = false)
    (walked : node.isWalked skips) : (node :: above).any (·.isNamed skips) = false := by
  simp_all [isWalked]

end Node

def Placed.isArgument (place : Placed) : Bool := place.above.head?.any (·.isCall)

/-- An argument is announced by the call that it stands in. -/
def Placed.arrival (place : Placed) : List Event :=
  if place.isArgument then [.argument place.node] else []

def Placed.reports (skips : String → Bool) (place : Placed) : List Event :=
  place.arrival ++ [place.node.opening skips]

namespace Node

variable {skips : String → Bool} {above : List Node} {node : Node}

/-- All but the ends of the walks, read from the nodes that are reached. What tells of an argument
comes from the call around it, so it stands in front of the trace. -/
theorem filterMap_trace {α : Type} {f : Event → Option α} (ends : ∀ node, f (.leave node) = none)
    (clear : above.any (·.isNamed skips) = false) :
    (Placed.arrival ⟨node, above⟩ ++ node.trace skips).filterMap f =
      (node.reached skips above).flatMap fun place => (place.reports skips).filterMap f := by
  induction node using inductionOnChildren generalizing above with
  | step node ih =>
    cases walked : node.isWalked skips with
    | false =>
      rw [trace_of_not_walked walked, reached_of_not_walked clear walked, List.flatMap_singleton]
      rfl
    | true =>
      have below := clear_of_walked clear walked
      have inner : ((node.children.flatMap fun child => node.announce child ++ child.trace skips) ++
            [Event.leave node]).filterMap f =
          (node.children.flatMap (reached skips (node :: above))).flatMap fun place =>
            (place.reports skips).filterMap f := by
        rw [List.filterMap_append, List.filterMap_flatMap, List.flatMap_assoc,
          List.filterMap_cons_none (ends node), List.filterMap_nil, List.append_nil]
        exact List.flatMap_congr fun child mem => ih child mem below
      rw [trace_of_walked walked, reached_eq clear, List.flatMap_cons, ← inner,
        Placed.reports, opening, if_pos walked, ← List.filterMap_append, List.append_assoc]
      rfl

theorem nested?_children {children : List Node} {r : List Event}
    (inner : ∀ child ∈ children, ∀ r, Event.nested? (child.trace skips ++ r) above =
      (Event.nested? r above).map
        ((child.reached skips above).filter (·.node.isWalked skips) ++ ·)) (parent : Node) :
    Event.nested?
        ((children.flatMap fun child => parent.announce child ++ child.trace skips) ++ r) above =
      (Event.nested? r above).map
        ((children.flatMap (reached skips above)).filter (·.node.isWalked skips) ++ ·) := by
  induction children with
  | nil => simp
  | cons child others ih =>
    have first := inner child List.mem_cons_self
    have rest := ih fun other mem => inner other (List.mem_cons_of_mem child mem)
    have passed (r : List Event) :
        Event.nested? (parent.announce child ++ r) above = Event.nested? r above := by
      rw [announce]
      split <;> rfl
    rw [List.flatMap_cons, List.append_assoc, List.append_assoc, passed, first, rest,
      Option.map_map, List.flatMap_cons, List.filter_append]
    simp only [Function.comp_def, List.append_assoc]

theorem nested?_trace {r : List Event} (clear : above.any (·.isNamed skips) = false) :
    Event.nested? (node.trace skips ++ r) above = (Event.nested? r above).map
      ((node.reached skips above).filter (·.node.isWalked skips) ++ ·) := by
  induction node using inductionOnChildren generalizing above r with
  | step node ih =>
    cases walked : node.isWalked skips with
    | false =>
      rw [trace_of_not_walked walked, reached_of_not_walked clear walked, opening,
        if_neg (by simp [walked]), List.filter_cons_of_neg (by simp [walked])]
      split <;> simp [Event.nested?]
    | true =>
      have below := clear_of_walked clear walked
      have inner := nested?_children (r := .leave node :: r)
        (fun child mem r => ih child mem (r := r) below) node
      rw [trace_of_walked walked, reached_eq clear,
        List.filter_cons_of_pos (by exact walked), List.cons_append, List.append_assoc,
        List.singleton_append, Event.nested?, inner, Event.nested?, if_pos rfl, Option.map_map]
      rfl

end Node

variable {skips : String → Bool}

theorem Placed.filterMap_reports {α : Type} (f : Event → Option α) (place : Placed) :
    (place.reports skips).filterMap f =
      (if place.isArgument then (f (.argument place.node)).toList else []) ++
        (f (place.node.opening skips)).toList := by
  have single : ∀ event, [event].filterMap f = (f event).toList := by
    intro event
    rw [List.filterMap_cons, List.filterMap_nil]
    cases f event <;> rfl
  rw [reports, arrival, List.filterMap_append, single]
  split
  · rw [single]
  · rfl

theorem flatMap_ite_singleton {α β : Type} (c : α → Bool) (g : α → β) (xs : List α) :
    (xs.flatMap fun x => if c x then [g x] else []) = (xs.filter c).map g := by
  induction xs with
  | nil => rfl
  | cons x r ih => by_cases hc : c x <;> simp [hc, ih]

/-- What one kind of event tells of a whole tree, from what it tells of each node. -/
theorem Node.filterMap_trace_of_reports {f : Event → Option Node} (kind : Placed → Bool)
    (ends : ∀ node, f (.leave node) = none)
    (tells : ∀ place : Placed,
      (if place.isArgument then (f (.argument place.node)).toList else []) ++
        (f (place.node.opening skips)).toList = if kind place then [place.node] else [])
    (node : Node) : (node.trace skips).filterMap f =
      ((node.places []).filter fun place => place.isReached skips && kind place).map (·.node) := by
  have whole := @filterMap_trace skips [] node _ f ends rfl
  simp only [Placed.filterMap_reports, tells, flatMap_ite_singleton, reached, List.filter_filter]
    at whole
  simp only [Bool.and_comm]
  exact whole

def Placed.isEntered (skips : String → Bool) (place : Placed) : Bool :=
  !place.node.isLeaf && !(place.node :: place.above).any (·.isNamed skips)

theorem Placed.isEntered_eq (skips : String → Bool) (place : Placed) :
    place.isEntered skips = (place.isReached skips && place.node.isWalked skips) := by
  rw [isEntered, isReached, Node.isWalked, List.any_cons, Bool.not_or,
    Bool.and_comm (!List.any _ _), Bool.and_assoc]

namespace Node

theorem opening_cases (skips : String → Bool) (node : Node) :
    (node.isWalked skips ∧ node.isLeaf = false ∧ node.isNamed skips = false ∧
      node.opening skips = .enter node) ∨
    (node.isWalked skips = false ∧ node.isLeaf ∧ node.isNamed skips = false ∧
      node.opening skips = .leaf node) ∨
    (node.isWalked skips = false ∧ node.isLeaf = false ∧ node.isNamed skips ∧
      node.opening skips = .skip node) := by
  cases node with
  | call tree => cases named : skips tree.name <;> simp [isWalked, isLeaf, isNamed, opening, named]
  | _ => simp [isWalked, isLeaf, isNamed, opening]

theorem entered_trace (skips : String → Bool) (node : Node) :
    (node.trace skips).filterMap Event.entered? =
      ((node.places []).filter (·.isEntered skips)).map (·.node) := by
  simp only [Placed.isEntered_eq]
  refine filterMap_trace_of_reports (·.node.isWalked skips) (fun _ => rfl) ?_ node
  intro place
  rcases opening_cases skips place.node with
    ⟨walked, -, -, event⟩ | ⟨walked, -, -, event⟩ | ⟨walked, -, -, event⟩ <;>
    simp [event, walked, Event.entered?]

theorem skipped_trace (skips : String → Bool) (node : Node) :
    (node.trace skips).filterMap Event.skipped? = ((node.places []).filter fun place =>
      place.isReached skips && place.node.isNamed skips).map (·.node) := by
  refine filterMap_trace_of_reports (·.node.isNamed skips) (fun _ => rfl) ?_ node
  intro place
  rcases opening_cases skips place.node with
    ⟨-, -, named, event⟩ | ⟨-, -, named, event⟩ | ⟨-, -, named, event⟩ <;>
    simp [event, named, Event.skipped?]

theorem leaves_trace (skips : String → Bool) (node : Node) :
    (node.trace skips).filterMap Event.leaf? = ((node.places []).filter fun place =>
      place.isReached skips && place.node.isLeaf).map (·.node) := by
  refine filterMap_trace_of_reports (·.node.isLeaf) (fun _ => rfl) ?_ node
  intro place
  rcases opening_cases skips place.node with
    ⟨-, leaf, -, event⟩ | ⟨-, leaf, -, event⟩ | ⟨-, leaf, -, event⟩ <;>
    simp [event, leaf, Event.leaf?]

theorem arguments_trace (skips : String → Bool) (node : Node) :
    (node.trace skips).filterMap Event.argument? = ((node.places []).filter fun place =>
      place.isReached skips && place.isArgument).map (·.node) := by
  refine filterMap_trace_of_reports Placed.isArgument (fun _ => rfl) ?_ node
  intro place
  rcases opening_cases skips place.node with
    ⟨-, -, -, event⟩ | ⟨-, -, -, event⟩ | ⟨-, -, -, event⟩ <;>
    simp [event, Event.argument?]

theorem nested?_whole_trace (skips : String → Bool) (node : Node) :
    Event.nested? (node.trace skips) [] = some ((node.places []).filter (·.isEntered skips)) := by
  have whole := @nested?_trace skips [] node [] rfl
  simpa [Event.nested?, reached, List.filter_filter, Placed.isEntered_eq, Bool.and_comm] using whole

end Node

end ConfigExpr
