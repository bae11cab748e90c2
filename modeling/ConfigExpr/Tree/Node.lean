import ConfigExpr.Tree.Basic

/-! One type for every node of a tree, and the nodes below a node in the order of the source.
`Node.inductionOnChildren` is the induction that goes through the children alone, whatever the kind
of the node. -/
namespace ConfigExpr

inductive Node where
  | expression (tree : Expression)
  | call (tree : Call)
  | string (text : String)
  | number (digits : String)
  | boolean (value : Bool)
  | memberName (name : String)
  deriving DecidableEq, Repr

namespace Argument

mutual

def size : Argument → Nat
  | .call _ arguments => 1 + sizeOfList arguments
  | _ => 1

def sizeOfList : List Argument → Nat
  | [] => 0
  | x :: r => size x + sizeOfList r

end

def toNode : Argument → Node
  | .call name arguments => .call ⟨name, arguments⟩
  | .string text => .string text
  | .number digits => .number digits
  | .boolean value => .boolean value

theorem size_le_sizeOfList {x : Argument} {xs : List Argument} (h : x ∈ xs) :
    x.size ≤ sizeOfList xs := by
  induction xs with
  | nil => simp at h
  | cons y r ih =>
    simp only [sizeOfList]
    rcases List.mem_cons.mp h with rfl | h
    · omega
    · have := ih h
      omega

end Argument

namespace Node

def kindName : Node → String
  | expression _ => "expression"
  | call _ => "function"
  | string _ => "string"
  | number _ => "number"
  | boolean _ => "boolean"
  | memberName _ => "memberName"

def children : Node → List Node
  | expression tree => .call tree.function :: tree.members.map memberName
  | call tree => tree.arguments.map Argument.toNode
  | _ => []

def size : Node → Nat
  | expression tree => 1 + tree.function.toArgument.size + tree.members.length
  | call tree => tree.toArgument.size
  | _ => 1

theorem size_toNode (argument : Argument) : argument.toNode.size = argument.size := by
  cases argument <;> simp [Argument.toNode, size, Call.toArgument, Argument.size]

theorem size_child {node child : Node} (h : child ∈ node.children) : child.size < node.size := by
  cases node with
  | expression tree =>
    simp only [children, List.mem_cons, List.mem_map] at h
    rcases h with rfl | ⟨name, hm, rfl⟩
    · simp only [size]
      omega
    · have := List.length_pos_of_mem hm
      simp only [size]
      omega
  | call tree =>
    simp only [children, List.mem_map] at h
    obtain ⟨argument, hm, rfl⟩ := h
    have := Argument.size_le_sizeOfList hm
    rw [size_toNode]
    simp only [size, Call.toArgument, Argument.size]
    omega
  | _ => simp [children] at h

/-- What passes from the children of a node to the node holds of every node. -/
@[elab_as_elim]
theorem inductionOnChildren {P : Node → Prop}
    (step : ∀ node, (∀ child ∈ node.children, P child) → P node) (node : Node) : P node :=
  step node fun child _ => inductionOnChildren step child
termination_by node.size
decreasing_by exact size_child (by assumption)

/-- A node and all nodes below it, parents first, each with its depth. -/
def listing (depth : Nat) (node : Node) : List (Nat × Node) :=
  (depth, node) :: node.children.attach.flatMap fun ⟨child, _⟩ => child.listing (depth + 1)
termination_by node.size
decreasing_by exact size_child (by assumption)

theorem listing_eq (depth : Nat) (node : Node) :
    node.listing depth = (depth, node) :: node.children.flatMap (listing (depth + 1)) := by
  rw [listing]
  simp

end Node

end ConfigExpr
