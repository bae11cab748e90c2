import ConfigExpr.Proofs.Loading
import ConfigExpr.Tree.Node

/-! The order in which the nodes of a tree are checked while it is read: the arguments of a call
from left to right, then the call, and behind the outer call the members. -/
namespace ConfigExpr

def refusalOf {α : Type} : Except InvalidNode α → Option InvalidNode
  | .ok _ => none
  | .error node => some node

theorem refusalOf_ite {α : Type} {p : Prop} [Decidable p] {a : α} {node : InvalidNode} :
    refusalOf (if p then .ok a else .error node) = if p then none else some node := by
  split <;> rfl

def Node.refusal? : Node → Option InvalidNode
  | expression _ | boolean _ => none
  | call tree => refusalOf (Call.check tree.name tree.arguments)
  | string text => refusalOf (checkStringText text)
  | number digits => refusalOf (checkNumber digits)
  | memberName name => refusalOf (checkMemberName name)

namespace Argument

mutual

/-- The nodes of an argument, each call behind its own arguments. -/
def innerFirst : Argument → List Node
  | .call name arguments => innerFirstOfList arguments ++ [.call ⟨name, arguments⟩]
  | .string text => [.string text]
  | .number digits => [.number digits]
  | .boolean value => [.boolean value]

def innerFirstOfList : List Argument → List Node
  | [] => []
  | x :: r => innerFirst x ++ innerFirstOfList r

end

end Argument

def Expression.innerFirst (expression : Expression) : List Node :=
  expression.function.toArgument.innerFirst ++ expression.members.map .memberName

mutual

theorem Argument.firstInvalid?_eq : ∀ x : Argument,
    x.firstInvalid? = x.innerFirst.findSome? Node.refusal?
  | .call name arguments => by
    have own : Node.refusal? (.call ⟨name, arguments⟩) = _ := refusalOf_ite
    simp only [firstInvalid?, innerFirst, List.findSome?_append, firstInvalidOfList?_eq arguments,
      List.findSome?_singleton, own]
  | .string _ | .number _ => by
    rw [innerFirst, List.findSome?_singleton]
    exact refusalOf_ite.symm
  | .boolean _ => rfl

theorem Argument.firstInvalidOfList?_eq : ∀ xs : List Argument,
    firstInvalidOfList? xs = (innerFirstOfList xs).findSome? Node.refusal?
  | [] => rfl
  | x :: r => by
    rw [firstInvalidOfList?, innerFirstOfList, List.findSome?_append, x.firstInvalid?_eq,
      Argument.firstInvalidOfList?_eq r]

end

theorem firstInvalidMember?_eq (names : List String) :
    firstInvalidMember? names = (names.map Node.memberName).findSome? Node.refusal? := by
  induction names with
  | nil => rfl
  | cons name r ih =>
    have own : Node.refusal? (.memberName name) = _ := refusalOf_ite
    rw [firstInvalidMember?, List.map_cons, List.findSome?_cons, own, ih]
    split <;> rfl

theorem Expression.firstInvalid?_eq (expression : Expression) :
    expression.firstInvalid? = expression.innerFirst.findSome? Node.refusal? := by
  rw [firstInvalid?, innerFirst, List.findSome?_append, Argument.firstInvalid?_eq,
    firstInvalidMember?_eq]

/-- A value of the shape of an expression reads as that expression if every node passes its check.
Otherwise the first node that does not is reported, in the order in which they are checked. -/
theorem Expression.ofJson_of_shape {tree : Expression} {json : Json} (shape : tree.Shape json) :
    (Expression.ofJson json = .ok tree ↔ ∀ node ∈ tree.innerFirst, node.refusal? = none) ∧
    ∀ bad, Expression.ofJson json = .error (.invalidNode bad) ↔
      ∃ before node after, tree.innerFirst = before ++ node :: after ∧
        (∀ other ∈ before, other.refusal? = none) ∧ node.refusal? = some bad := by
  rw [shape.ofJson_eq, firstInvalid?_eq]
  constructor
  · rw [Loaded.barring_eq_ok_iff, List.findSome?_eq_none_iff]
    simp
  · intro bad
    rw [Loaded.barring_eq_invalidNode_iff, List.findSome?_eq_some_iff]
    constructor
    · rintro ⟨before, node, after, split, refused, passed⟩
      exact ⟨before, node, after, split, passed, refused⟩
    · rintro ⟨before, node, after, split, passed, refused⟩
      exact ⟨before, node, after, split, refused, passed⟩

def brokenTree : Expression :=
  ⟨⟨"true", [.boolean true, .call "1st" [.string "'", .number ""]]⟩, ["a.b"]⟩

/-- Arrays and objects, tags by name and by number, fields out of order and one that nothing
reads. -/
def brokenJson : Json :=
  .object
    [("members", .array [.array [.string "a.b"]]), ("note", .null),
      ("function", .array [.string "true", .array
        [.object [("value", .bool true), ("type", .string "boolean")],
          .array [.string "function", .string "1st", .array
            [.array [.natural 1, .string "'"],
              .object [("raw_text", .string ""), ("type", .natural 2)]]]]])]

theorem brokenTree_shape : brokenTree.Shape brokenJson := by
  have quoted : Argument.Shape .lenient (.string "'") (.array [.natural 1, .string "'"]) :=
    .string ⟨_, .number rfl, .array⟩ .array
  have empty : Argument.Shape .lenient (.number "")
      (.object [("raw_text", .string ""), ("type", .natural 2)]) :=
    .number ⟨_, .number rfl, .object rfl⟩ (.object (by simp))
  have first : Argument.Shape .strict (.boolean true)
      (.object [("value", .bool true), ("type", .string "boolean")]) :=
    .boolean ⟨_, .text, .object rfl⟩ (.object (by simp))
  have inner := Argument.ListShape.cons quoted (.cons empty .nil)
  have call : Call.Shape brokenTree.function _ :=
    ⟨_, .array, .cons first (.cons (.call ⟨_, .text, .array⟩ .array inner) .nil)⟩
  exact ⟨_, _, .object (by simp [List.lookup_cons, brokenTree, ArgumentTag.name]), call,
    .cons .array .nil⟩

theorem ofJson_brokenJson : brokenTree.Shape brokenJson ∧
    Expression.ofJson brokenJson = .error (.invalidNode (.stringText "'")) := by
  refine ⟨brokenTree_shape, ((Expression.ofJson_of_shape brokenTree_shape).2 _).mpr ?_⟩
  exact ⟨[.boolean true], .string "'", _, rfl, by decide, by decide⟩

end ConfigExpr
