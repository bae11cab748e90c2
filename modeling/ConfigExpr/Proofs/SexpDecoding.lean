import ConfigExpr.Proofs.LexemeExtent
import ConfigExpr.Proofs.PrefixCode
import ConfigExpr.Tree.Node
import ConfigExpr.Tree.Traversal

/-! An s-expression is that of one tree only. `Expression.sexp_eq_rendering` says that it is
written node by node, whatever the kinds of the nodes. Read from the front, a node shows its kind,
its label and its children, and the text of each of them ends where it has to. Numbers are written
bare, so this needs the texts in the tree to be those that nodes may hold. -/
namespace ConfigExpr

namespace Node

def label : Node → String
  | expression _ => ""
  | call tree => " (functionName " ++ displayText tree.name ++ ")"
  | string text => " " ++ displayText text
  | number digits => " " ++ digits
  | boolean value => " " ++ if value then "true" else "false"
  | memberName name => " " ++ displayText name

/-- A node in parentheses. Its children stand in order behind its kind and its label. -/
def rendering (node : Node) : String :=
  "(" ++ node.kindName ++ node.label ++
    String.join (node.children.attach.map fun ⟨child, _⟩ => " " ++ child.rendering) ++ ")"
termination_by node.size
decreasing_by exact size_child (by assumption)

theorem rendering_eq (node : Node) : node.rendering = "(" ++ node.kindName ++ node.label ++
    String.join (node.children.map fun child => " " ++ child.rendering) ++ ")" := by
  rw [rendering]
  simp

theorem rendering_of_leaf (node : Node) {text : String} (leaf : node.children = [])
    (shown : node.label = " " ++ text) :
    " (" ++ node.kindName ++ " " ++ text ++ ")" = " " ++ node.rendering := by
  have head : " (" = " " ++ "(" := rfl
  rw [rendering_eq, leaf, shown, head]
  simp only [List.map_nil, String.join_nil, String.append_empty, String.append_assoc]

end Node

mutual

theorem Argument.sexp_eq_rendering : ∀ x : Argument, x.sexp = " " ++ x.toNode.rendering
  | .call name arguments => by
    have inner := Argument.sexpList_eq_rendering arguments
    have head : " (function" = " " ++ "(" ++ "function" := rfl
    have shown : (Node.call ⟨name, arguments⟩).label = leafSexp "functionName" name := rfl
    rw [Argument.sexp_call, Argument.toNode, Node.rendering_eq, shown, head, inner]
    simp only [Node.kindName, Node.children, List.map_map, Function.comp_def, String.append_assoc]
  | .string text => by
    rw [Argument.sexp_string]
    exact Node.rendering_of_leaf (.string text) rfl rfl
  | .number digits => by
    rw [Argument.sexp_number]
    exact Node.rendering_of_leaf (.number digits) rfl rfl
  | .boolean value => by
    rw [Argument.sexp_boolean]
    exact Node.rendering_of_leaf (.boolean value) rfl rfl

theorem Argument.sexpList_eq_rendering : ∀ xs : List Argument,
    sexpList xs = String.join (xs.map fun x => " " ++ x.toNode.rendering)
  | [] => rfl
  | x :: r => by
    rw [Argument.sexpList_cons, Argument.sexp_eq_rendering x, Argument.sexpList_eq_rendering r,
      List.map_cons, String.join_cons]

end

theorem leafSexp_memberName (name : String) :
    leafSexp "memberName" name = " " ++ (Node.memberName name).rendering :=
  Node.rendering_of_leaf (.memberName name) rfl rfl

theorem Expression.sexp_eq_rendering (expression : Expression) :
    expression.sexp = (Node.expression expression).rendering := by
  have call := Argument.sexp_eq_rendering expression.function.toArgument
  have members := List.map_congr_left (l := expression.members) fun name _ =>
    leafSexp_memberName name
  have head : "(expression" = "(" ++ "expression" := rfl
  have shown : (Node.expression expression).label = "" := rfl
  rw [Expression.sexp_eq, call, members, head, Node.rendering_eq (.expression expression), shown]
  simp only [Node.kindName, Node.children, Call.toArgument, Argument.toNode,
    List.map_cons, List.map_map, Function.comp_def, String.join_cons, String.append_empty,
    String.append_assoc]

theorem Argument.toNode_inj {x y : Argument} (same : x.toNode = y.toNode) : x = y := by
  cases x <;> cases y <;> simp_all [toNode]

namespace Node

def isValid : Node → Bool
  | expression tree => tree.isValid
  | call tree => tree.isValid
  | string text => isStringText text.toList
  | number digits => isNumber digits.toList
  | boolean _ => true
  | memberName name => isMemberName name.toList

theorem isValid_toNode (x : Argument) : x.toNode.isValid = x.isValid := by
  cases x <;> rfl

theorem isValid_arguments {xs : List Argument} (h : Argument.areValid xs) :
    ∀ node ∈ xs.map Argument.toNode, node.isValid := by
  induction xs with
  | nil => simp
  | cons x r ih =>
    simp only [Argument.areValid, Bool.and_eq_true] at h
    simp only [List.map_cons, List.mem_cons, forall_eq_or_imp, isValid_toNode]
    exact ⟨h.1, ih h.2⟩

theorem isValid_children {node : Node} (h : node.isValid) :
    ∀ child ∈ node.children, child.isValid := by
  cases node with
  | expression tree =>
    simp only [isValid, Expression.isValid, Bool.and_eq_true, List.all_eq_true] at h
    simp only [children, List.mem_cons, List.mem_map]
    rintro child (rfl | ⟨name, mem, rfl⟩)
    · exact h.1
    · exact h.2 name mem
  | call tree =>
    simp only [isValid, Call.isValid, Call.toArgument, Argument.isValid, Bool.and_eq_true] at h
    exact isValid_arguments h.2
  | _ => simp [children]

def childText (node : Node) : List Char := ' ' :: node.rendering.toList

def body (node : Node) : List Char := node.label.toList ++ node.children.flatMap childText

theorem rendering_toList (node : Node) :
    node.rendering.toList = '(' :: node.kindName.toList ++ node.body ++ [')'] := by
  rw [rendering_eq]
  simp only [String.toList_append, String.toList_join, List.flatMap_map, body, List.append_assoc]
  rfl

theorem body_expression (tree : Expression) :
    (expression tree).body = (expression tree).children.flatMap childText :=
  rfl

theorem body_call (tree : Call) : (call tree).body =
    ' ' :: "(functionName ".toList ++ (displayText tree.name).toList ++
      ')' :: (call tree).children.flatMap childText := by
  have shown : (call tree).label = " (functionName " ++ displayText tree.name ++ ")" := rfl
  have head : " (functionName ".toList = ' ' :: "(functionName ".toList := rfl
  rw [body, shown, String.toList_append, String.toList_append, head, List.append_assoc]
  rfl

theorem body_of_leaf (node : Node) {text : String} (leaf : node.children = [])
    (shown : node.label = " " ++ text) : node.body = ' ' :: text.toList := by
  rw [body, leaf, shown, String.toList_append, List.flatMap_nil, List.append_nil]
  rfl

theorem exists_body_eq (node : Node) : ∃ tail, node.body = ' ' :: tail := by
  cases node with
  | expression tree => exact ⟨_, body_expression tree⟩
  | call tree => exact ⟨_, body_call tree⟩
  | string text => exact ⟨_, body_of_leaf (.string text) rfl rfl⟩
  | number digits => exact ⟨_, body_of_leaf (.number digits) rfl rfl⟩
  | boolean value => exact ⟨_, body_of_leaf (.boolean value) rfl rfl⟩
  | memberName name => exact ⟨_, body_of_leaf (.memberName name) rfl rfl⟩

theorem space_not_mem_kindName (node : Node) : ' ' ∉ node.kindName.toList := by
  have kinds : ∀ kind ∈ ["expression", "function", "string", "number", "boolean", "memberName"],
      ' ' ∉ kind.toList := by decide
  cases node <;> exact kinds _ (by simp [kindName])

theorem quoted_leaf_cancels {a b : Node} {text other : String} {r r' : List Char}
    (ha : a.body = ' ' :: (displayText text).toList)
    (hb : b.body = ' ' :: (displayText other).toList)
    (same : a.body ++ ')' :: r = b.body ++ ')' :: r') : text = other ∧ r = r' := by
  rw [ha, hb] at same
  obtain ⟨texts, rest⟩ := displayText_cancels text other trivial _ _ (List.cons.inj same).2
  exact ⟨texts, (List.cons.inj rest).2⟩

theorem bare_leaf_cancels {a b : Node} {text other : String} {r r' : List Char}
    (ha : a.body = ' ' :: text.toList) (hb : b.body = ' ' :: other.toList)
    (bare : ')' ∉ text.toList) (bare' : ')' ∉ other.toList)
    (same : a.body ++ ')' :: r = b.body ++ ')' :: r') : text = other ∧ r = r' := by
  rw [ha, hb] at same
  obtain ⟨texts, rest⟩ := append_stop_inj bare bare' (List.cons.inj same).2
  exact ⟨String.toList_inj.mp texts, rest⟩

theorem parenthesis_not_mem_digits {digits : String} (h : isNumber digits.toList) :
    ')' ∉ digits.toList := fun mem =>
  absurd ((isNumber_iff.mp h).2 ')' mem) (by decide)

theorem children_cancel {a b : Node} {r r' : List Char} (ha : a.isValid) (hb : b.isValid)
    (inner : ∀ child ∈ a.children, Cancels (fun node => node.isValid) childText child)
    (same : a.children.flatMap childText ++ ')' :: r = b.children.flatMap childText ++ ')' :: r') :
    a.children = b.children ∧ r = r' := by
  refine Cancels.list (fun node _ => ⟨' ', node.rendering.toList, rfl, by decide⟩) ?_
    (isValid_children hb) same
  intro child mem
  exact ⟨isValid_children ha child mem, inner child mem⟩

theorem body_cancels {a b : Node} {r r' : List Char} (kinds : a.kindName = b.kindName)
    (ha : a.isValid) (hb : b.isValid)
    (inner : ∀ child ∈ a.children, Cancels (fun node => node.isValid) childText child)
    (same : a.body ++ ')' :: r = b.body ++ ')' :: r') : a = b ∧ r = r' := by
  cases a with
  | expression tree =>
    cases b with
    | expression other =>
      obtain ⟨nodes, rest⟩ := children_cancel ha hb inner same
      obtain ⟨function, members⟩ := tree
      obtain ⟨function', members'⟩ := other
      obtain ⟨calls, names⟩ := List.cons.inj nodes
      obtain rfl : function = function' := Node.call.inj calls
      obtain rfl : members = members' :=
        (List.map_inj_right fun _ _ h => Node.memberName.inj h).mp names
      exact ⟨rfl, rest⟩
    | _ => simp [kindName] at kinds
  | call tree =>
    cases b with
    | call other =>
      rw [body_call, body_call] at same
      simp only [List.append_assoc, List.cons_append, List.cons.injEq, true_and,
        List.append_cancel_left_eq] at same
      obtain ⟨names, behind⟩ := displayText_cancels tree.name other.name trivial _ _ same
      obtain ⟨nodes, rest⟩ := children_cancel ha hb inner (List.cons.inj behind).2
      obtain ⟨name, arguments⟩ := tree
      obtain ⟨name', arguments'⟩ := other
      obtain rfl : name = name' := names
      obtain rfl : arguments = arguments' :=
        (List.map_inj_right fun _ _ => Argument.toNode_inj).mp nodes
      exact ⟨rfl, rest⟩
    | _ => simp [kindName] at kinds
  | string text =>
    cases b with
    | string other =>
      obtain ⟨rfl, rest⟩ := quoted_leaf_cancels (body_of_leaf (.string text) rfl rfl)
        (body_of_leaf (.string other) rfl rfl) same
      exact ⟨rfl, rest⟩
    | _ => simp [kindName] at kinds
  | number digits =>
    cases b with
    | number other =>
      obtain ⟨rfl, rest⟩ := bare_leaf_cancels (body_of_leaf (.number digits) rfl rfl)
        (body_of_leaf (.number other) rfl rfl) (parenthesis_not_mem_digits ha)
        (parenthesis_not_mem_digits hb) same
      exact ⟨rfl, rest⟩
    | _ => simp [kindName] at kinds
  | boolean value =>
    cases b with
    | boolean other =>
      have bare : ∀ v : Bool, ')' ∉ (if v then "true" else "false").toList := by decide
      have apart : ∀ v w : Bool, (if v then "true" else "false") = (if w then "true" else "false") →
          v = w := by decide
      obtain ⟨words, rest⟩ := bare_leaf_cancels (body_of_leaf (.boolean value) rfl rfl)
        (body_of_leaf (.boolean other) rfl rfl) (bare value) (bare other) same
      exact ⟨congrArg Node.boolean (apart value other words), rest⟩
    | _ => simp [kindName] at kinds
  | memberName name =>
    cases b with
    | memberName other =>
      obtain ⟨rfl, rest⟩ := quoted_leaf_cancels (body_of_leaf (.memberName name) rfl rfl)
        (body_of_leaf (.memberName other) rfl rfl) same
      exact ⟨rfl, rest⟩
    | _ => simp [kindName] at kinds

/-- Behind a space a node is read in one way only, by induction on its children. -/
theorem childText_cancels (a : Node) (ha : a.isValid) :
    Cancels (fun node => node.isValid) childText a := by
  induction a using inductionOnChildren with
  | step a ih =>
    intro b hb r r' same
    simp only [childText, rendering_toList, List.cons_append, List.append_assoc, List.cons.injEq,
      true_and, List.nil_append] at same
    -- The space that every body starts with ends the name of the kind.
    obtain ⟨tail, body⟩ := a.exists_body_eq
    obtain ⟨tail', body'⟩ := b.exists_body_eq
    have bodies := same
    rw [body, body', List.cons_append, List.cons_append] at same
    obtain ⟨kinds, -⟩ := append_stop_inj a.space_not_mem_kindName b.space_not_mem_kindName same
    rw [kinds] at bodies
    exact body_cancels (String.toList_inj.mp kinds) ha hb
      (fun child mem => ih child mem (isValid_children ha child mem))
      (List.append_cancel_left bodies)

end Node

/-- Two trees whose texts are those that nodes may hold have two s-expressions. -/
theorem eq_of_sexp_eq (a b : Expression) (ha : a.isValid) (hb : b.isValid)
    (same : a.sexp = b.sexp) : a = b := by
  rw [Expression.sexp_eq_rendering, Expression.sexp_eq_rendering] at same
  have texts : (Node.expression a).childText ++ [] = (Node.expression b).childText ++ [] := by
    rw [Node.childText, Node.childText, same]
  obtain ⟨nodes, -⟩ := Node.childText_cancels (.expression a) ha (.expression b) hb [] [] texts
  exact Node.expression.inj nodes

/-- A tree with a text that looks like the end of a node and the start of another. -/
def markedTree (text : String) : Expression :=
  ⟨⟨"f", [.string text, .call "g" [.number "1", .boolean true]]⟩, ["true"]⟩

theorem eq_of_sexp_eq_markedTree :
    (markedTree "\") (\\").sexp = (markedTree "\x22\x29 \x28\x5c").sexp ∧
      markedTree "\") (\\" = markedTree "\x22\x29 \x28\x5c" :=
  ⟨rfl, eq_of_sexp_eq _ _ (by decide) (by decide) rfl⟩

example : (markedTree "\") (\\").sexp =
    "(expression (function (functionName \"f\") (string \"\\\") (\\\\\") " ++
      "(function (functionName \"g\") (number 1) (boolean true))) (memberName \"true\"))" := by
  decide +kernel

end ConfigExpr
