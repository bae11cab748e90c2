import ConfigExpr.Tree.Basic

/-! The sources of a tree: the canonical one, with one space after each comma and no other blank,
and all the texts that the grammar allows for it. -/
namespace ConfigExpr

namespace Argument

mutual

def source : Argument → String
  | .call name arguments => name ++ "(" ++ sourceList arguments ++ ")"
  | .string text => "'" ++ text ++ "'"
  | .number digits => digits
  | .boolean value => if value then "true" else "false"

def sourceList : List Argument → String
  | [] => ""
  | [x] => source x
  | x :: y :: r => source x ++ ", " ++ sourceList (y :: r)

end

end Argument

def Call.source (call : Call) : String := call.toArgument.source

def Expression.source (expression : Expression) : String :=
  "[" ++ expression.function.source ++ String.join (expression.members.map ("." ++ ·)) ++ "]"

/-! How deep the calls of a tree nest, and where each of them stands in the canonical source.
The outermost call has depth 1. -/

namespace Argument

mutual

def depth : Argument → Nat
  | .call _ arguments => 1 + depthOfList arguments
  | _ => 0

def depthOfList : List Argument → Nat
  | [] => 0
  | x :: r => max (depth x) (depthOfList r)

end

mutual

/-- Every call of an argument with its depth and the position of its name, in the order of the
source. The argument starts at a position below a number of calls. -/
def calls (above position : Nat) : Argument → List (Nat × Nat)
  | .call name arguments =>
    (above + 1, position) :: callsOfList (above + 1) (position + name.length + 1) arguments
  | _ => []

def callsOfList (above position : Nat) : List Argument → List (Nat × Nat)
  | [] => []
  | x :: r => calls above position x ++ callsOfList above (position + x.source.length + 2) r

end

end Argument

def Call.depth (call : Call) : Nat := call.toArgument.depth

def Expression.depth (expression : Expression) : Nat := expression.function.depth

def Expression.calls (expression : Expression) : List (Nat × Nat) :=
  expression.function.toArgument.calls 0 1

def Expression.firstCallAt? (expression : Expression) (depth : Nat) : Option Nat :=
  (expression.calls.find? (·.1 == depth)).map (·.2)

/-! The texts that stand for a tree, character by character. Blanks may stand around every token
and nowhere inside one. -/

namespace Grammar

def Blanks (text : List Char) : Prop := ∀ c ∈ text, isBlank c

mutual

inductive CallText : List Char → String → List Argument → Prop where
  | bare {name u v} : isFunctionName name.toList → Blanks u → Blanks v →
      CallText (name.toList ++ u ++ '(' :: v ++ [')']) name []
  | applied {name u v w text arguments} : isFunctionName name.toList →
      Blanks u → Blanks v → Blanks w → ArgumentsText text arguments →
      CallText (name.toList ++ u ++ '(' :: v ++ text ++ w ++ [')']) name arguments

inductive ArgumentText : List Char → Argument → Prop where
  | call {text name arguments} : CallText text name arguments →
      ArgumentText text (.call name arguments)
  | string {content : String} : isStringText content.toList →
      ArgumentText (quoteMark :: content.toList ++ [quoteMark]) (.string content)
  | number {digits : String} : isNumber digits.toList →
      ArgumentText digits.toList (.number digits)
  | trueWord : ArgumentText trueSpelling (.boolean true)
  | falseWord : ArgumentText falseSpelling (.boolean false)

inductive ArgumentsText : List Char → List Argument → Prop where
  | last {text argument} : ArgumentText text argument → ArgumentsText text [argument]
  | more {text u v rest argument arguments} : ArgumentText text argument →
      Blanks u → Blanks v → ArgumentsText rest arguments →
      ArgumentsText (text ++ u ++ ',' :: v ++ rest) (argument :: arguments)

end

inductive MembersText : List Char → List String → Prop where
  | none : MembersText [] []
  | more {u v rest names} {name : String} : Blanks u → Blanks v → isMemberName name.toList →
      MembersText rest names → MembersText (u ++ '.' :: v ++ name.toList ++ rest) (name :: names)

inductive ExpressionText : List Char → Expression → Prop where
  | brackets {u v w x function members name arguments names} : Blanks u → Blanks v →
      CallText function name arguments → MembersText members names → Blanks w → Blanks x →
      ExpressionText (u ++ '[' :: v ++ function ++ members ++ w ++ ']' :: x)
        ⟨⟨name, arguments⟩, names⟩

end Grammar

end ConfigExpr
