import ConfigExpr.Text.Character

/-! The syntax tree of an expression, and the checks that hand-built nodes pass. A node is plain
data; `isValid` says that every text in a tree has the spelling of its kind, and
`firstInvalid?_eq_none_iff` that it is valid if no node is refused. -/
namespace ConfigExpr

inductive Argument where
  | call (name : String) (arguments : List Argument)
  /-- The text between the quotes, blanks included. -/
  | string (text : String)
  /-- A digit run, leading zeros kept. No arithmetic is done on it. -/
  | number (digits : String)
  | boolean (value : Bool)
  deriving Repr

structure Call where
  name : String
  arguments : List Argument
  deriving Repr

def Call.toArgument (call : Call) : Argument := .call call.name call.arguments

/-- A call in brackets, followed by the names of the members taken from its result. -/
structure Expression where
  function : Call
  members : List String
  deriving Repr

namespace Argument

mutual

def same : Argument → Argument → Bool
  | .call n xs, .call m ys => n == m && sameList xs ys
  | .string s, .string t => s == t
  | .number s, .number t => s == t
  | .boolean a, .boolean b => a == b
  | _, _ => false

def sameList : List Argument → List Argument → Bool
  | [], [] => true
  | x :: xs, y :: ys => same x y && sameList xs ys
  | _, _ => false

end

mutual

theorem same_iff : ∀ a b : Argument, same a b = true ↔ a = b
  | .call n xs, b => by cases b <;> simp [same, sameList_iff xs]
  | .string s, b => by cases b <;> simp [same]
  | .number s, b => by cases b <;> simp [same]
  | .boolean v, b => by cases b <;> simp [same]

theorem sameList_iff : ∀ xs ys : List Argument, sameList xs ys = true ↔ xs = ys
  | [], ys => by cases ys <;> simp [sameList]
  | x :: xs, ys => by cases ys <;> simp [sameList, same_iff x, sameList_iff xs]

end

instance : DecidableEq Argument := fun a b => decidable_of_iff _ (same_iff a b)

mutual

def isValid : Argument → Bool
  | .call name arguments => isFunctionName name.toList && areValid arguments
  | .string text => isStringText text.toList
  | .number digits => isNumber digits.toList
  | .boolean _ => true

def areValid : List Argument → Bool
  | [] => true
  | x :: xs => isValid x && areValid xs

end

end Argument

deriving instance DecidableEq for Call
deriving instance DecidableEq for Expression

def Call.isValid (call : Call) : Bool := call.toArgument.isValid

def Expression.isValid (expression : Expression) : Bool :=
  expression.function.isValid && expression.members.all fun name => isMemberName name.toList

inductive InvalidNode where
  | functionName (name : String)
  | stringText (text : String)
  | number (text : String)
  | memberName (name : String)
  deriving DecidableEq, Repr

def InvalidNode.message : InvalidNode → String
  | .functionName name => "invalid function name " ++ displayText name
  | .stringText text => "string literal text " ++ displayText text ++ " contains a quote"
  | .number text => "invalid number literal " ++ displayText text
  | .memberName name => "invalid member name " ++ displayText name

def checkStringText (text : String) : Except InvalidNode String :=
  if isStringText text.toList then .ok text else .error (.stringText text)

def checkNumber (text : String) : Except InvalidNode String :=
  if isNumber text.toList then .ok text else .error (.number text)

def checkMemberName (name : String) : Except InvalidNode String :=
  if isMemberName name.toList then .ok name else .error (.memberName name)

/-- The arguments are taken as they are. -/
def Call.check (name : String) (arguments : List Argument) : Except InvalidNode Call :=
  if isFunctionName name.toList then .ok ⟨name, arguments⟩ else .error (.functionName name)

/-! The first node of a tree with a text that it may not have. The arguments of a call come before
its name, and the call of an expression before the members. -/

namespace Argument

mutual

def firstInvalid? : Argument → Option InvalidNode
  | .call name arguments =>
    (firstInvalidOfList? arguments).or
      (if isFunctionName name.toList then none else some (.functionName name))
  | .string text => if isStringText text.toList then none else some (.stringText text)
  | .number digits => if isNumber digits.toList then none else some (.number digits)
  | .boolean _ => none

def firstInvalidOfList? : List Argument → Option InvalidNode
  | [] => none
  | x :: r => (firstInvalid? x).or (firstInvalidOfList? r)

end

mutual

theorem firstInvalid?_eq_none_iff : ∀ x : Argument, x.firstInvalid? = none ↔ x.isValid = true
  | .call name arguments => by
    simp [firstInvalid?, isValid, firstInvalidOfList?_eq_none_iff arguments, and_comm]
  | .string text => by simp [firstInvalid?, isValid]
  | .number digits => by simp [firstInvalid?, isValid]
  | .boolean value => by simp [firstInvalid?, isValid]

theorem firstInvalidOfList?_eq_none_iff :
    ∀ xs : List Argument, firstInvalidOfList? xs = none ↔ areValid xs = true
  | [] => by simp [firstInvalidOfList?, areValid]
  | x :: r => by
    simp [firstInvalidOfList?, areValid, firstInvalid?_eq_none_iff x,
      firstInvalidOfList?_eq_none_iff r]

end

end Argument

def firstInvalidMember? : List String → Option InvalidNode
  | [] => none
  | name :: r => if isMemberName name.toList then firstInvalidMember? r else some (.memberName name)

def Expression.firstInvalid? (expression : Expression) : Option InvalidNode :=
  expression.function.toArgument.firstInvalid?.or (firstInvalidMember? expression.members)

theorem firstInvalidMember?_eq_none_iff (names : List String) :
    firstInvalidMember? names = none ↔ names.all (fun name => isMemberName name.toList) := by
  induction names with
  | nil => simp [firstInvalidMember?]
  | cons name r ih =>
    simp only [firstInvalidMember?, List.all_cons, Bool.and_eq_true]
    split <;> simp_all

theorem Expression.firstInvalid?_eq_none_iff (expression : Expression) :
    expression.firstInvalid? = none ↔ expression.isValid = true := by
  simp only [firstInvalid?, isValid, Call.isValid, Option.or_eq_none_iff, Bool.and_eq_true,
    Argument.firstInvalid?_eq_none_iff, firstInvalidMember?_eq_none_iff]

end ConfigExpr
