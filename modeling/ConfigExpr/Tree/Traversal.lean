import ConfigExpr.Tree.Basic

/-! Walks over a tree in the order of the source. A visitor says what is done at each kind of node;
at an inner node it is given the walk below that node, to run, to leave out or to put between
actions of its own. The s-expression of a tree is written by one of them, and `Expression.sexp_eq`
says what comes out of it. -/
namespace ConfigExpr

/-- Without handlers of its own, a visitor walks the whole tree and does nothing at the leaves. -/
structure Visitor (m : Type → Type) [Monad m] where
  expression : Expression → m Unit → m Unit := fun _ walk => walk
  call : Call → m Unit → m Unit := fun _ walk => walk
  /-- Comes before the handler of the call or leaf that the argument is. -/
  argument : Argument → m Unit → m Unit := fun _ walk => walk
  string : String → m Unit := fun _ => pure ()
  number : String → m Unit := fun _ => pure ()
  boolean : Bool → m Unit := fun _ => pure ()
  memberName : String → m Unit := fun _ => pure ()

namespace Argument

variable {m : Type → Type} [Monad m]

mutual

def visit (visitor : Visitor m) : Argument → m Unit
  | .call name arguments =>
    visitor.argument (.call name arguments)
      (visitor.call ⟨name, arguments⟩ (visitList visitor arguments))
  | .string text => visitor.argument (.string text) (visitor.string text)
  | .number digits => visitor.argument (.number digits) (visitor.number digits)
  | .boolean value => visitor.argument (.boolean value) (visitor.boolean value)

def visitList (visitor : Visitor m) : List Argument → m Unit
  | [] => pure ()
  | x :: r => do
    visit visitor x
    visitList visitor r

end

end Argument

variable {m : Type → Type} [Monad m]

def Call.visit (visitor : Visitor m) (call : Call) : m Unit :=
  visitor.call call (Argument.visitList visitor call.arguments)

def Expression.visit (visitor : Visitor m) (expression : Expression) : m Unit :=
  visitor.expression expression do
    expression.function.visit visitor
    expression.members.forM visitor.memberName

/-! The tree as an s-expression. Names and texts are quoted, numbers and booleans are not. -/

def write (text : String) : StateM String Unit := modify (· ++ text)

def leafSexp (kind text : String) : String := " (" ++ kind ++ " " ++ displayText text ++ ")"

/-- Every node but the expression comes with a space before it. -/
def sexpWriter : Visitor (StateM String) where
  expression _ walk := do
    write "(expression"
    walk
    write ")"
  call call walk := do
    write " (function"
    write (leafSexp "functionName" call.name)
    walk
    write ")"
  string text := write (leafSexp "string" text)
  number digits := write (" (number " ++ digits ++ ")")
  boolean value := write (" (boolean " ++ (if value then "true" else "false") ++ ")")
  memberName name := write (leafSexp "memberName" name)

def Expression.sexp (expression : Expression) : String :=
  ((expression.visit sexpWriter).run "").2

/-! What the writer adds at each node, by recursion on the tree. -/

namespace Argument

mutual

def sexp : Argument → String
  | .call name arguments =>
    " (function" ++ leafSexp "functionName" name ++ sexpList arguments ++ ")"
  | .string text => leafSexp "string" text
  | .number digits => " (number " ++ digits ++ ")"
  | .boolean value => " (boolean " ++ (if value then "true" else "false") ++ ")"

def sexpList : List Argument → String
  | [] => ""
  | x :: r => sexp x ++ sexpList r

end

theorem sexp_call (name : String) (arguments : List Argument) : (call name arguments).sexp =
    " (function" ++ leafSexp "functionName" name ++ sexpList arguments ++ ")" :=
  rfl

theorem sexp_string (text : String) : (string text).sexp = leafSexp "string" text :=
  rfl

theorem sexp_number (digits : String) : (number digits).sexp = " (number " ++ digits ++ ")" :=
  rfl

theorem sexp_boolean (value : Bool) : (boolean value).sexp =
    " (boolean " ++ (if value then "true" else "false") ++ ")" :=
  rfl

theorem sexpList_cons (x : Argument) (r : List Argument) :
    sexpList (x :: r) = x.sexp ++ sexpList r :=
  rfl

end Argument

def Writes (walk : StateM String Unit) (text : String) : Prop :=
  ∀ out, walk.run out = ((), out ++ text)

namespace Writes

theorem write (text : String) : Writes (write text) text := fun _ => rfl

theorem nothing : Writes (pure ()) "" := by
  intro out
  rw [String.append_empty]
  rfl

theorem andThen {walk next : StateM String Unit} {s t : String} (first : Writes walk s)
    (second : Writes next t) : Writes (do walk; next) (s ++ t) := by
  intro out
  rw [StateT.run_bind, first]
  exact (second (out ++ s)).trans (by rw [String.append_assoc])

mutual

theorem argument : ∀ x : Argument, Writes (x.visit sexpWriter) x.sexp
  | .call name arguments => by
    have inner := (Writes.arguments arguments).andThen (write ")")
    have named := (write (leafSexp "functionName" name)).andThen inner
    have whole := (write " (function").andThen named
    rw [Argument.sexp_call, String.append_assoc, String.append_assoc]
    exact whole
  | .string text => by
    rw [Argument.sexp_string]
    exact write _
  | .number digits => by
    rw [Argument.sexp_number]
    exact write _
  | .boolean value => by
    rw [Argument.sexp_boolean]
    exact write _

theorem arguments : ∀ xs : List Argument,
    Writes (Argument.visitList sexpWriter xs) (Argument.sexpList xs)
  | [] => nothing
  | x :: r => (argument x).andThen (arguments r)

end

theorem members (names : List String) : Writes (names.forM sexpWriter.memberName)
    (String.join (names.map (leafSexp "memberName"))) := by
  induction names with
  | nil => exact nothing
  | cons name r ih =>
    rw [List.map_cons, String.join_cons]
    exact (write (leafSexp "memberName" name)).andThen ih

end Writes

theorem Expression.sexp_eq (expression : Expression) : expression.sexp =
    "(expression" ++ expression.function.toArgument.sexp ++
      String.join (expression.members.map (leafSexp "memberName")) ++ ")" := by
  have inner := (Writes.argument expression.function.toArgument).andThen
    (Writes.members expression.members)
  have whole := (Writes.write "(expression").andThen (inner.andThen (Writes.write ")"))
  have written := congrArg Prod.snd (whole "")
  rw [String.empty_append] at written
  exact written.trans (by simp only [String.append_assoc])

end ConfigExpr
