import ConfigExpr.Proofs.CheckOrder
import ConfigExpr.Proofs.Reload
import ConfigExpr.Proofs.RoundTrip

/-! The spelling of the nodes that there can be. Whatever way a tree comes about, the check of its
kind has nothing against any node in it, nor against those that a run builds before it fails. -/
namespace ConfigExpr

open Grammar

def NameChar (c : Char) : Prop := c.isAlpha ∨ c.isDigit ∨ c = '-' ∨ c = '_'

namespace Node

def Spelled : Node → Prop
  | expression _ | boolean _ => True
  | call tree =>
    (∃ first rest, tree.name.toList = first :: rest ∧ first.isAlpha ∧ ∀ c ∈ rest, NameChar c) ∧
      tree.name ≠ "true" ∧ tree.name ≠ "false"
  | string text => quoteMark ∉ text.toList
  | number digits => digits.toList ≠ [] ∧ ∀ c ∈ digits.toList, c.isDigit
  | memberName name => name.toList ≠ [] ∧ ∀ c ∈ name.toList, NameChar c

end Node

theorem isWordChar_iff {c : Char} : isWordChar c ↔ NameChar c := by
  simp [isWordChar, NameChar, Char.isAlphanum, or_assoc]

theorem isFunctionName_toList_iff {name : String} : isFunctionName name.toList ↔
    (∃ first rest, name.toList = first :: rest ∧ first.isAlpha ∧ ∀ c ∈ rest, NameChar c) ∧
      name ≠ "true" ∧ name ≠ "false" := by
  have differs (word : String) : name ≠ word ↔ name.toList ≠ word.toList :=
    String.toList_inj.not.symm
  have spellings : "true".toList = trueSpelling ∧ "false".toList = falseSpelling := ⟨rfl, rfl⟩
  rw [differs, differs, spellings.1, spellings.2]
  cases name.toList with
  | nil => simp [isFunctionName]
  | cons c r => simp [isFunctionName, isWordChar_iff, and_assoc]

theorem isMemberName_toList_iff {name : String} :
    isMemberName name.toList ↔ name.toList ≠ [] ∧ ∀ c ∈ name.toList, NameChar c := by
  simp only [isMemberName_iff, isWordChar_iff]

theorem refusalOf_ite_eq_none_iff {α : Type} {p : Prop} [Decidable p] {a : α}
    {node : InvalidNode} : refusalOf (if p then .ok a else .error node) = none ↔ p := by
  rw [refusalOf_ite]
  split <;> simp_all

theorem Node.refusal?_eq_none_iff (node : Node) : node.refusal? = none ↔ node.Spelled := by
  cases node with
  | expression | boolean => simp [refusal?, Spelled]
  | call tree => exact refusalOf_ite_eq_none_iff.trans isFunctionName_toList_iff
  | string text => exact refusalOf_ite_eq_none_iff.trans isStringText_iff
  | number digits => exact refusalOf_ite_eq_none_iff.trans isNumber_iff
  | memberName name => exact refusalOf_ite_eq_none_iff.trans isMemberName_toList_iff

theorem Argument.areValid_iff_refusal? {xs : List Argument} :
    areValid xs ↔ ∀ node ∈ innerFirstOfList xs, node.refusal? = none := by
  rw [← firstInvalidOfList?_eq_none_iff, firstInvalidOfList?_eq, List.findSome?_eq_none_iff]

theorem Expression.isValid_iff_refusal? {expression : Expression} :
    expression.isValid ↔ ∀ node ∈ expression.innerFirst, node.refusal? = none := by
  rw [← firstInvalid?_eq_none_iff, firstInvalid?_eq, List.findSome?_eq_none_iff]

inductive Expression.Made : Expression → Prop where
  | parsed {options source expression} : Expression.parse options source = .ok expression →
      Made expression
  | built {expression} : Expression.Built expression → Made expression
  | loaded {json expression} : Expression.ofJson json = .ok expression → Made expression
  | loadedValue {json expression} : ConfigValue.ofJson json = .ok (.expression expression) →
      Made expression

theorem Expression.isValid_of_parse {options : Options} {source : String} {expression : Expression}
    (h : Expression.parse options source = .ok expression) : expression.isValid :=
  (expressionText_of_parse h).isValid

theorem Expression.Made.isValid {expression : Expression} (made : expression.Made) :
    expression.isValid := by
  cases made with
  | parsed h => exact isValid_of_parse h
  | built h => exact built_iff_isValid.mp h
  | loaded h => exact (ofJson_eq_ok_iff.mp h).2
  | loadedValue h => exact ConfigValue.valid_of_ofJson h

/-! The nodes that a run has built when it comes to a place. -/

/-- The nodes inside the arguments of open calls. The calls themselves are built when they close. -/
def OpenCalls.nodes (calls : OpenCalls) : List Node :=
  (calls.innermost :: calls.outer).flatMap fun call => Argument.innerFirstOfList call.arguments

/-- A text between quotes is no node before the second quote. -/
def State.nodes : State → List Node
  | .start | .outerName => []
  | .callOpening calls | .firstArgument calls | .nextArgument calls | .stringBody calls
  | .stringEnd calls _ | .afterArgument calls => calls.nodes
  | .afterCall function members | .memberName function members =>
    Expression.innerFirst ⟨function, members.reverse⟩
  | .ending expression => expression.innerFirst

namespace Grammar

theorem Argued.areValid {text : List Char} {call : OpenCall} (h : Argued text call) :
    Argument.areValid call.arguments := by
  obtain ⟨-, -, -, arguments⟩ := h
  have valid := Argument.areValid_iff.mp arguments.areValid
  exact Argument.areValid_iff.mpr fun x hx => valid x (List.mem_reverse.mp hx)

theorem Open.areValid {text : List Char} {call : OpenCall} (h : Open text call) :
    Argument.areValid call.arguments := by
  cases h with
  | first => rfl
  | next argued => exact argued.areValid

theorem Inside.areValid {text : List Char} {outer : List OpenCall} (h : Inside text outer) :
    ∀ call ∈ outer, Argument.areValid call.arguments := by
  induction h with
  | bracket => simp
  | call _ opened ih =>
    intro call hc
    rcases List.mem_cons.mp hc with rfl | hc
    · exact opened.areValid
    · exact ih call hc

theorem MembersText.isValid {t m : List Char} {function : Call} {names : List String}
    (call : CallText t function.name function.arguments) (members : MembersText m names) :
    Expression.isValid ⟨function, names⟩ := by
  simp only [Expression.isValid, Call.isValid, Bool.and_eq_true, List.all_eq_true]
  exact ⟨(ArgumentText.call call).isValid, members.isMemberName⟩

end Grammar

theorem OpenCalls.refusal?_eq_none {calls : OpenCalls} {a : List Char}
    (outer : Inside a calls.outer) (innermost : Argument.areValid calls.innermost.arguments) :
    ∀ node ∈ calls.nodes, node.refusal? = none := by
  intro node hn
  obtain ⟨call, hc, hn⟩ := List.mem_flatMap.mp hn
  rcases List.mem_cons.mp hc with rfl | hc
  · exact Argument.areValid_iff_refusal?.mp innermost node hn
  · exact Argument.areValid_iff_refusal?.mp (outer.areValid call hc) node hn

/-- The text behind a place spells every node that is built there. -/
theorem State.HasRead.refusal?_eq_none {state : State} {text : List Char}
    (h : state.HasRead text) : ∀ node ∈ state.nodes, node.refusal? = none := by
  cases state with
  | start | outerName => simp [nodes]
  | callOpening calls =>
    obtain ⟨a, -, outer, -, none⟩ := h
    exact OpenCalls.refusal?_eq_none outer (by rw [none]; rfl)
  | firstArgument calls =>
    obtain ⟨a, u, -, outer, -, -, none⟩ := h
    exact OpenCalls.refusal?_eq_none outer (by rw [none]; rfl)
  | nextArgument calls | stringBody calls =>
    obtain ⟨a, t, -, outer, opened⟩ := h
    exact OpenCalls.refusal?_eq_none outer opened.areValid
  | stringEnd calls content =>
    obtain ⟨a, t, -, outer, opened, -⟩ := h
    exact OpenCalls.refusal?_eq_none outer opened.areValid
  | afterArgument calls =>
    obtain ⟨a, t, -, outer, argued⟩ := h
    exact OpenCalls.refusal?_eq_none outer argued.areValid
  | afterCall function members =>
    obtain ⟨a, t, m, -, -, call, names⟩ := h
    exact Expression.isValid_iff_refusal?.mp (names.isValid call)
  | memberName function members =>
    obtain ⟨a, t, m, w, -, -, call, names, -⟩ := h
    exact Expression.isValid_iff_refusal?.mp (names.isValid call)
  | ending expression => exact Expression.isValid_iff_refusal?.mp h.isValid

theorem Reader.Reads.refusal?_eq_none {limit : Nat} {source : String} {tokens : List Token}
    {reader : Reader} (reads : Reads limit (start source) tokens reader) :
    ∀ node ∈ reader.state.nodes, node.refusal? = none := by
  obtain ⟨text, -, -, hasRead⟩ := reads.follows (start_follows source)
  exact hasRead.refusal?_eq_none

/-- Every tree, whatever way it comes about, is spelled in all its nodes. A run never builds a node
that the check of its kind would refuse, not even one that fails later on, and the tree that it
gives reads back from its JSON form. -/
theorem nodes_spelled :
    (∀ tree : Expression, tree.Made → ∀ node ∈ tree.innerFirst, node.Spelled) ∧
    (∀ limit source tokens reader, Reader.Reads limit (Reader.start source) tokens reader →
      ∀ node ∈ reader.state.nodes, node.refusal? = none) ∧
    ∀ options source tree, Expression.parse options source = .ok tree →
      Expression.ofJson tree.toJson = .ok tree := by
  refine ⟨?_, ?_, ?_⟩
  · intro tree made node hn
    rw [← Node.refusal?_eq_none_iff]
    exact Expression.isValid_iff_refusal?.mp made.isValid node hn
  · intro limit source tokens reader reads
    exact reads.refusal?_eq_none
  · intro options source tree parsed
    exact Expression.reloads.written tree (Expression.isValid_of_parse parsed)

theorem nodes_spelled_mixedTree :
    Expression.parse ⟨3⟩ mixedTree.source = .ok mixedTree ∧
      (∀ node ∈ mixedTree.innerFirst, node.Spelled) ∧
      Expression.ofJson mixedTree.toJson = .ok mixedTree := by
  have valid := Expression.built_iff_isValid.mp mixedTree_built
  have parsed : Expression.parse ⟨3⟩ mixedTree.source = .ok mixedTree :=
    parse_of_expressionText (expressionText_source valid) (by decide)
  refine ⟨parsed, ?_, ?_⟩
  · exact nodes_spelled.1 mixedTree (.parsed parsed)
  · exact nodes_spelled.2.2 ⟨3⟩ mixedTree.source mixedTree parsed

end ConfigExpr
