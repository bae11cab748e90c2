import ConfigExpr.Proofs.Shift

/-! The text that a run has read when it comes to a place. `State.HasRead` says, place by place,
which part of a derivation that text is, and `Reads.follows` that every run keeps to it,
whatever becomes of the run. At the end the part is the whole. -/
namespace ConfigExpr

namespace Grammar

inductive Argued : List Char → OpenCall → Prop where
  | mk {u v text arguments} {name : String} : isFunctionName name.toList → Blanks u → Blanks v →
      ArgumentsText text arguments →
      Argued (name.toList ++ u ++ '(' :: v ++ text) ⟨name, arguments.reverse⟩

inductive Open : List Char → OpenCall → Prop where
  | first {u v} {name : String} : isFunctionName name.toList → Blanks u → Blanks v →
      Open (name.toList ++ u ++ '(' :: v) ⟨name, []⟩
  | next {text call u v} : Argued text call → Blanks u → Blanks v →
      Open (text ++ u ++ ',' :: v) call

/-- An expression up to the name of a call inside the given open calls. -/
inductive Inside : List Char → List OpenCall → Prop where
  | bracket {u v} : Blanks u → Blanks v → Inside (u ++ '[' :: v) []
  | call {text outer t parent} : Inside text outer → Open t parent →
      Inside (text ++ t) (parent :: outer)

theorem Blanks.append {u v : List Char} (hu : Blanks u) (hv : Blanks v) : Blanks (u ++ v) := by
  intro c hc
  rcases List.mem_append.mp hc with hc | hc
  · exact hu c hc
  · exact hv c hc

theorem Blanks.nil : Blanks [] := by simp [Blanks]

theorem ArgumentsText.snoc : ∀ {text u v t : List Char} {arguments : List Argument}
    {argument : Argument}, ArgumentsText text arguments → Blanks u → Blanks v →
    ArgumentText t argument →
    ArgumentsText (text ++ u ++ ',' :: v ++ t) (arguments ++ [argument])
  | _, _, _, _, _, _, .last h, hu, hv, ht => .more h hu hv (.last ht)
  | _, _, _, _, _, _, .more h hu' hv' rest, hu, hv, ht => by
    simpa using ArgumentsText.more h hu' hv' (rest.snoc hu hv ht)

theorem Open.append_blanks {t w : List Char} {call : OpenCall} (h : Open t call)
    (hw : Blanks w) : Open (t ++ w) call := by
  cases h with
  | first hn hu hv => simpa using Open.first hn hu (hv.append hw)
  | next ha hu hv => simpa using Open.next ha hu (hv.append hw)

theorem Open.argued {t text : List Char} {call : OpenCall} {argument : Argument}
    (h : Open t call) (ha : ArgumentText text argument) :
    Argued (t ++ text) ⟨call.name, argument :: call.arguments⟩ := by
  cases h with
  | first hn hu hv => exact .mk hn hu hv (.last ha)
  | next h hu hv =>
    obtain ⟨hn, hu', hv', hargs⟩ := h
    simpa using Argued.mk hn hu' hv' (hargs.snoc hu hv ha)

theorem Argued.callText {t w : List Char} {call : OpenCall} (h : Argued t call) (hw : Blanks w) :
    CallText (t ++ w ++ [')']) call.name call.arguments.reverse := by
  obtain ⟨hn, hu, hv, hargs⟩ := h
  simpa using CallText.applied hn hu hv hw hargs

theorem MembersText.snoc {text u v : List Char} {names : List String} {name : String}
    (h : MembersText text names) (hu : Blanks u) (hv : Blanks v)
    (hn : isMemberName name.toList) :
    MembersText (text ++ u ++ '.' :: v ++ name.toList) (names ++ [name]) := by
  induction h with
  | none => simpa using MembersText.more hu hv hn .none
  | more hu' hv' hn' _ ih => simpa using MembersText.more hu' hv' hn' ih

theorem ExpressionText.append_blanks {text w : List Char} {expression : Expression}
    (h : ExpressionText text expression) (hw : Blanks w) :
    ExpressionText (text ++ w) expression := by
  obtain ⟨hu, hv, hc, hm, hw', hx⟩ := h
  simpa using ExpressionText.brackets hu hv hc hm hw' (hx.append hw)

end Grammar

open Grammar

namespace State

/-- What the text up to a place is. Blanks before the next token are not part of it. -/
def HasRead : State → List Char → Prop
  | start, text => text = []
  | outerName, text => ∃ u, text = u ++ ['['] ∧ Blanks u
  | callOpening calls, text =>
    ∃ a, text = a ++ calls.innermost.name.toList ∧ Inside a calls.outer ∧
      isFunctionName calls.innermost.name.toList ∧ calls.innermost.arguments = []
  | firstArgument calls, text =>
    ∃ a u, text = a ++ (calls.innermost.name.toList ++ u ++ ['(']) ∧ Inside a calls.outer ∧
      isFunctionName calls.innermost.name.toList ∧ Blanks u ∧ calls.innermost.arguments = []
  | nextArgument calls, text =>
    ∃ a t, text = a ++ t ∧ Inside a calls.outer ∧ Open t calls.innermost
  | stringBody calls, text =>
    ∃ a t, text = a ++ t ++ [quoteMark] ∧ Inside a calls.outer ∧ Open t calls.innermost
  | stringEnd calls content, text =>
    ∃ a t, text = a ++ t ++ quoteMark :: content.toList ∧ Inside a calls.outer ∧
      Open t calls.innermost ∧ isStringText content.toList
  | afterArgument calls, text =>
    ∃ a t, text = a ++ t ∧ Inside a calls.outer ∧ Argued t calls.innermost
  | afterCall function members, text =>
    ∃ a t m, text = a ++ t ++ m ∧ Inside a [] ∧ CallText t function.name function.arguments ∧
      MembersText m members.reverse
  | memberName function members, text =>
    ∃ a t m w, text = a ++ t ++ m ++ w ++ ['.'] ∧ Inside a [] ∧
      CallText t function.name function.arguments ∧ MembersText m members.reverse ∧ Blanks w
  | ending expression, text => ExpressionText text expression

theorem Awaits.hasRead {state : State} {calls : OpenCalls} {text : List Char}
    (awaits : Awaits state calls) (h : state.HasRead text) :
    ∃ a t, text = a ++ t ∧ Inside a calls.outer ∧ Open t calls.innermost := by
  cases awaits with
  | first =>
    obtain ⟨a, u, rfl, ha, hn, hu, hargs⟩ := h
    obtain ⟨⟨name, arguments⟩, outer, depth⟩ := calls
    obtain rfl : arguments = [] := hargs
    exact ⟨a, _, rfl, ha, .first hn hu .nil⟩
  | next => exact h

theorem hasRead_push {calls : OpenCalls} {argument : Argument} {a t w text : List Char}
    (ha : Inside a calls.outer) (ht : Open t calls.innermost) (hw : Blanks w)
    (harg : ArgumentText text argument) :
    (State.afterArgument (calls.push argument)).HasRead (a ++ t ++ w ++ text) :=
  ⟨a, _, by simp, ha, (ht.append_blanks hw).argued harg⟩

theorem hasRead_leave {calls : OpenCalls} {a t : List Char} (ha : Inside a calls.outer)
    (ht : CallText t calls.innermost.name calls.innermost.arguments.reverse) :
    calls.leave.HasRead (a ++ t) := by
  obtain ⟨call, outer, depth⟩ := calls
  cases ha with
  | bracket hu hv => exact ⟨_, t, [], by simp, .bracket hu hv, ht, .none⟩
  | call ha hp => exact ⟨_, _, List.append_assoc .., ha, hp.argued (.call ht)⟩

/-- One token carries the text from one place to the next. -/
theorem hasRead_move {state next : State} {kind : TokenKind} {v w text : List Char}
    (moves : Moves state kind (String.ofList text) next) (skips : state.context.Skips w)
    (spells : state.context.Spells kind text) (h : state.HasRead v) :
    next.HasRead (v ++ w ++ text) := by
  have fits := spells.fits
  have written : kind.Fits (String.ofList text).toList := by rwa [String.toList_ofList]
  obtain ⟨hw, inString⟩ := skips
  cases moves with
  | bracket =>
    obtain rfl : v = [] := h
    obtain rfl : text = ['['] := fits
    exact ⟨w, by simp, hw⟩
  | outerName =>
    obtain ⟨u, rfl, hu⟩ := h
    exact ⟨u ++ '[' :: w, by simp [OpenCalls.outermost], .bracket hu hw, written, rfl⟩
  | opening =>
    obtain ⟨a, rfl, ha, hn, hargs⟩ := h
    obtain rfl : text = ['('] := fits
    exact ⟨a, w, by simp, ha, hn, hw, hargs⟩
  | @noArguments calls =>
    obtain ⟨a, u, rfl, ha, hn, hu, hargs⟩ := h
    obtain rfl : text = [')'] := fits
    have bare : CallText (calls.innermost.name.toList ++ u ++ '(' :: w ++ [')'])
        calls.innermost.name calls.innermost.arguments.reverse := by
      rw [hargs]
      exact .bare hn hu hw
    simpa using hasRead_leave ha bare
  | innerName awaits =>
    obtain ⟨a, t, rfl, ha, ht⟩ := awaits.hasRead h
    exact ⟨a ++ (t ++ w), by simp [OpenCalls.enter], .call ha (ht.append_blanks hw), written, rfl⟩
  | openQuote awaits =>
    obtain ⟨a, t, rfl, ha, ht⟩ := awaits.hasRead h
    obtain rfl : text = [quoteMark] := fits
    exact ⟨a, t ++ w, by simp, ha, ht.append_blanks hw⟩
  | number awaits =>
    obtain ⟨a, t, rfl, ha, ht⟩ := awaits.hasRead h
    simpa using hasRead_push ha ht hw (.number written)
  | trueWord awaits =>
    obtain ⟨a, t, rfl, ha, ht⟩ := awaits.hasRead h
    obtain rfl : text = trueSpelling := fits
    exact hasRead_push ha ht hw .trueWord
  | falseWord awaits =>
    obtain ⟨a, t, rfl, ha, ht⟩ := awaits.hasRead h
    obtain rfl : text = falseSpelling := fits
    exact hasRead_push ha ht hw .falseWord
  | emptyString =>
    obtain ⟨a, t, rfl, ha, ht⟩ := h
    obtain rfl := inString rfl
    obtain rfl : text = [quoteMark] := fits
    have argument : ArgumentText (quoteMark :: "".toList ++ [quoteMark]) (.string "") :=
      .string (by decide)
    simpa using hasRead_push ha ht .nil argument
  | stringChars =>
    obtain ⟨a, t, rfl, ha, ht⟩ := h
    obtain rfl := inString rfl
    exact ⟨a, t, by simp, ha, ht, written.2⟩
  | closeQuote =>
    obtain ⟨a, t, rfl, ha, ht, hc⟩ := h
    obtain rfl := inString rfl
    obtain rfl : text = [quoteMark] := fits
    simpa using hasRead_push ha ht .nil (.string hc)
  | comma =>
    obtain ⟨a, t, rfl, ha, ht⟩ := h
    obtain rfl : text = [','] := fits
    exact ⟨a, _, by simp, ha, .next ht hw .nil⟩
  | closing =>
    obtain ⟨a, t, rfl, ha, ht⟩ := h
    obtain rfl : text = [')'] := fits
    simpa using hasRead_leave ha (ht.callText hw)
  | dot =>
    obtain ⟨a, t, m, rfl, ha, ht, hm⟩ := h
    obtain rfl : text = ['.'] := fits
    exact ⟨a, t, m, w, rfl, ha, ht, hm, hw⟩
  | closeBracket =>
    obtain ⟨a, t, m, rfl, ha, ht, hm⟩ := h
    obtain rfl : text = [']'] := fits
    cases ha with
    | bracket hu hv =>
      simpa [HasRead] using ExpressionText.brackets hu hv ht hm hw .nil
  | memberName =>
    obtain ⟨a, t, m, u, rfl, ha, ht, hm, hu⟩ := h
    have longer := hm.snoc hu hw written
    rw [String.toList_ofList] at longer
    exact ⟨a, t, m ++ u ++ '.' :: w ++ text, by simp, ha, ht, by simpa using longer⟩

end State

namespace Reader

def Follows (source : List Char) (reader : Reader) : Prop :=
  ∃ text, source = text ++ reader.cursor.rest ∧ reader.cursor.position = text.length ∧
    reader.state.HasRead text

theorem Shifts.follows {limit : Nat} {reader next : Reader} {token : Token} {source : List Char}
    (h : Shifts limit reader token next) (follows : reader.Follows source) :
    next.Follows source := by
  obtain ⟨v, rfl, hp, hv⟩ := follows
  cases h with
  | @mk p w text r state kind next skips spells ends moves hd =>
    obtain rfl : p = v.length := hp
    have hasRead := State.hasRead_move moves skips spells hv
    exact ⟨v ++ w ++ text, by simp, by simp [Nat.add_assoc], hasRead⟩

theorem Reads.follows {limit : Nat} {reader last : Reader} {tokens : List Token}
    {source : List Char} (reads : Reads limit reader tokens last)
    (follows : reader.Follows source) : last.Follows source :=
  reads.preserves (fun h => h.follows) follows

theorem start_follows (source : String) : (start source).Follows source.toList :=
  ⟨[], rfl, rfl, rfl⟩

end Reader

/-- What is read as an expression is derived by the grammar. -/
theorem expressionText_of_parse {limit : Nat} {source : String} {expression : Expression}
    (h : Expression.parse ⟨limit⟩ source = .ok expression) :
    ExpressionText source.toList expression := by
  obtain ⟨tokens, last, reads, done⟩ := Reader.run_eq_iff.mp h
  obtain ⟨ending, blanks⟩ := Reader.step_eq_accept_iff.mp done
  obtain ⟨text, hs, -, hv⟩ := reads.follows (Reader.start_follows source)
  rw [ending] at hv
  rw [hs]
  exact ExpressionText.append_blanks hv blanks

end ConfigExpr
