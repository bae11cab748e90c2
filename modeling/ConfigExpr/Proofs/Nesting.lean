import ConfigExpr.Proofs.Shift

/-! How deep a run is. `State.Within` bounds the open calls, and the closed ones in them, by the
limit, and says that the counter counts the open calls. Every run stays within its limit. -/
namespace ConfigExpr

namespace Argument

theorem depthOfList_append (xs ys : List Argument) :
    depthOfList (xs ++ ys) = max (depthOfList xs) (depthOfList ys) := by
  induction xs with
  | nil => simp [depthOfList]
  | cons x r ih => simp [depthOfList, ih, Nat.max_assoc]

theorem depthOfList_reverse (xs : List Argument) : depthOfList xs.reverse = depthOfList xs := by
  induction xs with
  | nil => rfl
  | cons x r ih =>
    rw [List.reverse_cons, depthOfList_append, ih]
    simp only [depthOfList]
    omega

end Argument

def CallsFit (limit : Nat) : List OpenCall → Prop
  | [] => True
  | call :: outer =>
    outer.length + 1 + Argument.depthOfList call.arguments ≤ limit ∧ CallsFit limit outer

structure OpenCalls.Within (limit : Nat) (calls : OpenCalls) : Prop where
  depth_eq : calls.depth = calls.outer.length + 1
  fit : CallsFit limit (calls.innermost :: calls.outer)

def State.Within (limit : Nat) : State → Prop
  | .start | .outerName => True
  | .callOpening calls | .firstArgument calls | .nextArgument calls | .stringBody calls
  | .stringEnd calls _ | .afterArgument calls => calls.Within limit
  | .afterCall function _ | .memberName function _ => function.depth ≤ limit
  | .ending expression => expression.depth ≤ limit

namespace OpenCalls.Within

variable {limit : Nat} {calls : OpenCalls}

theorem depth_le (h : calls.Within limit) : calls.depth ≤ limit := by
  have := h.depth_eq
  have := h.fit.1
  omega

theorem push (h : calls.Within limit) {x : Argument} (hx : calls.depth + x.depth ≤ limit) :
    (calls.push x).Within limit := by
  obtain ⟨hd, hf, ho⟩ := h
  refine ⟨hd, ?_, ho⟩
  simp only [OpenCalls.push, Argument.depthOfList]
  omega

theorem push_leaf (h : calls.Within limit) {x : Argument} (hx : x.depth = 0) :
    (calls.push x).Within limit :=
  h.push (by have := h.depth_le; omega)

theorem enter (h : calls.Within limit) (name : String) (hd : calls.depth + 1 ≤ limit) :
    (calls.enter name).Within limit := by
  refine ⟨?_, ?_, h.fit⟩
  · simp [OpenCalls.enter, h.depth_eq]
  · have := h.depth_eq
    simp only [OpenCalls.enter, List.length_cons, Argument.depthOfList]
    omega

theorem leave (h : calls.Within limit) : calls.leave.Within limit := by
  obtain ⟨⟨name, arguments⟩, outer, depth⟩ := calls
  obtain ⟨hd, hf, ho⟩ := h
  simp only at hd hf ho
  cases outer with
  | nil =>
    simp only [List.length_nil] at hf
    simpa [OpenCalls.leave, State.Within, Call.depth, Call.toArgument, Argument.depth,
      Argument.depthOfList_reverse] using hf
  | cons parent outer =>
    have parents : OpenCalls.Within limit ⟨parent, outer, depth - 1⟩ :=
      ⟨by simp [hd], ho⟩
    refine parents.push ?_
    simp only [List.length_cons] at hd hf
    simp only [Call.toArgument, Argument.depth, Argument.depthOfList_reverse]
    omega

end OpenCalls.Within

namespace State

theorem Within.depth_le {limit : Nat} {state : State} (h : state.Within limit) :
    state.depth ≤ limit := by
  cases state with
  | start => exact Nat.zero_le _
  | outerName => exact Nat.zero_le _
  | afterCall => exact Nat.zero_le _
  | memberName => exact Nat.zero_le _
  | ending => exact Nat.zero_le _
  | _ => exact OpenCalls.Within.depth_le h

theorem Awaits.within_iff {limit : Nat} {state : State} {calls : OpenCalls}
    (awaits : Awaits state calls) : state.Within limit ↔ calls.Within limit := by
  cases awaits <;> exact Iff.rfl

theorem within_move {limit : Nat} {state next : State} {kind : TokenKind} {text : String}
    (moves : Moves state kind text next) (hd : kind = .functionName → next.depth ≤ limit)
    (h : state.Within limit) : next.Within limit := by
  cases moves with
  | bracket => trivial
  | outerName =>
    have hl : 1 ≤ limit := hd rfl
    exact ⟨rfl, by simpa [OpenCalls.outermost, CallsFit, Argument.depthOfList] using hl⟩
  | opening => exact h
  | noArguments => exact OpenCalls.Within.leave h
  | innerName awaits => exact (awaits.within_iff.mp h).enter _ (hd rfl)
  | openQuote awaits => exact awaits.within_iff.mp h
  | number awaits => exact (awaits.within_iff.mp h).push_leaf rfl
  | trueWord awaits => exact (awaits.within_iff.mp h).push_leaf rfl
  | falseWord awaits => exact (awaits.within_iff.mp h).push_leaf rfl
  | emptyString => exact OpenCalls.Within.push_leaf h rfl
  | stringChars => exact h
  | closeQuote => exact OpenCalls.Within.push_leaf h rfl
  | comma => exact h
  | closing => exact OpenCalls.Within.leave h
  | dot => exact h
  | closeBracket => exact h
  | memberName => exact h

end State

theorem Reader.Reads.within {limit : Nat} {reader last : Reader} {tokens : List Token}
    (reads : Reads limit reader tokens last) (h : reader.state.Within limit) :
    last.state.Within limit := by
  apply reads.preserves (P := fun reader => reader.state.Within limit)
  · intro a b token shifts within
    cases shifts with
    | mk _ _ _ moves hd => exact State.within_move moves hd within
  · exact h

theorem depth_le_of_parse {limit : Nat} {source : String} {expression : Expression}
    (h : Expression.parse ⟨limit⟩ source = .ok expression) : expression.depth ≤ limit := by
  obtain ⟨tokens, last, reads, done⟩ := Reader.run_eq_iff.mp h
  have within : last.state.Within limit := reads.within trivial
  rw [(Reader.step_eq_accept_iff.mp done).1] at within
  exact within

end ConfigExpr
