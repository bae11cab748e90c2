import ConfigExpr.Proofs.DescentBalance
import ConfigExpr.Proofs.Reading

/-! The descent reads what the reader reads. A function of the descent stands for the way of a run
from the place where the function begins to the place behind what it reads: the run has the same
result from both places, and an error of the function is the result of the run. Both count the
open calls alike as long as the counter does not wrap around, which `Going` excludes. -/
namespace ConfigExpr

theorem State.startArgument_eq_refuse {limit : Nat} {calls : OpenCalls} {kind : TokenKind}
    {text : String} (h : kind ∉ argumentKinds) : startArgument limit calls kind text = .refuse := by
  cases kind <;> simp [argumentKinds] at h <;> rfl

namespace Reader

/-- What a run comes to by a move on a token, if these kinds were expected. -/
def resume (limit : Nat) (cursor : Cursor) (token : Token) (expected : List TokenKind) :
    Move → Except ParseError Expression
  | .go next => run limit ⟨next, cursor⟩
  | .accept expression => .ok expression
  | .tooDeep => .error (.nestingTooDeep token.start limit)
  | .refuse => .error (.unexpected token expected)

variable {limit : Nat} {state : State} {cursor after : Cursor}

theorem run_eq_of_step {result : Except ParseError Expression}
    (done : step limit ⟨state, cursor⟩ = .done result) : run limit ⟨state, cursor⟩ = result :=
  run_eq_iff.mpr ⟨[], ⟨state, cursor⟩, .here, done⟩

theorem run_eq_resume {token : Token} (pulled : cursor.next state.context = (after, .ok token)) :
    run limit ⟨state, cursor⟩ = resume limit after token state.expected
      (state.advance limit token.kind token.text) := by
  have pull_eq : pull ⟨state, cursor⟩ = (after, .ok token) := pulled
  cases hm : state.advance limit token.kind token.text with
  | go next =>
    have moved : step limit ⟨state, cursor⟩ = .more ⟨next, after⟩ := by
      simp only [step, pull_eq, hm]
    exact (Reads.token pull_eq moved .here).run_eq
  | accept expression => exact run_eq_of_step (by simp only [step, pull_eq, hm, resume])
  | tooDeep => exact run_eq_of_step (by simp only [step, pull_eq, hm, resume])
  | refuse =>
    apply run_eq_of_step
    simp only [step, pull_eq, hm, resume, refusal, ParseError.unexpected]

theorem run_eq_lexical {found : Found}
    (pulled : cursor.next state.context = (after, .error found)) :
    run limit ⟨state, cursor⟩ = .error (.lexical after.position found state.expected) :=
  run_eq_of_step (by simp only [step, pull, pulled])

end Reader

namespace Descent

variable {limit : UInt64} {source : String} {active bound : Nat} {d : Descent} {calls : OpenCalls}
  {result : Except ParseError Expression}

def Resumes (limit : UInt64) (result : Except ParseError Expression) (state : State) (token : Token)
    (d : Descent) : Prop :=
  Reader.resume limit.toNat d.cursor token state.expected
    (state.advance limit.toNat token.kind token.text) = result

/-- The run comes to the result from the place behind what is read, or the result is the error. -/
def Outcome.Follows {α : Type} (a : Outcome bound α) (limit : UInt64)
    (result : Except ParseError Expression) (place : α → State) : Prop :=
  a.Meets (fun x last => Reader.run limit.toNat ⟨place x, last.cursor⟩ = result)
    fun error _ => result = .error error

theorem pull_follows (state : State)
    (h : Reader.run limit.toNat ⟨state, d.cursor⟩ = result) :
    (d.pull active state.context state.expected).Meets (Resumes limit result state)
      fun error _ => result = .error error := by
  apply pull_meets
  · intro after token next
    rw [← h]
    exact (Reader.run_eq_resume next).symm
  · intro after found next
    rw [← h]
    exact Reader.run_eq_lexical next

theorem Resumes.refused {state : State} {token : Token}
    (h : Resumes limit result state token d) (hk : token.kind ∉ state.expected) :
    result = .error (.unexpected token state.expected) := by
  unfold Resumes at h
  rw [(state.advance_eq_refuse_iff ..).mpr hk] at h
  exact h.symm

theorem expect_follows {kind : TokenKind} (state : State) (he : state.expected = [kind])
    (h : Reader.run limit.toNat ⟨state, d.cursor⟩ = result) :
    (d.expect active state.context kind).Meets
      (fun token last => token.kind = kind ∧ Resumes limit result state token last)
      fun error _ => result = .error error := by
  apply expect_meets
  rw [← he]
  apply (pull_follows state h).imp
  intro token last resumes
  split
  · next hk => exact ⟨hk, resumes⟩
  · next hk => exact resumes.refused (by simpa [he] using hk)

theorem string_follows
    (h : Reader.run limit.toNat ⟨.stringBody calls, d.cursor⟩ = result) :
    (d.string active).Follows limit result
      fun text => .afterArgument (calls.push (.string text)) := by
  unfold string
  refine Outcome.meets_andThen (pull_follows (.stringBody calls) h) ?_
  intro token _ resumes
  split
  · next hk =>
    rw [Resumes, hk] at resumes
    exact Outcome.meets_ok resumes
  · next hk =>
    rw [Resumes, hk] at resumes
    apply Outcome.meets_map
    apply (expect_follows (.stringEnd calls token.text) rfl resumes).imp
    rintro mark last ⟨hm, resumes⟩
    rw [Resumes, hm] at resumes
    exact resumes
  · next quote chars =>
    exact Outcome.meets_error (resumes.refused (by simpa [State.expected] using ⟨chars, quote⟩))

/-! Over a whole descent. As for the counter, there is one lemma for each function. -/

def ArgumentsFollow (limit : UInt64) (source : String) (d : Descent) : Prop :=
  ∀ active token expected calls result, Behind limit.toNat source active token d →
    calls.depth = active →
    Reader.resume limit.toNat d.cursor token expected
      (State.startArgument limit.toNat calls token.kind token.text) = result →
    (d.arguments limit active token expected).Follows limit result
      fun xs => (xs.foldl OpenCalls.push calls).leave

def ArgumentFollows (limit : UInt64) (source : String) (d : Descent) : Prop :=
  ∀ active token expected calls result, Behind limit.toNat source active token d →
    calls.depth = active →
    Reader.resume limit.toNat d.cursor token expected
      (State.startArgument limit.toNat calls token.kind token.text) = result →
    (d.argument limit active token expected).Follows limit result
      fun x => .afterArgument (calls.push x)

def CallFollows (limit : UInt64) (source : String) (d : Descent) : Prop :=
  ∀ active name expected calls result, Going limit.toNat source active d →
    active < Moment.names d.moments → calls.depth = active + 1 →
    Reader.resume limit.toNat d.cursor name expected
      (if active < limit.toNat then .go (.callOpening calls) else .tooDeep) = result →
    (d.call limit active name).Meets
      (fun call last => call.name = name.text ∧
        Reader.run limit.toNat ⟨(call.arguments.foldl OpenCalls.push calls).leave, last.cursor⟩ =
          result)
      fun error _ => result = .error error

theorem callFollows (short : source.length < countBound)
    (ih : ∀ e : Descent, e.left < d.left → ArgumentsFollow limit source e) :
    CallFollows limit source d := by
  intro active name expected calls result going room depth h
  have hd := going.enter_depth room short
  rw [call]
  split
  · next deep =>
    rw [UInt64.lt_iff_toNat_lt, hd] at deep
    rw [if_neg (by omega)] at h
    exact Outcome.meets_error h.symm
  · next shallow =>
    have within : active < limit.toNat := by
      rw [UInt64.lt_iff_toNat_lt, hd] at shallow
      omega
    rw [if_pos within] at h
    have entered := going.enter room short within
    refine Outcome.meets_andThen (expect_follows (.callOpening calls) rfl h) ?_
    rintro paren opened ⟨hp, resumes⟩
    rw [Resumes, hp] at resumes
    have behind := (expect_behind entered .leftParen).1 paren opened
    have going := behind.2.going (by simp [hp])
    refine Outcome.meets_andThen (pull_follows (.firstArgument calls) resumes) ?_
    intro token pulled resumes
    have behind := (pull_behind going).1 token pulled
    split
    · next hk =>
      rw [Resumes, hk] at resumes
      exact Outcome.meets_ok ⟨rfl, resumes⟩
    · next hk =>
      rw [Resumes, State.Awaits.first.advance_eq _ _ hk] at resumes
      have shorter := left_lt_of_opening opened .inArguments (.rightParen :: argumentKinds)
      refine Outcome.meets_andThen (ih _ shorter _ _ _ calls _ behind depth resumes) ?_
      intro xs _ run
      exact Outcome.meets_ok ⟨rfl, run⟩

theorem argumentFollows (ih : CallFollows limit source d) : ArgumentFollows limit source d := by
  intro active token expected calls result behind depth h
  rw [argument]
  split
  · next hk =>
    rw [hk] at h
    simp only [State.startArgument, depth] at h
    have going := behind.going (by simp [hk])
    apply Outcome.meets_map
    apply (ih _ _ _ _ _ going (behind.name hk) (by simp [OpenCalls.enter, depth]) h).imp
    rintro call last ⟨hn, run⟩
    rw [OpenCalls.leave_enter, ← hn] at run
    exact run
  · next hk =>
    rw [hk] at h
    exact Outcome.meets_map (string_follows h)
  · next hk =>
    rw [hk] at h
    exact Outcome.meets_ok h
  · next hk =>
    rw [hk] at h
    exact Outcome.meets_ok h
  · next hk =>
    rw [hk] at h
    exact Outcome.meets_ok h
  · next name quote number isTrue isFalse =>
    have other : token.kind ∉ argumentKinds := by
      simpa [argumentKinds] using ⟨name, quote, number, isTrue, isFalse⟩
    rw [State.startArgument_eq_refuse other] at h
    exact Outcome.meets_error h.symm

theorem argumentsFollow (short : source.length < countBound)
    (first : ArgumentFollows limit source d)
    (ih : ∀ e : Descent, e.left < d.left → ArgumentsFollow limit source e) :
    ArgumentsFollow limit source d := by
  intro active token expected calls result behind depth h
  rw [arguments]
  refine Outcome.meets_andThen (first _ _ _ _ _ behind depth h) ?_
  intro x read run
  have going := ((goes short d).2.1 _ _ _ behind).1 x read
  refine Outcome.meets_andThen (pull_follows (.afterArgument (calls.push x)) run) ?_
  intro mark pulled resumes
  have behind := (pull_behind going).1 mark pulled
  split
  · next hk =>
    rw [Resumes, hk] at resumes
    have going := behind.going (by simp [hk])
    refine Outcome.meets_andThen (pull_follows (.nextArgument (calls.push x)) resumes) ?_
    intro token pulled' resumes
    have behind := (pull_behind going).1 token pulled'
    have shorter := left_lt_of_comma pulled hk .inArguments argumentKinds
    exact Outcome.meets_map (ih _ shorter _ _ _ (calls.push x) _ behind depth resumes)
  · next hk =>
    rw [Resumes, hk] at resumes
    exact Outcome.meets_ok resumes
  · next comma paren =>
    exact Outcome.meets_error (resumes.refused (by simpa [State.expected] using ⟨comma, paren⟩))

theorem follow (short : source.length < countBound) (d : Descent) :
    CallFollows limit source d ∧ ArgumentFollows limit source d ∧ ArgumentsFollow limit source d :=
  induction (fun _ => callFollows short) (fun _ => argumentFollows)
    (fun _ => argumentsFollow short) d

theorem members_follow {function : Call} {names : List String}
    (h : Reader.run limit.toNat ⟨.afterCall function names, d.cursor⟩ = result) :
    d.members.Follows limit result fun more => .ending ⟨function, names.reverse ++ more⟩ := by
  induction d using (measure left).wf.induction generalizing names with
  | _ d ih =>
    rw [members]
    refine Outcome.meets_andThen (pull_follows (.afterCall function names) h) ?_
    intro token pulled resumes
    split
    · next hk =>
      rw [Resumes, hk] at resumes
      refine Outcome.meets_andThen (expect_follows (.memberName function names) rfl resumes) ?_
      rintro name _ ⟨hm, resumes⟩
      rw [Resumes, hm] at resumes
      apply Outcome.meets_map
      apply (ih _ (left_lt_of_dot pulled hk .afterDot .memberName) resumes).imp
      intro more last run
      simpa using run
    · next hk =>
      rw [Resumes, hk] at resumes
      refine Outcome.meets_ok ?_
      simp only [List.append_nil]
      exact resumes
    · next dot bracket =>
      exact Outcome.meets_error (resumes.refused (by simpa [State.expected] using ⟨dot, bracket⟩))

theorem parse_follows (limit : UInt64) (short : source.length < countBound) :
    (parse limit source).Meets
      (fun expression _ => Expression.parse ⟨limit.toNat⟩ source = .ok expression)
      fun error _ => Expression.parse ⟨limit.toNat⟩ source = .error error := by
  unfold parse
  refine Outcome.meets_andThen (expect_follows .start rfl rfl) ?_
  rintro bracket pulled ⟨hb, resumes⟩
  rw [Resumes, hb] at resumes
  have behind := (expect_behind (going_start limit.toNat source) .leftBracket).1 bracket pulled
  have going := behind.2.going (by simp [hb])
  refine Outcome.meets_andThen (expect_follows .outerName rfl resumes) ?_
  rintro name pulled ⟨hn, resumes⟩
  rw [Resumes, hn] at resumes
  have behind := (expect_behind going .functionName).1 name pulled
  have going := behind.2.going (by simp [hn])
  have call := (follow short _).1 0 name _ (.outermost name.text) _ going (behind.2.name hn) rfl
    resumes
  refine Outcome.meets_andThen call ?_
  rintro function _ ⟨hf, run⟩
  rw [OpenCalls.leave_outermost, ← hf] at run
  refine Outcome.meets_andThen (members_follow run) ?_
  intro names _ run
  apply Outcome.meets_map
  apply (expect_follows (.ending ⟨function, names⟩) rfl run).imp
  rintro token last ⟨ht, resumes⟩
  rw [Resumes, ht] at resumes
  exact resumes.symm

theorem parse_result (limit : UInt64) (short : source.length < countBound) :
    (parse limit source).result = Expression.parse ⟨limit.toNat⟩ source := by
  obtain ⟨value, error⟩ := parse_follows limit short
  cases h : (parse limit source).result with
  | ok expression => exact (value expression h).symm
  | error e => exact (error e h).symm

end Descent

/-- The descent comes to what the reader comes to. At every moment on its way the counter tells the
number of active calls, which is at most one more than the limit and at most the number of names
pulled. So it never wraps around, and it is zero at the end of an expression. A call or an argument
that is read leaves it as it was. Every pull but the last moves on in the source. -/
theorem descent_counts_active_calls (limit : UInt64) (source : String)
    (short : source.length < countBound) :
    let descent := Descent.parse limit source
    descent.result = Expression.parse ⟨limit.toNat⟩ source ∧
    Descent.Balanced limit.toNat source descent.last.moments ∧
    Moment.standing source descent.last.moments = (descent.last.depth, descent.last.cursor) ∧
    (∀ expression, descent.result = .ok expression → descent.last.depth = 0) ∧
    (∀ (d : Descent) active name call, (d.call limit active name).result = .ok call →
      (d.call limit active name).last.depth = d.depth) ∧
    (∀ (d : Descent) active token expected x,
      (d.argument limit active token expected).result = .ok x →
      (d.argument limit active token expected).last.depth = d.depth) ∧
    (∀ pull ∈ (Moment.pulls descent.last.moments).dropLast, pull.1 < pull.2) ∧
    (Moment.pulls descent.last.moments).length ≤ source.length + 1 := by
  intro descent
  obtain ⟨value, error⟩ := Descent.parse_ended limit short
  have ended : Descent.Ended limit.toNat source descent.last := by
    cases h : descent.result with
    | ok expression => exact (value expression h).1
    | error e => exact error e h
  refine ⟨Descent.parse_result limit short, ended.balanced, ended.standing, ?_, ?_, ?_,
    ended.advancing, ended.pulls_le⟩
  · intro expression read
    exact (value expression read).2
  · intro d active name
    exact ((Descent.restores limit d).1 active name).1
  · intro d active token expected
    exact ((Descent.restores limit d).2.1 active token expected).1

/-- A call in a call, and a string that comes after it. -/
theorem descent_counts_active_calls_nested :
    "[f(g(1), 'x').y]".length < countBound ∧
      (∃ expression, (Descent.parse 2 "[f(g(1), 'x').y]").result = .ok expression) ∧
      Descent.Balanced 2 "[f(g(1), 'x').y]" (Descent.parse 2 "[f(g(1), 'x').y]").last.moments ∧
      (Descent.parse 2 "[f(g(1), 'x').y]").last.depth = 0 := by
  have short : "[f(g(1), 'x').y]".length < countBound := by decide
  obtain ⟨same, balanced, -, settled, -⟩ := descent_counts_active_calls 2 "[f(g(1), 'x').y]" short
  obtain ⟨expression, read⟩ :
      ∃ expression, Expression.parse ⟨2⟩ "[f(g(1), 'x').y]" = .ok expression :=
    ⟨_, Reader.run_eq_of_runWithin? 20 rfl⟩
  have parsed := same.trans read
  exact ⟨short, ⟨expression, parsed⟩, balanced, settled expression parsed⟩

end ConfigExpr
