import ConfigExpr.Parse.Descent
import ConfigExpr.Parse.Run
import ConfigExpr.Proofs.Pull

/-! The counter of a descent counts the active calls. `Balanced` says so of every moment, and that
the moments are all that has happened since the start of the source. `Going` is what holds as long
as the descent may go on, `Ended` what is left of it where the descent ends. A call keeps `Going`
between its name and its closing parenthesis, and no call is entered without a name of its own,
which is why the counter stays within the length of the source and never wraps around. -/
namespace ConfigExpr

namespace Moment

@[simp] def isEnter : Moment → Bool
  | ⟨.enter _, _, _, _⟩ => true
  | _ => false

@[simp] def isLeave : Moment → Bool
  | ⟨.leave _, _, _, _⟩ => true
  | _ => false

@[simp] def isName : Moment → Bool
  | ⟨.pull _ (.ok token), _, _, _⟩ => token.kind = .functionName
  | _ => false

@[simp] def pulled? : Moment → Option (Nat × Nat)
  | ⟨.pull before _, _, _, after⟩ => some (before.position, after.position)
  | _ => none

@[simp] def before : Moment → UInt64 × Cursor
  | ⟨.pull before _, _, depth, _⟩ => (depth, before)
  | ⟨.enter before, _, _, cursor⟩ => (before, cursor)
  | ⟨.leave before, _, _, cursor⟩ => (before, cursor)

def standing (source : String) (moments : List Moment) : UInt64 × Cursor :=
  match moments.getLast? with
  | none => (0, .start source)
  | some m => (m.depth, m.cursor)

def enters (moments : List Moment) : Nat := moments.countP isEnter

def leaves (moments : List Moment) : Nat := moments.countP isLeave

def names (moments : List Moment) : Nat := moments.countP isName

def pulls (moments : List Moment) : List (Nat × Nat) := moments.filterMap pulled?

section

variable (moments : List Moment) (m : Moment)

@[simp] theorem standing_concat (source : String) :
    standing source (moments ++ [m]) = (m.depth, m.cursor) := by
  rw [standing, List.getLast?_concat]

@[simp] theorem enters_concat : enters (moments ++ [m]) = enters moments + m.isEnter.toNat := by
  rw [enters, List.countP_append, List.countP_singleton]
  cases m.isEnter <;> rfl

@[simp] theorem leaves_concat : leaves (moments ++ [m]) = leaves moments + m.isLeave.toNat := by
  rw [leaves, List.countP_append, List.countP_singleton]
  cases m.isLeave <;> rfl

@[simp] theorem names_concat : names (moments ++ [m]) = names moments + m.isName.toNat := by
  rw [names, List.countP_append, List.countP_singleton]
  cases m.isName <;> rfl

@[simp] theorem pulls_concat : pulls (moments ++ [m]) = pulls moments ++ m.pulled?.toList := by
  rw [pulls, List.filterMap_append, List.filterMap_cons, List.filterMap_nil]
  cases m.pulled? <;> rfl

theorem names_le_pulls : names moments ≤ (pulls moments).length := by
  induction moments with
  | nil => exact Nat.le_refl 0
  | cons m r ih =>
    unfold names pulls at ih ⊢
    rw [List.countP_cons, List.filterMap_cons]
    obtain ⟨kind, active, depth, cursor⟩ := m
    cases kind with
    | pull before result =>
      simp only [pulled?, List.length_cons]
      split <;> omega
    | enter before => simpa using ih
    | leave before => simpa using ih

end

/-- A moment starts from where the earlier ones have led, and the counter stands right at it. -/
structure Balanced (limit : Nat) (source : String) (earlier : List Moment) (m : Moment) : Prop where
  before_eq : m.before = standing source earlier
  pulled : ∀ before result, m.kind = .pull before result →
    ∃ context, before.next context = (m.cursor, result)
  depth_eq : m.depth.toNat = m.active
  active_eq : m.active + leaves (earlier ++ [m]) = enters (earlier ++ [m])
  active_le_limit : m.active ≤ limit + 1
  active_le_names : m.active ≤ names (earlier ++ [m])
  raised : ∀ before, m.kind = .enter before → m.depth.toNat = before.toNat + 1
  lowered : ∀ before, m.kind = .leave before → before.toNat = m.depth.toNat + 1

end Moment

namespace Descent

/-- The moments are a history of a descent, and the counter has stood right all the time. -/
def Balanced (limit : Nat) (source : String) (moments : List Moment) : Prop :=
  ∀ earlier m, earlier ++ [m] <+: moments → m.Balanced limit source earlier

theorem balanced_nil (limit : Nat) (source : String) : Balanced limit source [] := by
  intro earlier m h
  simp at h

theorem Balanced.concat {limit : Nat} {source : String} {moments : List Moment} {m : Moment}
    (h : Balanced limit source moments) (hm : m.Balanced limit source moments) :
    Balanced limit source (moments ++ [m]) := by
  intro earlier m' before
  rcases List.prefix_concat_iff.mp before with same | before
  · obtain ⟨rfl, hs⟩ := List.append_inj' same rfl
    obtain rfl : m' = m := by simpa using hs
    exact hm
  · exact h earlier m' before

/-- What is left where the descent ends. Only the last pull may have got no further. -/
structure Ended (limit : Nat) (source : String) (d : Descent) : Prop where
  balanced : Balanced limit source d.moments
  standing : Moment.standing source d.moments = (d.depth, d.cursor)
  advancing : ∀ p ∈ (Moment.pulls d.moments).dropLast, p.1 < p.2
  pulls_le : (Moment.pulls d.moments).length ≤ source.length + 1

structure Going (limit : Nat) (source : String) (active : Nat) (d : Descent) : Prop where
  balanced : Balanced limit source d.moments
  standing : Moment.standing source d.moments = (d.depth, d.cursor)
  advancing : ∀ p ∈ Moment.pulls d.moments, p.1 < p.2
  pulls_le : (Moment.pulls d.moments).length + d.left ≤ source.length
  depth_eq : d.depth.toNat = active
  active_eq : active + Moment.leaves d.moments = Moment.enters d.moments
  active_le_limit : active ≤ limit
  active_le_names : active ≤ Moment.names d.moments

/-- What holds behind a token. Nothing can go on behind the end of input. -/
structure Behind (limit : Nat) (source : String) (active : Nat) (token : Token) (d : Descent) :
    Prop where
  ended : Ended limit source d
  depth_eq : d.depth.toNat = active
  going : token.kind ≠ .endOfInput → Going limit source active d
  name : token.kind = .functionName → active < Moment.names d.moments

def Outcome.Goes {bound : Nat} {α : Type} (a : Outcome bound α) (limit : Nat) (source : String)
    (active : Nat) : Prop :=
  a.Meets (fun _ last => Going limit source active last) fun _ last => Ended limit source last

variable {limit active : Nat} {source : String} {d : Descent}

theorem Going.ended (h : Going limit source active d) : Ended limit source d := by
  have := h.pulls_le
  exact ⟨h.balanced, h.standing, fun p hp => h.advancing p (List.dropLast_subset _ hp), by omega⟩

theorem going_start (limit : Nat) (source : String) :
    Going limit source 0 (start source) := by
  refine ⟨balanced_nil limit source, rfl, ?_, ?_, rfl, rfl, Nat.zero_le _, Nat.zero_le _⟩
  · simp [start, Moment.pulls]
  · rw [← String.length_toList]
    simp [start, Moment.pulls, left, Cursor.start]

/-! One lemma for everything that can happen: a pull, the beginning of a call and its end. -/

section

variable {context : Context} {after : Cursor} {result : Except Found Token} {token : Token}

theorem Going.pull_balanced (h : Going limit source active d)
    (next : d.cursor.next context = (after, result)) :
    Balanced limit source (d.moments ++ [⟨.pull d.cursor result, active, d.depth, after⟩]) := by
  refine h.balanced.concat ⟨h.standing.symm, ?_, h.depth_eq, ?_, ?_, ?_, by simp, by simp⟩
  · intro before result' same
    obtain ⟨rfl, rfl⟩ := MomentKind.pull.inj same
    exact ⟨context, next⟩
  · simpa using h.active_eq
  · exact Nat.le_succ_of_le h.active_le_limit
  · rw [Moment.names_concat]
    exact Nat.le_add_right_of_le h.active_le_names

theorem Going.pull_ended (h : Going limit source active d)
    (next : d.cursor.next context = (after, result)) :
    Ended limit source
      ⟨after, d.depth, d.moments ++ [⟨.pull d.cursor result, active, d.depth, after⟩]⟩ := by
  have := h.pulls_le
  refine ⟨h.pull_balanced next, Moment.standing_concat .., ?_, ?_⟩
  · simpa using h.advancing
  · simp only [Moment.pulls_concat, Moment.pulled?, Option.toList_some, List.length_append,
      List.length_singleton]
    omega

theorem Going.pull (h : Going limit source active d)
    (next : d.cursor.next context = (after, .ok token)) (hk : token.kind ≠ .endOfInput) :
    Going limit source active
      ⟨after, d.depth, d.moments ++ [⟨.pull d.cursor (.ok token), active, d.depth, after⟩]⟩ := by
  have shorter : after.rest.length < d.cursor.rest.length := Cursor.next_shortens next hk
  have := h.pulls_le
  refine ⟨h.pull_balanced next, Moment.standing_concat .., ?_, ?_, h.depth_eq, ?_,
    h.active_le_limit, ?_⟩
  · intro p hp
    simp only [Moment.pulls_concat, Moment.pulled?, Option.toList_some, List.mem_append,
      List.mem_singleton] at hp
    rcases hp with hp | rfl
    · exact h.advancing p hp
    · exact (Cursor.pulls_iff.mpr next).position_lt hk
  · simp only [Moment.pulls_concat, Moment.pulled?, Option.toList_some, List.length_append,
      List.length_singleton, left] at this ⊢
    omega
  · simpa using h.active_eq
  · rw [Moment.names_concat]
    exact Nat.le_add_right_of_le h.active_le_names

end

theorem Going.enter_active_eq (h : Going limit source active d) :
    active + 1 + Moment.leaves (d.enter (active + 1)).moments =
      Moment.enters (d.enter (active + 1)).moments := by
  have := h.active_eq
  simp only [Moment.leaves_concat, Moment.enters_concat, Moment.isLeave, Moment.isEnter,
    Bool.toNat_false, Bool.toNat_true]
  omega

section

variable (h : Going limit source active d) (room : active < Moment.names d.moments)
  (short : source.length < countBound)

include h room short

/-- Every active call has a name of its own, and the source is too short for so many names. -/
theorem Going.enter_depth : (d.enter (active + 1)).depth.toNat = active + 1 := by
  have := Moment.names_le_pulls d.moments
  have := h.pulls_le
  have fits : active + 1 < 2 ^ 64 := by
    simp only [countBound] at short
    omega
  change (d.depth + 1).toNat = active + 1
  rw [UInt64.toNat_add, h.depth_eq]
  exact Nat.mod_eq_of_lt fits

theorem Going.enter_balanced : Balanced limit source (d.enter (active + 1)).moments := by
  have hd := h.enter_depth room short
  refine h.balanced.concat ⟨h.standing.symm, by simp, hd, h.enter_active_eq, ?_, ?_, ?_, by simp⟩
  · exact Nat.succ_le_succ h.active_le_limit
  · rw [Moment.names_concat]
    exact Nat.le_add_right_of_le room
  · intro before same
    obtain rfl : d.depth = before := by simpa using same
    rw [h.depth_eq]
    exact hd

theorem Going.enter_ended : Ended limit source (d.enter (active + 1)) := by
  have ended := h.ended
  refine ⟨h.enter_balanced room short, Moment.standing_concat .., ?_, ?_⟩
  · simpa using ended.advancing
  · simpa using ended.pulls_le

theorem Going.enter (within : active + 1 ≤ limit) :
    Going limit source (active + 1) (d.enter (active + 1)) := by
  refine ⟨h.enter_balanced room short, Moment.standing_concat .., ?_, ?_, h.enter_depth room short,
    h.enter_active_eq, within, ?_⟩
  · simpa using h.advancing
  · simpa using h.pulls_le
  · rw [Moment.names_concat]
    exact Nat.le_add_right_of_le room

end

section

variable (h : Going limit source (active + 1) d)

include h

theorem Going.leave_depth : (d.leave active).depth.toNat = active := by
  have enough : (1 : UInt64) ≤ d.depth := by
    rw [UInt64.le_iff_toNat_le, h.depth_eq]
    exact Nat.le_add_left 1 active
  change (d.depth - 1).toNat = active
  rw [UInt64.toNat_sub_of_le _ _ enough, h.depth_eq]
  exact Nat.add_sub_cancel active 1

theorem Going.leave : Going limit source active (d.leave active) := by
  have hd := h.leave_depth
  have := h.active_eq
  have := h.active_le_limit
  have := h.active_le_names
  have enters : active + Moment.leaves (d.leave active).moments =
      Moment.enters (d.leave active).moments := by
    simp only [Moment.leaves_concat, Moment.enters_concat, Moment.isLeave, Moment.isEnter,
      Bool.toNat_false, Bool.toNat_true]
    omega
  have names : active ≤ Moment.names (d.leave active).moments := by
    rw [Moment.names_concat]
    omega
  have balanced : Balanced limit source (d.leave active).moments := by
    refine h.balanced.concat ⟨h.standing.symm, by simp, hd, enters, ?_, names, by simp, ?_⟩
    · simp only
      omega
    · intro before same
      obtain rfl : d.depth = before := by simpa using same
      rw [h.depth_eq]
      exact congrArg (· + 1) hd.symm
  refine ⟨balanced, Moment.standing_concat .., ?_, ?_, hd, enters, by omega, names⟩
  · simpa using h.advancing
  · simpa using h.pulls_le

end

/-- The functions call each other on what is left of the source. A call reads its arguments where
fewer characters are left, and so do the arguments that follow a comma. -/
theorem induction {C A S : Descent → Prop}
    (call : ∀ d, (∀ e : Descent, e.left < d.left → S e) → C d)
    (argument : ∀ d, C d → A d)
    (arguments : ∀ d, A d → (∀ e : Descent, e.left < d.left → S e) → S d) (d : Descent) :
    C d ∧ A d ∧ S d := by
  induction d using (measure left).wf.induction with
  | _ d ih =>
    have shorter : ∀ e : Descent, e.left < d.left → S e := fun e he => (ih e he).2.2
    have ofCall := call d shorter
    have ofArgument := argument d ofCall
    exact ⟨ofCall, ofArgument, arguments d ofArgument shorter⟩

section

variable {context : Context} {expected : List TokenKind} {token : Token}

theorem pull_behind (h : Going limit source active d) :
    (d.pull active context expected).Meets (Behind limit source active)
      fun _ last => Ended limit source last := by
  apply pull_meets
  · intro after token next
    refine ⟨h.pull_ended next, h.depth_eq, h.pull next, ?_⟩
    intro hk
    have := h.active_le_names
    simp only [Moment.names_concat, Moment.isName, hk, decide_true, Bool.toNat_true]
    omega
  · intro after found next
    exact h.pull_ended next

theorem expect_behind (h : Going limit source active d) (kind : TokenKind) :
    (d.expect active context kind).Meets
      (fun token last => token.kind = kind ∧ Behind limit source active token last)
      fun _ last => Ended limit source last := by
  apply expect_meets
  apply (pull_behind h).imp
  intro token last behind
  split
  · next hk => exact ⟨hk, behind⟩
  · exact behind.ended

theorem string_goes (h : Going limit source active d) :
    (d.string active).Goes limit source active := by
  unfold string
  refine Outcome.meets_andThen (pull_behind h) ?_
  intro token _ behind
  split
  · next hk => exact Outcome.meets_ok (behind.going (by simp [hk]))
  · next hk =>
    apply Outcome.meets_map
    apply (expect_behind (behind.going (by simp [hk])) .quote).imp
    rintro mark last ⟨hm, after⟩
    exact after.going (by simp [hm])
  · exact Outcome.meets_error behind.ended

end

/-! Over a whole descent. The induction is on what is left, one lemma for each function. -/

def ArgumentsGo (limit : UInt64) (source : String) (d : Descent) : Prop :=
  ∀ active token expected, Behind limit.toNat source active token d →
    (d.arguments limit active token expected).Goes limit.toNat source active

def ArgumentGoes (limit : UInt64) (source : String) (d : Descent) : Prop :=
  ∀ active token expected, Behind limit.toNat source active token d →
    (d.argument limit active token expected).Goes limit.toNat source active

def CallGoes (limit : UInt64) (source : String) (d : Descent) : Prop :=
  ∀ active name, Going limit.toNat source active d → active < Moment.names d.moments →
    (d.call limit active name).Goes limit.toNat source active

section

variable {limit : UInt64}

theorem callGoes (short : source.length < countBound)
    (ih : ∀ e : Descent, e.left < d.left → ArgumentsGo limit source e) :
    CallGoes limit source d := by
  intro active name h room
  have hd := h.enter_depth room short
  rw [call]
  split
  · exact Outcome.meets_error (h.enter_ended room short)
  · next shallow =>
    have within : active + 1 ≤ limit.toNat := by
      rw [UInt64.lt_iff_toNat_lt, hd] at shallow
      omega
    refine Outcome.meets_andThen (expect_behind (h.enter room short within) .leftParen) ?_
    rintro paren opened ⟨hp, behind⟩
    refine Outcome.meets_andThen (pull_behind (behind.going (by simp [hp]))) ?_
    intro token _ behind
    split
    · next hk => exact Outcome.meets_ok (behind.going (by simp [hk])).leave
    · have shorter := left_lt_of_opening opened .inArguments (.rightParen :: argumentKinds)
      refine Outcome.meets_andThen (ih _ shorter _ _ _ behind) ?_
      intro xs _ going
      exact Outcome.meets_ok going.leave

theorem argumentGoes (ih : CallGoes limit source d) : ArgumentGoes limit source d := by
  intro active token expected behind
  rw [argument]
  split
  · next hk =>
    exact Outcome.meets_map (ih _ _ (behind.going (by simp [hk])) (behind.name hk))
  · next hk => exact Outcome.meets_map (string_goes (behind.going (by simp [hk])))
  · next hk => exact Outcome.meets_ok (behind.going (by simp [hk]))
  · next hk => exact Outcome.meets_ok (behind.going (by simp [hk]))
  · next hk => exact Outcome.meets_ok (behind.going (by simp [hk]))
  · exact Outcome.meets_error behind.ended

theorem argumentsGo (first : ArgumentGoes limit source d)
    (ih : ∀ e : Descent, e.left < d.left → ArgumentsGo limit source e) :
    ArgumentsGo limit source d := by
  intro active token expected behind
  rw [arguments]
  refine Outcome.meets_andThen (first _ _ _ behind) ?_
  intro x _ going
  refine Outcome.meets_andThen (pull_behind going) ?_
  intro mark pulled behind
  split
  · next hk =>
    refine Outcome.meets_andThen (pull_behind (behind.going (by simp [hk]))) ?_
    intro token _ behind
    exact Outcome.meets_map (ih _ (left_lt_of_comma pulled hk _ _) _ _ _ behind)
  · next hk => exact Outcome.meets_ok (behind.going (by simp [hk]))
  · exact Outcome.meets_error behind.ended

theorem goes (short : source.length < countBound) (d : Descent) :
    CallGoes limit source d ∧ ArgumentGoes limit source d ∧ ArgumentsGo limit source d :=
  induction (fun _ => callGoes short) (fun _ => argumentGoes) (fun _ => argumentsGo) d

theorem members_goes (h : Going limit.toNat source 0 d) : d.members.Goes limit.toNat source 0 := by
  induction d using (measure left).wf.induction with
  | _ d ih =>
    rw [members]
    refine Outcome.meets_andThen (pull_behind h) ?_
    intro token pulled behind
    split
    · next hk =>
      have dot := behind.going (by simp [hk])
      refine Outcome.meets_andThen (expect_behind dot .memberName) ?_
      rintro name _ ⟨hm, behind⟩
      have shorter := left_lt_of_dot pulled hk .afterDot .memberName
      exact Outcome.meets_map (ih _ shorter (behind.going (by simp [hm])))
    · next hk => exact Outcome.meets_ok (behind.going (by simp [hk]))
    · exact Outcome.meets_error behind.ended

theorem parse_ended (limit : UInt64) (short : source.length < countBound) :
    (parse limit source).Meets
      (fun _ last => Ended limit.toNat source last ∧ last.depth = 0)
      fun _ last => Ended limit.toNat source last := by
  unfold parse
  refine Outcome.meets_andThen (expect_behind (going_start _ source) .leftBracket) ?_
  rintro bracket _ ⟨hb, behind⟩
  refine Outcome.meets_andThen (expect_behind (behind.going (by simp [hb])) .functionName) ?_
  rintro name _ ⟨hn, behind⟩
  have call := (goes short _).1 0 name (behind.going (by simp [hn])) (behind.name hn)
  refine Outcome.meets_andThen call ?_
  intro function _ going
  refine Outcome.meets_andThen (members_goes going) ?_
  intro names _ going
  apply Outcome.meets_map
  apply (expect_behind going .endOfInput).imp
  rintro token last ⟨-, behind⟩
  exact ⟨behind.ended, UInt64.toNat_inj.mp behind.depth_eq⟩

end

/-! Wherever it starts, a call that comes to its end leaves the counter as it was. -/

def Outcome.Restores {bound : Nat} {α : Type} (a : Outcome bound α) (depth : UInt64) : Prop :=
  a.Meets (fun _ last => last.depth = depth) fun _ _ => True

theorem pull_restores (d : Descent) (context : Context) (expected : List TokenKind) :
    (d.pull active context expected).Restores d.depth := by
  apply pull_meets
  · intro after token next
    rfl
  · intro after found next
    trivial

theorem expect_restores (d : Descent) (context : Context) (kind : TokenKind) :
    (d.expect active context kind).Restores d.depth := by
  apply expect_meets
  apply (pull_restores d context [kind]).imp
  intro token last same
  split
  · exact same
  · trivial

theorem string_restores (d : Descent) : (d.string active).Restores d.depth := by
  unfold string
  refine Outcome.meets_andThen (pull_restores ..) ?_
  intro token _ same
  split
  · exact Outcome.meets_ok same
  · apply Outcome.meets_map
    exact (expect_restores ..).imp fun _ _ closed => closed.trans same
  · exact Outcome.meets_error trivial

theorem leave_depth_of_enter {active' : Nat} {e : Descent}
    (same : e.depth = (d.enter active).depth) : (e.leave active').depth = d.depth := by
  change e.depth - 1 = d.depth
  rw [same]
  exact UInt64.add_sub_cancel d.depth 1

theorem restores (limit : UInt64) (d : Descent) :
    (∀ active name, (d.call limit active name).Restores d.depth) ∧
    (∀ active token expected, (d.argument limit active token expected).Restores d.depth) ∧
    ∀ active token expected, (d.arguments limit active token expected).Restores d.depth := by
  refine induction (C := fun d => ∀ active name, (d.call limit active name).Restores d.depth)
    (A := fun d => ∀ active token expected,
      (d.argument limit active token expected).Restores d.depth)
    (S := fun d => ∀ active token expected,
      (d.arguments limit active token expected).Restores d.depth) ?call ?argument ?arguments d
  case call =>
    intro d ih active name
    rw [call]
    split
    · exact Outcome.meets_error trivial
    · refine Outcome.meets_andThen (expect_restores ..) ?_
      intro paren opened raised
      refine Outcome.meets_andThen (pull_restores ..) ?_
      intro token _ same
      split
      · exact Outcome.meets_ok (leave_depth_of_enter (same.trans raised))
      · have shorter := left_lt_of_opening opened .inArguments (.rightParen :: argumentKinds)
        refine Outcome.meets_andThen (ih _ shorter ..) ?_
        intro xs _ kept
        exact Outcome.meets_ok (leave_depth_of_enter ((kept.trans same).trans raised))
  case argument =>
    intro d ofCall active token expected
    rw [argument]
    split
    · exact Outcome.meets_map (ofCall ..)
    · exact Outcome.meets_map (string_restores d)
    · exact Outcome.meets_ok rfl
    · exact Outcome.meets_ok rfl
    · exact Outcome.meets_ok rfl
    · exact Outcome.meets_error trivial
  case arguments =>
    intro d first ih active token expected
    rw [arguments]
    refine Outcome.meets_andThen (first ..) ?_
    intro x _ same
    refine Outcome.meets_andThen (pull_restores ..) ?_
    intro mark pulled still
    split
    · next hk =>
      refine Outcome.meets_andThen (pull_restores ..) ?_
      intro token _ again
      apply Outcome.meets_map
      apply (ih _ (left_lt_of_comma pulled hk ..) ..).imp
      intro xs last kept
      exact ((kept.trans again).trans still).trans same
    · exact Outcome.meets_ok (still.trans same)
    · exact Outcome.meets_error trivial

end Descent

end ConfigExpr
