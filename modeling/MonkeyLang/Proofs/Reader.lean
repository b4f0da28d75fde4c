import MonkeyLang.Grammar.Expression
import Mathlib.Logic.Relation

/-!
# What readers do to their state

A reader of the grammar changes its state in three ways only: it goes to the next token, it
complains about the current token, or it complains about the token behind it.  So whatever one
such step keeps, a whole reading keeps: tokens are dropped from the front and never come back, and
diagnostics are added in front and never withdrawn.  Besides, a reader that fails has complained.

## Main definitions

* `ParseState.Step`, `ParseState.Reaches`: one change of the state, and a run of them
* `Parse.Orderly`: a reader that changes the state by steps, and complains when it fails

## Main results

* `ParseState.Reaches.ahead_suffix`, `ParseState.Reaches.diagnostics_suffix`: what a run keeps
* `Parse.Orderly.bind`, `Parse.Orderly.many`: orderly readers compose
* `Grammar.expression_orderly`, `Grammar.program_orderly`: the readers of the grammar are orderly
-/

namespace MonkeyLang

/-! ## Steps of the state -/

namespace ParseState

/-- The state with the next token as the current one. -/
def next (s : ParseState) : ParseState := { s with ahead := s.ahead.tail }

/-- The state with one more complaint. -/
def note (s : ParseState) (position : Position) (c : Complaint) : ParseState :=
  { s with diagnostics := ⟨position, c.message⟩ :: s.diagnostics }

@[simp]
theorem next_ahead (s : ParseState) : s.next.ahead = s.ahead.tail := rfl

@[simp]
theorem next_diagnostics (s : ParseState) : s.next.diagnostics = s.diagnostics := rfl

@[simp]
theorem note_ahead (s : ParseState) (position : Position) (c : Complaint) :
    (s.note position c).ahead = s.ahead := rfl

@[simp]
theorem note_diagnostics (s : ParseState) (position : Position) (c : Complaint) :
    (s.note position c).diagnostics = ⟨position, c.message⟩ :: s.diagnostics := rfl

/-- What a reader can do to its state at a time. -/
inductive Step : ParseState → ParseState → Prop where
  /-- It goes to the next token. -/
  | next (s : ParseState) : Step s s.next
  /-- It complains about the current token. -/
  | noteCurrent (s : ParseState) (c : Complaint) : Step s (s.note s.current.position c)
  /-- It complains about the token behind the current one. -/
  | notePeek (s : ParseState) (c : Complaint) : Step s (s.note s.peek.position c)

/-- A run of steps leads from one state to the other. -/
def Reaches : ParseState → ParseState → Prop := Relation.ReflTransGen Step

namespace Reaches

variable {s t u : ParseState}

theorem refl (s : ParseState) : s.Reaches s := Relation.ReflTransGen.refl

theorem trans (h : s.Reaches t) (h' : t.Reaches u) : s.Reaches u := Relation.ReflTransGen.trans h h'

theorem single (h : s.Step t) : s.Reaches t := Relation.ReflTransGen.single h

/-- Tokens are dropped from the front and never come back. -/
theorem ahead_suffix (h : s.Reaches t) : t.ahead <:+ s.ahead := by
  induction h with
  | refl => exact List.suffix_rfl
  | tail _ step ih =>
    refine List.IsSuffix.trans ?_ ih
    cases step with
    | next => exact List.tail_suffix _
    | noteCurrent => exact List.suffix_rfl
    | notePeek => exact List.suffix_rfl

/-- Diagnostics are added in front and never withdrawn. -/
theorem diagnostics_suffix (h : s.Reaches t) : s.diagnostics <:+ t.diagnostics := by
  induction h with
  | refl => exact List.suffix_rfl
  | tail _ step ih =>
    refine ih.trans ?_
    cases step with
    | next => exact List.suffix_rfl
    | noteCurrent => exact List.suffix_cons _ _
    | notePeek => exact List.suffix_cons _ _

theorem remaining_le (h : s.Reaches t) : t.remaining ≤ s.remaining := h.ahead_suffix.length_le

theorem diagnostics_length_le (h : s.Reaches t) : s.diagnostics.length ≤ t.diagnostics.length :=
  h.diagnostics_suffix.length_le

/-- Without a diagnostic at the end of a run there was none at its start. -/
theorem diagnostics_eq_nil (h : s.Reaches t) (clean : t.diagnostics = []) : s.diagnostics = [] := by
  have suffix := h.diagnostics_suffix
  rw [clean] at suffix
  exact List.suffix_nil.mp suffix

end Reaches

/-! ## Tokens in view -/

/-- The tokens behind the current one. -/
def behind (s : ParseState) : List Token := s.ahead.tail

/-- No token ahead is an end token. -/
def Sealed (s : ParseState) : Prop := ∀ t ∈ s.ahead, t.kind ≠ .eof

variable {s s' : ParseState}

theorem Sealed.of_reaches (h : s.Sealed) (run : s.Reaches s') : s'.Sealed :=
  fun t ht => h t (run.ahead_suffix.subset ht)

theorem Sealed.next (h : s.Sealed) : s.next.Sealed := h.of_reaches (.single (.next s))

/-- A current token that is not the end token is the first token ahead. -/
theorem ahead_eq (h : s.current.kind ≠ .eof) : s.ahead = s.current :: s.behind := by
  unfold current behind at *
  cases ahead : s.ahead with
  | nil => simp [ahead, Token.finish] at h
  | cons t ts => rfl

theorem ahead_eq_of_kind {kind : Token.Kind} (h : s.current.kind = kind)
    (real : kind ≠ .eof) : s.ahead = s.current :: s.behind :=
  ahead_eq (h ▸ real)

/-- A next token that is not the end token is the first token behind the current one. -/
theorem behind_eq_of_kind {kind : Token.Kind} (h : s.peek.kind = kind)
    (real : kind ≠ .eof) : s.behind = s.peek :: s.next.behind :=
  ahead_eq (s := s.next) (h ▸ real)

/-- At the end token no token is ahead. -/
theorem Sealed.ahead_eq_nil (h : s.Sealed) (finish : s.current.kind = .eof) : s.ahead = [] := by
  cases ahead : s.ahead with
  | nil => rfl
  | cons t ts =>
    have kind : t.kind = .eof := by simpa [current, ahead] using finish
    exact absurd kind (h t (by simp [ahead]))

/-- Going to the next token leaves fewer tokens, except at the end. -/
theorem next_remaining_lt (h : s.current.kind ≠ .eof) : s.next.remaining < s.remaining := by
  have length := congrArg List.length (ahead_eq h)
  simp only [remaining, next_ahead, List.length_tail, List.length_cons] at *
  omega

/-- Behind a next token that is not the end token there are fewer tokens. -/
theorem next_next_remaining_lt {kind : Token.Kind} (h : s.peek.kind = kind)
    (real : kind ≠ .eof) : s.next.next.remaining < s.remaining :=
  Nat.lt_of_lt_of_le (next_remaining_lt (s := s.next) (h ▸ real))
    (Reaches.single (.next s)).remaining_le

end ParseState

/-! ## Running readers -/

namespace Parse

variable {α β : Type}

@[simp]
theorem pure_run (a : α) (s : ParseState) : (pure a : Parse α) s = (some a, s) := rfl

@[simp]
theorem bind_current (f : Token → Parse β) (s : ParseState) : (current >>= f) s = f s.current s :=
  rfl

@[simp]
theorem bind_peek (f : Token → Parse β) (s : ParseState) : (peek >>= f) s = f s.peek s := rfl

@[simp]
theorem bind_advance (f : Unit → Parse β) (s : ParseState) : (advance >>= f) s = f () s.next := rfl

@[simp]
theorem advance_run (s : ParseState) : advance s = (some (), s.next) := rfl

@[simp]
theorem complain_run (position : Position) (c : Complaint) (s : ParseState) :
    (complain position c : Parse α) s = (none, s.note position c) := rfl

/-- One reader behind a reader that succeeds. -/
theorem bind_of_some {p : Parse α} {s s' : ParseState} {a : α} (f : α → Parse β)
    (h : p s = (some a, s')) : (p >>= f) s = f a s' := by
  show andThen p f s = f a s'
  simp only [andThen, h]

/-- One reader behind a reader that fails. -/
theorem bind_of_none {p : Parse α} {s s' : ParseState} (f : α → Parse β)
    (h : p s = (none, s')) : (p >>= f) s = (none, s') := by
  show andThen p f s = (none, s')
  simp only [andThen, h]

/-- Two readers succeed one behind the other exactly if each of them does. -/
theorem bind_eq_some_iff {p : Parse α} {f : α → Parse β} {s s' : ParseState} {b : β} :
    (p >>= f) s = (some b, s') ↔ ∃ a t, p s = (some a, t) ∧ f a t = (some b, s') := by
  rcases h : p s with ⟨_ | a, t⟩
  · simp [bind_of_none f h]
  · rw [bind_of_some f h]
    constructor
    · intro run
      exact ⟨a, t, rfl, run⟩
    · rintro ⟨_, _, ⟨⟩, run⟩
      exact run

/-- The token that is due is the next one exactly if it can be gone to. -/
theorem expect_eq_some_iff {due : Token.Kind} {s s' : ParseState} {u : Unit} :
    expect due s = (some u, s') ↔ s.peek.kind = due ∧ s' = s.next := by
  unfold Parse.expect Reading.expect
  rw [bind_peek]
  by_cases h : s.peek.kind = due
  · simp [h, eq_comm]
  · simp [h]

theorem bind_expect {due : Token.Kind} {s : ParseState} (f : Unit → Parse β)
    (h : s.peek.kind = due) : (expect due >>= f) s = f () s.next :=
  bind_of_some f (expect_eq_some_iff.mpr ⟨h, rfl⟩)

theorem skip_run (kind : Token.Kind) (s : ParseState) :
    skip kind s = (some (), if s.peek.kind = kind then s.next else s) := by
  unfold Parse.skip Reading.skip
  rw [bind_peek]
  split <;> rfl

theorem attempt_run (p : Parse α) (s : ParseState) : attempt p s = (some (p s).1, (p s).2) := rfl

section Repetition

variable {more : ParseState → Bool} {p : Parse α} {s s' : ParseState} {a : α}

theorem many_eq : many more p = rounds more p := rfl

/-- No round of a repetition. -/
theorem many_of_stop (stop : more s = false) : many more p s = (some [], s) := by
  rw [many_eq, rounds, if_neg (Bool.eq_false_iff.mp stop)]

/-- A first round that fails. -/
theorem many_of_failed (go : more s = true) (failed : p s = (none, s')) :
    many more p s = (none, s') := by
  rw [many_eq, rounds, if_pos go, failed]

/-- A first round that reads no token is the last. -/
theorem many_of_stuck (go : more s = true) (read : p s = (some a, s'))
    (stuck : ¬ s'.remaining < s.remaining) : many more p s = (some [a], s') := by
  rw [many_eq, rounds, if_pos go, read]
  simp only [if_neg stuck]

/-- A first round that reads a token, and the others behind it. -/
theorem many_of_round (go : more s = true) (read : p s = (some a, s'))
    (less : s'.remaining < s.remaining) :
    many more p s = ((many more p s').1.map (a :: ·), (many more p s').2) := by
  rw [many_eq, rounds, if_pos go, read]
  simp only [if_pos less]
  show _ = ((rounds more p s').1.map (a :: ·), (rounds more p s').2)
  rcases rounds more p s' with ⟨_ | as, s''⟩ <;> rfl

/-- Induction along a repetition: by the first round, and the rounds behind one that reads a
token. -/
theorem many_induct (more : ParseState → Bool) (p : Parse α) {motive : ParseState → Prop}
    (stop : ∀ s, more s = false → motive s)
    (failed : ∀ s s', more s = true → p s = (none, s') → motive s)
    (stuck : ∀ s s' a, more s = true → p s = (some a, s') → ¬ s'.remaining < s.remaining → motive s)
    (round : ∀ s s' a, more s = true → p s = (some a, s') → s'.remaining < s.remaining →
      motive s' → motive s) (s : ParseState) : motive s := by
  induction size : s.remaining using Nat.strongRecOn generalizing s with
  | ind n ih =>
    subst size
    cases go : more s with
    | false => exact stop s go
    | true =>
      rcases run : p s with ⟨_ | a, s'⟩
      · exact failed s s' go run
      · by_cases less : s'.remaining < s.remaining
        · exact round s s' a go run less (ih s'.remaining less s' rfl)
        · exact stuck s s' a go run less

/-- A repetition of a reader that never fails does not fail. -/
theorem isSome_many (h : ∀ s, (p s).1.isSome) (s : ParseState) : (many more p s).1.isSome := by
  induction s using many_induct more p with
  | stop s stop => rw [many_of_stop stop, Option.isSome_some]
  | failed s s' go failed => simpa [failed] using h s
  | stuck s s' a go read stuck => rw [many_of_stuck go read stuck, Option.isSome_some]
  | round s s' a go read less ih => rw [many_of_round go read less, Option.isSome_map, ih]

end Repetition

/-- The rounds of a repetition that succeeds, from a state to a state. -/
inductive Rounds (more : ParseState → Bool) (p : Parse α) :
    ParseState → List α → ParseState → Prop where
  | stop {s : ParseState} (stop : more s = false) : Rounds more p s [] s
  /-- A round that reads no token is the last. -/
  | stuck {s s' : ParseState} {a : α} (go : more s = true) (read : p s = (some a, s'))
      (stuck : ¬ s'.remaining < s.remaining) : Rounds more p s [a] s'
  | round {s s' s'' : ParseState} {a : α} {as : List α} (go : more s = true)
      (read : p s = (some a, s')) (others : Rounds more p s' as s'') : Rounds more p s (a :: as) s''

/-- A repetition that succeeds consists of rounds. -/
theorem rounds_of_many {more : ParseState → Bool} {p : Parse α} {s s' : ParseState} {as : List α}
    (run : many more p s = (some as, s')) : Rounds more p s as s' := by
  induction s using many_induct more p generalizing as with
  | stop s stop =>
    rw [many_of_stop stop] at run
    cases run
    exact .stop stop
  -- the first round fails, and the repetition with it
  | failed s t go failed =>
    rw [many_of_failed go failed] at run
    cases run
  -- the first round has read no token, so no other is tried
  | stuck s t a go read stuck =>
    rw [many_of_stuck go read stuck] at run
    cases run
    exact .stuck go read stuck
  -- the first round has read a token, and the others succeed behind it
  | round s t a go read less ih =>
    rw [many_of_round go read less] at run
    obtain ⟨found, rfl⟩ := Prod.mk.inj run
    obtain ⟨as, others, rfl⟩ := Option.map_eq_some_iff.mp found
    exact .round go read (ih (Prod.ext others rfl))

/-- If every round reads a token, a repetition goes on as long as its condition holds. -/
theorem Rounds.more_eq_false {more : ParseState → Bool} {p : Parse α} {s s' : ParseState}
    {as : List α} (rounds : Rounds more p s as s')
    (progress : ∀ s a s', more s = true → p s = (some a, s') → s'.remaining < s.remaining) :
    more s' = false := by
  induction rounds with
  | stop stop => exact stop
  -- every round reads a token, so none is stuck
  | stuck go read stuck => exact absurd (progress _ _ _ go read) stuck
  | round _ _ _ ih => exact ih

/-- What holds of the result of every round holds of all results. -/
theorem Rounds.forall_mem {P : α → Prop} {more : ParseState → Bool} {p : Parse α}
    {s s' : ParseState} {as : List α} (rounds : Rounds more p s as s')
    (each : ∀ s a s', p s = (some a, s') → P a) : ∀ a ∈ as, P a := by
  induction rounds with
  | stop => nofun
  | stuck _ read _ => exact List.forall_mem_singleton.mpr (each _ _ _ read)
  | round _ read _ ih => exact List.forall_mem_cons.mpr ⟨each _ _ _ read, ih⟩

/-! ## Orderly readers -/

/-- A reading that started in the state `s` changed the state by steps, and it complained if it
failed. -/
structure Orderly (s : ParseState) (result : Option α × ParseState) : Prop where
  /-- The state is changed by steps. -/
  reaches : s.Reaches result.2
  /-- A failure comes with a complaint. -/
  complains : result.1 = none → s.diagnostics.length < result.2.diagnostics.length

namespace Orderly

variable {p : Parse α} {f : α → Parse β} {s s' : ParseState}

theorem done (a : α) (h : s.Reaches s') : Orderly s (some a, s') := ⟨h, fun h => nomatch h⟩

/-- A reading after a run of steps is a reading from where the run started. -/
theorem after {result : Option α × ParseState} (h : s.Reaches s') (rest : Orderly s' result) :
    Orderly s result where
  reaches := h.trans rest.reaches
  complains failed := Nat.lt_of_le_of_lt h.diagnostics_length_le (rest.complains failed)

theorem pure (a : α) (s : ParseState) : Orderly s ((pure a : Parse α) s) := .done a (.refl s)

theorem advance (s : ParseState) : Orderly s (advance s) := .done () (.single (.next s))

theorem complainCurrent (s : ParseState) (c : Complaint) :
    Orderly s ((complain s.current.position c : Parse α) s) :=
  ⟨.single (.noteCurrent s c), fun _ => Nat.lt_succ_self _⟩

theorem complainPeek (s : ParseState) (c : Complaint) :
    Orderly s ((complain s.peek.position c : Parse α) s) :=
  ⟨.single (.notePeek s c), fun _ => Nat.lt_succ_self _⟩

theorem bind (hp : Orderly s (p s)) (hf : ∀ a s', Orderly s' (f a s')) :
    Orderly s ((p >>= f) s) := by
  -- a failure of the first reader is the failure of both
  rcases h : p s with ⟨_ | a, s'⟩ <;> rw [h] at hp
  · rw [bind_of_none f h]
    exact ⟨hp.reaches, fun _ => hp.complains rfl⟩
  · rw [bind_of_some f h]
    exact .after hp.reaches (hf a s')

theorem expect (due : Token.Kind) (s : ParseState) : Orderly s (expect due s) := by
  unfold Parse.expect Reading.expect
  rw [bind_peek]
  split
  · exact .advance s
  · exact .complainPeek s _

theorem skip (kind : Token.Kind) (s : ParseState) : Orderly s (skip kind s) := by
  unfold Parse.skip Reading.skip
  rw [bind_peek]
  split
  · exact .advance s
  · exact .pure () s

theorem attempt (hp : Orderly s (p s)) : Orderly s (attempt p s) := .done _ hp.reaches

/-- Repetition of an orderly reader is orderly. -/
theorem many {more : ParseState → Bool} (hp : ∀ s, Orderly s (p s)) (s : ParseState) :
    Orderly s (many more p s) := by
  induction s using many_induct more p with
  | stop s stop =>
    rw [many_of_stop stop]
    exact .done _ (.refl s)
  -- the complaint of the round that fails is the one of the repetition
  | failed s s' go failed =>
    have first := hp s
    rw [failed] at first
    rw [many_of_failed go failed]
    exact ⟨first.reaches, fun _ => first.complains rfl⟩
  | stuck s s' a go read stuck =>
    have first := hp s
    rw [read] at first
    rw [many_of_stuck go read stuck]
    exact .done _ first.reaches
  -- a later complaint is on top of what the first round left
  | round s s' a go read less ih =>
    have first := hp s
    rw [read] at first
    rw [many_of_round go read less]
    refine .after first.reaches ⟨ih.reaches, fun none => ?_⟩
    exact ih.complains (Option.map_eq_none_iff.mp none)

end Orderly

/-- A run of an orderly reader is a run of steps. -/
theorem Orderly.run {p : Parse α} {s s' : ParseState} {a : α} (orderly : Orderly s (p s))
    (run : p s = (some a, s')) : s.Reaches s' := by
  have reaches := orderly.reaches
  rwa [run] at reaches

theorem Rounds.reaches {more : ParseState → Bool} {p : Parse α} {s s' : ParseState} {as : List α}
    (rounds : Rounds more p s as s') (orderly : ∀ s, Orderly s (p s)) : s.Reaches s' := by
  induction rounds with
  | stop => exact .refl _
  | stuck _ read _ => exact (orderly _).run read
  | round _ read _ ih => exact ((orderly _).run read).trans ih

end Parse

/-! ## The tokens of operators -/

/-- The kind of the tokens that stand for an operator before an operand. -/
def UnaryOp.kind : UnaryOp → Token.Kind
  | neg => .minus
  | not => .bang

/-- The kind of the tokens that stand for an operator between two operands. -/
def BinaryOp.kind : BinaryOp → Token.Kind
  | add => .plus
  | sub => .minus
  | mul => .asterisk
  | div => .slash
  | eq => .eq
  | ne => .notEq
  | lt => .lt
  | gt => .gt

/-! ## The readers of the grammar -/

namespace Grammar

open Parse

/-! ### The readers that look at the current token -/

section Cases

variable (expr : Precedence → Parse Expr) (s : ParseState)

/-- What an operand is, by the kind of the current token. -/
theorem operand_cases {motive : Option Expr × ParseState → Prop}
    (ident : s.current.kind = .ident → motive (some (.ident s.current.literal), s))
    (int : s.current.kind = .int → motive ((integer s.current : Parse Expr) s))
    (float : s.current.kind = .float →
      motive (some (.float (.ofNumeral s.current.literal.toList)), s))
    (string : s.current.kind = .string → motive (some (.str s.current.literal), s))
    (bool : ∀ b, s.current.kind = (if b then .trueWord else .falseWord) →
      motive (some (.bool b), s))
    (unary : ∀ op : UnaryOp, s.current.kind = op.kind →
      motive ((expr .unary >>= fun e => pure (.unary op e)) s.next))
    (paren : s.current.kind = .leftParen → motive (group expr s))
    (cond : s.current.kind = .ifWord → motive (conditional expr s))
    (fn : s.current.kind = .fnWord → motive (function expr s))
    (array : s.current.kind = .leftBracket →
      motive ((expressions expr .rightBracket >>= fun es => pure (.array es)) s))
    (hash : s.current.kind = .leftBrace → motive ((pairs expr >>= fun ps => pure (.hash ps)) s))
    (other : motive (complain s.current.position (.noOperand s.current.kind) s)) :
    motive (operand expr s) := by
  unfold operand
  rw [bind_current]
  cases kind : s.current.kind
  case ident => exact ident kind
  case int => exact int kind
  case float => exact float kind
  case string => exact string kind
  case trueWord => exact bool true kind
  case falseWord => exact bool false kind
  case bang => exact unary .not kind
  case minus => exact unary .neg kind
  case leftParen => exact paren kind
  case ifWord => exact cond kind
  case fnWord => exact fn kind
  case leftBracket => exact array kind
  case leftBrace => exact hash kind
  -- all other kinds start no operand
  all_goals
    rw [kind] at other
    exact other

/-- What is joined to an expression, by the kind of the current token. -/
theorem joined_cases (left : Expr) {motive : Option Expr × ParseState → Prop}
    (call : s.current.kind = .leftParen →
      motive ((expressions expr .rightParen >>= fun es => pure (.call left es)) s))
    (index : s.current.kind = .leftBracket →
      motive ((subscript expr >>= fun sub => pure (.index left sub)) s))
    (binary : ∀ op : BinaryOp, s.current.kind = op.kind →
      motive ((expr op.precedence >>= fun e => pure (.binary op left e)) s.next))
    (other : s.current.kind.precedence = .lowest → motive (some left, s)) :
    motive (joined expr left s) := by
  unfold joined
  rw [bind_current]
  cases kind : s.current.kind
  case leftParen => exact call kind
  case leftBracket => exact index kind
  case plus => exact binary .add kind
  case minus => exact binary .sub kind
  case asterisk => exact binary .mul kind
  case slash => exact binary .div kind
  case eq => exact binary .eq kind
  case notEq => exact binary .ne kind
  case lt => exact binary .lt kind
  case gt => exact binary .gt kind
  -- all other kinds bind to nothing
  all_goals
    refine other ?_
    rw [kind]
    rfl

/-- What a statement is, by the kind of the current token. -/
theorem statement_cases {motive : Option Stmt × ParseState → Prop}
    (bind : s.current.kind = .letWord →
      motive ((expect .ident >>= fun _ => current >>= fun name => expect .assign >>= fun _ =>
        advance >>= fun _ => expr .lowest >>= fun value => skip .semicolon >>= fun _ =>
          pure (.bind name.literal value)) s))
    (ret : s.current.kind = .returnWord →
      motive ((expr .lowest >>= fun value => skip .semicolon >>= fun _ => pure (.ret value)) s.next))
    (value : s.current.kind ≠ .letWord → s.current.kind ≠ .returnWord →
      motive ((expr .lowest >>= fun value => skip .semicolon >>= fun _ => pure (.expr value)) s)) :
    motive (statement expr s) := by
  unfold statement
  rw [bind_current]
  cases kind : s.current.kind
  case letWord => exact bind kind
  case returnWord => exact ret kind
  all_goals
    refine value ?_ ?_ <;>
    · rw [kind]
      decide

end Cases

/-- Whether the next token binds is read off the token without a step; a semicolon binds no tighter
than anything. -/
theorem bind_binds {β : Type} (p : Precedence) (f : Bool → Parse β) (s : ParseState) :
    (binds p >>= f) s = f (decide (p.rank < s.peek.kind.precedence.rank)) s := by
  show f (decide (s.peek.kind ≠ .semicolon) && decide (p.rank < s.peek.kind.precedence.rank)) s = _
  -- the test for the semicolon decides nothing, since its precedence is the lowest
  by_cases semicolon : s.peek.kind = .semicolon
  · rw [semicolon]
    rfl
  · simp [semicolon]

theorem climb_of_not_binds {room : Nat} {p : Precedence} {left : Expr} {s : ParseState}
    (h : ¬ p.rank < s.peek.kind.precedence.rank) : climb room p left s = (some left, s) := by
  cases room <;> rw [climb, bind_binds] <;> simp [h]

theorem climb_zero {p : Precedence} {left : Expr} {s : ParseState}
    (h : p.rank < s.peek.kind.precedence.rank) :
    climb 0 p left s = (none, s.note s.current.position .nestedTooDeeply) := by
  rw [climb, bind_binds]
  simp [h, tooDeep]

theorem climb_succ {room : Nat} {p : Precedence} {left : Expr} {s : ParseState}
    (h : p.rank < s.peek.kind.precedence.rank) :
    climb (room + 1) p left s =
      (joined (expression room) left >>= fun next => climb room p next) s.next := by
  rw [climb, bind_binds]
  simp [h]

/-! ### The readers are orderly -/

section Parts

variable {expr : Precedence → Parse Expr} (h : ∀ p s, Orderly s (expr p s))
include h

/-- A comma and the expression behind it. -/
theorem comma_round_orderly (s : ParseState) :
    Orderly s ((advance >>= fun _ => advance >>= fun _ => expr .lowest) s) :=
  .bind (.advance s) fun _ s => .bind (.advance s) fun _ s => h _ s

theorem expressions_orderly (close : Token.Kind) (s : ParseState) :
    Orderly s (expressions expr close s) := by
  unfold expressions
  rw [bind_peek]
  split
  · exact .bind (.advance s) fun _ s => .pure _ s
  · refine .bind (.advance s) fun _ s => .bind (h _ s) fun _ s => ?_
    refine .bind (.many (comma_round_orderly h) s) fun _ s => ?_
    exact .bind (.expect _ s) fun _ s => .pure _ s

omit h in
theorem parameters_orderly (s : ParseState) : Orderly s ((parameters : Parse (List String)) s) := by
  unfold parameters
  rw [bind_peek]
  split
  · exact .bind (.advance s) fun _ s => .pure _ s
  · refine .bind (.expect _ s) fun _ s => ?_
    rw [bind_current]
    refine .bind (.many (fun s => ?_) s) fun _ s => .bind (.expect _ s) fun _ s => .pure _ s
    refine .bind (.advance s) fun _ s => .bind (.expect _ s) fun _ s => ?_
    rw [bind_current]
    exact .pure _ s

omit h in
/-- The end of an entry: a comma, unless the closing brace is next. -/
theorem pair_end_orderly (k v : Expr) (s : ParseState) : Orderly s ((peek >>= fun next =>
    if next.kind = .rightBrace then pure (k, v)
    else expect .comma >>= fun _ => pure (k, v)) s) := by
  rw [bind_peek]
  split
  · exact .pure _ s
  · exact .bind (.expect _ s) fun _ s => .pure _ s

theorem pair_orderly (s : ParseState) : Orderly s (pair expr s) := by
  unfold pair
  refine .bind (.advance s) fun _ s => .bind (h _ s) fun k s => ?_
  refine .bind (.expect _ s) fun _ s => .bind (.advance s) fun _ s => ?_
  exact .bind (h _ s) fun v s => pair_end_orderly k v s

theorem pairs_orderly (s : ParseState) : Orderly s (pairs expr s) := by
  unfold pairs
  refine .bind (.many (pair_orderly h) s) fun _ s => ?_
  exact .bind (.expect _ s) fun _ s => .pure _ s

theorem segment_orderly (closing : List Token.Kind) (s : ParseState) :
    Orderly s (segment expr closing s) := by
  unfold segment
  rw [bind_peek]
  split
  · exact .pure _ s
  · exact .bind (.advance s) fun _ s => .bind (h _ s) fun _ s => .pure _ s

/-- The end of a slice: a second colon with the stride, or the closing bracket. -/
theorem slice_end_orderly (start stop : Option Expr) (s : ParseState) :
    Orderly s ((peek >>= fun next =>
      if next.kind = .colon then
        advance >>= fun _ => segment expr [.rightBracket] >>= fun stride =>
          expect .rightBracket >>= fun _ => pure (Subscript.stepped start stop stride)
      else expect .rightBracket >>= fun _ => pure (Subscript.slice start stop)) s) := by
  rw [bind_peek]
  split
  · refine .bind (.advance s) fun _ s => .bind (segment_orderly h _ s) fun _ s => ?_
    exact .bind (.expect _ s) fun _ s => .pure _ s
  · exact .bind (.expect _ s) fun _ s => .pure _ s

theorem sliceFrom_orderly (start : Option Expr) (s : ParseState) :
    Orderly s (sliceFrom expr start s) := by
  unfold sliceFrom
  refine .bind (.advance s) fun _ s => .bind (segment_orderly h _ s) fun stop s => ?_
  exact slice_end_orderly h start stop s

theorem subscript_orderly (s : ParseState) : Orderly s (subscript expr s) := by
  unfold subscript
  rw [bind_peek]
  split
  · exact .bind (.advance s) fun _ s => .pure _ s
  · split
    · exact sliceFrom_orderly h _ s
    · refine .bind (.advance s) fun _ s => .bind (h _ s) fun _ s => ?_
      rw [bind_peek]
      split
      · exact sliceFrom_orderly h _ s
      · exact .bind (.expect _ s) fun _ s => .pure _ s

theorem statement_orderly (s : ParseState) : Orderly s (statement expr s) := by
  refine statement_cases expr s (fun _ => ?_) (fun _ => ?_) (fun _ _ => ?_)
  · refine .bind (.expect _ s) fun _ s => ?_
    rw [bind_current]
    refine .bind (.expect _ s) fun _ s => .bind (.advance s) fun _ s => .bind (h _ s) fun _ s => ?_
    exact .bind (.skip _ s) fun _ s => .pure _ s
  · refine .after (.single (.next s)) (.bind (h _ s.next) fun _ s => ?_)
    exact .bind (.skip _ s) fun _ s => .pure _ s
  · exact .bind (h _ s) fun _ s => .bind (.skip _ s) fun _ s => .pure _ s

omit h in
/-- A round that reads one statement and goes on behind it. -/
def statementRound (expr : Precedence → Parse Expr) : Parse (Option Stmt) :=
  attempt (statement expr) >>= fun st? => advance >>= fun _ => pure st?

omit h in
theorem statementRound_run (expr : Precedence → Parse Expr) (s : ParseState) :
    statementRound expr s = (some (statement expr s).1, (statement expr s).2.next) := rfl

theorem statementRound_orderly (s : ParseState) : Orderly s (statementRound expr s) :=
  .bind (.attempt (statement_orderly h s)) fun _ s => .bind (.advance s) fun _ s => .pure _ s

/-- Such a round reads a token, even if it cannot read a statement. -/
theorem statementRound_remaining_lt {s s' : ParseState} {st? : Option Stmt}
    (some : s.current.kind ≠ .eof) (run : statementRound expr s = (.some st?, s')) :
    s'.remaining < s.remaining := by
  obtain ⟨_, s₁, run₁, run⟩ := bind_eq_some_iff.mp run
  cases run
  -- the statement takes no token back, and going on behind it takes one more
  have suffix := ((statement_orderly h s).attempt.run run₁).ahead_suffix.length_le
  have less := ParseState.next_remaining_lt some
  simp only [ParseState.remaining, ParseState.next_ahead, List.length_tail] at *
  omega

theorem statements_orderly (more : ParseState → Bool) (s : ParseState) :
    Orderly s (statements expr more s) :=
  .bind (.many (statementRound_orderly h) s) fun _ s => .pure _ s

theorem block_orderly (s : ParseState) : Orderly s (block expr s) := by
  unfold block
  exact .bind (.advance s) fun _ s => statements_orderly h _ s

theorem group_orderly (s : ParseState) : Orderly s (group expr s) := by
  unfold group
  refine .bind (.advance s) fun _ s => .bind (h _ s) fun _ s => ?_
  exact .bind (.expect _ s) fun _ s => .pure _ s

/-- What stands behind the first block of a conditional. -/
theorem conditional_end_orderly (test : Expr) (yes : List Stmt) (s : ParseState) :
    Orderly s ((peek >>= fun next =>
      if next.kind = .elseWord then
        advance >>= fun _ => expect .leftBrace >>= fun _ => block expr >>= fun no =>
          pure (Expr.cond test yes (some no))
      else pure (Expr.cond test yes none)) s) := by
  rw [bind_peek]
  split
  · refine .bind (.advance s) fun _ s => .bind (.expect _ s) fun _ s => ?_
    exact .bind (block_orderly h s) fun _ s => .pure _ s
  · exact .pure _ s

theorem conditional_orderly (s : ParseState) : Orderly s (conditional expr s) := by
  unfold conditional
  refine .bind (.expect _ s) fun _ s => .bind (.advance s) fun _ s => .bind (h _ s) fun test s => ?_
  refine .bind (.expect _ s) fun _ s => .bind (.expect _ s) fun _ s => ?_
  exact .bind (block_orderly h s) fun yes s => conditional_end_orderly h test yes s

theorem function_orderly (s : ParseState) : Orderly s (function expr s) := by
  unfold function
  refine .bind (.expect _ s) fun _ s => .bind (parameters_orderly s) fun _ s => ?_
  exact .bind (.expect _ s) fun _ s => .bind (block_orderly h s) fun _ s => .pure _ s

theorem operand_orderly (s : ParseState) : Orderly s (operand expr s) := by
  apply operand_cases expr s
  case int =>
    intro _
    unfold integer
    split
    · exact .pure _ s
    · exact .complainCurrent s _
  case unary => exact fun _ _ => .after (.single (.next s)) (.bind (h _ s.next) fun _ s => .pure _ s)
  case paren => exact fun _ => group_orderly h s
  case cond => exact fun _ => conditional_orderly h s
  case fn => exact fun _ => function_orderly h s
  case array => exact fun _ => .bind (expressions_orderly h _ s) fun _ s => .pure _ s
  case hash => exact fun _ => .bind (pairs_orderly h s) fun _ s => .pure _ s
  case other => exact .complainCurrent s _
  case bool => exact fun _ _ => .pure _ s
  all_goals exact fun _ => .pure _ s

theorem joined_orderly (left : Expr) (s : ParseState) : Orderly s (joined expr left s) := by
  apply joined_cases expr s left
  case call => exact fun _ => .bind (expressions_orderly h _ s) fun _ s => .pure _ s
  case index => exact fun _ => .bind (subscript_orderly h s) fun _ s => .pure _ s
  case binary =>
    exact fun _ _ => .after (.single (.next s)) (.bind (h _ s.next) fun _ s => .pure _ s)
  case other => exact fun _ => .pure _ s

end Parts

/-- Reading an expression and joining to it what follows are orderly, whatever is left of the
levels. -/
theorem expression_climb_orderly (room : Nat) :
    (∀ p s, Orderly s (expression room p s)) ∧ ∀ p left s, Orderly s (climb room p left s) := by
  induction room with
  | zero =>
    -- no level is left: reading complains, and so does joining a token that binds
    refine ⟨fun p s => ?_, fun p left s => ?_⟩
    · exact .complainCurrent s _
    · by_cases binds : p.rank < s.peek.kind.precedence.rank
      · rw [climb_zero binds]
        exact .complainCurrent s .nestedTooDeeply
      · rw [climb_of_not_binds binds]
        exact .pure left s
  | succ room ih =>
    obtain ⟨expr, climbs⟩ := ih
    refine ⟨fun p s => ?_, fun p left s => ?_⟩
    · rw [expression]
      exact .bind (operand_orderly expr s) fun left s => climbs p left s
    · by_cases binds : p.rank < s.peek.kind.precedence.rank
      · rw [climb_succ binds]
        refine .after (.single (.next s)) (.bind (joined_orderly expr left s.next) fun next s => ?_)
        exact climbs p next s
      · rw [climb_of_not_binds binds]
        exact .pure left s

theorem expression_orderly (room : Nat) (p : Precedence) (s : ParseState) :
    Orderly s (expression room p s) := (expression_climb_orderly room).1 p s

theorem climb_orderly (room : Nat) (p : Precedence) (left : Expr) (s : ParseState) :
    Orderly s (climb room p left s) := (expression_climb_orderly room).2 p left s

/-- Statements that cannot be read are left out, so reading statements does not fail. -/
theorem isSome_statements (expr : Precedence → Parse Expr) (more : ParseState → Bool)
    (s : ParseState) : (statements expr more s).1.isSome := by
  have succeeds : (many more (statementRound expr) s).1.isSome := isSome_many (fun _ => rfl) s
  rcases run : many more (statementRound expr) s with ⟨_ | found, s'⟩
  · rw [run] at succeeds
    cases succeeds
  · have read : statements expr more s = (some (found.filterMap id), s') := bind_of_some _ run
    rw [read, Option.isSome_some]

theorem program_orderly (s : ParseState) : Orderly s (program s) :=
  statements_orderly (expression_orderly maxNesting) _ s

end Grammar

end MonkeyLang
