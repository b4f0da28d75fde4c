import MonkeyLang.Proofs.BlockAcceptance
import MonkeyLang.Proofs.ReadingInvariant
import MonkeyLang.Proofs.Scanning

/-!
# Readings come to an end

A repetition of a reader goes on as long as its condition holds and its rounds succeed.  Taken by
itself it could go on for ever, since the end token can be read for ever.  `Parse.Loops` is the
repetition without any bound: it relates a state to an outcome only if finitely many rounds lead
there.  `Parse.many` stops besides at a round that reads no token.  In the grammar there is no such
round: each repetition has a token that every round has to read, a comma, a colon or the first token
of a statement, also if the text ends in the middle of the round.  So the repetitions of the grammar
come to an end by themselves.

The other way to go on for ever is to read expressions inside expressions.  Each of them takes a
level, and so does each operator, call or subscript that is joined, and a reading without a level
complains.  With more levels than tokens there is no such complaint: whatever is read inside or
joined starts behind a token, so the tokens come to an end before the levels do.

## Main definitions

* `Parse.Loops`: repetition without a bound
* `Grammar.IsLoop`: the repetitions of the grammar
* `unexhausted`: the invariant that levels do not run out

## Main results

* `Parse.loops_iff`: where every round reads a token, repetition needs no bound
* `Grammar.IsLoop.progresses`: the rounds of the grammar read tokens
* `parse_terminates`: readings end by themselves, at the end of the text
-/

namespace MonkeyLang

open ParseState

/-! ## Repetitions -/

namespace Parse

variable {α : Type} {more : ParseState → Bool} {p : Parse α} {s s' : ParseState}
  {result : Option (List α) × ParseState}

/-- A repetition of `p` as long as `more` holds leads from a state to an outcome: it stops where
`more` does not hold, and fails with the first round that fails. -/
inductive Loops (more : ParseState → Bool) (p : Parse α) :
    ParseState → Option (List α) × ParseState → Prop where
  | stop {s : ParseState} (stop : more s = false) : Loops more p s (some [], s)
  | failed {s s' : ParseState} (go : more s = true) (failed : p s = (none, s')) :
      Loops more p s (none, s')
  | round {s s' s'' : ParseState} {a : α} {as? : Option (List α)} (go : more s = true)
      (read : p s = (some a, s')) (others : Loops more p s' (as?, s'')) :
      Loops more p s (as?.map (a :: ·), s'')

/-- Every round that succeeds reads a token. -/
def Progresses (more : ParseState → Bool) (p : Parse α) : Prop :=
  ∀ s a s', more s = true → p s = (some a, s') → s'.remaining < s.remaining

/-- Where every round reads a token, the repetition comes to an end by itself. -/
theorem loops_many (progress : Progresses more p) (s : ParseState) :
    Loops more p s (many more p s) := by
  induction s using many_induct more p with
  | stop s stop =>
    rw [many_of_stop stop]
    exact .stop stop
  | failed s s' go failed =>
    rw [many_of_failed go failed]
    exact .failed go failed
  -- there is no round that reads no token
  | stuck s s' a go read stuck => exact absurd (progress s a s' go read) stuck
  | round s s' a go read less ih =>
    rw [many_of_round go read less]
    exact .round go read ih

/-- A repetition has one outcome at most. -/
theorem Loops.eq_many (progress : Progresses more p) (loops : Loops more p s result) :
    many more p s = result := by
  induction loops with
  | stop stop => exact many_of_stop stop
  | failed go failed => exact many_of_failed go failed
  | round go read _ ih => rw [many_of_round go read (progress _ _ _ go read), ih]

theorem loops_iff (progress : Progresses more p) :
    Loops more p s result ↔ many more p s = result := by
  constructor
  · exact Loops.eq_many progress
  · rintro rfl
    exact loops_many progress s

/-- A repetition that succeeds stops where its condition does not hold. -/
theorem Loops.more_eq_false {as : List α} (loops : Loops more p s (some as, s')) :
    more s' = false := by
  generalize outcome : (some as, s') = result at loops
  induction loops generalizing as with
  | stop stop =>
    cases outcome
    exact stop
  | failed => cases outcome
  | @round _ _ s'' a as? _ _ _ ih =>
    obtain ⟨found, rfl⟩ := Prod.mk.inj outcome
    obtain ⟨as, rfl, -⟩ := Option.map_eq_some_iff.mp found.symm
    exact ih rfl

end Parse

/-! ## The repetitions of the grammar -/

namespace Grammar

open Parse

variable {expr : Precedence → Parse Expr}

/-- The repetitions of the grammar, with their conditions and their rounds. -/
inductive IsLoop (expr : Precedence → Parse Expr) :
    {α : Type} → (ParseState → Bool) → Parse α → Prop where
  /-- The statements of a text. -/
  | program : IsLoop expr (fun s => s.current.kind ≠ .eof) (statementRound expr)
  /-- The statements of a block. -/
  | block : IsLoop expr (fun s => s.current.kind ≠ .rightBrace && s.current.kind ≠ .eof)
      (statementRound expr)
  /-- The entries of a hash literal. -/
  | entries : IsLoop expr (fun s => s.peek.kind ≠ .rightBrace) (pair expr)
  /-- The names of parameters, behind the first. -/
  | names : IsLoop expr (fun s => s.peek.kind = .comma) do
      advance
      expect .ident
      return (← current).literal
  /-- The expressions of a list, behind the first. -/
  | items : IsLoop expr (fun s => s.peek.kind = .comma) do
      advance
      advance
      expr .lowest

theorem names_progresses : Progresses (fun s => s.peek.kind = .comma)
    (advance >>= fun _ => expect .ident >>= fun _ => current >>= fun name => pure name.literal) := by
  intro s name s' go run
  have comma : s.peek.kind = .comma := of_decide_eq_true go
  rw [bind_advance] at run
  obtain ⟨_, s₁, ident, run⟩ := bind_eq_some_iff.mp run
  obtain ⟨-, rfl⟩ := expect_eq_some_iff.mp ident
  cases run
  exact next_next_remaining_lt comma nofun

theorem items_progresses (orderly : ∀ p s, Orderly s (expr p s)) :
    Progresses (fun s => s.peek.kind = .comma)
      (advance >>= fun _ => advance >>= fun _ => expr .lowest) := by
  intro s e s' go run
  have comma : s.peek.kind = .comma := of_decide_eq_true go
  have short : s'.remaining ≤ s.next.next.remaining := ((orderly _ _).run run).remaining_le
  exact Nat.lt_of_le_of_lt short (next_next_remaining_lt comma nofun)

/-- Each round of a repetition of the grammar reads a token, if it does not fail. -/
theorem IsLoop.progresses (orderly : ∀ p s, Orderly s (expr p s)) {α : Type}
    {more : ParseState → Bool} {round : Parse α} (loop : IsLoop expr more round) :
    Progresses more round := by
  cases loop with
  | program => exact fun s _ _ go run => statementRound_remaining_lt orderly (of_decide_eq_true go) run
  | block =>
    intro s _ _ go run
    simp only [Bool.and_eq_true, decide_eq_true_eq] at go
    exact statementRound_remaining_lt orderly go.2 run
  | entries => exact fun _ _ _ _ run => pair_remaining_lt orderly run
  | names => exact names_progresses
  | items => exact items_progresses orderly

end Grammar

/-! ## Levels -/

/-- Texts that start differently are different. -/
theorem append_ne_of_take_ne {text other : String} (rest : String) (n : Nat)
    (long : n ≤ text.toList.length) (differ : text.toList.take n ≠ other.toList.take n) :
    text ++ rest ≠ other := by
  rintro rfl
  rw [String.toList_append, List.take_append_of_le_length long] at differ
  exact differ rfl

/-- The complaint about nesting is worded like no other. -/
theorem Complaint.message_ne {c : Complaint} (other : c ≠ .nestedTooDeeply) :
    c.message ≠ Complaint.nestedTooDeeply.message := by
  cases c with
  | nestedTooDeeply => exact absurd rfl other
  | noOperand kind =>
    show "no prefix parse function for " ++ kind.name ++ " found" ≠ "expression nested too deeply"
    rw [String.append_assoc]
    exact append_ne_of_take_ne _ 4 (by decide +kernel) (by decide +kernel)
  | integerTooLarge literal =>
    show "could not parse " ++ literal ++
      " as integer: number too large to fit in target type" ≠ "expression nested too deeply"
    rw [String.append_assoc]
    exact append_ne_of_take_ne _ 4 (by decide +kernel) (by decide +kernel)
  | unexpected due found =>
    show "expecting token " ++ due.name ++ ", but got " ++ found.kind.name ++ " with literal " ++
      found.literal ++ " instead" ≠ "expression nested too deeply"
    simp only [String.append_assoc]
    exact append_ne_of_take_ne _ 4 (by decide +kernel) (by decide +kernel)

theorem ParseState.not_tooDeep_note {s : ParseState} {c : Complaint} (fine : ¬ s.TooDeep)
    (other : c ≠ .nestedTooDeeply) (position : Position) : ¬ (s.note position c).TooDeep := by
  rintro ⟨d, mem, message⟩
  rcases List.mem_cons.mp mem with rfl | mem
  · exact Complaint.message_ne other message
  · exact fine ⟨d, mem, message⟩

/-- With more levels than tokens, levels do not run out: without a level there is no token, and
nothing to read or to join. -/
def unexhausted : ReadingInvariant where
  Going room s := s.remaining < room ∧ ¬ s.TooDeep
  Failed room s := s.remaining < room ∧ ¬ s.TooDeep
  going_succ h := ⟨Nat.lt_succ_of_lt h.1, h.2⟩
  failed_succ h := ⟨Nat.lt_succ_of_lt h.1, h.2⟩
  next {_ s} h := ⟨Nat.lt_of_le_of_lt (Reaches.single (.next s)).remaining_le h.1, h.2⟩
  inside {room s} h some := by
    refine ⟨?_, h.2⟩
    have pos : 0 < s.ahead.length := List.length_pos_iff.mpr some
    have lt := h.1
    simp only [remaining, next_ahead, List.length_tail] at lt ⊢
    omega
  noteCurrent h other := ⟨h.1, not_tooDeep_note h.2 other _⟩
  notePeek h other := ⟨h.1, not_tooDeep_note h.2 other _⟩
  resume {_ s} h := ⟨Nat.lt_of_le_of_lt (Reaches.single (.next s)).remaining_le h.1, h.2⟩
  tooDeep h := absurd h.1 (Nat.not_lt_zero _)
  tooDeepToJoin {s} h real := by
    have none : s.ahead = [] := List.length_eq_zero_iff.mp (Nat.lt_one_iff.mp h.1)
    exact absurd (by simp [peek, none, Token.finish]) real

/-! ## Whole texts -/

open Parse Grammar

/-- With more levels than tokens there is no complaint about nesting. -/
theorem Grammar.not_tooDeep_expression {room : Nat} (p : Precedence) {s : ParseState}
    (enough : s.remaining < room) (fine : ¬ s.TooDeep) : ¬ (expression room p s).2.TooDeep := by
  have kept := ReadingInvariant.expression_ends (I := unexhausted) p ⟨enough, fine⟩
  rcases kept.state with going | failed
  · exact going.2
  · exact failed.2

/-- The statements of a text are read up to its end. -/
theorem Grammar.program_loops {s : ParseState} (closed : s.Sealed) :
    ∃ found s', Loops (fun s => s.current.kind ≠ .eof) (statementRound (expression maxNesting)) s
        (some found, s') ∧
      program s = (some (found.filterMap id), s') ∧ s'.current.kind = .eof ∧ s'.ahead = [] := by
  have loops := loops_many (IsLoop.program.progresses (expression_orderly maxNesting)) s
  have succeeds : (many (fun s => s.current.kind ≠ .eof) (statementRound (expression maxNesting))
      s).1.isSome := isSome_many (fun _ => rfl) s
  rcases run : many (fun s => s.current.kind ≠ .eof) (statementRound (expression maxNesting)) s
    with ⟨_ | found, s'⟩ <;> rw [run] at loops succeeds
  -- statements that cannot be read are left out, so there is no failure
  · cases succeeds
  · have read : program s = (some (found.filterMap id), s') := bind_of_some _ run
    have finish : s'.current.kind = .eof := by simpa using loops.more_eq_false
    have closed' : s'.Sealed := closed.of_reaches ((program_orderly s).run read)
    exact ⟨found, s', loops, read, finish, closed'.ahead_eq_nil finish⟩

/-- **Reading comes to an end by itself, at the end of the text.**  The statements of any text are
read in finitely many rounds, up to the end token, with no token left.  Every round of a repetition
of the grammar reads a token or fails, so no repetition needs a bound.  And with more levels than
tokens no reading runs out of levels, so nothing but the tokens bounds the expressions that are read
inside one another, or joined. -/
theorem parse_terminates (source : String) :
    (∃ found s, Loops (fun s => s.current.kind ≠ .eof) (statementRound (expression maxNesting))
        (.start (scan source)) (some found, s) ∧
      parse source = ⟨⟨found.filterMap id⟩, s.diagnostics⟩ ∧
      s.current.kind = .eof ∧ s.ahead = []) ∧
    (∀ room (α : Type) more (round : Parse α), IsLoop (expression room) more round →
      Progresses more round ∧ ∀ s result, Loops more round s result ↔ many more round s = result) ∧
    ∀ room p s, s.remaining < room → ¬ s.TooDeep → ¬ (expression room p s).2.TooDeep := by
  refine ⟨?_, fun room α more round loop => ?_, fun room p s => not_tooDeep_expression p⟩
  · obtain ⟨found, s, loops, read, finish, none⟩ :=
      program_loops (s := .start (scan source)) fun _ => kind_ne_eof_of_mem_scan
    refine ⟨found, s, loops, ?_, finish, none⟩
    rw [parse, TokenStream.parse, read]
    rfl
  · have progress := loop.progresses (expression_orderly room)
    exact ⟨progress, fun s result => loops_iff progress⟩

end MonkeyLang
