import MonkeyLang.Proofs.Routine
import Mathlib.Logic.Function.Iterate

/-!
# Reading with a counter

The readers of expressions are handed what is left of the levels for nesting.  Here the levels are
counted instead: one counter is raised by every expression that is begun and by everything that is
joined to one, and a call that reads an expression sets it back when it returns.  A reading is taken
moment by moment, with all that waits for a result, so that the calls in progress can be counted.

Whatever happens inside of a call, it returns with the counter as it was when the call was made.  So
the counter never exceeds the levels there are, and it is never less than the number of calls in
progress that were let in.

## Main definitions

* `Focus`, `Pending`: what is being done at a moment, and what waits for its result
* `Moment`, `Moment.next`: a moment of a reading, and the one behind it
* `Moment.calls`, `Moment.admitted`: how many calls that read an expression are in progress, and how
  many of them have passed their first check
* `Moment.Sound`: the counter is in order
* `Moment.Leads`: a run during which some calls stay in progress

## Main results

* `Moment.Sound.next`: the counter stays in order
* `Routine.leads`: a routine gives what it gives without a counter
* `Moment.answers_and_climbs`: so does a call, and it returns with the counter as it was
* `counter_restored`: the counter at every moment of the reading of a text
-/

namespace MonkeyLang

open Grammar

/-! ## Moments of a reading -/

/-- What is being done. -/
inductive Focus : Type → Type 1 where
  /-- A routine begins. -/
  | run {α : Type} (r : Routine α) : Focus α
  /-- Something has ended, with a result or without. -/
  | answer {α : Type} (a? : Option α) : Focus α
  /-- A call to read an expression has been made, when the counter was at `entry`. -/
  | check (entry : Nat) (p : Precedence) : Focus Expr
  /-- The call has read `left`, and looks for what is joined to it. -/
  | climb (entry : Nat) (p : Precedence) (left : Expr) : Focus Expr
  /-- The call returns. -/
  | leave (entry : Nat) (a? : Option Expr) : Focus Expr

/-- What waits for a result. -/
inductive Pending : Type → Type 1 where
  /-- The whole text. -/
  | text : Pending (List Stmt)
  /-- The routine behind another one. -/
  | andThen {α β : Type} (next : α → Routine β) (rest : Pending β) : Pending α
  /-- An attempt. -/
  | attempt {α : Type} (rest : Pending (Option α)) : Pending α
  /-- A repetition, with the number of tokens before the round and the results of those before. -/
  | round {α : Type} (more : ParseState → Bool) (again : Routine α) (before : Nat)
      (found : List α) (rest : Pending (List α)) : Pending α
  /-- A call to read an expression, made when the counter was at `entry`. -/
  | call (entry : Nat) (p : Precedence) (rest : Pending Expr) : Pending Expr

/-- A moment of a reading. -/
structure Moment where
  {α : Type}
  /-- What is being done. -/
  focus : Focus α
  /-- What waits for its result. -/
  pending : Pending α
  /-- The counter. -/
  depth : Nat
  /-- The tokens ahead, and what has been found wrong. -/
  state : ParseState

/-- The first step of a routine. -/
def Routine.begin {α : Type} (r : Routine α) (pending : Pending α) (depth : Nat) (s : ParseState) :
    Moment :=
  match r with
  | done a => ⟨.answer (some a), pending, depth, s⟩
  | current => ⟨.answer (some s.current), pending, depth, s⟩
  | peek => ⟨.answer (some s.peek), pending, depth, s⟩
  | advance => ⟨.answer (some ()), pending, depth, s.next⟩
  | complain position c => ⟨.answer none, pending, depth, s.note position c⟩
  | andThen first next => ⟨.run first, .andThen next pending, depth, s⟩
  | attempt inner => ⟨.run inner, .attempt pending, depth, s⟩
  | many more round =>
    if more s then ⟨.run round, .round more round s.remaining [] pending, depth, s⟩
    else ⟨.answer (some []), pending, depth, s⟩
  | expression p => ⟨.check depth p, pending, depth, s⟩

/-- What is done with a result. -/
def Pending.resume {α : Type} (pending : Pending α) (a? : Option α) (depth : Nat) (s : ParseState) :
    Moment :=
  match pending, a? with
  | text, a? => ⟨.answer a?, .text, depth, s⟩
  | andThen next rest, some a => ⟨.run (next a), rest, depth, s⟩
  | andThen _ rest, none => ⟨.answer none, rest, depth, s⟩
  | attempt rest, a? => ⟨.answer (some a?), rest, depth, s⟩
  | round more again before found rest, some a =>
    if s.remaining < before ∧ more s then
      ⟨.run again, .round more again s.remaining (a :: found) rest, depth, s⟩
    else ⟨.answer (some (a :: found).reverse), rest, depth, s⟩
  | round _ _ _ _ rest, none => ⟨.answer none, rest, depth, s⟩
  | call entry p rest, some left => ⟨.climb entry p left, rest, depth, s⟩
  | call entry _ rest, none => ⟨.leave entry none, rest, depth, s⟩

/-- The next moment.  A call that is let in raises the counter, and so does all that is joined; when
it returns, it sets the counter back. -/
def Moment.next : Moment → Moment
  | ⟨.run r, pending, depth, s⟩ => r.begin pending depth s
  | ⟨.answer a?, pending, depth, s⟩ => pending.resume a? depth s
  | ⟨.check entry p, pending, depth, s⟩ =>
    if maxNesting ≤ depth then
      ⟨.answer none, pending, entry, s.note s.current.position .nestedTooDeeply⟩
    else ⟨.run .operand, .call entry p pending, depth + 1, s⟩
  | ⟨.climb entry p left, pending, depth, s⟩ =>
    if s.peek.kind ≠ .semicolon ∧ p.rank < s.peek.kind.precedence.rank then
      if maxNesting ≤ depth then
        ⟨.leave entry none, pending, depth, s.note s.current.position .nestedTooDeeply⟩
      else ⟨.run (.joined left), .call entry p pending, depth + 1, s.next⟩
    else ⟨.leave entry (some left), pending, depth, s⟩
  | ⟨.leave entry a?, pending, _, s⟩ => ⟨.answer a?, pending, entry, s⟩

/-- A moment of the reading of a text. -/
def Moment.ofText (source : String) (n : Nat) : Moment :=
  Moment.next^[n] ⟨.run .program, .text, 0, .start (scan source)⟩

/-! ## Calls in progress -/

/-- The number of calls that wait for a result. -/
def Pending.calls {α : Type} : Pending α → Nat
  | text => 0
  | andThen _ rest => rest.calls
  | attempt rest => rest.calls
  | round _ _ _ _ rest => rest.calls
  | call _ _ rest => rest.calls + 1

namespace Moment

/-- The number of calls to read an expression that are in progress. -/
def calls : Moment → Nat
  | ⟨.run _, pending, _, _⟩ | ⟨.answer _, pending, _, _⟩ => pending.calls
  | ⟨.check _ _, pending, _, _⟩ | ⟨.climb _ _ _, pending, _, _⟩ | ⟨.leave _ _, pending, _, _⟩ =>
    pending.calls + 1

/-- The number of calls in progress that have passed their first check. -/
def admitted : Moment → Nat
  | ⟨.run _, pending, _, _⟩ | ⟨.answer _, pending, _, _⟩ | ⟨.check _ _, pending, _, _⟩ =>
    pending.calls
  | ⟨.climb _ _ _, pending, _, _⟩ | ⟨.leave _ _, pending, _, _⟩ => pending.calls + 1

end Moment

/-! ## The counter is in order -/

/-- The counter is in order for what waits: without a call it is at zero, and every call has raised
it above where it was. -/
def Pending.Sound {α : Type} : Pending α → (depth : Nat) → Prop
  | text, depth => depth = 0
  | andThen _ rest, depth => rest.Sound depth
  | attempt rest, depth => rest.Sound depth
  | round _ _ _ _ rest, depth => rest.Sound depth
  | call entry _ rest, depth => entry < depth ∧ depth ≤ maxNesting ∧ rest.Sound entry

/-- The counter is in order. -/
def Moment.Sound : Moment → Prop
  | ⟨.run _, pending, depth, _⟩ | ⟨.answer _, pending, depth, _⟩ => pending.Sound depth
  | ⟨.check entry _, pending, depth, _⟩ => depth = entry ∧ pending.Sound entry
  | ⟨.climb entry _ _, pending, depth, _⟩ | ⟨.leave entry _, pending, depth, _⟩ =>
    entry < depth ∧ depth ≤ maxNesting ∧ pending.Sound entry

theorem Pending.Sound.bounds {α : Type} {pending : Pending α} {depth : Nat}
    (sound : pending.Sound depth) :
    pending.calls ≤ depth ∧ depth ≤ maxNesting ∧ (pending.calls = 0 → depth = 0) := by
  induction pending generalizing depth with
  | text =>
    cases sound
    simp [calls]
  | andThen _ rest ih => exact ih sound
  | attempt rest ih => exact ih sound
  | round _ _ _ _ rest ih => exact ih sound
  | call entry p rest ih =>
    obtain ⟨above, le, sound⟩ := sound
    have := (ih sound).1
    simp only [calls]
    omega

/-- The counter is at most at the number of levels and at least at the number of calls that were let
in, at most one more call is in progress, and without a call the counter is at zero. -/
theorem Moment.Sound.bounds {m : Moment} (sound : m.Sound) :
    m.depth ≤ maxNesting ∧ m.admitted ≤ m.depth ∧ m.calls ≤ m.depth + 1 ∧
      (m.calls = 0 → m.depth = 0) := by
  obtain ⟨focus, pending, depth, s⟩ := m
  cases focus with
  | run | answer =>
    have := Pending.Sound.bounds sound
    simp only [calls, admitted]
    omega
  | check =>
    obtain ⟨rfl, sound⟩ := sound
    have := sound.bounds
    simp only [calls, admitted]
    omega
  | climb | leave =>
    obtain ⟨above, le, sound⟩ := sound
    have := sound.bounds
    simp only [calls, admitted]
    omega

theorem Routine.begin_sound {α : Type} (r : Routine α) {pending : Pending α} {depth : Nat}
    (sound : pending.Sound depth) (s : ParseState) : (r.begin pending depth s).Sound := by
  cases r with
  | many more round =>
    rw [begin]
    split
    all_goals exact sound
  | expression p => exact ⟨rfl, sound⟩
  | _ => exact sound

theorem Pending.resume_sound {α : Type} {pending : Pending α} {depth : Nat}
    (sound : pending.Sound depth) (a? : Option α) (s : ParseState) :
    (pending.resume a? depth s).Sound := by
  cases pending with
  | text => exact sound
  | attempt rest => exact sound
  | andThen next rest =>
    cases a?
    all_goals exact sound
  | round more again before found rest =>
    cases a? with
    | none => exact sound
    | some a =>
      rw [resume]
      split
      all_goals exact sound
  | call entry p rest =>
    cases a?
    all_goals exact sound

/-- The counter stays in order. -/
theorem Moment.Sound.next {m : Moment} (sound : m.Sound) : m.next.Sound := by
  obtain ⟨focus, pending, depth, s⟩ := m
  cases focus with
  | run r => exact r.begin_sound sound s
  | answer a? => exact Pending.resume_sound sound a? s
  | check entry p =>
    obtain ⟨rfl, sound⟩ := sound
    rw [Moment.next]
    split
    · exact sound
    · rename_i room
      exact ⟨Nat.lt_succ_self _, Nat.lt_of_not_le room, sound⟩
  | climb entry p left =>
    obtain ⟨above, le, sound⟩ := sound
    rw [Moment.next]
    split
    · split
      · exact ⟨above, le, sound⟩
      · rename_i room
        exact ⟨Nat.lt_succ_of_lt above, Nat.lt_of_not_le room, sound⟩
    · exact ⟨above, le, sound⟩
  | leave entry a? => exact sound.2.2

theorem Moment.ofText_sound (source : String) (n : Nat) : (Moment.ofText source n).Sound := by
  induction n with
  | zero => exact rfl
  | succ n ih =>
    rw [ofText, Function.iterate_succ_apply']
    exact ih.next

/-! ## Runs -/

namespace Moment

/-- The moment at which something has ended. -/
def ended {α : Type} (result : Option α × ParseState) (pending : Pending α) (depth : Nat) :
    Moment := ⟨.answer result.1, pending, depth, result.2⟩

/-- The reading comes from one moment to the other, and at least `floor` calls are in progress all
the way. -/
inductive Leads (floor : Nat) : Moment → Moment → Prop where
  | here {m : Moment} (busy : floor ≤ m.calls) : Leads floor m m
  | next {m m' : Moment} (busy : floor ≤ m.calls) (rest : Leads floor m.next m') : Leads floor m m'

namespace Leads

variable {floor : Nat} {m m' m'' : Moment}

theorem trans (h : Leads floor m m') (h' : Leads floor m' m'') : Leads floor m m'' := by
  induction h with
  | here => exact h'
  | next busy _ ih => exact .next busy (ih h')

theorem mono {floor' : Nat} (le : floor' ≤ floor) (h : Leads floor m m') : Leads floor' m m' := by
  induction h with
  | here busy => exact .here (Nat.le_trans le busy)
  | next busy _ ih => exact .next (Nat.le_trans le busy) ih

/-- The moments of a run, by their number. -/
theorem exists_iterate (h : Leads floor m m') :
    ∃ k, Moment.next^[k] m = m' ∧ ∀ j ≤ k, floor ≤ (Moment.next^[j] m).calls := by
  induction h with
  | here busy =>
    refine ⟨0, rfl, fun j le => ?_⟩
    rw [Nat.le_zero.mp le]
    exact busy
  | next busy _ ih =>
    obtain ⟨k, arrives, all⟩ := ih
    refine ⟨k + 1, arrives, fun j le => ?_⟩
    cases j with
    | zero => exact busy
    | succ j => exact all j (Nat.le_of_succ_le_succ le)

end Leads

/-- A call to read an expression is made at the moment `m` and returns to the moment `m'`: until
then one more call is in progress. -/
def Returns (m m' : Moment) : Prop := ∃ last, Leads (m.calls + 1) m.next last ∧ last.next = m'

/-- Calls made with the counter at `depth` give what `expr` gives, and leave the counter there. -/
def Answers (depth : Nat) (expr : Precedence → Parse Expr) : Prop :=
  ∀ p (pending : Pending Expr) s,
    Returns ⟨.run (.expression p), pending, depth, s⟩ (ended (expr p s) pending depth)

theorem Returns.leads {m m' : Moment} (h : Returns m m') (same : m'.calls = m.calls) :
    Leads m.calls m m' := by
  obtain ⟨last, run, rfl⟩ := h
  have busy : m.calls + 1 ≤ last.calls := by
    obtain ⟨k, rfl, all⟩ := run.exists_iterate
    exact all k (Nat.le_refl k)
  refine .next (Nat.le_refl _) ((run.mono (Nat.le_succ _)).trans ?_)
  exact .next (Nat.le_of_succ_le busy) (.here (Nat.le_of_eq same.symm))

end Moment

open Moment

theorem Moment.ended_round {α : Type} (more : ParseState → Bool) (again : Routine α) (before : Nat)
    (found : List α) (rest : Pending (List α)) (depth : Nat) (a : α) (s : ParseState) :
    (ended (some a, s) (.round more again before found rest) depth).next =
      if s.remaining < before ∧ more s then
        ⟨.run again, .round more again s.remaining (a :: found) rest, depth, s⟩
      else ended (some (a :: found).reverse, s) rest depth := rfl

/-- A repetition gives what it gives without a counter, behind the results that have been found. -/
theorem Routine.many_leads {α : Type} {depth : Nat} {round : Routine α} {p : Parse α}
    (h : ∀ pending s, Leads pending.calls ⟨.run round, pending, depth, s⟩
      (ended (p s) pending depth))
    (more : ParseState → Bool) (pending : Pending (List α)) (s : ParseState) (go : more s = true)
    (found : List α) :
    Leads pending.calls ⟨.run round, .round more round s.remaining found pending, depth, s⟩
      (ended ((Parse.many more p s).1.map (found.reverse ++ ·), (Parse.many more p s).2) pending
        depth) := by
  -- the round waits for its result, and is then done with
  have first (s : ParseState) (found : List α) {m : Moment} (behind : Leads pending.calls
      (ended (p s) (.round more round s.remaining found pending) depth).next m) :
      Leads pending.calls ⟨.run round, .round more round s.remaining found pending, depth, s⟩ m :=
    Leads.trans (h (.round more round s.remaining found pending) s) (.next (Nat.le_refl _) behind)
  induction s using Parse.many_induct more p generalizing found with
  | stop s stop => exact absurd go (Bool.eq_false_iff.mp stop)
  | failed s s' _ failed =>
    refine first s found ?_
    rw [Parse.many_of_failed go failed, failed]
    exact .here (Nat.le_refl _)
  | stuck s s' a _ read stuck =>
    refine first s found ?_
    rw [Parse.many_of_stuck go read stuck, read, ended_round, if_neg fun h => stuck h.1,
      List.reverse_cons]
    exact .here (Nat.le_refl _)
  | round s s' a _ read less ih =>
    refine first s found ?_
    rw [Parse.many_of_round go read less, read, ended_round]
    cases onward : more s' with
    | true =>
      rw [if_pos ⟨less, rfl⟩]
      simpa [Function.comp_def] using ih onward (a :: found)
    | false =>
      rw [if_neg (by simp), Parse.many_of_stop onward, List.reverse_cons]
      exact .here (Nat.le_refl _)

/-- A routine gives what it gives without a counter, and leaves the counter as it was. -/
theorem Routine.leads {depth : Nat} {expr : Precedence → Parse Expr} (answers : Answers depth expr)
    {α : Type} (r : Routine α) (pending : Pending α) (s : ParseState) :
    Leads pending.calls ⟨.run r, pending, depth, s⟩ (ended (r.run expr s) pending depth) := by
  induction r generalizing s with
  | done | current | peek | advance | complain =>
    exact .next (Nat.le_refl _) (.here (Nat.le_refl _))
  | andThen first next ihf ihn =>
    have before := ihf (.andThen next pending) s
    refine .next (Nat.le_refl _) (before.trans (.next (Nat.le_refl _) ?_))
    rw [run]
    rcases ended : first.run expr s with ⟨_ | a, s'⟩
    · rw [Parse.bind_of_none _ ended]
      exact .here (Nat.le_refl _)
    · rw [Parse.bind_of_some _ ended]
      exact ihn a pending s'
  | attempt inner ih =>
    have before := ih (.attempt pending) s
    exact .next (Nat.le_refl _) (before.trans (.next (Nat.le_refl _) (.here (Nat.le_refl _))))
  | many more round ih =>
    refine .next (Nat.le_refl _) ?_
    rw [Moment.next, begin, run]
    split
    · rename_i go
      simpa using Routine.many_leads ih more pending s go []
    · rename_i stop
      rw [Parse.many_of_stop (Bool.eq_false_iff.mpr stop)]
      exact .here (Nat.le_refl _)
  | expression p => exact (answers p pending s).leads rfl

/-! ## Calls -/

namespace Moment

/-- The moment at which a call is about to return. -/
def leaving (entry : Nat) (result : Option Expr × ParseState) (pending : Pending Expr)
    (depth : Nat) : Moment := ⟨.leave entry result.1, pending, depth, result.2⟩

/-- What a call joins with the counter at `depth` is what `climb` joins with `room` levels, wherever
the counter gets to by that. -/
def Climbs (depth room : Nat) : Prop :=
  ∀ entry p left (pending : Pending Expr) s, ∃ depth', Leads (pending.calls + 1)
    ⟨.climb entry p left, pending, depth, s⟩ (leaving entry (climb room p left s) pending depth')

section Next

variable {entry depth : Nat} {p : Precedence} {left : Expr} {pending : Pending Expr}
  {s : ParseState}

theorem check_next (free : ¬ maxNesting ≤ depth) :
    next ⟨.check entry p, pending, depth, s⟩ =
      ⟨.run .operand, .call entry p pending, depth + 1, s⟩ := if_neg free

theorem climb_next (binds : p.rank < s.peek.kind.precedence.rank) :
    next ⟨.climb entry p left, pending, depth, s⟩ =
      if maxNesting ≤ depth then
        leaving entry (none, s.note s.current.position .nestedTooDeeply) pending depth
      else ⟨.run (.joined left), .call entry p pending, depth + 1, s.next⟩ := by
  have real : s.peek.kind ≠ .semicolon := by
    intro semicolon
    rw [semicolon] at binds
    exact Nat.not_lt_zero _ binds
  exact if_pos ⟨real, binds⟩

theorem climb_next_of_not_binds (loose : ¬ p.rank < s.peek.kind.precedence.rank) :
    next ⟨.climb entry p left, pending, depth, s⟩ = leaving entry (some left, s) pending depth :=
  if_neg fun h => loose h.2

end Next

/-- Behind an operand, or behind what has been joined, a call goes on to join. -/
theorem Climbs.leads {depth room : Nat} (climbs : Climbs depth room) (read : Parse Expr)
    (s : ParseState) (entry : Nat) (p : Precedence) (pending : Pending Expr) :
    ∃ depth', Leads (pending.calls + 1) (ended (read s) (.call entry p pending) depth)
      (leaving entry ((read >>= fun left => climb room p left) s) pending depth') := by
  rcases run : read s with ⟨_ | left, s'⟩
  · rw [Parse.bind_of_none _ run]
    exact ⟨depth, .next (Nat.le_refl _) (.here (Nat.le_refl _))⟩
  · rw [Parse.bind_of_some _ run]
    obtain ⟨depth', joins⟩ := climbs entry p left pending s'
    exact ⟨depth', .next (Nat.le_refl _) joins⟩

/-- Reading and joining with the counter, and with what is left of the levels.  A call that is let
in has one level less left for all that it reads, and so has the rest of it behind each token that
joins. -/
theorem answers_and_climbs {depth room : Nat} (levels : depth + room = maxNesting) :
    Answers depth (expression room) ∧ Climbs depth room := by
  induction room generalizing depth with
  | zero =>
    have full : maxNesting ≤ depth := Nat.le_of_eq levels.symm
    refine ⟨fun p pending s => ?_, fun entry p left pending s => ⟨depth, ?_⟩⟩
    · exact ⟨_, .here (Nat.le_refl _), if_pos full⟩
    · refine .next (Nat.le_refl _) ?_
      by_cases binds : p.rank < s.peek.kind.precedence.rank
      · rw [climb_next binds, if_pos full, climb_zero binds]
        exact .here (Nat.le_refl _)
      · rw [climb_next_of_not_binds binds, climb_of_not_binds binds]
        exact .here (Nat.le_refl _)
  | succ room ih =>
    have fewer : depth + 1 + room = maxNesting := by omega
    have free : ¬ maxNesting ≤ depth := by omega
    obtain ⟨answers, climbs⟩ := ih fewer
    refine ⟨fun p pending s => ?_, fun entry p left pending s => ?_⟩
    · -- the operand, then all that is joined to it; the last step sets the counter back
      have first := Routine.leads answers .operand (.call depth p pending) s
      rw [Routine.run_operand] at first
      obtain ⟨depth', joins⟩ := climbs.leads (operand (expression room)) s depth p pending
      refine ⟨leaving depth (expression (room + 1) p s) pending depth', ?_, rfl⟩
      refine .next (Nat.le_refl _) ?_
      show Leads _ (next ⟨.check depth p, pending, depth, s⟩) _
      rw [check_next free, expression]
      exact first.trans joins
    · by_cases binds : p.rank < s.peek.kind.precedence.rank
      · -- the call stays in progress, and its counter one higher: `entry` is kept all the way
        have first := Routine.leads answers (.joined left) (.call entry p pending) s.next
        rw [Routine.run_joined] at first
        obtain ⟨depth', joins⟩ :=
          climbs.leads (joined (expression room) left) s.next entry p pending
        refine ⟨depth', .next (Nat.le_refl _) ?_⟩
        rw [climb_next binds, if_neg free, climb_succ binds]
        exact first.trans joins
      · refine ⟨depth, .next (Nat.le_refl _) ?_⟩
        rw [climb_next_of_not_binds binds, climb_of_not_binds binds]
        exact .here (Nat.le_refl _)

end Moment

/-! ## Whole texts -/

theorem Moment.ofText_add (source : String) (n k : Nat) :
    ofText source (n + k) = next^[k] (ofText source n) := by
  rw [Nat.add_comm, ofText, Function.iterate_add_apply]
  rfl

/-- The reading with the counter comes to the program of the text, with its diagnostics. -/
theorem Moment.ofText_ends (source : String) :
    ∃ n statements s, ofText source n = ended (some statements, s) .text 0 ∧
      parse source = ⟨⟨statements⟩, s.diagnostics⟩ := by
  obtain ⟨answers, -⟩ := answers_and_climbs (Nat.zero_add maxNesting)
  have run := Routine.leads answers .program .text (.start (scan source))
  obtain ⟨n, arrives, -⟩ := run.exists_iterate
  have found : (program (.start (scan source))).1.isSome := isSome_statements _ _ _
  rw [Routine.run_program] at arrives
  rw [parse, TokenStream.parse]
  rcases read : program (.start (scan source)) with ⟨_ | statements, s⟩
  · rw [read] at found
    cases found
  · rw [read] at arrives
    exact ⟨n, statements, s, arrives, rfl⟩

/-- **The counter is always set back.**  The reading of a text with a counter comes to its program,
with its diagnostics.  At every moment of it the counter is at most at the number of levels and at
least at the number of calls in progress that have passed their first check, and at most one more
call is in progress than there are levels.  Without a call in progress, as where a statement of the
text itself begins, the counter is at zero.  And every call returns: until then more calls are in
progress than when it was made, and then the counter is as it was, whatever the call has come to. -/
theorem counter_restored (source : String) :
    (∃ n statements s, Moment.ofText source n = ended (some statements, s) .text 0 ∧
      parse source = ⟨⟨statements⟩, s.diagnostics⟩) ∧
    ∀ n,
      let m := Moment.ofText source n
      m.depth ≤ maxNesting ∧ m.admitted ≤ m.depth ∧ m.calls ≤ maxNesting + 1 ∧
      (m.calls = 0 → m.depth = 0) ∧
      ∀ p pending depth s, m = ⟨.run (.expression p), pending, depth, s⟩ → ∃ k,
        (∀ j, 0 < j → j < k → m.calls < (Moment.ofText source (n + j)).calls) ∧
        Moment.ofText source (n + k) =
          ended (expression (maxNesting - depth) p s) pending depth := by
  refine ⟨ofText_ends source, fun n => ?_⟩
  intro m
  obtain ⟨le, admitted, calls, none⟩ := (ofText_sound source n).bounds
  refine ⟨le, admitted, Nat.le_trans calls (Nat.succ_le_succ le), none, ?_⟩
  intro p pending depth s call
  have depth_le : depth ≤ maxNesting := by
    have same : m.depth = depth := by rw [call]
    exact same ▸ le
  obtain ⟨answers, -⟩ := answers_and_climbs (Nat.add_sub_of_le depth_le)
  obtain ⟨last, run, returned⟩ := answers p pending s
  rw [← call] at run
  obtain ⟨k, arrives, busy⟩ := run.exists_iterate
  -- one step makes the call, `k` steps later it is about to return, and one more step returns
  refine ⟨k + 2, fun j pos lt => ?_, ?_⟩
  · obtain ⟨j, rfl⟩ := Nat.exists_eq_add_of_lt pos
    rw [ofText_add, Nat.zero_add, Function.iterate_succ_apply]
    exact busy j (by omega)
  · rw [ofText_add, Function.iterate_succ_apply', Function.iterate_succ_apply, arrives]
    exact returned

end MonkeyLang
