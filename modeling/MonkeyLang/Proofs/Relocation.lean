import MonkeyLang.Proofs.Reader

/-!
# Readings in other surroundings

A reader decides by the kinds and the literals of the two tokens in view.  Their places go into
complaints and nowhere else, and the tokens further on are not looked at.  So a reading can be
carried over to other surroundings: if the states of one reading correspond to states with the same
tokens in view, up to their places, then from the corresponding state the reader gives the same
result and ends in the corresponding state.

A `Relocation` is such a correspondence.  It need not hold of all states, since the end of the
tokens can come into view; what has been read up to a state where it holds is carried over.  Two
instances are used: the same tokens with others behind them, as long as the end of the first is out
of view, and the same tokens some lines further down.

## Main definitions

* `Relocation`: a correspondence of states that keeps what is in view
* `Relocation.Carries`: what a reader does in a state, another does in the corresponding one
* `Relocation.before`: more tokens behind those that are there
* `Relocation.below`: all places some lines further down

## Main results

* `Relocation.Carries.bind`, `Relocation.Carries.many`: carrying over composes
* `Grammar.expression_carries`, `Grammar.front_carries`, `Grammar.program_carries`: the readers of
  the grammar are carried over by every relocation
-/

namespace MonkeyLang

/-! ## Relocations -/

/-- The second token is the first one at another place. -/
structure Token.Moved (place : Position → Position) (t t' : Token) : Prop where
  kind : t'.kind = t.kind
  literal : t'.literal = t.literal
  position : t'.position = place t.position

/-- The token at another place. -/
def Token.moveTo (place : Position → Position) (t : Token) : Token :=
  ⟨t.kind, t.literal, place t.position⟩

theorem Token.moveTo_moved (place : Position → Position) (t : Token) :
    t.Moved place (t.moveTo place) := ⟨rfl, rfl, rfl⟩

/-- A correspondence between states of readers, with the same tokens in view up to their places. -/
structure Relocation where
  /-- Where a place is moved. -/
  place : Position → Position
  /-- The state that corresponds to a state. -/
  state : ParseState → ParseState
  /-- The states of which the correspondence holds. -/
  Valid : ParseState → Prop
  /-- It holds of all states on the way to one of which it holds. -/
  valid_of_reaches {s t : ParseState} : s.Reaches t → Valid t → Valid s
  /-- The current token is the same. -/
  current {s : ParseState} : Valid s → s.current.Moved place (state s).current
  /-- The token behind it is the same. -/
  peek {s : ParseState} : Valid s → s.peek.Moved place (state s).peek
  /-- Going to the next token can be done on either side. -/
  next {s : ParseState} : Valid s.next → (state s).next = state s.next
  /-- So can complaining. -/
  note (s : ParseState) (position : Position) (c : Complaint) :
    (state s).note (place position) c = state (s.note position c)
  /-- On both sides the same readings make progress. -/
  remaining (s t : ParseState) :
    (state t).remaining < (state s).remaining ↔ t.remaining < s.remaining

namespace Relocation

open Parse

variable {α β : Type}

/-- What `p` does in the state `s` is orderly, and `q` does the same in the corresponding state, if
the correspondence holds to the end. -/
structure Carries (r : Relocation) (s : ParseState) (p q : Parse α) : Prop where
  orderly : Orderly s (p s)
  run : r.Valid (p s).2 → q (r.state s) = ((p s).1, r.state (p s).2)

namespace Carries

variable {r : Relocation} {s : ParseState} {p q : Parse α} {f g : α → Parse β}

theorem pure (a : α) : r.Carries s (pure a) (pure a) := ⟨.pure a s, fun _ => rfl⟩

theorem advance : r.Carries s advance advance where
  orderly := .advance s
  run valid := by rw [advance_run, advance_run, r.next valid]

theorem note_congr {position : Position} {c c' : Complaint} (same : c'.message = c.message) :
    s.note position c' = s.note position c := by
  unfold ParseState.note
  rw [same]

/-- A complaint about a token that is moved, in the same words. -/
theorem complain_run {t t' : Token} (seen : t.Moved r.place t') {c c' : Complaint}
    (same : c'.message = c.message) :
    (complain t'.position c' : Parse α) (r.state s) = (none, r.state (s.note t.position c)) := by
  rw [Parse.complain_run, seen.position, note_congr same, r.note]

theorem complainCurrent {t : Token} (seen : s.current.Moved r.place t) {c c' : Complaint}
    (same : c'.message = c.message) :
    r.Carries s (complain s.current.position c : Parse α) (complain t.position c') :=
  ⟨.complainCurrent s c, fun _ => complain_run seen same⟩

theorem complainPeek {t : Token} (seen : s.peek.Moved r.place t) {c c' : Complaint}
    (same : c'.message = c.message) :
    r.Carries s (complain s.peek.position c : Parse α) (complain t.position c') :=
  ⟨.complainPeek s c, fun _ => complain_run seen same⟩

/-- A reading that is carried over goes through states of which the correspondence holds. -/
theorem valid (h : r.Carries s p q) (valid : r.Valid (p s).2) : r.Valid s :=
  r.valid_of_reaches h.orderly.reaches valid

theorem bind (hp : r.Carries s p q) (hf : ∀ a s', r.Carries s' (f a) (g a)) :
    r.Carries s (p >>= f) (q >>= g) where
  orderly := hp.orderly.bind fun a s' => (hf a s').orderly
  run valid := by
    have run := hp.run
    rcases h : p s with ⟨_ | a, s'⟩ <;> rw [h] at run
    · rw [bind_of_none f h] at valid ⊢
      exact bind_of_none g (run valid)
    · rw [bind_of_some f h] at valid ⊢
      -- the second reader ends where the correspondence holds, so it holds between the two
      rw [bind_of_some g (run ((hf a s').valid valid))]
      exact (hf a s').run valid

/-- The current token can be used up to its place. -/
theorem current {f g : Token → Parse β}
    (h : ∀ t, s.current.Moved r.place t → r.Carries s (f s.current) (g t)) :
    r.Carries s (Parse.current >>= f) (Parse.current >>= g) := by
  have here := h _ (s.current.moveTo_moved r.place)
  exact ⟨here.orderly, fun valid => (h _ (r.current (here.valid valid))).run valid⟩

/-- The token behind the current one can be used up to its place. -/
theorem peek {f g : Token → Parse β}
    (h : ∀ t, s.peek.Moved r.place t → r.Carries s (f s.peek) (g t)) :
    r.Carries s (Parse.peek >>= f) (Parse.peek >>= g) := by
  have here := h _ (s.peek.moveTo_moved r.place)
  exact ⟨here.orderly, fun valid => (h _ (r.peek (here.valid valid))).run valid⟩

theorem unexpected_congr (due : Token.Kind) {t t' : Token} (seen : t.Moved r.place t') :
    (Complaint.unexpected due t').message = (Complaint.unexpected due t).message := by
  obtain ⟨kind, literal, position⟩ := t
  obtain ⟨kind', literal', position'⟩ := t'
  obtain ⟨rfl, rfl, -⟩ := seen
  rfl

theorem expect (due : Token.Kind) : r.Carries s (expect due) (expect due) := by
  refine .peek fun next seen => ?_
  rw [seen.kind]
  split
  · exact .advance
  · exact .complainPeek seen (unexpected_congr due seen)

theorem skip (kind : Token.Kind) : r.Carries s (skip kind) (skip kind) := by
  refine .peek fun next seen => ?_
  rw [seen.kind]
  split
  · exact .advance
  · exact .pure ()

theorem attempt (hp : r.Carries s p q) : r.Carries s (attempt p) (attempt q) where
  orderly := hp.orderly.attempt
  run valid := by rw [attempt_run, attempt_run, hp.run valid]

/-- A repetition is carried over if its rounds are, and the condition depends on what is in view. -/
theorem many {more : ParseState → Bool} (hp : ∀ s, r.Carries s p q)
    (same : ∀ s, r.Valid s → more (r.state s) = more s) (s : ParseState) :
    r.Carries s (many more p) (many more q) := by
  have orderly (s : ParseState) : Orderly s (Parse.many more p s) :=
    .many (fun s => (hp s).orderly) s
  refine ⟨orderly s, ?_⟩
  -- the rounds on both sides are the same, since the correspondence holds on the way to the end
  have round {s s' : ParseState} {a : α} (read : p s = (some a, s')) (valid : r.Valid s') :
      r.Valid s ∧ q (r.state s) = (some a, r.state s') := by
    have first := hp s
    have run := first.run
    rw [read] at run
    exact ⟨first.valid (read ▸ valid), run valid⟩
  induction s using many_induct more p with
  | stop s stop =>
    rw [many_of_stop stop]
    intro valid
    exact many_of_stop ((same s valid).trans stop)
  | failed s s' go failed =>
    have first := hp s
    have run := first.run
    rw [many_of_failed go failed]
    intro valid
    have here : r.Valid s := first.valid (failed ▸ valid)
    rw [failed] at run
    exact many_of_failed ((same s here).trans go) (run valid)
  | stuck s s' a go read stuck =>
    rw [many_of_stuck go read stuck]
    intro valid
    obtain ⟨here, run⟩ := round read valid
    exact many_of_stuck ((same s here).trans go) run (mt (r.remaining s s').mp stuck)
  | round s s' a go read less ih =>
    rw [many_of_round go read less]
    intro valid
    obtain ⟨here, run⟩ := round read (r.valid_of_reaches (orderly s').reaches valid)
    rw [many_of_round ((same s here).trans go) run ((r.remaining s s').mpr less), ih valid]

end Carries

end Relocation

/-! ## The readers of the grammar -/

/-- The laws of composition. -/
instance : LawfulMonad Parse := by
  refine LawfulMonad.mk' Parse (fun p => ?_) (fun _ _ => rfl) (fun p f g => ?_) <;> funext s
  · show (p >>= pure) s = p s
    rcases h : p s with ⟨_ | a, s'⟩
    · exact Parse.bind_of_none pure h
    · exact Parse.bind_of_some pure h
  · rcases h : p s with ⟨_ | a, s'⟩
    · rw [Parse.bind_of_none g (Parse.bind_of_none f h), Parse.bind_of_none _ h]
    · have first : (p >>= f) s = f a s' := Parse.bind_of_some f h
      rw [Parse.bind_of_some _ h]
      rcases h' : f a s' with ⟨_ | b, s''⟩ <;> rw [h'] at first
      · rw [Parse.bind_of_none g first, Parse.bind_of_none g h']
      · rw [Parse.bind_of_some g first, Parse.bind_of_some g h']

namespace Grammar

open Parse

/-- A statement without the semicolon behind it. -/
def front (expr : Precedence → Parse Expr) : Parse Stmt := do
  match (← current).kind with
  | .letWord =>
    expect .ident
    let name ← current
    expect .assign
    advance
    return .bind name.literal (← expr .lowest)
  | .returnWord =>
    advance
    return .ret (← expr .lowest)
  | _ => return .expr (← expr .lowest)

/-- A statement is its front and the semicolon behind it, if there is one. -/
theorem statement_eq_front (expr : Precedence → Parse Expr) :
    statement expr = front expr >>= fun st => skip .semicolon >>= fun _ => pure st := by
  unfold statement front
  rw [bind_assoc]
  refine congrArg (current >>= ·) (funext fun token => ?_)
  cases token.kind <;> simp only [bind_assoc, pure_bind]

section Parts

variable {r : Relocation} {expr : Precedence → Parse Expr}
  (h : ∀ p s, r.Carries s (expr p) (expr p)) {s : ParseState}

include h

theorem expressions_carries (close : Token.Kind) :
    r.Carries s (expressions expr close) (expressions expr close) := by
  refine .peek fun next seen => ?_
  rw [seen.kind]
  split
  · exact .bind .advance fun _ _ => .pure _
  · refine .bind .advance fun _ _ => .bind (h _ _) fun _ s => ?_
    refine .bind (.many (fun _ => ?_) (fun s valid => ?_) s) fun _ _ => ?_
    · exact .bind .advance fun _ _ => .bind .advance fun _ _ => h _ _
    · rw [(r.peek valid).kind]
    · exact .bind (.expect _) fun _ _ => .pure _

omit h in
theorem parameters_carries : r.Carries s parameters parameters := by
  refine .peek fun next seen => ?_
  rw [seen.kind]
  split
  · exact .bind .advance fun _ _ => .pure _
  · refine .bind (.expect _) fun _ s => .current fun name seen => ?_
    rw [seen.literal]
    refine .bind (.many (fun _ => ?_) (fun s valid => ?_) s) fun _ _ => ?_
    · refine .bind .advance fun _ _ => .bind (.expect _) fun _ _ => .current fun name seen => ?_
      rw [seen.literal]
      exact .pure _
    · rw [(r.peek valid).kind]
    · exact .bind (.expect _) fun _ _ => .pure _

theorem pair_carries : r.Carries s (pair expr) (pair expr) := by
  refine .bind .advance fun _ _ => .bind (h _ _) fun _ _ => .bind (.expect _) fun _ _ => ?_
  refine .bind .advance fun _ _ => .bind (h _ _) fun _ _ => .peek fun next seen => ?_
  rw [seen.kind]
  split
  · exact .pure _
  · exact .bind (.expect _) fun _ _ => .pure _

theorem pairs_carries : r.Carries s (pairs expr) (pairs expr) := by
  refine .bind (.many (fun _ => pair_carries h) (fun s valid => ?_) s) fun _ _ => ?_
  · rw [(r.peek valid).kind]
  · exact .bind (.expect _) fun _ _ => .pure _

theorem segment_carries (closing : List Token.Kind) :
    r.Carries s (segment expr closing) (segment expr closing) := by
  refine .peek fun next seen => ?_
  rw [seen.kind]
  split
  · exact .pure _
  · exact .bind .advance fun _ _ => .bind (h _ _) fun _ _ => .pure _

theorem sliceFrom_carries (start : Option Expr) :
    r.Carries s (sliceFrom expr start) (sliceFrom expr start) := by
  refine .bind .advance fun _ _ => .bind (segment_carries h _) fun _ _ => .peek fun next seen => ?_
  rw [seen.kind]
  split
  · refine .bind .advance fun _ _ => .bind (segment_carries h _) fun _ _ => ?_
    exact .bind (.expect _) fun _ _ => .pure _
  · exact .bind (.expect _) fun _ _ => .pure _

theorem subscript_carries : r.Carries s (subscript expr) (subscript expr) := by
  refine .peek fun next seen => ?_
  rw [seen.kind]
  split
  · exact .bind .advance fun _ _ => .pure _
  · split
    · exact sliceFrom_carries h _
    · refine .bind .advance fun _ _ => .bind (h _ _) fun _ _ => .peek fun next seen => ?_
      rw [seen.kind]
      split
      · exact sliceFrom_carries h _
      · exact .bind (.expect _) fun _ _ => .pure _

theorem front_carries : r.Carries s (front expr) (front expr) := by
  refine .current fun token seen => ?_
  rw [seen.kind]
  cases s.current.kind
  case letWord =>
    refine .bind (.expect _) fun _ _ => .current fun name seen => ?_
    rw [seen.literal]
    refine .bind (.expect _) fun _ _ => .bind .advance fun _ _ => ?_
    exact .bind (h _ _) fun _ _ => .pure _
  case returnWord => exact .bind .advance fun _ _ => .bind (h _ _) fun _ _ => .pure _
  all_goals exact .bind (h _ _) fun _ _ => .pure _

theorem statements_carries {more : ParseState → Bool}
    (same : ∀ s, r.Valid s → more (r.state s) = more s) :
    r.Carries s (statements expr more) (statements expr more) := by
  refine .bind (.many (fun _ => ?_) same s) fun _ _ => .pure _
  refine .bind (.attempt ?_) fun _ _ => .bind .advance fun _ _ => .pure _
  rw [statement_eq_front]
  exact .bind (front_carries h) fun _ _ => .bind (.skip _) fun _ _ => .pure _

theorem block_carries : r.Carries s (block expr) (block expr) := by
  refine .bind .advance fun _ _ => statements_carries h fun s valid => ?_
  rw [(r.current valid).kind]

theorem conditional_carries : r.Carries s (conditional expr) (conditional expr) := by
  refine .bind (.expect _) fun _ _ => .bind .advance fun _ _ => .bind (h _ _) fun _ _ => ?_
  refine .bind (.expect _) fun _ _ => .bind (.expect _) fun _ _ => ?_
  refine .bind (block_carries h) fun _ _ => .peek fun next seen => ?_
  rw [seen.kind]
  split
  · refine .bind .advance fun _ _ => .bind (.expect _) fun _ _ => ?_
    exact .bind (block_carries h) fun _ _ => .pure _
  · exact .pure _

theorem function_carries : r.Carries s (function expr) (function expr) := by
  refine .bind (.expect _) fun _ _ => .bind parameters_carries fun _ _ => ?_
  exact .bind (.expect _) fun _ _ => .bind (block_carries h) fun _ _ => .pure _

omit h in
theorem integer_carries {t : Token} (seen : s.current.Moved r.place t) :
    r.Carries s (integer s.current) (integer t) := by
  unfold integer
  rw [seen.literal]
  dsimp only
  split
  · exact .pure _
  · exact .complainCurrent seen rfl

theorem operand_carries : r.Carries s (operand expr) (operand expr) := by
  refine .current fun token seen => ?_
  rw [seen.kind, seen.literal]
  cases s.current.kind
  case int => exact integer_carries seen
  case bang => exact .bind .advance fun _ _ => .bind (h _ _) fun _ _ => .pure _
  case minus => exact .bind .advance fun _ _ => .bind (h _ _) fun _ _ => .pure _
  case leftParen =>
    refine .bind .advance fun _ _ => .bind (h _ _) fun _ _ => ?_
    exact .bind (.expect _) fun _ _ => .pure _
  case ifWord => exact conditional_carries h
  case fnWord => exact function_carries h
  case leftBracket => exact .bind (expressions_carries h _) fun _ _ => .pure _
  case leftBrace => exact .bind (pairs_carries h) fun _ _ => .pure _
  -- the other kinds are an operand by themselves, or start none
  all_goals first
    | exact .pure _
    | exact .complainCurrent seen rfl

theorem joined_carries (left : Expr) : r.Carries s (joined expr left) (joined expr left) := by
  refine .current fun token seen => ?_
  rw [seen.kind]
  cases s.current.kind
  case leftParen => exact .bind (expressions_carries h _) fun _ _ => .pure _
  case leftBracket => exact .bind (subscript_carries h) fun _ _ => .pure _
  -- the other kinds are an operator, or join nothing
  all_goals first
    | exact .pure _
    | exact .bind .advance fun _ _ => .bind (h _ _) fun _ _ => .pure _

end Parts

variable {r : Relocation} {s : ParseState}

theorem tooDeep_carries : r.Carries s tooDeep tooDeep :=
  .current fun _ seen => .complainCurrent seen rfl

theorem binds_carries (p : Precedence) : r.Carries s (binds p) (binds p) := by
  refine .peek fun next seen => ?_
  rw [seen.kind]
  exact .pure _

/-- Reading an expression and joining to it what follows are carried over, whatever is left of the
levels. -/
theorem expression_climb_carries (room : Nat) :
    (∀ p s, r.Carries s (expression room p) (expression room p)) ∧
      ∀ p left s, r.Carries s (climb room p left) (climb room p left) := by
  induction room with
  | zero =>
    refine ⟨fun p s => tooDeep_carries, fun p left s => ?_⟩
    rw [climb]
    refine .bind (binds_carries p) fun _ _ => ?_
    split
    · exact tooDeep_carries
    · exact .pure left
  | succ room ih =>
    obtain ⟨expr, climbs⟩ := ih
    refine ⟨fun p s => ?_, fun p left s => ?_⟩
    · rw [expression]
      exact .bind (operand_carries expr) fun left s => climbs p left s
    · rw [climb]
      refine .bind (binds_carries p) fun _ _ => ?_
      split
      · refine .bind .advance fun _ _ => .bind (joined_carries expr left) fun next s => ?_
        exact climbs p next s
      · exact .pure left

theorem expression_carries (room : Nat) (p : Precedence) (s : ParseState) :
    r.Carries s (expression room p) (expression room p) := (expression_climb_carries room).1 p s

theorem program_carries (s : ParseState) : r.Carries s program program :=
  statements_carries (expression_carries maxNesting) fun s valid => by rw [(r.current valid).kind]

end Grammar

/-! ## More tokens behind -/

namespace Relocation

/-- A state with other tokens behind its own, and so another place where the text ends. -/
def extended (tokens : List Token) (stop : Position) (s : ParseState) : ParseState :=
  ⟨s.ahead ++ tokens, stop, s.diagnostics⟩

theorem extended_next {s : ParseState} (some : s.ahead ≠ []) (tokens : List Token)
    (stop : Position) : (extended tokens stop s).next = extended tokens stop s.next := by
  unfold extended ParseState.next
  rw [List.tail_append_of_ne_nil some]

/-- The same tokens with others behind them.  Readings are the same as long as two tokens are left,
so that the end is out of view. -/
def before (tokens : List Token) (stop : Position) : Relocation where
  place := id
  state := extended tokens stop
  Valid s := 2 ≤ s.remaining
  valid_of_reaches run valid := Nat.le_trans valid run.remaining_le
  current {s} valid := by
    rcases s with ⟨_ | ⟨t, ts⟩, _, _⟩
    · cases valid
    · exact ⟨rfl, rfl, rfl⟩
  peek {s} valid := by
    rcases s with ⟨_ | ⟨t, _ | ⟨t', ts⟩⟩, _, _⟩
    · cases valid
    · exact absurd valid (Nat.not_succ_le_self 1)
    · exact ⟨rfl, rfl, rfl⟩
  next {s} valid := by
    refine extended_next (fun none => ?_) tokens stop
    rw [ParseState.remaining, ParseState.next_ahead, none] at valid
    cases valid
  note _ _ _ := rfl
  remaining s t := by
    unfold extended ParseState.remaining
    rw [List.length_append, List.length_append, Nat.add_lt_add_iff_right]

end Relocation

/-! ## Places further down -/

/-- The place some lines further down, in the same column. -/
def Position.down (lines : Nat) (p : Position) : Position := ⟨p.line + lines, p.column⟩

/-- The token some lines further down. -/
def Token.down (lines : Nat) : Token → Token := moveTo (.down lines)

/-- The diagnostic some lines further down. -/
def Diagnostic.down (lines : Nat) (d : Diagnostic) : Diagnostic :=
  ⟨d.position.down lines, d.message⟩

namespace Relocation

/-- The same tokens some lines further down.  All readings are the same. -/
def below (lines : Nat) : Relocation where
  place := .down lines
  state s := ⟨s.ahead.map (.down lines), s.stop.down lines, s.diagnostics.map (.down lines)⟩
  Valid _ := True
  valid_of_reaches _ _ := trivial
  current {s} _ := by
    rcases s with ⟨_ | ⟨t, ts⟩, _, _⟩
    · exact ⟨rfl, rfl, rfl⟩
    · exact t.moveTo_moved _
  peek {s} _ := by
    rcases s with ⟨_ | ⟨t, _ | ⟨t', ts⟩⟩, _, _⟩
    · exact ⟨rfl, rfl, rfl⟩
    · exact ⟨rfl, rfl, rfl⟩
    · exact t'.moveTo_moved _
  next {s} _ := by
    unfold ParseState.next
    rw [List.map_tail]
  note _ _ _ := rfl
  remaining s t := by
    unfold ParseState.remaining
    rw [List.length_map, List.length_map]

end Relocation

end MonkeyLang
