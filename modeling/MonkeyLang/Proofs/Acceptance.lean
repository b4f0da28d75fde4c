import MonkeyLang.Proofs.Reader

/-!
# Readings of given words

What a reader makes of the words in front of it.  Readers look at the kinds and the literals of the
tokens only, so a stretch of tokens is described by its words, without places.

A reading can always run out of levels.  `Gets deep` allows for that: either the reader succeeds
with the result named, leaving the words named and no complaint, or the complaint about nesting is
recorded, and the latter only if `deep` holds.  With `deep` true this says that nothing else can go
wrong; with `deep` a bound on the levels it says when that goes wrong as well.

An expression is read in two moves, its first operand and what is joined to it.  `Opens` describes
the state between them, so that a phrase can be followed by anything, and what follows is joined
or not as its precedence says.

## Main definitions

* `Word`, `ParseState.words`, `headKind`: tokens without places
* `ParseState.TooDeep`, `Gets`, `Opens`: readings that succeed unless they get too deep
* `Takes`: a stretch of words that is read as an expression

## Main results

* `Gets.bind`, `Opens.join`, `Opens.finish`: composition of readings
* `Grammar.expressions_gets`, `Grammar.subscript_gets`: lists and subscripts of given words
* `Gets.statement_cons`: statements one behind the other
* `TokenStream.parse_of_gets`: from what is got to the program that is read
-/

namespace MonkeyLang

/-- A token without its place. -/
structure Word where
  /-- What the token is. -/
  kind : Token.Kind
  /-- The literal of the token. -/
  literal : String
deriving DecidableEq

/-- The token without its place. -/
def Token.word (t : Token) : Word := ⟨t.kind, t.literal⟩

/-- The kind of the first word; the kind of the end token, if there is no word. -/
def headKind : List Word → Token.Kind
  | [] => .eof
  | w :: _ => w.kind

@[simp]
theorem headKind_nil : headKind [] = .eof := rfl

@[simp]
theorem headKind_cons (w : Word) (ws : List Word) : headKind (w :: ws) = w.kind := rfl

namespace ParseState

variable {s : ParseState} {w : Word} {ws : List Word}

/-- The words from the current token on. -/
def words (s : ParseState) : List Word := s.ahead.map Token.word

theorem current_kind (s : ParseState) : s.current.kind = headKind s.words := by
  unfold current words
  cases s.ahead <;> rfl

theorem peek_kind (s : ParseState) : s.peek.kind = headKind s.next.words := s.next.current_kind

theorem current_kind_of_words (h : s.words = w :: ws) : s.current.kind = w.kind := by
  rw [current_kind, h, headKind_cons]

theorem peek_kind_of_words (h : s.next.words = w :: ws) : s.peek.kind = w.kind := by
  rw [peek_kind, h, headKind_cons]

theorem next_words (h : s.words = w :: ws) : s.next.words = ws := by
  unfold words at *
  rw [next_ahead, List.map_tail, h, List.tail_cons]

theorem current_literal (h : s.words = w :: ws) : s.current.literal = w.literal := by
  unfold current words at *
  cases ahead : s.ahead with
  | nil => simp [ahead] at h
  | cons t ts =>
    rw [ahead, List.map_cons] at h
    exact congrArg Word.literal (List.cons.inj h).1

/-- The complaint about nesting is recorded. -/
def TooDeep (s : ParseState) : Prop :=
  ∃ d ∈ s.diagnostics, d.message = Complaint.nestedTooDeeply.message

theorem TooDeep.of_reaches {s' : ParseState} (h : s.TooDeep) (run : s.Reaches s') : s'.TooDeep := by
  obtain ⟨d, mem, message⟩ := h
  exact ⟨d, run.diagnostics_suffix.subset mem, message⟩

theorem tooDeep_note (s : ParseState) (position : Position) :
    (s.note position .nestedTooDeeply).TooDeep :=
  ⟨_, List.mem_cons_self, rfl⟩

end ParseState

open ParseState Parse Grammar

variable {α β : Type} {deep : Prop} {s : ParseState}

/-! ## Readings that succeed unless they get too deep -/

/-- Once it is too deep, what is read behind it does not matter, as long as it is read in an orderly
way. -/
theorem tooDeep_bind {p : Parse α} {f : α → Parse β} (tooDeep : (p s).2.TooDeep)
    (orderly : ∀ a s, Orderly s (f a s)) : ((p >>= f) s).2.TooDeep := by
  -- the complaint stays whether `f` is run behind it or not
  cases run : p s with
  | mk a? s' =>
  rw [run] at tooDeep
  cases a? with
  | none =>
    rw [bind_of_none f run]
    exact tooDeep
  | some a =>
    rw [bind_of_some f run]
    exact tooDeep.of_reaches (orderly a s').reaches

/-- From the state `s` on the reading gave `a` and a state with the property `after`, without a new
complaint, unless it got too deep, which takes `deep`. -/
def Gets (deep : Prop) (s : ParseState) (result : Option α × ParseState) (a : α)
    (after : ParseState → Prop) : Prop :=
  (∃ s', result = (some a, s') ∧ after s' ∧ s'.diagnostics = s.diagnostics) ∨
    deep ∧ result.2.TooDeep

namespace Gets

variable {p : Parse α} {f : α → Parse β} {a : α} {b : β} {mid after : ParseState → Prop}

theorem done {s' : ParseState} (quiet : s'.diagnostics = s.diagnostics) (h : after s') :
    Gets deep s (some a, s') a after := .inl ⟨s', rfl, h, quiet⟩

theorem mono {deep' : Prop} {result : Option α × ParseState} (h : Gets deep s result a after)
    (weaker : deep → deep') : Gets deep' s result a after :=
  h.imp_right (.imp_left weaker)

theorem weaken {after' : ParseState → Prop} {result : Option α × ParseState}
    (h : Gets deep s result a after) (weaker : ∀ s', after s' → after' s') :
    Gets deep s result a after' := by
  rcases h with ⟨s', run, behind, quiet⟩ | tooDeep
  · exact .inl ⟨s', run, weaker s' behind, quiet⟩
  · exact .inr tooDeep

/-- A reading from a later state without new complaints. -/
theorem since {t : ParseState} {result : Option α × ParseState}
    (h : Gets deep t result a after) (quiet : t.diagnostics = s.diagnostics) :
    Gets deep s result a after := by
  rwa [Gets, ← quiet]

/-- One reading behind the other. -/
theorem bind (first : Gets deep s (p s) a mid) (orderly : ∀ a s, Orderly s (f a s))
    (second : ∀ s', mid s' → Gets deep s' (f a s') b after) : Gets deep s ((p >>= f) s) b after := by
  rcases first with ⟨s', run, between, quiet⟩ | ⟨possible, tooDeep⟩
  · rw [bind_of_some f run]
    exact (second s' between).since quiet
  · exact .inr ⟨possible, tooDeep_bind tooDeep orderly⟩

/-- A result that is wrapped up at the end. -/
theorem map {build : α → β} (h : Gets deep s (p s) a after) :
    Gets deep s ((p >>= fun a => pure (build a)) s) (build a) after :=
  h.bind (fun _ s => .pure _ s) fun _ h => .done rfl h

/-- A result up to the token that closes it. -/
theorem closed {build : α → β} {w : Word} {rest : List Word} {kind : Token.Kind}
    (h : Gets deep s (p s) a fun s' => s'.next.words = w :: rest) (closing : w.kind = kind) :
    Gets deep s ((p >>= fun a => expect kind >>= fun _ => pure (build a)) s) (build a)
      fun s' => s'.next.words = rest := by
  refine h.bind (fun _ s => .bind (.expect _ s) fun _ s => .pure _ s) fun s' behind => ?_
  rw [bind_expect _ (by rw [peek_kind_of_words behind, closing])]
  exact .done rfl (next_words behind)

end Gets

/-- A reading that came to joining what follows to `left`, with a number of levels left and the
words `rest` behind the current token, unless it got too deep. -/
def Opens (deep : Prop) (s : ParseState) (result : Option Expr × ParseState) (p : Precedence)
    (room : Nat) (left : Expr) (rest : List Word) : Prop :=
  (∃ s', result = climb room p left s' ∧ s'.next.words = rest ∧ s'.diagnostics = s.diagnostics) ∨
    deep ∧ result.2.TooDeep

namespace Opens

variable {p : Precedence} {room : Nat} {e e' : Expr} {w : Word} {rest ws : List Word}
  {result : Option Expr × ParseState}

/-- Reading the first operand of an expression. -/
theorem of_operand (zero : room = 0 → deep)
    (operand : ∀ n, room = n + 1 →
      Gets deep s (operand (expression n) s) e fun s' => s'.next.words = rest) :
    Opens deep s (expression room p s) p (room - 1) e rest := by
  cases room with
  -- without a level the operand is not even looked at
  | zero => exact .inr ⟨zero rfl, tooDeep_note s _⟩
  | succ n =>
    rw [expression]
    rcases operand n rfl with ⟨s', run, behind, quiet⟩ | ⟨possible, tooDeep⟩
    · exact .inl ⟨s', by rw [bind_of_some _ run]; rfl, behind, quiet⟩
    · exact .inr ⟨possible, tooDeep_bind tooDeep fun left s => climb_orderly n p left s⟩

theorem mono {deep' : Prop} (h : Opens deep s result p room e rest) (weaker : deep → deep') :
    Opens deep' s result p room e rest :=
  h.imp_right (.imp_left weaker)

/-- A token that does not bind ends the expression. -/
theorem finish (h : Opens deep s result p room e rest)
    (stop : (headKind rest).precedence.rank ≤ p.rank) :
    Gets deep s result e fun s' => s'.next.words = rest := by
  rcases h with ⟨s', run, behind, quiet⟩ | tooDeep
  · refine .inl ⟨s', ?_, behind, quiet⟩
    rw [run]
    refine climb_of_not_binds ?_
    rw [peek_kind, behind]
    exact Nat.not_lt.mpr stop
  · exact .inr tooDeep

/-- A token that binds is joined to the expression, which takes a level. -/
theorem join (h : Opens deep s result p room e (w :: ws))
    (binds : p.rank < w.kind.precedence.rank) (zero : room = 0 → deep)
    (joined : ∀ n s', room = n + 1 → s'.words = w :: ws →
      Gets deep s' (joined (expression n) e s') e' fun s' => s'.next.words = rest) :
    Opens deep s result p (room - 1) e' rest := by
  rcases h with ⟨s', run, behind, quiet⟩ | tooDeep
  · have binds' : p.rank < s'.peek.kind.precedence.rank := by rwa [peek_kind_of_words behind]
    cases room with
    -- the token binds, but there is no level for it
    | zero =>
      rw [climb_zero binds'] at run
      rw [run]
      exact .inr ⟨zero rfl, tooDeep_note s' _⟩
    | succ n =>
      rw [climb_succ binds'] at run
      rcases joined n s'.next rfl behind with ⟨s'', run', behind', quiet'⟩ | ⟨possible, tooDeep⟩
      · rw [bind_of_some _ run'] at run
        exact .inl ⟨s'', run, behind', quiet'.trans quiet⟩
      · rw [run]
        exact .inr ⟨possible, tooDeep_bind tooDeep fun next s => climb_orderly n p next s⟩
  · exact .inr tooDeep

end Opens

/-! ## Repetitions -/

/-- A repetition whose first round gets a result, and whose other rounds get theirs behind it. -/
theorem Gets.many_cons {more : ParseState → Bool} {p : Parse α} {a : α} {as : List α}
    {mid after : ParseState → Prop} (orderly : ∀ s, Orderly s (p s)) (go : more s = true)
    (progress : ∀ a s', p s = (some a, s') → s'.remaining < s.remaining)
    (first : Gets deep s (p s) a mid)
    (others : ∀ s', mid s' → Gets deep s' (many more p s') as after) :
    Gets deep s (many more p s) (a :: as) after := by
  -- a first round that succeeds has read a token, so the repetition goes on behind it
  have unfolds {a' : α} {s' : ParseState} (run : p s = (some a', s')) :
      many more p s = (many more p >>= fun as => pure (a' :: as)) s' := by
    rw [many_of_round go run (progress a' s' run)]
    cases rest : many more p s' with
    | mk as? s'' =>
    cases as? with
    | none =>
      rw [bind_of_none _ rest]
      rfl
    | some as =>
      rw [bind_of_some _ rest]
      rfl
  rcases first with ⟨s', run, between, quiet⟩ | ⟨possible, tooDeep⟩
  · rw [unfolds run]
    exact (others s' between).map.since quiet
  -- once it is too deep it stays so, whether the round failed or went on
  · refine .inr ⟨possible, ?_⟩
    cases run : p s with
    | mk a? s' =>
    rw [run] at tooDeep
    cases a? with
    | none =>
      rw [many_of_failed go run]
      exact tooDeep
    | some a' =>
      rw [unfolds run]
      exact tooDeep.of_reaches ((Orderly.many orderly s').bind fun _ s => .pure _ s).reaches

/-! ## Lists of expressions -/

/-- The kinds of the tokens that expressions start with. -/
def Token.Kind.startsExpression : Token.Kind → Bool
  | .ident | .int | .float | .string | .trueWord | .falseWord | .bang | .minus | .leftParen
  | .ifWord | .fnWord | .leftBracket | .leftBrace => true
  | _ => false

/-- The kinds of the tokens that stand behind the expressions of a list, a subscript or a
statement. -/
def Token.Kind.endsExpression : Token.Kind → Bool
  | .comma | .semicolon | .colon | .rightParen | .rightBrace | .rightBracket | .eof => true
  | _ => false

theorem Token.Kind.precedence_of_endsExpression {kind : Token.Kind}
    (h : kind.endsExpression = true) : kind.precedence = .lowest := by
  cases kind <;> first | rfl | cases h

/-- What ends an expression binds to none. -/
theorem Opens.ended {p : Precedence} {room : Nat} {e : Expr} {rest : List Word}
    {result : Option Expr × ParseState} (h : Opens deep s result p room e rest)
    (ends : (headKind rest).endsExpression = true) :
    Gets deep s result e fun s' => s'.next.words = rest := by
  refine h.finish ?_
  rw [Token.Kind.precedence_of_endsExpression ends]
  exact Nat.zero_le _

/-- The words `ws` are read as the expression `e`, whatever ends it. -/
structure Takes (deep : Prop) (expr : Precedence → Parse Expr) (e : Expr) (ws : List Word) :
    Prop where
  /-- The first word starts an expression. -/
  starts : ∀ rest, (headKind (ws ++ rest)).startsExpression = true
  /-- The words are read as the expression. -/
  gets : ∀ s rest, s.words = ws ++ rest → (headKind rest).endsExpression = true →
    Gets deep s (expr .lowest s) e fun s' => s'.next.words = rest

/-- The words `ws` are read as the rest of a list, each expression with a comma before it. -/
structure TakesMore (deep : Prop) (expr : Precedence → Parse Expr) (es : List Expr)
    (ws : List Word) : Prop where
  /-- The first word ends the expression before the rest of the list. -/
  ends : ∀ rest, (headKind rest).endsExpression = true → (headKind (ws ++ rest)).endsExpression = true
  /-- The words are read as expressions, up to a word that is not a comma. -/
  gets : ∀ s rest, s.next.words = ws ++ rest → (headKind rest).endsExpression = true →
    headKind rest ≠ .comma →
    Gets deep s (many (fun s => decide (s.peek.kind = .comma))
      (advance >>= fun _ => advance >>= fun _ => expr .lowest) s) es fun s' => s'.next.words = rest

/-- The words `ws` are read as a list of expressions. -/
inductive TakesList (deep : Prop) (expr : Precedence → Parse Expr) :
    List Expr → List Word → Prop where
  | nil : TakesList deep expr [] []
  | cons {e : Expr} {es : List Expr} {ws ws' : List Word} (first : Takes deep expr e ws)
      (others : TakesMore deep expr es ws') : TakesList deep expr (e :: es) (ws ++ ws')

section Lists

variable {expr : Precedence → Parse Expr} {e : Expr} {es : List Expr} {w : Word}
  {ws ws' rest : List Word}

/-- The first word of an expression is no other than one that starts expressions. -/
theorem Takes.peek_ne {kind : Token.Kind} (takes : Takes deep expr e ws)
    (behind : s.next.words = ws ++ rest) (h : kind.startsExpression = false) :
    s.peek.kind ≠ kind := by
  rintro rfl
  rw [peek_kind, behind, takes.starts rest] at h
  cases h

theorem Takes.mono {deep' : Prop} (takes : Takes deep expr e ws) (weaker : deep → deep') :
    Takes deep' expr e ws where
  starts := takes.starts
  gets s rest behind ends := (takes.gets s rest behind ends).mono weaker

theorem TakesMore.mono {deep' : Prop} (takes : TakesMore deep expr es ws) (weaker : deep → deep') :
    TakesMore deep' expr es ws where
  ends := takes.ends
  gets s rest behind ends notComma := (takes.gets s rest behind ends notComma).mono weaker

theorem TakesMore.nil : TakesMore deep expr [] [] where
  ends _ h := h
  gets s rest behind _ notComma := by
    rw [many_of_stop]
    · exact .done rfl behind
    · rw [peek_kind, behind]
      exact decide_eq_false notComma

theorem TakesMore.cons (orderly : ∀ p s, Orderly s (expr p s)) (comma : w.kind = .comma)
    (first : Takes deep expr e ws) (others : TakesMore deep expr es ws') :
    TakesMore deep expr (e :: es) (w :: (ws ++ ws')) where
  ends rest _ := by
    rw [List.cons_append, headKind_cons, comma]
    rfl
  gets s rest behind ends notComma := by
    rw [List.cons_append, List.append_assoc] at behind
    have next : s.peek.kind = .comma := by rw [peek_kind_of_words behind, comma]
    refine .many_cons ?_ (decide_eq_true next) ?_ ?_ fun s' (behind' : s'.next.words = ws' ++ rest) =>
      others.gets s' rest behind' ends notComma
    · exact comma_round_orderly orderly
    -- the comma is read, whatever the expression behind it reads
    · intro a s' run
      have short : s'.remaining ≤ s.next.next.remaining := ((orderly _ _).run run).remaining_le
      exact Nat.lt_of_le_of_lt short (next_next_remaining_lt next nofun)
    · exact first.gets s.next.next _ (next_words behind) (others.ends rest ends)

/-- A list of given words up to its closing token. -/
theorem Grammar.expressions_gets {close : Token.Kind} (orderly : ∀ p s, Orderly s (expr p s))
    (list : TakesList deep expr es ws) (ends : close.endsExpression = true)
    (starts : close.startsExpression = false) (notComma : close ≠ .comma) (closing : w.kind = close)
    (behind : s.next.words = ws ++ w :: rest) :
    Gets deep s (expressions expr close s) es fun s' => s'.next.words = rest := by
  unfold expressions
  rw [bind_peek]
  cases list with
  | nil =>
    rw [if_pos (by rw [peek_kind, behind]; exact closing), bind_advance]
    exact .done rfl (next_words behind)
  | @cons e es ws ws' first others =>
    rw [List.append_assoc] at behind
    rw [if_neg, bind_advance]
    · refine Gets.since (t := s.next) ?_ rfl
      refine (first.gets s.next _ behind (others.ends _ (by simp [closing, ends]))).bind ?_ ?_
      · refine fun _ s => .bind (.many (comma_round_orderly orderly) s) fun _ s => ?_
        exact .bind (.expect _ s) fun _ s => .pure _ s
      · intro s' behind'
        have more := others.gets s' _ behind' (by simp [closing, ends]) (by simp [closing, notComma])
        exact more.closed closing
    · exact first.peek_ne behind starts

end Lists

/-! ## Subscripts -/

/-- The words `ws` are read as a segment of a slice, which can be left out. -/
inductive TakesSegment (deep : Prop) (expr : Precedence → Parse Expr) :
    Option Expr → List Word → Prop where
  | none : TakesSegment deep expr none []
  | some {e : Expr} {ws : List Word} (written : Takes deep expr e ws) :
      TakesSegment deep expr (some e) ws

/-- The words `ws` are read as a subscript, up to the closing bracket. -/
inductive TakesSubscript (deep : Prop) (expr : Precedence → Parse Expr) :
    Subscript → List Word → Prop where
  | empty : TakesSubscript deep expr .empty []
  | item {e : Expr} {ws : List Word} (item : Takes deep expr e ws) :
      TakesSubscript deep expr (.item e) ws
  | slice {start stop : Option Expr} {c : Word} {ws ws' : List Word}
      (first : TakesSegment deep expr start ws) (colon : c.kind = .colon)
      (second : TakesSegment deep expr stop ws') :
      TakesSubscript deep expr (.slice start stop) (ws ++ c :: ws')
  | stepped {start stop stride : Option Expr} {c d : Word} {ws ws' ws'' : List Word}
      (first : TakesSegment deep expr start ws) (colon : c.kind = .colon)
      (second : TakesSegment deep expr stop ws') (colon' : d.kind = .colon)
      (third : TakesSegment deep expr stride ws'') :
      TakesSubscript deep expr (.stepped start stop stride) (ws ++ c :: (ws' ++ d :: ws''))

section Subscripts

variable {expr : Precedence → Parse Expr} {e? stop : Option Expr} {sub : Subscript} {c w : Word}
  {ws ws' rest : List Word}

theorem TakesSegment.mono {deep' : Prop} (takes : TakesSegment deep expr e? ws)
    (weaker : deep → deep') : TakesSegment deep' expr e? ws := by
  cases takes with
  | none => exact .none
  | some written => exact .some (written.mono weaker)

theorem Grammar.segment_gets {closing : List Token.Kind} (written : TakesSegment deep expr e? ws)
    (ends : ∀ k ∈ closing, k.endsExpression = true ∧ k.startsExpression = false)
    (mem : headKind rest ∈ closing) (behind : s.next.words = ws ++ rest) :
    Gets deep s (segment expr closing s) e? fun s' => s'.next.words = rest := by
  unfold segment
  rw [bind_peek, peek_kind, behind]
  cases written with
  | none =>
    rw [List.nil_append, if_pos (List.contains_iff_mem.mpr mem)]
    exact .done rfl behind
  | some written =>
    rw [if_neg, bind_advance]
    · exact (Gets.map (written.gets s.next rest behind (ends _ mem).1)).since rfl
    -- a segment that is written does not start like its end
    · intro closed
      rw [← behind, ← peek_kind] at closed
      have mem := List.contains_iff_mem.mp closed
      exact written.peek_ne behind (ends _ mem).2 rfl

variable (orderly : ∀ p s, Orderly s (expr p s))
include orderly

theorem Grammar.sliceFrom_gets {start : Option Expr} (second : TakesSegment deep expr stop ws')
    (closing : w.kind = .rightBracket) (behind : s.next.words = c :: (ws' ++ w :: rest)) :
    Gets deep s (sliceFrom expr start s) (.slice start stop) fun s' => s'.next.words = rest := by
  unfold sliceFrom
  rw [bind_advance]
  refine Gets.since (t := s.next) ?_ rfl
  refine (segment_gets second (by decide) (by simp [closing]) (next_words behind)).bind
    (slice_end_orderly orderly start) fun s' behind' => ?_
  have kind : s'.peek.kind = .rightBracket := by rw [peek_kind_of_words behind', closing]
  rw [bind_peek, if_neg (by rw [kind]; decide), bind_expect _ kind]
  exact .done rfl (next_words behind')

theorem Grammar.sliceFrom_gets_stepped {start stride : Option Expr} {d : Word} {ws'' : List Word}
    (second : TakesSegment deep expr stop ws') (colon : d.kind = .colon)
    (third : TakesSegment deep expr stride ws'') (closing : w.kind = .rightBracket)
    (behind : s.next.words = c :: (ws' ++ d :: (ws'' ++ w :: rest))) :
    Gets deep s (sliceFrom expr start s) (.stepped start stop stride)
      fun s' => s'.next.words = rest := by
  unfold sliceFrom
  rw [bind_advance]
  refine Gets.since (t := s.next) ?_ rfl
  refine (segment_gets second (by decide) (by simp [colon]) (next_words behind)).bind
    (slice_end_orderly orderly start) fun s' behind' => ?_
  rw [bind_peek, if_pos (by rw [peek_kind_of_words behind', colon]), bind_advance]
  refine Gets.since (t := s'.next) ?_ rfl
  exact (segment_gets third (by decide) (by simp [closing]) (next_words behind')).closed closing

/-- A subscript that starts with an expression. -/
theorem Grammar.subscript_gets_started {e : Expr} {after : ParseState → Prop}
    (first : Takes deep expr e ws) (behind : s.next.words = ws ++ rest)
    (ends : (headKind rest).endsExpression = true)
    (others : ∀ s', s'.next.words = rest → Gets deep s' ((peek >>= fun next =>
      if next.kind = .colon then sliceFrom expr (some e)
      else expect .rightBracket >>= fun _ => pure (.item e)) s') sub after) :
    Gets deep s (subscript expr s) sub after := by
  unfold subscript
  rw [bind_peek, if_neg (first.peek_ne behind rfl), if_neg (first.peek_ne behind rfl), bind_advance]
  refine Gets.since (t := s.next) ((first.gets s.next rest behind ends).bind ?_ others) rfl
  intro index s
  rw [bind_peek]
  split
  · exact sliceFrom_orderly orderly _ s
  · exact .bind (.expect _ s) fun _ s => .pure _ s

/-- A subscript with a colon, from its start on. -/
theorem Grammar.subscript_gets_slice {start : Option Expr} {after : ParseState → Prop}
    (first : TakesSegment deep expr start ws) (colon : c.kind = .colon)
    (behind : s.next.words = ws ++ c :: rest)
    (others : ∀ s', s'.next.words = c :: rest → Gets deep s' (sliceFrom expr start s') sub after) :
    Gets deep s (subscript expr s) sub after := by
  cases first with
  | none =>
    have kind : s.peek.kind = .colon := by rw [peek_kind_of_words behind, colon]
    unfold subscript
    rw [bind_peek, if_neg (by rw [kind]; decide), if_pos kind]
    exact others s behind
  | some first =>
    refine subscript_gets_started orderly first behind (by rw [headKind_cons, colon]; rfl) ?_
    intro s' behind'
    rw [bind_peek, if_pos (by rw [peek_kind_of_words behind', colon])]
    exact others s' behind'

/-- A subscript of given words up to its closing bracket. -/
theorem Grammar.subscript_gets (written : TakesSubscript deep expr sub ws)
    (closing : w.kind = .rightBracket) (behind : s.next.words = ws ++ w :: rest) :
    Gets deep s (subscript expr s) sub fun s' => s'.next.words = rest := by
  cases written with
  | empty =>
    unfold subscript
    rw [bind_peek, if_pos (by rw [peek_kind_of_words behind, closing]), bind_advance]
    exact .done rfl (next_words behind)
  | item item =>
    refine subscript_gets_started orderly item behind (by rw [headKind_cons, closing]; rfl) ?_
    intro s' behind'
    have kind : s'.peek.kind = .rightBracket := by rw [peek_kind_of_words behind', closing]
    rw [bind_peek, if_neg (by rw [kind]; decide), bind_expect _ kind]
    exact .done rfl (next_words behind')
  | slice first colon second =>
    rw [List.append_assoc, List.cons_append] at behind
    exact subscript_gets_slice orderly first colon behind fun s' behind' =>
      sliceFrom_gets orderly second closing behind'
  | stepped first colon second colon' third =>
    rw [List.append_assoc, List.cons_append, List.append_assoc, List.cons_append] at behind
    exact subscript_gets_slice orderly first colon behind fun s' behind' =>
      sliceFrom_gets_stepped orderly second colon' third closing behind'

end Subscripts

/-! ## Operands and what is joined to them -/

section Operands

variable {expr : Precedence → Parse Expr} {e left : Expr} {es : List Expr} {sub : Subscript}
  {w w' : Word} {ws rest : List Word}

theorem Grammar.operand_gets_ident (behind : s.words = w :: rest) (kind : w.kind = .ident) :
    Gets deep s (operand expr s) (.ident w.literal) fun s' => s'.next.words = rest := by
  unfold operand
  rw [bind_current, current_kind_of_words behind, kind, ← current_literal behind]
  exact .done rfl (next_words behind)

theorem Grammar.operand_gets_int (behind : s.words = w :: rest) (kind : w.kind = .int)
    (fits : digitsValue w.literal.toList < UInt64.size) :
    Gets deep s (operand expr s) (.int (digitsValue w.literal.toList).toUInt64)
      fun s' => s'.next.words = rest := by
  unfold operand
  rw [bind_current, current_kind_of_words behind, kind]
  show Gets deep s ((integer s.current : Parse Expr) s) _ _
  unfold integer
  rw [current_literal behind, if_pos fits]
  exact .done rfl (next_words behind)

theorem Grammar.operand_gets_str (behind : s.words = w :: rest) (kind : w.kind = .string) :
    Gets deep s (operand expr s) (.str w.literal) fun s' => s'.next.words = rest := by
  unfold operand
  rw [bind_current, current_kind_of_words behind, kind, ← current_literal behind]
  exact .done rfl (next_words behind)

theorem Grammar.operand_gets_bool {b : Bool} (behind : s.words = w :: rest)
    (kind : w.kind = if b then .trueWord else .falseWord) :
    Gets deep s (operand expr s) (.bool b) fun s' => s'.next.words = rest := by
  unfold operand
  rw [bind_current, current_kind_of_words behind, kind]
  cases b <;> exact .done rfl (next_words behind)

theorem Grammar.operand_gets_unary {op : UnaryOp} {after : ParseState → Prop}
    (sign : s.current.kind = op.kind) (inner : Gets deep s.next (expr .unary s.next) e after) :
    Gets deep s (operand expr s) (.unary op e) after := by
  unfold operand
  rw [bind_current, sign]
  cases op <;> exact (Gets.map inner).since rfl

theorem Grammar.operand_gets_group (behind : s.words = w :: (ws ++ w' :: rest))
    (opening : w.kind = .leftParen) (inner : Takes deep expr e ws) (closing : w'.kind = .rightParen) :
    Gets deep s (operand expr s) e fun s' => s'.next.words = rest := by
  unfold operand
  rw [bind_current, current_kind_of_words behind, opening]
  show Gets deep s (group expr s) e _
  unfold group
  rw [bind_advance]
  refine Gets.since (t := s.next) ?_ rfl
  have content := inner.gets s.next _ (next_words behind) (by rw [headKind_cons, closing]; rfl)
  exact content.closed closing

theorem Grammar.operand_gets_array (orderly : ∀ p s, Orderly s (expr p s))
    (behind : s.words = w :: (ws ++ w' :: rest)) (opening : w.kind = .leftBracket)
    (items : TakesList deep expr es ws) (closing : w'.kind = .rightBracket) :
    Gets deep s (operand expr s) (.array es) fun s' => s'.next.words = rest := by
  unfold operand
  rw [bind_current, current_kind_of_words behind, opening]
  exact Gets.map
    (expressions_gets orderly items rfl rfl (by decide) closing (next_words behind))

theorem Grammar.joined_gets_call (orderly : ∀ p s, Orderly s (expr p s))
    (behind : s.words = w :: (ws ++ w' :: rest)) (opening : w.kind = .leftParen)
    (args : TakesList deep expr es ws) (closing : w'.kind = .rightParen) :
    Gets deep s (joined expr left s) (.call left es) fun s' => s'.next.words = rest := by
  unfold joined
  rw [bind_current, current_kind_of_words behind, opening]
  exact Gets.map
    (expressions_gets orderly args rfl rfl (by decide) closing (next_words behind))

theorem Grammar.joined_gets_index (orderly : ∀ p s, Orderly s (expr p s))
    (behind : s.words = w :: (ws ++ w' :: rest)) (opening : w.kind = .leftBracket)
    (segments : TakesSubscript deep expr sub ws) (closing : w'.kind = .rightBracket) :
    Gets deep s (joined expr left s) (.index left sub) fun s' => s'.next.words = rest := by
  unfold joined
  rw [bind_current, current_kind_of_words behind, opening]
  exact Gets.map (subscript_gets orderly segments closing (next_words behind))

theorem Grammar.joined_gets_binary {op : BinaryOp} {after : ParseState → Prop}
    (sign : s.current.kind = op.kind)
    (right : Gets deep s.next (expr op.precedence s.next) e after) :
    Gets deep s (joined expr left s) (.binary op left e) after := by
  unfold joined
  rw [bind_current, sign]
  cases op <;> exact (Gets.map right).since rfl

end Operands

/-! ## Statements -/

/-- The kinds of the tokens that statements start with. -/
def Token.Kind.startsStatement (kind : Token.Kind) : Bool :=
  kind.startsExpression || kind == .letWord || kind == .returnWord

theorem Token.Kind.ne_of_startsStatement {kind : Token.Kind} (h : kind.startsStatement = true)
    (other : Token.Kind) (h' : other.startsStatement = false) : kind ≠ other := by
  rintro rfl
  rw [h] at h'
  cases h'

/-- The words behind the expression of a statement, and the words behind the statement: a semicolon
is part of the statement. -/
inductive Finished : List Word → List Word → Prop where
  | bare {rest : List Word} (ends : (headKind rest).endsExpression = true)
      (notSemicolon : headKind rest ≠ .semicolon) : Finished rest rest
  | semicolon {w : Word} {rest : List Word} (mark : w.kind = .semicolon) : Finished (w :: rest) rest

/-- The words `ws` are read as the statement `st`, which can be finished by a semicolon. -/
structure TakesStmt (deep : Prop) (expr : Precedence → Parse Expr) (st : Stmt) (ws : List Word) :
    Prop where
  /-- The first word starts a statement. -/
  starts : ∀ rest, (headKind (ws ++ rest)).startsStatement = true
  /-- The words are read as the statement. -/
  gets : ∀ s ws' rest, s.words = ws ++ ws' → Finished ws' rest →
    Gets deep s (statement expr s) st fun s' => s'.next.words = rest

section Statements

variable {expr : Precedence → Parse Expr} {e : Expr} {st : Stmt} {ws ws' rest : List Word}

theorem Finished.ends (h : Finished ws rest) : (headKind ws).endsExpression = true := by
  cases h with
  | bare ends _ => exact ends
  | semicolon mark =>
    rw [headKind_cons, mark]
    rfl

/-- The end of a statement: its expression, and the semicolon behind it if there is one. -/
theorem Gets.value {build : Expr → Stmt} (value : Takes deep expr e ws)
    (finished : Finished ws' rest) (behind : s.words = ws ++ ws') :
    Gets deep s ((expr .lowest >>= fun value => skip .semicolon >>= fun _ => pure (build value)) s)
      (build e) fun s' => s'.next.words = rest := by
  refine (value.gets s ws' behind finished.ends).bind
    (fun _ s => .bind (.skip _ s) fun _ s => .pure _ s) fun s' behind' => ?_
  rw [bind_of_some _ (skip_run _ _), pure_run]
  cases finished with
  | bare _ notSemicolon =>
    rw [if_neg (by rw [peek_kind, behind']; exact notSemicolon)]
    exact .done rfl behind'
  | semicolon mark =>
    rw [if_pos (by rw [peek_kind_of_words behind', mark])]
    exact .done rfl (next_words behind')

theorem TakesStmt.of_expr (value : Takes deep expr e ws) : TakesStmt deep expr (.expr e) ws where
  starts rest := by
    rw [Token.Kind.startsStatement, value.starts rest]
    rfl
  gets s ws' rest behind finished := by
    -- an expression starts with neither of the two words that start other statements
    have starts := value.starts ws'
    rw [← behind, ← current_kind] at starts
    refine statement_cases expr s
      (motive := fun result => Gets deep s result (.expr e) fun s' => s'.next.words = rest)
      (fun word => ?_) (fun word => ?_) fun _ _ => .value value finished behind
    all_goals
      rw [word] at starts
      cases starts

/-- A statement at the front of statements. -/
theorem Gets.statement_cons (more : Token.Kind → Bool) {found : List (Option Stmt)}
    {after : ParseState → Prop} (orderly : ∀ p s, Orderly s (expr p s))
    (go : ∀ kind, kind.startsStatement = true → more kind = true)
    (first : TakesStmt deep expr st ws) (finished : Finished ws' rest) (behind : s.words = ws ++ ws')
    (others : ∀ s', s'.words = rest →
      Gets deep s' (many (fun s => more s.current.kind) (statementRound expr) s') found after) :
    Gets deep s (many (fun s => more s.current.kind) (statementRound expr) s) (some st :: found)
      after := by
  have starts := first.starts ws'
  rw [← behind, ← current_kind] at starts
  refine .many_cons (statementRound_orderly orderly) (go _ starts) ?_ ?_ others
  · intro st? s' run
    exact statementRound_remaining_lt orderly (Token.Kind.ne_of_startsStatement starts .eof rfl) run
  · rcases first.gets s ws' rest behind finished with ⟨s', run, behind', quiet⟩ | tooDeep
    -- going on behind the statement drops its last token
    · refine .inl ⟨s'.next, ?_, behind', quiet⟩
      unfold statementRound
      rw [bind_of_some _ (attempt_run _ _), run, bind_advance, pure_run]
    · exact .inr tooDeep

/-- The statements that are read are those of the rounds. -/
theorem Gets.statements {more : ParseState → Bool} {ss : List Stmt} {after : ParseState → Prop}
    (h : Gets deep s (many more (statementRound expr) s) (ss.map some) after) :
    Gets deep s (statements expr more s) ss after := by
  have mapped : Gets deep s
      ((many more (statementRound expr) >>= fun found => pure (found.filterMap id)) s)
      ((ss.map some).filterMap id) after := h.map
  rwa [List.filterMap_map, Function.id_comp, List.filterMap_some] at mapped

end Statements

/-- What is got from a whole token stream is its program. -/
theorem TokenStream.parse_of_gets (stream : TokenStream) {ss : List Stmt}
    (h : Gets deep (.start stream) (many (fun s => decide (s.current.kind ≠ .eof))
      (statementRound (expression maxNesting)) (.start stream)) (ss.map some)
      fun s => s.words = []) :
    stream.parse.program = ⟨ss⟩ ∧ stream.parse.diagnostics = [] ∨
      deep ∧ ∃ d ∈ stream.parse.diagnostics, d.message = Complaint.nestedTooDeeply.message := by
  have gets : Gets deep (.start stream) (program (.start stream)) ss fun s => s.words = [] :=
    h.statements
  rcases gets with ⟨s, run, _, quiet⟩ | ⟨possible, tooDeep⟩
  · refine .inl ⟨?_, ?_⟩
    · rw [TokenStream.parse, run]
      rfl
    · rw [TokenStream.parse, run]
      exact quiet
  · exact .inr ⟨possible, tooDeep⟩

end MonkeyLang
