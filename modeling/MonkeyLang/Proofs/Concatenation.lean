import MonkeyLang.Proofs.Braces
import MonkeyLang.Proofs.Extent
import MonkeyLang.Proofs.Relocation
import MonkeyLang.Proofs.Words

/-!
# Texts one after the other

Programs can be put together line by line.  Behind a text that ends in a semicolon and leaves no
brace open, another text can be written on the next line, and reading both gives what reading each
of them gives.  This rests on three facts.

* A line feed ends every token but a string, so the tokens of the second text follow those of the
  first.
* While a statement of the first text is read, the end of that text is out of view: its last token
  is a semicolon, and nothing before the end of a statement is one, so at least the semicolon is
  left.  Only a block that is cut could reach the end, and then a brace would be open.
* The place of a token matters to complaints only.

## Main definitions

* `Grammar.Between`: the states between the statements of such a text

## Main results

* `Token.scanFrom_append_feed`, `Token.scanFrom_down`: the tokens of two texts
* `Grammar.program_extended`: reading with more tokens behind
* `parse_append_line`: reading two texts
-/

namespace MonkeyLang

/-! ## Scanning -/

namespace Token

section Feed

variable (cs ds : List Char)

/-- A repetition of characters does not go on behind a line feed. -/
theorem takeWhile_append_feed {p : Char → Bool} (stop : p '\n' = false) :
    (cs ++ '\n' :: ds).takeWhile p = cs.takeWhile p := by
  induction cs with
  | nil => simp [stop]
  | cons c cs ih => simp only [List.cons_append, List.takeWhile_cons, ih]

theorem dropWhile_append_feed {p : Char → Bool} (stop : p '\n' = false) :
    (cs ++ '\n' :: ds).dropWhile p = cs.dropWhile p ++ '\n' :: ds := by
  induction cs with
  | nil => simp [stop]
  | cons c cs ih =>
    simp only [List.cons_append, List.dropWhile_cons, ih]
    split <;> rfl

/-- A string that is closed before the end of the text is not changed by what follows. -/
theorem quotedBody_append {quote : Char} (closed : (quotedBody quote cs).2 < cs.length) :
    quotedBody quote (cs ++ ds) = quotedBody quote cs := by
  fun_induction quotedBody quote cs with
  | case1 => cases closed
  | case2 cs => exact quotedBody_close _
  | case3 other => exact absurd closed (Nat.lt_irrefl 1)
  | case4 e rest body other ih =>
    have closed : (quotedBody quote rest).2 < rest.length := Nat.lt_of_add_lt_add_right closed
    rw [List.cons_append, List.cons_append, quotedBody_backslash _ other, ih closed]
  | case5 c rest other plain body ih =>
    have closed : (quotedBody quote rest).2 < rest.length := Nat.lt_of_add_lt_add_right closed
    rw [List.cons_append, quotedBody_plain _ other plain, ih closed]

theorem Lexeme.withEquals_append_feed (alone paired : Kind) (c : Char) :
    withEquals alone paired c (cs ++ '\n' :: ds) = withEquals alone paired c cs := by
  cases cs with
  | nil => rfl
  | cons d cs =>
    by_cases equals : d = '='
    · subst equals
      rfl
    · simp [withEquals, equals]

theorem Lexeme.number_append_feed (c : Char) : number c (cs ++ '\n' :: ds) = number c cs := by
  have digits : Char.isDigit '\n' = false := rfl
  unfold number
  rw [takeWhile_append_feed cs ds digits, dropWhile_append_feed cs ds digits]
  rcases cs.dropWhile Char.isDigit with _ | ⟨d, _ | ⟨e, rest⟩⟩
  · rfl
  · by_cases point : d = '.'
    · subst point
      rfl
    · simp [point]
  · by_cases point : d = '.'
    · subst point
      simp [takeWhile_append_feed rest ds digits]
    · simp [point]

theorem Lexeme.word_append_feed (c : Char) : word c (cs ++ '\n' :: ds) = word c cs := by
  unfold word
  rw [takeWhile_append_feed cs ds rfl]

theorem lexeme_of_isQuote {c : Char} (quote : isQuote c = true) :
    lexeme c cs = .quoted c cs := by
  have cases : c = '"' ∨ c = '\x27' := by simpa [isQuote] using quote
  rcases cases with rfl | rfl <;> rfl

theorem Lexeme.quoted_append_feed (c : Char) (closed : (quoted c cs).size ≤ cs.length) :
    quoted c (cs ++ '\n' :: ds) = quoted c cs := by
  unfold quoted
  rw [quotedBody_append cs _ closed]

/-- A line feed ends the token before it, unless it is a string that goes on to the end of its
text. -/
theorem lexeme_append_feed (c : Char)
    (closed : (lexeme c cs).kind = .string → (lexeme c cs).size ≤ cs.length) :
    lexeme c (cs ++ '\n' :: ds) = lexeme c cs := by
  unfold lexeme
  split
  · exact Lexeme.withEquals_append_feed cs ds _ _ c
  · split
    · exact Lexeme.withEquals_append_feed cs ds _ _ c
    · split
      · rfl
      · split
        · next quote =>
          rw [lexeme_of_isQuote cs quote] at closed
          exact Lexeme.quoted_append_feed cs ds c (closed rfl)
        · split
          · exact Lexeme.number_append_feed cs ds c
          · split
            · exact Lexeme.word_append_feed cs ds c
            · rfl

end Feed

/-- If the last token of a text is not a string, a line feed behind the text separates its tokens
from those of the next text. -/
theorem scanFrom_append_feed (text ds : List Char) (p : Position)
    (last : ∀ t ∈ (scanFrom text p 0).1.getLast?, t.kind ≠ .string) :
    scanFrom (text ++ '\n' :: ds) p 0 =
      ((scanFrom text p 0).1 ++ (scanFrom ds ((scanFrom text p 0).2.step '\n') 0).1,
        (scanFrom ds ((scanFrom text p 0).2.step '\n') 0).2) := by
  induction length : text.length using Nat.strongRecOn generalizing text p with
  | ind n ih =>
    cases text with
    | nil => rfl
    | cons c cs =>
      cases blank : isBlank c with
      | true =>
        rw [scanFrom_blank blank] at last ⊢
        rw [List.cons_append, scanFrom_blank blank]
        exact ih _ (by rw [← length]; exact Nat.lt_succ_self _) cs _ last rfl
      | false =>
        have covers := lexeme_covers c cs
        rw [scanFrom_token blank] at last ⊢
        have closed : (lexeme c cs).kind = .string → (lexeme c cs).size ≤ cs.length := by
          intro string
          -- a string that goes on to the end of the text would be the last token
          by_contra long
          have whole : (c :: cs).drop (lexeme c cs).size = [] :=
            List.drop_eq_nil_of_le (Nat.not_le.mp long)
          rw [whole] at last
          exact last _ rfl string
        have within : (lexeme c cs).size ≤ (c :: cs).length := covers.le_length
        rw [List.cons_append, scanFrom_token blank, lexeme_append_feed cs ds c closed,
          ← List.cons_append, List.drop_append_of_le_length within,
          List.take_append_of_le_length within]
        have shorter : ((c :: cs).drop (lexeme c cs).size).length < n := by
          rw [List.length_drop, ← length]
          exact Nat.sub_lt (Nat.succ_pos _) covers.pos
        rw [ih _ shorter _ _ ?_ rfl]
        · rfl
        · intro t mem
          refine last t ?_
          rw [List.getLast?_cons, Option.mem_def.mp mem]
          rfl

/-- Scanning starts anywhere: the tokens of a text some lines further down are its tokens there. -/
theorem scanFrom_down (lines : Nat) (text : List Char) (p : Position) (covered : Nat) :
    scanFrom text (p.down lines) covered =
      ((scanFrom text p covered).1.map (.down lines), (scanFrom text p covered).2.down lines) := by
  have step (p : Position) (c : Char) : (p.down lines).step c = (p.step c).down lines := by
    unfold Position.step Position.down
    split
    · simp only [Nat.add_right_comm]
    · rfl
  fun_induction scanFrom text p covered with
  | case1 => rfl
  | case2 c cs p covered ih => rw [scanFrom, step, ih]
  | case3 c cs p blank ih => rw [scanFrom_blank blank, step, ih]
  | case4 c cs p word l rest ih =>
    rw [scanFrom, if_neg word, step]
    dsimp only
    rw [ih]
    rfl

end Token

/-! ## Reading -/

namespace Grammar

open Parse Relocation

/-- A statement without its semicolon finishes with another token, or in a block that is cut. -/
theorem front_finishes {expr : Precedence → Parse Expr} (accounts : Accounts expr)
    {s s' : ParseState} {st : Stmt} (closed : s.Sealed) (run : front expr s = (some st, s'))
    (clean : s'.diagnostics = []) : Finishes 0 s.ahead s'.behind := by
  -- in each of the three forms an expression comes last
  have value {s : ParseState} {build : Expr → Stmt} (closed : s.Sealed)
      (run : (expr .lowest >>= fun value => pure (build value)) s = (some st, s')) :
      Finishes 0 s.ahead s'.behind := by
    obtain ⟨e, s₁, run₁, run⟩ := bind_eq_some_iff.mp run
    cases run
    exact (accounts.spells _ _ _ _ closed run₁ clean).finishes trivial
  unfold front at run
  rw [bind_current] at run
  cases word : s.current.kind <;> rw [word] at run
  case letWord =>
    obtain ⟨_, s₁, run₁, run⟩ := bind_eq_some_iff.mp run
    obtain ⟨name, rfl⟩ := expect_eq_some_iff.mp run₁
    rw [bind_current] at run
    obtain ⟨_, s₂, run₂, run⟩ := bind_eq_some_iff.mp run
    obtain ⟨sign, rfl⟩ := expect_eq_some_iff.mp run₂
    rw [bind_advance] at run
    rw [ParseState.ahead_eq_of_kind word (by decide), ParseState.behind_eq_of_kind name (by decide),
      ParseState.behind_eq_of_kind sign (by decide)]
    exact .after ((Descends.token word).trans ((Descends.token name).trans (Descends.token sign)))
      (value closed.next.next.next run)
  case returnWord =>
    rw [ParseState.ahead_eq_of_kind word (by decide)]
    exact .after (Descends.token word) (value closed.next run)
  all_goals exact value closed run

/-- A state between two statements: no brace is open in what is left, and the last token, if any is
left, is a semicolon. -/
structure Between (s : ParseState) : Prop where
  closed : s.Sealed
  level : depth s.ahead = 0
  last : ∀ t : Token, [t] <:+ s.ahead → t.kind = .semicolon

namespace Between

variable {expr : Precedence → Parse Expr} (accounts : Accounts expr) {s s' : ParseState}
  (between : Between s) {st : Stmt}

include accounts between

/-- Behind the front of a statement at least its semicolon is left. -/
theorem two_le_remaining (run : front expr s = (some st, s')) (clean : s'.diagnostics = []) :
    2 ≤ s'.remaining := by
  by_contra few
  have none : s'.behind = [] := by
    have length : s'.ahead.length < 2 := Nat.not_le.mp few
    rw [ParseState.behind, ← List.length_eq_zero_iff, List.length_tail]
    omega
  rcases front_finishes accounts between.closed run clean with ⟨t, other, suffix⟩ | ⟨-, deeper⟩
  · exact other (between.last t (none ▸ suffix))
  · exact absurd between.level (Int.ne_of_gt deeper)

/-- The state behind a statement is again between two statements. -/
theorem next (run : statement expr s = (some st, s')) (clean : s'.diagnostics = []) :
    Between s'.next := by
  have spelled := (statement_spells accounts between.closed run clean).descends
  have reached := (statement_orderly accounts.orderly s).run run
  refine ⟨(between.closed.of_reaches reached).next, ?_, fun t h => ?_⟩
  · show depth s'.behind = 0
    by_cases none : s'.behind = []
    · rw [none, depth_nil]
    · have eq := spelled.eq none
      rw [between.level] at eq
      exact (Int.zero_add _).symm.trans eq.symm
  · exact between.last t (h.trans spelled.suffix)

/-- A statement is read in the same way with more tokens behind the last. -/
theorem statement_extended (carries : ∀ (r : Relocation) p s, r.Carries s (expr p) (expr p))
    (tokens : List Token) (stop : Position) (run : statement expr s = (some st, s'))
    (clean : s'.diagnostics = []) :
    s'.ahead ≠ [] ∧
      statement expr (extended tokens stop s) = (some st, extended tokens stop s') := by
  rw [statement_eq_front] at run ⊢
  obtain ⟨_, s₁, front, run⟩ := bind_eq_some_iff.mp run
  obtain ⟨_, s₂, skipped, run⟩ := bind_eq_some_iff.mp run
  cases run
  rw [skip_run, Prod.mk.injEq] at skipped
  obtain ⟨-, skipped⟩ := skipped
  have clean₁ : s₁.diagnostics = [] := by
    rw [← skipped] at clean
    split at clean <;> exact clean
  have two := between.two_le_remaining accounts front clean₁
  have some : s₁.ahead ≠ [] := by
    rw [← List.length_pos_iff]
    exact Nat.lt_of_succ_le (Nat.le_of_succ_le two)
  -- up to here the end is out of view
  have carried := (front_carries (carries (before tokens stop)) (s := s)).run
  rw [front] at carried
  have front' : Grammar.front expr (extended tokens stop s) = (.some st, extended tokens stop s₁) :=
    carried two
  have seen : (extended tokens stop s₁).peek.kind = s₁.peek.kind :=
    ((before tokens stop).peek two).kind
  rw [bind_of_some _ front', bind_of_some _ (skip_run _ _), seen, pure_run, ← skipped]
  split
  · refine ⟨?_, by rw [extended_next some]⟩
    rw [ParseState.next_ahead, ← List.length_pos_iff, List.length_tail]
    exact Nat.sub_pos_of_lt two
  · exact ⟨some, rfl⟩

/-- So is a round that reads a statement. -/
theorem round_extended (carries : ∀ (r : Relocation) p s, r.Carries s (expr p) (expr p))
    (tokens : List Token) (stop : Position) {st? : Option Stmt}
    (read : statementRound expr s = (some st?, s')) (clean : s'.diagnostics = []) :
    Between s' ∧
      statementRound expr (extended tokens stop s) = (some st?, extended tokens stop s') := by
  rw [statementRound_run] at read ⊢
  rcases run : statement expr s with ⟨found, s₁⟩
  rw [run] at read
  cases read
  -- a statement that cannot be read would have left a complaint
  have complains := (statement_orderly accounts.orderly s).complains
  rw [run] at complains
  rcases found with _ | st
  · have complained := complains rfl
    rw [show s₁.diagnostics = [] from clean] at complained
    cases complained
  · obtain ⟨some, extended⟩ := between.statement_extended accounts carries tokens stop run clean
    refine ⟨between.next accounts run clean, ?_⟩
    rw [extended, extended_next some]

end Between

/-- Statements up to the end are read in the same way with more tokens behind the last, and what is
read from those tokens follows. -/
theorem Between.many_extended {expr : Precedence → Parse Expr} (accounts : Accounts expr)
    (carries : ∀ (r : Relocation) p s, r.Carries s (expr p) (expr p)) (tokens : List Token)
    (stop : Position) {s s' : ParseState} {found : List (Option Stmt)}
    (rounds : Rounds (fun s => s.current.kind ≠ .eof) (statementRound expr) s found s')
    (between : Between s) (clean : s'.diagnostics = []) :
    let others := many (fun s => s.current.kind ≠ .eof) (statementRound expr) ⟨tokens, stop, []⟩
    many (fun s => s.current.kind ≠ .eof) (statementRound expr) (extended tokens stop s) =
      (others.1.map (found ++ ·), others.2) := by
  intro others
  induction rounds with
  | @stop s finish =>
    have none : s.ahead = [] := between.closed.ahead_eq_nil (by simpa using finish)
    have start : extended tokens stop s = ⟨tokens, stop, []⟩ := by
      rw [extended, none, clean, List.nil_append]
    rw [start]
    simp only [List.nil_append, Option.map_id']
    rfl
  -- every round reads a token, so none is stuck
  | stuck go read stuck =>
    exact absurd (statementRound_remaining_lt accounts.orderly (of_decide_eq_true go) read) stuck
  | @round s s₁ s' st? found go read rest ih =>
    have real : s.current.kind ≠ .eof := of_decide_eq_true go
    have clean₁ : s₁.diagnostics = [] :=
      (rest.reaches (statementRound_orderly accounts.orderly)).diagnostics_eq_nil clean
    obtain ⟨between₁, read'⟩ := between.round_extended accounts carries tokens stop read clean₁
    have current : (extended tokens stop s).current = s.current := by
      rw [ParseState.current, extended, ParseState.ahead_eq real]
      rfl
    have less : (extended tokens stop s₁).remaining < (extended tokens stop s).remaining :=
      ((before tokens stop).remaining s s₁).mpr
        (statementRound_remaining_lt accounts.orderly real read)
    rw [many_of_round (decide_eq_true (current ▸ real)) read' less, ih between₁ clean]
    simp only [Option.map_map]
    rfl

/-- A program that is read without a complaint up to its last semicolon is read in the same way with
more tokens behind it, and their statements follow. -/
theorem program_extended (tokens : List Token) (stop : Position) {s s' : ParseState}
    {statements : List Stmt} (between : Between s) (run : program s = (some statements, s'))
    (clean : s'.diagnostics = []) :
    program (extended tokens stop s) =
      ((program ⟨tokens, stop, []⟩).1.map (statements ++ ·), (program ⟨tokens, stop, []⟩).2) := by
  obtain ⟨found, s₁, rounds, run⟩ := bind_eq_some_iff.mp run
  cases run
  have both := between.many_extended (expression_climb_spells maxNesting).1
    (fun r => expression_carries maxNesting) tokens stop (rounds_of_many rounds) clean
  have whole (s : ParseState) : program s = (many (fun s => s.current.kind ≠ .eof)
      (statementRound (expression maxNesting)) >>= fun found => pure (found.filterMap id)) s := rfl
  rcases others : many (fun s => s.current.kind ≠ .eof) (statementRound (expression maxNesting))
    ⟨tokens, stop, []⟩ with ⟨_ | found', s₂⟩
  · rw [others] at both
    rw [whole, whole, bind_of_none _ both, bind_of_none _ others]
    rfl
  · rw [others] at both
    rw [whole, whole, bind_of_some _ both, bind_of_some _ others, pure_run, pure_run,
      List.filterMap_append]
    rfl

end Grammar

/-! ## Texts one after the other -/

theorem scan_append_line {first : String} (second : String)
    (last : ∀ t ∈ (scan first).tokens.getLast?, t.kind ≠ .string) :
    scan (first ++ "\n" ++ second) =
      ⟨(scan first).tokens ++ (scan second).tokens.map (.down (1 + first.toList.count '\n')),
        (scan second).stop.down (1 + first.toList.count '\n')⟩ := by
  have text : (first ++ "\n" ++ second).toList = first.toList ++ '\n' :: second.toList := by
    simp
  have finish : (Token.scanFrom first.toList .start 0).2 = .ofOffset first.toList _ :=
    (Token.scanFrom_partition first.toList 0 (Nat.zero_le _)).2
  have start : (Position.ofOffset first.toList first.toList.length).step '\n' =
      Position.start.down (1 + first.toList.count '\n') := by
    unfold Position.ofOffset Position.step
    rw [List.take_length, if_pos rfl]
    exact congrArg (Position.mk · 1) (Nat.add_comm _ 1)
  unfold scan
  rw [text, Token.scanFrom_append_feed _ _ _ last, finish, start, Token.scanFrom_down]

theorem TokenStream.parse_eq (stream : TokenStream) :
    stream.parse = ⟨⟨(Grammar.program (.start stream)).1.getD []⟩,
      (Grammar.program (.start stream)).2.diagnostics⟩ := rfl

section Joined

variable {first : String}

theorem kind_eq_semicolon (last : (scan first).tokens.getLast?.map Token.kind = some .semicolon) :
    ∀ t ∈ (scan first).tokens.getLast?, t.kind = .semicolon := by
  intro t mem
  rw [Option.mem_def.mp mem] at last
  exact Option.some.inj last

theorem Grammar.between_start
    (last : (scan first).tokens.getLast?.map Token.kind = some .semicolon)
    (balanced : (scan first).tokens.countP (·.kind = .leftBrace) =
      (scan first).tokens.countP (·.kind = .rightBrace)) : Between (.start (scan first)) := by
  refine ⟨TokenStream.sealed_scan first, ?_, fun t suffix => ?_⟩
  · show depth (scan first).tokens = 0
    rw [depth_eq, balanced, Int.sub_self]
  · obtain ⟨ts, parts⟩ := suffix
    exact kind_eq_semicolon last t (List.getLast?_eq_some_iff.mpr ⟨ts, parts.symm⟩)

/-- **Texts are read one after the other.**  If a text is read without a complaint, its last token
is a semicolon and it has as many opening as closing braces, then with any text on the lines behind
it the statements of the one are followed by those of the other.  What is wrong with the second text
is found in the same words and the same order, at the lines where it now stands. -/
theorem parse_append_line (clean : (parse first).diagnostics = [])
    (last : (scan first).tokens.getLast?.map Token.kind = some .semicolon)
    (balanced : (scan first).tokens.countP (·.kind = .leftBrace) =
      (scan first).tokens.countP (·.kind = .rightBrace)) (second : String) :
    parse (first ++ "\n" ++ second) =
      ⟨⟨(parse first).program.statements ++ (parse second).program.statements⟩,
        (parse second).diagnostics.map (.down (1 + first.toList.count '\n'))⟩ := by
  have scanned := scan_append_line second fun t mem string => by
    rw [kind_eq_semicolon last t mem] at string
    cases string
  generalize 1 + first.toList.count '\n' = lines at scanned ⊢
  -- the second text is read below the first as it is read alone
  have moved : Grammar.program ⟨(scan second).tokens.map (.down lines),
      (scan second).stop.down lines, []⟩ = ((Grammar.program (.start (scan second))).1,
        (Relocation.below lines).state (Grammar.program (.start (scan second))).2) :=
    (Grammar.program_carries (r := .below lines) (.start (scan second))).run trivial
  have joined : Grammar.program (.start (scan (first ++ "\n" ++ second))) =
      ((Grammar.program (.start (scan second))).1.map ((parse first).program.statements ++ ·),
        (Relocation.below lines).state (Grammar.program (.start (scan second))).2) := by
    obtain ⟨s, run, clean⟩ := TokenStream.program_eq_of_clean clean
    have extended := Grammar.program_extended ((scan second).tokens.map (.down lines))
      ((scan second).stop.down lines) (Grammar.between_start last balanced) run clean
    rw [moved] at extended
    rw [scanned]
    exact extended
  -- and reading statements does not fail
  obtain ⟨statements, found⟩ : ∃ ss, (Grammar.program (.start (scan second))).1 = some ss :=
    Option.isSome_iff_exists.mp (Grammar.isSome_statements _ _ _)
  rw [parse, TokenStream.parse_eq, joined, parse, parse, TokenStream.parse_eq (scan second), found]
  rfl

end Joined

/-- A semicolon, a line feed and a brace in a string are no end of anything, and the second text is
wrong at its start and has a block that is cut. -/
theorem parse_append_line_faulty :
    let first := "let f = fn(x) \x7b if (x) \x7b 'a;\n\x7b' \x7d \x7d;\nf(2);"
    let second := "let = \x7b1: f\x7d; if (y) \x7b 3"
    (parse first).diagnostics = [] ∧
      (scan first).tokens.getLast?.map Token.kind = some .semicolon ∧
      (scan first).tokens.countP (·.kind = .leftBrace) =
        (scan first).tokens.countP (·.kind = .rightBrace) ∧
      (parse (first ++ "\n" ++ second)).program.statements =
        (parse first).program.statements ++ (parse second).program.statements ∧
      (parse second).diagnostics.map Diagnostic.position = [⟨1, 5⟩, ⟨1, 5⟩] ∧
      (parse (first ++ "\n" ++ second)).diagnostics =
        (parse second).diagnostics.map (.down 3) := by
  intro first second
  have clean : (parse first).diagnostics = [] := by decide +kernel
  have last : (scan first).tokens.getLast?.map Token.kind = some .semicolon := by decide +kernel
  have balanced : (scan first).tokens.countP (·.kind = .leftBrace) =
      (scan first).tokens.countP (·.kind = .rightBrace) := by decide +kernel
  have lines : 1 + first.toList.count '\n' = 3 := by decide +kernel
  have joined := parse_append_line clean last balanced second
  rw [lines] at joined
  exact ⟨clean, last, balanced, congrArg (·.program.statements) joined, by decide +kernel,
    congrArg (·.diagnostics) joined⟩

end MonkeyLang
