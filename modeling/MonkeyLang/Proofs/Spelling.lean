import MonkeyLang.Proofs.Reader
import MonkeyLang.Proofs.Scanning
import MonkeyLang.Program.Equality

/-!
# Spellings of programs

The grammar of the language as a relation between trees and tokens, without a word about how it is
read.  `Spells phrase ts rest` says that the tokens `ts` are a spelling of the phrase with the
tokens `rest` behind it.  Each production of the grammar is one rule: it takes its own tokens off
the front and leaves the others to the phrases inside it, in their order.  An expression can stand
in any number of parentheses, and a block lacks its closing brace only if no token is behind it.

A reading of a text without a complaint has accounted for every token: the tokens of the text are a
spelling of the program that was read.

## Main definitions

* `Phrase`, `Spells`: the parts of a program, and their spellings

## Main results

* `Grammar.expression_climb_spells`: what is read as an expression is spelled by the tokens read
* `Grammar.program_spells`: what is read to the end of the tokens is spelled by all of them
* `spells_of_parse_clean`: the tokens of a text that is read without a complaint spell its program
-/

namespace MonkeyLang

/-! ## The grammar as a relation -/

/-- The parts of a program that stretches of tokens spell. -/
inductive Phrase where
  | expr (e : Expr)
  /-- Expressions, each with a comma before it. -/
  | more (es : List Expr)
  /-- A list of expressions with the token that closes it. -/
  | list (close : Token.Kind) (es : List Expr)
  /-- Names of parameters, each with a comma before it. -/
  | moreNames (names : List String)
  /-- The names of the parameters of a function, with the closing parenthesis. -/
  | names (names : List String)
  /-- The entries of a hash literal, without the closing brace. -/
  | entries (pairs : List (Expr × Expr))
  /-- A segment of a slice, which can be left out. -/
  | segment (e? : Option Expr)
  /-- A subscript with its closing bracket. -/
  | subscript (sub : Subscript)
  | stmt (s : Stmt)
  | stmts (ss : List Stmt)
  /-- The statements of a block, with the closing brace. -/
  | block (ss : List Stmt)

/-- At most one semicolon. -/
inductive Ended : List Token → List Token → Prop where
  | bare (ts : List Token) : Ended ts ts
  | semicolon {t : Token} {ts : List Token} (mark : t.kind = .semicolon) : Ended (t :: ts) ts

/-- The tokens `ts` are a spelling of the phrase, with the tokens `rest` behind it. -/
inductive Spells : Phrase → List Token → List Token → Prop where
  | ident {t : Token} {rest : List Token} (word : t.kind = .ident) :
      Spells (.expr (.ident t.literal)) (t :: rest) rest
  | int {t : Token} {rest : List Token} (word : t.kind = .int)
      (fits : digitsValue t.literal.toList < UInt64.size) :
      Spells (.expr (.int (digitsValue t.literal.toList).toUInt64)) (t :: rest) rest
  | float {t : Token} {rest : List Token} (word : t.kind = .float) :
      Spells (.expr (.float (.ofNumeral t.literal.toList))) (t :: rest) rest
  | str {t : Token} {rest : List Token} (word : t.kind = .string) :
      Spells (.expr (.str t.literal)) (t :: rest) rest
  | bool {t : Token} {rest : List Token} (b : Bool)
      (word : t.kind = if b then .trueWord else .falseWord) :
      Spells (.expr (.bool b)) (t :: rest) rest
  /-- Parentheses around an expression leave no trace in the tree. -/
  | group {l r : Token} {e : Expr} {ts rest : List Token} (opening : l.kind = .leftParen)
      (inner : Spells (.expr e) ts (r :: rest)) (closing : r.kind = .rightParen) :
      Spells (.expr e) (l :: ts) rest
  | unary {op : UnaryOp} {t : Token} {e : Expr} {ts rest : List Token} (sign : t.kind = op.kind)
      (operand : Spells (.expr e) ts rest) : Spells (.expr (.unary op e)) (t :: ts) rest
  | binary {op : BinaryOp} {t : Token} {e e' : Expr} {ts mid rest : List Token}
      (left : Spells (.expr e) ts (t :: mid)) (sign : t.kind = op.kind)
      (right : Spells (.expr e') mid rest) : Spells (.expr (.binary op e e')) ts rest
  | array {t : Token} {es : List Expr} {ts rest : List Token} (opening : t.kind = .leftBracket)
      (items : Spells (.list .rightBracket es) ts rest) :
      Spells (.expr (.array es)) (t :: ts) rest
  | hash {l r : Token} {pairs : List (Expr × Expr)} {ts rest : List Token}
      (opening : l.kind = .leftBrace) (entries : Spells (.entries pairs) ts (r :: rest))
      (closing : r.kind = .rightBrace) : Spells (.expr (.hash pairs)) (l :: ts) rest
  | call {t : Token} {e : Expr} {es : List Expr} {ts mid rest : List Token}
      (callee : Spells (.expr e) ts (t :: mid)) (opening : t.kind = .leftParen)
      (args : Spells (.list .rightParen es) mid rest) : Spells (.expr (.call e es)) ts rest
  | index {t : Token} {e : Expr} {sub : Subscript} {ts mid rest : List Token}
      (target : Spells (.expr e) ts (t :: mid)) (opening : t.kind = .leftBracket)
      (segments : Spells (.subscript sub) mid rest) : Spells (.expr (.index e sub)) ts rest
  | cond {i l r b : Token} {e : Expr} {yes : List Stmt} {ts mid rest : List Token}
      (word : i.kind = .ifWord) (opening : l.kind = .leftParen)
      (test : Spells (.expr e) ts (r :: b :: mid)) (closing : r.kind = .rightParen)
      (brace : b.kind = .leftBrace) (block : Spells (.block yes) mid rest) :
      Spells (.expr (.cond e yes none)) (i :: l :: ts) rest
  | condElse {i l r b w b' : Token} {e : Expr} {yes no : List Stmt} {ts mid mid' rest : List Token}
      (word : i.kind = .ifWord) (opening : l.kind = .leftParen)
      (test : Spells (.expr e) ts (r :: b :: mid)) (closing : r.kind = .rightParen)
      (brace : b.kind = .leftBrace) (block : Spells (.block yes) mid (w :: b' :: mid'))
      (word' : w.kind = .elseWord) (brace' : b'.kind = .leftBrace)
      (block' : Spells (.block no) mid' rest) :
      Spells (.expr (.cond e yes (some no))) (i :: l :: ts) rest
  | fn {f l b : Token} {params : List String} {body : List Stmt} {ts mid rest : List Token}
      (word : f.kind = .fnWord) (opening : l.kind = .leftParen)
      (names : Spells (.names params) ts (b :: mid)) (brace : b.kind = .leftBrace)
      (block : Spells (.block body) mid rest) :
      Spells (.expr (.fn params body)) (f :: l :: ts) rest
  | moreNil {ts : List Token} : Spells (.more []) ts ts
  | moreCons {t : Token} {e : Expr} {es : List Expr} {ts mid rest : List Token}
      (comma : t.kind = .comma) (first : Spells (.expr e) ts mid)
      (others : Spells (.more es) mid rest) : Spells (.more (e :: es)) (t :: ts) rest
  | listNil {close : Token.Kind} {t : Token} {rest : List Token} (closing : t.kind = close) :
      Spells (.list close []) (t :: rest) rest
  | listCons {close : Token.Kind} {t : Token} {e : Expr} {es : List Expr} {ts mid rest : List Token}
      (first : Spells (.expr e) ts mid) (others : Spells (.more es) mid (t :: rest))
      (closing : t.kind = close) : Spells (.list close (e :: es)) ts rest
  | moreNamesNil {ts : List Token} : Spells (.moreNames []) ts ts
  | moreNamesCons {t n : Token} {names : List String} {ts rest : List Token}
      (comma : t.kind = .comma) (name : n.kind = .ident)
      (others : Spells (.moreNames names) ts rest) :
      Spells (.moreNames (n.literal :: names)) (t :: n :: ts) rest
  | namesNil {t : Token} {rest : List Token} (closing : t.kind = .rightParen) :
      Spells (.names []) (t :: rest) rest
  | namesCons {n t : Token} {names : List String} {ts rest : List Token} (name : n.kind = .ident)
      (others : Spells (.moreNames names) ts (t :: rest)) (closing : t.kind = .rightParen) :
      Spells (.names (n.literal :: names)) (n :: ts) rest
  | entriesNil {ts : List Token} : Spells (.entries []) ts ts
  /-- The comma behind the last entry can be left out. -/
  | entriesLast {c : Token} {k v : Expr} {ts mid rest : List Token}
      (key : Spells (.expr k) ts (c :: mid)) (colon : c.kind = .colon)
      (value : Spells (.expr v) mid rest) : Spells (.entries [(k, v)]) ts rest
  | entriesCons {c d : Token} {k v : Expr} {pairs : List (Expr × Expr)}
      {ts mid mid' rest : List Token} (key : Spells (.expr k) ts (c :: mid))
      (colon : c.kind = .colon) (value : Spells (.expr v) mid (d :: mid')) (comma : d.kind = .comma)
      (others : Spells (.entries pairs) mid' rest) : Spells (.entries ((k, v) :: pairs)) ts rest
  | segmentNone {ts : List Token} : Spells (.segment none) ts ts
  | segmentSome {e : Expr} {ts rest : List Token} (written : Spells (.expr e) ts rest) :
      Spells (.segment (some e)) ts rest
  | subscriptEmpty {t : Token} {rest : List Token} (closing : t.kind = .rightBracket) :
      Spells (.subscript .empty) (t :: rest) rest
  | subscriptItem {t : Token} {e : Expr} {ts rest : List Token}
      (item : Spells (.expr e) ts (t :: rest)) (closing : t.kind = .rightBracket) :
      Spells (.subscript (.item e)) ts rest
  | subscriptSlice {c t : Token} {start stop : Option Expr} {ts mid rest : List Token}
      (first : Spells (.segment start) ts (c :: mid)) (colon : c.kind = .colon)
      (second : Spells (.segment stop) mid (t :: rest)) (closing : t.kind = .rightBracket) :
      Spells (.subscript (.slice start stop)) ts rest
  | subscriptStepped {c d t : Token} {start stop stride : Option Expr} {ts mid mid' rest : List Token}
      (first : Spells (.segment start) ts (c :: mid)) (colon : c.kind = .colon)
      (second : Spells (.segment stop) mid (d :: mid')) (colon' : d.kind = .colon)
      (third : Spells (.segment stride) mid' (t :: rest)) (closing : t.kind = .rightBracket) :
      Spells (.subscript (.stepped start stop stride)) ts rest
  | bind {l n a : Token} {e : Expr} {ts mid rest : List Token} (word : l.kind = .letWord)
      (name : n.kind = .ident) (sign : a.kind = .assign) (value : Spells (.expr e) ts mid)
      (ended : Ended mid rest) : Spells (.stmt (.bind n.literal e)) (l :: n :: a :: ts) rest
  | ret {r : Token} {e : Expr} {ts mid rest : List Token} (word : r.kind = .returnWord)
      (value : Spells (.expr e) ts mid) (ended : Ended mid rest) :
      Spells (.stmt (.ret e)) (r :: ts) rest
  | exprStmt {e : Expr} {ts mid rest : List Token} (value : Spells (.expr e) ts mid)
      (ended : Ended mid rest) : Spells (.stmt (.expr e)) ts rest
  | stmtsNil {ts : List Token} : Spells (.stmts []) ts ts
  | stmtsCons {s : Stmt} {ss : List Stmt} {ts mid rest : List Token}
      (first : Spells (.stmt s) ts mid) (others : Spells (.stmts ss) mid rest) :
      Spells (.stmts (s :: ss)) ts rest
  | blockClosed {t : Token} {ss : List Stmt} {ts rest : List Token}
      (body : Spells (.stmts ss) ts (t :: rest)) (closing : t.kind = .rightBrace) :
      Spells (.block ss) ts rest
  /-- The closing brace is missing only at the end of the tokens. -/
  | blockCut {ss : List Stmt} {ts : List Token} (body : Spells (.stmts ss) ts []) :
      Spells (.block ss) ts []

/-! ## Repetitions -/

namespace Parse

variable {α : Type} {more : ParseState → Bool} {p : Parse α}

/-- What a repetition relates is what its rounds relate, one behind the other.  The tokens are seen
through `view`, since some rounds start at the current token and some behind it. -/
theorem Rounds.spells (view : ParseState → List Token)
    {R : List α → List Token → List Token → Prop} (orderly : ∀ s, Orderly s (p s))
    (nil : ∀ ts, R [] ts ts)
    (cons : ∀ s a s' as rest, s.Sealed → more s = true → p s = (some a, s') →
      s'.diagnostics = [] → (as ≠ [] → more s' = true) → R as (view s') rest →
      R (a :: as) (view s) rest)
    {s s' : ParseState} {as : List α} (rounds : Rounds more p s as s') (closed : s.Sealed)
    (clean : s'.diagnostics = []) : R as (view s) (view s') := by
  induction rounds with
  | stop => exact nil _
  | stuck go read _ =>
    exact cons _ _ _ [] _ closed go read clean (fun some => absurd rfl some) (nil _)
  -- a round is clean because what follows it is, and complaints are never withdrawn
  | @round s t _ a as go read others ih =>
    refine cons s a t as _ closed go read ((others.reaches orderly).diagnostics_eq_nil clean) ?_
      (ih (closed.of_reaches ((orderly s).run read)) clean)
    -- there is another round only if the condition holds behind this one
    intro some
    cases others with
    | stop => exact absurd rfl some
    | stuck go => exact go
    | round go => exact go

end Parse

/-! ## The readers of the grammar -/

namespace Grammar

open Parse

/-- A reader for expressions that is orderly and accounts for the tokens it reads. -/
structure Accounts (expr : Precedence → Parse Expr) : Prop where
  /-- The reader is orderly. -/
  orderly : ∀ p s, Orderly s (expr p s)
  /-- The tokens that are read without a complaint spell what is read. -/
  spells : ∀ p s e s', s.Sealed → expr p s = (some e, s') → s'.diagnostics = [] →
    Spells (.expr e) s.ahead s'.behind

section Parts

variable {expr : Precedence → Parse Expr} (accounts : Accounts expr) {s s' : ParseState}

include accounts in
theorem expressions_spells {close : Token.Kind} (real : close ≠ .eof) {es : List Expr}
    (closed : s.Sealed) (run : expressions expr close s = (some es, s'))
    (clean : s'.diagnostics = []) : Spells (.list close es) s.behind s'.behind := by
  unfold expressions at run
  rw [bind_peek] at run
  split at run
  · next closing =>
    cases run
    rw [ParseState.behind_eq_of_kind closing real]
    exact .listNil closing
  · rw [bind_advance] at run
    obtain ⟨first, s₁, run₁, run⟩ := bind_eq_some_iff.mp run
    obtain ⟨rest, s₂, run₂, run⟩ := bind_eq_some_iff.mp run
    obtain ⟨_, s₃, run₃, run⟩ := bind_eq_some_iff.mp run
    obtain ⟨closing, rfl⟩ := expect_eq_some_iff.mp run₃
    cases run
    -- the rounds start behind the first expression, each with its comma
    have orderly := comma_round_orderly accounts.orderly
    have rounds := rounds_of_many run₂
    have clean₁ : s₁.diagnostics = [] := (rounds.reaches orderly).diagnostics_eq_nil clean
    have closed₁ : s₁.Sealed := closed.next.of_reaches ((accounts.orderly _ _).run run₁)
    refine .listCons (accounts.spells _ _ _ _ closed.next run₁ clean₁) ?_ closing
    rw [← ParseState.behind_eq_of_kind closing real]
    refine rounds.spells (R := fun es => Spells (.more es)) ParseState.behind orderly
      (fun _ => .moreNil) ?_ closed₁ clean
    intro s e s' es rest closed comma read clean _ others
    rw [bind_advance, bind_advance] at read
    have comma : s.peek.kind = .comma := of_decide_eq_true comma
    rw [ParseState.behind_eq_of_kind comma nofun]
    exact .moreCons comma (accounts.spells _ _ _ _ closed.next.next read clean) others

include accounts in
theorem pair_spells {k v : Expr} (closed : s.Sealed) (run : pair expr s = (some (k, v), s'))
    (clean : s'.diagnostics = []) :
    ∃ c mid, Spells (.expr k) s.behind (c :: mid) ∧ c.kind = .colon ∧
      (s'.peek.kind = .rightBrace ∧ Spells (.expr v) mid s'.behind ∨
        ∃ d, d.kind = .comma ∧ Spells (.expr v) mid (d :: s'.behind)) := by
  unfold pair at run
  rw [bind_advance] at run
  obtain ⟨key, s₁, run₁, run⟩ := bind_eq_some_iff.mp run
  obtain ⟨_, s₂, run₂, run⟩ := bind_eq_some_iff.mp run
  obtain ⟨colon, rfl⟩ := expect_eq_some_iff.mp run₂
  rw [bind_advance] at run
  obtain ⟨value, s₃, run₃, run⟩ := bind_eq_some_iff.mp run
  have closed₁ := closed.next.of_reaches ((accounts.orderly _ _).run run₁)
  -- what stands before the end of the entry is spelled in the same way whether a comma follows
  -- or not
  have value_spells (clean : s₃.diagnostics = []) :
      Spells (.expr key) s.behind (s₁.peek :: s₁.next.behind) ∧
        Spells (.expr value) s₁.next.behind s₃.behind := by
    have clean₁ : s₁.diagnostics = [] := ((accounts.orderly _ _).run run₃).diagnostics_eq_nil clean
    rw [← ParseState.behind_eq_of_kind colon nofun]
    exact ⟨accounts.spells _ _ _ _ closed.next run₁ clean₁,
      accounts.spells _ _ _ _ closed₁.next.next run₃ clean⟩
  rw [bind_peek] at run
  split at run
  · next brace =>
    cases run
    obtain ⟨first, second⟩ := value_spells clean
    exact ⟨_, _, first, colon, .inl ⟨brace, second⟩⟩
  · obtain ⟨_, s₄, run₄, run⟩ := bind_eq_some_iff.mp run
    obtain ⟨comma, rfl⟩ := expect_eq_some_iff.mp run₄
    cases run
    obtain ⟨first, second⟩ := value_spells clean
    rw [ParseState.behind_eq_of_kind comma nofun] at second
    exact ⟨_, _, first, colon, .inr ⟨_, comma, second⟩⟩

include accounts in
theorem pairs_spells {ps : List (Expr × Expr)} (closed : s.Sealed)
    (run : pairs expr s = (some ps, s')) (clean : s'.diagnostics = []) :
    ∃ r, r.kind = .rightBrace ∧ Spells (.entries ps) s.behind (r :: s'.behind) := by
  unfold pairs at run
  obtain ⟨ps', s₁, run₁, run⟩ := bind_eq_some_iff.mp run
  obtain ⟨_, s₂, run₂, run⟩ := bind_eq_some_iff.mp run
  obtain ⟨closing, rfl⟩ := expect_eq_some_iff.mp run₂
  cases run
  refine ⟨_, closing, ?_⟩
  rw [← ParseState.behind_eq_of_kind closing nofun]
  refine (rounds_of_many run₁).spells (R := fun ps => Spells (.entries ps)) ParseState.behind
    (pair_orderly accounts.orderly) (fun _ => .entriesNil) ?_ closed clean
  rintro s ⟨k, v⟩ s' ps rest closed - read clean more others
  obtain ⟨c, mid, key, colon, ⟨brace, value⟩ | ⟨d, comma, value⟩⟩ :=
    pair_spells accounts closed read clean
  · -- without a comma the closing brace is next, so this entry is the last
    cases ps with
    | nil =>
      cases others
      exact .entriesLast key colon value
    | cons => exact absurd brace (of_decide_eq_true (more (List.cons_ne_nil _ _)))
  · exact .entriesCons key colon value comma others

include accounts in
theorem segment_spells {closing : List Token.Kind} {e? : Option Expr} (closed : s.Sealed)
    (run : segment expr closing s = (some e?, s')) (clean : s'.diagnostics = []) :
    Spells (.segment e?) s.behind s'.behind := by
  unfold segment at run
  rw [bind_peek] at run
  split at run
  · cases run
    exact .segmentNone
  · rw [bind_advance] at run
    obtain ⟨e, s₁, run₁, run⟩ := bind_eq_some_iff.mp run
    cases run
    exact .segmentSome (accounts.spells _ _ _ _ closed.next run₁ clean)

include accounts in
theorem sliceFrom_spells {start : Option Expr} {sub : Subscript} {ts : List Token}
    (first : Spells (.segment start) ts s.behind) (colon : s.peek.kind = .colon)
    (closed : s.Sealed) (run : sliceFrom expr start s = (some sub, s'))
    (clean : s'.diagnostics = []) : Spells (.subscript sub) ts s'.behind := by
  unfold sliceFrom at run
  rw [bind_advance] at run
  -- the colon behind the first segment has been seen but not read
  rw [ParseState.behind_eq_of_kind colon nofun] at first
  obtain ⟨stop, s₁, run₁, run⟩ := bind_eq_some_iff.mp run
  have closed₁ := closed.next.of_reaches ((segment_orderly accounts.orderly _ _).run run₁)
  rw [bind_peek] at run
  split at run
  -- a second colon: the stride is written or left out, and the bracket closes
  · next colon' =>
    rw [bind_advance] at run
    obtain ⟨stride, s₂, run₂, run⟩ := bind_eq_some_iff.mp run
    obtain ⟨_, s₃, run₃, run⟩ := bind_eq_some_iff.mp run
    obtain ⟨closing, rfl⟩ := expect_eq_some_iff.mp run₃
    cases run
    have clean₁ : s₁.diagnostics = [] :=
      ((segment_orderly accounts.orderly _ _).run run₂).diagnostics_eq_nil clean
    have second := segment_spells accounts closed.next run₁ clean₁
    have third := segment_spells accounts closed₁.next run₂ clean
    rw [ParseState.behind_eq_of_kind colon' nofun] at second
    rw [ParseState.behind_eq_of_kind closing nofun] at third
    exact .subscriptStepped first colon second colon' third closing
  · obtain ⟨_, s₂, run₂, run⟩ := bind_eq_some_iff.mp run
    obtain ⟨closing, rfl⟩ := expect_eq_some_iff.mp run₂
    cases run
    have second := segment_spells accounts closed.next run₁ clean
    rw [ParseState.behind_eq_of_kind closing nofun] at second
    exact .subscriptSlice first colon second closing

include accounts in
theorem subscript_spells {sub : Subscript} (closed : s.Sealed)
    (run : subscript expr s = (some sub, s')) (clean : s'.diagnostics = []) :
    Spells (.subscript sub) s.behind s'.behind := by
  unfold subscript at run
  rw [bind_peek] at run
  split at run
  · next closing =>
    cases run
    rw [ParseState.behind_eq_of_kind closing nofun]
    exact .subscriptEmpty closing
  · split at run
    · next colon => exact sliceFrom_spells accounts .segmentNone colon closed run clean
    · rw [bind_advance] at run
      obtain ⟨index, s₁, run₁, run⟩ := bind_eq_some_iff.mp run
      have closed₁ := closed.next.of_reaches ((accounts.orderly _ _).run run₁)
      rw [bind_peek] at run
      split at run
      -- the expression was the first segment of a slice
      · next colon =>
        have clean₁ := ((sliceFrom_orderly accounts.orderly _ _).run run).diagnostics_eq_nil clean
        have first := accounts.spells _ _ _ _ closed.next run₁ clean₁
        exact sliceFrom_spells accounts (.segmentSome first) colon closed₁ run clean
      · obtain ⟨_, s₂, run₂, run⟩ := bind_eq_some_iff.mp run
        obtain ⟨closing, rfl⟩ := expect_eq_some_iff.mp run₂
        cases run
        have item := accounts.spells _ _ _ _ closed.next run₁ clean
        rw [ParseState.behind_eq_of_kind closing nofun] at item
        exact .subscriptItem item closing

theorem parameters_spells {names : List String} (closed : s.Sealed)
    (run : (parameters : Parse (List String)) s = (some names, s')) (clean : s'.diagnostics = []) :
    Spells (.names names) s.behind s'.behind := by
  unfold parameters at run
  rw [bind_peek] at run
  split at run
  · next closing =>
    cases run
    rw [ParseState.behind_eq_of_kind closing nofun]
    exact .namesNil closing
  · obtain ⟨_, s₁, run₁, run⟩ := bind_eq_some_iff.mp run
    obtain ⟨name, rfl⟩ := expect_eq_some_iff.mp run₁
    rw [bind_current] at run
    obtain ⟨rest, s₂, run₂, run⟩ := bind_eq_some_iff.mp run
    obtain ⟨_, s₃, run₃, run⟩ := bind_eq_some_iff.mp run
    obtain ⟨closing, rfl⟩ := expect_eq_some_iff.mp run₃
    cases run
    have orderly (s : ParseState) : Orderly s ((advance >>= fun _ => expect .ident >>= fun _ =>
        current >>= fun t => pure t.literal) s) :=
      .bind (.advance s) fun _ s => .bind (.expect _ s) fun _ s => .pure _ s
    rw [ParseState.behind_eq_of_kind name nofun]
    refine .namesCons name ?_ closing
    rw [← ParseState.behind_eq_of_kind closing nofun]
    refine (rounds_of_many run₂).spells (R := fun names => Spells (.moreNames names))
      ParseState.behind orderly (fun _ => .moreNamesNil) ?_ closed.next clean
    intro s a s' names rest closed comma read clean _ others
    rw [bind_advance] at read
    obtain ⟨_, s₁, read₁, read⟩ := bind_eq_some_iff.mp read
    obtain ⟨name, rfl⟩ := expect_eq_some_iff.mp read₁
    cases read
    have comma : s.peek.kind = .comma := of_decide_eq_true comma
    rw [ParseState.behind_eq_of_kind comma nofun,
      ParseState.behind_eq_of_kind name nofun]
    exact .moreNamesCons comma name others

/-- The state behind a statement, with the semicolon skipped if there is one. -/
theorem skip_ended {u : Unit} (run : skip .semicolon s = (some u, s')) :
    Ended s.behind s'.behind := by
  rw [skip_run] at run
  cases run
  split
  · next mark =>
    rw [ParseState.behind_eq_of_kind mark nofun]
    exact .semicolon mark
  · exact .bare _

include accounts in
theorem statement_spells {st : Stmt} (closed : s.Sealed) (run : statement expr s = (some st, s'))
    (clean : s'.diagnostics = []) : Spells (.stmt st) s.ahead s'.behind := by
  -- every statement ends in an expression and what `skip` does behind it
  have ending {s : ParseState} {build : Expr → Stmt} (closed : s.Sealed)
      (run : (expr .lowest >>= fun value => skip .semicolon >>= fun _ => pure (build value)) s =
        (some st, s')) :
      ∃ value mid, st = build value ∧ Spells (.expr value) s.ahead mid ∧ Ended mid s'.behind := by
    obtain ⟨value, s₁, run₁, run⟩ := bind_eq_some_iff.mp run
    obtain ⟨_, s₂, run₂, run⟩ := bind_eq_some_iff.mp run
    cases run
    have clean₁ := ((Orderly.skip _ _).run run₂).diagnostics_eq_nil clean
    exact ⟨value, _, rfl, accounts.spells _ _ _ _ closed run₁ clean₁, skip_ended run₂⟩
  revert run
  apply statement_cases expr s
    (motive := fun result => result = (some st, s') → Spells (.stmt st) s.ahead s'.behind)
  case bind =>
    intro word run
    obtain ⟨_, s₁, run₁, run⟩ := bind_eq_some_iff.mp run
    obtain ⟨name, rfl⟩ := expect_eq_some_iff.mp run₁
    rw [bind_current] at run
    obtain ⟨_, s₂, run₂, run⟩ := bind_eq_some_iff.mp run
    obtain ⟨sign, rfl⟩ := expect_eq_some_iff.mp run₂
    rw [bind_advance] at run
    obtain ⟨value, mid, rfl, spelled, ended⟩ := ending closed.next.next.next run
    rw [ParseState.ahead_eq_of_kind word nofun, ParseState.behind_eq_of_kind name nofun,
      ParseState.behind_eq_of_kind sign nofun]
    exact .bind word name sign spelled ended
  case ret =>
    intro word run
    obtain ⟨value, mid, rfl, spelled, ended⟩ := ending closed.next run
    rw [ParseState.ahead_eq_of_kind word nofun]
    exact .ret word spelled ended
  case value =>
    intro _ _ run
    obtain ⟨value, mid, rfl, spelled, ended⟩ := ending closed run
    exact .exprStmt spelled ended

include accounts in
theorem statements_spells {more : ParseState → Bool} {ss : List Stmt}
    (real : ∀ s, more s = true → s.current.kind ≠ .eof) (closed : s.Sealed)
    (run : statements expr more s = (some ss, s')) (clean : s'.diagnostics = []) :
    Spells (.stmts ss) s.ahead s'.ahead ∧ more s' = false := by
  unfold statements at run
  obtain ⟨found, s₁, run₁, run⟩ := bind_eq_some_iff.mp run
  cases run
  have rounds : Rounds more (statementRound expr) s found s' := rounds_of_many run₁
  refine ⟨?_, rounds.more_eq_false fun s _ s' go read =>
    statementRound_remaining_lt accounts.orderly (real s go) read⟩
  refine rounds.spells (R := fun found => Spells (.stmts (found.filterMap id))) ParseState.ahead
    (statementRound_orderly accounts.orderly) (fun _ => .stmtsNil) ?_ closed clean
  intro s st? s' found rest closed _ read clean _ others
  obtain ⟨_, s₁, read₁, read⟩ := bind_eq_some_iff.mp read
  cases read
  rw [attempt_run] at read₁
  cases read₁
  -- a round goes on behind a statement that cannot be read, and leaves it out
  cases read : statement expr s with
  | mk st? s' =>
  cases st? with
  | none =>
    -- a statement that is left out has left a complaint
    have complains := (statement_orderly accounts.orderly s).complains
    rw [read] at complains clean
    simp [show s'.diagnostics = [] from clean] at complains
  | some st =>
    rw [read] at others
    have clean' : s'.diagnostics = [] := by
      rw [read] at clean
      exact clean
    exact .stmtsCons (statement_spells accounts closed read clean') others

include accounts in
theorem block_spells {ss : List Stmt} (closed : s.Sealed) (run : block expr s = (some ss, s'))
    (clean : s'.diagnostics = []) : Spells (.block ss) s.behind s'.behind := by
  unfold block at run
  rw [bind_advance] at run
  have real (s : ParseState)
      (go : (s.current.kind ≠ .rightBrace && s.current.kind ≠ .eof) = true) :
      s.current.kind ≠ .eof := by
    simp at go
    exact go.2
  obtain ⟨body, stop⟩ := statements_spells accounts real closed.next run clean
  have closed' := closed.next.of_reaches ((statements_orderly accounts.orderly _ _).run run)
  by_cases brace : s'.current.kind = .rightBrace
  · rw [ParseState.ahead_eq_of_kind brace nofun] at body
    exact .blockClosed body brace
  -- the statements stopped at neither a brace nor a statement: the tokens end here
  · have finish : s'.current.kind = .eof := by simpa [brace] using stop
    have ahead := closed'.ahead_eq_nil finish
    have behind : s'.behind = [] := by rw [ParseState.behind, ahead, List.tail_nil]
    rw [ahead] at body
    rw [behind]
    exact .blockCut body

include accounts in
theorem group_spells {e : Expr} (closed : s.Sealed) (opening : s.current.kind = .leftParen)
    (run : group expr s = (some e, s')) (clean : s'.diagnostics = []) :
    Spells (.expr e) s.ahead s'.behind := by
  unfold group at run
  rw [bind_advance] at run
  obtain ⟨inner, s₁, run₁, run⟩ := bind_eq_some_iff.mp run
  obtain ⟨_, s₂, run₂, run⟩ := bind_eq_some_iff.mp run
  obtain ⟨closing, rfl⟩ := expect_eq_some_iff.mp run₂
  cases run
  have inner := accounts.spells _ _ _ _ closed.next run₁ clean
  rw [ParseState.behind_eq_of_kind closing nofun] at inner
  rw [ParseState.ahead_eq_of_kind opening nofun]
  exact .group opening inner closing

include accounts in
theorem conditional_spells {e : Expr} (closed : s.Sealed) (word : s.current.kind = .ifWord)
    (run : conditional expr s = (some e, s')) (clean : s'.diagnostics = []) :
    Spells (.expr e) s.ahead s'.behind := by
  unfold conditional at run
  obtain ⟨_, s₁, run₁, run⟩ := bind_eq_some_iff.mp run
  obtain ⟨opening, rfl⟩ := expect_eq_some_iff.mp run₁
  rw [bind_advance] at run
  obtain ⟨test, s₂, run₂, run⟩ := bind_eq_some_iff.mp run
  obtain ⟨_, s₃, run₃, run⟩ := bind_eq_some_iff.mp run
  obtain ⟨closing, rfl⟩ := expect_eq_some_iff.mp run₃
  obtain ⟨_, s₄, run₄, run⟩ := bind_eq_some_iff.mp run
  obtain ⟨brace, rfl⟩ := expect_eq_some_iff.mp run₄
  obtain ⟨yes, s₅, run₅, run⟩ := bind_eq_some_iff.mp run
  have closed₂ := closed.next.next.of_reaches ((accounts.orderly _ _).run run₂)
  -- test and first block, which both forms of the conditional start with
  have front (clean : s₅.diagnostics = []) :
      Spells (.expr test) s.next.behind (s₂.peek :: s₂.next.peek :: s₂.next.next.behind) ∧
        Spells (.block yes) s₂.next.next.behind s₅.behind := by
    have clean₂ : s₂.diagnostics = [] :=
      ((block_orderly accounts.orderly _).run run₅).diagnostics_eq_nil clean
    rw [← ParseState.behind_eq_of_kind brace nofun,
      ← ParseState.behind_eq_of_kind closing nofun]
    exact ⟨accounts.spells _ _ _ _ closed.next.next run₂ clean₂,
      block_spells accounts closed₂.next.next run₅ clean⟩
  rw [ParseState.ahead_eq_of_kind word nofun, ParseState.behind_eq_of_kind opening nofun]
  rw [bind_peek] at run
  split at run
  · next word' =>
    rw [bind_advance] at run
    obtain ⟨_, s₆, run₆, run⟩ := bind_eq_some_iff.mp run
    obtain ⟨brace', rfl⟩ := expect_eq_some_iff.mp run₆
    obtain ⟨no, s₇, run₇, run⟩ := bind_eq_some_iff.mp run
    cases run
    have clean₅ : s₅.diagnostics = [] :=
      ((block_orderly accounts.orderly _).run run₇).diagnostics_eq_nil clean
    obtain ⟨first, second⟩ := front clean₅
    have closed₅ := closed₂.next.next.of_reaches ((block_orderly accounts.orderly _).run run₅)
    rw [ParseState.behind_eq_of_kind word' nofun,
      ParseState.behind_eq_of_kind brace' nofun] at second
    exact .condElse word opening first closing brace second word' brace'
      (block_spells accounts closed₅.next.next run₇ clean)
  · cases run
    obtain ⟨first, second⟩ := front clean
    exact .cond word opening first closing brace second

include accounts in
theorem function_spells {e : Expr} (closed : s.Sealed) (word : s.current.kind = .fnWord)
    (run : function expr s = (some e, s')) (clean : s'.diagnostics = []) :
    Spells (.expr e) s.ahead s'.behind := by
  unfold function at run
  obtain ⟨_, s₁, run₁, run⟩ := bind_eq_some_iff.mp run
  obtain ⟨opening, rfl⟩ := expect_eq_some_iff.mp run₁
  obtain ⟨params, s₂, run₂, run⟩ := bind_eq_some_iff.mp run
  obtain ⟨_, s₃, run₃, run⟩ := bind_eq_some_iff.mp run
  obtain ⟨brace, rfl⟩ := expect_eq_some_iff.mp run₃
  obtain ⟨body, s₄, run₄, run⟩ := bind_eq_some_iff.mp run
  cases run
  have closed₂ := closed.next.of_reaches ((parameters_orderly _).run run₂)
  have clean₂ : s₂.diagnostics = [] :=
    ((block_orderly accounts.orderly _).run run₄).diagnostics_eq_nil clean
  have names := parameters_spells closed.next run₂ clean₂
  rw [ParseState.behind_eq_of_kind brace nofun] at names
  rw [ParseState.ahead_eq_of_kind word nofun, ParseState.behind_eq_of_kind opening nofun]
  exact .fn word opening names brace (block_spells accounts closed₂.next run₄ clean)

include accounts in
theorem operand_spells {e : Expr} (closed : s.Sealed) (run : operand expr s = (some e, s'))
    (clean : s'.diagnostics = []) : Spells (.expr e) s.ahead s'.behind := by
  revert run
  apply operand_cases expr s
    (motive := fun result => result = (some e, s') → Spells (.expr e) s.ahead s'.behind)
  case ident =>
    rintro kind ⟨⟩
    rw [ParseState.ahead_eq_of_kind kind nofun]
    exact .ident kind
  case int =>
    intro kind run
    unfold integer at run
    split at run
    · next fits =>
      cases run
      rw [ParseState.ahead_eq_of_kind kind nofun]
      exact .int kind fits
    · cases run
  case float =>
    rintro kind ⟨⟩
    rw [ParseState.ahead_eq_of_kind kind nofun]
    exact .float kind
  case string =>
    rintro kind ⟨⟩
    rw [ParseState.ahead_eq_of_kind kind nofun]
    exact .str kind
  case bool =>
    rintro b kind ⟨⟩
    rw [ParseState.ahead_eq_of_kind kind (by cases b <;> decide)]
    exact .bool b kind
  case unary =>
    intro op sign run
    obtain ⟨operand, s₁, run₁, run⟩ := bind_eq_some_iff.mp run
    cases run
    rw [ParseState.ahead_eq_of_kind sign (by cases op <;> decide)]
    exact .unary sign (accounts.spells _ _ _ _ closed.next run₁ clean)
  case paren => exact fun opening run => group_spells accounts closed opening run clean
  case cond => exact fun word run => conditional_spells accounts closed word run clean
  case fn => exact fun word run => function_spells accounts closed word run clean
  case array =>
    intro opening run
    obtain ⟨items, s₁, run₁, run⟩ := bind_eq_some_iff.mp run
    cases run
    rw [ParseState.ahead_eq_of_kind opening nofun]
    exact .array opening (expressions_spells accounts (by decide) closed run₁ clean)
  case hash =>
    intro opening run
    obtain ⟨entries, s₁, run₁, run⟩ := bind_eq_some_iff.mp run
    cases run
    obtain ⟨r, closing, spelled⟩ := pairs_spells accounts closed run₁ clean
    rw [ParseState.ahead_eq_of_kind opening nofun]
    exact .hash opening spelled closing
  case other => exact fun run => nomatch run

include accounts in
/-- What is joined to an expression that is spelled up to the current token. -/
theorem joined_spells {left e : Expr} {ts : List Token} (spelled : Spells (.expr left) ts s.ahead)
    (joins : s.current.kind.precedence ≠ .lowest) (closed : s.Sealed)
    (run : joined expr left s = (some e, s')) (clean : s'.diagnostics = []) :
    Spells (.expr e) ts s'.behind := by
  -- the end token joins nothing
  have real : s.current.kind ≠ .eof := by
    intro finish
    rw [finish] at joins
    exact joins rfl
  rw [ParseState.ahead_eq real] at spelled
  revert run
  apply joined_cases expr s left
    (motive := fun result => result = (some e, s') → Spells (.expr e) ts s'.behind)
  case call =>
    intro opening run
    obtain ⟨args, s₁, run₁, run⟩ := bind_eq_some_iff.mp run
    cases run
    exact .call spelled opening (expressions_spells accounts (by decide) closed run₁ clean)
  case index =>
    intro opening run
    obtain ⟨sub, s₁, run₁, run⟩ := bind_eq_some_iff.mp run
    cases run
    exact .index spelled opening (subscript_spells accounts closed run₁ clean)
  case binary =>
    intro op sign run
    obtain ⟨right, s₁, run₁, run⟩ := bind_eq_some_iff.mp run
    cases run
    exact .binary spelled sign (accounts.spells _ _ _ _ closed.next run₁ clean)
  case other => exact fun lowest => absurd lowest joins

end Parts

/-- What is read as an expression is spelled by the tokens read, whatever is left of the levels, and
so is what is joined to an expression that has been read. -/
theorem expression_climb_spells (room : Nat) :
    Accounts (expression room) ∧
      ∀ p left s e s' ts, s.Sealed → Spells (.expr left) ts s.behind →
        climb room p left s = (some e, s') → s'.diagnostics = [] →
        Spells (.expr e) ts s'.behind := by
  induction room with
  | zero =>
    refine ⟨⟨expression_orderly 0, fun p s e s' _ run => nomatch run⟩, ?_⟩
    intro p left s e s' ts _ spelled run _
    by_cases binds : p.rank < s.peek.kind.precedence.rank
    · rw [climb_zero binds] at run
      cases run
    · rw [climb_of_not_binds binds] at run
      cases run
      exact spelled
  | succ room ih =>
    obtain ⟨accounts, climbs⟩ := ih
    refine ⟨⟨expression_orderly (room + 1), ?_⟩, ?_⟩
    -- an operand, and then what is joined to it
    · intro p s e s' closed run clean
      rw [expression] at run
      obtain ⟨left, s₁, run₁, run⟩ := bind_eq_some_iff.mp run
      have clean₁ := ((climb_orderly _ _ _ _).run run).diagnostics_eq_nil clean
      have closed₁ := closed.of_reaches ((operand_orderly accounts.orderly _).run run₁)
      exact climbs p left s₁ e s' _ closed₁ (operand_spells accounts closed run₁ clean₁) run clean
    · intro p left s e s' ts closed spelled run clean
      by_cases binds : p.rank < s.peek.kind.precedence.rank
      · rw [climb_succ binds] at run
        obtain ⟨next, s₁, run₁, run⟩ := bind_eq_some_iff.mp run
        have clean₁ := ((climb_orderly _ _ _ _).run run).diagnostics_eq_nil clean
        have closed₁ := closed.next.of_reaches ((joined_orderly accounts.orderly _ _).run run₁)
        refine climbs p next s₁ e s' ts closed₁ ?_ run clean
        refine joined_spells accounts spelled ?_ closed.next run₁ clean₁
        -- a token that binds has more than the lowest precedence
        intro lowest
        rw [show s.peek.kind.precedence = .lowest from lowest] at binds
        exact Nat.not_lt_zero _ binds
      · rw [climb_of_not_binds binds] at run
        cases run
        exact spelled

/-- The tokens of a text that is read to its end without a complaint spell what is read. -/
theorem program_spells {s s' : ParseState} {ss : List Stmt} (closed : s.Sealed)
    (run : program s = (some ss, s')) (clean : s'.diagnostics = []) :
    Spells (.stmts ss) s.ahead [] := by
  have accounts : Accounts (expression maxNesting) := (expression_climb_spells maxNesting).1
  unfold program text at run
  obtain ⟨spelled, stop⟩ :=
    statements_spells accounts (fun s go => of_decide_eq_true go) closed run clean
  have closed' := closed.of_reaches ((statements_orderly accounts.orderly _ _).run run)
  -- statements go on up to the end token, and no token of a text is one
  have finish : s'.current.kind = .eof := by simpa using stop
  rwa [closed'.ahead_eq_nil finish] at spelled

end Grammar

/-! ## Clean readings -/

/-- A token stream that is read without a complaint is read to its end. -/
theorem TokenStream.program_eq_of_clean {stream : TokenStream}
    (clean : stream.parse.diagnostics = []) :
    ∃ s, Grammar.program (.start stream) = (some stream.parse.program.statements, s) ∧
      s.diagnostics = [] := by
  have complains := (Grammar.program_orderly (.start stream)).complains
  have clean' : (Grammar.program (.start stream)).2.diagnostics = [] := clean
  cases run : Grammar.program (.start stream) with
  | mk statements? s =>
  rw [run] at complains clean'
  cases statements? with
  -- a program that cannot be read at all would have left a complaint
  | none => simp [show s.diagnostics = [] from clean'] at complains
  | some statements => exact ⟨s, by simp [TokenStream.parse, run], clean'⟩

theorem TokenStream.sealed_scan (source : String) : (ParseState.start (scan source)).Sealed :=
  fun _ h => kind_ne_eof_of_mem_scan h

/-- **A clean reading accounts for every token.**  If a text is read without a complaint, its tokens
are a spelling of its program, and no token is left. -/
theorem spells_of_parse_clean (source : String) (clean : (parse source).diagnostics = []) :
    Spells (.stmts (parse source).program.statements) (scan source).tokens [] := by
  obtain ⟨s, run, clean'⟩ := TokenStream.program_eq_of_clean clean
  exact Grammar.program_spells (TokenStream.sealed_scan source) run clean'

/-- Two blocks that are cut at the end of the text, with a comma behind the entry of a hash literal
and parentheses that leave no trace. -/
theorem spells_of_parse_cut_blocks :
    (parse "fn(x) \x7b if (!x) \x7b h(\x7b1: x[:2],\x7d); \x7d else \x7b (x)").diagnostics = [] ∧
    Spells (.stmts [.expr (.fn ["x"] [.expr (.cond (.unary .not (.ident "x"))
        [.expr (.call (.ident "h")
          [.hash [(.int 1, .index (.ident "x") (.slice none (some (.int 2))))]])]
        (some [.expr (.ident "x")]))])])
      (scan "fn(x) \x7b if (!x) \x7b h(\x7b1: x[:2],\x7d); \x7d else \x7b (x)").tokens [] := by
  have clean :
      (parse "fn(x) \x7b if (!x) \x7b h(\x7b1: x[:2],\x7d); \x7d else \x7b (x)").diagnostics = [] := by
    decide +kernel
  have program :
      (parse "fn(x) \x7b if (!x) \x7b h(\x7b1: x[:2],\x7d); \x7d else \x7b (x)").program =
        ⟨[.expr (.fn ["x"] [.expr (.cond (.unary .not (.ident "x"))
          [.expr (.call (.ident "h")
            [.hash [(.int 1, .index (.ident "x") (.slice none (some (.int 2))))]])]
          (some [.expr (.ident "x")]))])]⟩ := by
    decide +kernel
  have spelled := spells_of_parse_clean _ clean
  rw [program] at spelled
  exact ⟨clean, spelled⟩

end MonkeyLang
