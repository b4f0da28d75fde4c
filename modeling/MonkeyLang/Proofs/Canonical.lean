import MonkeyLang.Proofs.Words
import MonkeyLang.Proofs.Names

/-!
# The words of the canonical text

The canonical text of a tree has the words that one would write for the tree: no two of its pieces
run into each other, although there is hardly a blank between them.  So the words of the text can be
given by recursion over the tree, and nothing about characters is left to know.

Literals with a fraction are left out.  A whole number among them is written without a point, and
reads as an integer.

## Main definitions

* `Expr.words`, `Stmt.words`, `wordsStmts`: the words of the canonical text
* `Expr.Plain`: proper names, and no literal with a fraction

## Main results

* `Expr.Plain.scans`: the words of the canonical text of an expression
* `Program.scanWords_render`: the words of the canonical text of a program
-/

namespace MonkeyLang

/-! ## The words of a tree -/

/-- Words with a comma between each two groups. -/
def commas : List (List Word) → List Word
  | [] => []
  | [ws] => ws
  | ws :: next :: rest => ws ++ ⟨.comma, ","⟩ :: commas (next :: rest)

mutual

/-- The words of the canonical text of an expression. -/
def Expr.words : Expr → List Word
  | .ident name => [⟨.ident, name⟩]
  | .int value => [⟨.int, String.ofList (numeral value.toNat)⟩]
  | .float value => [⟨.float, String.ofList value.text⟩]
  | .bool value => [⟨if value then .trueWord else .falseWord, String.ofList (boolWord value)⟩]
  | .str text => [⟨.string, text⟩]
  | .array items => ⟨.leftBracket, "["⟩ :: (commas (wordsAll items) ++ [⟨.rightBracket, "]"⟩])
  | .hash pairs => ⟨.leftBrace, "\x7b"⟩ :: (commas (wordsPairs pairs) ++ [⟨.rightBrace, "\x7d"⟩])
  | .unary op operand =>
    ⟨.leftParen, "("⟩ :: ⟨op.kind, String.ofList op.sign⟩ :: (operand.words ++ [⟨.rightParen, ")"⟩])
  | .binary op left right =>
    ⟨.leftParen, "("⟩ :: (left.words ++ ⟨op.kind, String.ofList op.sign⟩ ::
      (right.words ++ [⟨.rightParen, ")"⟩]))
  | .cond test yes no =>
    ⟨.ifWord, "if"⟩ :: ⟨.leftParen, "("⟩ :: (test.words ++ ⟨.rightParen, ")"⟩ ::
      ⟨.leftBrace, "\x7b"⟩ :: (wordsStmts yes ++ ⟨.rightBrace, "\x7d"⟩ :: wordsElse no))
  | .fn params body =>
    ⟨.fnWord, "fn"⟩ :: ⟨.leftParen, "("⟩ :: (commas (params.map fun name => [⟨.ident, name⟩]) ++
      ⟨.rightParen, ")"⟩ :: ⟨.leftBrace, "\x7b"⟩ :: (wordsStmts body ++ [⟨.rightBrace, "\x7d"⟩]))
  | .call callee args =>
    callee.words ++ ⟨.leftParen, "("⟩ :: (commas (wordsAll args) ++ [⟨.rightParen, ")"⟩])
  | .index target subscript =>
    ⟨.leftParen, "("⟩ :: (target.words ++ ⟨.leftBracket, "["⟩ ::
      (subscript.words ++ [⟨.rightBracket, "]"⟩, ⟨.rightParen, ")"⟩]))

/-- The words of the canonical texts of expressions. -/
def wordsAll : List Expr → List (List Word)
  | [] => []
  | e :: es => e.words :: wordsAll es

/-- The words of the canonical texts of the entries of a hash literal. -/
def wordsPairs : List (Expr × Expr) → List (List Word)
  | [] => []
  | (key, value) :: rest => (key.words ++ ⟨.colon, ":"⟩ :: value.words) :: wordsPairs rest

/-- The words of the canonical text of a segment that can be left out. -/
def wordsOptional : Option Expr → List Word
  | none => []
  | some e => e.words

/-- The words of the canonical text of a subscript, without its brackets. -/
def Subscript.words : Subscript → List Word
  | .empty => []
  | .item index => index.words
  | .slice start stop => wordsOptional start ++ ⟨.colon, ":"⟩ :: wordsOptional stop
  | .stepped start stop stride =>
    wordsOptional start ++ ⟨.colon, ":"⟩ ::
      (wordsOptional stop ++ ⟨.colon, ":"⟩ :: wordsOptional stride)

/-- The words of the canonical text of a statement, without its semicolon. -/
def Stmt.words : Stmt → List Word
  | .bind name value => ⟨.letWord, "let"⟩ :: ⟨.ident, name⟩ :: ⟨.assign, "="⟩ :: value.words
  | .ret value => ⟨.returnWord, "return"⟩ :: value.words
  | .expr value => value.words

/-- The words of the canonical texts of statements. -/
def wordsStmts : List Stmt → List Word
  | [] => []
  | st :: ss => st.words ++ ⟨.semicolon, ";"⟩ :: wordsStmts ss

/-- The words of the canonical text of the second block of a conditional. -/
def wordsElse : Option (List Stmt) → List Word
  | none => []
  | some body =>
    ⟨.elseWord, "else"⟩ :: ⟨.leftBrace, "\x7b"⟩ :: (wordsStmts body ++ [⟨.rightBrace, "\x7d"⟩])

end

theorem wordsAll_eq (es : List Expr) : wordsAll es = es.map Expr.words := by
  induction es with
  | nil => rfl
  | cons e es ih => rw [wordsAll, ih, List.map_cons]

theorem wordsPairs_eq (pairs : List (Expr × Expr)) :
    wordsPairs pairs = pairs.map fun pair => pair.1.words ++ ⟨.colon, ":"⟩ :: pair.2.words := by
  induction pairs with
  | nil => rfl
  | cons pair pairs ih => rw [wordsPairs, ih, List.map_cons]

theorem renderAll_eq (es : List Expr) : renderAll es = es.map Expr.render := by
  induction es with
  | nil => rfl
  | cons e es ih => rw [renderAll, ih, List.map_cons]

theorem renderPairs_eq (pairs : List (Expr × Expr)) :
    renderPairs pairs = pairs.map fun pair => pair.1.render ++ ':' :: pair.2.render := by
  induction pairs with
  | nil => rfl
  | cons pair pairs ih => rw [renderPairs, ih, List.map_cons]

/-! ## Plain trees -/

/-- All names in the tree are proper, and no literal in it has a fraction. -/
structure Expr.Plain (root : Expr) : Prop where
  /-- The names are proper. -/
  named : root.Named
  /-- No literal has a fraction. -/
  noFloat : ∀ x, ¬ root.Within (.float x)

theorem Expr.Plain.child {e c : Expr} (plain : e.Plain) (h : c ∈ e.children) : c.Plain where
  named := (named_iff.mp plain.named).2 c h
  noFloat x within := plain.noFloat x (.inside h within)

/-- Without names and numbers of its own an expression is as plain as its children. -/
theorem Expr.Plain.of_children {e : Expr} (noNames : e.names = []) (notFloat : ∀ x, e ≠ .float x)
    (h : ∀ c ∈ e.children, c.Plain) : e.Plain where
  named := .of_children noNames fun c mem => (h c mem).named
  noFloat x within := by
    cases within with
    | root => exact notFloat x rfl
    | inside child within => exact (h _ child).noFloat x within

/-- Induction over plain trees. -/
@[elab_as_elim]
theorem Expr.Plain.induction {motive : (e : Expr) → e.Plain → Prop}
    (step : ∀ (e : Expr) (plain : e.Plain),
      (∀ c (h : c ∈ e.children), motive c (plain.child h)) → motive e plain)
    {e : Expr} (plain : e.Plain) : motive e plain := by
  refine Expr.induction (P := fun e => ∀ plain : e.Plain, motive e plain) ?_ e plain
  exact fun e ih plain => step e plain fun c h => ih c h (plain.child h)

/-! ## The words of the pieces -/

/-- The text has the words `ws`, and it does not run on into a text behind a boundary. -/
def Scans (text : List Char) (ws : List Word) : Prop :=
  ∀ rest, Boundary rest → scanWords (text ++ rest) = ws ++ scanWords rest

section Reserved

variable (cs : List Char)

theorem scanWords_let :
    scanWords ('l' :: 'e' :: 't' :: ' ' :: cs) = ⟨.letWord, "let"⟩ :: scanWords cs := by
  show scanWords (['l', 'e', 't'] ++ ' ' :: cs) = _
  rw [scanWords_reserved rfl (.cons ' ' cs rfl), scanWords_blank rfl]

theorem scanWords_return : scanWords ('r' :: 'e' :: 't' :: 'u' :: 'r' :: 'n' :: ' ' :: cs) =
    ⟨.returnWord, "return"⟩ :: scanWords cs := by
  show scanWords (['r', 'e', 't', 'u', 'r', 'n'] ++ ' ' :: cs) = _
  rw [scanWords_reserved rfl (.cons ' ' cs rfl), scanWords_blank rfl]

theorem scanWords_if : scanWords ('i' :: 'f' :: '(' :: cs) =
    ⟨.ifWord, "if"⟩ :: ⟨.leftParen, "("⟩ :: scanWords cs := by
  show scanWords (['i', 'f'] ++ '(' :: cs) = _
  rw [scanWords_reserved rfl (.cons '(' cs rfl), scanWords_symbol rfl]

theorem scanWords_fn : scanWords ('f' :: 'n' :: '(' :: cs) =
    ⟨.fnWord, "fn"⟩ :: ⟨.leftParen, "("⟩ :: scanWords cs := by
  show scanWords (['f', 'n'] ++ '(' :: cs) = _
  rw [scanWords_reserved rfl (.cons '(' cs rfl), scanWords_symbol rfl]

theorem scanWords_else : scanWords ('e' :: 'l' :: 's' :: 'e' :: '\x7b' :: cs) =
    ⟨.elseWord, "else"⟩ :: ⟨.leftBrace, "\x7b"⟩ :: scanWords cs := by
  show scanWords (['e', 'l', 's', 'e'] ++ '\x7b' :: cs) = _
  rw [scanWords_reserved rfl (.cons '\x7b' cs rfl), scanWords_symbol rfl]

end Reserved

section Pieces

variable {rest : List Char}

/-- Texts with commas between them. -/
theorem scanWords_separated {α : Type} {text : α → List Char} {words : α → List Word} {as : List α}
    (each : ∀ a ∈ as, Scans (text a) (words a)) (boundary : Boundary rest) :
    scanWords (separated ',' (as.map text) ++ rest) = commas (as.map words) ++ scanWords rest := by
  induction as with
  | nil => rfl
  | cons a as ih =>
    have first := each a List.mem_cons_self
    have others := ih fun b hb => each b (List.mem_cons_of_mem a hb)
    cases as with
    | nil => exact first rest boundary
    | cons b bs =>
      -- the comma ends the first text
      simp only [List.map_cons, separated, commas] at others ⊢
      rw [List.append_assoc, List.append_assoc, List.cons_append, List.cons_append,
        first _ (.cons ',' _ rfl), scanWords_symbol rfl, others]

theorem scanWords_optional {e? : Option Expr} (each : ∀ e ∈ e?.toList, Scans e.render e.words)
    (boundary : Boundary rest) :
    scanWords (renderOptional e? ++ rest) = wordsOptional e? ++ scanWords rest := by
  cases e? with
  | none => rfl
  | some e => exact each e (List.mem_singleton.mpr rfl) rest boundary

theorem scanWords_subscript {sub : Subscript} (each : ∀ e ∈ sub.parts, Scans e.render e.words)
    (boundary : Boundary rest) :
    scanWords (sub.render ++ rest) = sub.words ++ scanWords rest := by
  have colon (cs : List Char) : Boundary (':' :: cs) := .cons ':' cs rfl
  cases sub with
  | empty => rfl
  | item index => exact each index (List.mem_singleton.mpr rfl) rest boundary
  | slice start stop =>
    obtain ⟨first, second⟩ := List.forall_mem_append.mp each
    simp only [Subscript.render, Subscript.words, List.append_assoc, List.cons_append]
    rw [scanWords_optional first (colon _), scanWords_symbol rfl, scanWords_optional second boundary]
  | stepped start stop stride =>
    obtain ⟨each, third⟩ := List.forall_mem_append.mp each
    obtain ⟨first, second⟩ := List.forall_mem_append.mp each
    simp only [Subscript.render, Subscript.words, List.append_assoc, List.cons_append]
    rw [scanWords_optional first (colon _), scanWords_symbol rfl, scanWords_optional second (colon _),
      scanWords_symbol rfl, scanWords_optional third boundary]

/-- A statement ends with its semicolon, so it does not run on into anything. -/
theorem scanWords_stmt {st : Stmt} (named : ∀ name ∈ boundNames [st], IsName name)
    (value : Scans st.value.render st.value.words) (rest : List Char) :
    scanWords (st.render ++ rest) = st.words ++ ⟨.semicolon, ";"⟩ :: scanWords rest := by
  -- every statement is its value with words before it
  have semicolon : scanWords (st.value.render ++ ';' :: rest) =
      st.value.words ++ ⟨.semicolon, ";"⟩ :: scanWords rest := by
    rw [value _ (.cons ';' rest rfl), scanWords_symbol rfl]
  cases st with
  | bind name e =>
    have name' := named name (List.mem_singleton.mpr rfl)
    simp only [Stmt.render, Stmt.words, List.append_assoc, List.cons_append, List.nil_append]
    rw [scanWords_let, scanWords_name name' (.cons ' ' _ rfl), scanWords_blank rfl,
      scanWords_assign (by simp), scanWords_blank rfl]
    exact congrArg _ (congrArg _ (congrArg _ semicolon))
  | ret e =>
    simp only [Stmt.render, Stmt.words, List.append_assoc, List.cons_append, List.nil_append]
    rw [scanWords_return]
    exact congrArg _ semicolon
  | expr e =>
    simp only [Stmt.render, Stmt.words, List.append_assoc, List.singleton_append]
    exact semicolon

theorem scanWords_stmts {ss : List Stmt} (named : ∀ name ∈ boundNames ss, IsName name)
    (each : ∀ e ∈ ss.map Stmt.value, Scans e.render e.words) (rest : List Char) :
    scanWords (renderStmts ss ++ rest) = wordsStmts ss ++ scanWords rest := by
  induction ss with
  | nil => rfl
  | cons st ss ih =>
    rw [boundNames_cons] at named
    obtain ⟨first, others⟩ := List.forall_mem_append.mp named
    obtain ⟨value, values⟩ := List.forall_mem_cons.mp each
    rw [renderStmts, wordsStmts, List.append_assoc, scanWords_stmt first value, ih others values,
      List.append_assoc, List.cons_append]

theorem scanWords_otherwise {no? : Option (List Stmt)}
    (named : ∀ name ∈ boundNames (no?.getD []), IsName name)
    (each : ∀ e ∈ (no?.getD []).map Stmt.value, Scans e.render e.words) (rest : List Char) :
    scanWords (renderElse no? ++ rest) = wordsElse no? ++ scanWords rest := by
  cases no? with
  | none => rfl
  | some no =>
    have body : ∀ rest, scanWords (renderStmts no ++ rest) = wordsStmts no ++ scanWords rest :=
      scanWords_stmts named each
    simp only [renderElse, wordsElse, List.append_assoc, List.cons_append, List.nil_append]
    rw [scanWords_else, body, scanWords_symbol rfl]

/-- The sign of an operator between operands runs on into nothing. -/
theorem scanWords_sign (op : BinaryOp) (cs : List Char) :
    scanWords (op.sign ++ cs) = ⟨op.kind, String.ofList op.sign⟩ :: scanWords cs := by
  cases op
  case eq => exact scanWords_equals cs
  case ne => exact scanWords_differs cs
  all_goals exact scanWords_symbol rfl cs

/-- No operand runs on into the sign of an operator. -/
theorem boundary_sign (op : BinaryOp) (cs : List Char) : Boundary (op.sign ++ cs) := by
  cases op <;> exact .cons _ _ rfl

end Pieces

/-! ## The words of trees -/

/-- The canonical text of a plain tree does not start with the sign that would make another sign of
the negation before it. -/
theorem Expr.Plain.head?_render {e : Expr} (plain : e.Plain) :
    ∀ cs : List Char, cs.head? ≠ some '=' → (e.render ++ cs).head? ≠ some '=' := by
  induction plain using Expr.Plain.induction with
  | step e plain ih =>
  intro cs stop
  have first {c : Char} (h : c ≠ '=') (cs : List Char) : (c :: cs).head? ≠ some '=' :=
    fun same => h (Option.some.inj same)
  cases e with
  | ident name =>
    -- a name starts with a letter or a low line
    obtain ⟨c, ds, chars, start, -⟩ := (named_iff.mp plain.named).1 name (List.mem_singleton.mpr rfl)
    rw [render, chars]
    refine first ?_ _
    rintro rfl
    cases start
  | int value =>
    obtain ⟨c, ds, digits⟩ :=
      List.exists_cons_of_ne_nil (Nat.toDigits_ne_nil (n := value.toNat) (b := 10))
    have digit : c.isDigit = true :=
      Nat.isDigit_of_mem_toDigits (by decide) (by decide) (digits ▸ List.mem_cons_self)
    rw [render, numeral, digits]
    refine first ?_ _
    rintro rfl
    cases digit
  | float x => exact absurd (.root _) (plain.noFloat x)
  | bool value => cases value <;> simp [render, boolWord]
  | call callee args =>
    rw [children_call] at ih
    rw [render, List.append_assoc, List.append_assoc]
    -- the only text that starts with the text of a child
    refine ih callee List.mem_cons_self _ ?_
    exact first (by decide) _
  | str text => simp [render, Text.Quoted.encode]
  | array | hash | unary | binary | cond | fn | index => simp [render]

/-- The canonical text of a plain tree has the words of the tree. -/
theorem Expr.Plain.scans {e : Expr} (plain : e.Plain) : Scans e.render e.words := by
  induction plain using Expr.Plain.induction with
  | step e plain ih =>
  intro rest boundary
  have named := (named_iff.mp plain.named).1
  have paren (cs : List Char) : Boundary (')' :: cs) := .cons ')' cs rfl
  cases e with
  | ident name =>
    rw [render, words]
    exact scanWords_name (named name (List.mem_singleton.mpr rfl)) boundary
  | int value =>
    rw [render, words]
    refine scanWords_digits Nat.toDigits_ne_nil (fun c hc => ?_) boundary
    exact Nat.isDigit_of_mem_toDigits (by decide) (by decide) hc
  | float x => exact absurd (.root _) (plain.noFloat x)
  | bool value => cases value <;> exact scanWords_reserved rfl boundary
  | str text =>
    rw [render, words, scanWords_quoted, String.ofList_toList]
    rfl
  | array items =>
    rw [children_array] at ih
    simp only [render, words, renderAll_eq, wordsAll_eq, List.append_assoc, List.cons_append,
      List.nil_append]
    rw [scanWords_symbol rfl, scanWords_separated ih (.cons ']' _ rfl), scanWords_symbol rfl]
  | hash pairs =>
    rw [children_hash] at ih
    simp only [render, words, renderPairs_eq, wordsPairs_eq, List.append_assoc, List.cons_append,
      List.nil_append]
    rw [scanWords_symbol rfl, scanWords_separated ?_ (.cons '\x7d' _ rfl), scanWords_symbol rfl]
    -- an entry is a key and a value with a colon between them
    intro pair mem rest boundary
    have key := ih pair.1 (List.mem_flatMap.mpr ⟨pair, mem, List.mem_cons_self⟩)
    have value := ih pair.2 (List.mem_flatMap.mpr ⟨pair, mem, by simp⟩)
    simp only [List.append_assoc, List.cons_append]
    rw [key _ (.cons ':' _ rfl), scanWords_symbol rfl, value rest boundary]
  | unary op operand =>
    have inner := ih operand (List.mem_singleton.mpr rfl) _ (paren rest)
    have closed : scanWords (operand.render ++ ')' :: rest) =
        operand.words ++ ⟨.rightParen, ")"⟩ :: scanWords rest := by
      rw [inner, scanWords_symbol rfl]
    simp only [render, words, List.append_assoc, List.cons_append, List.nil_append]
    rw [scanWords_symbol rfl]
    cases op with
    | neg =>
      show _ :: scanWords ('-' :: (operand.render ++ ')' :: rest)) = _
      rw [scanWords_symbol rfl, closed]
      rfl
    | not =>
      -- no equality sign follows, so the sign is not taken for that of inequality
      have head := (plain.child (List.mem_singleton.mpr rfl)).head?_render (')' :: rest) (by simp)
      show _ :: scanWords ('!' :: (operand.render ++ ')' :: rest)) = _
      rw [scanWords_bang head, closed]
      rfl
  | binary op left right =>
    rw [children_binary] at ih
    have first := ih left List.mem_cons_self
    have second := ih right (List.mem_cons_of_mem _ (List.mem_singleton.mpr rfl))
    simp only [render, words, List.append_assoc, List.cons_append, List.nil_append]
    rw [scanWords_symbol rfl, first _ (boundary_sign op _), scanWords_sign, second _ (paren rest),
      scanWords_symbol rfl]
  | cond test yes no =>
    rw [children_cond] at ih
    obtain ⟨bound, bound'⟩ := List.forall_mem_append.mp named
    obtain ⟨first, values⟩ := List.forall_mem_cons.mp ih
    obtain ⟨values, values'⟩ := List.forall_mem_append.mp values
    simp only [render, words, List.append_assoc, List.cons_append, List.nil_append]
    rw [scanWords_if, first _ (paren _), scanWords_symbol rfl, scanWords_symbol rfl,
      scanWords_stmts bound values, scanWords_symbol rfl, scanWords_otherwise bound' values']
  | fn params body =>
    rw [children_fn] at ih
    obtain ⟨proper, bound⟩ := List.forall_mem_append.mp named
    simp only [render, words, List.append_assoc, List.cons_append, List.nil_append]
    rw [scanWords_fn, scanWords_separated ?_ (paren _), scanWords_symbol rfl, scanWords_symbol rfl,
      scanWords_stmts bound ih, scanWords_symbol rfl]
    intro name mem rest boundary
    exact scanWords_name (proper name mem) boundary
  | call callee args =>
    rw [children_call] at ih
    obtain ⟨first, others⟩ := List.forall_mem_cons.mp ih
    simp only [render, words, renderAll_eq, wordsAll_eq, List.append_assoc, List.cons_append,
      List.nil_append]
    rw [first _ (.cons '(' _ rfl), scanWords_symbol rfl, scanWords_separated others (paren rest),
      scanWords_symbol rfl]
  | index target sub =>
    rw [children_index] at ih
    obtain ⟨first, parts⟩ := List.forall_mem_cons.mp ih
    simp only [render, words, List.append_assoc, List.cons_append, List.nil_append]
    rw [scanWords_symbol rfl, first _ (.cons '[' _ rfl), scanWords_symbol rfl,
      scanWords_subscript parts (.cons ']' _ rfl), scanWords_symbol rfl, scanWords_symbol rfl]

/-- The canonical text of a program has the words of its statements, since a line feed is blank. -/
theorem Program.scanWords_render {p : Program} (named : NamedStmts p.statements)
    (plain : ∀ st ∈ p.statements, st.value.Plain) :
    scanWords p.render.toList = wordsStmts p.statements := by
  rw [Program.render, String.toList_ofList]
  revert named plain
  induction p.statements with
  | nil => exact fun _ _ => rfl
  | cons st ss ih =>
    intro named plain
    obtain ⟨first, others⟩ := namedStmts_cons.mp named
    obtain ⟨here, below⟩ := List.forall_mem_cons.mp plain
    have stmt := scanWords_stmt first.1 here.scans
    rw [wordsStmts, ← ih others below, List.map_cons]
    cases ss with
    -- behind the last statement there is no line feed
    | nil => simpa [separated] using stmt []
    | cons next ss => rw [List.map_cons, separated, stmt, scanWords_blank rfl]

end MonkeyLang
