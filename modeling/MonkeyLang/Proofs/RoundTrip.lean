import MonkeyLang.Proofs.BlockAcceptance
import MonkeyLang.Proofs.Canonical

/-!
# Reading the canonical text back

The canonical text of a program is read as the program, unless the reading gets too deep.  Every
expression in the canonical text is an operand with calls joined to it, all else stands in
parentheses.  So what is read of an expression does not depend on where it stands, and neither on
what stands behind it, except for the word that would open a second block.

The parentheses take levels that the source text may not have needed.  What a tree of a given height
needs at most grows with the square of its height: below a tree of height `h` there are at most
`h - 1` calls in a row, each of which takes a level away from what is joined after it.

## Main definitions

* `roomFor`: levels that are enough for the canonical text of a tree of a given height
* `Expr.joins`: the calls in a row at the end of an expression
* `Rereads`: an expression that is read back from its canonical words

## Main results

* `Expr.Plain.rereads`: every plain expression is read back
* `parse_render`: the canonical text of a program that was read without a complaint
-/

namespace MonkeyLang

open ParseState Grammar

/-! ## Levels -/

/-- Levels that are enough to read the canonical text of a tree of the given height. -/
def roomFor : Nat → Nat
  | 0 => 0
  | h + 1 => roomFor h + h + 2

theorem roomFor_mono {h h' : Nat} (le : h ≤ h') : roomFor h ≤ roomFor h' := by
  induction le with
  | refl => exact Nat.le_refl _
  | step _ ih =>
    rw [roomFor]
    omega

/-- The calls in a row at the end of an expression. -/
def Expr.joins : Expr → Nat
  | .call callee _ => callee.joins + 1
  | _ => 0

theorem Expr.joins_lt_height (e : Expr) : e.joins < e.height := by
  induction e using Expr.induction with
  | step e ih =>
  cases e with
  | call callee args =>
    have callee_lt : callee.height < (call callee args).height := height_lt List.mem_cons_self
    have callee_joins := ih callee List.mem_cons_self
    rw [joins]
    omega
  | _ => exact height_pos _

/-! ## Words with commas -/

theorem commas_cons (ws : List Word) (wss : List (List Word)) :
    commas (ws :: wss) = ws ++ wss.flatMap (⟨.comma, ","⟩ :: ·) := by
  induction wss generalizing ws with
  | nil => simp [commas]
  | cons ws' wss ih => rw [commas, ih, List.flatMap_cons, List.cons_append]

section Lists

variable {deep : Prop} {expr : Precedence → Parse Expr}

theorem takesList_commas (orderly : ∀ p s, Parse.Orderly s (expr p s)) {es : List Expr}
    (each : ∀ e ∈ es, Takes deep expr e e.words) :
    TakesList deep expr es (commas (es.map Expr.words)) := by
  cases es with
  | nil => exact .nil
  | cons e es =>
    obtain ⟨first, others⟩ := List.forall_mem_cons.mp each
    rw [List.map_cons, commas_cons]
    refine .cons first ?_
    -- what is left of the list has a comma before each expression
    clear each first
    induction es with
    | nil => exact .nil
    | cons e es ih =>
      obtain ⟨first, others⟩ := List.forall_mem_cons.mp others
      exact .cons orderly rfl first (ih others)

theorem takesEntries_commas (orderly : ∀ p s, Parse.Orderly s (expr p s))
    {pairs : List (Expr × Expr)}
    (each : ∀ e ∈ pairs.flatMap fun pair => [pair.1, pair.2], Takes deep expr e e.words) :
    TakesEntries deep expr pairs
      (commas (pairs.map fun pair => pair.1.words ++ ⟨.colon, ":"⟩ :: pair.2.words)) := by
  induction pairs with
  | nil => exact .nil
  | cons pair pairs ih =>
    obtain ⟨key, value⟩ := pair
    rw [List.flatMap_cons] at each
    obtain ⟨here, others⟩ := List.forall_mem_append.mp each
    have first := here key List.mem_cons_self
    have second := here value (List.mem_cons_of_mem _ List.mem_cons_self)
    cases pairs with
    | nil => exact .last orderly first rfl second
    | cons next pairs =>
      rw [List.map_cons, List.map_cons, commas, List.append_assoc, List.cons_append]
      exact .cons orderly first rfl second rfl (ih others)

theorem names_commas (params : List String) :
    Names params (commas (params.map fun name => [⟨.ident, name⟩])) := by
  cases params with
  | nil => exact .nil
  | cons name params =>
    rw [List.map_cons, commas_cons]
    refine Names.cons (w := ⟨.ident, name⟩) rfl ?_
    induction params with
    | nil => exact .nil
    | cons name params ih => exact MoreNames.cons (w := ⟨.ident, name⟩) rfl rfl ih

theorem takesSegment_words {e? : Option Expr}
    (each : ∀ e ∈ e?.toList, Takes deep expr e e.words) :
    TakesSegment deep expr e? (wordsOptional e?) := by
  cases e? with
  | none => exact .none
  | some e => exact .some (each e (List.mem_singleton.mpr rfl))

theorem takesSubscript_words {sub : Subscript} (each : ∀ e ∈ sub.parts, Takes deep expr e e.words) :
    TakesSubscript deep expr sub sub.words := by
  cases sub with
  | empty => exact .empty
  | item index => exact .item (each index (List.mem_singleton.mpr rfl))
  | slice start stop =>
    obtain ⟨first, second⟩ := List.forall_mem_append.mp each
    exact .slice (takesSegment_words first) rfl (takesSegment_words second)
  | stepped start stop stride =>
    obtain ⟨each, third⟩ := List.forall_mem_append.mp each
    obtain ⟨first, second⟩ := List.forall_mem_append.mp each
    exact .stepped (takesSegment_words first) rfl (takesSegment_words second) rfl
      (takesSegment_words third)

theorem takesStmt_words {st : Stmt} (value : Takes deep expr st.value st.value.words) :
    TakesStmt deep expr st st.words := by
  cases st with
  | bind name e => exact TakesStmt.of_bind (w := ⟨.ident, name⟩) rfl rfl rfl value
  | ret e => exact .of_ret rfl value
  | expr e => exact .of_expr value

theorem takesStmts_words {ss : List Stmt}
    (each : ∀ e ∈ ss.map Stmt.value, Takes deep expr e e.words) :
    TakesStmts deep expr ss (wordsStmts ss) := by
  induction ss with
  | nil => exact .nil
  | cons st ss ih =>
    obtain ⟨value, values⟩ := List.forall_mem_cons.mp each
    exact .cons (takesStmt_words value) rfl (ih values)

theorem takesElse_words {no? : Option (List Stmt)}
    (each : ∀ e ∈ (no?.getD []).map Stmt.value, Takes deep expr e e.words) :
    TakesElse deep expr no? (wordsElse no?) := by
  cases no? with
  | none => exact .none
  | some no => exact .some rfl rfl (takesStmts_words each) rfl

end Lists

/-! ## Expressions -/

/-- The canonical words of the expression start an expression, and wherever they stand they are read
as the expression, if the levels are enough. -/
structure Rereads (e : Expr) : Prop where
  /-- The first word starts an expression. -/
  starts : ∀ rest, (headKind (e.words ++ rest)).startsExpression = true
  /-- Reading comes to the expression, with a level taken for it and for every call in a row. -/
  opens : ∀ room p s rest, s.words = e.words ++ rest → p.rank < Precedence.postfixed.rank →
    headKind rest ≠ .elseWord →
    Opens (room < roomFor e.height) s (expression room p s) p (room - 1 - e.joins) e rest

namespace Rereads

variable {e left right : Expr} {d n : Nat} {w : Word} {ws : List Word}

/-- An expression is read back up to a token that does not bind. -/
theorem gets (rereads : Rereads e) {room : Nat} {p : Precedence} {s : ParseState}
    {rest : List Word} (behind : s.words = e.words ++ rest)
    (loose : p.rank < Precedence.postfixed.rank) (ends : (headKind rest).endsExpression = true) :
    Gets (room < roomFor e.height) s (expression room p s) e fun s' => s'.next.words = rest := by
  refine (rereads.opens room p s rest behind loose ?_).ended ends
  intro word
  rw [word] at ends
  cases ends

theorem takes (rereads : Rereads e) (room : Nat) :
    Takes (room < roomFor e.height) (expression room) e e.words where
  starts := rereads.starts
  gets _ _ behind ends := rereads.gets behind (by decide) ends

/-- An expression whose words are read as an operand. -/
theorem of_operand (starts : ∀ rest, (headKind (e.words ++ rest)).startsExpression = true)
    (noJoins : e.joins = 0)
    (operand : ∀ n s rest, s.words = e.words ++ rest → headKind rest ≠ .elseWord →
      Gets (n + 1 < roomFor e.height) s (operand (expression n) s) e
        fun s' => s'.next.words = rest) : Rereads e where
  starts := starts
  opens room p s rest behind _ notElse := by
    rw [noJoins]
    refine .of_operand (fun zero => ?_) fun n succ => ?_
    -- every expression needs a level
    · obtain ⟨h, height⟩ := Nat.exists_eq_succ_of_ne_zero (Nat.ne_of_gt e.height_pos)
      rw [zero, height, roomFor]
      omega
    · rw [succ]
      exact operand n s rest behind notElse

/-- An expression that is written in parentheses. -/
theorem of_group (words : e.words = ⟨.leftParen, "("⟩ :: (ws ++ [⟨.rightParen, ")"⟩]))
    (noJoins : e.joins = 0) (inner : ∀ n, Takes (n < d) (expression n) e ws)
    (enough : d < roomFor e.height) : Rereads e := by
  refine of_operand (fun rest => ?_) noJoins fun n s rest behind _ => ?_
  · rw [words]
    rfl
  · rw [words, List.cons_append, List.append_assoc] at behind
    exact (operand_gets_group behind rfl (inner n) rfl).mono (by omega)

/-- What is joined to an expression inside parentheses. -/
theorem takes_joined (first : Rereads left) (binds : 0 < w.kind.precedence.rank)
    (notElse : w.kind ≠ .elseWord)
    (joined : ∀ n s rest, s.words = w :: (ws ++ rest) → (headKind rest).endsExpression = true →
      Gets (n < d) s (joined (expression n) left s) e fun s' => s'.next.words = rest)
    (enough : roomFor left.height ≤ d + left.joins + 2) (room : Nat) :
    Takes (room < d + left.joins + 2) (expression room) e (left.words ++ w :: ws) where
  starts rest := by
    rw [List.append_assoc]
    exact first.starts _
  gets s rest behind ends := by
    rw [List.append_assoc] at behind
    -- a level for the operand, one for each of its calls, and one for what is joined
    have opens := (first.opens room .lowest s _ behind (by decide) notElse).mono fun deep =>
      Nat.lt_of_lt_of_le deep enough
    refine (opens.join binds (by omega) fun m s' succ behind' => ?_).ended ends
    exact (joined m s' rest behind' ends).mono (by omega)

/-- An operator before an operand, inside parentheses. -/
theorem takes_unary {op : UnaryOp} (sign : w.kind = op.kind) (operand : Rereads e) (room : Nat) :
    Takes (room < roomFor e.height + 1) (expression room) (.unary op e) (w :: e.words) where
  starts rest := by
    rw [List.cons_append, headKind_cons, sign]
    cases op <;> rfl
  gets s rest behind ends := by
    have opens : Opens (room < roomFor e.height + 1) s (expression room .lowest s) .lowest (room - 1)
        (.unary op e) rest := by
      refine .of_operand (by omega) ?_
      rintro n rfl
      refine operand_gets_unary (by rw [current_kind_of_words behind, sign]) ?_
      exact (operand.gets (p := .unary) (next_words behind) (by decide) ends).mono (by omega)
    exact opens.ended ends

/-- An operator between two operands, inside parentheses. -/
theorem takes_binary {op : BinaryOp} (sign : w.kind = op.kind) (first : Rereads left)
    (second : Rereads right) (leftLe : roomFor left.height ≤ d) (rightLe : roomFor right.height ≤ d)
    (room : Nat) :
    Takes (room < d + left.joins + 2) (expression room) (.binary op left right)
      (left.words ++ w :: right.words) := by
  refine first.takes_joined ?_ ?_ (fun n s rest behind ends => ?_) (by omega) room
  · rw [sign]
    cases op <;> decide
  · rw [sign]
    cases op <;> decide
  · refine joined_gets_binary (by rw [current_kind_of_words behind, sign]) ?_
    -- the second operand is read behind the operator, which binds less than calls do
    refine (second.gets (p := op.precedence) (next_words behind) ?_ ends).mono (by omega)
    cases op <;> decide

/-- A subscript behind its target, inside parentheses. -/
theorem takes_index {sub : Subscript} (target : Rereads left) (targetLe : roomFor left.height ≤ d)
    (parts : ∀ n, ∀ c ∈ sub.parts, Takes (n < d) (expression n) c c.words) (room : Nat) :
    Takes (room < d + left.joins + 2) (expression room) (.index left sub)
      (left.words ++ ⟨.leftBracket, "["⟩ :: (sub.words ++ [⟨.rightBracket, "]"⟩])) := by
  refine target.takes_joined (by decide) (by decide) (fun n s rest behind _ => ?_) (by omega) room
  rw [List.append_assoc] at behind
  exact joined_gets_index (expression_orderly n) behind rfl (takesSubscript_words (parts n)) rfl

end Rereads

/-- An integer literal is read back from its numeral. -/
theorem rereads_int (value : UInt64) : Rereads (.int value) := by
  -- a literal below the limit has a numeral below the limit
  have digits : digitsValue (String.ofList (numeral value.toNat)).toList = value.toNat := by
    rw [String.toList_ofList]
    exact digitsValue_numeral value.toNat
  refine .of_operand (fun _ => rfl) rfl fun n s rest behind _ => ?_
  have read : Gets (n + 1 < roomFor (Expr.int value).height) s (operand (expression n) s) _ _ :=
    operand_gets_int behind rfl (by rw [digits]; exact value.toNat_lt_size)
  rwa [digits, Nat.toUInt64, UInt64.ofNat_toNat] at read

/-- Every plain expression is read back from its canonical words. -/
theorem Expr.Plain.rereads {e : Expr} (plain : e.Plain) : Rereads e := by
  induction plain using Expr.Plain.induction with
  | step e plain ih =>
  -- all children are below some height, and what that takes is enough for each of them
  obtain ⟨h, height⟩ := Nat.exists_eq_succ_of_ne_zero (Nat.ne_of_gt e.height_pos)
  have below (c : Expr) (mem : c ∈ e.children) : c.height ≤ h := by
    have lt := height_lt mem
    omega
  have room : roomFor e.height = roomFor h + h + 2 := by rw [height, roomFor]
  have each (n : Nat) (c : Expr) (mem : c ∈ e.children) :
      Takes (n < roomFor h) (expression n) c c.words :=
    ((ih c mem).takes n).mono fun deep => Nat.lt_of_lt_of_le deep (roomFor_mono (below c mem))
  have levels {n : Nat} : n < roomFor h → n + 1 < roomFor e.height := by omega
  cases e with
  | ident name =>
    exact .of_operand (fun _ => rfl) rfl fun n s rest behind _ => operand_gets_ident behind rfl
  | int value => exact rereads_int value
  | float x => exact absurd (.root _) (plain.noFloat x)
  | bool b =>
    refine .of_operand (fun _ => ?_) rfl fun n s rest behind _ => operand_gets_bool behind rfl
    cases b <;> rfl
  | str text =>
    exact .of_operand (fun _ => rfl) rfl fun n s rest behind _ => operand_gets_str behind rfl
  | array items =>
    refine .of_operand (fun _ => rfl) rfl fun n s rest behind _ => ?_
    rw [words, wordsAll_eq, List.cons_append, List.append_assoc] at behind
    refine (operand_gets_array (expression_orderly n) behind rfl ?_ rfl).mono levels
    exact takesList_commas (expression_orderly n) (each n)
  | hash pairs =>
    refine .of_operand (fun _ => rfl) rfl fun n s rest behind _ => ?_
    rw [words, wordsPairs_eq, List.cons_append, List.append_assoc] at behind
    refine (operand_gets_hash behind rfl ?_ rfl).mono levels
    exact takesEntries_commas (expression_orderly n) (each n)
  | unary op operand =>
    have mem : operand ∈ (unary op operand).children := List.mem_singleton.mpr rfl
    have enough := roomFor_mono (below operand mem)
    exact .of_group (by rw [words, List.cons_append]) rfl ((ih operand mem).takes_unary rfl) (by omega)
  -- there are fewer calls in the left operand than it is high, which leaves a level
  | binary op left right =>
    have memLeft : left ∈ (binary op left right).children := List.mem_cons_self
    have memRight : right ∈ (binary op left right).children :=
      List.mem_cons_of_mem _ (List.mem_singleton.mpr rfl)
    have joins := left.joins_lt_height
    have leftLe := below left memLeft
    refine .of_group (by rw [words, List.append_assoc, List.cons_append]) rfl
      ((ih left memLeft).takes_binary rfl (ih right memRight) (roomFor_mono leftLe)
        (roomFor_mono (below right memRight))) (by omega)
  | cond test yes no =>
    refine .of_operand (fun _ => rfl) rfl fun n s rest behind notElse => ?_
    obtain ⟨first, values⟩ := List.forall_mem_cons.mp (each n)
    obtain ⟨values, values'⟩ := List.forall_mem_append.mp values
    simp only [words, List.append_assoc, List.cons_append] at behind
    exact (operand_gets_cond (expression_orderly n) behind rfl rfl first rfl rfl
      (takesStmts_words values) rfl (takesElse_words values') notElse).mono levels
  | fn params body =>
    refine .of_operand (fun _ => rfl) rfl fun n s rest behind _ => ?_
    simp only [words, List.append_assoc, List.cons_append, List.nil_append] at behind
    exact (operand_gets_fn (expression_orderly n) behind rfl rfl (names_commas params) rfl rfl
      (takesStmts_words (each n)) rfl).mono levels
  -- calls are the only phrases without parentheses that have something joined to them
  | call callee args =>
    have mem : callee ∈ (call callee args).children := List.mem_cons_self
    have joins := callee.joins_lt_height
    have calleeLe := below callee mem
    have enough := roomFor_mono calleeLe
    refine ⟨fun rest => ?_, fun n p s rest behind loose _ => ?_⟩
    · rw [words, List.append_assoc]
      exact (ih callee mem).starts _
    · rw [words, wordsAll_eq, List.append_assoc, List.cons_append, List.append_assoc] at behind
      have notElse : Token.Kind.leftParen ≠ .elseWord := by decide
      have opens := ((ih callee mem).opens n p s _ behind loose notElse).mono
        (show _ → n < roomFor (call callee args).height by omega)
      rw [Expr.joins, ← Nat.sub_sub]
      refine opens.join loose (by omega) fun m s' succ behind' => ?_
      refine (joined_gets_call (expression_orderly m) behind' rfl ?_ rfl).mono
        (show m < roomFor h → _ by omega)
      exact takesList_commas (expression_orderly m) fun c hc => each m c (List.mem_cons_of_mem _ hc)
  | index target sub =>
    have mem : target ∈ (index target sub).children := List.mem_cons_self
    have joins := target.joins_lt_height
    have targetLe := below target mem
    refine .of_group (by rw [words, List.append_assoc, List.cons_append, List.append_assoc]; rfl) rfl
      ((ih target mem).takes_index (roomFor_mono targetLe) fun n c hc => ?_) (by omega)
    exact each n c (List.mem_cons_of_mem _ hc)

/-! ## Programs -/

/-- The canonical text of a plain program whose statements are taken is read as the program. -/
theorem Program.parse_render_of_takes {deep : Prop} {p : Program} (named : NamedStmts p.statements)
    (plain : ∀ st ∈ p.statements, st.value.Plain)
    (takes : ∀ st ∈ p.statements, Takes deep (expression maxNesting) st.value st.value.words) :
    (parse p.render).program = p ∧ (parse p.render).diagnostics = [] ∨
      deep ∧ ∃ d ∈ (parse p.render).diagnostics, d.message = Complaint.nestedTooDeeply.message := by
  refine (scan p.render).parse_of_gets ?_
  refine TakesStmts.gets (fun kind => decide (kind ≠ .eof)) (expression_orderly maxNesting) ?_ rfl
    (takesStmts_words ?_) ?_
  · exact fun _ starts => decide_eq_true (Token.Kind.ne_of_startsStatement starts .eof rfl)
  · intro e value
    obtain ⟨st, mem, rfl⟩ := List.mem_map.mp value
    exact takes st mem
  · rw [List.append_nil, ← Program.scanWords_render named plain]
    rfl

/-- **The canonical text of a program is read as the program.**  For a program without literals that
have a fraction, reading its canonical text gives the program back without a complaint, unless the
reading gets too deep, which it does not for trees up to a height of twenty. -/
theorem parse_render (source : String) (clean : (parse source).diagnostics = [])
    (noFloat : ∀ x, ¬ (parse source).program.Contains (.float x)) :
    ((parse (parse source).program.render).program = (parse source).program ∧
        (parse (parse source).program.render).diagnostics = [] ∨
      ∃ d ∈ (parse (parse source).program.render).diagnostics,
        d.message = "expression nested too deeply") ∧
    ((∀ e, (parse source).program.Contains e → e.height ≤ 20) →
      (parse (parse source).program.render).program = (parse source).program ∧
        (parse (parse source).program.render).diagnostics = []) := by
  have named := named_of_clean clean
  have plain : ∀ st ∈ (parse source).program.statements, st.value.Plain := by
    intro st mem
    exact ⟨named.2 _ (List.mem_map_of_mem mem), fun x within => noFloat x ⟨st, mem, within⟩⟩
  -- reading gets too deep only when one of the statements is too high for the levels
  have takes : ∀ st ∈ (parse source).program.statements,
      Takes (∃ st ∈ (parse source).program.statements, maxNesting < roomFor st.value.height)
        (expression maxNesting) st.value st.value.words := by
    intro st mem
    exact ((plain st mem).rereads.takes maxNesting).mono fun high => ⟨st, mem, high⟩
  rcases Program.parse_render_of_takes named plain takes with found | ⟨⟨st, mem, high⟩, tooDeep⟩
  · exact ⟨.inl found, fun _ => found⟩
  · refine ⟨.inr tooDeep, fun low => absurd high (Nat.not_lt.mpr ?_)⟩
    calc roomFor st.value.height
      _ ≤ roomFor 20 := roomFor_mono (Program.contains_height_le_iff.mp low st mem)
      _ ≤ maxNesting := by decide

/-- A slice of a call below an operator before an operand, with a string that has to be quoted
again. -/
theorem parse_render_slice_of_call :
    (parse "-a * f(1)['x\"y' :]").diagnostics = [] ∧
    (∀ x, ¬ (parse "-a * f(1)['x\"y' :]").program.Contains (.float x)) ∧
    (parse "-a * f(1)['x\"y' :]").program.render = "(-(a*(f(1)[\"x\\\"y\":])));" ∧
    (parse "(-(a*(f(1)[\"x\\\"y\":])));").program = (parse "-a * f(1)['x\"y' :]").program ∧
    (parse "(-(a*(f(1)[\"x\\\"y\":])));").diagnostics = [] := by
  have clean : (parse "-a * f(1)['x\"y' :]").diagnostics = [] := by decide +kernel
  have program : (parse "-a * f(1)['x\"y' :]").program =
      ⟨[.expr (.unary .neg (.binary .mul (.ident "a") (.index (.call (.ident "f") [.int 1])
        (.slice (some (.str "x\"y")) none))))]⟩ := by decide +kernel
  have render : (parse "-a * f(1)['x\"y' :]").program.render = "(-(a*(f(1)[\"x\\\"y\":])));" := by
    decide +kernel
  have below {root : Expr} {x : Binary64} (other : root ≠ .float x) :
      root.Within (.float x) ↔ ∃ c ∈ root.children, c.Within (.float x) := by
    constructor
    · intro within
      cases within with
      | root => exact absurd rfl other
      | inside child within => exact ⟨_, child, within⟩
    · rintro ⟨c, child, within⟩
      exact .inside child within
  have noFloat : ∀ x, ¬ (parse "-a * f(1)['x\"y' :]").program.Contains (.float x) := by
    rw [program]
    rintro x ⟨st, mem, within⟩
    rw [List.mem_singleton.mp mem] at within
    simp [Stmt.value, below, Expr.children, Expr.left?, Expr.others, Subscript.parts] at within
  have again := (parse_render _ clean noFloat).2 ?_
  · rw [render] at again
    exact ⟨clean, noFloat, render, again⟩
  · rw [program, Program.contains_height_le_iff]
    simp [Stmt.value, Expr.height_eq, Expr.children, Expr.left?, Expr.others, Subscript.parts]

end MonkeyLang
