import MonkeyLang.Proofs.Acceptance
import MonkeyLang.Program.Equality

/-!
# The grouping of operators

The grammar of expressions without a word about binding strengths: a ladder of strata, each made of
phrases of the stratum below.  The operators before an operand stand between the sums and the
products, and the last factor of a product can be signed, in which case it takes all that a signed
phrase takes.

`Derives` is that grammar.  Every derivation is found by reading its words, and the tree that is
read is the tree of the derivation.  Only the nesting can get in the way, and it takes more words
than there are levels for that.

## Main definitions

* `Stratum`, `Derives`: the strata, and the derivations of phrases
* `Reads`: a phrase that is found by reading its words

## Main results

* `Reads.chain`, `Reads.signed`, `Reads.prefixed`, `Reads.call`, …: one for each rule of the grammar
* `Derives.accepted`: every derivation is found
* `parse_of_derives`: the words of a derivation are read as the tree of the derivation
-/

namespace MonkeyLang

/-! ## The grammar -/

/-- The strata of the grammar of expressions, from the loosest to the tightest. -/
inductive Stratum where
  | equality
  | comparison
  | sum
  | unary
  | product
  | factors
  | postfixed
  | primary

namespace Stratum

/-- The stratum below. -/
def inner : Stratum → Stratum
  | equality => comparison
  | comparison => sum
  | sum => unary
  | unary => product
  | product => factors
  | factors => postfixed
  | postfixed => primary
  | primary => primary

end Stratum

/-- The stratum in which an operator joins phrases. -/
def BinaryOp.stratum : BinaryOp → Stratum
  | eq | ne => .equality
  | lt | gt => .comparison
  | add | sub => .sum
  | mul | div => .factors

/-- The phrases of the grammar, with what they stand for. -/
inductive Category where
  | term (stratum : Stratum) (e : Expr)
  /-- Expressions, each with a comma before it. -/
  | more (es : List Expr)
  /-- Expressions with commas between them. -/
  | arguments (es : List Expr)
  /-- A segment of a slice, which can be left out. -/
  | segment (e? : Option Expr)
  | subscript (sub : Subscript)

/-- Derivations of phrases from words. -/
inductive Derives : Category → List Word → Prop where
  /-- Every phrase is a phrase of the strata above. -/
  | within {stratum : Stratum} {e : Expr} {ws : List Word}
      (phrase : Derives (.term stratum.inner e) ws) : Derives (.term stratum e) ws
  /-- A chain of operators of one stratum is folded to the left. -/
  | chain {op : BinaryOp} {w : Word} {left right : Expr} {ws ws' : List Word}
      (first : Derives (.term op.stratum left) ws) (sign : w.kind = op.kind)
      (last : Derives (.term op.stratum.inner right) ws') :
      Derives (.term op.stratum (.binary op left right)) (ws ++ w :: ws')
  /-- The last factor of a product can be signed. -/
  | signed {op : BinaryOp} {op' : UnaryOp} {w w' : Word} {left right : Expr} {ws ws' : List Word}
      (first : Derives (.term .factors left) ws) (factor : op.stratum = .factors)
      (sign : w.kind = op.kind) (sign' : w'.kind = op'.kind)
      (last : Derives (.term .unary right) ws') :
      Derives (.term .product (.binary op left (.unary op' right))) (ws ++ w :: w' :: ws')
  /-- An operator before an operand is applied to the whole signed phrase behind it. -/
  | prefixed {op : UnaryOp} {w : Word} {e : Expr} {ws : List Word} (sign : w.kind = op.kind)
      (operand : Derives (.term .unary e) ws) : Derives (.term .unary (.unary op e)) (w :: ws)
  | call {l r : Word} {e : Expr} {es : List Expr} {ws ws' : List Word}
      (callee : Derives (.term .postfixed e) ws) (opening : l.kind = .leftParen)
      (args : Derives (.arguments es) ws') (closing : r.kind = .rightParen) :
      Derives (.term .postfixed (.call e es)) (ws ++ l :: (ws' ++ [r]))
  | index {l r : Word} {e : Expr} {sub : Subscript} {ws ws' : List Word}
      (target : Derives (.term .postfixed e) ws) (opening : l.kind = .leftBracket)
      (segments : Derives (.subscript sub) ws') (closing : r.kind = .rightBracket) :
      Derives (.term .postfixed (.index e sub)) (ws ++ l :: (ws' ++ [r]))
  | ident {w : Word} (word : w.kind = .ident) : Derives (.term .primary (.ident w.literal)) [w]
  | int {w : Word} (word : w.kind = .int) (fits : digitsValue w.literal.toList < UInt64.size) :
      Derives (.term .primary (.int (digitsValue w.literal.toList).toUInt64)) [w]
  | str {w : Word} (word : w.kind = .string) : Derives (.term .primary (.str w.literal)) [w]
  | bool {b : Bool} {w : Word} (word : w.kind = if b then .trueWord else .falseWord) :
      Derives (.term .primary (.bool b)) [w]
  | group {l r : Word} {e : Expr} {ws : List Word} (opening : l.kind = .leftParen)
      (inner : Derives (.term .equality e) ws) (closing : r.kind = .rightParen) :
      Derives (.term .primary e) (l :: (ws ++ [r]))
  | moreNil : Derives (.more []) []
  | moreCons {w : Word} {e : Expr} {es : List Expr} {ws ws' : List Word} (comma : w.kind = .comma)
      (first : Derives (.term .equality e) ws) (others : Derives (.more es) ws') :
      Derives (.more (e :: es)) (w :: (ws ++ ws'))
  | argumentsNil : Derives (.arguments []) []
  | argumentsCons {e : Expr} {es : List Expr} {ws ws' : List Word}
      (first : Derives (.term .equality e) ws) (others : Derives (.more es) ws') :
      Derives (.arguments (e :: es)) (ws ++ ws')
  | segmentNone : Derives (.segment none) []
  | segmentSome {e : Expr} {ws : List Word} (written : Derives (.term .equality e) ws) :
      Derives (.segment (some e)) ws
  | subscriptEmpty : Derives (.subscript .empty) []
  | subscriptItem {e : Expr} {ws : List Word} (item : Derives (.term .equality e) ws) :
      Derives (.subscript (.item e)) ws
  | subscriptSlice {c : Word} {start stop : Option Expr} {ws ws' : List Word}
      (first : Derives (.segment start) ws) (colon : c.kind = .colon)
      (second : Derives (.segment stop) ws') :
      Derives (.subscript (.slice start stop)) (ws ++ c :: ws')
  | subscriptStepped {c d : Word} {start stop stride : Option Expr} {ws ws' ws'' : List Word}
      (first : Derives (.segment start) ws) (colon : c.kind = .colon)
      (second : Derives (.segment stop) ws') (colon' : d.kind = .colon)
      (third : Derives (.segment stride) ws'') :
      Derives (.subscript (.stepped start stop stride)) (ws ++ c :: (ws' ++ d :: ws''))

/-! ## Phrases that are found by reading -/

open ParseState Grammar

namespace Stratum

/-- Phrases of the stratum are read whole behind operators that rank below this. -/
def bound : Stratum → Nat
  | equality => 1
  | comparison => 2
  | sum => 3
  | unary | product | factors => 5
  | postfixed => 6
  | primary => 7

/-- Phrases of the stratum end before tokens that rank no higher than this. -/
def follow : Stratum → Nat
  | equality => 1
  | comparison => 2
  | sum => 3
  | unary | product => 4
  | factors => 5
  | postfixed | primary => 6

theorem bound_le_inner (stratum : Stratum) : stratum.bound ≤ stratum.inner.bound := by
  cases stratum <;> decide

theorem follow_le_inner (stratum : Stratum) : stratum.follow ≤ stratum.inner.follow := by
  cases stratum <;> decide

end Stratum

/-- The words of an operator bind as tightly as the operator. -/
theorem BinaryOp.kind_precedence (op : BinaryOp) : op.kind.precedence = op.precedence := by
  cases op <;> rfl

/-- An operator stands right between its stratum and the one below. -/
theorem BinaryOp.stratum_rank (op : BinaryOp) :
    op.stratum.bound = op.precedence.rank ∧ op.stratum.follow = op.precedence.rank ∧
      op.precedence.rank < op.stratum.inner.bound := by
  cases op <;> decide

/-- The words `ws` start an expression, and reading them in a place that lets phrases of the stratum
be whole comes to the tree `e`.  It takes at most as many levels as there are words. -/
structure Reads (stratum : Stratum) (e : Expr) (ws : List Word) : Prop where
  /-- The first word starts an expression. -/
  starts : ∀ rest, (headKind (ws ++ rest)).startsExpression = true
  /-- Reading comes to the tree. -/
  opens : ∀ room p s rest, s.words = ws ++ rest → p.rank < stratum.bound →
    (headKind rest).precedence.rank ≤ stratum.follow →
    ∃ left, room ≤ left + ws.length ∧ Opens (room < ws.length) s (expression room p s) p left e rest

namespace Reads

variable {stratum : Stratum} {e left right : Expr} {es : List Expr} {sub : Subscript} {w w' : Word}
  {ws ws' : List Word}

theorem within (phrase : Reads stratum.inner e ws) : Reads stratum e ws where
  starts := phrase.starts
  opens room p s rest behind tight ends :=
    phrase.opens room p s rest behind (Nat.lt_of_lt_of_le tight stratum.bound_le_inner)
      (Nat.le_trans ends stratum.follow_le_inner)

/-- A phrase is read to its end before a token that does not bind. -/
theorem gets (phrase : Reads stratum e ws) {room : Nat} {p : Precedence} {s : ParseState}
    {rest : List Word} (behind : s.words = ws ++ rest) (tight : p.rank < stratum.bound)
    (ends : (headKind rest).precedence.rank ≤ stratum.follow)
    (stop : (headKind rest).precedence.rank ≤ p.rank) :
    Gets (room < ws.length) s (expression room p s) e fun s' => s'.next.words = rest := by
  obtain ⟨_, _, opens⟩ := phrase.opens room p s rest behind tight ends
  exact opens.finish stop

/-- A phrase of the loosest stratum is an expression of a list, a subscript or a statement. -/
theorem takes (phrase : Reads .equality e ws) (room : Nat) :
    Takes (room < ws.length) (expression room) e ws where
  starts := phrase.starts
  gets s rest behind ends := by
    have lowest := Token.Kind.precedence_of_endsExpression ends
    have stop : (headKind rest).precedence.rank = 0 := by rw [lowest]; rfl
    exact phrase.gets behind (by decide) (by rw [stop]; decide) (Nat.le_of_eq stop)

/-- A phrase that is read as an operand, with nothing joined to it. -/
theorem of_operand (starts : ∀ rest, (headKind (ws ++ rest)).startsExpression = true)
    (some : 0 < ws.length)
    (operand : ∀ n s rest, s.words = ws ++ rest →
      (headKind rest).precedence.rank ≤ stratum.follow →
      Gets (n + 1 < ws.length) s (operand (expression n) s) e fun s' => s'.next.words = rest) :
    Reads stratum e ws where
  starts := starts
  opens room p s rest behind tight ends := by
    refine ⟨room - 1, by omega, .of_operand (by omega) ?_⟩
    rintro n rfl
    exact operand n s rest behind ends

/-- What is joined to a phrase of the stratum, with the levels that the words of both take. -/
theorem join {stratum' : Stratum} (first : Reads stratum left ws)
    (bound : stratum'.bound ≤ stratum.bound) (binds : stratum'.bound ≤ w.kind.precedence.rank)
    (follow : w.kind.precedence.rank ≤ stratum.follow)
    (joined : ∀ n s rest, s.words = w :: (ws' ++ rest) →
      (headKind rest).precedence.rank ≤ stratum'.follow →
      Gets (n < ws'.length) s (joined (expression n) left s) e fun s' => s'.next.words = rest) :
    Reads stratum' e (ws ++ w :: ws') where
  starts rest := by
    rw [List.append_assoc]
    exact first.starts _
  opens room p s rest behind tight ends := by
    rw [List.append_assoc] at behind
    -- the token joins, so the place that lets the whole be read lets the first phrase be read too
    obtain ⟨left, enough, opens⟩ :=
      first.opens room p s _ behind (Nat.lt_of_lt_of_le tight bound) follow
    have deep : room < ws.length → room < (ws ++ w :: ws').length := by
      rw [List.length_append]
      omega
    refine ⟨left - 1, ?_, (opens.mono deep).join (Nat.lt_of_lt_of_le tight binds) ?_ ?_⟩
    · rw [List.length_append, List.length_cons]
      omega
    · rw [List.length_append, List.length_cons]
      omega
    -- what is joined has one level less than was left, and there is the joining word for that
    · rintro n s' rfl behind'
      refine (joined n s' rest behind' ends).mono ?_
      rw [List.length_append, List.length_cons]
      omega

theorem chain {op : BinaryOp} (first : Reads op.stratum left ws) (sign : w.kind = op.kind)
    (last : Reads op.stratum.inner right ws') :
    Reads op.stratum (.binary op left right) (ws ++ w :: ws') := by
  -- the operand on the right is read behind the operator itself, so an equal operator ends it
  obtain ⟨bound, follow, inner⟩ := op.stratum_rank
  have rank : w.kind.precedence.rank = op.precedence.rank := by rw [sign, op.kind_precedence]
  refine first.join (Nat.le_refl _) (by omega) (by omega) ?_
  intro n s rest behind ends
  refine joined_gets_binary (by rw [current_kind_of_words behind, sign]) ?_
  exact last.gets (next_words behind) inner (Nat.le_trans ends op.stratum.follow_le_inner) (by omega)

theorem prefixed {op : UnaryOp} (sign : w.kind = op.kind) (operand : Reads .unary e ws) :
    Reads .unary (.unary op e) (w :: ws) := by
  refine of_operand (fun rest => ?_) (Nat.succ_pos _) fun n s rest behind ends => ?_
  · rw [List.cons_append, headKind_cons, sign]
    cases op <;> rfl
  · refine operand_gets_unary (by rw [current_kind_of_words behind, sign]) ?_
    refine (operand.gets (p := .unary) (next_words behind) (by decide) ends ends).mono ?_
    rw [List.length_cons]
    omega

/-- The signed phrase at the end of a product is read behind the sign of the product, which binds
tighter than the signed phrase does. -/
theorem signed {op : BinaryOp} {op' : UnaryOp} (first : Reads .factors left ws)
    (factor : op.stratum = .factors) (sign : w.kind = op.kind) (sign' : w'.kind = op'.kind)
    (last : Reads .unary right ws') :
    Reads .product (.binary op left (.unary op' right)) (ws ++ w :: w' :: ws') := by
  -- the operators of this stratum all rank as products
  have precedence : op.precedence = .product := by cases op <;> first | rfl | cases factor
  have rank : w.kind.precedence.rank = 5 := by rw [sign, op.kind_precedence, precedence]; rfl
  refine first.join (Nat.le_refl _) (by rw [rank]; decide) (by rw [rank]; decide) ?_
  intro n s rest behind ends
  refine joined_gets_binary (by rw [current_kind_of_words behind, sign]) ?_
  rw [precedence]
  have behind' : s.next.words = w' :: (ws' ++ rest) := next_words behind
  -- what the sign takes has been read before anything could be joined to the signed phrase
  have opens : Opens (n < (w' :: ws').length) s.next (expression n .product s.next) .product (n - 1)
      (.unary op' right) rest := by
    refine .of_operand (by rw [List.length_cons]; omega) ?_
    rintro m rfl
    refine operand_gets_unary (by rw [current_kind_of_words behind', sign']) ?_
    refine (last.gets (p := .unary) (next_words behind') (by decide) ends ends).mono ?_
    rw [List.length_cons]
    omega
  exact opens.finish (Nat.le_trans ends (by decide))

theorem call (callee : Reads .postfixed left ws) (opening : w.kind = .leftParen)
    (args : ∀ n, TakesList (n < ws'.length) (expression n) es ws') (closing : w'.kind = .rightParen) :
    Reads .postfixed (.call left es) (ws ++ w :: (ws' ++ [w'])) := by
  refine callee.join (Nat.le_refl _) (by rw [opening]; decide) (by rw [opening]; decide) ?_
  intro n s rest behind _
  rw [List.append_assoc] at behind
  refine (joined_gets_call (expression_orderly n) behind opening (args n) closing).mono ?_
  rw [List.length_append]
  omega

theorem index (target : Reads .postfixed left ws) (opening : w.kind = .leftBracket)
    (segments : ∀ n, TakesSubscript (n < ws'.length) (expression n) sub ws')
    (closing : w'.kind = .rightBracket) :
    Reads .postfixed (.index left sub) (ws ++ w :: (ws' ++ [w'])) := by
  refine target.join (Nat.le_refl _) (by rw [opening]; decide) (by rw [opening]; decide) ?_
  intro n s rest behind _
  rw [List.append_assoc] at behind
  refine (joined_gets_index (expression_orderly n) behind opening (segments n) closing).mono ?_
  rw [List.length_append]
  omega

/-- A single word that is read as an operand. -/
theorem word (starts : w.kind.startsExpression = true)
    (operand : ∀ n s rest, s.words = w :: rest →
      Gets (n + 1 < 1) s (Grammar.operand (expression n) s) e fun s' => s'.next.words = rest) :
    Reads .primary e [w] :=
  of_operand (fun _ => starts) Nat.one_pos fun n s rest behind _ => operand n s rest behind

theorem group (opening : w.kind = .leftParen) (inner : Reads .equality e ws)
    (closing : w'.kind = .rightParen) : Reads .primary e (w :: (ws ++ [w'])) := by
  refine of_operand (fun rest => ?_) (Nat.succ_pos _) fun n s rest behind _ => ?_
  · rw [List.cons_append, headKind_cons, opening]
    rfl
  · rw [List.cons_append, List.append_assoc] at behind
    refine (operand_gets_group behind opening (inner.takes n) closing).mono ?_
    rw [List.length_cons, List.length_append]
    omega

end Reads

/-! ## Every derivation is found -/

/-- The phrase is found by reading the words `ws`, with as many levels as there are words. -/
def Category.Accepted : Category → List Word → Prop
  | .term stratum e, ws => Reads stratum e ws
  | .more es, ws => ∀ n, TakesMore (n < ws.length) (expression n) es ws
  | .arguments es, ws => ∀ n, TakesList (n < ws.length) (expression n) es ws
  | .segment e?, ws => ∀ n, TakesSegment (n < ws.length) (expression n) e? ws
  | .subscript sub, ws => ∀ n, TakesSubscript (n < ws.length) (expression n) sub ws

/-- Every derivation is found by reading its words. -/
theorem Derives.accepted {category : Category} {ws : List Word} (h : Derives category ws) :
    category.Accepted ws := by
  induction h with
  -- each rule of the grammar has its reading
  | within _ ih => exact Reads.within ih
  | chain _ sign _ first last => exact Reads.chain first sign last
  | signed _ factor sign sign' _ first last => exact Reads.signed first factor sign sign' last
  | prefixed sign _ operand => exact Reads.prefixed sign operand
  | call _ opening _ closing callee args => exact Reads.call callee opening args closing
  | index _ opening _ closing target segments =>
    exact Reads.index target opening segments closing
  | ident word =>
    exact Reads.word (by rw [word]; rfl) fun n s rest behind => operand_gets_ident behind word
  | int word fits =>
    exact Reads.word (by rw [word]; rfl) fun n s rest behind => operand_gets_int behind word fits
  | str word =>
    exact Reads.word (by rw [word]; rfl) fun n s rest behind => operand_gets_str behind word
  | @bool b w word =>
    refine Reads.word ?_ fun n s rest behind => operand_gets_bool behind word
    rw [word]
    cases b <;> rfl
  | group opening _ closing inner => exact Reads.group opening inner closing
  -- lists and subscripts take as many levels as the longest of their expressions has words
  | moreNil => exact fun n => .nil
  | moreCons comma _ _ first others =>
    intro n
    refine .cons (expression_orderly n) comma ((first.takes n).mono ?_) ((others n).mono ?_)
    all_goals rw [List.length_cons, List.length_append]; omega
  | argumentsNil => exact fun n => .nil
  | argumentsCons _ _ first others =>
    intro n
    refine .cons ((first.takes n).mono ?_) ((others n).mono ?_)
    all_goals rw [List.length_append]; omega
  | segmentNone => exact fun n => .none
  | segmentSome _ written => exact fun n => .some (written.takes n)
  | subscriptEmpty => exact fun n => .empty
  | subscriptItem _ item => exact fun n => .item (item.takes n)
  | subscriptSlice _ colon _ first second =>
    intro n
    refine .slice ((first n).mono ?_) colon ((second n).mono ?_)
    all_goals rw [List.length_append, List.length_cons]; omega
  | subscriptStepped _ colon _ colon' _ first second third =>
    intro n
    refine .stepped ((first n).mono ?_) colon ((second n).mono ?_) colon' ((third n).mono ?_)
    all_goals rw [List.length_append, List.length_cons, List.length_append, List.length_cons]; omega

/-- **Operators group by strata.**  The words of a derivation, with or without a semicolon behind
them, are read as one statement with the tree of the derivation.  It takes more words than there are
levels for the reading to get too deep, and that is all that can go wrong. -/
theorem parse_of_derives (stream : TokenStream) {e : Expr} {ws : List Word}
    (derives : Derives (.term .equality e) ws)
    (words : stream.tokens.map Token.word = ws ∨
      ∃ w : Word, w.kind = .semicolon ∧ stream.tokens.map Token.word = ws ++ [w]) :
    stream.parse.program = ⟨[.expr e]⟩ ∧ stream.parse.diagnostics = [] ∨
      maxNesting < ws.length ∧
        ∃ d ∈ stream.parse.diagnostics, d.message = "expression nested too deeply" := by
  have reads : Reads .equality e ws := derives.accepted
  -- behind the derivation there is a semicolon or nothing
  obtain ⟨ws', finished, behind⟩ :
      ∃ ws', Finished ws' [] ∧ (ParseState.start stream).words = ws ++ ws' := by
    rcases words with words | ⟨w, mark, words⟩
    · exact ⟨[], .bare rfl (by decide), by rw [List.append_nil]; exact words⟩
    · exact ⟨[w], .semicolon mark, words⟩
  refine stream.parse_of_gets ?_
  refine .statement_cons (fun kind => decide (kind ≠ .eof)) (expression_orderly maxNesting)
    (fun _ starts => decide_eq_true (Token.Kind.ne_of_startsStatement starts .eof rfl))
    (.of_expr (reads.takes maxNesting)) finished behind fun s' behind' => ?_
  -- no word is left for a second statement
  rw [Parse.many_of_stop (by rw [current_kind, behind']; rfl)]
  exact .done rfl behind'

/-- The sign before the second factor takes the third factor as well. -/
theorem parse_signed_factor :
    Derives (.term .equality
        (.binary .mul (.ident "a") (.unary .neg (.binary .mul (.ident "b") (.ident "c")))))
      ((scan "a * -b * c").tokens.map Token.word) ∧
    (scan "a * -b * c;").parse.program =
      ⟨[.expr (.binary .mul (.ident "a") (.unary .neg (.binary .mul (.ident "b") (.ident "c"))))]⟩ ∧
    (scan "a * -b * c;").parse.diagnostics = [] := by
  have name (w : Word) (word : w.kind = .ident) : Derives (.term .postfixed (.ident w.literal)) [w] :=
    .within (.ident word)
  have words : (scan "a * -b * c").tokens.map Token.word =
      [⟨.ident, "a"⟩] ++ ⟨.asterisk, "*"⟩ :: ⟨.minus, "-"⟩ ::
        ([⟨.ident, "b"⟩] ++ ⟨.asterisk, "*"⟩ :: [⟨.ident, "c"⟩]) := by decide +kernel
  have derives : Derives (.term .equality
      (.binary .mul (.ident "a") (.unary .neg (.binary .mul (.ident "b") (.ident "c")))))
      ((scan "a * -b * c").tokens.map Token.word) := by
    rw [words]
    refine .within (.within (.within (.within ?_)))
    refine .signed (.within (name ⟨.ident, "a"⟩ rfl)) rfl rfl rfl (.within (.within ?_))
    have last : Derives (.term BinaryOp.mul.stratum.inner (.ident "c")) [⟨.ident, "c"⟩] :=
      name ⟨.ident, "c"⟩ rfl
    have first : Derives (.term BinaryOp.mul.stratum (.ident "b")) [⟨.ident, "b"⟩] :=
      .within (name ⟨.ident, "b"⟩ rfl)
    exact .chain first rfl last
  have semicolon : (scan "a * -b * c;").tokens.map Token.word =
      (scan "a * -b * c").tokens.map Token.word ++ [⟨.semicolon, ";"⟩] := by decide +kernel
  refine ⟨derives, ?_⟩
  rcases parse_of_derives (scan "a * -b * c;") derives (.inr ⟨_, rfl, semicolon⟩)
    with found | ⟨long, _⟩
  · exact found
  · exact absurd long (by decide +kernel)

end MonkeyLang
