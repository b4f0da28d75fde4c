import MonkeyLang.Proofs.Acceptance

/-!
# Readings of given hash literals and blocks

What readers make of the words of hash literals, bindings, conditionals and functions, as far as
their parts are read as what they should be.  These are the phrases with parts other than
expressions: entries, names and statements.

## Main definitions

* `TakesEntries`, `Names`, `TakesStmts`: words that are read as entries, names and statements

## Main results

* `TakesStmts.gets`, `Grammar.block_gets`: statements one behind the other, and blocks
* `Grammar.operand_gets_hash`, `Grammar.operand_gets_cond`, `Grammar.operand_gets_fn`: the operands
  with such parts
-/

namespace MonkeyLang

open ParseState Parse Grammar

variable {deep : Prop} {s : ParseState} {expr : Precedence → Parse Expr}

/-! ## Hash literals -/

/-- The words `ws` are read as entries of a hash literal, up to the closing brace. -/
structure TakesEntries (deep : Prop) (expr : Precedence → Parse Expr) (ps : List (Expr × Expr))
    (ws : List Word) : Prop where
  /-- The words are read as entries. -/
  gets : ∀ s w rest, s.next.words = ws ++ w :: rest → w.kind = .rightBrace →
    Gets deep s (many (fun s => decide (s.peek.kind ≠ .rightBrace)) (pair expr) s) ps
      fun s' => s'.next.words = w :: rest

section Entries

variable {k v : Expr} {ps : List (Expr × Expr)} {c d w w' : Word} {ws ws' ws'' rest : List Word}

/-- An entry up to what stands behind its value. -/
theorem Grammar.pair_gets {after : ParseState → Prop} (orderly : ∀ p s, Orderly s (expr p s))
    (key : Takes deep expr k ws) (colon : c.kind = .colon) (value : Takes deep expr v ws')
    (ends : (headKind rest).endsExpression = true)
    (behind : s.next.words = ws ++ c :: (ws' ++ rest))
    (last : ∀ s', s'.next.words = rest → Gets deep s' ((peek >>= fun next =>
      if next.kind = .rightBrace then pure (k, v)
      else expect .comma >>= fun _ => pure (k, v)) s') (k, v) after) :
    Gets deep s (pair expr s) (k, v) after := by
  unfold pair
  rw [bind_advance]
  refine Gets.since (t := s.next) ?_ rfl
  refine (key.gets s.next _ behind (by rw [headKind_cons, colon]; rfl)).bind ?_ ?_
  · refine fun k s => .bind (.expect _ s) fun _ s => .bind (.advance s) fun _ s => ?_
    exact .bind (orderly _ s) fun v s => pair_end_orderly k v s
  · intro s' behind'
    rw [bind_expect _ (by rw [peek_kind_of_words behind', colon]), bind_advance]
    refine Gets.since (t := s'.next.next) ?_ rfl
    exact (value.gets s'.next.next _ (next_words behind') ends).bind (pair_end_orderly k) last

/-- An entry that can be read has a colon. -/
theorem Grammar.pair_remaining_lt (orderly : ∀ p s, Orderly s (expr p s)) {s' : ParseState}
    {a : Expr × Expr} (run : pair expr s = (some a, s')) : s'.remaining < s.remaining := by
  unfold pair at run
  rw [bind_advance] at run
  obtain ⟨key, s₁, run₁, run⟩ := bind_eq_some_iff.mp run
  obtain ⟨_, s₂, run₂, run⟩ := bind_eq_some_iff.mp run
  obtain ⟨colon, rfl⟩ := expect_eq_some_iff.mp run₂
  -- the colon is read between the key and the value, and neither takes a token back
  have less := next_next_remaining_lt colon nofun
  have first := ((orderly _ _).run run₁).remaining_le
  have there : s.next.remaining ≤ s.remaining := (Reaches.single (.next s)).remaining_le
  have last : s'.remaining ≤ s₁.next.next.remaining := by
    rw [bind_advance] at run
    have orderly := (orderly .lowest s₁.next.next).bind (pair_end_orderly key)
    exact (orderly.run run).remaining_le
  omega

theorem TakesEntries.nil : TakesEntries deep expr [] [] where
  gets s w rest behind closing := by
    rw [many_of_stop]
    · exact .done rfl behind
    · rw [peek_kind_of_words behind, closing]
      rfl

variable (orderly : ∀ p s, Orderly s (expr p s))
include orderly

/-- The last entry, without a comma behind it. -/
theorem TakesEntries.last (key : Takes deep expr k ws) (colon : c.kind = .colon)
    (value : Takes deep expr v ws') : TakesEntries deep expr [(k, v)] (ws ++ c :: ws') where
  gets s w rest behind closing := by
    rw [List.append_assoc, List.cons_append] at behind
    -- behind the last entry the closing brace stops the repetition
    refine .many_cons (pair_orderly orderly) (decide_eq_true (key.peek_ne behind rfl))
      (fun _ _ run => pair_remaining_lt orderly run) ?_
      fun s' (behind' : s'.next.words = w :: rest) => TakesEntries.nil.gets s' w rest behind' closing
    refine pair_gets orderly key colon value (by rw [headKind_cons, closing]; rfl) behind ?_
    intro s' behind'
    rw [bind_peek, if_pos (by rw [peek_kind_of_words behind', closing])]
    exact .done rfl behind'

theorem TakesEntries.cons (key : Takes deep expr k ws) (colon : c.kind = .colon)
    (value : Takes deep expr v ws') (comma : d.kind = .comma)
    (others : TakesEntries deep expr ps ws'') :
    TakesEntries deep expr ((k, v) :: ps) (ws ++ c :: (ws' ++ d :: ws'')) where
  gets s w rest behind closing := by
    rw [List.append_assoc, List.cons_append, List.append_assoc, List.cons_append] at behind
    refine .many_cons (pair_orderly orderly) (decide_eq_true (key.peek_ne behind rfl))
      (fun _ _ run => pair_remaining_lt orderly run) ?_
      fun s' (behind' : s'.next.words = ws'' ++ w :: rest) => others.gets s' w rest behind' closing
    refine pair_gets orderly key colon value (by rw [headKind_cons, comma]; rfl) behind ?_
    intro s' behind'
    have kind : s'.peek.kind = .comma := by rw [peek_kind_of_words behind', comma]
    rw [bind_peek, if_neg (by rw [kind]; decide), bind_expect _ kind]
    exact .done rfl (next_words behind')

omit orderly in
theorem Grammar.operand_gets_hash (behind : s.words = w :: (ws ++ w' :: rest))
    (opening : w.kind = .leftBrace) (entries : TakesEntries deep expr ps ws)
    (closing : w'.kind = .rightBrace) :
    Gets deep s (operand expr s) (.hash ps) fun s' => s'.next.words = rest := by
  unfold operand
  rw [bind_current, current_kind_of_words behind, opening]
  refine Gets.map (p := pairs expr) ?_
  unfold pairs
  exact (entries.gets s w' rest (next_words behind) closing).closed closing

end Entries

/-! ## Parameters -/

/-- The words `ws` are names, each with a comma before it. -/
inductive MoreNames : List String → List Word → Prop where
  | nil : MoreNames [] []
  | cons {c w : Word} {names : List String} {ws : List Word} (comma : c.kind = .comma)
      (name : w.kind = .ident) (others : MoreNames names ws) :
      MoreNames (w.literal :: names) (c :: w :: ws)

/-- The words `ws` are names with commas between them. -/
inductive Names : List String → List Word → Prop where
  | nil : Names [] []
  | cons {w : Word} {names : List String} {ws : List Word} (name : w.kind = .ident)
      (others : MoreNames names ws) : Names (w.literal :: names) (w :: ws)

section Parameters

variable {names : List String} {w : Word} {ws rest : List Word}

theorem MoreNames.gets (h : MoreNames names ws) (closing : w.kind = .rightParen)
    (behind : s.next.words = ws ++ w :: rest) :
    Gets deep s (many (fun s => decide (s.peek.kind = .comma)) (advance >>= fun _ =>
      expect .ident >>= fun _ => current >>= fun name => pure name.literal) s) names
      fun s' => s'.next.words = w :: rest := by
  induction h generalizing s with
  | nil =>
    rw [many_of_stop]
    · exact .done rfl behind
    · rw [peek_kind_of_words behind, closing]
      rfl
  | @cons c n names ws comma name _ ih =>
    have next : s.peek.kind = .comma := by rw [peek_kind_of_words behind, comma]
    have behind' : s.next.next.words = n :: (ws ++ w :: rest) := next_words behind
    -- a round of names looks at two words and never fails here, so no level is involved
    have read : (advance >>= fun _ => expect .ident >>= fun _ => current >>= fun name =>
        pure name.literal) s = (some n.literal, s.next.next) := by
      rw [bind_advance, bind_expect, bind_current, current_literal behind', pure_run]
      exact (current_kind_of_words behind').trans name
    refine .many_cons (fun s => .bind (.advance s) fun _ s => .bind (.expect _ s) fun _ s => .pure _ s)
      (decide_eq_true next) ?_ ?_ fun s' (behind' : s'.next.words = ws ++ w :: rest) => ih behind'
    · intro a s' run
      cases read.symm.trans run
      exact next_next_remaining_lt next nofun
    · rw [read]
      exact .done rfl (next_words behind')

/-- The names of parameters up to the closing parenthesis. -/
theorem Grammar.parameters_gets (written : Names names ws) (closing : w.kind = .rightParen)
    (behind : s.next.words = ws ++ w :: rest) :
    Gets deep s ((parameters : Parse (List String)) s) names fun s' => s'.next.words = rest := by
  unfold parameters
  rw [bind_peek]
  cases written with
  | nil =>
    rw [if_pos (by rw [peek_kind_of_words behind, closing]), bind_advance]
    exact .done rfl (next_words behind)
  | cons name others =>
    have kind : s.peek.kind = .ident := by rw [peek_kind_of_words behind, name]
    rw [if_neg (by rw [kind]; decide), bind_expect _ kind, bind_current, current_literal behind]
    refine Gets.since (t := s.next) ?_ rfl
    exact (others.gets closing (next_words behind)).closed closing

end Parameters

/-! ## Statements and blocks -/

/-- The words `ws` are read as statements, each finished by a semicolon. -/
inductive TakesStmts (deep : Prop) (expr : Precedence → Parse Expr) :
    List Stmt → List Word → Prop where
  | nil : TakesStmts deep expr [] []
  | cons {st : Stmt} {ss : List Stmt} {w : Word} {ws ws' : List Word}
      (first : TakesStmt deep expr st ws) (mark : w.kind = .semicolon)
      (others : TakesStmts deep expr ss ws') : TakesStmts deep expr (st :: ss) (ws ++ w :: ws')

section Blocks

variable {e e' : Expr} {ss yes no : List Stmt} {names : List String} {f l r b w b' w' : Word}
  {ws ws' rest : List Word}

theorem TakesStmt.of_ret (word : w.kind = .returnWord) (value : Takes deep expr e ws) :
    TakesStmt deep expr (.ret e) (w :: ws) where
  starts rest := by
    rw [List.cons_append, headKind_cons, word]
    rfl
  gets s ws' rest behind finished := by
    unfold statement
    rw [bind_current, current_kind_of_words behind, word]
    refine Gets.since (t := s.next) ?_ rfl
    exact .value value finished (next_words behind)

theorem TakesStmt.of_bind (word : l.kind = .letWord) (name : w.kind = .ident)
    (sign : r.kind = .assign) (value : Takes deep expr e ws) :
    TakesStmt deep expr (.bind w.literal e) (l :: w :: r :: ws) where
  starts rest := by
    rw [List.cons_append, headKind_cons, word]
    rfl
  gets s ws' rest behind finished := by
    have behind₁ : s.next.words = w :: r :: (ws ++ ws') := next_words behind
    have behind₂ : s.next.next.words = r :: (ws ++ ws') := next_words behind₁
    unfold statement
    rw [bind_current, current_kind_of_words behind, word]
    show Gets deep s ((expect .ident >>= _) s) _ _
    rw [bind_expect _ ((current_kind_of_words behind₁).trans name), bind_current,
      bind_expect _ ((current_kind_of_words behind₂).trans sign), bind_advance,
      current_literal behind₁]
    refine Gets.since (t := s.next.next.next) ?_ rfl
    exact .value value finished (next_words behind₂)

/-- Statements one behind the other. -/
theorem TakesStmts.gets (more : Token.Kind → Bool) (orderly : ∀ p s, Orderly s (expr p s))
    (go : ∀ kind, kind.startsStatement = true → more kind = true)
    (stop : more (headKind rest) = false) (written : TakesStmts deep expr ss ws)
    (behind : s.words = ws ++ rest) :
    Gets deep s (many (fun s => more s.current.kind) (statementRound expr) s) (ss.map some)
      fun s' => s'.words = rest := by
  induction written generalizing s with
  | nil =>
    rw [many_of_stop (by rw [current_kind, behind]; exact stop)]
    exact .done rfl behind
  | cons first mark _ ih =>
    rw [List.append_assoc, List.cons_append] at behind
    exact .statement_cons more orderly go first (.semicolon mark) behind fun s' => ih

/-- A block of given words up to its closing brace. -/
theorem Grammar.block_gets (orderly : ∀ p s, Orderly s (expr p s))
    (body : TakesStmts deep expr ss ws) (closing : w.kind = .rightBrace)
    (behind : s.next.words = ws ++ w :: rest) :
    Gets deep s (block expr s) ss fun s' => s'.next.words = rest := by
  unfold block
  rw [bind_advance]
  refine Gets.since (t := s.next) ?_ rfl
  -- no statement starts with the brace that closes the block, nor with the end token
  refine Gets.weaken (Gets.statements (body.gets
    (fun kind => kind ≠ .rightBrace && kind ≠ .eof) orderly ?_ ?_ behind)) ?_
  · intro kind starts
    simp [Token.Kind.ne_of_startsStatement starts .rightBrace rfl,
      Token.Kind.ne_of_startsStatement starts .eof rfl]
  · rw [headKind_cons, closing]
    rfl
  · exact fun s' behind' => next_words behind'

/-- The front of a conditional, up to what stands behind its first block. -/
theorem Grammar.conditional_gets {after : ParseState → Prop}
    (orderly : ∀ p s, Orderly s (expr p s)) (opening : l.kind = .leftParen)
    (test : Takes deep expr e ws) (closing : r.kind = .rightParen) (brace : b.kind = .leftBrace)
    (body : TakesStmts deep expr yes ws') (brace' : b'.kind = .rightBrace)
    (behind : s.next.words = l :: (ws ++ r :: b :: (ws' ++ b' :: rest)))
    (last : ∀ s', s'.next.words = rest → Gets deep s' ((peek >>= fun next =>
      if next.kind = .elseWord then advance >>= fun _ => expect .leftBrace >>= fun _ =>
        block expr >>= fun no => pure (.cond e yes (some no))
      else pure (.cond e yes none)) s') e' after) :
    Gets deep s (conditional expr s) e' after := by
  unfold conditional
  rw [bind_expect _ (by rw [peek_kind_of_words behind, opening]), bind_advance]
  refine Gets.since (t := s.next.next) ?_ rfl
  refine (test.gets s.next.next _ (next_words behind) (by rw [headKind_cons, closing]; rfl)).bind ?_ ?_
  · refine fun test s => .bind (.expect _ s) fun _ s => .bind (.expect _ s) fun _ s => ?_
    exact .bind (block_orderly orderly s) fun yes s => conditional_end_orderly orderly test yes s
  · intro s' behind'
    have behind'' : s'.next.next.words = b :: (ws' ++ b' :: rest) := next_words behind'
    rw [bind_expect _ (by rw [peek_kind_of_words behind', closing]),
      bind_expect _ ((current_kind_of_words behind'').trans brace)]
    refine Gets.since (t := s'.next.next) ?_ rfl
    exact (block_gets orderly body brace' (next_words behind'')).bind
      (conditional_end_orderly orderly e) last

/-- The second block of a conditional, if there is one, with the words before it. -/
inductive TakesElse (deep : Prop) (expr : Precedence → Parse Expr) :
    Option (List Stmt) → List Word → Prop where
  | none : TakesElse deep expr none []
  | some {w b b' : Word} {no : List Stmt} {ws : List Word} (word : w.kind = .elseWord)
      (brace : b.kind = .leftBrace) (body : TakesStmts deep expr no ws)
      (brace' : b'.kind = .rightBrace) : TakesElse deep expr (some no) (w :: b :: (ws ++ [b']))

theorem Grammar.operand_gets_cond {no? : Option (List Stmt)} {ws'' : List Word}
    (orderly : ∀ p s, Orderly s (expr p s))
    (behind : s.words = w :: l :: (ws ++ r :: b :: (ws' ++ b' :: (ws'' ++ rest))))
    (word : w.kind = .ifWord) (opening : l.kind = .leftParen) (test : Takes deep expr e ws)
    (closing : r.kind = .rightParen) (brace : b.kind = .leftBrace)
    (body : TakesStmts deep expr yes ws') (brace' : b'.kind = .rightBrace)
    (otherwise : TakesElse deep expr no? ws'') (notElse : headKind rest ≠ .elseWord) :
    Gets deep s (operand expr s) (.cond e yes no?) fun s' => s'.next.words = rest := by
  unfold operand
  rw [bind_current, current_kind_of_words behind, word]
  refine conditional_gets orderly opening test closing brace body brace' (next_words behind) ?_
  intro s' behind'
  rw [bind_peek]
  cases otherwise with
  | none =>
    -- without a second block the word for it must not follow, or it would be taken
    rw [if_neg (by rw [peek_kind, behind']; exact notElse)]
    exact .done rfl behind'
  | @some w b b' no ws word brace body brace' =>
    rw [List.cons_append, List.cons_append, List.append_assoc] at behind'
    have behind'' : s'.next.next.words = b :: (ws ++ b' :: rest) := next_words behind'
    rw [if_pos (by rw [peek_kind_of_words behind', word]), bind_advance,
      bind_expect _ ((current_kind_of_words behind'').trans brace)]
    refine Gets.since (t := s'.next.next) ?_ rfl
    exact (block_gets orderly body brace' (next_words behind'')).map

theorem Grammar.operand_gets_fn (orderly : ∀ p s, Orderly s (expr p s))
    (behind : s.words = f :: l :: (ws ++ r :: b :: (ws' ++ b' :: rest))) (word : f.kind = .fnWord)
    (opening : l.kind = .leftParen) (params : Names names ws) (closing : r.kind = .rightParen)
    (brace : b.kind = .leftBrace) (body : TakesStmts deep expr ss ws')
    (brace' : b'.kind = .rightBrace) :
    Gets deep s (operand expr s) (.fn names ss) fun s' => s'.next.words = rest := by
  unfold operand
  rw [bind_current, current_kind_of_words behind, word]
  show Gets deep s (function expr s) _ _
  have behind₁ : s.next.words = l :: (ws ++ r :: b :: (ws' ++ b' :: rest)) := next_words behind
  unfold function
  rw [bind_expect _ ((current_kind_of_words behind₁).trans opening)]
  refine Gets.since (t := s.next) ?_ rfl
  refine (parameters_gets params closing (next_words behind₁)).bind ?_ ?_
  · refine fun _ s => .bind (.expect _ s) fun _ s => ?_
    exact .bind (block_orderly orderly s) fun _ s => .pure _ s
  · intro s' behind'
    rw [bind_expect _ (by rw [peek_kind_of_words behind', brace])]
    refine Gets.since (t := s'.next) ?_ rfl
    exact (block_gets orderly body brace' (next_words behind')).map

end Blocks

end MonkeyLang
