import MonkeyLang.Proofs.Spelling

/-!
# Braces

Braces stand in pairs: every production of the grammar that opens a brace closes it, except for a
block that is cut at the end of the tokens.  So in a spelling with no more opening than closing
braces no block is cut, and an expression then finishes with a token of its own, which is never a
semicolon.

## Main definitions

* `depth`: by how much the opening braces among some tokens outnumber the closing ones
* `Descends`: by how much they do between two places
* `Finishes`: the tokens up to a place finish with another token than a semicolon, or in a cut block

## Main results

* `Spells.descends`: the braces in a spelling
* `Spells.finishes`: the last token of an expression
-/

namespace MonkeyLang

/-- How much deeper into braces a token leads. -/
def Token.Kind.depth : Kind → Int
  | .leftBrace => 1
  | .rightBrace => -1
  | _ => 0

/-- By how much the opening braces outnumber the closing ones. -/
def depth : List Token → Int
  | [] => 0
  | t :: ts => t.kind.depth + depth ts

@[simp]
theorem depth_nil : depth [] = 0 := rfl

@[simp]
theorem depth_cons (t : Token) (ts : List Token) : depth (t :: ts) = t.kind.depth + depth ts := rfl

theorem depth_eq (ts : List Token) :
    depth ts = ts.countP (·.kind = .leftBrace) - ts.countP (·.kind = .rightBrace) := by
  induction ts with
  | nil => rfl
  | cons t ts ih =>
    rw [depth_cons, ih, List.countP_cons, List.countP_cons]
    cases t.kind <;> simp [Token.Kind.depth] <;> omega

/-- Between the tokens `ts` and the tokens `rest` behind them, the opening braces outnumber the
closing ones by `n`.  If no token is behind them, it can be by more. -/
structure Descends (n : Int) (ts rest : List Token) : Prop where
  suffix : rest <:+ ts
  le : n + depth rest ≤ depth ts
  eq : rest ≠ [] → depth ts = n + depth rest

/-- The tokens `ts` up to `rest` finish with another token than a semicolon; or no token is behind
them, and the opening braces outnumber the closing ones by more than `n`. -/
def Finishes (n : Int) (ts rest : List Token) : Prop :=
  (∃ t : Token, t.kind ≠ .semicolon ∧ t :: rest <:+ ts) ∨ rest = [] ∧ n < depth ts

section Stretches

variable {n m : Int} {ts mid rest : List Token} {t : Token} {kind : Token.Kind}

namespace Descends

theorem refl (ts : List Token) : Descends 0 ts ts :=
  ⟨List.suffix_rfl, by omega, fun _ => by omega⟩

theorem token (word : t.kind = kind) : Descends kind.depth (t :: rest) rest := by
  subst word
  exact ⟨List.suffix_cons _ _, Int.le_refl _, fun _ => rfl⟩

theorem trans (h : Descends n ts mid) (h' : Descends m mid rest) : Descends (n + m) ts rest where
  suffix := h'.suffix.trans h.suffix
  le := by
    have first := h.le
    have second := h'.le
    omega
  eq some := by
    have between : mid ≠ [] := fun none => some (List.suffix_nil.mp (none ▸ h'.suffix))
    have first := h.eq between
    have second := h'.eq some
    omega

end Descends

namespace Finishes

theorem last (h : Descends m ts (t :: rest)) (word : t.kind = kind) (other : kind ≠ .semicolon) :
    Finishes n ts rest :=
  .inl ⟨t, word ▸ other, h.suffix⟩

theorem token (word : t.kind = kind) (other : kind ≠ .semicolon) : Finishes n (t :: rest) rest :=
  last (.refl _) word other

theorem after (h : Descends n ts mid) (h' : Finishes m mid rest) : Finishes (n + m) ts rest := by
  rcases h' with ⟨t, other, suffix⟩ | ⟨none, deeper⟩
  · exact .inl ⟨t, other, suffix.trans h.suffix⟩
  · refine .inr ⟨none, ?_⟩
    have first := h.le
    omega

end Finishes

end Stretches

/-- By how much the opening braces of a phrase outnumber the closing ones: a block is spelled
without the brace that opens it. -/
def Phrase.surplus : Phrase → Int
  | .list close _ => close.depth
  | .block _ => -1
  | _ => 0

/-- The phrase finishes with a token of its own that is not a semicolon. -/
def Phrase.Closed : Phrase → Prop
  | .expr _ | .names _ | .subscript _ | .block _ => True
  | .list close _ => close ≠ .semicolon
  | _ => False

theorem Ended.descends {ts rest : List Token} (h : Ended ts rest) : Descends 0 ts rest := by
  cases h with
  | bare => exact .refl _
  | semicolon mark => exact .token mark

namespace Spells

open Descends (token)

variable {phrase : Phrase} {ts rest : List Token}

/-- Every brace in a spelling is closed in it, except in a block that is cut. -/
theorem descends (h : Spells phrase ts rest) : Descends phrase.surplus ts rest := by
  induction h with
  | ident word | int word | float word | str word => exact .token word
  | bool b word => cases b <;> exact .token word
  | group opening _ closing inner => exact (token opening).trans (inner.trans (token closing))
  | @unary op _ _ _ _ sign _ operand => cases op <;> exact (token sign).trans operand
  | @binary op _ _ _ _ _ _ _ sign _ left right =>
    cases op <;> exact left.trans ((token sign).trans right)
  | array opening _ items => exact (token opening).trans items
  | hash opening _ closing entries => exact (token opening).trans (entries.trans (token closing))
  | call _ opening _ callee args => exact callee.trans ((token opening).trans args)
  | index _ opening _ target segments => exact target.trans ((token opening).trans segments)
  | cond word opening _ closing brace _ test block =>
    have body := (token closing).trans ((token brace).trans block)
    exact (token word).trans ((token opening).trans (test.trans body))
  | condElse word opening _ closing brace _ word' brace' _ test block block' =>
    have other := (token word').trans ((token brace').trans block')
    have body := (token closing).trans ((token brace).trans (block.trans other))
    exact (token word).trans ((token opening).trans (test.trans body))
  | fn word opening _ brace _ names block =>
    have body := (token brace).trans block
    exact (token word).trans ((token opening).trans (names.trans body))
  | moreNil | moreNamesNil | entriesNil | segmentNone | stmtsNil => exact .refl _
  | moreCons comma _ _ first others => exact (token comma).trans (first.trans others)
  | listNil closing => exact .token closing
  | listCons _ _ closing first others =>
    simpa [Phrase.surplus] using (first.trans others).trans (token closing)
  | moreNamesCons comma name _ others => exact (token comma).trans ((token name).trans others)
  | namesNil closing => exact .token closing
  | namesCons name _ closing others => exact (token name).trans (others.trans (token closing))
  | entriesLast _ colon _ key value => exact key.trans ((token colon).trans value)
  | entriesCons _ colon _ comma _ key value others =>
    exact key.trans ((token colon).trans (value.trans ((token comma).trans others)))
  | segmentSome _ written => exact written
  | subscriptEmpty closing => exact .token closing
  | subscriptItem _ closing item => exact item.trans (token closing)
  | subscriptSlice _ colon _ closing first second =>
    exact first.trans ((token colon).trans (second.trans (token closing)))
  | subscriptStepped _ colon _ colon' _ closing first second third =>
    have stride := (token colon').trans (third.trans (token closing))
    exact first.trans ((token colon).trans (second.trans stride))
  | bind word name sign _ ended value =>
    have spelled := (token sign).trans (value.trans ended.descends)
    exact (token word).trans ((token name).trans spelled)
  | ret word _ ended value => exact (token word).trans (value.trans ended.descends)
  | exprStmt _ ended value => exact value.trans ended.descends
  | stmtsCons _ _ first others => exact first.trans others
  | blockClosed _ closing body => exact body.trans (token closing)
  -- the brace that is missing leaves more open than a closed block does
  | blockCut _ body =>
    refine ⟨body.suffix, ?_, fun some => absurd rfl some⟩
    have le := body.le
    simp only [Phrase.surplus] at le ⊢
    omega

/-- A phrase that is closed finishes with a token other than a semicolon, or in a block that is
cut. -/
theorem finishes (h : Spells phrase ts rest) (closed : phrase.Closed) :
    Finishes phrase.surplus ts rest := by
  induction h with
  | ident word | int word | float word | str word => exact .token word (by decide)
  | bool b word => cases b <;> exact .token word (by decide)
  | group opening inner closing =>
    exact .last ((token opening).trans inner.descends) closing (by decide)
  | @unary op _ _ _ _ sign _ operand => cases op <;> exact .after (token sign) (operand trivial)
  | @binary op _ _ _ _ _ _ left sign _ _ right =>
    cases op <;> exact .after (left.descends.trans (token sign)) (right trivial)
  | array opening _ items =>
    have other : Token.Kind.rightBracket ≠ .semicolon := by decide
    exact .after (token opening) (items other)
  | hash opening entries closing =>
    exact .last ((token opening).trans entries.descends) closing (by decide)
  | call callee opening _ _ args =>
    have other : Token.Kind.rightParen ≠ .semicolon := by decide
    exact .after (callee.descends.trans (token opening)) (args other)
  | index target opening _ _ segments =>
    exact .after (target.descends.trans (token opening)) (segments trivial)
  | cond word opening test closing brace _ _ block =>
    have head := (test.descends.trans (token closing)).trans (token brace)
    exact .after ((token word).trans ((token opening).trans head)) (block trivial)
  | condElse word opening test closing brace block word' brace' _ _ _ block' =>
    have head := (test.descends.trans (token closing)).trans (token brace)
    have other := (block.descends.trans (token word')).trans (token brace')
    exact .after (((token word).trans ((token opening).trans head)).trans other) (block' trivial)
  | fn word opening names brace _ _ block =>
    have head := names.descends.trans (token brace)
    exact .after ((token word).trans ((token opening).trans head)) (block trivial)
  | listNil closing => exact .token closing closed
  | listCons first others closing =>
    exact .last (first.descends.trans others.descends) closing closed
  | namesNil closing => exact .token closing (by decide)
  | namesCons name others closing =>
    exact .last ((token name).trans others.descends) closing (by decide)
  | subscriptEmpty closing => exact .token closing (by decide)
  | subscriptItem item closing => exact .last item.descends closing (by decide)
  | subscriptSlice first colon second closing =>
    have head := first.descends.trans ((token colon).trans second.descends)
    exact .last head closing (by decide)
  | subscriptStepped first colon second colon' third closing =>
    have head := first.descends.trans ((token colon).trans second.descends)
    exact .last (head.trans ((token colon').trans third.descends)) closing (by decide)
  | blockClosed body closing => exact .last body.descends closing (by decide)
  -- a block that is cut has not closed the brace before it
  | blockCut body =>
    refine .inr ⟨rfl, ?_⟩
    have le := body.descends.le
    simp only [Phrase.surplus, depth_nil] at le ⊢
    omega
  | _ => exact closed.elim

end Spells

end MonkeyLang
