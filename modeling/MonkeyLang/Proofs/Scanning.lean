import MonkeyLang.Token.Scan
import Mathlib.Tactic.SplitIfs

/-!
# The tokens a text is cut into

What is true of every token that starts at some character of some text is true of every token of
every text.  In particular no token of a text is an end token, and the literal of an identifier is
a word of the language that is not reserved.

## Main definitions

* `IsName`: the texts that identifiers can have

## Main results

* `Token.forall_mem_scanFrom`: from lexemes to all tokens of a text
* `kind_ne_eof_of_mem_scan`, `isName_of_mem_scan`: the end token and the identifiers of a text
-/

namespace MonkeyLang

namespace Token

/-- What holds of every lexeme, at any place, holds of the tokens of any text. -/
theorem forall_mem_scanFrom {P : Token → Prop}
    (lexemes : ∀ c cs p, isBlank c = false → P (ofLexeme (lexeme c cs) p)) (text : List Char)
    (p : Position) (covered : Nat) : ∀ t ∈ (scanFrom text p covered).1, P t := by
  fun_induction scanFrom text p covered with
  | case1 => simp
  | case2 c cs p covered ih => exact ih
  | case3 c cs p blank ih => exact ih
  -- a lexeme is given out here, and the rest of its characters are skipped
  | case4 c cs p word l rest ih =>
    intro t ht
    rcases List.mem_cons.mp ht with rfl | ht
    · exact lexemes c cs p (Bool.eq_false_iff.mpr word)
    · exact ih t ht

/-- A symbol is neither an end token nor an identifier. -/
theorem Kind.symbol?_ne {c : Char} {kind : Kind} (h : symbol? c = some kind) :
    kind ≠ .eof ∧ kind ≠ .ident := by
  unfold symbol? at h
  split at h <;> cases h <;> exact ⟨nofun, nofun⟩

/-- A reserved word is neither an end token nor an identifier. -/
theorem Kind.keyword?_ne {word : List Char} {kind : Kind} (h : keyword? word = some kind) :
    kind ≠ .eof ∧ kind ≠ .ident := by
  unfold keyword? at h
  split_ifs at h <;> cases h <;> exact ⟨nofun, nofun⟩

namespace Lexeme

theorem withEquals_kind (alone paired : Kind) (c : Char) (cs : List Char) :
    (withEquals alone paired c cs).kind = alone ∨ (withEquals alone paired c cs).kind = paired := by
  unfold withEquals
  split
  · exact .inr rfl
  · exact .inl rfl

theorem number_kind (c : Char) (cs : List Char) :
    (number c cs).kind = .int ∨ (number c cs).kind = .float := by
  unfold number
  split
  · split
    · exact .inr rfl
    · exact .inl rfl
  · exact .inl rfl

end Lexeme

/-- The lexeme that starts at a character is a symbol, a string, a number, a character that starts
nothing, or a word. -/
theorem lexeme_cases {motive : Lexeme → Prop} (c : Char) (cs : List Char)
    (other : ∀ l, l.kind ≠ .eof → l.kind ≠ .ident → motive l)
    (word : isWordStart c = true → motive (.word c cs)) : motive (lexeme c cs) := by
  -- the two symbols that can have the equality sign behind them
  have equals {alone paired : Kind} (ha : alone ≠ .eof ∧ alone ≠ .ident)
      (hp : paired ≠ .eof ∧ paired ≠ .ident) : motive (.withEquals alone paired c cs) := by
    rcases Lexeme.withEquals_kind alone paired c cs with kind | kind
    · exact other _ (by rw [kind]; exact ha.1) (by rw [kind]; exact ha.2)
    · exact other _ (by rw [kind]; exact hp.1) (by rw [kind]; exact hp.2)
  unfold lexeme
  split
  · exact equals ⟨nofun, nofun⟩ ⟨nofun, nofun⟩
  · split
    · exact equals ⟨nofun, nofun⟩ ⟨nofun, nofun⟩
    · split
      · next kind symbol => exact other _ (Kind.symbol?_ne symbol).1 (Kind.symbol?_ne symbol).2
      · split
        · exact other _ nofun nofun
        · split
          · rcases Lexeme.number_kind c cs with kind | kind
            · exact other _ (by rw [kind]; nofun) (by rw [kind]; nofun)
            · exact other _ (by rw [kind]; nofun) (by rw [kind]; nofun)
          · split
            · next start => exact word start
            · exact other _ nofun nofun

end Token

/-- The texts that identifiers can have: words of the language that are not reserved. -/
def IsName (name : String) : Prop :=
  ∃ c cs, name.toList = c :: cs ∧ Token.isWordStart c = true ∧
    (∀ d ∈ cs, Token.isWordPart d = true) ∧ Token.Kind.keyword? (c :: cs) = none

variable {source : String} {t : Token}

/-- No token of a text is an end token. -/
theorem kind_ne_eof_of_mem_scan (h : t ∈ (scan source).tokens) : t.kind ≠ .eof := by
  refine Token.forall_mem_scanFrom (P := fun t => t.kind ≠ .eof) ?_ _ _ _ t h
  intro c cs p _
  refine Token.lexeme_cases c cs (motive := fun l => (Token.ofLexeme l p).kind ≠ .eof)
    (fun _ real _ => real) fun _ => ?_
  show (Token.Kind.keyword? (c :: cs.takeWhile Token.isWordPart)).getD .ident ≠ .eof
  cases word : Token.Kind.keyword? (c :: cs.takeWhile Token.isWordPart) with
  | none => exact nofun
  | some kind => exact (Token.Kind.keyword?_ne word).1

/-- The literal of an identifier is a word that is not reserved. -/
theorem isName_of_mem_scan (h : t ∈ (scan source).tokens) (ident : t.kind = .ident) :
    IsName t.literal := by
  refine Token.forall_mem_scanFrom (P := fun t => t.kind = .ident → IsName t.literal) ?_ _ _ _ t h
    ident
  intro c cs p _
  refine Token.lexeme_cases c cs
    (motive := fun l => (Token.ofLexeme l p).kind = .ident → IsName (Token.ofLexeme l p).literal)
    (fun _ _ other ident => absurd ident other) fun start ident => ?_
  refine ⟨c, cs.takeWhile Token.isWordPart, String.toList_ofList, start, fun d hd => ?_, ?_⟩
  · exact List.all_eq_true.mp List.all_takeWhile d hd
  · have kind : (Token.Kind.keyword? (c :: cs.takeWhile Token.isWordPart)).getD .ident = .ident :=
      ident
    cases word : Token.Kind.keyword? (c :: cs.takeWhile Token.isWordPart) with
    | none => rfl
    -- a reserved word would have its own kind
    | some reserved =>
      rw [word] at kind
      exact absurd kind (Token.Kind.keyword?_ne word).2

end MonkeyLang
