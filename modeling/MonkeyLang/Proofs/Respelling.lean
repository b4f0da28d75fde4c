import MonkeyLang.Proofs.Words

/-!
# Spelling tokens out

Tokens can be spelled out again: a string by its contents in quotes, and every other token, also an
illegal one, by its literal.  A blank ends every token that is no string, and a string ends at its
closing quote.  So tokens that are spelled out with a blank between each two are scanned back from
the text: none of them is cut, none of them runs on into the next one, and the contents of strings
come out of their quotes as they were.

## Main definitions

* `Word.spelling`, `respell`: the spelling of a token, and the text of some tokens
* `Gap`: the texts that no token runs on into
* `Scanned`: the words that texts have

## Main results

* `Token.lexeme_returns`: a lexeme is scanned back from its spelling, one lemma a form of lexemes
* `scanWords_spelled`: words of any texts, one after the other
* `scan_respell`: the tokens of a text are scanned back
-/

namespace MonkeyLang

open Token

/-- How a word is spelled: a string in quotes, and any other word by its literal. -/
def Word.spelling (w : Word) : List Char :=
  if w.kind = .string then Text.Quoted.encode w.literal.toList else w.literal.toList

theorem Word.spelling_string (text : List Char) :
    Word.spelling ⟨.string, String.ofList text⟩ = Text.Quoted.encode text := by
  simp [Word.spelling]

theorem Word.spelling_of_ne {kind : Token.Kind} (other : kind ≠ .string) (text : List Char) :
    Word.spelling ⟨kind, String.ofList text⟩ = text := by
  simp [Word.spelling, other]

/-- The text in which tokens are spelled out with a blank between each two. -/
def respell (tokens : List Token) : String :=
  String.ofList (separated ' ' (tokens.map fun t => t.word.spelling))

/-! ## Gaps -/

/-- The text is at its end, or goes on with a blank. -/
def Gap : List Char → Prop
  | [] => True
  | c :: _ => isBlank c = true

namespace Gap

variable {rest : List Char}

theorem boundary (gap : Gap rest) : Boundary rest := by
  cases rest with
  | nil => trivial
  | cons c rest =>
    refine .cons c rest (Bool.eq_false_iff.mpr fun runsOn => ?_)
    simp only [Bool.or_eq_true, beq_iff_eq] at runsOn
    rcases runsOn with part | rfl
    · exact Bool.false_ne_true ((isBlank_eq_false_of_isWordPart part).symm.trans gap)
    · cases gap

theorem head?_ne_equals (gap : Gap rest) : rest.head? ≠ some '=' := by
  cases rest with
  | nil => simp
  | cons c rest =>
    rintro ⟨⟩
    cases gap

end Gap

/-! ## Lexemes -/

namespace Token

theorem Kind.symbol?_ne_string {c : Char} {kind : Kind} (h : symbol? c = some kind) :
    kind ≠ .string := by
  unfold symbol? at h
  split at h <;> cases h <;> exact nofun

theorem Kind.keyword?_ne_string (word : List Char) : (keyword? word).getD .ident ≠ .string := by
  unfold keyword?
  split_ifs <;> exact nofun

namespace Lexeme

/-- The lexeme without its size. -/
def toWord (l : Lexeme) : Word := ⟨l.kind, String.ofList l.literal⟩

/-- The lexeme is the first one of its own spelling, with a gap behind it. -/
def Returns (l : Lexeme) : Prop :=
  ∀ rest, Gap rest → scanWords (l.toWord.spelling ++ rest) = l.toWord :: scanWords rest

theorem plain_returns {kind : Kind} {text : List Char} (other : kind ≠ .string)
    (h : ∀ rest, Gap rest →
      scanWords (text ++ rest) = ⟨kind, String.ofList text⟩ :: scanWords rest) :
    (plain kind text).Returns := by
  intro rest gap
  show scanWords (Word.spelling ⟨kind, String.ofList text⟩ ++ rest) = _
  rw [Word.spelling_of_ne other]
  exact h rest gap

theorem quoted_returns (c : Char) (cs : List Char) : (quoted c cs).Returns := by
  intro rest _
  show scanWords (Word.spelling ⟨.string, String.ofList (quoted c cs).literal⟩ ++ rest) = _
  rw [Word.spelling_string]
  exact scanWords_quoted _ rest

theorem equals_returns (cs : List Char) : (withEquals .assign .eq '=' cs).Returns := by
  unfold withEquals
  split
  · exact plain_returns nofun fun rest _ => scanWords_equals rest
  · exact plain_returns nofun fun rest gap => scanWords_assign gap.head?_ne_equals

theorem bang_returns (cs : List Char) : (withEquals .bang .notEq '!' cs).Returns := by
  unfold withEquals
  split
  · exact plain_returns nofun fun rest _ => scanWords_differs rest
  · exact plain_returns nofun fun rest gap => scanWords_bang gap.head?_ne_equals

theorem word_returns {c : Char} (start : isWordStart c = true) (cs : List Char) :
    (word c cs).Returns := by
  have parts : ∀ d ∈ cs.takeWhile isWordPart, isWordPart d = true :=
    List.all_eq_true.mp List.all_takeWhile
  exact plain_returns (Kind.keyword?_ne_string _) fun rest gap =>
    scanWords_word start parts gap.boundary

theorem number_returns {c : Char} (digit : c.isDigit = true) (cs : List Char) :
    (number c cs).Returns := by
  have digits (cs : List Char) : ∀ d ∈ cs.takeWhile Char.isDigit, d.isDigit = true :=
    List.all_eq_true.mp List.all_takeWhile
  have whole : (plain .int (c :: cs.takeWhile Char.isDigit)).Returns :=
    plain_returns nofun fun rest gap => scanWords_digits (List.cons_ne_nil _ _)
      (List.forall_mem_cons.mpr ⟨digit, digits cs⟩) gap.boundary
  unfold number
  split
  · next d ds _ =>
    split
    · next point =>
      refine plain_returns nofun fun rest gap => ?_
      have := scanWords_fraction digit (digits cs) point (digits ds) gap.boundary
      simpa using this
    · exact whole
  · exact whole

end Lexeme

/-- A lexeme is scanned back from its spelling. -/
theorem lexeme_returns {c : Char} (start : isBlank c = false) (cs : List Char) :
    (lexeme c cs).Returns := by
  unfold lexeme
  split
  · next equals => exact equals ▸ Lexeme.equals_returns cs
  · next notEquals =>
    split
    · next bang => exact bang ▸ Lexeme.bang_returns cs
    · next notBang =>
      split
      · next kind symbol =>
        exact Lexeme.plain_returns (Kind.symbol?_ne_string symbol) fun rest _ =>
          scanWords_symbol symbol rest
      · next noSymbol =>
        split
        · exact Lexeme.quoted_returns c cs
        · next noQuote =>
          split
          · next digit => exact Lexeme.number_returns digit cs
          · next noDigit =>
            split
            · next word => exact Lexeme.word_returns word cs
            · next noWord =>
              refine Lexeme.plain_returns nofun fun rest _ => ?_
              -- what stands behind a character that starts nothing does not matter
              have lexed : lexeme c rest = .plain .illegal [c] := by
                unfold lexeme
                rw [if_neg notEquals, if_neg notBang, noSymbol]
                simp only [if_neg noQuote, if_neg noDigit, if_neg noWord]
              rw [List.singleton_append, scanWords_cons start, lexed]
              rfl

end Token

/-! ## Texts -/

/-- The word is one that a text has. -/
inductive Scanned : Word → Prop where
  | intro {c : Char} {cs : List Char} (start : isBlank c = false) : Scanned (lexeme c cs).toWord

theorem Scanned.scanWords_spelling {w : Word} (scanned : Scanned w) {rest : List Char}
    (gap : Gap rest) : scanWords (w.spelling ++ rest) = w :: scanWords rest := by
  obtain ⟨start⟩ := scanned
  exact lexeme_returns start _ rest gap

/-- The words of a text are such words. -/
theorem scanned_of_mem_scan {source : String} :
    ∀ t ∈ (scan source).tokens, Scanned t.word :=
  forall_mem_scanFrom (fun _ _ _ start => .intro start) source.toList .start 0

/-- Words of any texts are scanned back from the text that spells them out. -/
theorem scanWords_spelled {words : List Word} (scanned : ∀ w ∈ words, Scanned w) :
    scanWords (separated ' ' (words.map Word.spelling)) = words := by
  induction words with
  | nil => rfl
  | cons w words ih =>
    obtain ⟨first, others⟩ := List.forall_mem_cons.mp scanned
    cases words with
    | nil =>
      have alone := first.scanWords_spelling (show Gap [] from trivial)
      rw [List.append_nil] at alone
      exact alone
    | cons next words =>
      have gap (text : List Char) : Gap (' ' :: text) := rfl
      rw [List.map_cons, List.map_cons, separated, first.scanWords_spelling (gap _),
        scanWords_blank rfl]
      exact congrArg _ (ih others)

theorem TokenStream.map_word_toList (stream : TokenStream) :
    stream.toList.map Token.word = stream.tokens.map Token.word ++ [⟨.eof, ""⟩] := by
  rw [TokenStream.toList, List.map_append]
  rfl

/-- **Tokens are scanned back from their spelling.**  The tokens of a text, spelled out with a blank
between each two, make a text with the same tokens up to their places, and the end token behind
them. -/
theorem scan_respell (source : String) :
    (scan (respell (scan source).tokens)).toList.map Token.word =
      (scan source).tokens.map Token.word ++ [⟨.eof, ""⟩] := by
  have scanned : ∀ w ∈ (scan source).tokens.map Token.word, Scanned w :=
    List.forall_mem_map.mpr scanned_of_mem_scan
  have words (text : String) : (scan text).tokens.map Token.word = scanWords text.toList := rfl
  rw [TokenStream.map_word_toList, words, respell, String.toList_ofList]
  refine congrArg (· ++ [_]) ?_
  have spelled := scanWords_spelled scanned
  rw [List.map_map] at spelled
  exact spelled

end MonkeyLang
