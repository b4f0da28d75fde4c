import MonkeyLang.Proofs.Acceptance
import MonkeyLang.Proofs.Scanning
import MonkeyLang.Program.Render
import Mathlib.Tactic.SplitIfs

/-!
# The words of a text

The tokens of a text without their places.  The words of a text are those of its first token and
those of the text behind it, so a text that is put together from pieces has the words of the
pieces, as long as no piece runs on into the next one.  Symbols and quoted texts never run on;
words and numerals stop before a character that cannot be part of them.

## Main definitions

* `scanWords`: the words of a text
* `Boundary`: the texts that no word and no numeral runs on into

## Main results

* `scanWords_symbol`, `scanWords_word`, `scanWords_digits`, `scanWords_fraction`,
  `scanWords_quoted`: the first word of a text, and the words behind it
-/

namespace MonkeyLang

open Token

/-- The words of a text. -/
def scanWords (text : List Char) : List Word := (scanFrom text .start 0).1.map Token.word

/-- The words of a text are the same wherever it stands, and characters that are covered by a token
given out before do not count. -/
theorem scanFrom_words (text : List Char) (p : Position) (covered : Nat) :
    (scanFrom text p covered).1.map Token.word = scanWords (text.drop covered) := by
  have aside (text : List Char) (p q : Position) (covered : Nat) :
      (scanFrom text p covered).1.map Token.word =
        (scanFrom (text.drop covered) q 0).1.map Token.word := by
    -- two runs over the same text go on in step, whatever positions they started with
    induction text generalizing p q covered with
    | nil =>
      rw [List.drop_nil, scanFrom, scanFrom]
    | cons c cs ih =>
      cases covered with
      | succ covered => exact ih (p.step c) q covered
      | zero =>
        rw [List.drop_zero, scanFrom, scanFrom]
        split
        · rw [ih (p.step c) .start, ih (q.step c) .start]
        · simp only [List.map_cons]
          rw [ih (p.step c) .start, ih (q.step c) .start]
          rfl
  exact aside text p .start covered

@[simp]
theorem scanWords_blank {c : Char} (blank : isBlank c = true) (cs : List Char) :
    scanWords (c :: cs) = scanWords cs := by
  rw [scanWords, scanFrom, if_pos blank, scanFrom_words, List.drop_zero]

theorem scanWords_cons {c : Char} (notBlank : isBlank c = false) (cs : List Char) :
    scanWords (c :: cs) = ⟨(lexeme c cs).kind, String.ofList (lexeme c cs).literal⟩ ::
      scanWords (cs.drop ((lexeme c cs).size - 1)) := by
  rw [scanWords, scanFrom, if_neg (by rw [notBlank]; decide)]
  simp only [List.map_cons]
  rw [scanFrom_words]
  rfl

/-! ## Symbols -/

/-- A symbol is a word by itself, whatever stands behind it. -/
theorem scanWords_symbol {c : Char} {kind : Token.Kind} (h : Kind.symbol? c = some kind)
    (cs : List Char) : scanWords (c :: cs) = ⟨kind, String.ofList [c]⟩ :: scanWords cs := by
  have notBlank : isBlank c = false := by
    unfold Kind.symbol? at h
    split at h <;> first | rfl | cases h
  have lexed : lexeme c cs = .plain kind [c] := by
    unfold lexeme
    -- the two signs that can have the equality sign behind them are not symbols by themselves
    rw [if_neg, if_neg, h]
    all_goals
      rintro rfl
      cases h
  rw [scanWords_cons notBlank, lexed]
  rfl

/-- The sign of equality. -/
theorem scanWords_equals (cs : List Char) :
    scanWords ('=' :: '=' :: cs) = ⟨.eq, "=="⟩ :: scanWords cs := scanWords_cons rfl _

/-- The sign of inequality. -/
theorem scanWords_differs (cs : List Char) :
    scanWords ('!' :: '=' :: cs) = ⟨.notEq, "!="⟩ :: scanWords cs := scanWords_cons rfl _

theorem withEquals_alone {alone paired : Token.Kind} {c : Char} {cs : List Char}
    (h : cs.head? ≠ some '=') : Lexeme.withEquals alone paired c cs = .plain alone [c] := by
  unfold Lexeme.withEquals
  split
  · exact absurd rfl h
  · rfl

/-- The sign of a binding, unless it is taken for that of equality. -/
theorem scanWords_assign {cs : List Char} (h : cs.head? ≠ some '=') :
    scanWords ('=' :: cs) = ⟨.assign, "="⟩ :: scanWords cs := by
  have lexed : lexeme '=' cs = .plain .assign ['='] := withEquals_alone h
  rw [scanWords_cons rfl, lexed]
  rfl

/-- The sign of negation, unless it is taken for that of inequality. -/
theorem scanWords_bang {cs : List Char} (h : cs.head? ≠ some '=') :
    scanWords ('!' :: cs) = ⟨.bang, "!"⟩ :: scanWords cs := by
  have lexed : lexeme '!' cs = .plain .bang ['!'] := withEquals_alone h
  rw [scanWords_cons rfl, lexed]
  rfl

/-! ## Words and numerals -/

/-- No word and no numeral runs on into the text. -/
def Boundary : List Char → Prop
  | [] => True
  | c :: _ => isWordPart c = false ∧ c ≠ '.'

theorem Boundary.cons (c : Char) (cs : List Char) (h : (isWordPart c || c == '.') = false) :
    Boundary (c :: cs) := by
  simpa [Boundary] using h

/-- A repetition of characters stops where the text behind it starts. -/
theorem takeWhile_append_boundary {p : Char → Bool} {cs rest : List Char}
    (all : ∀ c ∈ cs, p c = true) (stop : ∀ c ∈ rest.head?, p c = false) :
    (cs ++ rest).takeWhile p = cs ∧ (cs ++ rest).dropWhile p = rest := by
  rw [List.takeWhile_append_of_pos all, List.dropWhile_append_of_pos all]
  cases rest with
  | nil => simp
  | cons c rest => simp [stop c rfl]

theorem Boundary.isWordPart {rest : List Char} (h : Boundary rest) :
    ∀ c ∈ rest.head?, Token.isWordPart c = false := by
  cases rest with
  | nil => nofun
  | cons c rest =>
    rintro _ ⟨⟩
    exact h.1

/-- Digits are parts of words, so a boundary stops them as well. -/
theorem Boundary.isDigit {rest : List Char} (h : Boundary rest) :
    ∀ c ∈ rest.head?, c.isDigit = false := by
  intro c hc
  have := h.isWordPart c hc
  simp only [Token.isWordPart, Char.isAlphanum, Bool.or_eq_false_iff] at this
  exact this.1.2

section Starts

variable {c : Char}

theorem symbol?_eq_none_of_isWordPart (h : isWordPart c = true) : Kind.symbol? c = none := by
  cases symbol : Kind.symbol? c with
  | none => rfl
  | some kind =>
    unfold Kind.symbol? at symbol
    split at symbol <;> first | cases h | cases symbol

theorem isBlank_eq_false_of_isWordPart (h : isWordPart c = true) : isBlank c = false := by
  refine Bool.eq_false_iff.mpr fun blank => ?_
  simp only [isBlank, Bool.or_eq_true, beq_iff_eq] at blank
  rcases blank with ((rfl | rfl) | rfl) | rfl <;> cases h

theorem isQuote_eq_false_of_isWordPart (h : isWordPart c = true) : isQuote c = false := by
  refine Bool.eq_false_iff.mpr fun quote => ?_
  simp only [isQuote, Bool.or_eq_true, beq_iff_eq] at quote
  rcases quote with rfl | rfl <;> cases h

theorem isWordPart_of_isWordStart (h : isWordStart c = true) : isWordPart c = true := by
  unfold isWordStart at h
  unfold isWordPart Char.isAlphanum
  rw [Bool.or_right_comm, h, Bool.true_or]

theorem isDigit_eq_false_of_isWordStart (h : isWordStart c = true) : c.isDigit = false := by
  have alpha : c.isAlpha = (c.isUpper || c.isLower) := rfl
  have upper : c.isUpper = decide (c.val ≥ 'A'.val ∧ c.val ≤ 'Z'.val) := rfl
  have lower : c.isLower = (decide (c.val ≥ 'a'.val) && decide (c.val ≤ 'z'.val)) := rfl
  refine Bool.eq_false_iff.mpr fun digit => ?_
  simp only [isWordStart, alpha, upper, lower, Char.isDigit, Bool.or_eq_true, Bool.and_eq_true,
    decide_eq_true_eq, beq_iff_eq, ge_iff_le, UInt32.le_iff_toNat_le] at h digit
  -- the codes of letters and of digits are apart
  rcases h with h | rfl
  · simp at h digit
    omega
  · simp at digit

/-- A character that words can have is looked at as the first of a word or a numeral. -/
theorem lexeme_of_isWordPart (h : isWordPart c = true) (cs : List Char) :
    lexeme c cs = if c.isDigit then .number c cs
      else if isWordStart c then .word c cs else .plain .illegal [c] := by
  unfold lexeme
  rw [if_neg (by rintro rfl; cases h), if_neg (by rintro rfl; cases h),
    symbol?_eq_none_of_isWordPart h]
  simp only [isQuote_eq_false_of_isWordPart h, Bool.false_eq_true, if_false]

end Starts

/-- A word of the language up to a boundary. -/
theorem scanWords_word {c : Char} {cs rest : List Char} (start : isWordStart c = true)
    (parts : ∀ d ∈ cs, isWordPart d = true) (boundary : Boundary rest) :
    scanWords (c :: (cs ++ rest)) =
      ⟨(Kind.keyword? (c :: cs)).getD .ident, String.ofList (c :: cs)⟩ :: scanWords rest := by
  have part := isWordPart_of_isWordStart start
  -- the word goes exactly as far as the boundary
  have munch := (takeWhile_append_boundary parts boundary.isWordPart).1
  have lexed : lexeme c (cs ++ rest) = .plain ((Kind.keyword? (c :: cs)).getD .ident) (c :: cs) := by
    rw [lexeme_of_isWordPart part, isDigit_eq_false_of_isWordStart start, if_neg Bool.false_ne_true,
      if_pos start, Lexeme.word, munch]
  rw [scanWords_cons (isBlank_eq_false_of_isWordPart part), lexed]
  simp [Lexeme.plain]

/-- A reserved word up to a boundary. -/
theorem scanWords_reserved {word rest : List Char} {kind : Token.Kind}
    (h : Kind.keyword? word = some kind) (boundary : Boundary rest) :
    scanWords (word ++ rest) = ⟨kind, String.ofList word⟩ :: scanWords rest := by
  obtain ⟨c, cs, rfl, start, parts⟩ : ∃ c cs, word = c :: cs ∧ isWordStart c = true ∧
      ∀ d ∈ cs, isWordPart d = true := by
    unfold Kind.keyword? at h
    -- each of the reserved words is a word
    split_ifs at h with h₁ h₂ h₃ h₄ h₅ h₆ h₇
    all_goals
      subst word
      exact ⟨_, _, rfl, rfl, List.all_eq_true.mp rfl⟩
  have word := scanWords_word start parts boundary
  rwa [h] at word

/-- A name is an identifier, up to a boundary. -/
theorem scanWords_name {name : String} {rest : List Char} (h : IsName name)
    (boundary : Boundary rest) :
    scanWords (name.toList ++ rest) = ⟨.ident, name⟩ :: scanWords rest := by
  obtain ⟨c, cs, chars, start, parts, keyword⟩ := h
  have word := scanWords_word start parts boundary
  rw [keyword, ← chars, String.ofList_toList] at word
  rw [chars, List.cons_append]
  exact word

/-- Decimal digits are a numeral, up to a boundary. -/
theorem scanWords_digits {digits rest : List Char} (some : digits ≠ [])
    (all : ∀ c ∈ digits, c.isDigit = true) (boundary : Boundary rest) :
    scanWords (digits ++ rest) = ⟨.int, String.ofList digits⟩ :: scanWords rest := by
  obtain ⟨c, cs, rfl⟩ := List.exists_cons_of_ne_nil some
  have digit : c.isDigit = true := all c List.mem_cons_self
  have part : isWordPart c = true := by simp [isWordPart, Char.isAlphanum, digit]
  obtain ⟨munch, remains⟩ :=
    takeWhile_append_boundary (fun d hd => all d (List.mem_cons_of_mem c hd)) boundary.isDigit
  have lexed : lexeme c (cs ++ rest) = .plain .int (c :: cs) := by
    rw [lexeme_of_isWordPart part, if_pos digit, Lexeme.number, munch, remains]
    cases rest with
    | nil => rfl
    | cons d rest =>
      split
      -- a fraction would need a point
      · next point => exact absurd (List.cons.inj point).1 boundary.2
      · rfl
  rw [List.cons_append, scanWords_cons (isBlank_eq_false_of_isWordPart part), lexed]
  simp [Lexeme.plain]

/-- Decimal digits with a point and more digits behind them are a numeral, up to a boundary. -/
theorem scanWords_fraction {c d : Char} {cs ds rest : List Char} (digit : c.isDigit = true)
    (whole : ∀ e ∈ cs, e.isDigit = true) (point : d.isDigit = true)
    (fraction : ∀ e ∈ ds, e.isDigit = true) (boundary : Boundary rest) :
    scanWords (c :: (cs ++ '.' :: d :: (ds ++ rest))) =
      ⟨.float, String.ofList (c :: (cs ++ '.' :: d :: ds))⟩ :: scanWords rest := by
  have part : isWordPart c = true := by simp [isWordPart, Char.isAlphanum, digit]
  have stop : ∀ e ∈ ('.' :: d :: (ds ++ rest)).head?, e.isDigit = false := by
    rintro _ ⟨⟩
    rfl
  obtain ⟨munch, remains⟩ := takeWhile_append_boundary whole stop
  have munch' := (takeWhile_append_boundary fraction boundary.isDigit).1
  have lexed : lexeme c (cs ++ '.' :: d :: (ds ++ rest)) =
      .plain .float (c :: (cs ++ '.' :: d :: ds)) := by
    rw [lexeme_of_isWordPart part, if_pos digit, Lexeme.number, munch, remains]
    simp only [point, if_true, munch']
    rfl
  rw [scanWords_cons (isBlank_eq_false_of_isWordPart part), lexed]
  simp [Lexeme.plain]

/-- The numeral of a number reads as the number. -/
theorem digitsValue_numeral (n : Nat) : digitsValue (Nat.toDigits 10 n) = n := by
  induction n using Nat.strongRecOn with
  | ind n ih =>
    rw [Nat.toDigits_eq_if (by decide)]
    split
    · next small =>
      simp [digitsValue, Nat.toNat_digitChar_sub_48_of_lt_ten small]
    -- all but the last digit are those of the tenth part
    · next large =>
      have value : (Nat.toDigits 10 (n / 10)).foldl (fun n d => 10 * n + (d.toNat - 48)) 0 = n / 10 :=
        ih (n / 10) (by omega)
      rw [digitsValue, List.foldl_append, value]
      simp only [List.foldl_cons, List.foldl_nil]
      rw [Nat.toNat_digitChar_sub_48_of_lt_ten (by omega)]
      omega

/-! ## Quoted texts -/

/-- A character is quoted as itself, or by a backslash and a character that stands for it. -/
theorem escape_cases (c : Char) :
    Text.Quoted.escape c = [c] ∧ c ≠ '"' ∧ c ≠ '\\' ∨
      ∃ e, Text.Quoted.escape c = ['\\', e] ∧ unescape e = c := by
  unfold Text.Quoted.escape
  split
  -- the last case of the definition: every character without an escape
  case h_6 quote backslash _ _ _ => exact .inl ⟨rfl, quote, backslash⟩
  all_goals exact .inr ⟨_, rfl, rfl⟩

section QuotedBody

variable {quote : Char} (cs : List Char)

theorem quotedBody_close : quotedBody quote (quote :: cs) = ([], 1) := by
  rw [quotedBody.eq_def]
  exact if_pos rfl

theorem quotedBody_plain {c : Char} (other : c ≠ quote) (backslash : c ≠ '\\') :
    quotedBody quote (c :: cs) = (c :: (quotedBody quote cs).1, (quotedBody quote cs).2 + 1) := by
  rw [quotedBody.eq_def]
  simp only [if_neg other, if_neg backslash]

theorem quotedBody_backslash (other : '\\' ≠ quote) (e : Char) :
    quotedBody quote ('\\' :: e :: cs) =
      (unescape e :: (quotedBody quote cs).1, (quotedBody quote cs).2 + 2) := by
  rw [quotedBody, if_neg other, if_pos rfl]

end QuotedBody

/-- A quoted text is read up to its closing quote, and the contents are the text. -/
theorem quotedBody_escaped (text rest : List Char) :
    quotedBody '"' (text.flatMap Text.Quoted.escape ++ '"' :: rest) =
      (text, (text.flatMap Text.Quoted.escape).length + 1) := by
  induction text with
  | nil => exact quotedBody_close rest
  | cons c cs ih =>
    rw [List.flatMap_cons, List.append_assoc, List.length_append]
    rcases escape_cases c with ⟨plain, quote, backslash⟩ | ⟨e, escaped, stands⟩
    · rw [plain, List.singleton_append, quotedBody_plain _ quote backslash, ih, List.length_singleton]
      simp only [Prod.mk.injEq, true_and]
      omega
    · rw [escaped, List.cons_append, List.singleton_append, quotedBody_backslash _ (by decide), ih,
        stands]
      simp only [List.length_cons, List.length_nil, Prod.mk.injEq, true_and]
      omega

/-- A quoted text is a string, whatever stands behind it. -/
theorem scanWords_quoted (text rest : List Char) :
    scanWords (Text.Quoted.encode text ++ rest) =
      ⟨.string, String.ofList text⟩ :: scanWords rest := by
  rw [Text.Quoted.encode, List.cons_append, List.cons_append, List.append_assoc,
    List.singleton_append, scanWords_cons rfl]
  show (⟨.string, String.ofList (quotedBody '"' _).1⟩ : Word) ::
    scanWords (List.drop ((quotedBody '"' _).2 + 1 - 1) _) = _
  rw [quotedBody_escaped, Nat.add_sub_cancel, List.drop_length_add_append]
  rfl

end MonkeyLang
