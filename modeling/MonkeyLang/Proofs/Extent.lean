import MonkeyLang.Proofs.Scanning
import Mathlib.Data.List.Forall2
import Mathlib.Data.List.Induction

/-!
# The extent of tokens

A token covers a stretch of its text.  The stretches of the tokens of a text follow one another
without overlapping, and only blank characters lie outside of them.  The place of a token is that of
the first character it covers: its line is the number of line feeds before it, and its column the
number of characters since the last of them, both counted from one.  The text of a token is what it
covers, except that a string has its contents instead.

Scanning a text at once and reading its tokens one at a time give the same tokens, and behind the
last of them there is nothing but the end token.

## Main definitions

* `Position.ofOffset`: the place of a character, from the characters before it
* `Token.Lexeme.Covers`, `Token.Covers`: what a lexeme and a token cover
* `Partition`: stretches of a text that its tokens cover, with blanks between them

## Main results

* `Token.lexeme_covers`: a lexeme covers the first characters of its text
* `Token.scanFrom_token`: the first token of a text, and those of the text behind it
* `Token.scanFrom_partition`: the tokens of a text cover all but blanks
* `Cursor.take_eq`: reading token by token
-/

namespace MonkeyLang

/-! ## Places -/

namespace Position

/-- The place of the character behind the first `offset` characters of a text. -/
def ofOffset (text : List Char) (offset : Nat) : Position where
  line := 1 + (text.take offset).count '\n'
  column := 1 + ((text.take offset).reverse.takeWhile (· ≠ '\n')).length

/-- Characters advance the first place of a text by their line feeds, and by what follows the last
of them. -/
theorem advance_start (cs : List Char) : start.advance cs = ofOffset cs cs.length := by
  unfold ofOffset
  rw [List.take_length]
  induction cs using List.reverseRecOn with
  | nil => rfl
  | append_singleton cs c ih =>
    rw [advance_append, ih, advance_cons, advance_nil, step]
    split
    · next feed =>
      subst feed
      simp [Nat.add_assoc]
    · next other => simp [other, Nat.add_assoc]

theorem advance_take (text : List Char) {offset : Nat} (le : offset ≤ text.length) :
    start.advance (text.take offset) = ofOffset text offset := by
  rw [advance_start, List.length_take, Nat.min_eq_left le]
  simp only [ofOffset, List.take_take, Nat.min_self]

/-- Places go on from one offset to another by the characters between them. -/
theorem advance_ofOffset (text : List Char) {offset : Nat} (size : Nat)
    (le : offset + size ≤ text.length) :
    (ofOffset text offset).advance ((text.drop offset).take size) =
      ofOffset text (offset + size) := by
  rw [← advance_take text (Nat.le_of_add_right_le le), ← advance_append, ← List.take_add]
  exact advance_take text le

end Position

namespace Token

/-! ## Lexemes -/

namespace Lexeme

/-- The lexeme covers the first characters of the text, at least one, and they are its literal
unless it is a string. -/
structure Covers (l : Lexeme) (text : List Char) : Prop where
  pos : 0 < l.size
  le_length : l.size ≤ text.length
  literal : l.kind ≠ .string → l.literal = text.take l.size

theorem plain_covers {kind : Kind} {word text : List Char} (some : word ≠ [])
    (first : word <+: text) : (plain kind word).Covers text where
  pos := List.length_pos_iff.mpr some
  le_length := first.length_le
  literal _ := List.prefix_iff_eq_take.mp first

theorem withEquals_covers (alone paired : Kind) (c : Char) (cs : List Char) :
    (withEquals alone paired c cs).Covers (c :: cs) := by
  unfold withEquals
  split
  · next rest => exact plain_covers nofun (List.prefix_append [c, '='] rest)
  · exact plain_covers nofun (List.prefix_append [c] cs)

theorem number_covers (c : Char) (cs : List Char) : (number c cs).Covers (c :: cs) := by
  have whole : c :: cs.takeWhile Char.isDigit <+: c :: cs :=
    List.cons_prefix_cons.mpr ⟨rfl, List.takeWhile_prefix _⟩
  unfold number
  split
  · next d ds behind =>
    split
    · refine plain_covers nofun ?_
      -- the digits of the fraction stand behind the point
      have parts := List.takeWhile_append_dropWhile (p := Char.isDigit) (l := cs)
      rw [behind] at parts
      have fraction : '.' :: d :: ds.takeWhile Char.isDigit <+: '.' :: d :: ds :=
        (List.prefix_append_right_inj ['.', d]).mpr (List.takeWhile_prefix _)
      have digits := (List.prefix_append_right_inj (cs.takeWhile Char.isDigit)).mpr fraction
      rw [parts] at digits
      exact List.cons_prefix_cons.mpr ⟨rfl, digits⟩
    · exact plain_covers nofun whole
  · exact plain_covers nofun whole

theorem word_covers (c : Char) (cs : List Char) : (word c cs).Covers (c :: cs) :=
  plain_covers nofun (List.cons_prefix_cons.mpr ⟨rfl, List.takeWhile_prefix _⟩)

end Lexeme

/-- A string goes no further than its text. -/
theorem quotedBody_le (quote : Char) (cs : List Char) : (quotedBody quote cs).2 ≤ cs.length := by
  fun_induction quotedBody quote cs with
  | case1 => exact Nat.le_refl 0
  | case2 => simp
  | case3 => simp
  | case4 e ds _ body ih =>
    simp only [List.length_cons]
    exact Nat.add_le_add_right ih 2
  | case5 c cs _ _ body ih => exact Nat.add_le_add_right ih 1

theorem Lexeme.quoted_covers (c : Char) (cs : List Char) : (quoted c cs).Covers (c :: cs) where
  pos := Nat.succ_pos _
  le_length := Nat.succ_le_succ (quotedBody_le c cs)
  literal other := absurd rfl other

/-- A lexeme covers the first characters of its text. -/
theorem lexeme_covers (c : Char) (cs : List Char) : (lexeme c cs).Covers (c :: cs) := by
  have single (kind : Kind) : (Lexeme.plain kind [c]).Covers (c :: cs) :=
    Lexeme.plain_covers nofun (List.prefix_append [c] cs)
  unfold lexeme
  split
  · exact Lexeme.withEquals_covers _ _ c cs
  · split
    · exact Lexeme.withEquals_covers _ _ c cs
    · split
      · exact single _
      · split
        · exact Lexeme.quoted_covers c cs
        · split
          · exact Lexeme.number_covers c cs
          · split
            · exact Lexeme.word_covers c cs
            · exact single _

/-! ## Scanning -/

/-- Characters that a token has covered are passed over. -/
theorem scanFrom_covered (text : List Char) (p : Position) (covered : Nat) :
    scanFrom text p covered =
      scanFrom (text.drop covered) (p.advance (text.take covered)) 0 := by
  induction text generalizing p covered with
  | nil => simp [scanFrom]
  | cons c cs ih =>
    cases covered with
    | zero => rfl
    | succ covered =>
      rw [scanFrom, ih]
      rfl

theorem scanFrom_blank {c : Char} (blank : isBlank c = true) (cs : List Char) (p : Position) :
    scanFrom (c :: cs) p 0 = scanFrom cs (p.step c) 0 := by
  rw [scanFrom, if_pos blank]

/-- The first token of a text, and those of the text behind it. -/
theorem scanFrom_token {c : Char} (start : isBlank c = false) (cs : List Char) (p : Position) :
    scanFrom (c :: cs) p 0 =
      (ofLexeme (lexeme c cs) p ::
        (scanFrom ((c :: cs).drop (lexeme c cs).size)
          (p.advance ((c :: cs).take (lexeme c cs).size)) 0).1,
        (scanFrom ((c :: cs).drop (lexeme c cs).size)
          (p.advance ((c :: cs).take (lexeme c cs).size)) 0).2) := by
  rw [scanFrom, if_neg (by simp [start])]
  obtain ⟨n, size⟩ : ∃ n, (lexeme c cs).size = n + 1 :=
    Nat.exists_eq_succ_of_ne_zero (Nat.ne_of_gt (lexeme_covers c cs).pos)
  simp only [size, Nat.add_sub_cancel]
  rw [scanFrom_covered]
  rfl

/-- The token stands at the start of the stretch of the text, and its literal is the stretch unless
it is a string. -/
structure Covers (text : List Char) (t : Token) (span : Nat × Nat) : Prop where
  position : t.position = .ofOffset text span.1
  literal : t.kind ≠ .string → t.literal.toList = (text.drop span.1).take (span.2 - span.1)

end Token

/-- The text from the offset `first` on consists of the stretches that the tokens cover, in their
order, and of blanks between them. -/
structure Partition (text : List Char) (first : Nat) (tokens : List Token)
    (spans : List (Nat × Nat)) : Prop where
  bounds : ∀ span ∈ spans, first ≤ span.1 ∧ span.1 < span.2 ∧ span.2 ≤ text.length
  ordered : spans.Pairwise fun span next => span.2 ≤ next.1
  covers : List.Forall₂ (Token.Covers text) tokens spans
  blank : ∀ i c, first ≤ i → text[i]? = some c →
    (∀ span ∈ spans, ¬ (span.1 ≤ i ∧ i < span.2)) → Token.isBlank c = true

namespace Partition

variable {text : List Char} {first size : Nat} {tokens : List Token} {spans : List (Nat × Nat)}

/-- Nothing is left of the text. -/
theorem done (finish : text.length ≤ first) : Partition text first [] [] where
  bounds := nofun
  ordered := .nil
  covers := .nil
  blank i c le found _ := by
    have lt : i < text.length := (List.getElem?_eq_some_iff.mp found).1
    omega

/-- A blank before a partition. -/
theorem skip {c : Char} (found : text[first]? = some c) (blank : Token.isBlank c = true)
    (h : Partition text (first + 1) tokens spans) : Partition text first tokens spans where
  bounds span mem := by
    obtain ⟨le, rest⟩ := h.bounds span mem
    exact ⟨Nat.le_of_succ_le le, rest⟩
  ordered := h.ordered
  covers := h.covers
  blank i c' le found' outside := by
    rcases Nat.eq_or_lt_of_le le with rfl | lt
    · rw [found] at found'
      cases found'
      exact blank
    · exact h.blank i c' lt found' outside

/-- A token before a partition. -/
theorem cons {t : Token} (pos : 0 < size) (le : first + size ≤ text.length)
    (covers : t.Covers text (first, first + size))
    (h : Partition text (first + size) tokens spans) :
    Partition text first (t :: tokens) ((first, first + size) :: spans) where
  bounds := by
    refine List.forall_mem_cons.mpr ⟨⟨Nat.le_refl _, Nat.lt_add_of_pos_right pos, le⟩, ?_⟩
    intro span mem
    obtain ⟨ge, rest⟩ := h.bounds span mem
    exact ⟨Nat.le_of_add_right_le ge, rest⟩
  ordered := List.pairwise_cons.mpr ⟨fun span mem => (h.bounds span mem).1, h.ordered⟩
  covers := .cons covers h.covers
  blank i c ge found outside := by
    obtain ⟨here, later⟩ := List.forall_mem_cons.mp outside
    have behind : first + size ≤ i := Nat.le_of_not_lt fun lt => here ⟨ge, lt⟩
    exact h.blank i c behind found later

end Partition

/-- The tokens of what is left of a text cover it, up to its end.  Every round of the induction
leaves less of the text: a blank less, or what a token covers. -/
theorem Token.scanFrom_partition (text : List Char) (first : Nat) (le : first ≤ text.length) :
    (∃ spans,
      Partition text first (scanFrom (text.drop first) (.ofOffset text first) 0).1 spans) ∧
      (scanFrom (text.drop first) (.ofOffset text first) 0).2 = .ofOffset text text.length := by
  induction left : text.length - first using Nat.strongRecOn generalizing first with
  | ind n ih =>
    rcases Nat.eq_or_lt_of_le le with rfl | lt
    · rw [List.drop_length, scanFrom]
      exact ⟨⟨[], .done (Nat.le_refl _)⟩, rfl⟩
    · have rest : text.drop first = text[first] :: text.drop (first + 1) :=
        List.drop_eq_getElem_cons lt
      have found : text[first]? = some text[first] := List.getElem?_eq_getElem lt
      cases kind : isBlank text[first] with
      | true =>
        have place : (Position.ofOffset text first).step text[first] =
            .ofOffset text (first + 1) := by
          rw [← Position.advance_ofOffset text 1 lt, rest]
          rfl
        obtain ⟨⟨spans, partition⟩, stop⟩ := ih _ (by omega) (first + 1) lt rfl
        rw [rest, scanFrom_blank kind, place]
        exact ⟨⟨spans, partition.skip found kind⟩, stop⟩
      | false =>
        have covers := lexeme_covers text[first] (text.drop (first + 1))
        rw [rest, scanFrom_token kind]
        rw [← rest] at covers ⊢
        generalize lexeme text[first] (text.drop (first + 1)) = l at covers ⊢
        have within : first + l.size ≤ text.length := by
          have := covers.le_length
          rw [List.length_drop] at this
          omega
        rw [List.drop_drop, Position.advance_ofOffset text l.size within]
        obtain ⟨⟨spans, partition⟩, stop⟩ :=
          ih _ (by have := covers.pos; omega) (first + l.size) within rfl
        refine ⟨⟨_, partition.cons covers.pos within ⟨rfl, fun other => ?_⟩⟩, stop⟩
        show (String.ofList l.literal).toList = _
        rw [String.toList_ofList, covers.literal other, Nat.add_sub_cancel_left]

/-! ## Token by token -/

namespace Cursor

open Token

/-- Blanks are passed over before a token is looked for. -/
theorem scanFrom_dropWhile (text : List Char) (p : Position) :
    scanFrom (text.dropWhile isBlank) (p.advance (text.takeWhile isBlank)) 0 =
      scanFrom text p 0 := by
  induction text generalizing p with
  | nil => rfl
  | cons c cs ih =>
    cases blank : isBlank c with
    | true =>
      rw [List.dropWhile_cons_of_pos blank, List.takeWhile_cons_of_pos blank, scanFrom_blank blank]
      exact ih (p.step c)
    | false =>
      have other : ¬ isBlank c = true := by simp [blank]
      rw [List.dropWhile_cons_of_neg other, List.takeWhile_cons_of_neg other]
      rfl

/-- The tokens from a cursor on are its next one and those from the cursor behind it, and the end
token comes only at the end. -/
theorem next_cases (cursor : Cursor) :
    ((scanFrom cursor.rest cursor.here 0).1 = [] ∧
      cursor.next = (.finish (scanFrom cursor.rest cursor.here 0).2,
        ⟨[], (scanFrom cursor.rest cursor.here 0).2⟩)) ∨
    scanFrom cursor.rest cursor.here 0 =
      (cursor.next.1 :: (scanFrom cursor.next.2.rest cursor.next.2.here 0).1,
        (scanFrom cursor.next.2.rest cursor.next.2.here 0).2) := by
  rw [← scanFrom_dropWhile cursor.rest cursor.here]
  unfold next
  cases behind : cursor.rest.dropWhile isBlank with
  | nil => exact .inl ⟨rfl, rfl⟩
  | cons c cs =>
    have start : isBlank c = false := by
      have := List.head_dropWhile_not isBlank (l := cursor.rest) (by simp [behind])
      simpa [behind] using this
    exact .inr (scanFrom_token start cs _)

/-- At the end of a text the end token is read for ever. -/
theorem take_end (n : Nat) (p : Position) : take n ⟨[], p⟩ = List.replicate n (.finish p) := by
  induction n with
  | zero => rfl
  | succ n ih =>
    rw [take, List.replicate_succ]
    exact congrArg (Token.finish p :: ·) ih

/-- Reading token by token gives the tokens of the text, and behind them the end token for ever. -/
theorem take_eq (cursor : Cursor) (n : Nat) :
    cursor.take ((scanFrom cursor.rest cursor.here 0).1.length + n) =
      (scanFrom cursor.rest cursor.here 0).1 ++
        List.replicate n (.finish (scanFrom cursor.rest cursor.here 0).2) := by
  induction length : (scanFrom cursor.rest cursor.here 0).1.length generalizing cursor with
  | zero =>
    rcases cursor.next_cases with ⟨none, next⟩ | more
    · rw [none, Nat.zero_add, List.nil_append]
      cases n with
      | zero => rfl
      | succ n =>
        rw [take, next, List.replicate_succ]
        exact congrArg _ (take_end n _)
    · rw [more] at length
      cases length
  | succ m ih =>
    rcases cursor.next_cases with ⟨none, -⟩ | more
    · rw [none] at length
      cases length
    · rw [more] at length ⊢
      rw [Nat.succ_add, take, ih cursor.next.2 (Nat.succ.inj length), List.cons_append]

end Cursor

/-- **Tokens partition their text.**  The tokens of a text cover stretches of it that follow one
another, with nothing but blanks outside of them; each has the place of its first character, and
unless it is a string its literal is what it covers.  One end token stands behind them, at the end of
the text, and it is all that is read from there on. -/
theorem scan_partition (source : String) :
    (∃ spans, Partition source.toList 0 (scan source).tokens spans) ∧
      (∀ t ∈ (scan source).tokens, t.kind ≠ .eof) ∧
      (scan source).stop = .ofOffset source.toList source.toList.length ∧
      (scan source).toList = (scan source).tokens ++ [.finish (scan source).stop] ∧
      ∀ n, (Cursor.start source).take ((scan source).tokens.length + n) =
        (scan source).tokens ++ List.replicate n (.finish (scan source).stop) := by
  obtain ⟨partition, finish⟩ := Token.scanFrom_partition source.toList 0 (Nat.zero_le _)
  refine ⟨partition, fun t mem => kind_ne_eof_of_mem_scan mem, finish, rfl, fun n => ?_⟩
  exact Cursor.take_eq (.start source) n

end MonkeyLang
