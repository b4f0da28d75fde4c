import MonkeyLang.Proofs.JsonDecoding
import MonkeyLang.Token.Dump
import Mathlib.Logic.Function.Defs

/-!
# Token listings lose nothing

A token listing is ASCII text with one line for each token, and the line of a token is a JSON object
from which the name of its kind and its literal are read back, whatever characters the literal has.
A literal can have line feeds, but in its line they are escaped.  Kinds have different names, so the
kinds are known from a listing too.

The listing is made in two layers, JSON and ASCII, and the results here hold for every way to write
JSON.

## Main definitions

* `listing`: the lines of tokens, for any way to write JSON
* `Lists`: texts that say the kind and the literal of each token

## Main results

* `Token.Kind.name_injective`: a kind is known from its name
* `dump_eq_listing`: the listing of a source text
* `isPrintable_of_mem_object`: a line of a listing is printable ASCII
* `dump_lossless`: a listing is split and read back
-/

namespace MonkeyLang

open Text Text.Json

/-- What a listing says of a token. -/
def Token.members (t : Token) : List (String × String) :=
  [("Type", t.kind.name), ("Literal", t.literal)]

/-- The listing of tokens, one line each. -/
def listing (w : Writer) (tokens : List Token) : List Char :=
  ascii (tokens.flatMap fun t => w.object t.members ++ ['\n'])

/-- The text is ASCII, and its line feeds split it into one record for each token, in order, with
nothing behind the last.  Each record is a JSON object from which the name of the kind and the
literal of its token are read back. -/
structure Lists (tokens : List Token) (text : List Char) : Prop where
  isAscii : ∀ c ∈ text, c.toNat < 0x80
  records : ∃ records, text.splitOn '\n' = records ++ [[]] ∧
    records.map object? = tokens.map fun t => some [("Type", t.kind.name), ("Literal", t.literal)]

/-- All kinds of tokens. -/
def Token.Kind.all : List Kind :=
  [illegal, eof, ident, int, float, string, assign, plus, minus, bang, asterisk, slash, lt, gt, eq,
    notEq, comma, semicolon, colon, leftParen, rightParen, leftBrace, rightBrace, leftBracket,
    rightBracket, fnWord, letWord, trueWord, falseWord, ifWord, elseWord, returnWord]

theorem Token.Kind.mem_all (kind : Kind) : kind ∈ all := by
  cases kind <;> decide

theorem Token.Kind.name_injective : Function.Injective Token.Kind.name := by
  have different : ∀ a ∈ all, ∀ b ∈ all, a.name = b.name → a = b := by decide +kernel
  exact fun a b => different a (mem_all a) b (mem_all b)

/-! ## The lines -/

namespace Text.Json.Writer

variable (w : Writer)

theorem isPrintable_of_mem_string (text : String) : ∀ c ∈ ascii (w.string text), IsPrintable c := by
  have quote : IsPrintable '"' := by decide
  rw [ascii_string]
  simp only [List.forall_mem_cons, List.forall_mem_append, List.mem_flatMap]
  refine ⟨quote, ?_, quote, by simp⟩
  rintro c ⟨d, -, mem⟩
  exact w.isPrintable d c mem

theorem isPrintable_of_mem_member (m : String × String) :
    ∀ c ∈ ascii (w.member m), IsPrintable c := by
  have colon : IsPrintable ':' := by decide
  rw [ascii_member]
  simp only [List.forall_mem_cons, List.forall_mem_append]
  exact ⟨w.isPrintable_of_mem_string m.1, colon, w.isPrintable_of_mem_string m.2⟩

theorem isPrintable_of_mem_members (ms : List (String × String)) :
    ∀ c ∈ ascii (w.members ms), IsPrintable c := by
  have comma : IsPrintable ',' := by decide
  fun_induction members w ms with
  | case1 => simp [ascii]
  | case2 m => exact w.isPrintable_of_mem_member m
  | case3 m ms _ ih =>
    rw [ascii_append, ascii_cons comma.2]
    simp only [List.forall_mem_cons, List.forall_mem_append]
    exact ⟨w.isPrintable_of_mem_member m, comma, ih⟩

theorem isPrintable_of_mem_object (ms : List (String × String)) :
    ∀ c ∈ ascii (w.object ms), IsPrintable c := by
  have opening : IsPrintable '\x7b' := by decide
  have closing : IsPrintable '\x7d' := by decide
  rw [object, List.cons_append, ascii_cons opening.2, ascii_append, ascii_cons closing.2]
  simp only [List.forall_mem_cons, List.forall_mem_append]
  exact ⟨opening, w.isPrintable_of_mem_members ms, closing, by simp [ascii]⟩

/-- An object with two members, in the two layers. -/
theorem ascii_object_pair (m m' : String × String) : ascii (w.object [m, m']) =
    '\x7b' :: (ascii (w.string m.1) ++ ':' :: (ascii (w.string m.2) ++
      ',' :: (ascii (w.string m'.1) ++ ':' :: (ascii (w.string m'.2) ++ ['\x7d'])))) := by
  have members : w.members [m, m'] = w.member m ++ ',' :: w.member m' := rfl
  have closing : ascii ['\x7d'] = ['\x7d'] := rfl
  rw [object, members, List.cons_append, ascii_cons (by decide), ascii_append, ascii_append,
    ascii_cons (by decide), ascii_member, ascii_member, closing]
  simp only [List.append_assoc, List.cons_append]

end Text.Json.Writer

/-- Lines are split again at their line feeds, if they have no others; behind the last line feed
there is nothing. -/
theorem splitOn_lines {α : Type} {items : List α} {line : α → List Char}
    (alone : ∀ a ∈ items, ∀ c ∈ line a, c ≠ '\n') :
    (items.flatMap fun a => line a ++ ['\n']).splitOn '\n' = items.map line ++ [[]] := by
  induction items with
  | nil => rfl
  | cons a items ih =>
    obtain ⟨first, others⟩ := List.forall_mem_cons.mp alone
    have plain : ∀ c ∈ line a, (c == '\n') = false := fun c mem => by simpa using first c mem
    have split := List.splitOnP_append_cons_of_forall_mem plain '\n' rfl
      (items.flatMap fun a => line a ++ ['\n'])
    rw [List.flatMap_cons, List.append_assoc, List.singleton_append, List.splitOn, split]
    exact congrArg (line a :: ·) (ih others)

/-! ## Listings -/

variable (w : Writer) (tokens : List Token)

theorem listing_eq :
    listing w tokens = tokens.flatMap fun t => ascii (w.object t.members) ++ ['\n'] := by
  have line (t : Token) :
      ascii (w.object t.members ++ ['\n']) = ascii (w.object t.members) ++ ['\n'] := by
    rw [ascii_append]
    rfl
  unfold listing ascii
  rw [List.flatMap_assoc]
  exact congrArg (List.flatMap · tokens) (funext line)

theorem toNat_lt_of_mem_listing : ∀ c ∈ listing w tokens, c.toNat < 0x80 := by
  rw [listing_eq]
  simp only [List.mem_flatMap, List.mem_append, List.mem_singleton]
  rintro c ⟨t, -, mem | rfl⟩
  · exact (w.isPrintable_of_mem_object t.members c mem).2
  · decide

theorem splitOn_listing : (listing w tokens).splitOn '\n' =
    (tokens.map fun t => ascii (w.object t.members)) ++ [[]] := by
  rw [listing_eq]
  refine splitOn_lines ?_
  rintro t - c mem rfl
  exact absurd (w.isPrintable_of_mem_object t.members '\n' mem).1 (by decide)

/-- A text in quotes is written in the two layers at once. -/
theorem string_eq_ascii (text : String) :
    Json.string text.toList = ascii (Writer.standard.string text) := by
  rw [Writer.ascii_string, Json.string, List.cons_append]
  simp only [funext escape_eq]

theorem record_eq_ascii (t : Token) : t.record = ascii (Writer.standard.object t.members) := by
  have kind : "\x7b\"Type\":".toList = '\x7b' :: ascii (Writer.standard.string "Type") ++ [':'] := by
    decide +kernel
  have literal :
      ",\"Literal\":".toList = ',' :: ascii (Writer.standard.string "Literal") ++ [':'] := by
    decide +kernel
  have pair := Writer.standard.ascii_object_pair ("Type", t.kind.name) ("Literal", t.literal)
  unfold Token.record
  rw [kind, literal, string_eq_ascii, string_eq_ascii]
  refine Eq.trans ?_ pair.symm
  simp only [List.append_assoc, List.cons_append, List.nil_append]

theorem dump_eq_listing (source : String) :
    (dump source).toList = listing .standard (scan source).tokens := by
  rw [dump, String.toList_ofList, listing_eq]
  simp only [record_eq_ascii]

theorem lists_listing : Lists tokens (listing w tokens) := by
  refine ⟨toNat_lt_of_mem_listing w tokens, _, splitOn_listing w tokens, ?_⟩
  rw [List.map_map]
  exact List.map_congr_left fun t _ => w.object?_ascii t.members

/-- **A token listing loses nothing.**  The kinds and literals of the tokens of a text are read back
from its listing.  All that this takes from the way JSON is written is that strings are escaped as
the standard asks for: the listing is one for a given way to do so, and with any other way nothing
is lost either. -/
theorem dump_lossless (source : String) :
    Lists (scan source).tokens (dump source).toList ∧
      (dump source).toList = listing .standard (scan source).tokens ∧
      (∀ w, Lists (scan source).tokens (listing w (scan source).tokens)) ∧
      Function.Injective Token.Kind.name := by
  have same := dump_eq_listing source
  refine ⟨?_, same, fun w => lists_listing w _, Token.Kind.name_injective⟩
  rw [same]
  exact lists_listing _ _

end MonkeyLang
