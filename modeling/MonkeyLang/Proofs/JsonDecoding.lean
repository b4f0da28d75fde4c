import MonkeyLang.Text.Json

/-!
# Decoding ASCII strings of JSON

JSON counts the characters of a string in UTF-16 code units.  A decoder reads code units, from
characters that stand for themselves and from escapes, and puts the units together to characters at
the end; only then a surrogate needs its partner.

An ASCII string is written in two layers.  The first is JSON: quotes, backslashes and control
characters are escaped, in one of the ways that JSON has for them, and all other characters stand for
themselves.  The second knows nothing of JSON: it replaces every character outside ASCII by the
escapes of its code units.  What the second layer puts in is read by the decoder of the first, since
outside of escapes a character and the escapes of its units are the same code units, and the escapes
of the first layer have no such character.

## Main definitions

* `Text.ofUnits16`: the characters of UTF-16 code units
* `Text.Json.stringUnits`, `Text.Json.string?`, `Text.Json.object?`: the decoder
* `Text.Json.Writer`: the ways to write strings in JSON, with `Writer.standard` for the one in use
* `Text.Json.ascii`: the second layer
* `Text.Json.Reads`: texts that are read as given code units, whatever follows

## Main results

* `Text.ofUnits16_units16`: characters are put together from their units
* `Text.Json.Writer.reads`: the decoder reads what the two layers write
* `Text.Json.Writer.object?_ascii`: objects are read back from the two layers
* `Text.Json.escape_eq`: the two layers in one
-/

namespace MonkeyLang.Text

/-! ## Code units -/

/-- The characters of UTF-16 code units: a high surrogate needs a low one behind it, and a low one
does not stand alone. -/
def ofUnits16 : List Nat → Option (List Char)
  | [] => some []
  | unit :: rest =>
    if 0xD800 ≤ unit ∧ unit ≤ 0xDBFF then
      match rest with
      | [] => none
      | low :: rest =>
        if 0xDC00 ≤ low ∧ low ≤ 0xDFFF then
          (ofUnits16 rest).map (Char.ofNat (0x10000 + (unit - 0xD800) * 0x400 + (low - 0xDC00)) :: ·)
        else none
    else if unit < 0xD800 ∨ 0xDFFF < unit ∧ unit < 0x10000 then
      (ofUnits16 rest).map (Char.ofNat unit :: ·)
    else none

/-- A character is no surrogate. -/
theorem toNat_cases (c : Char) : c.toNat < 0xD800 ∨ 0xDFFF < c.toNat ∧ c.toNat < 0x110000 := c.valid

/-- A character of the basic plane is one code unit. -/
theorem units16_of_lt {c : Char} (h : c.toNat < 0x10000) : units16 c = [c.toNat] := by
  rw [units16, if_pos h]

/-- A unit that is no surrogate is a character. -/
theorem ofUnits16_basic {unit : Nat} (basic : unit < 0xD800 ∨ 0xDFFF < unit ∧ unit < 0x10000)
    (rest : List Nat) : ofUnits16 (unit :: rest) = (ofUnits16 rest).map (Char.ofNat unit :: ·) := by
  have alone : ¬ (0xD800 ≤ unit ∧ unit ≤ 0xDBFF) := by omega
  rw [ofUnits16.eq_def]
  simp only [if_neg alone, if_pos basic]

/-- A high surrogate and the low one behind it are a character. -/
theorem ofUnits16_pair {high low : Nat} (first : 0xD800 ≤ high ∧ high ≤ 0xDBFF)
    (second : 0xDC00 ≤ low ∧ low ≤ 0xDFFF) (rest : List Nat) :
    ofUnits16 (high :: low :: rest) = (ofUnits16 rest).map
      (Char.ofNat (0x10000 + (high - 0xD800) * 0x400 + (low - 0xDC00)) :: ·) := by
  rw [ofUnits16, if_pos first, if_pos second]

/-- A character is put together from its code units. -/
theorem ofUnits16_units16_append (c : Char) (rest : List Nat) :
    ofUnits16 (units16 c ++ rest) = (ofUnits16 rest).map (c :: ·) := by
  have valid := toNat_cases c
  by_cases basic : c.toNat < 0x10000
  · rw [units16_of_lt basic, List.singleton_append, ofUnits16_basic (by omega), Char.ofNat_toNat]
  · rw [units16, if_neg basic, List.cons_append, List.singleton_append,
      ofUnits16_pair (by omega) (by omega)]
    have same : 0x10000 + (0xD800 + (c.toNat - 0x10000) / 0x400 - 0xD800) * 0x400 +
        (0xDC00 + (c.toNat - 0x10000) % 0x400 - 0xDC00) = c.toNat := by omega
    rw [same, Char.ofNat_toNat]

theorem ofUnits16_units16 (text : List Char) : ofUnits16 (text.flatMap units16) = some text := by
  induction text with
  | nil => rfl
  | cons c text ih => rw [List.flatMap_cons, ofUnits16_units16_append, ih, Option.map_some]

/-- A code unit has four hexadecimal digits. -/
theorem lt_of_mem_units16 {c : Char} {unit : Nat} (mem : unit ∈ units16 c) : unit < 0x10000 := by
  have valid := toNat_cases c
  unfold units16 at mem
  split at mem
  · rw [List.mem_singleton] at mem
    omega
  · simp only [List.mem_cons, List.not_mem_nil, or_false] at mem
    omega

namespace Json

/-! ## The decoder -/

/-- The value of a hexadecimal digit. -/
def hexValue? (c : Char) : Option Nat :=
  if 48 ≤ c.toNat ∧ c.toNat ≤ 57 then some (c.toNat - 48)
  else if 97 ≤ c.toNat ∧ c.toNat ≤ 102 then some (c.toNat - 87)
  else if 65 ≤ c.toNat ∧ c.toNat ≤ 70 then some (c.toNat - 55)
  else none

/-- The code unit of four hexadecimal digits. -/
def unit? (a b c d : Char) : Option Nat := do
  return (← hexValue? a) * 4096 + (← hexValue? b) * 256 + (← hexValue? c) * 16 + (← hexValue? d)

/-- The character that a letter stands for behind a backslash. -/
def unescape? : Char → Option Char
  | '"' => some '"'
  | '\\' => some '\\'
  | '/' => some '/'
  | 'b' => some '\x08'
  | 'f' => some '\x0c'
  | 'n' => some '\n'
  | 'r' => some '\r'
  | 't' => some '\t'
  | _ => none

/-- The code units before those of what has been read, and the same rest. -/
def before (units : List Nat) (read : List Nat × List Char) : List Nat × List Char :=
  (units ++ read.1, read.2)

theorem before_append (units units' : List Nat) :
    before (units ++ units') = before units ∘ before units' := by
  funext read
  simp [before]

/-- The code units of a string behind its opening quote, and what stands behind its closing quote. -/
def stringUnits : List Char → Option (List Nat × List Char)
  | [] => none
  | c :: cs =>
    if c = '"' then some ([], cs)
    else if c = '\\' then
      match cs with
      | [] => none
      | e :: rest =>
        if e = 'u' then
          match rest with
          | h₁ :: h₂ :: h₃ :: h₄ :: rest =>
            (unit? h₁ h₂ h₃ h₄).bind fun unit => (stringUnits rest).map (before [unit])
          | _ => none
        else (unescape? e).bind fun d => (stringUnits rest).map (before (units16 d))
    else if c.toNat < 0x20 then none
    else (stringUnits cs).map (before (units16 c))

/-- A string with its quotes, and what stands behind it. -/
def string? : List Char → Option (String × List Char)
  | [] => none
  | c :: cs =>
    if c = '"' then
      (stringUnits cs).bind fun read =>
        (ofUnits16 read.1).map fun text => (String.ofList text, read.2)
    else none

/-- A name and a string with a colon between them, and what stands behind them. -/
def member? (text : List Char) : Option ((String × String) × List Char) :=
  (string? text).bind fun name =>
    match name.2 with
    | ':' :: rest => (string? rest).map fun value => ((name.1, value.1), value.2)
    | _ => none

/-- The members of an object up to its closing brace, at least one, and what stands behind it. -/
def members? (text : List Char) : Option (List (String × String) × List Char) :=
  match member? text with
  | some (member, '\x7d' :: rest) => some ([member], rest)
  | some (member, ',' :: rest) =>
    if rest.length < text.length then
      (members? rest).map fun read => (member :: read.1, read.2)
    else none
  | _ => none
termination_by text.length

/-- The members of an object that has strings for values, in the order they are written, without
blanks between them. -/
def object? : List Char → Option (List (String × String))
  | '\x7b' :: text =>
    match members? text with
    | some (members, []) => some members
    | _ => if text = ['\x7d'] then some [] else none
  | _ => none

/-! ## What the decoder reads -/

/-- The decoder reads the text as the code units, whatever follows it. -/
def Reads (text : List Char) (units : List Nat) : Prop :=
  ∀ rest, stringUnits (text ++ rest) = (stringUnits rest).map (before units)

namespace Reads

variable {text text' : List Char} {units units' : List Nat}

theorem append (first : Reads text units) (second : Reads text' units') :
    Reads (text ++ text') (units ++ units') := by
  intro rest
  rw [List.append_assoc, first, second, Option.map_map, before_append]

theorem nil : Reads [] [] := by
  intro rest
  exact Option.map_id'.symm

/-- Pieces of text that are read one by one are read one after the other. -/
theorem flatMap {α : Type} {pieces : List α} {text : α → List Char} {units : α → List Nat}
    (each : ∀ a ∈ pieces, Reads (text a) (units a)) :
    Reads (pieces.flatMap text) (pieces.flatMap units) := by
  induction pieces with
  | nil => exact nil
  | cons a pieces ih =>
    obtain ⟨first, others⟩ := List.forall_mem_cons.mp each
    simpa using first.append (ih others)

/-- A character that stands for itself. -/
theorem plain {c : Char} (printable : 0x20 ≤ c.toNat) (quote : c ≠ '"') (backslash : c ≠ '\\') :
    Reads [c] (units16 c) := by
  intro rest
  rw [List.singleton_append, stringUnits.eq_def]
  simp only [if_neg quote, if_neg backslash, if_neg (Nat.not_lt.mpr printable)]

/-- A letter behind a backslash. -/
theorem letter {e c : Char} (means : unescape? e = some c) : Reads ['\\', e] (units16 c) := by
  intro rest
  have other : e ≠ 'u' := by
    rintro rfl
    cases means
  rw [List.cons_append, List.singleton_append, stringUnits.eq_def]
  simp [other, means]

/-- Four digits behind a backslash and a letter. -/
theorem digits {a b c d : Char} {unit : Nat} (means : unit? a b c d = some unit) :
    Reads ['\\', 'u', a, b, c, d] [unit] := by
  intro rest
  simp [stringUnits, means]

/-- The text of a string is read up to its closing quote. -/
theorem string? {text : List Char} {value : List Char} (reads : Reads text (value.flatMap units16))
    (rest : List Char) :
    string? ('"' :: (text ++ '"' :: rest)) = some (String.ofList value, rest) := by
  have closing : stringUnits ('"' :: rest) = some ([], rest) := by rw [stringUnits.eq_def]; rfl
  simp [Json.string?, reads ('"' :: rest), closing, before, ofUnits16_units16]

end Reads

/-! ## Hexadecimal digits -/

theorem hexValue?_hexDigit : ∀ n < 16, hexValue? (hexDigit n) = some n := by decide

theorem unit?_hexDigits {unit : Nat} (lt : unit < 0x10000) :
    unit? (hexDigit (unit / 4096 % 16)) (hexDigit (unit / 256 % 16)) (hexDigit (unit / 16 % 16))
      (hexDigit (unit % 16)) = some unit := by
  have digit (n : Nat) : hexValue? (hexDigit (n % 16)) = some (n % 16) :=
    hexValue?_hexDigit _ (Nat.mod_lt _ (by decide))
  have value : unit / 4096 % 16 * 4096 + unit / 256 % 16 * 256 + unit / 16 % 16 * 16 + unit % 16 =
      unit := by omega
  simp [unit?, digit, value]

/-- The escape of a code unit is read as that unit. -/
theorem unitEscape_reads {unit : Nat} (lt : unit < 0x10000) : Reads (unitEscape unit) [unit] :=
  .digits (unit?_hexDigits lt)

/-! ## The two layers -/

/-- The characters that a line of ASCII text consists of. -/
def IsPrintable (c : Char) : Prop := 0x20 ≤ c.toNat ∧ c.toNat < 0x80

instance (c : Char) : Decidable (IsPrintable c) :=
  inferInstanceAs (Decidable (0x20 ≤ c.toNat ∧ c.toNat < 0x80))

/-- How a character that cannot stand for itself is written: by a letter, or by its code unit. -/
inductive IsEscape (c : Char) : List Char → Prop where
  | letter {e : Char} (means : unescape? e = some c) : IsEscape c ['\\', e]
  | digits {h₁ h₂ h₃ h₄ : Char} (means : unit? h₁ h₂ h₃ h₄ = some c.toNat) :
      IsEscape c ['\\', 'u', h₁, h₂, h₃, h₄]

/-- A way to write the characters of a string: the quote, the backslash and the control characters
are escaped, and all others stand for themselves. -/
structure Writer where
  /-- A character as it stands between the quotes. -/
  write : Char → List Char
  plain {c : Char} : 0x20 ≤ c.toNat → c ≠ '"' → c ≠ '\\' → write c = [c]
  escape {c : Char} : c.toNat < 0x20 ∨ c = '"' ∨ c = '\\' → IsEscape c (write c)

/-- A text with every character outside ASCII replaced by the escapes of its code units. -/
def ascii (text : List Char) : List Char :=
  text.flatMap fun c => if c.toNat < 0x80 then [c] else (units16 c).flatMap unitEscape

theorem ascii_append (text text' : List Char) : ascii (text ++ text') = ascii text ++ ascii text' :=
  List.flatMap_append

theorem ascii_cons {c : Char} (h : c.toNat < 0x80) (text : List Char) :
    ascii (c :: text) = c :: ascii text := by
  simp [ascii, h]

/-- Nothing is to be replaced in an ASCII text. -/
theorem ascii_eq_self {text : List Char} (h : ∀ c ∈ text, c.toNat < 0x80) : ascii text = text := by
  induction text with
  | nil => rfl
  | cons c text ih =>
    obtain ⟨first, others⟩ := List.forall_mem_cons.mp h
    rw [ascii_cons first, ih others]

theorem isPrintable_hexDigit : ∀ n < 16, IsPrintable (hexDigit n) := by decide

theorem isPrintable_of_unescape? {e c : Char} (means : unescape? e = some c) : IsPrintable e := by
  unfold unescape? at means
  split at means <;> first | decide | cases means

theorem isPrintable_of_hexValue? {c : Char} {n : Nat} (means : hexValue? c = some n) :
    IsPrintable c := by
  unfold hexValue? at means
  unfold IsPrintable
  split at means
  · omega
  · split at means
    · omega
    · split at means
      · omega
      · cases means

theorem IsEscape.isPrintable {c : Char} {text : List Char} (h : IsEscape c text) :
    ∀ x ∈ text, IsPrintable x := by
  have backslash : IsPrintable '\\' := by decide
  cases h with
  | letter means =>
    simp only [List.forall_mem_cons]
    exact ⟨backslash, isPrintable_of_unescape? means, by simp⟩
  | digits means =>
    simp only [unit?, bind, Option.bind_eq_some_iff] at means
    obtain ⟨_, first, _, second, _, third, _, fourth, -⟩ := means
    simp only [List.forall_mem_cons]
    exact ⟨backslash, by decide, isPrintable_of_hexValue? first,
      isPrintable_of_hexValue? second, isPrintable_of_hexValue? third,
      isPrintable_of_hexValue? fourth, by simp⟩

theorem isPrintable_unitEscape (unit : Nat) : ∀ x ∈ unitEscape unit, IsPrintable x := by
  have digit (n : Nat) : IsPrintable (hexDigit (n % 16)) :=
    isPrintable_hexDigit _ (Nat.mod_lt _ (by decide))
  simp only [unitEscape, hex4, List.forall_mem_cons]
  exact ⟨by decide, by decide, digit _, digit _, digit _, digit _, by simp⟩

namespace Writer

variable (w : Writer)

/-- A character is escaped as JSON asks for, stands for itself in ASCII, or is replaced by the
escapes of its code units. -/
theorem ascii_write_cases {motive : List Char → Prop} (c : Char)
    (escaped : ∀ text, IsEscape c text → c.toNat < 0x10000 → motive text)
    (plain : 0x20 ≤ c.toNat → c.toNat < 0x80 → c ≠ '"' → c ≠ '\\' → motive [c])
    (replaced : motive ((units16 c).flatMap unitEscape)) : motive (ascii (w.write c)) := by
  by_cases special : c.toNat < 0x20 ∨ c = '"' ∨ c = '\\'
  · have escape := w.escape special
    rw [ascii_eq_self fun x mem => (escape.isPrintable x mem).2]
    refine escaped _ escape ?_
    rcases special with control | rfl | rfl
    · omega
    · decide
    · decide
  · simp only [not_or, Nat.not_lt] at special
    obtain ⟨printable, quote, backslash⟩ := special
    rw [w.plain printable quote backslash]
    by_cases small : c.toNat < 0x80
    · simpa [ascii, small] using plain printable small quote backslash
    · simpa [ascii, small] using replaced

/-- The decoder reads what the two layers make of a character. -/
theorem reads (c : Char) : Reads (ascii (w.write c)) (units16 c) := by
  refine w.ascii_write_cases (motive := fun text => Reads text (units16 c)) c ?escaped ?plain ?replaced
  case escaped =>
    intro text escape basic
    cases escape with
    | letter means => exact .letter means
    | digits means =>
      rw [units16_of_lt basic]
      exact .digits means
  case plain => exact fun printable _ => .plain printable
  case replaced =>
    have units := Reads.flatMap fun unit mem => unitEscape_reads (lt_of_mem_units16 (c := c) mem)
    simpa using units

/-- All that the two layers write is printable ASCII. -/
theorem isPrintable (c : Char) : ∀ x ∈ ascii (w.write c), IsPrintable x := by
  refine w.ascii_write_cases (motive := fun text => ∀ x ∈ text, IsPrintable x) c ?escaped ?plain
    ?replaced
  case escaped => exact fun text escape _ => escape.isPrintable
  case plain =>
    intro printable small _ _
    exact List.forall_mem_singleton.mpr ⟨printable, small⟩
  case replaced =>
    simp only [List.mem_flatMap]
    rintro x ⟨unit, -, mem⟩
    exact isPrintable_unitEscape unit x mem

/-- A string with its quotes. -/
def string (text : String) : List Char := '"' :: text.toList.flatMap w.write ++ ['"']

/-- A member of an object. -/
def member (m : String × String) : List Char := w.string m.1 ++ ':' :: w.string m.2

/-- The members of an object. -/
def members : List (String × String) → List Char
  | [] => []
  | [m] => w.member m
  | m :: ms => w.member m ++ ',' :: members ms

/-- An object that has strings for values. -/
def object (ms : List (String × String)) : List Char := '\x7b' :: w.members ms ++ ['\x7d']

theorem ascii_flatMap (text : List Char) :
    ascii (text.flatMap w.write) = text.flatMap fun c => ascii (w.write c) :=
  List.flatMap_assoc

theorem ascii_string (text : String) : ascii (w.string text) =
    '"' :: ((text.toList.flatMap fun c => ascii (w.write c)) ++ ['"']) := by
  rw [string, List.cons_append, ascii_cons (by decide), ascii_append, ascii_flatMap]
  rfl

theorem string?_ascii (text : String) (rest : List Char) :
    string? (ascii (w.string text) ++ rest) = some (text, rest) := by
  have reads : Reads (text.toList.flatMap fun c => ascii (w.write c)) (text.toList.flatMap units16) :=
    .flatMap fun c _ => w.reads c
  rw [ascii_string, List.cons_append, List.append_assoc, List.singleton_append, reads.string?,
    String.ofList_toList]

theorem ascii_member (m : String × String) :
    ascii (w.member m) = ascii (w.string m.1) ++ ':' :: ascii (w.string m.2) := by
  rw [member, ascii_append, ascii_cons (by decide)]

theorem member?_ascii (m : String × String) (rest : List Char) :
    member? (ascii (w.member m) ++ rest) = some (m, rest) := by
  rw [ascii_member, List.append_assoc, member?, string?_ascii]
  simp [string?_ascii]

/-- The members of an object are read up to the brace behind them. -/
theorem members?_ascii (m : String × String) (ms : List (String × String)) (rest : List Char) :
    members? (ascii (w.members (m :: ms)) ++ '\x7d' :: rest) = some (m :: ms, rest) := by
  induction ms generalizing m with
  | nil =>
    rw [members, members?, member?_ascii]
    rfl
  | cons next ms ih =>
    rw [members, ascii_append, ascii_cons (by decide), List.append_assoc, List.cons_append, members?,
      member?_ascii]
    have shorter : (ascii (w.members (next :: ms)) ++ '\x7d' :: rest).length <
        (ascii (w.member m) ++ ',' :: (ascii (w.members (next :: ms)) ++ '\x7d' :: rest)).length := by
      simp only [List.length_append, List.length_cons]
      omega
    · simp only [if_pos shorter, ih, Option.map_some]
    · exact List.cons_ne_nil next ms

/-- An object is read back from the two layers. -/
theorem object?_ascii (ms : List (String × String)) : object? (ascii (w.object ms)) = some ms := by
  have closing : ascii ['\x7d'] = ['\x7d'] := rfl
  rw [object, List.cons_append, ascii_cons (by decide), ascii_append, closing]
  cases ms with
  | nil => simp [members, ascii, object?, members?, member?, string?]
  | cons m ms => rw [object?, members?_ascii]

end Writer

/-! ## The way in use -/

/-- The letters stand for control characters. -/
theorem shortEscape?_eq_some {c letter : Char} (h : shortEscape? c = some letter) :
    unescape? letter = some c ∧ c.toNat < 0x20 := by
  unfold shortEscape? at h
  repeat' split at h
  case isFalse => cases h
  all_goals
    subst c
    cases h
    exact ⟨rfl, by decide⟩

theorem shortEscape?_eq_none {c : Char} (printable : 0x20 ≤ c.toNat) : shortEscape? c = none := by
  rw [Option.eq_none_iff_forall_ne_some]
  intro letter short
  exact absurd (shortEscape?_eq_some short).2 (Nat.not_lt.mpr printable)

/-- A character between quotes, with letters for five control characters and digits for the
others. -/
def standardEscape (c : Char) : List Char :=
  if c = '"' || c = '\\' then ['\\', c]
  else match shortEscape? c with
    | some letter => ['\\', letter]
    | none => if 0x20 ≤ c.toNat then [c] else unitEscape c.toNat

/-- The way in use. -/
def Writer.standard : Writer where
  write := standardEscape
  plain {c} printable quote backslash := by
    simp [standardEscape, quote, backslash, shortEscape?_eq_none printable, printable]
  escape {c} special := by
    unfold standardEscape
    split
    · next quoted =>
      simp only [Bool.or_eq_true, decide_eq_true_eq] at quoted
      rcases quoted with rfl | rfl
      · exact .letter rfl
      · exact .letter rfl
    · next other =>
      simp only [Bool.or_eq_true, decide_eq_true_eq, not_or] at other
      have control : c.toNat < 0x20 := by simpa [other] using special
      split
      · next letter short => exact .letter (shortEscape?_eq_some short).1
      · rw [if_neg (Nat.not_le.mpr control)]
        exact .digits (unit?_hexDigits (by omega))

/-- A character of an ASCII string is written in the two layers at once. -/
theorem escape_eq (c : Char) : escape c = ascii (Writer.standard.write c) := by
  by_cases special : c.toNat < 0x20 ∨ c = '"' ∨ c = '\\'
  -- an escape is ASCII text, so the second layer leaves it alone
  · rw [ascii_eq_self fun x mem => ((Writer.standard.escape special).isPrintable x mem).2]
    show escape c = standardEscape c
    unfold escape standardEscape
    split
    · rfl
    · next other =>
      simp only [Bool.or_eq_true, decide_eq_true_eq, not_or] at other
      have control : c.toNat < 0x20 := by simpa [other] using special
      have basic : c.toNat < 0x10000 := by omega
      cases shortEscape? c with
      | some letter => rfl
      | none => simp [Nat.not_le.mpr control, units16_of_lt basic]
  · simp only [not_or, Nat.not_lt] at special
    obtain ⟨printable, quote, backslash⟩ := special
    rw [Writer.standard.plain printable quote backslash]
    simp [escape, ascii, quote, backslash, shortEscape?_eq_none printable, printable]

end Json

end MonkeyLang.Text
