import MonkeyLang.Proofs.Reach
import MonkeyLang.Proofs.Tables
import MonkeyLang.Value.Equality
import Mathlib.Data.List.Perm.Subperm

/-!
# Equality of values is an equivalence

Two values are equal if they match at the outside and what they contain is equal.  Arrays are
compared as maps from positions, and hashes as maps from hash keys.  The computation compares hashes
by their sizes and looks up the entries of the first one in the second one only; as no hash files
two entries under one hash key, this tells whether the two maps are equal, in whatever order the
entries are kept.

So equality is reflexive, symmetric and transitive, by induction over what values contain.  Numbers
with a fraction are left aside: a NaN is not equal to itself.

## Main definitions

* `Value.contents`, `Value.Throughout`: what a value contains, and properties at every depth
* `FloatFree`: values that contain no number with a fraction
* `Value.Matches`: values that match, as far as what they contain is related

## Main results

* `equalItems_iff`, `hash_equal_iff`: arrays and hashes are compared as maps
* `Value.equal_iff_matches`: equality by what values contain
* `equal_equivalence`: equality is an equivalence
-/

namespace MonkeyLang

/-! ## Contents -/

namespace Value

/-- The values that equality looks at inside a value: the items of an array, the keys and the values
of a hash, and what is wrapped. -/
def contents : Value → List Value
  | builtin _ => []
  | v => v.parts

/-- The property holds of a value and of all it contains, at any depth. -/
inductive Throughout (p : Value → Prop) : Value → Prop where
  | intro {v : Value} (here : p v) (inside : ∀ part ∈ v.contents, Throughout p part) :
      Throughout p v

theorem mem_contents_of_find? {entries : Table (Value × Value)} {key : HashKey}
    {pair : Value × Value} (found : Table.find? key entries = some pair) :
    pair.1 ∈ (hash entries).contents ∧ pair.2 ∈ (hash entries).contents := by
  have inside (v : Value) (h : v = pair.1 ∨ v = pair.2) : v ∈ (hash entries).contents :=
    List.mem_flatMap.mpr ⟨_, Table.mem_of_find? found, by simpa using h⟩
  exact ⟨inside _ (.inl rfl), inside _ (.inr rfl)⟩

/-- The value is no number with a fraction, and as a hash it is a map: it files no two entries under
one hash key. -/
structure Exact (v : Value) : Prop where
  kind_ne_float : v.kind ≠ .float
  distinct : ∀ entries, v = hash entries → (Table.keys entries).Nodup

end Value

/-- A value that contains no number with a fraction, at any depth. -/
structure FloatFree where
  /-- The value. -/
  value : Value
  /-- No number with a fraction is in it, and every hash in it is a map. -/
  exact : value.Throughout Value.Exact

/-! ## Matching -/

section Options

variable {α : Type} {r : α → α → Prop} {x y z : Option α}

theorem rel_self (h : ∀ a ∈ x, r a a) : Option.Rel r x x := by
  cases x with
  | none => exact .none
  | some a => exact .some (h a rfl)

theorem rel_symm (rel : Option.Rel r x y) (h : ∀ a ∈ x, ∀ b ∈ y, r a b → r b a) :
    Option.Rel r y x := by
  cases rel with
  | none => exact .none
  | some related => exact .some (h _ rfl _ rfl related)

theorem rel_trans (first : Option.Rel r x y) (second : Option.Rel r y z)
    (h : ∀ a ∈ x, ∀ b ∈ y, ∀ c ∈ z, r a b → r b c → r a c) : Option.Rel r x z := by
  cases first with
  | none =>
    cases second
    exact .none
  | some related =>
    cases second with
    | some related' => exact .some (h _ rfl _ rfl _ rfl related related')

theorem rel_none_iff (rel : Option.Rel r x y) : x = none ↔ y = none := by
  cases rel <;> simp

theorem exists_of_rel_some {a : α} (rel : Option.Rel r (some a) y) : ∃ b, y = some b ∧ r a b := by
  cases rel with
  | some related => exact ⟨_, rfl, related⟩

end Options

namespace Value

/-- Two entries with related keys and related values. -/
def Alike (r : Value → Value → Prop) (pair other : Value × Value) : Prop :=
  r pair.1 other.1 ∧ r pair.2 other.2

/-- The values match, as far as what they contain is related.  Arrays are compared by position and
hashes by hash key, functions by identity and builtins by name. -/
inductive Matches (r : Value → Value → Prop) : Value → Value → Prop where
  | int (n : Int64) : Matches r (int n) (int n)
  | bool (b : Bool) : Matches r (bool b) (bool b)
  | str (text : String) : Matches r (str text) (str text)
  | null : Matches r null null
  | array {as bs : List Value} (items : ∀ i : Nat, Option.Rel r as[i]? bs[i]?) :
      Matches r (array as) (array bs)
  | hash {as bs : Table (Value × Value)}
      (entries : ∀ key, Option.Rel (Alike r) (Table.find? key as) (Table.find? key bs)) :
      Matches r (hash as) (hash bs)
  | function {f g : Closure} (same : f.identity = g.identity) : Matches r (function f) (function g)
  | builtin {a b : Builtin} (same : a.name = b.name) : Matches r (builtin a) (builtin b)
  | returned {a b : Value} (wrapped : r a b) : Matches r (returned a) (returned b)
  | error (message : String) : Matches r (error message) (error message)

namespace Matches

variable {r : Value → Value → Prop} {u v w : Value}

theorem self (number : v.kind ≠ .float) (inside : ∀ part ∈ v.contents, r part part) :
    Matches r v v := by
  cases v with
  | int n => exact .int n
  | float x => exact absurd rfl number
  | bool b => exact .bool b
  | str text => exact .str text
  | null => exact .null
  | array items =>
    refine .array fun i => rel_self fun a found => ?_
    exact inside a (List.mem_of_getElem? found)
  | hash entries =>
    refine .hash fun key => rel_self fun pair found => ?_
    obtain ⟨hkey, hvalue⟩ := mem_contents_of_find? found
    exact ⟨inside _ hkey, inside _ hvalue⟩
  | function f => exact .function rfl
  | builtin b => exact .builtin rfl
  | returned v => exact .returned (inside v List.mem_cons_self)
  | error message => exact .error message

theorem symm (h : Matches r v w)
    (inside : ∀ a ∈ v.contents, ∀ b ∈ w.contents, r a b → r b a) : Matches r w v := by
  cases h with
  | int n => exact .int n
  | bool b => exact .bool b
  | str text => exact .str text
  | null => exact .null
  | array items =>
    refine .array fun i => rel_symm (items i) fun a ha b hb => ?_
    exact inside a (List.mem_of_getElem? ha) b (List.mem_of_getElem? hb)
  | hash entries =>
    refine .hash fun key => rel_symm (entries key) fun pair hp other ho related => ?_
    obtain ⟨pkey, pvalue⟩ := mem_contents_of_find? hp
    obtain ⟨okey, ovalue⟩ := mem_contents_of_find? ho
    exact ⟨inside _ pkey _ okey related.1, inside _ pvalue _ ovalue related.2⟩
  | function same => exact .function same.symm
  | builtin same => exact .builtin same.symm
  | returned wrapped =>
    exact .returned (inside _ List.mem_cons_self _ List.mem_cons_self wrapped)
  | error message => exact .error message

theorem trans (first : Matches r u v) (second : Matches r v w)
    (inside : ∀ a ∈ u.contents, ∀ b ∈ v.contents, ∀ c ∈ w.contents, r a b → r b c → r a c) :
    Matches r u w := by
  cases first with
  | int | bool | str | null | error => exact second
  | array items =>
    cases second with
    | array items' =>
      refine .array fun i => rel_trans (items i) (items' i) fun a ha b hb c hc => ?_
      exact inside a (List.mem_of_getElem? ha) b (List.mem_of_getElem? hb) c
        (List.mem_of_getElem? hc)
  | hash entries =>
    cases second with
    | hash entries' =>
      refine .hash fun key => rel_trans (entries key) (entries' key)
        fun pair hp other ho third ht related related' => ?_
      obtain ⟨pkey, pvalue⟩ := mem_contents_of_find? hp
      obtain ⟨okey, ovalue⟩ := mem_contents_of_find? ho
      obtain ⟨tkey, tvalue⟩ := mem_contents_of_find? ht
      exact ⟨inside _ pkey _ okey _ tkey related.1 related'.1,
        inside _ pvalue _ ovalue _ tvalue related.2 related'.2⟩
  | function same =>
    cases second with
    | function same' => exact .function (same.trans same')
  | builtin same =>
    cases second with
    | builtin same' => exact .builtin (same.trans same')
  | returned wrapped =>
    cases second with
    | returned wrapped' =>
      exact .returned (inside _ List.mem_cons_self _ List.mem_cons_self _ List.mem_cons_self wrapped
        wrapped')

end Matches

end Value

/-! ## The computation -/

/-- Two values are equal, as a relation. -/
abbrev Value.Equal (v w : Value) : Prop := v.equal w = true

open Value

/-- Lists of values are equal if they have equal values at every position. -/
theorem equalItems_iff {as bs : List Value} :
    equalItems as bs = true ↔ ∀ i : Nat, Option.Rel Equal as[i]? bs[i]? := by
  induction as generalizing bs with
  | nil =>
    cases bs with
    | nil => simp [equalItems]
    | cons b bs =>
      simp only [equalItems, Bool.false_eq_true, false_iff]
      intro h
      cases h 0
  | cons a as ih =>
    cases bs with
    | nil =>
      simp only [equalItems, Bool.false_eq_true, false_iff]
      intro h
      cases h 0
    | cons b bs =>
      rw [equalItems, Bool.and_eq_true, ih]
      constructor
      · rintro ⟨first, rest⟩ i
        cases i with
        | zero => exact .some first
        | succ i => exact rest i
      · intro h
        refine ⟨?_, fun i => h (i + 1)⟩
        cases h 0 with
        | some first => exact first

section Tables

variable {as bs : Table (Value × Value)}

theorem entriesIn_cons {hashKey : HashKey} {pair : Value × Value} {rest : Table (Value × Value)} :
    entriesIn ((hashKey, pair) :: rest) bs = true ↔
      (∃ other, Table.find? hashKey bs = some other ∧ Alike Equal pair other) ∧
        entriesIn rest bs = true := by
  obtain ⟨key, value⟩ := pair
  rw [entriesIn, Bool.and_eq_true]
  refine and_congr_left fun _ => ?_
  cases Table.find? hashKey bs with
  | none => simp
  | some other => simp [Alike]

/-- Every entry of the first table is found in the second one. -/
theorem entriesIn_iff : entriesIn as bs = true ↔ ∀ key pair, (key, pair) ∈ as →
    ∃ other, Table.find? key bs = some other ∧ Alike Equal pair other := by
  induction as with
  | nil => simp [entriesIn]
  | cons head rest ih =>
    obtain ⟨hashKey, pair⟩ := head
    rw [entriesIn_cons, ih]
    constructor
    · rintro ⟨first, others⟩ k pair mem
      rcases List.mem_cons.mp mem with eq | mem
      · cases eq
        exact first
      · exact others k pair mem
    · intro h
      exact ⟨h _ _ List.mem_cons_self, fun k pair mem => h k pair (List.mem_cons_of_mem _ mem)⟩

/-- Hashes are equal if they have equal entries under every hash key. -/
theorem hash_equal_iff (ha : (Table.keys as).Nodup) (hb : (Table.keys bs).Nodup) :
    (Value.hash as).equal (.hash bs) = true ↔
      ∀ key, Option.Rel (Alike Equal) (Table.find? key as) (Table.find? key bs) := by
  have length (table : Table (Value × Value)) : (Table.keys table).length = table.length :=
    List.length_map _
  rw [Value.equal, Bool.and_eq_true, beq_iff_eq, entriesIn_iff]
  constructor
  · rintro ⟨sizes, found⟩ key
    have subset : Table.keys as ⊆ Table.keys bs := by
      intro k mem
      obtain ⟨pair, filed⟩ := Table.mem_keys_iff.mp mem
      obtain ⟨other, here, -⟩ := found k pair filed
      exact Table.mem_keys_iff.mpr ⟨other, Table.mem_of_find? here⟩
    -- as many hash keys, each of them once: none can be left out
    have same : (Table.keys as).Perm (Table.keys bs) :=
      (ha.subperm subset).perm_of_length_le (Nat.le_of_eq (by rw [length, length, sizes]))
    cases first : Table.find? key as with
    | none =>
      have absent : key ∉ Table.keys bs := fun mem =>
        Table.find?_eq_none_iff.mp first (same.mem_iff.mpr mem)
      rw [Table.find?_eq_none_iff.mpr absent]
      exact .none
    | some pair =>
      obtain ⟨other, here, alike⟩ := found key pair (Table.mem_of_find? first)
      rw [here]
      exact .some alike
  · intro rel
    have keys (key : HashKey) : key ∈ Table.keys as ↔ key ∈ Table.keys bs := by
      rw [← not_iff_not, ← Table.find?_eq_none_iff, ← Table.find?_eq_none_iff]
      exact rel_none_iff (rel key)
    constructor
    · rw [← length as, ← length bs]
      exact ((List.perm_ext_iff_of_nodup ha hb).mpr keys).length_eq
    · intro key pair filed
      have here := rel key
      rw [(Table.find?_eq_some_iff ha).mpr filed] at here
      exact exists_of_rel_some here

end Tables

namespace Value

variable {v w : Value}

/-- Two values are equal if they match and what they contain is equal. -/
theorem equal_iff_matches (hv : v.Exact) (hw : w.Exact) : v.Equal w ↔ Matches Equal v w := by
  constructor
  · intro h
    unfold Equal Value.equal at h
    split at h
    case h_1 => exact beq_iff_eq.mp h ▸ .int _
    case h_2 => exact absurd rfl hv.kind_ne_float
    case h_3 => exact beq_iff_eq.mp h ▸ .bool _
    case h_4 => exact beq_iff_eq.mp h ▸ .str _
    case h_5 => exact .null
    case h_6 => exact .array (equalItems_iff.mp h)
    case h_7 as bs =>
      refine .hash ((hash_equal_iff (hv.distinct as rfl) (hw.distinct bs rfl)).mp ?_)
      rw [Value.equal]
      exact h
    case h_8 => exact .function (beq_iff_eq.mp h)
    case h_9 => exact .builtin (beq_iff_eq.mp h)
    case h_10 => exact .returned h
    case h_11 => exact beq_iff_eq.mp h ▸ .error _
    case h_12 => cases h
  · intro h
    unfold Equal
    cases h with
    | int | bool | str | null | error => simp [Value.equal]
    | array items =>
      rw [Value.equal]
      exact equalItems_iff.mpr items
    | hash entries => exact (hash_equal_iff (hv.distinct _ rfl) (hw.distinct _ rfl)).mpr entries
    | function same =>
      rw [Value.equal]
      exact beq_iff_eq.mpr same
    | builtin same =>
      rw [Value.equal]
      exact beq_iff_eq.mpr same
    | returned wrapped =>
      rw [Value.equal]
      exact wrapped

/-! ## The equivalence -/

theorem Throughout.equal_self (h : v.Throughout Exact) : v.Equal v := by
  induction h with
  | intro here _ ih => exact (equal_iff_matches here here).mpr (.self here.kind_ne_float ih)

theorem Throughout.equal_symm (hv : v.Throughout Exact) (hw : w.Throughout Exact)
    (h : v.Equal w) : w.Equal v := by
  induction hv generalizing w with
  | intro here _ ih =>
    obtain ⟨here', inside'⟩ := hw
    have h := (equal_iff_matches here here').mp h
    refine (equal_iff_matches here' here).mpr (h.symm ?_)
    intro a ha b hb
    exact ih a ha (inside' b hb)

theorem Throughout.equal_trans {u : Value} (hu : u.Throughout Exact) (hv : v.Throughout Exact)
    (hw : w.Throughout Exact) (first : u.Equal v) (second : v.Equal w) : u.Equal w := by
  induction hu generalizing v w with
  | intro here _ ih =>
    obtain ⟨here', inside'⟩ := hv
    obtain ⟨here'', inside''⟩ := hw
    have first := (equal_iff_matches here here').mp first
    have second := (equal_iff_matches here' here'').mp second
    refine (equal_iff_matches here here'').mpr (first.trans second ?_)
    intro a ha b hb c hc
    exact ih a ha (inside' b hb) (inside'' c hc)

end Value

/-- **Equality is an equivalence** on values that contain no number with a fraction.  Two of them
are equal exactly if they match and what they contain is equal: hashes are compared as maps from
hash keys, in whatever order their entries are kept, functions by identity and builtins by name. -/
theorem equal_equivalence :
    Equivalence (fun v w : FloatFree => v.value.equal w.value = true) ∧
      (∀ v w : FloatFree, v.value.equal w.value = true ↔ Matches Equal v.value w.value) ∧
      ∀ (v : FloatFree) (as bs : Table (Value × Value)), v.value = .hash as → as.Perm bs →
        (Value.hash as).equal (.hash bs) = true := by
  refine ⟨⟨fun v => v.exact.equal_self, fun {v w} => v.exact.equal_symm w.exact,
    fun {u v w} => u.exact.equal_trans v.exact w.exact⟩, fun v w => ?_, ?_⟩
  · obtain ⟨here, -⟩ := v.exact
    obtain ⟨here', -⟩ := w.exact
    exact equal_iff_matches here here'
  · rintro ⟨_, exact⟩ as bs rfl same
    obtain ⟨here, inside⟩ := exact
    have distinct : (Table.keys as).Nodup := here.distinct as rfl
    have distinct' : (Table.keys bs).Nodup := (same.map Prod.fst).nodup_iff.mp distinct
    -- the same entries are found, and each of them is equal to itself
    refine (hash_equal_iff distinct distinct').mpr fun key => ?_
    rw [← Table.find?_eq_of_perm distinct same]
    refine rel_self fun pair found => ?_
    obtain ⟨hkey, hvalue⟩ := mem_contents_of_find? found
    exact ⟨(inside _ hkey).equal_self, (inside _ hvalue).equal_self⟩

/-- A hash in an array, and the same one with its entries the other way round. -/
theorem equal_equivalence_reordered :
    let entries : Table (Value × Value) :=
      [(⟨.boolean, 1⟩, .bool true, .null), (⟨.int, 1⟩, .int 1, .str "one")]
    ∃ v w : FloatFree, v.value = .array [.hash entries] ∧
      w.value = .array [.hash entries.reverse] ∧ v.value.equal v.value = true ∧
      v.value.equal w.value = true ∧ w.value.equal v.value = true := by
  intro entries
  have leaf (v : Value) (mem : v ∈ [Value.bool true, .null, .int 1, .str "one"]) :
      v.Throughout Exact := by
    simp only [List.mem_cons, List.not_mem_nil, or_false] at mem
    rcases mem with rfl | rfl | rfl | rfl <;>
      exact .intro ⟨by simp [Value.kind], by simp⟩ (by simp [contents, parts])
  have outside {table : Table (Value × Value)} (same : table.Perm entries) :
      (Value.array [.hash table]).Throughout Exact := by
    refine .intro ⟨by simp [Value.kind], by simp⟩ (List.forall_mem_singleton.mpr ?_)
    refine .intro ⟨by simp [Value.kind], ?_⟩ fun part mem => leaf part ?_
    · rintro _ ⟨⟩
      exact (same.map Prod.fst).nodup_iff.mpr (by decide)
    · exact (same.flatMap_right _).mem_iff.mp mem
  let v : FloatFree := ⟨.array [.hash entries], outside (.refl _)⟩
  let w : FloatFree := ⟨.array [.hash entries.reverse], outside entries.reverse_perm⟩
  have equal : v.value.equal w.value = true := by
    simp [v, w, entries, Value.equal, equalItems, entriesIn, Table.find?]
  exact ⟨v, w, rfl, rfl, equal_equivalence.1.refl v, equal, equal_equivalence.1.symm equal⟩

end MonkeyLang
