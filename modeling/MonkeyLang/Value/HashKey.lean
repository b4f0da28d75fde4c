import MonkeyLang.Value.Kind

/-!
# Hash keys

The entries of a hash are filed under a kind and a word of 64 bits.  A number is filed under its
own bits, a truth value under zero or one, and a string under a digest of its UTF-8 bytes.  The
entries are kept in the order of their hash keys: first by the name of the kind, then by the word.

## Main definitions

* `HashKey`, `HashKey.before`: the keys and their order
* `digest`: the word of a string
* `Table`: entries filed under hash keys, with `Table.find?` and `Table.insert`

## Main results

* `Table.find?_insert_self`, `Table.find?_insert_of_ne`: an insertion is seen at its key and
  nowhere else
* `Table.mem_of_find?`, `Table.mem_of_mem_insert`: where entries come from
-/

namespace MonkeyLang

/-- What an entry of a hash is filed under. -/
structure HashKey where
  /-- The kind of the key. -/
  kind : ValueKind
  /-- The word that stands for the key within its kind. -/
  word : UInt64
deriving DecidableEq

/-- The order in which entries are kept. -/
def HashKey.before (a b : HashKey) : Bool :=
  a.kind.name < b.kind.name || (a.kind = b.kind && a.word < b.word)

/-- One step of the digest: a byte is added without carry, then the word is multiplied. -/
def digestStep (word : UInt64) (byte : UInt8) : UInt64 := (word ^^^ byte.toUInt64) * 0x100000001b3

/-- The digest of a text over its UTF-8 bytes. -/
def digest (text : String) : UInt64 :=
  text.toUTF8.data.toList.foldl digestStep 0xcbf29ce484222325

/-- Entries filed under hash keys, in the order of the keys. -/
abbrev Table (α : Type) : Type := List (HashKey × α)

namespace Table

variable {α : Type}

/-- The entry filed under a key. -/
def find? (key : HashKey) : Table α → Option α
  | [] => none
  | (other, entry) :: rest => if other = key then some entry else find? key rest

/-- Files an entry under a key, in place of the entry that was filed there before. -/
def insert (key : HashKey) (entry : α) : Table α → Table α
  | [] => [(key, entry)]
  | (other, old) :: rest =>
    if other = key then (key, entry) :: rest
    else if key.before other then (key, entry) :: (other, old) :: rest
    else (other, old) :: insert key entry rest

/-- An inserted entry is found under its key. -/
theorem find?_insert_self (key : HashKey) (entry : α) (table : Table α) :
    find? key (insert key entry table) = some entry := by
  induction table with
  | nil => simp [insert, find?]
  | cons head rest ih =>
    obtain ⟨other, old⟩ := head
    by_cases hkey : other = key
    · simp [insert, find?, hkey]
    · by_cases hlt : key.before other <;> simp [insert, find?, hkey, hlt, ih]

/-- An insertion changes nothing under other keys. -/
theorem find?_insert_of_ne {key other : HashKey} (h : other ≠ key) (entry : α) (table : Table α) :
    find? other (insert key entry table) = find? other table := by
  have h' : key ≠ other := Ne.symm h
  induction table with
  | nil => simp [insert, find?, h']
  | cons head rest ih =>
    obtain ⟨k, old⟩ := head
    by_cases hkey : k = key
    · simp [insert, find?, hkey, h']
    · by_cases hlt : key.before k <;> simp [insert, find?, hkey, hlt, h', ih]

/-- What is found under a key is filed there. -/
theorem mem_of_find? {key : HashKey} {entry : α} {table : Table α}
    (h : find? key table = some entry) : (key, entry) ∈ table := by
  induction table with
  | nil => cases h
  | cons head rest ih =>
    rw [find?] at h
    split at h
    · rename_i same
      cases h
      rw [← same]
      exact List.mem_cons_self
    · exact List.mem_cons_of_mem _ (ih h)

/-- An insertion files nothing but its entry. -/
theorem mem_of_mem_insert {key : HashKey} {entry : α} {table : Table α} {item : HashKey × α}
    (h : item ∈ insert key entry table) : item = (key, entry) ∨ item ∈ table := by
  induction table with
  | nil => exact .inl (List.mem_singleton.mp h)
  | cons head rest ih =>
    rw [insert] at h
    split at h
    · rcases List.mem_cons.mp h with rfl | h
      · exact .inl rfl
      · exact .inr (List.mem_cons_of_mem _ h)
    · split at h
      · exact List.mem_cons.mp h
      · rcases List.mem_cons.mp h with rfl | h
        · exact .inr List.mem_cons_self
        · exact (ih h).imp_right (List.mem_cons_of_mem _)

end Table

end MonkeyLang
