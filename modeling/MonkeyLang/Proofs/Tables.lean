import MonkeyLang.Value.HashKey

/-!
# Tables

A table is kept in the order of its hash keys, so an insertion finds the entry that is filed under
its key already, and no two entries are filed under one key.  Such a table is a finite map: an entry
is found under a hash key exactly if it is filed there.

## Main definitions

* `Table.keys`: the hash keys of a table
* `Table.Ordered`: the entries follow one another in the order of their hash keys

## Main results

* `HashKey.before_trans`, `HashKey.before_trichotomy`: the order of hash keys is linear
* `Table.Ordered.insert`: an insertion keeps a table in order
* `Table.Ordered.nodup_keys`: no two entries of a table in order have the same hash key
* `Table.find?_eq_some_iff`, `Table.find?_eq_none_iff`: what is found is what is filed
* `Table.find?_eq_of_perm`: in whatever order
-/

namespace MonkeyLang

/-! ## The order of hash keys -/

theorem ValueKind.name_injective {a b : ValueKind} (h : a.name = b.name) : a = b := by
  cases a <;> cases b <;> first | rfl | simp [ValueKind.name] at h

namespace HashKey

variable {a b c : HashKey}

theorem before_iff :
    a.before b ↔ a.kind.name < b.kind.name ∨ a.kind = b.kind ∧ a.word < b.word := by
  simp [before]

theorem not_before_self (a : HashKey) : ¬ a.before a := by
  rw [before_iff]
  rintro (name | ⟨-, word⟩)
  · exact String.lt_irrefl _ name
  · exact UInt64.lt_irrefl _ word

theorem before_trans (hab : a.before b) (hbc : b.before c) : a.before c := by
  rw [before_iff] at hab hbc ⊢
  rcases hab with hab | ⟨same, hab⟩
  · rcases hbc with hbc | ⟨same', -⟩
    · exact .inl (String.lt_trans hab hbc)
    · exact .inl (same' ▸ hab)
  · rcases hbc with hbc | ⟨same', hbc⟩
    · exact .inl (same ▸ hbc)
    · exact .inr ⟨same.trans same', UInt64.lt_trans hab hbc⟩

/-- The names of kinds tell the kinds apart, so two different hash keys are always in order. -/
theorem before_trichotomy (a b : HashKey) : a.before b ∨ a = b ∨ b.before a := by
  rw [before_iff, before_iff]
  rcases Std.lt_trichotomy a.kind.name b.kind.name with name | name | name
  · exact .inl (.inl name)
  · have kind : a.kind = b.kind := ValueKind.name_injective name
    rcases Std.lt_trichotomy a.word b.word with word | word | word
    · exact .inl (.inr ⟨kind, word⟩)
    · obtain ⟨k, w⟩ := a
      subst kind word
      exact .inr (.inl rfl)
    · exact .inr (.inr (.inr ⟨kind.symm, word⟩))
  · exact .inr (.inr (.inl name))

end HashKey

namespace Table

variable {α : Type} {table : Table α} {key : HashKey} {entry : α}

/-- The hash keys of a table. -/
def keys (table : Table α) : List HashKey := table.map Prod.fst

theorem mem_keys_iff : key ∈ keys table ↔ ∃ entry, (key, entry) ∈ table := by
  simp [keys]

/-! ## Tables in order -/

/-- The entries follow one another in the order of their hash keys. -/
def Ordered (table : Table α) : Prop := table.Pairwise fun item next => item.1.before next.1

namespace Ordered

theorem nodup_keys (h : Ordered table) : (keys table).Nodup := by
  refine List.pairwise_map.mpr (h.imp fun {item next} before same => ?_)
  rw [same] at before
  exact HashKey.not_before_self _ before

theorem insert (h : Ordered table) (key : HashKey) (entry : α) :
    Ordered (Table.insert key entry table) := by
  induction table with
  | nil => exact List.pairwise_singleton _ _
  | cons head rest ih =>
    obtain ⟨other, old⟩ := head
    obtain ⟨first, rest'⟩ := List.pairwise_cons.mp h
    rw [Table.insert]
    split
    · next same =>
      subst same
      exact List.pairwise_cons.mpr ⟨first, rest'⟩
    · next different =>
      split
      · next before =>
        -- what comes behind the head comes behind the new entry as well
        refine List.pairwise_cons.mpr ⟨List.forall_mem_cons.mpr ⟨before, fun item mem => ?_⟩, h⟩
        exact HashKey.before_trans before (first item mem)
      · next notBefore =>
        refine List.pairwise_cons.mpr ⟨fun item mem => ?_, ih rest'⟩
        rcases mem_of_mem_insert mem with rfl | mem
        · exact ((HashKey.before_trichotomy other key).resolve_right fun h =>
            h.elim different notBefore)
        · exact first item mem

end Ordered

/-! ## Tables as maps -/

theorem find?_eq_none_iff : find? key table = none ↔ key ∉ keys table := by
  induction table with
  | nil => simp [find?, keys]
  | cons head rest ih =>
    obtain ⟨other, old⟩ := head
    by_cases same : other = key
    · simp [find?, keys, same]
    · have other' : key ≠ other := Ne.symm same
      rw [find?, if_neg same, ih]
      simp [keys, other']

/-- Under a hash key that is filed once, what is found is what is filed. -/
theorem find?_eq_some_iff (distinct : (keys table).Nodup) :
    find? key table = some entry ↔ (key, entry) ∈ table := by
  refine ⟨mem_of_find?, fun mem => ?_⟩
  induction table with
  | nil => cases mem
  | cons head rest ih =>
    obtain ⟨other, old⟩ := head
    obtain ⟨single, rest'⟩ := List.nodup_cons.mp distinct
    rw [find?]
    rcases List.mem_cons.mp mem with eq | mem
    · cases eq
      rw [if_pos rfl]
    · rw [if_neg, ih rest' mem]
      rintro rfl
      exact single (mem_keys_iff.mpr ⟨entry, mem⟩)

/-- What is found does not depend on the order of the entries. -/
theorem find?_eq_of_perm {other : Table α} (distinct : (keys table).Nodup) (same : table.Perm other)
    (key : HashKey) : find? key table = find? key other := by
  have distinct' : (keys other).Nodup := (same.map Prod.fst).nodup_iff.mp distinct
  ext entry
  rw [find?_eq_some_iff distinct, find?_eq_some_iff distinct', same.mem_iff]

end Table

end MonkeyLang
