import MonkeyLang.Evaluation.Rules
import MonkeyLang.Proofs.Tables
import MonkeyLang.Value.Equality

/-!
# Keys of hashes

The entries of a hash are filed under hash keys, and the keys themselves are not compared.  Integers
and truth values are told apart by their hash keys, and no value has the hash key of a value of
another kind.  Two strings share a hash key if they have the same digest, and there are different
strings that do: then the later one of two pairs of a literal takes the place of the earlier one.

## Main definitions

* `Value.isPlainKey`: integers, truth values and strings
* `Collide`: two different strings with one digest
* `Gives`: the keys and values of a hash literal
* `lastFiled?`: the last of some pairs that is filed under a hash key
* `Indexes`: what a hash gives for a key

## Main results

* `hashKey?_eq_iff`: hash keys are equal for equal keys and for colliding strings alone
* `evalPairs_append_of_gives`, `hash_eval_of_hashable`: a hash literal keeps the last pair under
  each hash key
* `index_hash`: a key gives the value paired with it, as far as no string collides with it
* `index_colliding`: two strings that collide
-/

namespace MonkeyLang

/-! ## Hash keys -/

/-- The values that can be keys, but for numbers with a fraction. -/
def Value.isPlainKey : Value → Bool
  | int _ | bool _ | str _ => true
  | _ => false

/-- Two different strings with one digest. -/
inductive Collide : Value → Value → Prop where
  | intro {t u : String} (different : t ≠ u) (same : digest t = digest u) :
      Collide (.str t) (.str u)

theorem exists_hashKey? {k : Value} (plain : k.isPlainKey) : ∃ key, k.hashKey? = some key := by
  cases k with
  | int | bool | str => exact ⟨_, rfl⟩
  | _ => cases plain

theorem collide_iff {a b : Value} :
    Collide a b ↔ ∃ t u, a = .str t ∧ b = .str u ∧ t ≠ u ∧ digest t = digest u := by
  constructor
  · rintro ⟨different, same⟩
    exact ⟨_, _, rfl, rfl, different, same⟩
  · rintro ⟨t, u, rfl, rfl, different, same⟩
    exact ⟨different, same⟩

theorem hashKeyOf_eq {k : Value} {key : HashKey} (filed : k.hashKey? = some key) :
    hashKeyOf k = pure key := by
  rw [hashKeyOf, filed]

/-- Two plain keys have the same hash key exactly if they are equal or collide. -/
theorem hashKey?_eq_iff {a b : Value} (ha : a.isPlainKey) (hb : b.isPlainKey) :
    a.hashKey? = b.hashKey? ↔ a.equal b ∨ Collide a b := by
  rw [collide_iff]
  cases a with
  | int i =>
    cases b with
    | int j =>
      cases i
      cases j
      simp [Value.hashKey?, Value.equal]
    | bool | str => simp [Value.hashKey?, Value.equal]
    | _ => cases hb
  | bool x =>
    cases b with
    | bool y => cases x <;> cases y <;> simp [Value.hashKey?, Value.equal]
    | int | str => simp [Value.hashKey?, Value.equal]
    | _ => cases hb
  | str t =>
    cases b with
    | str u => by_cases same : t = u <;> simp [Value.hashKey?, Value.equal, same]
    | int | bool => simp [Value.hashKey?, Value.equal]
    | _ => cases hb
  | _ => cases ha

theorem hashKey?_ne {k other : Value} {key : HashKey} (hk : k.isPlainKey) (plain : other.isPlainKey)
    (filed : k.hashKey? = some key) (apart : k.equal other = false ∧ ¬ Collide k other) :
    other.hashKey? ≠ some key := by
  intro filed'
  rcases (hashKey?_eq_iff hk plain).mp (filed.trans filed'.symm) with equal | collides
  · rw [apart.1] at equal
    cases equal
  · exact apart.2 collides

theorem eq_of_equal {a b : Value} (ha : a.isPlainKey) (equal : a.equal b) : a = b := by
  cases a with
  | int | bool | str => cases b <;> simp_all [Value.equal]
  | _ => cases ha

/-! ## Pairs of a literal -/

/-- The key of a pair of a hash literal.  A bare name is a key by itself. -/
def evalKeyExpr (m : Machine) (scope : ScopeId) (e : Expr) : Eval Value :=
  match bareKey? e with
  | some name => pure (.str name)
  | none => e.eval m scope

/-- The keys and values of the pairs of a hash literal, all of them evaluated without a fault. -/
inductive Gives (m : Machine) (scope : ScopeId) :
    List (Expr × Expr) → Store → List (Value × Value) → Store → Prop where
  | nil {s} : Gives m scope [] s [] s
  | cons {keyExpr valueExpr rest s s₁ s₂ s₃ key value pairs}
      (hkey : evalKeyExpr m scope keyExpr s = (.done key, s₁))
      (hvalue : valueExpr.eval m scope s₁ = (.done value, s₂))
      (hrest : Gives m scope rest s₂ pairs s₃) :
      Gives m scope ((keyExpr, valueExpr) :: rest) s ((key, value) :: pairs) s₃

/-- The last of some pairs that is filed under a hash key. -/
def lastFiled? (key : HashKey) (pairs : List (Value × Value)) : Option (Value × Value) :=
  pairs.reverse.find? fun pair => pair.1.hashKey? = some key

section Filing

variable {key : HashKey} {pairs : List (Value × Value)}

theorem lastFiled?_cons (pair : Value × Value) :
    lastFiled? key (pair :: pairs) =
      (lastFiled? key pairs).or (if pair.1.hashKey? = some key then some pair else none) := by
  by_cases same : pair.1.hashKey? = some key <;>
    simp [lastFiled?, List.find?_append, same]

theorem lastFiled?_eq_some {before after : List (Value × Value)} {pair : Value × Value}
    (same : pair.1.hashKey? = some key) (others : ∀ other ∈ after, other.1.hashKey? ≠ some key) :
    lastFiled? key (before ++ pair :: after) = some pair := by
  have none : after.reverse.find? (fun pair => pair.1.hashKey? = some key) = none := by
    simpa using others
  simp [lastFiled?, List.find?_append, none, same]

theorem lastFiled?_eq_none (others : ∀ other ∈ pairs, other.1.hashKey? ≠ some key) :
    lastFiled? key pairs = none := by
  simpa [lastFiled?] using others

theorem Table.find?_insert (key other : HashKey) (pair : Value × Value)
    (table : Table (Value × Value)) :
    Table.find? other (table.insert key pair) =
      (if key = other then some pair else none).or (Table.find? other table) := by
  by_cases same : key = other
  · subst same
    rw [Table.find?_insert_self, if_pos rfl]
    rfl
  · rw [Table.find?_insert_of_ne (Ne.symm same), if_neg same]
    rfl

end Filing

section Literals

variable {m : Machine} {scope : ScopeId} {exprs : List (Expr × Expr)} {s s' : Store}
  {pairs : List (Value × Value)}

/-- A pair whose key can be a key is filed under its hash key. -/
theorem file_of_gives {keyExpr valueExpr : Expr} {key value : Value} {hashKey : HashKey}
    {s₁ : Store} (hkey : evalKeyExpr m scope keyExpr s = (.done key, s₁))
    (filed : key.hashKey? = some hashKey) (hvalue : valueExpr.eval m scope s₁ = (.done value, s'))
    (table : Table (Value × Value)) :
    Rule.file (bareKey? keyExpr) (keyExpr.eval m scope) (valueExpr.eval m scope) table s =
      (.done (table.insert hashKey (key, value)), s') := by
  change (evalKeyExpr m scope keyExpr >>= _) s = _
  rw [Eval.bind_of_done hkey, hashKeyOf_eq filed, pure_bind, Eval.bind_of_done hvalue]
  rfl

/-- Pairs that have been evaluated leave a table that keeps the last of them under each hash key,
and the pairs behind them are evaluated next. -/
theorem evalPairs_append_of_gives (gives : Gives m scope exprs s pairs s')
    (hashable : ∀ pair ∈ pairs, ∃ key, pair.1.hashKey? = some key) (rest : List (Expr × Expr))
    {table : Table (Value × Value)} (ordered : Table.Ordered table) :
    ∃ entries, evalPairs m scope (exprs ++ rest) table s = evalPairs m scope rest entries s' ∧
      Table.Ordered entries ∧
      ∀ key, Table.find? key entries = (lastFiled? key pairs).or (Table.find? key table) := by
  induction gives generalizing table with
  | nil => exact ⟨table, rfl, ordered, fun key => rfl⟩
  | @cons keyExpr valueExpr exprs s s₁ s₂ s₃ key value pairs hkey hvalue _ ih =>
    obtain ⟨⟨hashKey, filed⟩, others⟩ := List.forall_mem_cons.mp hashable
    obtain ⟨entries, run, sorted, found⟩ := ih others (ordered.insert hashKey (key, value))
    refine ⟨entries, ?_, sorted, fun other => ?_⟩
    · rw [List.cons_append, evalPairs, Eval.bind_of_done (file_of_gives hkey filed hvalue table)]
      exact run
    · rw [found, Table.find?_insert, lastFiled?_cons, filed, Option.or_assoc]
      simp

/-- A hash literal keeps the last pair that is filed under each hash key. -/
theorem hash_eval_of_hashable (gives : Gives m scope exprs s pairs s')
    (hashable : ∀ pair ∈ pairs, ∃ key, pair.1.hashKey? = some key) :
    ∃ entries, (Expr.hash exprs).eval m scope s = (.done (.hash entries), s') ∧
      Table.Ordered entries ∧ ∀ key, Table.find? key entries = lastFiled? key pairs := by
  obtain ⟨entries, run, sorted, found⟩ := evalPairs_append_of_gives gives hashable [] .nil
  rw [List.append_nil, evalPairs] at run
  refine ⟨entries, ?_, sorted, fun key => ?_⟩
  · rw [Expr.eval]
    exact Eval.bind_of_done run _
  · rw [found, Table.find?, Option.or_none]

theorem hash_eval_of_gives (gives : Gives m scope exprs s pairs s')
    (plain : ∀ pair ∈ pairs, pair.1.isPlainKey) :
    ∃ entries, (Expr.hash exprs).eval m scope s = (.done (.hash entries), s') ∧
      ∀ key, Table.find? key entries = lastFiled? key pairs := by
  obtain ⟨entries, run, -, found⟩ :=
    hash_eval_of_hashable gives fun pair mem => exists_hashKey? (plain pair mem)
  exact ⟨entries, run, found⟩

/-! ## Indexing -/

/-- Wherever the hash is indexed with the key, it gives the value. -/
def Indexes (hash key value : Value) : Prop :=
  ∀ (m : Machine) (scope : ScopeId) (target e : Expr) (s s₁ s₂ : Store),
    target.eval m scope s = (.done hash, s₁) → e.eval m scope s₁ = (.done key, s₂) →
    (Expr.index target (.item e)).eval m scope s = (.done value, s₂)

theorem indexes_find? (entries : Table (Value × Value)) {k : Value} {key : HashKey}
    (filed : k.hashKey? = some key) :
    Indexes (.hash entries) k (((Table.find? key entries).map Prod.snd).getD .null) := by
  intro m scope target e s s₁ s₂ htarget he
  rw [Expr.eval, Rule.index, Eval.bind_of_done htarget]
  change (Subscript.evalKey m scope (.item e) >>= _) s₁ = _
  rw [Subscript.evalKey, Eval.bind_of_done he, hashKeyOf_eq filed, pure_bind]
  rfl

/-- A key gives the value of the last pair whose key is equal to it or collides with it. -/
theorem indexes_last {entries : Table (Value × Value)} {k : Value} {pair : Value × Value}
    {before after : List (Value × Value)} (hk : k.isPlainKey)
    (plain : ∀ pair ∈ pairs, pair.1.isPlainKey)
    (found : ∀ key, Table.find? key entries = lastFiled? key pairs)
    (split : pairs = before ++ pair :: after) (here : k.equal pair.1 ∨ Collide k pair.1)
    (last : ∀ other ∈ after, k.equal other.1 = false ∧ ¬ Collide k other.1) :
    Indexes (.hash entries) k pair.2 := by
  subst split
  obtain ⟨key, filed⟩ := exists_hashKey? hk
  have same : pair.1.hashKey? = some key := by
    rw [← filed, (hashKey?_eq_iff hk (plain pair (by simp))).mpr here]
  have others (other : Value × Value) (mem : other ∈ after) : other.1.hashKey? ≠ some key :=
    hashKey?_ne hk (plain other (by simp [mem])) filed (last other mem)
  have indexes := indexes_find? entries filed
  rw [found, lastFiled?_eq_some same others] at indexes
  exact indexes

/-- A hash literal with pairwise unequal keys.  A key gives the value paired with it, unless a
string behind it collides with it; and what is unequal to all keys and collides with none of them
gives `null`.  A string that collides with a key gives the value paired with that key. -/
theorem index_hash (gives : Gives m scope exprs s pairs s')
    (plain : ∀ pair ∈ pairs, pair.1.isPlainKey)
    (unequal : pairs.Pairwise fun pair other => pair.1.equal other.1 = false) :
    ∃ entries, (Expr.hash exprs).eval m scope s = (.done (.hash entries), s') ∧
      ∀ k : Value, k.isPlainKey →
        (∀ before pair after, pairs = before ++ pair :: after → k.equal pair.1 →
          (∀ other ∈ after, ¬ Collide k other.1) → Indexes (.hash entries) k pair.2) ∧
        ((∀ pair ∈ pairs, k.equal pair.1 = false ∧ ¬ Collide k pair.1) →
          Indexes (.hash entries) k .null) ∧
        (∀ before pair after, pairs = before ++ pair :: after → Collide k pair.1 →
          (∀ other ∈ after, k.equal other.1 = false ∧ ¬ Collide k other.1) →
          Indexes (.hash entries) k pair.2) := by
  obtain ⟨entries, run, found⟩ := hash_eval_of_gives gives plain
  refine ⟨entries, run, fun k hk => ⟨?_, fun apart => ?_, ?_⟩⟩
  · intro before pair after split equal apart
    refine indexes_last hk plain found split (.inl equal) fun other mem => ⟨?_, apart other mem⟩
    -- the key is the one of the pair, which is unequal to all that follow
    rw [eq_of_equal hk equal]
    rw [split] at unequal
    obtain ⟨_, behind, _⟩ := List.pairwise_append.mp unequal
    exact (List.pairwise_cons.mp behind).1 other mem
  · obtain ⟨key, filed⟩ := exists_hashKey? hk
    have none : lastFiled? key pairs = none :=
      lastFiled?_eq_none fun other mem => hashKey?_ne hk (plain other mem) filed (apart other mem)
    have indexes := indexes_find? entries filed
    rw [found, none] at indexes
    exact indexes
  · intro before pair after split collides last
    exact indexes_last hk plain found split (.inr collides) last

end Literals

/-- The integer and the truth value among the keys have the same word, but not the same kind. -/
theorem index_hash_of_three_kinds :
    let machine := Machine.withLimit .standard 0
    let store := (Store.empty.enclose none).2
    let exprs := [(Expr.int 1, Expr.int 10), (.bool true, .int 20), (.str "1", .int 30)]
    let pairs := [(Value.int 1, Value.int 10), (.bool true, .int 20), (.str "1", .int 30)]
    Gives machine 0 exprs store pairs store ∧ (∀ pair ∈ pairs, pair.1.isPlainKey) ∧
      pairs.Pairwise (fun pair other => pair.1.equal other.1 = false) ∧
      ∃ entries, (Expr.hash exprs).eval machine 0 store = (.done (.hash entries), store) ∧
        Indexes (.hash entries) (.bool true) (.int 20) ∧
        Indexes (.hash entries) (.int 0) .null := by
  intro machine store exprs pairs
  have gives : Gives machine 0 exprs store pairs store :=
    .cons rfl rfl (.cons rfl rfl (.cons rfl rfl .nil))
  have plain : ∀ pair ∈ pairs, pair.1.isPlainKey := by
    simp [pairs, Value.isPlainKey]
  have unequal : pairs.Pairwise fun pair other => pair.1.equal other.1 = false := by
    simp [pairs, Value.equal]
  obtain ⟨entries, run, indexes⟩ := index_hash gives plain unequal
  refine ⟨gives, plain, unequal, entries, run, ?_, ?_⟩
  · refine (indexes (.bool true) rfl).1 [(.int 1, .int 10)] (.bool true, .int 20) _ rfl rfl ?_
    simp [collide_iff]
  · refine (indexes (.int 0) rfl).2.1 ?_
    simp [pairs, Value.equal, collide_iff]

/-- Two strings that differ, but have one digest. -/
theorem collide_texts : Collide (.str "8yn0iYCKYHlIj4-BwPqk") (.str "GReLUrM4wMqfg9yzV3KQ") :=
  ⟨by simp, by decide +kernel⟩

/-- The two keys of this literal are unequal, but the first one gives the value of the second. -/
theorem index_colliding :
    let machine := Machine.withLimit .standard 0
    let store := (Store.empty.enclose none).2
    let first := "8yn0iYCKYHlIj4-BwPqk"
    let second := "GReLUrM4wMqfg9yzV3KQ"
    let literal := Expr.hash [(.str first, .int 1), (.str second, .int 2)]
    (Value.str first).equal (.str second) = false ∧
      (Expr.index literal (.item (.str first))).eval machine 0 store = (.done (.int 2), store) := by
  intro machine store first second literal
  let pairs : List (Value × Value) := [(.str first, .int 1), (.str second, .int 2)]
  have gives : Gives machine 0 [(.str first, .int 1), (.str second, .int 2)] store pairs store :=
    .cons rfl rfl (.cons rfl rfl .nil)
  have plain : ∀ pair ∈ pairs, pair.1.isPlainKey := by
    simp [pairs, Value.isPlainKey]
  have split : pairs = [(.str first, .int 1)] ++ (.str second, .int 2) :: [] := rfl
  obtain ⟨entries, run, found⟩ := hash_eval_of_gives gives plain
  have indexes : Indexes (.hash entries) (.str first) (.int 2) :=
    indexes_last rfl plain found split (.inr collide_texts) (by simp)
  refine ⟨by simp [Value.equal, first, second], ?_⟩
  exact indexes machine 0 literal (.str first) store store store run rfl

end MonkeyLang
