import MonkeyLang.Proofs.HashKeys
import Mathlib.Logic.Basic

/-!
# Hash literals

The pairs of a hash literal are evaluated one after the other, in each of them first the key and
then the value.  The literal has a value if all of them have, and all keys can be keys.  Then it is
a finite map: under each hash key that occurs it holds the last of the pairs with that hash key, the
key of the pair included.  If not, the literal ends at the first point that has no result, and
nothing behind that point is evaluated; a key that can be no key is such a point, before its value.

## Main definitions

* `Halt`: the ends of an evaluation without a result
* `PairHalts`, `Halts`: the point at which a pair, and a list of pairs, comes to an end
* `KeepsLast`: tables that hold the last of some pairs under each hash key

## Main results

* `gives_or_halts`: the pairs are all evaluated, or there is a first point that has no result
* `hash_eval_eq_halt_iff`: there the literal ends
* `keepsLast`: what a literal holds if there is no such point
* `eval_hash_literal`: the value of a hash literal
-/

namespace MonkeyLang

/-! ## Ends without a result -/

/-- How an evaluation ends that has no result. -/
inductive Halt where
  /-- With a fault. -/
  | fault (f : Fault)
  /-- At the limit of nested calls. -/
  | limit

namespace Halt

variable {α β : Type}

/-- The outcome of an evaluation that ends in this way. -/
def outcome : Halt → Outcome α
  | fault f => .fault f
  | limit => .exhausted

theorem outcome_injective {halt halt' : Halt} (h : (halt.outcome : Outcome α) = halt'.outcome) :
    halt = halt' := by
  cases halt <;> cases halt' <;> cases h <;> rfl

theorem outcome_ne_done (halt : Halt) (a : α) : halt.outcome ≠ .done a := by
  cases halt <;> exact nofun

end Halt

namespace Eval

variable {α β : Type}

theorem bind_of_halt {e : Eval α} {s s' : Store} {halt : Halt} (h : e s = (halt.outcome, s'))
    (f : α → Eval β) : (e >>= f) s = (halt.outcome, s') := by
  show andThen e f s = _
  rw [andThen, h]
  cases halt <;> rfl

/-- Every run has a result, or ends without one. -/
theorem done_or_halt (e : Eval α) (s : Store) :
    (∃ a s', e s = (.done a, s')) ∨ ∃ (halt : Halt) (s' : Store), e s = (halt.outcome, s') := by
  obtain ⟨outcome, s'⟩ := e s
  cases outcome with
  | done a => exact .inl ⟨a, s', rfl⟩
  | fault f => exact .inr ⟨.fault f, s', rfl⟩
  | exhausted => exact .inr ⟨.limit, s', rfl⟩

end Eval

/-! ## The first point without a result -/

/-- All pairs have keys that can be keys. -/
def Hashable (pairs : List (Value × Value)) : Prop :=
  ∀ pair ∈ pairs, ∃ key, pair.1.hashKey? = some key

section Literals

variable (m : Machine) (scope : ScopeId)

/-- The evaluation of a pair from a store comes to an end without a result: at its key, behind its
key if that can be no key, or at its value. -/
inductive PairHalts : Expr × Expr → Store → Halt → Store → Prop where
  | key {keyExpr valueExpr s s' halt}
      (hkey : evalKeyExpr m scope keyExpr s = (halt.outcome, s')) :
      PairHalts (keyExpr, valueExpr) s halt s'
  | unhashable {keyExpr valueExpr s s' key}
      (hkey : evalKeyExpr m scope keyExpr s = (.done key, s')) (unfiled : key.hashKey? = none) :
      PairHalts (keyExpr, valueExpr) s (.fault (.keyNotHashable key.kind)) s'
  | value {keyExpr valueExpr s s₁ s' key hashKey halt}
      (hkey : evalKeyExpr m scope keyExpr s = (.done key, s₁)) (filed : key.hashKey? = some hashKey)
      (hvalue : valueExpr.eval m scope s₁ = (halt.outcome, s')) :
      PairHalts (keyExpr, valueExpr) s halt s'

/-- The evaluation of pairs from a store comes to an end without a result in one of them, and those
before it have been evaluated in their order. -/
inductive Halts : List (Expr × Expr) → Store → Halt → Store → Prop where
  | intro {before pair after pairs s s₁ s' halt} (gives : Gives m scope before s pairs s₁)
      (hashable : Hashable pairs) (here : PairHalts m scope pair s₁ halt s') :
      Halts (before ++ pair :: after) s halt s'

variable {m scope} {exprs : List (Expr × Expr)} {s s' : Store} {pairs : List (Value × Value)}

/-- A pair comes to an end without a result, or it has a key that can be a key and a value. -/
theorem pair_gives_or_halts (keyExpr valueExpr : Expr) (s : Store) :
    (∃ key value s₁ s', evalKeyExpr m scope keyExpr s = (.done key, s₁) ∧
      (∃ hashKey, key.hashKey? = some hashKey) ∧
      valueExpr.eval m scope s₁ = (.done value, s')) ∨
    ∃ halt s', PairHalts m scope (keyExpr, valueExpr) s halt s' := by
  rcases (evalKeyExpr m scope keyExpr).done_or_halt s with ⟨key, s₁, hkey⟩ | ⟨halt, s', hkey⟩
  · cases filed : key.hashKey? with
    | none => exact .inr ⟨_, _, .unhashable hkey filed⟩
    | some hashKey =>
      rcases (valueExpr.eval m scope).done_or_halt s₁ with ⟨value, s', hvalue⟩ | ⟨halt, s', hvalue⟩
      · exact .inl ⟨key, value, s₁, s', hkey, ⟨hashKey, filed⟩, hvalue⟩
      · exact .inr ⟨halt, s', .value hkey filed hvalue⟩
  · exact .inr ⟨halt, s', .key hkey⟩

/-- The pairs are all evaluated, or there is a first point that has no result. -/
theorem gives_or_halts (exprs : List (Expr × Expr)) (s : Store) :
    (∃ pairs s', Gives m scope exprs s pairs s' ∧ Hashable pairs) ∨
      ∃ halt s', Halts m scope exprs s halt s' := by
  induction exprs generalizing s with
  | nil => exact .inl ⟨[], s, .nil, nofun⟩
  | cons pair rest ih =>
    obtain ⟨keyExpr, valueExpr⟩ := pair
    rcases pair_gives_or_halts keyExpr valueExpr s with
      ⟨key, value, s₁, s₂, hkey, filed, hvalue⟩ | ⟨halt, s', here⟩
    · rcases ih s₂ with ⟨pairs, s', gives, hashable⟩ | ⟨halt, s', halts⟩
      · exact .inl ⟨_, s', .cons hkey hvalue gives, List.forall_mem_cons.mpr ⟨filed, hashable⟩⟩
      · -- the pair is one more of those before the point
        obtain ⟨gives, hashable, here⟩ := halts
        exact .inr ⟨halt, s', .intro (.cons hkey hvalue gives)
          (List.forall_mem_cons.mpr ⟨filed, hashable⟩) here⟩
    · exact .inr ⟨halt, s', .intro .nil nofun here⟩

/-- A pair that comes to an end is not filed. -/
theorem PairHalts.file_eq {pair : Expr × Expr} {halt : Halt}
    (here : PairHalts m scope pair s halt s') (table : Table (Value × Value)) :
    Rule.file (bareKey? pair.1) (pair.1.eval m scope) (pair.2.eval m scope) table s =
      (halt.outcome, s') := by
  change (evalKeyExpr m scope pair.1 >>= _) s = _
  cases here with
  | key hkey => exact Eval.bind_of_halt hkey _
  | unhashable hkey unfiled =>
    rw [Eval.bind_of_done hkey, hashKeyOf, unfiled]
    rfl
  | value hkey filed hvalue =>
    rw [Eval.bind_of_done hkey, hashKeyOf_eq filed, pure_bind]
    exact Eval.bind_of_halt hvalue _

/-- Where a pair comes to an end, so do the pairs from it on. -/
theorem PairHalts.evalPairs_eq {pair : Expr × Expr} {halt : Halt}
    (here : PairHalts m scope pair s halt s') (after : List (Expr × Expr))
    (table : Table (Value × Value)) :
    evalPairs m scope (pair :: after) table s = (halt.outcome, s') := by
  rw [evalPairs]
  exact Eval.bind_of_halt (here.file_eq table) _

/-- The literal ends at the first point that has no result. -/
theorem hash_eval_of_halts {halt : Halt} (halts : Halts m scope exprs s halt s') :
    (Expr.hash exprs).eval m scope s = (halt.outcome, s') := by
  obtain ⟨gives, hashable, here⟩ := halts
  obtain ⟨entries, run, -, -⟩ := evalPairs_append_of_gives gives hashable _ .nil
  rw [here.evalPairs_eq] at run
  rw [Expr.eval]
  exact Eval.bind_of_halt run _

/-- A literal has no result exactly if it comes to a point that has none. -/
theorem hash_eval_eq_halt_iff {halt : Halt} :
    (Expr.hash exprs).eval m scope s = (halt.outcome, s') ↔ Halts m scope exprs s halt s' := by
  refine ⟨fun run => ?_, hash_eval_of_halts⟩
  rcases gives_or_halts exprs s with ⟨pairs, s₁, gives, hashable⟩ | ⟨halt', s₁, halts⟩
  · obtain ⟨entries, done, -⟩ := hash_eval_of_hashable gives hashable
    rw [done] at run
    exact absurd (congrArg Prod.fst run).symm (halt.outcome_ne_done _)
  · rw [hash_eval_of_halts halts] at run
    obtain ⟨same, rfl⟩ := Prod.mk.inj run
    rw [← Halt.outcome_injective same]
    exact halts

/-- A literal that has a value has evaluated all its pairs. -/
theorem gives_of_hash_eval {v : Value} (run : (Expr.hash exprs).eval m scope s = (.done v, s')) :
    ∃ pairs, Gives m scope exprs s pairs s' ∧ Hashable pairs := by
  rcases gives_or_halts exprs s with ⟨pairs, s₁, gives, hashable⟩ | ⟨halt, s₁, halts⟩
  · obtain ⟨entries, done, -⟩ := hash_eval_of_hashable gives hashable
    rw [done] at run
    obtain ⟨-, rfl⟩ := Prod.mk.inj run
    exact ⟨pairs, gives, hashable⟩
  · rw [hash_eval_of_halts halts] at run
    exact absurd (congrArg Prod.fst run) (halt.outcome_ne_done v)

/-! ## The value of a literal -/

/-- The table holds the last of the pairs under each hash key of theirs, and nothing else. -/
structure KeepsLast (pairs : List (Value × Value)) (entries : Table (Value × Value)) : Prop where
  /-- No two entries are filed under one hash key. -/
  distinct : (Table.keys entries).Nodup
  /-- The hash keys are those of the pairs. -/
  mem_keys : ∀ key, key ∈ Table.keys entries ↔ ∃ pair ∈ pairs, pair.1.hashKey? = some key
  /-- An entry is a pair, filed under the hash key of its own key, and no pair behind it has that
  hash key. -/
  mem_iff : ∀ key pair, (key, pair) ∈ entries ↔ ∃ before after, pairs = before ++ pair :: after ∧
    pair.1.hashKey? = some key ∧ ∀ other ∈ after, other.1.hashKey? ≠ some key

theorem lastFiled?_eq_none_iff {key : HashKey} :
    lastFiled? key pairs = none ↔ ¬ ∃ pair ∈ pairs, pair.1.hashKey? = some key := by
  simp [lastFiled?]

theorem lastFiled?_eq_some_iff {key : HashKey} {pair : Value × Value} :
    lastFiled? key pairs = some pair ↔ ∃ before after, pairs = before ++ pair :: after ∧
      pair.1.hashKey? = some key ∧ ∀ other ∈ after, other.1.hashKey? ≠ some key := by
  constructor
  · intro found
    -- the last pair is the first one from behind
    obtain ⟨same, after, before, split, others⟩ := List.find?_eq_some_iff_append.mp found
    refine ⟨before.reverse, after.reverse, ?_, by simpa using same, by simpa using others⟩
    rw [← List.reverse_reverse pairs, split]
    simp
  · rintro ⟨before, after, rfl, same, others⟩
    exact lastFiled?_eq_some same others

/-- What a literal holds if all its pairs have been evaluated. -/
theorem keepsLast {entries : Table (Value × Value)} (ordered : Table.Ordered entries)
    (found : ∀ key, Table.find? key entries = lastFiled? key pairs) : KeepsLast pairs entries where
  distinct := ordered.nodup_keys
  mem_keys key := by
    rw [← not_iff_not, ← Table.find?_eq_none_iff, found, lastFiled?_eq_none_iff]
  mem_iff key pair := by
    rw [← Table.find?_eq_some_iff ordered.nodup_keys, found, lastFiled?_eq_some_iff]

/-- A key gives the value of the entry under its hash key, or `null`. -/
theorem KeepsLast.indexes {entries : Table (Value × Value)} (h : KeepsLast pairs entries)
    {k : Value} {key : HashKey} (filed : k.hashKey? = some key) :
    (∀ pair, (key, pair) ∈ entries → Indexes (.hash entries) k pair.2) ∧
      (key ∉ Table.keys entries → Indexes (.hash entries) k .null) := by
  have indexes := indexes_find? entries filed
  constructor
  · intro pair mem
    rw [(Table.find?_eq_some_iff h.distinct).mpr mem] at indexes
    exact indexes
  · intro absent
    rw [Table.find?_eq_none_iff.mpr absent] at indexes
    exact indexes

end Literals

section Keys

variable (m : Machine) (scope : ScopeId)

theorem evalKeyExpr_ident (name : String) :
    evalKeyExpr m scope (.ident name) = pure (.str name) := rfl

theorem evalKeyExpr_of_ne {e : Expr} (h : ∀ name, e ≠ .ident name) :
    evalKeyExpr m scope e = e.eval m scope := by
  cases e with
  | ident name => exact absurd rfl (h name)
  | _ => rfl

end Keys

/-- **Hash literals.**  A bare name as a key stands for itself; every other key is evaluated.  The
literal has no result exactly if one of its pairs has none, with the ones before it evaluated in
their order, and then it ends in the same way and in the same store.  Otherwise it is a hash that
holds the last of its pairs under each hash key, and a value that can be a key gives what is paired
with the key filed under the same hash key, or `null` if nothing is. -/
theorem eval_hash_literal (m : Machine) (scope : ScopeId) (exprs : List (Expr × Expr)) (s : Store) :
    ((∀ name, evalKeyExpr m scope (.ident name) = pure (.str name)) ∧
      ∀ e, (∀ name, e ≠ .ident name) → evalKeyExpr m scope e = e.eval m scope) ∧
    (∀ halt s', (Expr.hash exprs).eval m scope s = (halt.outcome, s') ↔
      Halts m scope exprs s halt s') ∧
    (∀ v s', (Expr.hash exprs).eval m scope s = (.done v, s') →
      ∃ pairs, Gives m scope exprs s pairs s' ∧ Hashable pairs) ∧
    ∀ pairs s', Gives m scope exprs s pairs s' → Hashable pairs →
      ∃ entries, (Expr.hash exprs).eval m scope s = (.done (.hash entries), s') ∧
        KeepsLast pairs entries ∧
        ∀ k key, k.hashKey? = some key →
          (∀ pair, (key, pair) ∈ entries → Indexes (.hash entries) k pair.2) ∧
          (key ∉ Table.keys entries → Indexes (.hash entries) k .null) := by
  refine ⟨⟨evalKeyExpr_ident m scope, fun e => evalKeyExpr_of_ne m scope⟩,
    fun halt s' => hash_eval_eq_halt_iff, fun v s' => gives_of_hash_eval, ?_⟩
  intro pairs s' gives hashable
  obtain ⟨entries, run, ordered, found⟩ := hash_eval_of_hashable gives hashable
  have keeps : KeepsLast pairs entries := keepsLast ordered found
  exact ⟨entries, run, keeps, fun k key filed => keeps.indexes filed⟩

/-- Of two pairs with one key the second one is held, and the name that is a key is bound nowhere.
A key that can be no key is noticed although its value would end in a fault too. -/
theorem eval_hash_literal_repeated :
    let machine := Machine.withLimit .standard 0
    let store := (Store.empty.enclose none).2
    let exprs := [(Expr.ident "a", Expr.int 1), (.bool true, .int 2), (.str "a", .int 3)]
    let pairs := [(Value.str "a", Value.int 1), (.bool true, .int 2), (.str "a", .int 3)]
    Gives machine 0 exprs store pairs store ∧ Hashable pairs ∧
      (∃ entries, (Expr.hash exprs).eval machine 0 store = (.done (.hash entries), store) ∧
        Indexes (.hash entries) (.str "a") (.int 3) ∧ Indexes (.hash entries) (.int 1) .null) ∧
      (Expr.hash [(.ident "a", .int 1), (.array [], .ident "b")]).eval machine 0 store =
        (.fault (.keyNotHashable .array), store) := by
  intro machine store exprs pairs
  have gives : Gives machine 0 exprs store pairs store :=
    .cons rfl rfl (.cons rfl rfl (.cons rfl rfl .nil))
  have hashable : Hashable pairs := by
    simp [pairs, Hashable, Value.hashKey?]
  obtain ⟨entries, run, keeps, indexes⟩ :=
    (eval_hash_literal machine 0 exprs store).2.2.2 pairs store gives hashable
  refine ⟨gives, hashable, ⟨entries, run, ?_, ?_⟩, ?_⟩
  · refine (indexes (.str "a") _ rfl).1 (.str "a", .int 3) ?_
    exact (keeps.mem_iff _ _).mpr ⟨[_, _], [], rfl, rfl, by simp⟩
  · refine (indexes (.int 1) _ rfl).2 ?_
    simp [keeps.mem_keys, pairs, Value.hashKey?]
  · have first : Gives machine 0 [(.ident "a", .int 1)] store [(.str "a", .int 1)] store :=
      .cons rfl rfl .nil
    have key : evalKeyExpr machine 0 (.array []) store = (.done (.array []), store) := rfl
    refine ((eval_hash_literal machine 0 _ store).2.1 (.fault _) store).mpr ?_
    show Halts machine 0 ([(.ident "a", .int 1)] ++ (.array [], .ident "b") :: []) store _ store
    exact .intro first (by simp [Hashable, Value.hashKey?]) (.unhashable key rfl)

end MonkeyLang
