import MonkeyLang.Proofs.Invariant

/-!
# What evaluation leaves alone

A tree is evaluated in one scope.  Calls run in scopes of their own, made for them, so of all scopes
there were before only the scope of the tree can change: names that the tree binds outside of its
function literals can be bound anew there, and no name is lost.

## Main definitions

* `Scope.Grows`: how a scope changes in which only some names are bound
* `Store.Writes`: how a store changes in which only some names of each scope are bound
* `Store.Touches`: how a store changes in which only one scope does
* `Host.Quiet`: the builtins of the host leave all scopes alone

## Main results

* `node_writes`: evaluation only writes to its own scope and to new ones
* `evaluate_touches`: evaluation leaves every other scope as it was
-/

namespace MonkeyLang

/-- The scope around it is the same, no binding is lost, and only bindings of the names can be new
or changed. -/
structure Scope.Grows (names : String → Prop) (before after : Scope) : Prop where
  parent : after.parent = before.parent
  kept : ∀ {name}, (before.bindings.get? name).isSome → (after.bindings.get? name).isSome
  same : ∀ {name}, ¬ names name → after.bindings.get? name = before.bindings.get? name

/-- Every scope there was is still there, changed in no more than its names. -/
structure Store.Writes (names : ScopeId → String → Prop) (before after : Store) : Prop where
  size_le : before.scopes.size ≤ after.scopes.size
  grows : ∀ {i s}, before.scopes[i]? = some s → ∃ s', after.scopes[i]? = some s' ∧
    s.Grows (names i) s' ∧ ((∀ name, ¬ names i name) → s' = s)

/-- All scopes but one are as they were, and this one has changed in no more than the names. -/
structure Store.Touches (scope : ScopeId) (names : String → Prop) (before after : Store) :
    Prop where
  others : ∀ {i s}, i ≠ scope → before.scopes[i]? = some s → after.scopes[i]? = some s
  own : ∀ {s}, before.scopes[scope]? = some s →
    ∃ s', after.scopes[scope]? = some s' ∧ s.Grows names s'

/-- The builtins of the host leave all scopes alone. -/
def Host.Quiet (host : Host) : Prop :=
  ∀ b args store, (host.answer b args store).2.scopes = store.scopes

theorem Host.quiet_ofRegistry (builtins : Registry) : (Host.ofRegistry builtins).Quiet := by
  intro b args store
  show (Builtin.answer b args store).2.scopes = store.scopes
  unfold Builtin.answer
  cases b.run args with
  | ok answer => rfl
  | error fault => rfl

/-! ## Steps -/

namespace Scope.Grows

variable {names : String → Prop} {s s' : Scope}

theorem refl (names : String → Prop) (s : Scope) : s.Grows names s := ⟨rfl, id, fun _ => rfl⟩

theorem set (h : s.Grows names s') {name : String} (allowed : names name) (value : Value) :
    s.Grows names { s' with bindings := s'.bindings.set name value } where
  parent := h.parent
  kept {other} bound := by
    by_cases hname : other = name
    · subst hname
      rw [NameMap.get?_set_self]
      rfl
    · rw [NameMap.get?_set_of_ne hname]
      exact h.kept bound
  same {other} forbidden := by
    have hname : other ≠ name := fun eq => forbidden (eq ▸ allowed)
    rw [NameMap.get?_set_of_ne hname]
    exact h.same forbidden

end Scope.Grows

namespace Store.Writes

variable {names : ScopeId → String → Prop} {before after : Store}

theorem refl (names : ScopeId → String → Prop) (store : Store) : store.Writes names store where
  size_le := Nat.le_refl _
  grows {_ s} found := ⟨s, found, .refl _ s, fun _ => rfl⟩

theorem of_scopes_eq (h : before.Writes names after) {after' : Store}
    (eq : after'.scopes = after.scopes) : before.Writes names after' where
  size_le := eq ▸ h.size_le
  grows := eq ▸ h.grows

theorem bind (h : before.Writes names after) {i : ScopeId} {name : String}
    (allowed : names i name) (value : Value) : before.Writes names (after.bind i name value) where
  size_le := by
    rw [Store.size_bind]
    exact h.size_le
  grows {j s} found := by
    obtain ⟨s', found', grows, same⟩ := h.grows found
    rw [Store.getElem?_bind, found']
    by_cases here : i = j
    · subst here
      rw [if_pos rfl]
      refine ⟨_, rfl, grows.set allowed value, fun none => ?_⟩
      exact absurd allowed (none name)
    · rw [if_neg here]
      exact ⟨s', rfl, grows, same⟩

theorem enclose (h : before.Writes names after) (parent : Option ScopeId) :
    before.Writes names (after.enclose parent).2 where
  size_le := by
    rw [Store.size_enclose]
    exact Nat.le_succ_of_le h.size_le
  grows {i s} found := by
    obtain ⟨s', found', changed⟩ := h.grows found
    have old : i ≠ after.scopes.size := Nat.ne_of_lt (Array.getElem?_eq_some_iff.mp found').1
    refine ⟨s', ?_, changed⟩
    rw [Store.getElem?_enclose, if_neg old]
    exact found'

end Store.Writes

/-! ## Runs -/

/-- The names that evaluation in a scope may bind: those of the tree in its own scope, and all names
in scopes that are made later. -/
def Store.writable (store : Store) (scope : ScopeId) (names : String → Prop) (i : ScopeId)
    (name : String) : Prop :=
  (i = scope ∧ names name) ∨ store.scopes.size ≤ i

/-- Evaluation in a scope writes nothing but what it may. -/
def writing {host : Host} (quiet : host.Quiet) (before : Store) (scope : ScopeId)
    (names : String → Prop) : Invariant host where
  store := before.Writes (before.writable scope names)
  value _ := True
  scope _ := True
  target := before.writable scope names
  literal _ _ := True
  limit := True
  scalar _ := trivial
  array_iff := by simp
  hash_iff := by simp
  unwrap _ := trivial
  returned _ := trivial
  builtin _ := trivial
  answer _ _ := fun s start => ⟨start.of_scopes_eq (quiet _ _ s), by
    cases (host.answer _ _ s).1 <;> trivial⟩
  function _ _ := trivial
  body _ _ _ _ _ _ := trivial
  called _ := trivial
  lookup _ _ _ := trivial
  bind start allowed _ := start.bind allowed _
  enclose start _ := ⟨start.enclose _, trivial, fun _ => .inr start.size_le⟩
  make start := start.of_scopes_eq rfl

section Trees

variable {host : Host} (quiet : host.Quiet) (limit : Nat) (scope : ScopeId) (node : Node)
  (store : Store)

include quiet

/-- Evaluation writes nothing but names of the tree in its own scope, and to new scopes. -/
theorem node_writes : store.Writes (store.writable scope node.Binds)
    (node.eval (.withLimit host limit) scope store).2 := by
  have admits : (writing quiet store scope node.Binds).AdmitsNode scope node :=
    ⟨fun _ _ => trivial, fun binds => .inl ⟨rfl, binds⟩⟩
  exact (Invariant.node_keeps _ limit trivial admits store (.refl _ store)).1

/-- Evaluation leaves every scope there was as it was, except its own one. -/
theorem node_touches : store.Touches scope node.Binds
    (node.eval (.withLimit host limit) scope store).2 where
  others {i s} other found := by
    obtain ⟨s', found', -, same⟩ := (node_writes quiet limit scope node store).grows found
    have old : ¬ store.scopes.size ≤ i := Nat.not_le_of_lt (Array.getElem?_eq_some_iff.mp found).1
    rw [found', same fun name writable => writable.elim (fun own => other own.1) old]
  own {s} found := by
    obtain ⟨s', found', grows, -⟩ := (node_writes quiet limit scope node store).grows found
    have old : ¬ store.scopes.size ≤ scope :=
      Nat.not_le_of_lt (Array.getElem?_eq_some_iff.mp found).1
    refine ⟨s', found', grows.parent, grows.kept, fun unbound => grows.same ?_⟩
    exact fun writable => writable.elim (fun own => unbound own.2) old

/-- When the evaluation of a tree in a scope ends, with a value or with a fault, every other scope
there was has the same bindings and the same scope around it.  In the scope itself no binding is
lost, and only names that the tree binds outside of function literals are bound anew. -/
theorem evaluate_touches :
    store.Touches scope node.Binds (node.eval (.withLimit host limit) scope store).2 ∧
      store.Touches scope node.Binds (evaluate (.withLimit host limit) scope node store).2 := by
  have touches := node_touches quiet limit scope node store
  refine ⟨touches, ?_⟩
  rw [evaluate, Eval.caught_store]
  exact touches

end Trees

/-- Scopes with a function that binds `x` for itself, where its own scope binds `x` too. -/
def shadowing : Store where
  scopes := #[⟨[("f", .function ⟨0, ["n"], [.bind "x" (.ident "n")], 0⟩), ("x", .int 1)], none⟩,
    ⟨[], some 0⟩]
  functions := 1
  printed := ""

/-- The call of the function makes a scope for its own `x`, and the other `x` is left alone. -/
theorem evaluate_touches_shadowing :
    let node := Node.statement (.bind "y" (.call (.ident "f") [.int 5]))
    let machine := Machine.withLimit .standard 1
    Host.standard.Quiet ∧ (evaluate machine 1 node shadowing).2.scopes.size = 3 ∧
      shadowing.Touches 1 node.Binds (node.eval machine 1 shadowing).2 ∧
      shadowing.Touches 1 node.Binds (evaluate machine 1 node shadowing).2 :=
  ⟨Host.quiet_ofRegistry _, by decide +kernel, evaluate_touches (Host.quiet_ofRegistry _) ..⟩

end MonkeyLang
