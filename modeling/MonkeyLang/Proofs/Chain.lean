import MonkeyLang.Scope
import Mathlib.Logic.Relation

/-!
# Chains of scopes

A host works with scopes through handles: it makes root scopes and scopes inside of others, copies
handles, and binds names.  Several handles can stand for one scope, and what is bound through one of
them is seen through all, and from all scopes inside.

A new scope stands inside of one that was there before it.  So scopes are always younger than the
scopes around them, the scopes around scopes form no circle, and a walk outwards comes to its end.
A name that is bound in a scope is seen from wherever a walk outwards comes to this scope without
passing another one that binds it, and nothing else changes for anyone.

## Main definitions

* `Store.Inside`: a scope stands right inside of another
* `Store.Finds`: the walk outwards from a scope to the first one that binds a name
* `Store.Sees`: this walk comes to a scope, whether it binds the name or not
* `Store.Nearest`: the scope where this walk finds the name
* `Handles`, `Handles.Step`, `Handles.Reached`: what a host can do with scopes

## Main results

* `Store.Ordered.finds_iff`: the walk outwards ends with what `Store.lookup` says
* `Store.nearest_bind_iff`: the scopes for which a new binding is the nearest one
* `Handles.Reached.sound`: scopes are younger than those around them, whatever a host does
* `Handles.lookup_after_bind`: what is seen after a name has been bound
-/

namespace MonkeyLang

namespace Store

/-- The scope `i` stands right inside of the scope `j`. -/
def Inside (store : Store) (i j : ScopeId) : Prop :=
  ∃ s, store.scopes[i]? = some s ∧ s.parent = some j

/-- A walk outwards from a scope ends with this value of the name, or without one. -/
inductive Finds (store : Store) (name : String) : ScopeId → Option Value → Prop where
  | here {i : ScopeId} {s : Scope} {v : Value} (found : store.scopes[i]? = some s)
      (bound : s.bindings.get? name = some v) : Finds store name i (some v)
  | nowhere {i : ScopeId} {s : Scope} (found : store.scopes[i]? = some s)
      (unbound : s.bindings.get? name = none) (outermost : s.parent = none) :
      Finds store name i none
  | outwards {i j : ScopeId} {s : Scope} {v? : Option Value} (found : store.scopes[i]? = some s)
      (unbound : s.bindings.get? name = none) (around : s.parent = some j)
      (walk : Finds store name j v?) : Finds store name i v?

/-- A walk outwards from the first scope for the name comes to the second one: no scope that it
passes before binds the name. -/
inductive Sees (store : Store) (name : String) : ScopeId → ScopeId → Prop where
  | here {i : ScopeId} {s : Scope} (found : store.scopes[i]? = some s) : Sees store name i i
  | outwards {i j k : ScopeId} {s : Scope} (found : store.scopes[i]? = some s)
      (unbound : s.bindings.get? name = none) (around : s.parent = some j)
      (sees : Sees store name j k) : Sees store name i k

/-- The scope itself binds the name to the value. -/
def Binds (store : Store) (i : ScopeId) (name : String) (v : Value) : Prop :=
  ∃ s, store.scopes[i]? = some s ∧ s.bindings.get? name = some v

/-- The second scope is the nearest one that binds the name: the first scope itself, or else one
around it. -/
def Nearest (store : Store) (name : String) (j i : ScopeId) : Prop :=
  store.Sees name j i ∧ ∃ v, store.Binds i name v

/-- Every scope is younger than the one around it. -/
def Ordered (store : Store) : Prop := ∀ i j, store.Inside i j → j < i

/-! ## Lookup -/

section Lookup

variable {store : Store} {i j : ScopeId} {s : Scope} {name : String} {v : Value}

theorem lookup_of_bound (found : store.scopes[i]? = some s)
    (bound : s.bindings.get? name = some v) : store.lookup i name = some v := by
  rw [lookup, found]
  simp only [bound]

theorem lookup_of_outermost (found : store.scopes[i]? = some s)
    (unbound : s.bindings.get? name = none) (outermost : s.parent = none) :
    store.lookup i name = none := by
  rw [lookup, found]
  simp only [unbound, outermost]

/-- Lookup goes on outwards, to a scope that is older. -/
theorem lookup_of_around (found : store.scopes[i]? = some s)
    (unbound : s.bindings.get? name = none) (around : s.parent = some j) (older : j < i) :
    store.lookup i name = store.lookup j name := by
  rw [lookup, found]
  simp only [unbound, around, if_pos older]

namespace Ordered

variable (ordered : store.Ordered)
include ordered

/-- Scopes around scopes form no circle. -/
theorem not_transGen_inside (i : ScopeId) : ¬ Relation.TransGen store.Inside i i := by
  intro circle
  have older {i j : ScopeId} (chain : Relation.TransGen store.Inside i j) : j < i := by
    induction chain with
    | single inside => exact ordered _ _ inside
    | tail _ inside ih => exact Nat.lt_trans (ordered _ _ inside) ih
  exact Nat.lt_irrefl i (older circle)

/-- A walk outwards ends with what lookup says. -/
theorem lookup_of_finds {v? : Option Value} (finds : store.Finds name i v?) :
    store.lookup i name = v? := by
  induction finds with
  | here found bound => exact lookup_of_bound found bound
  | nowhere found unbound outermost => exact lookup_of_outermost found unbound outermost
  | outwards found unbound around _ ih =>
    rw [lookup_of_around found unbound around (ordered _ _ ⟨_, found, around⟩)]
    exact ih

/-- Lookup sees what the nearest scope binds. -/
theorem lookup_of_sees (sees : store.Sees name j i) (binds : store.Binds i name v) :
    store.lookup j name = some v := by
  induction sees with
  | here =>
    obtain ⟨s, found, bound⟩ := binds
    exact lookup_of_bound found bound
  | outwards found unbound around _ ih =>
    rw [lookup_of_around found unbound around (ordered _ _ ⟨_, found, around⟩)]
    exact ih binds

/-- A scope is never around one that does not exist. -/
theorem lt_size_of_inside (inside : store.Inside i j) : j < store.scopes.size := by
  have exists_i : i < store.scopes.size := by
    obtain ⟨s, found, -⟩ := inside
    exact (Array.getElem?_eq_some_iff.mp found).1
  exact Nat.lt_trans (ordered i j inside) exists_i

/-- Every walk outwards comes to its end, since the scopes around a scope are older. -/
theorem finds_lookup (exists_i : i < store.scopes.size) (name : String) :
    store.Finds name i (store.lookup i name) := by
  induction i using Nat.strongRecOn with
  | ind i ih =>
    have found : store.scopes[i]? = some store.scopes[i] := Array.getElem?_eq_getElem exists_i
    cases bound : store.scopes[i].bindings.get? name with
    | some v =>
      rw [lookup_of_bound found bound]
      exact .here found bound
    | none =>
      cases around : store.scopes[i].parent with
      | none =>
        rw [lookup_of_outermost found bound around]
        exact .nowhere found bound around
      | some j =>
        have inside : store.Inside i j := ⟨_, found, around⟩
        have older : j < i := ordered i j inside
        rw [lookup_of_around found bound around older]
        exact .outwards found bound around (ih j older (ordered.lt_size_of_inside inside))

theorem finds_iff (exists_i : i < store.scopes.size) {name : String} {v? : Option Value} :
    store.Finds name i v? ↔ v? = store.lookup i name := by
  constructor
  · intro finds
    exact (ordered.lookup_of_finds finds).symm
  · rintro rfl
    exact ordered.finds_lookup exists_i name

end Ordered

/-! ## Bindings -/

/-- A binding leaves all scopes where they stand. -/
theorem inside_bind : (store.bind i name v).Inside = store.Inside := by
  funext j k
  unfold Inside
  rw [getElem?_bind]
  split
  · cases store.scopes[j]? with
    | none => simp
    | some s => simp
  · rfl

theorem ordered_bind (ordered : store.Ordered) : (store.bind i name v).Ordered := by
  unfold Ordered
  rw [inside_bind]
  exact ordered

theorem getElem?_bind_of_ne (other : j ≠ i) :
    (store.bind i name v).scopes[j]? = store.scopes[j]? := by
  rw [getElem?_bind, if_neg other.symm]

/-- The scope has the binding that was made. -/
theorem binds_bind (found : store.scopes[i]? = some s) : (store.bind i name v).Binds i name v := by
  refine ⟨{ s with bindings := s.bindings.set name v }, ?_,
    NameMap.get?_set_self name v s.bindings⟩
  rw [getElem?_bind, if_pos rfl, found, Option.map_some]

theorem Sees.found (sees : store.Sees name j i) : ∃ s, store.scopes[i]? = some s := by
  induction sees with
  | here found => exact ⟨_, found⟩
  | outwards _ _ _ _ ih => exact ih

/-- The walk to a scope passes the same scopes when a name has been bound there. -/
theorem Sees.bind (sees : store.Sees name j i) (v : Value) :
    (store.bind i name v).Sees name j i := by
  obtain ⟨s, target⟩ := sees.found
  have binds : (store.bind i name v).Binds i name v := binds_bind target
  obtain ⟨s', target', -⟩ := binds
  induction sees with
  | here => exact .here target'
  | @outwards j _ i _ found unbound around _ ih =>
    by_cases here : j = i
    · subst here
      exact .here target'
    · exact .outwards ((getElem?_bind_of_ne here).trans found) unbound around (ih target target')

/-- A binding in a scope becomes the nearest one exactly for those from which a walk came to this
scope before. -/
theorem nearest_bind_iff : (store.bind i name v).Nearest name j i ↔ store.Sees name j i := by
  constructor
  · rintro ⟨sees, -⟩
    generalize same : store.bind i name v = after at sees
    induction sees with
    | @here i s found =>
      rw [← same, getElem?_bind, if_pos rfl] at found
      obtain ⟨s', before, -⟩ := Option.map_eq_some_iff.mp found
      exact .here before
    | @outwards j k i s found unbound around _ ih =>
      subst same
      have other : j ≠ i := by
        rintro rfl
        -- the walk would have ended here
        rw [getElem?_bind, if_pos rfl] at found
        obtain ⟨s', -, rfl⟩ := Option.map_eq_some_iff.mp found
        rw [NameMap.get?_set_self] at unbound
        cases unbound
      rw [getElem?_bind_of_ne other] at found
      exact .outwards found unbound around (ih rfl)
  · intro sees
    obtain ⟨s, found⟩ := sees.found
    exact ⟨sees.bind v, v, binds_bind found⟩

/-- What is seen of a name from where a walk comes to its new binding. -/
theorem lookup_bind_of_sees (ordered : store.Ordered) (sees : store.Sees name j i) :
    (store.bind i name v).lookup j name = some v := by
  obtain ⟨s, found⟩ := sees.found
  exact (ordered_bind ordered).lookup_of_sees (sees.bind v) (binds_bind found)

/-- A scope stays inside of the same one, and other names are bound in it as before. -/
theorem exists_scope_bind {name' : String} (found : store.scopes[j]? = some s)
    (apart : ¬ (name' = name ∧ j = i)) :
    ∃ s', (store.bind i name v).scopes[j]? = some s' ∧ s'.parent = s.parent ∧
      s'.bindings.get? name' = s.bindings.get? name' := by
  by_cases here : j = i
  · subst here
    have other : name' ≠ name := fun same => apart ⟨same, rfl⟩
    rw [getElem?_bind, if_pos rfl, found]
    exact ⟨_, rfl, rfl, NameMap.get?_set_of_ne other v s.bindings⟩
  · exact ⟨s, (getElem?_bind_of_ne here).trans found, rfl, rfl⟩

/-- What is seen of other names, and from where a walk does not come to the scope. -/
theorem lookup_bind_of_not_sees {name' : String}
    (other : ¬ (name' = name ∧ store.Sees name j i)) :
    (store.bind i name v).lookup j name' = store.lookup j name' := by
  -- the walk passes the same scopes as before, and stops at the same one
  induction j using Nat.strongRecOn with
  | ind j ih =>
    cases found : store.scopes[j]? with
    | none =>
      have found' : (store.bind i name v).scopes[j]? = none := by
        rw [getElem?_bind, found]
        split <;> rfl
      rw [lookup, lookup, found, found']
    | some s =>
      have apart : ¬ (name' = name ∧ j = i) := by
        rintro ⟨rfl, rfl⟩
        exact other ⟨rfl, .here found⟩
      obtain ⟨s', found', parent, same⟩ := exists_scope_bind (v := v) found apart
      rw [lookup, lookup, found, found']
      simp only [parent, same]
      cases bound : s.bindings.get? name' with
      | some w => rfl
      | none =>
        cases around : s.parent with
        | none => rfl
        | some k =>
          simp only
          split
          · next older =>
            refine ih k older ?_
            rintro ⟨rfl, sees⟩
            exact other ⟨rfl, .outwards found bound around sees⟩
          · rfl

end Lookup

end Store

/-! ## Handles -/

/-- The scopes that a host has handles for, in a store. -/
structure Handles where
  /-- The store. -/
  store : Store
  /-- The scope that each handle stands for. -/
  scopes : List ScopeId

namespace Handles

/-- What a host can do with the handles it has. -/
inductive Step : Handles → Handles → Prop where
  /-- It makes a root scope. -/
  | root (h : Handles) :
      Step h ⟨(h.store.enclose none).2, (h.store.enclose none).1 :: h.scopes⟩
  /-- It makes a scope inside of one it has. -/
  | enclosed (h : Handles) {i : ScopeId} (held : i ∈ h.scopes) :
      Step h ⟨(h.store.enclose (some i)).2, (h.store.enclose (some i)).1 :: h.scopes⟩
  /-- It copies a handle: both stand for one scope. -/
  | clone (h : Handles) {i : ScopeId} (held : i ∈ h.scopes) : Step h ⟨h.store, i :: h.scopes⟩
  /-- It binds a name in a scope it has. -/
  | set (h : Handles) {i : ScopeId} (held : i ∈ h.scopes) (name : String) (value : Value) :
      Step h ⟨h.store.bind i name value, h.scopes⟩

/-- No scopes and no handles. -/
def start : Handles := ⟨.empty, []⟩

/-- A host can get these handles, one step after the other. -/
def Reached (h : Handles) : Prop := Relation.ReflTransGen Step start h

/-- Scopes are younger than those around them, and handles stand for scopes that exist. -/
structure Sound (h : Handles) : Prop where
  ordered : h.store.Ordered
  lt_size : ∀ i ∈ h.scopes, i < h.store.scopes.size

/-- A new scope is the youngest, so it is younger than the one around it. -/
theorem Sound.enclose {h : Handles} (sound : h.Sound) {around : Option ScopeId}
    (held : ∀ i ∈ around, i ∈ h.scopes) :
    Sound ⟨(h.store.enclose around).2, (h.store.enclose around).1 :: h.scopes⟩ where
  ordered := by
    rintro i j ⟨s, found, parent⟩
    rw [Store.getElem?_enclose] at found
    split at found
    · next youngest =>
      cases found
      rw [youngest]
      exact sound.lt_size j (held j parent)
    · exact sound.ordered i j ⟨s, found, parent⟩
  lt_size := by
    show ∀ i ∈ h.store.scopes.size :: h.scopes, i < (h.store.enclose around).2.scopes.size
    rw [Store.size_enclose]
    refine List.forall_mem_cons.mpr ⟨Nat.lt_succ_self _, fun i mem => ?_⟩
    exact Nat.lt_succ_of_lt (sound.lt_size i mem)

/-- Every step keeps scopes younger than those around them. -/
theorem Step.sound {h h' : Handles} (step : h.Step h') (sound : h.Sound) : h'.Sound := by
  cases step with
  | root => exact sound.enclose nofun
  | enclosed held =>
    refine sound.enclose ?_
    rintro _ ⟨⟩
    exact held
  | clone held =>
    exact ⟨sound.ordered, List.forall_mem_cons.mpr ⟨sound.lt_size _ held, sound.lt_size⟩⟩
  | set held name value =>
    constructor
    · show ∀ i j, (h.store.bind _ name value).Inside i j → j < i
      rw [Store.inside_bind]
      exact sound.ordered
    · show ∀ i ∈ h.scopes, i < (h.store.bind _ name value).scopes.size
      rw [Store.size_bind]
      exact sound.lt_size

theorem Reached.sound {h : Handles} (reached : h.Reached) : h.Sound := by
  induction reached with
  | refl => exact ⟨fun i j ⟨s, found, _⟩ => by simp [start, Store.empty] at found, nofun⟩
  | tail _ step ih => exact step.sound ih

/-- **Scopes are nested maps with shared handles.**  Whatever a host has done with its handles, the
scopes around scopes form no circle, and the walk outwards from any handle ends, with the result of
a lookup.  If then a name is bound to a value in a scope, this scope binds it to the value.  It is
now the nearest one that binds the name for exactly those handles from which a walk for the name
came to this scope before, and through them a lookup of the name gives the value.  Every other
lookup, of another name, past a nearer scope that binds the name, or from where the scope is not
around, gives what it gave before. -/
theorem lookup_after_bind {h : Handles} (reached : h.Reached) :
    (∀ i, ¬ Relation.TransGen h.store.Inside i i) ∧
      (∀ i ∈ h.scopes, ∀ name v?, h.store.Finds name i v? ↔ v? = h.store.lookup i name) ∧
      ∀ i ∈ h.scopes, ∀ name v,
        (h.store.bind i name v).Binds i name v ∧
        ∀ j ∈ h.scopes,
          ((h.store.bind i name v).Nearest name j i ↔ h.store.Sees name j i) ∧
          (h.store.Sees name j i → (h.store.bind i name v).lookup j name = some v) ∧
          ∀ name', ¬ (name' = name ∧ h.store.Sees name j i) →
            (h.store.bind i name v).lookup j name' = h.store.lookup j name' := by
  have sound := reached.sound
  refine ⟨sound.ordered.not_transGen_inside, ?_, ?_⟩
  · intro i held name v?
    exact sound.ordered.finds_iff (sound.lt_size i held)
  · intro i held name v
    have found : h.store.scopes[i]? = some _ := Array.getElem?_eq_getElem (sound.lt_size i held)
    refine ⟨Store.binds_bind found, fun j _ => ⟨Store.nearest_bind_iff, ?_, ?_⟩⟩
    · exact Store.lookup_bind_of_sees sound.ordered
    · exact fun name' => Store.lookup_bind_of_not_sees

/-- Two handles for a root scope, and one for a scope inside of it that binds `x`. -/
def shared : Handles where
  store := ⟨#[⟨[], none⟩, ⟨[("x", .int 1)], some 0⟩], 0, ""⟩
  scopes := [0, 1, 0]

theorem shared_reached : shared.Reached := by
  have first : start.Step ⟨⟨#[⟨[], none⟩], 0, ""⟩, [0]⟩ := .root start
  have second : Step _ ⟨⟨#[⟨[], none⟩, ⟨[], some 0⟩], 0, ""⟩, [1, 0]⟩ :=
    .enclosed ⟨⟨#[⟨[], none⟩], 0, ""⟩, [0]⟩ (i := 0) (by decide)
  have third : Step _ ⟨⟨#[⟨[], none⟩, ⟨[("x", .int 1)], some 0⟩], 0, ""⟩, [1, 0]⟩ :=
    .set ⟨⟨#[⟨[], none⟩, ⟨[], some 0⟩], 0, ""⟩, [1, 0]⟩ (i := 1) (by decide) "x" (.int 1)
  have fourth : Step _ shared :=
    .clone ⟨⟨#[⟨[], none⟩, ⟨[("x", .int 1)], some 0⟩], 0, ""⟩, [1, 0]⟩ (i := 0) (by decide)
  exact (((Relation.ReflTransGen.single first).tail second).tail third).tail fourth

/-- Both handles for the root scope and the scope inside see what is bound in it later, except that
the scope inside goes on to see the name it binds itself. -/
theorem lookup_after_bind_shared :
    shared.Reached ∧ shared.store.lookup 1 "y" = none ∧
      (shared.store.bind 0 "y" (.int 2)).lookup 1 "y" = some (.int 2) ∧
      (shared.store.bind 0 "x" (.int 2)).lookup 0 "x" = some (.int 2) ∧
      (shared.store.bind 0 "x" (.int 2)).lookup 1 "x" = some (.int 1) := by
  obtain ⟨-, -, law⟩ := lookup_after_bind shared_reached
  have root : shared.store.scopes[0]? = some ⟨[], none⟩ := rfl
  have inner : shared.store.scopes[1]? = some ⟨[("x", .int 1)], some 0⟩ := rfl
  have unseen : shared.store.lookup 1 "y" = none := by
    rw [Store.lookup_of_around inner rfl rfl Nat.zero_lt_one]
    exact Store.lookup_of_outermost root rfl rfl
  refine ⟨shared_reached, unseen, ?_, ?_, ?_⟩
  · obtain ⟨-, seen, -⟩ := (law 0 (by decide) "y" (.int 2)).2 1 (by decide)
    exact seen (.outwards inner rfl rfl (.here root))
  · obtain ⟨-, seen, -⟩ := (law 0 (by decide) "x" (.int 2)).2 0 (by decide)
    exact seen (.here root)
  · obtain ⟨-, -, same⟩ := (law 0 (by decide) "x" (.int 2)).2 1 (by decide)
    refine (same "x" ?_).trans (Store.lookup_of_bound inner rfl)
    rintro ⟨-, sees⟩
    -- the scope inside binds the name, so the walk does not come to the root
    cases sees with
    | outwards found unbound =>
      cases found
      cases unbound

end Handles

end MonkeyLang
