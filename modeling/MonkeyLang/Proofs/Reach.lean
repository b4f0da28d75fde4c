import MonkeyLang.Proofs.Frame

/-!
# Values within reach

A scope reaches the scopes around it and, through the functions that are bound there, the scopes in
which these were made.  So what evaluation in a scope can meet are the values that are bound in the
scopes it reaches, with all values inside of them.

A property of single values is lasting if no rule makes a value without it: the standard builtins
included.  If everything within reach of a scope has a lasting property, then everything that comes
of an evaluation in this scope has it as well.  Scopes out of reach stay as they are.

## Main definitions

* `Value.parts`, `Value.Within`, `Value.Every`: the values inside a value
* `Store.Reaches`, `Store.Holds`: the scopes and the values within reach of a scope
* `Lasting`: properties that no rule breaks
* `Store.Keeps`: what is left of a lasting property after an evaluation

## Main results

* `node_lasting`: evaluation keeps every lasting property
-/

namespace MonkeyLang

/-! ## Values inside values -/

namespace Value

/-- The values right inside a value. -/
def parts : Value → List Value
  | array items => items
  | hash entries => entries.flatMap fun entry => [entry.2.1, entry.2.2]
  | returned v => [v]
  | builtin (.constant _ result) => [result]
  | _ => []

/-- The value `v` is `root` itself or lies inside of it, at any depth. -/
inductive Within : (root v : Value) → Prop where
  | root (v : Value) : Within v v
  | inside {root part v : Value} (mem : part ∈ root.parts) (within : Within part v) : Within root v

/-- A value and all values inside of it have the property. -/
def Every (p : Value → Prop) (root : Value) : Prop := ∀ v, root.Within v → p v

variable {p q : Value → Prop} {v : Value}

theorem every_iff : v.Every p ↔ p v ∧ ∀ part ∈ v.parts, part.Every p := by
  constructor
  · intro h
    exact ⟨h v (.root v), fun part mem w within => h w (.inside mem within)⟩
  · rintro ⟨here, inside⟩ w within
    cases within with
    | root => exact here
    | inside mem within => exact inside _ mem w within

theorem Every.mono (h : v.Every p) (le : ∀ w, p w → q w) : v.Every q :=
  fun w within => le w (h w within)

/-- The value that a wrapper is taken off of lies inside of the wrapper. -/
theorem Every.unwrap (h : v.Every p) : v.unwrap.Every p := by
  cases v with
  | returned w => exact (every_iff.mp h).2 w List.mem_cons_self
  | _ => exact h

theorem parts_of_isScalar (h : v.isScalar) : v.parts = [] := by
  cases v with
  | int | float | bool | str | null => rfl
  | _ => cases h

end Value

/-! ## Scopes within reach -/

/-- All values that a scope binds have the property, with all values inside of them. -/
def Scope.Every (p : Value → Prop) (s : Scope) : Prop :=
  ∀ name v, s.bindings.get? name = some v → v.Every p

namespace Store

/-- The scopes that can be reached from a scope: through the scope around one, or through a function
that is bound in one, also inside of another value. -/
inductive Reaches (store : Store) (start : ScopeId) : ScopeId → Prop where
  | start : Reaches store start start
  | parent {i j : ScopeId} {s : Scope} (reached : Reaches store start i)
      (found : store.scopes[i]? = some s) (around : s.parent = some j) : Reaches store start j
  | function {i : ScopeId} {s : Scope} {name : String} {v : Value} {f : Closure}
      (reached : Reaches store start i) (found : store.scopes[i]? = some s)
      (bound : s.bindings.get? name = some v) (within : v.Within (.function f)) :
      Reaches store start f.scope

/-- The value is bound in a scope within reach, or lies inside of one that is. -/
def Holds (store : Store) (scope : ScopeId) (w : Value) : Prop :=
  ∃ i s name v, store.Reaches scope i ∧ store.scopes[i]? = some s ∧
    s.bindings.get? name = some v ∧ v.Within w

/-- Only the scopes decide what is within reach. -/
theorem Holds.of_scopes_eq {store store' : Store} (eq : store'.scopes = store.scopes)
    {scope : ScopeId} {w : Value} (held : store'.Holds scope w) : store.Holds scope w := by
  obtain ⟨i, s, name, v, reached, found, bound, within⟩ := held
  refine ⟨i, s, name, v, ?_, eq ▸ found, bound, within⟩
  clear found bound
  induction reached with
  | start => exact .start
  | parent _ found around ih => exact .parent ih (eq ▸ found) around
  | function _ found bound within ih => exact .function ih (eq ▸ found) bound within

/-- What all scopes have is had by all that is within reach. -/
theorem Holds.of_every {store : Store} {p : Value → Prop}
    (h : ∀ (i : ScopeId) (s : Scope), store.scopes[i]? = some s → s.Every p) {scope : ScopeId}
    {w : Value} (held : store.Holds scope w) : p w := by
  obtain ⟨i, s, name, v, -, found, bound, within⟩ := held
  exact h i s found name v bound w within

/-- Every scope has the property, except for those that were out of reach and are as they were. -/
def Keeps (p : Value → Prop) (scope : ScopeId) (before after : Store) : Prop :=
  ∀ i s, after.scopes[i]? = some s →
    s.Every p ∨ ¬ before.Reaches scope i ∧ before.scopes[i]? = some s

end Store

/-! ## Lasting properties -/

/-- No rule makes a value without the property `p`, as long as all function literals have `literal`.
-/
structure Lasting (p : Value → Prop) (literal : List String → List Stmt → Prop) : Prop where
  scalar {v : Value} : v.isScalar → p v
  array {items : List Value} : p (.array items)
  hash {entries : Table (Value × Value)} : p (.hash entries)
  builtin {b : Builtin} : p (.builtin b)
  /-- Only a value that is not wrapped yet is wrapped. -/
  returned {v : Value} : v.isReturned = false → p (.returned v)
  function_iff {f : Closure} : p (.function f) ↔ literal f.params f.body
  body {params : List String} {body : List Stmt} : literal params body → ∀ st ∈ body,
    ∀ params' body', st.value.Shares (.fn params' body') → literal params' body'

/-- The value and all values inside of it have the property, and all functions among them were made
in scopes of `R`. -/
def Value.Sound (p : Value → Prop) (R : ScopeId → Prop) (root : Value) : Prop :=
  root.Every fun v => p v ∧ ∀ f, v = .function f → R f.scope

/-- The scopes of `R` are closed under reach, and all that is bound in them is sound.  Scopes that
will be made belong to `R`. -/
structure Store.Sound (p : Value → Prop) (R : ScopeId → Prop) (store : Store) : Prop where
  fresh : ∀ {i}, store.scopes.size ≤ i → R i
  parent : ∀ {i j s}, R i → store.scopes[i]? = some s → s.parent = some j → R j
  value : ∀ {i s name v}, R i → store.scopes[i]? = some s → s.bindings.get? name = some v →
    v.Sound p R

section Steps

variable {p : Value → Prop} {literal : List String → List Stmt → Prop} {R : ScopeId → Prop}
  {store : Store} {i : ScopeId} {name : String} {v : Value}

namespace Value.Sound

theorem every (h : v.Sound p R) : v.Every p := h.mono fun _ => And.left

theorem part (h : v.Sound p R) {w : Value} (mem : w ∈ v.parts) : w.Sound p R :=
  (every_iff.mp h).2 w mem

theorem scope_of_function {f : Closure} (h : (function f).Sound p R) : R f.scope :=
  (h _ (.root _)).2 f rfl

/-- A value that is no function is sound if its parts are. -/
theorem of_parts (here : p v) (none : ∀ f, v ≠ .function f) (parts : ∀ w ∈ v.parts, w.Sound p R) :
    v.Sound p R :=
  every_iff.mpr ⟨⟨here, fun f eq => absurd eq (none f)⟩, parts⟩

theorem of_isScalar (lasting : Lasting p literal) (h : v.isScalar) : v.Sound p R := by
  refine of_parts (lasting.scalar h) ?_ ?_
  · rintro f rfl
    cases h
  · rw [parts_of_isScalar h]
    nofun

theorem array_iff (lasting : Lasting p literal) {items : List Value} :
    (array items).Sound p R ↔ ∀ w ∈ items, w.Sound p R :=
  ⟨fun h _ mem => h.part mem, of_parts lasting.array nofun⟩

theorem hash_iff (lasting : Lasting p literal) {entries : Table (Value × Value)} :
    (hash entries).Sound p R ↔
      ∀ entry ∈ entries, entry.2.1.Sound p R ∧ entry.2.2.Sound p R := by
  have mem_parts (w : Value) : w ∈ (hash entries).parts ↔
      ∃ entry ∈ entries, w = entry.2.1 ∨ w = entry.2.2 := by
    simp [parts]
  constructor
  · intro h entry mem
    exact ⟨h.part ((mem_parts _).mpr ⟨entry, mem, .inl rfl⟩),
      h.part ((mem_parts _).mpr ⟨entry, mem, .inr rfl⟩)⟩
  · intro h
    refine of_parts lasting.hash nofun fun w mem => ?_
    obtain ⟨entry, filed, rfl | rfl⟩ := (mem_parts w).mp mem
    · exact (h entry filed).1
    · exact (h entry filed).2

/-- A value that is wrapped already is wrapped as it was. -/
theorem returned (lasting : Lasting p literal) (h : v.Sound p R) :
    (Value.returned v.unwrap).Sound p R := by
  cases wrapped : v.isReturned with
  | true =>
    cases v with
    | returned w => exact h
    | _ => cases wrapped
  | false =>
    have same : v.unwrap = v := by
      cases v with
      | returned w => cases wrapped
      | _ => rfl
    rw [same]
    refine of_parts (lasting.returned wrapped) nofun fun w mem => ?_
    rw [List.mem_singleton.mp mem]
    exact h

/-- Builtins answer with values that are sound, by their own rules. -/
theorem of_run (lasting : Lasting p literal) {b : Builtin} {args : List Value} {text : String}
    (hb : (builtin b).Sound p R) (hargs : ∀ w ∈ args, w.Sound p R)
    (run : b.run args = .ok (v, text)) : v.Sound p R := by
  unfold Builtin.run at run
  split at run
  case h_1 w =>
    cases length : Builtin.length w with
    | error => rw [length] at run; cases run
    | ok n =>
      rw [length] at run
      cases run
      exact of_isScalar lasting rfl
  case h_3 items w =>
    cases run
    obtain ⟨hitems, hw⟩ := List.forall_mem_cons.mp hargs
    refine (array_iff lasting).mpr (List.forall_mem_append.mpr ⟨?_, hw⟩)
    exact (array_iff lasting).mp hitems
  case h_6 =>
    cases run
    exact of_isScalar lasting rfl
  -- the answer of a constant is a part of it
  case h_7 =>
    cases run
    exact hb.part List.mem_cons_self
  case h_8 =>
    cases run
    exact (array_iff lasting).mpr hargs
  all_goals cases run

end Value.Sound

namespace Store.Sound

theorem of_scopes_eq (h : store.Sound p R) {store' : Store} (eq : store'.scopes = store.scopes) :
    store'.Sound p R where
  fresh := eq ▸ h.fresh
  parent := eq ▸ h.parent
  value := eq ▸ h.value

/-- What is found from a scope of `R` is bound in a scope of `R`. -/
theorem lookup (h : store.Sound p R) (here : R i) (found : store.lookup i name = some v) :
    v.Sound p R := by
  fun_induction Store.lookup store i name with
  | case1 => cases found
  | case2 i s scope v' bound =>
    cases found
    exact h.value here scope bound
  | case3 => cases found
  | case4 i s scope _ parent around _ ih => exact ih (h.parent here scope around) found
  | case5 => cases found

/-- A binding leaves the scopes around scopes alone, and adds nothing but its value. -/
theorem bind (h : store.Sound p R) (hv : v.Sound p R) : (store.bind i name v).Sound p R := by
  have before {j : ScopeId} {s : Scope} (found : (store.bind i name v).scopes[j]? = some s) :
      ∃ s', store.scopes[j]? = some s' ∧ s.parent = s'.parent ∧
        ∀ other w, s.bindings.get? other = some w → w = v ∨ s'.bindings.get? other = some w := by
    rw [Store.getElem?_bind] at found
    split at found
    · obtain ⟨s', found', rfl⟩ := Option.map_eq_some_iff.mp found
      exact ⟨s', found', rfl, fun _ _ => NameMap.eq_or_get?_of_get?_set⟩
    · exact ⟨s, found, rfl, fun _ _ => .inr⟩
  constructor
  case fresh =>
    intro j le
    rw [Store.size_bind] at le
    exact h.fresh le
  case parent =>
    intro j k s here found around
    obtain ⟨s', found', same, -⟩ := before found
    exact h.parent here found' (same ▸ around)
  case value =>
    intro j s other w here found bound
    obtain ⟨s', found', -, values⟩ := before found
    rcases values other w bound with rfl | bound'
    · exact hv
    · exact h.value here found' bound'

/-- The scope of a call stands inside the scope of the function, and binds nothing yet. -/
theorem enclose (h : store.Sound p R) (around : R i) : (store.enclose (some i)).2.Sound p R := by
  constructor
  case fresh =>
    intro j le
    rw [Store.size_enclose] at le
    exact h.fresh (Nat.le_of_succ_le le)
  case parent =>
    intro j k s here found parent
    rw [Store.getElem?_enclose] at found
    split at found
    · cases found
      cases parent
      exact around
    · exact h.parent here found parent
  case value =>
    intro j s name v here found bound
    rw [Store.getElem?_enclose] at found
    split at found
    · cases found
      cases bound
    · exact h.value here found bound

/-- A store is sound with what is within reach of a scope, if that has the property. -/
theorem of_holds {scope : ScopeId} (h : ∀ w, store.Holds scope w → p w) :
    store.Sound p fun i => store.Reaches scope i ∨ store.scopes.size ≤ i := by
  have reached {i : ScopeId} {s : Scope} (found : store.scopes[i]? = some s)
      (here : store.Reaches scope i ∨ store.scopes.size ≤ i) : store.Reaches scope i := by
    refine here.resolve_right (Nat.not_le_of_lt ?_)
    exact (Array.getElem?_eq_some_iff.mp found).1
  constructor
  case fresh => exact .inr
  case parent =>
    intro i j s here found around
    exact .inl (.parent (reached found here) found around)
  case value =>
    intro i s name v here found bound w within
    refine ⟨h w ⟨i, s, name, v, reached found here, found, bound, within⟩, ?_⟩
    rintro f rfl
    exact .inl (.function (reached found here) found bound within)

/-- Nothing but sound values is within reach of a scope of `R`. -/
theorem holds (h : store.Sound p R) {scope : ScopeId} (here : R scope) {w : Value}
    (held : store.Holds scope w) : p w := by
  obtain ⟨i, s, name, v, reached, found, bound, within⟩ := held
  have inside : R i := by
    clear found bound
    induction reached with
    | start => exact here
    | parent _ found around ih => exact h.parent ih found around
    | function _ found bound within ih => exact (h.value ih found bound _ within).2 _ rfl
  exact (h.value inside found bound w within).1

end Store.Sound

end Steps

/-! ## Runs -/

/-- The standard builtins are known by rules of their own. -/
theorem Registry.get?_standard {name : String} {b : Builtin}
    (h : NameMap.get? name standard = some b) : b = .len ∨ b = .append ∨ b = .put := by
  rcases NameMap.eq_or_get?_of_get?_set h with rfl | h
  · exact .inr (.inr rfl)
  · rcases NameMap.eq_or_get?_of_get?_set h with rfl | h
    · exact .inr (.inl rfl)
    · rcases NameMap.eq_or_get?_of_get?_set h with rfl | h
      · exact .inl rfl
      · cases h

/-- Evaluation with the standard builtins keeps a lasting property within reach. -/
def Lasting.invariant {p : Value → Prop} {literal : List String → List Stmt → Prop}
    (lasting : Lasting p literal) (R : ScopeId → Prop) : Invariant .standard where
  store := Store.Sound p R
  value := Value.Sound p R
  scope := R
  target _ _ := True
  literal := literal
  limit := ∃ params body, literal params body
  scalar := .of_isScalar lasting
  array_iff := Value.Sound.array_iff lasting
  hash_iff := Value.Sound.hash_iff lasting
  unwrap := Value.Every.unwrap
  returned := .returned lasting
  builtin known := by
    refine .of_parts lasting.builtin nofun ?_
    rcases Registry.get?_standard known with rfl | rfl | rfl
    all_goals nofun
  answer hb hargs :=
    Builtin.answer_keeps (fun start => start.of_scopes_eq rfl) (.of_run lasting hb hargs)
  function allowed here := by
    refine Value.every_iff.mpr ⟨⟨lasting.function_iff.mpr allowed, ?_⟩, nofun⟩
    rintro f eq
    cases eq
    exact here
  body hf := lasting.body (lasting.function_iff.mp (hf.every _ (.root _)))
  called hf := ⟨_, _, lasting.function_iff.mp (hf.every _ (.root _))⟩
  lookup := Store.Sound.lookup
  bind start _ hv := start.bind hv
  enclose start hf :=
    ⟨start.enclose hf.scope_of_function, start.fresh (Nat.le_refl _), fun _ => trivial⟩
  make start := start.of_scopes_eq rfl

/-- If everything within reach of a scope has a lasting property, then so has everything that comes
of an evaluation there: its result, and what is bound in scopes that it could reach or has made. -/
theorem node_lasting {p : Value → Prop} {literal : List String → List Stmt → Prop}
    (lasting : Lasting p literal) (limit : Nat) {scope : ScopeId} {store : Store}
    (held : ∀ w, store.Holds scope w → p w) (node : Node)
    (literals : ∀ e ∈ node.roots, ∀ params body, e.Shares (.fn params body) → literal params body) :
    let run := node.eval (.withLimit .standard limit) scope store
    (∀ w, run.2.Holds scope w → p w) ∧ store.Keeps p scope run.2 ∧
      run.1.Meets (fun w => ∃ v : Value, v.Every p ∧ w = v.unwrap)
        (∃ params body, literal params body) := by
  intro run
  let R (i : ScopeId) : Prop := store.Reaches scope i ∨ store.scopes.size ≤ i
  have here : R scope := .inl .start
  have admits : (lasting.invariant R).AdmitsNode scope node :=
    ⟨fun mem shares => literals _ mem _ _ shares, fun _ => trivial⟩
  have every (w : Value) : (∃ v : Value, v.Sound p R ∧ w = v.unwrap) →
      ∃ v : Value, v.Every p ∧ w = v.unwrap := by
    rintro ⟨v, sound, rfl⟩
    exact ⟨v, sound.every, rfl⟩
  obtain ⟨sound, meets⟩ :=
    (((lasting.invariant R).node_keeps limit here admits).mono every) store (.of_holds held)
  refine ⟨fun w => sound.holds here, fun i s found => ?_, meets⟩
  by_cases reached : R i
  · exact .inl fun name v bound => (sound.value reached found bound).every
  · -- a scope out of reach is not the own scope, and there was such a scope before
    right
    have old : i < store.scopes.size := Nat.lt_of_not_le fun le => reached (.inr le)
    have other : i ≠ scope := fun eq => reached (.inl (eq ▸ .start))
    have touches : store.Touches scope node.Binds run.2 :=
      node_touches (Host.quiet_ofRegistry _) limit scope node store
    have same := touches.others other (Array.getElem?_eq_getElem old)
    refine ⟨fun reaches => reached (.inl reaches), ?_⟩
    rw [Array.getElem?_eq_getElem old, ← same]
    exact found

end MonkeyLang
