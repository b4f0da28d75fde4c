import MonkeyLang.Proofs.Chain
import MonkeyLang.Proofs.Mirror
import MonkeyLang.Proofs.Reach

/-!
# Bindings that are not mentioned

A name that occurs neither in a tree nor in any function within reach cannot have an influence on
its evaluation.  If the name is bound in some scope, to whatever value, then the evaluation takes
the same course as without this binding: it ends with the same result and prints the same text, and
the binding is the only difference between the stores at the end.

Builtins are taken to be isolated: they neither see nor change scopes, and the functions in their
answers are those of their arguments.  The standard builtins are.

## Main definitions

* `Expr.Mentions`, `Closure.Mentions`, `Node.Mentions`: the names that occur in a tree
* `Host.Isolated`: builtins without access to scopes
* `avoiding`: no function that is met mentions the name
* `adding`: the binding of the name is not noticed

## Main results

* `Host.isolated_ofRegistry`: builtins that follow their own rules are isolated
* `evaluate_of_unmentioned`: a binding that is not mentioned has no influence
-/

namespace MonkeyLang

/-! ## Mentioned names -/

namespace Expr

variable {root e e' : Expr} {name : String}

theorem Within.trans (h : root.Within e) (h' : e.Within e') : root.Within e' := by
  induction h with
  | root => exact h'
  | inside child _ ih => exact .inside child (ih h')

theorem Shares.within (h : root.Shares e) : root.Within e := by
  induction h with
  | root => exact .root _
  | inside operand _ ih => exact .inside (mem_children_of_operands operand) ih

/-- The name occurs in the expression: as an identifier, as a parameter, or bound by a statement of
a block. -/
def Mentions (root : Expr) (name : String) : Prop := ∃ e, root.Within e ∧ name ∈ e.names

theorem Within.mentions (h : root.Within e) (mentions : e.Mentions name) : root.Mentions name := by
  obtain ⟨e', within, mem⟩ := mentions
  exact ⟨e', h.trans within, mem⟩

theorem not_mentions_of_children (own : name ∉ e.names)
    (children : ∀ c ∈ e.children, ¬ c.Mentions name) : ¬ e.Mentions name := by
  rintro ⟨e', within, mem⟩
  cases within with
  | root => exact own mem
  | inside child within => exact children _ child ⟨e', within, mem⟩

theorem mem_boundNames {ss : List Stmt} {value : Expr} (h : .bind name value ∈ ss) :
    name ∈ boundNames ss := List.mem_filterMap.mpr ⟨_, h, rfl⟩

/-- The names that are bound in the scope of an expression occur in it. -/
theorem Binds.mentions (h : e.Binds name) : e.Mentions name := by
  obtain ⟨e', value, shares, bind⟩ := h
  refine ⟨e', shares.within, ?_⟩
  cases e' with
  | cond test yes no =>
    rcases List.mem_append.mp bind with mem | mem
    · exact List.mem_append_left _ (mem_boundNames mem)
    · exact List.mem_append_right _ (mem_boundNames mem)
  | _ => cases bind

end Expr

/-- The name occurs in the literal of the function. -/
def Closure.Mentions (f : Closure) (name : String) : Prop := (Expr.fn f.params f.body).Mentions name

/-- What a statement of its body mentions is mentioned by a function literal. -/
theorem Expr.mentions_fn {params : List String} {body : List Stmt} {st : Stmt} {name : String}
    (mem : st ∈ body) (mentions : st.value.Mentions name) : (fn params body).Mentions name :=
  Within.mentions (.inside (List.mem_map_of_mem mem) (.root _)) mentions

namespace Node

/-- The name occurs in the tree. -/
def Mentions (node : Node) (name : String) : Prop :=
  name ∈ boundNames node.statements ∨ ∃ e ∈ node.roots, e.Mentions name

theorem Binds.mentions {node : Node} {name : String} (h : node.Binds name) :
    node.Mentions name := by
  rcases h with ⟨value, bind⟩ | ⟨e, mem, binds⟩
  · exact .inl (Expr.mem_boundNames bind)
  · exact .inr ⟨e, mem, binds.mentions⟩

end Node

/-! ## Isolated builtins -/

/-- The builtins of the host have no access to scopes. -/
structure Host.Isolated (host : Host) : Prop where
  /-- An answer is the same whatever the scopes are, and leaves them as they are. -/
  scopes : ∀ b args store scopes, host.answer b args { store with scopes := scopes } =
    ((host.answer b args store).1, { (host.answer b args store).2 with scopes := scopes })
  /-- The functions in an answer are those of the arguments or of the builtin itself. -/
  functions : ∀ b args store v f, (host.answer b args store).1 = .done v → v.Within (.function f) →
    (Value.builtin b).Within (.function f) ∨ ∃ arg ∈ args, arg.Within (.function f)
  /-- The builtins of the host hold no functions themselves. -/
  builtins : ∀ name b f, NameMap.get? name host.builtins = some b →
    ¬ (Value.builtin b).Within (.function f)

theorem Host.Isolated.quiet {host : Host} (isolated : host.Isolated) : host.Quiet := by
  intro b args store
  have same := isolated.scopes b args store store.scopes
  exact congrArg (fun run => run.2.scopes) same

/-- The functions in the answer of a builtin that follows its own rule. -/
theorem Builtin.function_of_run {b : Builtin} {args : List Value} {v : Value} {text : String}
    {f : Closure} (run : b.run args = .ok (v, text)) (within : v.Within (.function f)) :
    (Value.builtin b).Within (.function f) ∨ ∃ arg ∈ args, arg.Within (.function f) := by
  unfold Builtin.run at run
  split at run
  case h_1 w =>
    cases length : Builtin.length w with
    | error => rw [length] at run; cases run
    | ok n =>
      rw [length] at run
      cases run
      cases within with
      | inside mem => cases mem
  case h_3 items w =>
    cases run
    cases within with
    | inside mem within =>
      rcases List.mem_append.mp mem with mem | mem
      · exact .inr ⟨_, List.mem_cons_self, .inside mem within⟩
      · exact .inr ⟨_, List.mem_cons_of_mem _ mem, within⟩
  case h_6 =>
    cases run
    cases within with
    | inside mem => cases mem
  -- the answer of a constant is a part of it
  case h_7 =>
    cases run
    exact .inl (.inside List.mem_cons_self within)
  case h_8 =>
    cases run
    cases within with
    | inside mem within => exact .inr ⟨_, mem, within⟩
  all_goals cases run

/-- Builtins that follow their own rules are isolated, if they hold no functions. -/
theorem Host.isolated_ofRegistry {builtins : Registry}
    (none : ∀ name b f, NameMap.get? name builtins = some b →
      ¬ (Value.builtin b).Within (.function f)) : (Host.ofRegistry builtins).Isolated where
  scopes b args store scopes := by
    show Builtin.answer b args _ = ((Builtin.answer b args store).1,
      { (Builtin.answer b args store).2 with scopes := scopes })
    unfold Builtin.answer
    cases b.run args with
    | ok answer => rfl
    | error fault => rfl
  functions b args store v f answered within := by
    have answered : (Builtin.answer b args store).1 = .done v := answered
    unfold Builtin.answer at answered
    cases run : b.run args with
    | ok answer =>
      rw [run] at answered
      cases answered
      exact Builtin.function_of_run run within
    | error fault =>
      rw [run] at answered
      cases answered
  builtins := none

theorem Host.isolated_standard : Host.standard.Isolated := by
  refine isolated_ofRegistry fun name b f known within => ?_
  rcases Registry.get?_standard known with rfl | rfl | rfl
  all_goals
    cases within with
    | inside mem => cases mem

/-! ## Stores with one more binding -/

namespace Store

/-- Bindings of different names, or in different scopes, can be made in any order. -/
theorem bind_comm (store : Store) {i j : ScopeId} {name other : String}
    (apart : i ≠ j ∨ name ≠ other) (v w : Value) :
    (store.bind i name v).bind j other w = (store.bind j other w).bind i name v := by
  have scopes : ((store.bind i name v).bind j other w).scopes =
      ((store.bind j other w).bind i name v).scopes := by
    refine Array.ext_getElem? fun k => ?_
    simp only [getElem?_bind]
    by_cases here : i = k
    · by_cases here' : j = k
      -- both are bindings of one scope, so the names are different
      · have names : name ≠ other := apart.resolve_left fun ne => ne (here.trans here'.symm)
        simp only [if_pos here, if_pos here', Option.map_map, Function.comp_def]
        simp only [NameMap.set_comm names.symm]
      · simp only [if_pos here, if_neg here']
    · simp only [if_neg here]
  exact congrArg (fun scopes => { store with scopes := scopes }) scopes

/-- A binding in a scope that exists can be made before or after a new scope is. -/
theorem enclose_bind (store : Store) {i : ScopeId} (exists_i : i < store.scopes.size)
    (name : String) (v : Value) (parent : Option ScopeId) :
    (store.bind i name v).enclose parent =
      ((store.enclose parent).1, (store.enclose parent).2.bind i name v) := by
  have scopes : ((store.bind i name v).enclose parent).2.scopes =
      ((store.enclose parent).2.bind i name v).scopes := by
    refine Array.ext_getElem? fun k => ?_
    simp only [getElem?_bind, getElem?_enclose, size_bind]
    by_cases fresh : k = store.scopes.size
    · have other : i ≠ k := by
        rw [fresh]
        exact Nat.ne_of_lt exists_i
      simp only [if_pos fresh, if_neg other]
    · simp only [if_neg fresh]
  refine Prod.ext (size_bind store i name v) ?_
  exact congrArg (fun scopes => { store with scopes := scopes }) scopes

end Store

/-! ## Runs -/

/-- The value is no function that mentions the name. -/
def Value.Avoids (name : String) (v : Value) : Prop := ∀ f, v = .function f → ¬ f.Mentions name

/-- No rule makes a function that mentions the name, as long as no literal does. -/
theorem lasting_avoids (name : String) :
    Lasting (Value.Avoids name) fun params body => ¬ (Expr.fn params body).Mentions name where
  scalar := by
    rintro v scalar f rfl
    cases scalar
  array := nofun
  hash := nofun
  builtin := nofun
  returned _ := nofun
  function_iff {f} := by
    constructor
    · intro avoids
      exact avoids f rfl
    · rintro unmentioned g ⟨⟩
      exact unmentioned
  body unmentioned st mem params' body' shares mentions :=
    unmentioned (Expr.mentions_fn mem (shares.within.mentions mentions))

/-- A value is sound if no function inside of it mentions the name, and all were made in scopes of
`R`. -/
theorem Value.sound_avoids_iff {name : String} {R : ScopeId → Prop} {v : Value} :
    v.Sound (Avoids name) R ↔
      ∀ f, v.Within (.function f) → ¬ f.Mentions name ∧ R f.scope := by
  constructor
  · intro sound f within
    obtain ⟨avoids, made⟩ := sound _ within
    exact ⟨avoids f rfl, made f rfl⟩
  · intro h w within
    constructor
    · rintro f rfl
      exact (h f within).1
    · rintro f rfl
      exact (h f within).2

section Adding

variable {host : Host} (isolated : host.Isolated) (R : ScopeId → Prop) (target : ScopeId)
  (name : String)

/-- No function that is met in scopes of `R` mentions the name, and it is not bound in the scope
`target`, which exists. -/
def avoiding : Invariant host where
  store s := s.Sound (Value.Avoids name) R ∧ target < s.scopes.size
  value := Value.Sound (Value.Avoids name) R
  scope := R
  target i other := i ≠ target ∨ other ≠ name
  literal params body := ¬ (Expr.fn params body).Mentions name
  limit := True
  scalar := .of_isScalar (lasting_avoids name)
  array_iff := Value.Sound.array_iff (lasting_avoids name)
  hash_iff := Value.Sound.hash_iff (lasting_avoids name)
  unwrap := Value.Every.unwrap
  returned := .returned (lasting_avoids name)
  builtin known := Value.sound_avoids_iff.mpr fun f within =>
    absurd within (isolated.builtins _ _ f known)
  answer {b args} hb hargs s start := by
    have scopes : (host.answer b args s).2.scopes = s.scopes := isolated.quiet b args s
    refine ⟨⟨start.1.of_scopes_eq scopes, scopes ▸ start.2⟩, ?_⟩
    cases answered : (host.answer b args s).1 with
    | done v =>
      refine Value.sound_avoids_iff.mpr fun f within => ?_
      rcases isolated.functions b args s v f answered within with within | ⟨arg, mem, within⟩
      · exact Value.sound_avoids_iff.mp hb f within
      · exact Value.sound_avoids_iff.mp (hargs arg mem) f within
    | fault => trivial
    | exhausted => trivial
  function unmentioned here := by
    refine Value.sound_avoids_iff.mpr fun f within => ?_
    cases within with
    | root => exact ⟨unmentioned, here⟩
    | inside mem => cases mem
  body hf := (lasting_avoids name).body (Value.sound_avoids_iff.mp hf _ (.root _)).1
  called _ := trivial
  lookup start := start.1.lookup
  bind {s i _ v} start _ hv :=
    ⟨start.1.bind hv, by rw [Store.size_bind]; exact start.2⟩
  enclose {s f} start hf := by
    refine ⟨⟨start.1.enclose hf.scope_of_function, ?_⟩, start.1.fresh (Nat.le_refl _), fun _ => ?_⟩
    · rw [Store.size_enclose]
      exact Nat.lt_succ_of_lt start.2
    · exact .inl (Nat.ne_of_gt start.2)
  make start := ⟨start.1.of_scopes_eq rfl, start.2⟩

/-- One more binding of the name in the scope `target` is not noticed. -/
def adding (v : Value) : Mirror (avoiding isolated R target name) where
  image s := s.bind target name v
  reads other := other ≠ name
  lookup reads := Store.lookup_bind_of_not_sees fun same => reads same.1
  bind _ apart := Store.bind_comm _ (apart.imp Ne.symm Ne.symm) _ _
  enclose start := Store.enclose_bind _ start.2 _ _ _
  functions := rfl
  make := rfl
  answer {b args} s _ := by
    have answered := isolated.scopes b args s (s.bind target name v).scopes
    have scopes : (host.answer b args s).2.scopes = s.scopes := isolated.quiet b args s
    refine answered.trans (Prod.ext rfl ?_)
    show { (host.answer b args s).2 with scopes := (s.bind target name v).scopes } =
      (host.answer b args s).2.bind target name v
    unfold Store.bind
    rw [scopes]
  body {f} hf st mem other shares := by
    rintro rfl
    refine (Value.sound_avoids_iff.mp hf f (.root _)).1 (Expr.mentions_fn mem ?_)
    exact shares.within.mentions ⟨_, .root _, List.mem_singleton.mpr rfl⟩

end Adding

/-- **A binding that is not mentioned has no influence.**  Let a name occur neither in a tree nor in
the literal of a function within reach of the scope where the tree is evaluated, and let `target` be
a scope that does not bind it.  With any limit of nested calls, the evaluation of the tree with the
name bound in `target` ends as it ends without this binding: with the same value, with the same
fault, or at the limit.  It has printed the same text, and the stores differ in this binding alone,
which is still missing in the one. -/
theorem evaluate_of_unmentioned {host : Host} (isolated : host.Isolated) (limit : Nat)
    {store : Store} {scope target : ScopeId} {name : String} {node : Node} {s : Scope}
    (unmentioned : ¬ node.Mentions name)
    (functions : ∀ f, store.Holds scope (.function f) → ¬ f.Mentions name)
    (found : store.scopes[target]? = some s) (unbound : s.bindings.get? name = none) (v : Value) :
    let machine := Machine.withLimit host limit
    let run := node.eval machine scope store
    node.eval machine scope (store.bind target name v) = (run.1, run.2.bind target name v) ∧
      evaluate machine scope node (store.bind target name v) =
        ((evaluate machine scope node store).1, run.2.bind target name v) ∧
      (run.2.bind target name v).printed = run.2.printed ∧
      ∃ s', run.2.scopes[target]? = some s' ∧ s'.bindings.get? name = none := by
  intro machine run
  have exists_target : target < store.scopes.size := (Array.getElem?_eq_some_iff.mp found).1
  let R (i : ScopeId) : Prop := store.Reaches scope i ∨ store.scopes.size ≤ i
  have start : store.Sound (Value.Avoids name) R ∧ target < store.scopes.size := by
    refine ⟨.of_holds fun w held => ?_, exists_target⟩
    rintro f rfl
    exact functions f held
  have admits : (avoiding isolated R target name).AdmitsNode scope node := by
    constructor
    · intro e params body mem shares mentions
      exact unmentioned (.inr ⟨e, mem, shares.within.mentions mentions⟩)
    · rintro _ binds
      refine .inr ?_
      rintro rfl
      exact unmentioned binds.mentions
  have reads (e : Expr) (mem : e ∈ node.roots) :
      (adding isolated R target name v).Admits e := by
    rintro other shares rfl
    refine unmentioned (.inr ⟨e, mem, shares.within.mentions ?_⟩)
    exact ⟨_, .root _, List.mem_singleton.mpr rfl⟩
  have mirrors : (node.eval machine scope).Mirrors _ (Store.bind · target name v) :=
    (adding isolated R target name v).node_mirrors limit (.inl .start) admits reads
  refine ⟨mirrors store start, ?_, rfl, ?_⟩
  · rw [evaluate, mirrors.caught store start, Eval.caught_store]
  · have touches := node_touches isolated.quiet limit scope node store
    by_cases own : target = scope
    · subst own
      obtain ⟨s', found', grows⟩ := touches.own found
      refine ⟨s', found', ?_⟩
      rw [grows.same fun binds => unmentioned binds.mentions, unbound]
    · exact ⟨s, touches.others own found, unbound⟩

/-- A function that uses `k` from the scope where it was made. -/
def addsK : Closure := ⟨0, ["n"], [.expr (.binary .add (.ident "n") (.ident "k"))], 0⟩

/-- The scope of the function, and a scope inside of it. -/
def capturing : Store := ⟨#[⟨[("f", .function addsK), ("k", .int 3)], none⟩, ⟨[], some 0⟩], 1, ""⟩

theorem addsK_avoids : ¬ addsK.Mentions "y" := by
  have leaf {name : String} (other : "y" ≠ name) : ¬ (Expr.ident name).Mentions "y" :=
    Expr.not_mentions_of_children (by simpa [Expr.names] using other) nofun
  refine Expr.not_mentions_of_children (by decide) (List.forall_mem_singleton.mpr ?_)
  refine Expr.not_mentions_of_children (by decide) ?_
  exact List.forall_mem_cons.mpr ⟨leaf (by decide), List.forall_mem_singleton.mpr (leaf (by decide))⟩

theorem capturing_avoids (f : Closure) (held : capturing.Holds 1 (.function f)) :
    ¬ f.Mentions "y" := by
  refine Store.Holds.of_every (p := Value.Avoids "y") (fun i s found name v bound => ?_) held f rfl
  cases i with
  | zero =>
    cases found
    change (if "f" = name then some (Value.function addsK) else
      if "k" = name then some (.int 3) else none) = some v at bound
    split at bound
    · cases bound
      refine Value.every_iff.mpr ⟨?_, nofun⟩
      rintro _ ⟨⟩
      exact addsK_avoids
    · split at bound
      · cases bound
        exact Value.every_iff.mpr ⟨nofun, nofun⟩
      · cases bound
  | succ i =>
    cases i with
    | zero =>
      cases found
      cases bound
    | succ i => cases found

/-- A call from the scope inside, with and without a function bound to `y` in the scope that the
called function uses. -/
theorem evaluate_of_unmentioned_call :
    let node := Node.expression (.call (.ident "f") [.int 2])
    let machine := Machine.withLimit .standard 1
    let run := node.eval machine 1 capturing
    let v := Value.function ⟨7, [], [.expr (.ident "y")], 0⟩
    Host.standard.Isolated ∧ ¬ node.Mentions "y" ∧
      (∀ f, capturing.Holds 1 (.function f) → ¬ f.Mentions "y") ∧ run.2.scopes.size = 3 ∧
      node.eval machine 1 (capturing.bind 0 "y" v) = (run.1, run.2.bind 0 "y" v) := by
  have unmentioned : ¬ (Node.expression (.call (.ident "f") [.int 2])).Mentions "y" := by
    rintro (mem | ⟨e, mem, mentions⟩)
    · cases mem
    · rw [List.mem_singleton.mp mem] at mentions
      refine Expr.not_mentions_of_children (by decide) ?_ mentions
      exact List.forall_mem_cons.mpr ⟨Expr.not_mentions_of_children (by decide) nofun,
        List.forall_mem_singleton.mpr (Expr.not_mentions_of_children (by decide) nofun)⟩
  refine ⟨Host.isolated_standard, unmentioned, capturing_avoids, by decide +kernel, ?_⟩
  have outermost : capturing.scopes[0]? = some _ := rfl
  exact (evaluate_of_unmentioned Host.isolated_standard 1 unmentioned capturing_avoids outermost rfl
    _).1

end MonkeyLang
