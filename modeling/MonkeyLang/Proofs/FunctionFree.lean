import MonkeyLang.Proofs.Depth
import MonkeyLang.Proofs.Unmentioned

/-!
# Programs without functions

What is called is found out only when the call is evaluated: a callee can come from a variable, out
of an array or a hash, or be handed on by a builtin.  But only a function literal makes a function.
So in a tree without one, evaluated where no function is within reach, only builtins are called.
Such an evaluation always finishes, and it recurses no deeper than the tree is high.

## Main definitions

* `Value.NoFunction`, `Store.FunctionFree`: values that are no function, and scopes without one
  within reach
* `Expr.FunctionFree`, `Node.FunctionFree`: trees without a function literal

## Main results

* `lasting_noFunction`: no rule makes a function but that of a function literal
* `evaluate_functionFree`: evaluation without functions finishes within the height of the tree, and
  leaves no function behind
-/

namespace MonkeyLang

/-- The value itself is no function. -/
def Value.NoFunction (v : Value) : Prop := ∀ f, v ≠ .function f

/-- No function is within reach of the scope. -/
def Store.FunctionFree (store : Store) (scope : ScopeId) : Prop :=
  ∀ w, store.Holds scope w → w.NoFunction

/-- No function literal occurs in the expression. -/
def Expr.FunctionFree (e : Expr) : Prop := ∀ params body, ¬ e.Within (.fn params body)

/-- No function literal occurs in the tree. -/
def Node.FunctionFree (node : Node) : Prop := ∀ e ∈ node.roots, e.FunctionFree

theorem Expr.functionFree_of_children {e : Expr} (own : ∀ params body, e ≠ .fn params body)
    (children : ∀ c ∈ e.children, c.FunctionFree) : e.FunctionFree := by
  intro params body within
  cases within with
  | root => exact own params body rfl
  | inside child within => exact children _ child params body within

/-- Without function literals, no rule makes a function. -/
theorem lasting_noFunction : Lasting Value.NoFunction fun _ _ => False where
  scalar {v} h := by
    rintro f rfl
    cases h
  array := by simp [Value.NoFunction]
  hash := by simp [Value.NoFunction]
  builtin := by simp [Value.NoFunction]
  returned _ := by simp [Value.NoFunction]
  function_iff {f} := ⟨fun h => h f rfl, False.elim⟩
  body := False.elim

section Runs

variable {scope : ScopeId} {store : Store} {node : Node}

/-- The evaluation leaves no function behind, and no call in it is nested. -/
theorem node_functionFree (limit : Nat) (literals : node.FunctionFree)
    (held : store.FunctionFree scope) :
    let run := node.eval (.withLimit .standard limit) scope store
    run.2.FunctionFree scope ∧ store.Keeps Value.NoFunction scope run.2 ∧
      run.1.Meets (fun v => v.Every Value.NoFunction) False := by
  obtain ⟨free, scopes, meets⟩ := node_lasting lasting_noFunction limit held node
    fun e mem params body shares => literals e mem params body shares.within
  refine ⟨free, scopes, ?_⟩
  cases outcome : (node.eval (.withLimit .standard limit) scope store).1 with
  | done v =>
    rw [outcome] at meets
    obtain ⟨v, every, rfl⟩ := meets
    exact every.unwrap
  | fault => trivial
  | exhausted =>
    -- only a function whose literal is admitted can use up the limit, and none is
    rw [outcome] at meets
    obtain ⟨_, _, none⟩ := meets
    exact none

theorem evaluate_finishes (limit : Nat) (literals : node.FunctionFree)
    (held : store.FunctionFree scope) :
    ∃ v, (evaluate (.withLimit .standard limit) scope node store).1 = .done v ∧
      v.Every Value.NoFunction := by
  obtain ⟨-, -, meets⟩ := node_functionFree limit literals held
  cases outcome : (node.eval (.withLimit .standard limit) scope store).1 with
  | done v =>
    rw [outcome] at meets
    exact ⟨v, Eval.caught_done_iff.mpr (.inl outcome), meets⟩
  | fault f =>
    refine ⟨.error f.message, Eval.caught_done_iff.mpr (.inr ⟨f, outcome, rfl⟩), ?_⟩
    exact Value.every_iff.mpr ⟨nofun, nofun⟩
  | exhausted =>
    rw [outcome] at meets
    exact meets.elim

/-- Without a function literal in the tree and without a function within reach, an evaluation with
the standard builtins is done, with a value or the error of a fault.  The height of the tree is
depth enough for it; the depth counts the expressions whose evaluation is in progress at once, and
not the steps of a builtin through a value, such as those of `put` to the text of an array.  No
function is in its result, none is within reach of the scope afterwards, and none is bound in any
scope that it could reach or has made. -/
theorem evaluate_functionFree (limit : Nat) (literals : node.FunctionFree)
    (held : store.FunctionFree scope) :
    let run := evaluate (.withLimit .standard limit) scope node store
    (∃ v, run.1 = .done v ∧ v.Every Value.NoFunction) ∧
      (∀ depth, node.height ≤ depth → evaluateTo .standard depth scope node store = run) ∧
      run.2.FunctionFree scope ∧ store.Keeps Value.NoFunction scope run.2 := by
  intro run
  -- with no nested calls at all the evaluation is not exhausted, so all others run like it
  obtain ⟨v, done, -⟩ := evaluate_finishes 0 literals held
  have same {e : Eval Value}
      (under : (evaluate (.withLimit .standard 0) scope node).Under e) :
      e store = evaluate (.withLimit .standard 0) scope node store := by
    refine (under store).resolve_left fun exhausted => ?_
    rw [done] at exhausted
    cases exhausted
  obtain ⟨free, scopes, -⟩ := node_functionFree limit literals held
  refine ⟨evaluate_finishes limit literals held, fun depth le => ?_, ?_⟩
  · rw [same (evaluate_under_evaluateTo scope node le)]
    exact (same (evaluate_under scope node (Nat.zero_le limit))).symm
  · have store_eq : run.2 = (node.eval (.withLimit .standard limit) scope store).2 :=
      Eval.caught_store _ _
    rw [store_eq]
    exact ⟨free, scopes⟩

end Runs

/-- A scope that binds an array with a builtin in it. -/
def builtinItem : Store := ⟨#[⟨[("a", .array [.builtin .len])], none⟩], 0, ""⟩

theorem builtinItem_functionFree : builtinItem.FunctionFree 0 := by
  refine fun w held => held.of_every fun i s found name v bound => ?_
  have item : (Value.builtin .len).Every Value.NoFunction := Value.every_iff.mpr ⟨nofun, nofun⟩
  cases i with
  | zero =>
    cases found
    change (if "a" = name then some (Value.array _) else none) = some v at bound
    split at bound
    · cases bound
      exact Value.every_iff.mpr ⟨nofun, List.forall_mem_singleton.mpr item⟩
    · cases bound
  | succ i => cases found

/-- Calls the item of the array in a condition, and again in its block: `append(a, if (a[0](a) > 0)
{ a[0]("xy") })`. -/
def itemCalls : Expr :=
  .call (.ident "append") [.ident "a",
    .cond (.binary .gt (.call (.index (.ident "a") (.item (.int 0))) [.ident "a"]) (.int 0))
      [.expr (.call (.index (.ident "a") (.item (.int 0))) [.str "xy"])] none]

theorem itemCalls_functionFree : itemCalls.FunctionFree := by
  have leaf {e : Expr} (own : ∀ params body, e ≠ .fn params body) (none : e.children = []) :
      e.FunctionFree := by
    refine Expr.functionFree_of_children own ?_
    rw [none]
    nofun
  have called {e : Expr} (arg : e.FunctionFree) :
      (Expr.call (.index (.ident "a") (.item (.int 0))) [e]).FunctionFree := by
    refine Expr.functionFree_of_children nofun (List.forall_mem_cons.mpr ⟨?_, ?_⟩)
    · refine Expr.functionFree_of_children nofun (List.forall_mem_cons.mpr ⟨leaf nofun rfl, ?_⟩)
      exact List.forall_mem_singleton.mpr (leaf nofun rfl)
    · exact List.forall_mem_singleton.mpr arg
  refine Expr.functionFree_of_children nofun ?_
  refine List.forall_mem_cons.mpr ⟨leaf nofun rfl, List.forall_mem_cons.mpr ⟨leaf nofun rfl, ?_⟩⟩
  refine List.forall_mem_singleton.mpr (Expr.functionFree_of_children nofun ?_)
  refine List.forall_mem_cons.mpr ⟨?_, List.forall_mem_singleton.mpr (called (leaf nofun rfl))⟩
  refine Expr.functionFree_of_children nofun ?_
  exact List.forall_mem_cons.mpr ⟨called (leaf nofun rfl),
    List.forall_mem_singleton.mpr (leaf nofun rfl)⟩

theorem itemCalls_height : (Node.expression itemCalls).height = 6 := by
  simp [Node.height, Node.roots, itemCalls, Expr.height_eq, Expr.children, Expr.left?, Expr.others,
    Subscript.parts, Stmt.value]

/-- What is called comes out of an array.  One level less than the tree is high is not enough. -/
theorem evaluate_functionFree_of_item :
    let node := Node.expression itemCalls
    let run := evaluate (.withLimit .standard 0) 0 node builtinItem
    node.FunctionFree ∧ builtinItem.FunctionFree 0 ∧
      run.1 = .done (.array [.builtin .len, .int 2]) ∧ run.2.FunctionFree 0 ∧
      evaluateTo .standard 6 0 node builtinItem = run ∧
      (evaluateTo .standard 5 0 node builtinItem).1 = .exhausted := by
  have literals : (Node.expression itemCalls).FunctionFree :=
    List.forall_mem_singleton.mpr itemCalls_functionFree
  obtain ⟨-, depth, free, -⟩ := evaluate_functionFree 0 literals builtinItem_functionFree
  refine ⟨literals, builtinItem_functionFree, by with_unfolding_all rfl, free,
    depth 6 ?_, by with_unfolding_all rfl⟩
  exact Nat.le_of_eq itemCalls_height

end MonkeyLang
