import MonkeyLang.Fault
import MonkeyLang.Scope

/-!
# Outcomes of evaluation

An evaluation reads and changes the store.  It is done with a result, it ends in a fault, or it is
exhausted: calls of functions can nest without end, so they are given a limit, and reaching the
limit is neither a result nor a fault.

## Main definitions

* `Outcome`: done, fault or exhausted
* `Eval`: evaluations, with their composition
* `Eval.fail`, `Eval.lift`, `Eval.lookup`, …: the elementary evaluations

## Main results

* `Eval.bind_of_done`, `Eval.bind_of_fault`: how a composition goes on
* `Eval.caught_done_iff`: where the results of an evaluation come from that turns faults into errors
-/

namespace MonkeyLang

/-- How an evaluation ends. -/
inductive Outcome (α : Type) where
  /-- With a result. -/
  | done (result : α)
  /-- With a fault. -/
  | fault (f : Fault)
  /-- At the limit of nested calls. -/
  | exhausted

/-- An evaluation with results in `α`. -/
def Eval (α : Type) : Type := Store → Outcome α × Store

namespace Eval

variable {α β : Type}

/-- One evaluation behind the other; the second runs only if the first is done. -/
def andThen (e : Eval α) (f : α → Eval β) : Eval β := fun store =>
  match e store with
  | (.done a, store') => f a store'
  | (.fault fault, store') => (.fault fault, store')
  | (.exhausted, store') => (.exhausted, store')

instance : Monad Eval where
  pure a := fun store => (.done a, store)
  bind := andThen

theorem bind_of_done {e : Eval α} {store store' : Store} {a : α} (h : e store = (.done a, store'))
    (f : α → Eval β) : (e >>= f) store = f a store' := by
  show andThen e f store = _
  rw [andThen, h]

theorem bind_of_fault {e : Eval α} {store store' : Store} {fault : Fault}
    (h : e store = (.fault fault, store')) (f : α → Eval β) :
    (e >>= f) store = (.fault fault, store') := by
  show andThen e f store = _
  rw [andThen, h]

instance : LawfulMonad Eval := by
  refine LawfulMonad.mk' Eval ?_ (fun _ _ => rfl) ?_
  · intro α e
    funext store
    show andThen e _ store = _
    rw [andThen]
    rcases e store with ⟨_ | _ | _, _⟩ <;> rfl
  · intro α β γ e f g
    funext store
    show andThen (andThen e f) g store = andThen e (fun a => andThen (f a) g) store
    simp only [andThen]
    rcases e store with ⟨_ | _ | _, _⟩ <;> rfl

/-- Ends in a fault. -/
def fail (f : Fault) : Eval α := fun store => (.fault f, store)

/-- Ends at the limit of nested calls. -/
def exhaust : Eval α := fun store => (.exhausted, store)

/-- A computation that does not touch the store. -/
def lift : Except Fault α → Eval α
  | .ok a => pure a
  | .error f => fail f

/-- The value of a name, in a scope or around it. -/
def lookup (scope : ScopeId) (name : String) : Eval (Option Value) := fun store =>
  (.done (store.lookup scope name), store)

/-- Binds a name in a scope. -/
def bindName (scope : ScopeId) (name : String) (value : Value) : Eval Unit := fun store =>
  (.done (), store.bind scope name value)

/-- A new scope inside another one, with names bound in it. -/
def enter (parent : ScopeId) (bindings : List (String × Value)) : Eval ScopeId := fun store =>
  match store.enclose (some parent) with
  | (scope, store') => (.done scope, store'.bindAll scope bindings)

/-- A new function with a literal and the scope it is made in. -/
def makeFunction (params : List String) (body : List Stmt) (scope : ScopeId) : Eval Value :=
  fun store =>
    (.done (.function ⟨store.functions, params, body, scope⟩),
      { store with functions := store.functions + 1 })

/-- Prints a text. -/
def print (text : String) : Eval Unit := fun store => (.done (), store.print text)

/-- Turns a fault into an error value, so that only the limit of nested calls is left. -/
def caught (e : Eval Value) : Eval Value := fun store =>
  match e store with
  | (.fault f, store') => (.done (.error f.message), store')
  | (outcome, store') => (outcome, store')

theorem caught_store (e : Eval Value) (store : Store) : (caught e store).2 = (e store).2 := by
  unfold caught
  split
  · rename_i ended
    rw [ended]
  · rename_i ended
    rw [ended]

/-- A result is the result of the evaluation, or the error of its fault. -/
theorem caught_done_iff {e : Eval Value} {store : Store} {v : Value} :
    (caught e store).1 = .done v ↔
      (e store).1 = .done v ∨ ∃ f : Fault, (e store).1 = .fault f ∧ v = .error f.message := by
  unfold caught
  rcases e store with ⟨_ | fault | _, store'⟩
  · simp
  · simp [eq_comm]
  · simp

end Eval

end MonkeyLang
