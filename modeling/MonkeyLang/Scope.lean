import MonkeyLang.NameMap
import MonkeyLang.Text.Escaped
import MonkeyLang.Value.Basic

/-!
# Scopes

Scopes bind names to values.  A scope can be enclosed by another one, in which a name is looked up
if the scope itself does not bind it.  Scopes are shared: functions keep the scope they were made
in, and see what is bound there later.  So scopes live in a store, and are known by their numbers.

The store also counts the functions that have been made, to give each its identity, and holds what
has been printed.

## Main definitions

* `Scope`, `Store`: scopes, and all that a running program can change
* `Store.enclose`: a new scope
* `Store.lookup`: the value of a name, in a scope or in the nearest one around it that binds it
* `Store.bind`: binds a name in a scope

## Main results

* `Store.getElem?_enclose`, `Store.getElem?_bind`: the scopes after one has been made or changed
-/

namespace MonkeyLang

/-- A scope: its own bindings, and the scope around it. -/
structure Scope where
  /-- The bindings of this scope alone. -/
  bindings : NameMap Value
  /-- The scope around it, if there is one. -/
  parent : Option ScopeId

/-- All that a running program can change. -/
structure Store where
  /-- The scopes by their numbers. -/
  scopes : Array Scope
  /-- How many functions have been made. -/
  functions : Nat
  /-- What has been printed. -/
  printed : String

namespace Store

/-- The store before anything has run. -/
def empty : Store := ⟨#[], 0, ""⟩

/-- A new scope inside `parent`, or a root scope. -/
def enclose (store : Store) (parent : Option ScopeId) : ScopeId × Store :=
  (store.scopes.size, { store with scopes := store.scopes.push ⟨[], parent⟩ })

/-- The value of a name: from the scope itself, or else from the scopes around it.  A scope is
always younger than the one around it. -/
def lookup (store : Store) (scope : ScopeId) (name : String) : Option Value :=
  match store.scopes[scope]? with
  | none => none
  | some s =>
    match s.bindings.get? name with
    | some value => some value
    | none =>
      match s.parent with
      | none => none
      | some parent => if parent < scope then lookup store parent name else none
termination_by scope

/-- Binds a name in a scope, in place of what it was bound to there. -/
def bind (store : Store) (scope : ScopeId) (name : String) (value : Value) : Store :=
  { store with
    scopes := store.scopes.modify scope fun s => { s with bindings := s.bindings.set name value } }

section Scopes

variable (store : Store) (scope i : ScopeId) (parent : Option ScopeId) (name : String)
  (value : Value)

theorem size_enclose : (store.enclose parent).2.scopes.size = store.scopes.size + 1 :=
  Array.size_push _

theorem getElem?_enclose : (store.enclose parent).2.scopes[i]? =
    if i = store.scopes.size then some ⟨[], parent⟩ else store.scopes[i]? := Array.getElem?_push

theorem size_bind : (store.bind scope name value).scopes.size = store.scopes.size :=
  Array.size_modify

theorem getElem?_bind : (store.bind scope name value).scopes[i]? =
    if scope = i then
      (store.scopes[i]?).map fun s => { s with bindings := s.bindings.set name value }
    else store.scopes[i]? := Array.getElem?_modify

end Scopes

/-- Binds names to values in a scope, one after the other. -/
def bindAll (store : Store) (scope : ScopeId) : List (String × Value) → Store
  | [] => store
  | (name, value) :: rest => bindAll (store.bind scope name value) scope rest

/-- The bindings of a scope alone, in the order of the names. -/
def bindings (store : Store) (scope : ScopeId) : NameMap Value :=
  match store.scopes[scope]? with
  | none => []
  | some s => s.bindings

/-- Adds to what has been printed. -/
def print (store : Store) (text : String) : Store := { store with printed := store.printed ++ text }

/-- The store with nothing printed yet. -/
def clearPrinted (store : Store) : Store := { store with printed := "" }

/-- The description of a scope: the names it binds, and whether there is a scope around it. -/
def describe (store : Store) (scope : ScopeId) : String :=
  let enclosed := ((store.scopes[scope]?).bind Scope.parent).isSome
  "Environment \x7b names: " ++ Text.Escaped.list (store.bindings scope).names ++
    ", has_parent: " ++ (if enclosed then "true" else "false") ++ " \x7d"

end Store

end MonkeyLang
