import MonkeyLang.Evaluation.Rules
import MonkeyLang.Proofs.Occurrence

/-!
# Invariants of evaluation

What a run keeps, whatever it evaluates.  An invariant says what holds of the store, of all values,
and of the scopes, names and function literals that evaluation may use; its laws say that each
elementary evaluation respects it.  Then every rule respects it, by induction over expressions, and
so does every call, by induction over the limit of nested calls.

Only the parts of an expression outside of function literals are evaluated in its own scope, so only
the bindings among them have to be admitted there.

## Main definitions

* `Eval.Keeps`: what holds of every run of an evaluation
* `Expr.operands`, `Expr.Shares`: the expressions that are evaluated in the scope of an expression
* `Expr.Binds`, `Node.Binds`: the names that are bound in the scope of a tree
* `Invariant`, `Invariant.Admits`: what evaluation keeps, and the trees it may start from

## Main results

* `Invariant.eval_keeps`: expressions, if calls respect the invariant
* `Invariant.call_keeps`: calls, with any limit
* `Invariant.node_keeps`: all trees
-/

namespace MonkeyLang

/-! ## Runs of evaluations -/

/-- A result has `Q`, and the limit of nested calls is only reached if `X`. -/
def Outcome.Meets {α : Type} (Q : α → Prop) (X : Prop) : Outcome α → Prop
  | done a => Q a
  | fault _ => True
  | exhausted => X

namespace Eval

variable {α β : Type} {I : Store → Prop} {X : Prop}

/-- Every run from a store with `I` ends in a store with `I`.  A result has `Q`, and the limit of
nested calls is only reached if `X`. -/
def Keeps (I : Store → Prop) (X : Prop) (e : Eval α) (Q : α → Prop) : Prop :=
  ∀ store, I store → I (e store).2 ∧ (e store).1.Meets Q X

namespace Keeps

variable {e : Eval α} {f : α → Eval β} {Q Q' : α → Prop} {R : β → Prop}

theorem mono (h : Keeps I X e Q) (le : ∀ a, Q a → Q' a) : Keeps I X e Q' := by
  intro store start
  obtain ⟨keeps, meets⟩ := h store start
  refine ⟨keeps, ?_⟩
  cases outcome : (e store).1 with
  | done a =>
    rw [outcome] at meets
    exact le a meets
  | fault => trivial
  | exhausted =>
    rw [outcome] at meets
    exact meets

theorem pure {a : α} (h : Q a) : Keeps I X (Pure.pure a : Eval α) Q := fun _ start => ⟨start, h⟩

theorem fail {fault : Fault} : Keeps I X (Eval.fail fault : Eval α) Q :=
  fun _ start => ⟨start, trivial⟩

theorem exhaust (h : X) : Keeps I X (Eval.exhaust : Eval α) Q := fun _ start => ⟨start, h⟩

theorem lift {r : Except Fault α} (h : ∀ a, r = .ok a → Q a) : Keeps I X (Eval.lift r) Q := by
  cases r with
  | ok a => exact .pure (h a rfl)
  | error fault => exact .fail

/-- The second evaluation starts where the first one is done. -/
theorem bind (first : Keeps I X e Q) (second : ∀ a, Q a → Keeps I X (f a) R) :
    Keeps I X (e >>= f) R := by
  intro store start
  have run : (e >>= f) store = Eval.andThen e f store := rfl
  obtain ⟨keeps, meets⟩ := first store start
  rw [run, Eval.andThen]
  rcases ended : e store with ⟨outcome, store'⟩
  rw [ended] at keeps meets
  cases outcome with
  | done a => exact second a meets store' keeps
  | fault => exact ⟨keeps, trivial⟩
  | exhausted => exact ⟨keeps, meets⟩

end Keeps

end Eval

/-- A builtin that follows its own rule prints, and changes nothing else. -/
theorem Builtin.answer_keeps {I : Store → Prop} {X : Prop} {Q : Value → Prop} {b : Builtin}
    {args : List Value} (print : ∀ {store text}, I store → I (store.print text))
    (run : ∀ {v text}, b.run args = .ok (v, text) → Q v) : (b.answer args).Keeps I X Q := by
  have lifted : (Eval.lift (b.run args)).Keeps I X fun answer => Q answer.1 :=
    .lift fun _ ran => run ran
  refine lifted.bind fun ⟨v, text⟩ hv => ?_
  have printed : (Eval.print text).Keeps I X fun _ => True :=
    fun _ start => ⟨print start, trivial⟩
  exact printed.bind fun _ _ => .pure hv

/-! ## What is evaluated in the scope of a tree -/

namespace Expr

/-- The expressions right below an expression that are evaluated in its scope: all but those in the
body of a function literal. -/
def operands : Expr → List Expr
  | fn _ _ => []
  | e => e.children

theorem mem_children_of_operands {e c : Expr} (h : c ∈ e.operands) : c ∈ e.children := by
  cases e with
  | fn => cases h
  | _ => exact h

/-- The statements of the blocks that are evaluated in the scope of an expression. -/
def blocks : Expr → List Stmt
  | cond _ yes no => yes ++ no.getD []
  | _ => []

/-- The expression `e` occurs in the tree `root` outside of function literals. -/
inductive Shares : (root e : Expr) → Prop where
  | root (e : Expr) : Shares e e
  | inside {root c e : Expr} (operand : c ∈ root.operands) (shares : Shares c e) : Shares root e

/-- A binding of the name occurs in the expression outside of function literals. -/
def Binds (e : Expr) (name : String) : Prop :=
  ∃ e' value, e.Shares e' ∧ .bind name value ∈ e'.blocks

end Expr

namespace Node

/-- The statements at the top of a tree. -/
def statements : Node → List Stmt
  | program p => p.statements
  | statement st => [st]
  | block body => body
  | expression _ => []

/-- The expressions at the top of a tree. -/
def roots : Node → List Expr
  | expression e => [e]
  | node => node.statements.map Stmt.value

/-- A binding of the name occurs in the tree outside of function literals. -/
def Binds (node : Node) (name : String) : Prop :=
  (∃ value, .bind name value ∈ node.statements) ∨ ∃ e ∈ node.roots, e.Binds name

/-- The value of a tree, with the wrapper of a return. -/
def top (m : Machine) (scope : ScopeId) : Node → Eval Value
  | program p => evalStmts m scope p.statements .null
  | statement st => st.eval m scope
  | block body => evalStmts m scope body .null
  | expression e => e.eval m scope

theorem eval_eq (m : Machine) (scope : ScopeId) (node : Node) :
    node.eval m scope = do
      let value ← node.top m scope
      return value.unwrap := by
  cases node
  all_goals rfl

end Node

/-! ## Invariants -/

/-- A value without parts that no scope, function or host stands behind. -/
def Value.isScalar : Value → Bool
  | int _ | float _ | bool _ | str _ | null => true
  | _ => false

/-- An operator before a value gives a scalar. -/
theorem UnaryOp.isScalar_of_apply {op : UnaryOp} {v w : Value} (h : op.apply v = .ok w) :
    w.isScalar := by
  unfold UnaryOp.apply at h
  split at h
  all_goals cases h
  all_goals rfl

namespace BinaryOp

theorem isScalar_of_applyInt {op : BinaryOp} {a b : Int64} {w : Value}
    (h : op.applyInt a b = .ok w) : w.isScalar := by
  cases op with
  | div =>
    rw [applyInt] at h
    split at h
    all_goals cases h
    rfl
  | add | sub | mul | eq | ne | lt | gt =>
    cases h
    rfl

theorem isScalar_applyFloat (op : BinaryOp) (a b : Binary64) : (op.applyFloat a b).isScalar := by
  cases op
  all_goals rfl

theorem isScalar_of_applyOther {op : BinaryOp} {v v' w : Value} (h : op.applyOther v v' = .ok w) :
    w.isScalar := by
  unfold applyOther at h
  split at h
  all_goals cases h
  all_goals rfl

/-- An operator between two values gives a scalar. -/
theorem isScalar_of_apply {op : BinaryOp} {v v' w : Value} (h : op.apply v v' = .ok w) :
    w.isScalar := by
  unfold apply at h
  split at h
  · exact isScalar_of_applyInt h
  · split at h
    · cases h
      exact isScalar_applyFloat op _ _
    · exact isScalar_of_applyOther h

end BinaryOp

/-- What evaluation keeps, and the laws by which it does. -/
structure Invariant (host : Host) where
  /-- What holds of the store. -/
  store : Store → Prop
  /-- What holds of every value. -/
  value : Value → Prop
  /-- The scopes in which something is evaluated. -/
  scope : ScopeId → Prop
  /-- The names that are bound in a scope. -/
  target : ScopeId → String → Prop
  /-- The function literals that are evaluated. -/
  literal : List String → List Stmt → Prop
  /-- Whether the limit of nested calls can be reached. -/
  limit : Prop
  scalar {v : Value} : v.isScalar → value v
  array_iff {items : List Value} : value (.array items) ↔ ∀ v ∈ items, value v
  hash_iff {entries : Table (Value × Value)} :
    value (.hash entries) ↔ ∀ entry ∈ entries, value entry.2.1 ∧ value entry.2.2
  unwrap {v : Value} : value v → value v.unwrap
  returned {v : Value} : value v → value (.returned v.unwrap)
  builtin {name : String} {b : Builtin} :
    NameMap.get? name host.builtins = some b → value (.builtin b)
  answer {b : Builtin} {args : List Value} : value (.builtin b) → (∀ v ∈ args, value v) →
    (host.answer b args).Keeps store limit value
  function {identity : Nat} {params : List String} {body : List Stmt} {i : ScopeId} :
    literal params body → scope i → value (.function ⟨identity, params, body, i⟩)
  /-- The literals in the body of a function are evaluated when it is called. -/
  body {f : Closure} : value (.function f) → ∀ st ∈ f.body, ∀ params body,
    st.value.Shares (.fn params body) → literal params body
  called {f : Closure} : value (.function f) → limit
  lookup {s : Store} {i : ScopeId} {name : String} {v : Value} : store s → scope i →
    s.lookup i name = some v → value v
  bind {s : Store} {i : ScopeId} {name : String} {v : Value} : store s → target i name → value v →
    store (s.bind i name v)
  /-- In the scope of a call every name can be bound. -/
  enclose {s : Store} {f : Closure} : store s → value (.function f) →
    store (s.enclose (some f.scope)).2 ∧ scope s.scopes.size ∧ ∀ name, target s.scopes.size name
  make {s : Store} : store s → store { s with functions := s.functions + 1 }

namespace Invariant

variable {host : Host} (inv : Invariant host)

/-- Every run of the evaluation respects the invariant, and a result has `Q`. -/
abbrev Keeps {α : Type} (e : Eval α) (Q : α → Prop) : Prop := e.Keeps inv.store inv.limit Q

/-- The expression may be evaluated in the scope. -/
structure Admits (i : ScopeId) (e : Expr) : Prop where
  literal : ∀ {params body}, e.Shares (.fn params body) → inv.literal params body
  target : ∀ {name}, e.Binds name → inv.target i name

/-- The tree may be evaluated in the scope. -/
structure AdmitsNode (i : ScopeId) (node : Node) : Prop where
  literal : ∀ {e params body}, e ∈ node.roots → e.Shares (.fn params body) → inv.literal params body
  target : ∀ {name}, node.Binds name → inv.target i name

variable {inv} {i : ScopeId}

theorem Admits.operand {e c : Expr} (h : inv.Admits i e) (mem : c ∈ e.operands) :
    inv.Admits i c where
  literal shares := h.literal (.inside mem shares)
  target := by
    rintro name ⟨e', value, shares, bind⟩
    exact h.target ⟨e', value, .inside mem shares, bind⟩

theorem AdmitsNode.root {node : Node} {e : Expr} (h : inv.AdmitsNode i node)
    (mem : e ∈ node.roots) : inv.Admits i e where
  literal := h.literal mem
  target binds := h.target (.inr ⟨e, mem, binds⟩)

/-! ## Rules -/

theorem enter_keeps {f : Closure} (hf : inv.value (.function f)) {bindings : List (String × Value)}
    (values : ∀ b ∈ bindings, inv.value b.2) :
    inv.Keeps (Eval.enter f.scope bindings) fun i => inv.scope i ∧ ∀ name, inv.target i name := by
  intro s start
  obtain ⟨keeps, here, free⟩ := inv.enclose start hf
  refine ⟨?_, here, free⟩
  -- the parameters are bound one after the other in the new scope
  show inv.store ((s.enclose (some f.scope)).2.bindAll s.scopes.size bindings)
  generalize (s.enclose (some f.scope)).2 = s' at keeps
  induction bindings generalizing s' with
  | nil => exact keeps
  | cons b rest ih =>
    rw [Store.bindAll]
    refine ih (fun b' mem => values b' (List.mem_cons_of_mem b mem)) _ ?_
    exact inv.bind keeps (free b.1) (values b List.mem_cons_self)

theorem of_itemsAt {items : List Value} (h : ∀ v ∈ items, inv.value v) (positions : List Nat) :
    ∀ v ∈ Selection.itemsAt items positions, inv.value v := by
  intro v mem
  obtain ⟨position, -, found⟩ := List.mem_filterMap.mp mem
  rw [List.getElem?_toArray] at found
  exact h v (List.mem_of_getElem? found)

theorem of_selectItems {items : List Value} (h : ∀ v ∈ items, inv.value v) (sel : Selection) :
    inv.value (selectItems items sel) := by
  cases sel with
  | single position =>
    show inv.value (items[position]?.getD .null)
    cases found : items[position]? with
    | none => exact inv.scalar rfl
    | some v => exact h v (List.mem_of_getElem? found)
  | several positions => exact inv.array_iff.mpr (of_itemsAt h positions)

/-- The entries of a table have values of the invariant. -/
abbrev Entries (inv : Invariant host) (entries : Table (Value × Value)) : Prop :=
  ∀ entry ∈ entries, inv.value entry.2.1 ∧ inv.value entry.2.2

theorem Entries.insert {entries : Table (Value × Value)} (h : inv.Entries entries)
    {key value : Value} (hkey : inv.value key) (hvalue : inv.value value) (hashKey : HashKey) :
    inv.Entries (entries.insert hashKey (key, value)) := by
  intro entry mem
  rcases Table.mem_of_mem_insert mem with rfl | mem
  · exact ⟨hkey, hvalue⟩
  · exact h entry mem

theorem of_find? {entries : Table (Value × Value)} (h : inv.Entries entries) (hashKey : HashKey) :
    inv.value (((entries.find? hashKey).map Prod.snd).getD .null) := by
  cases found : entries.find? hashKey with
  | none => exact inv.scalar rfl
  | some entry => exact (h _ (Table.mem_of_find? found)).2

theorem hashKeyOf_keeps (key : Value) : inv.Keeps (hashKeyOf key) fun _ => True := by
  unfold hashKeyOf
  split
  · exact .pure trivial
  · exact .fail

theorem integerOf_keeps (v : Value) : inv.Keeps (integerOf v) fun _ => True := by
  unfold integerOf
  split
  · exact .pure trivial
  · exact .fail

theorem startOf_keeps (length : Nat) (index? : Option Int64) :
    inv.Keeps (startOf length index?) fun _ => True := by
  cases index? with
  | none => exact .pure trivial
  | some index => exact (Eval.Keeps.lift fun _ _ => trivial).bind fun _ _ => .pure trivial

theorem sliceOf_keeps (length : Nat) {start stop stride : Eval (Option Int64)}
    (hstart : inv.Keeps start fun _ => True) (hstop : inv.Keeps stop fun _ => True)
    (hstride : inv.Keeps stride fun _ => True) :
    inv.Keeps (sliceOf length start stop stride) fun _ => True := by
  unfold sliceOf
  refine hstart.bind fun start? _ => (startOf_keeps length start?).bind fun first _ => ?_
  refine hstop.bind fun stop? _ => ?_
  split
  · exact .pure trivial
  · refine hstride.bind fun stride? _ => ?_
    split
    · exact .fail
    · exact .pure trivial

/-- Every run of the expression in the scope respects the invariant. -/
abbrev Evaluates (inv : Invariant host) (m : Machine) (i : ScopeId) (e : Expr) : Prop :=
  inv.Keeps (e.eval m i) inv.value

section Rules

variable {m : Machine}

theorem evalAll_keeps {es : List Expr} (h : ∀ e ∈ es, inv.Evaluates m i e) :
    inv.Keeps (evalAll m i es) fun vs => ∀ v ∈ vs, inv.value v := by
  induction es with
  | nil =>
    rw [evalAll]
    exact .pure nofun
  | cons e es ih =>
    obtain ⟨first, others⟩ := List.forall_mem_cons.mp h
    rw [evalAll]
    refine first.bind fun v hv => (ih others).bind fun vs hvs => ?_
    exact .pure (List.forall_mem_cons.mpr ⟨hv, hvs⟩)

theorem file_keeps {bare? : Option String} {key value : Eval Value}
    (hkey : inv.Keeps key inv.value) (hvalue : inv.Keeps value inv.value)
    {entries : Table (Value × Value)} (filed : inv.Entries entries) :
    inv.Keeps (Rule.file bare? key value entries) inv.Entries := by
  unfold Rule.file
  refine Eval.Keeps.bind (Q := inv.value) ?_ fun k hk => ?_
  · -- a bare name is a key without being evaluated
    split
    · exact .pure (inv.scalar rfl)
    · exact hkey
  · refine (hashKeyOf_keeps k).bind fun hashKey _ => hvalue.bind fun v hv => .pure ?_
    exact filed.insert hk hv hashKey

theorem evalPairs_keeps {pairs : List (Expr × Expr)}
    (h : ∀ pair ∈ pairs, inv.Evaluates m i pair.1 ∧ inv.Evaluates m i pair.2)
    {entries : Table (Value × Value)} (filed : inv.Entries entries) :
    inv.Keeps (evalPairs m i pairs entries) inv.Entries := by
  induction pairs generalizing entries with
  | nil =>
    rw [evalPairs]
    exact .pure filed
  | cons pair rest ih =>
    obtain ⟨⟨key, value⟩, others⟩ := List.forall_mem_cons.mp h
    rw [evalPairs]
    exact (file_keeps key value filed).bind fun entries filed => ih others filed

theorem evalSegment_keeps {e? : Option Expr} (h : ∀ e ∈ e?.toList, inv.Evaluates m i e) :
    inv.Keeps (evalSegment m i e?) fun _ => True := by
  cases e? with
  | none =>
    rw [evalSegment]
    exact .pure trivial
  | some e =>
    rw [evalSegment]
    refine (h e (Option.mem_toList.mpr rfl)).bind fun v _ => ?_
    exact (integerOf_keeps v).bind fun n _ => .pure trivial

theorem select_keeps {sub : Subscript} (h : ∀ e ∈ sub.parts, inv.Evaluates m i e) (length : Nat) :
    inv.Keeps (sub.select m i length) fun _ => True := by
  cases sub with
  | empty =>
    rw [Subscript.select]
    exact .fail
  | item index =>
    rw [Subscript.select]
    refine (h index List.mem_cons_self).bind fun v _ => (integerOf_keeps v).bind fun n _ => ?_
    exact (Eval.Keeps.lift fun _ _ => trivial).bind fun _ _ => .pure trivial
  | slice start stop =>
    obtain ⟨hstart, hstop⟩ := List.forall_mem_append.mp h
    rw [Subscript.select]
    exact sliceOf_keeps length (evalSegment_keeps hstart) (evalSegment_keeps hstop) (.pure trivial)
  | stepped start stop stride =>
    obtain ⟨h, hstride⟩ := List.forall_mem_append.mp h
    obtain ⟨hstart, hstop⟩ := List.forall_mem_append.mp h
    rw [Subscript.select]
    exact sliceOf_keeps length (evalSegment_keeps hstart) (evalSegment_keeps hstop)
      (evalSegment_keeps hstride)

theorem evalKey_keeps {sub : Subscript} (h : ∀ e ∈ sub.parts, inv.Evaluates m i e) :
    inv.Keeps (sub.evalKey m i) inv.value := by
  cases sub with
  | item index =>
    rw [Subscript.evalKey]
    exact h index List.mem_cons_self
  | empty | slice | stepped =>
    rw [Subscript.evalKey]
    exact .fail

theorem stmt_keeps {st : Stmt} (h : inv.Evaluates m i st.value)
    (target : ∀ {name value}, st = .bind name value → inv.target i name) :
    inv.Keeps (st.eval m i) inv.value := by
  cases st with
  | bind name value =>
    rw [Stmt.eval]
    refine Eval.Keeps.bind h fun v hv => ?_
    split
    · exact .pure hv
    · have bound : inv.Keeps (Eval.bindName i name v) fun _ => True :=
        fun s start => ⟨inv.bind start (target rfl) hv, trivial⟩
      exact bound.bind fun _ _ => .pure (inv.scalar rfl)
  | ret value =>
    rw [Stmt.eval]
    exact Eval.Keeps.bind h fun v hv => .pure (inv.returned hv)
  | expr value =>
    rw [Stmt.eval]
    exact h

theorem evalStmts_keeps {ss : List Stmt} (h : ∀ st ∈ ss, inv.Evaluates m i st.value)
    (target : ∀ {name value}, .bind name value ∈ ss → inv.target i name) {last : Value}
    (hlast : inv.value last) : inv.Keeps (evalStmts m i ss last) inv.value := by
  induction ss generalizing last with
  | nil =>
    rw [evalStmts]
    exact .pure hlast
  | cons st rest ih =>
    obtain ⟨first, others⟩ := List.forall_mem_cons.mp h
    rw [evalStmts]
    have hfirst : inv.Keeps (st.eval m i) inv.value := by
      refine stmt_keeps first ?_
      rintro name value rfl
      exact target List.mem_cons_self
    refine hfirst.bind fun v hv => ?_
    split
    · exact .pure hv
    · exact ih others (fun mem => target (List.mem_cons_of_mem st mem)) hv

theorem evalElse_keeps {no : Option (List Stmt)} (h : ∀ st ∈ no.getD [], inv.Evaluates m i st.value)
    (target : ∀ {name value}, .bind name value ∈ no.getD [] → inv.target i name) :
    inv.Keeps (evalElse m i no) inv.value := by
  cases no with
  | none =>
    rw [evalElse]
    exact .pure (inv.scalar rfl)
  | some body =>
    rw [evalElse]
    exact evalStmts_keeps h target (inv.scalar rfl)

end Rules

section Machine

variable {m : Machine} {inv : Invariant m.host}

theorem identifier_keeps (here : inv.scope i) (name : String) :
    inv.Keeps (m.identifier i name) inv.value := by
  unfold Machine.identifier
  have found : inv.Keeps (Eval.lookup i name) fun v? => ∀ v ∈ v?, inv.value v :=
    fun s start => ⟨start, fun v found => inv.lookup start here found⟩
  refine found.bind fun v? values => ?_
  split
  · rename_i v
    exact .pure (values v rfl)
  · split
    · rename_i b known
      exact .pure (inv.builtin known)
    · exact .fail

/-- A function respects the invariant when it is called. -/
abbrev Calls (inv : Invariant m.host) : Prop := ∀ {f args}, inv.value (.function f) →
  (∀ v ∈ args, inv.value v) → inv.Keeps (m.call f args) inv.value

theorem apply_keeps (calls : inv.Calls) {callee : Value} {args : List Value}
    (hcallee : inv.value callee) (hargs : ∀ v ∈ args, inv.value v) :
    inv.Keeps (m.apply callee args) inv.value := by
  unfold Machine.apply
  split
  · exact calls hcallee hargs
  · exact inv.answer hcallee hargs
  · exact .fail

/-- Every expression that may be evaluated respects the invariant, if calls do. -/
theorem eval_keeps (calls : inv.Calls) (here : inv.scope i) (e : Expr) (admits : inv.Admits i e) :
    inv.Evaluates m i e := by
  induction e using Expr.induction with
  | step e ih =>
    have operand (c : Expr) (mem : c ∈ e.operands) : inv.Evaluates m i c :=
      ih c (Expr.mem_children_of_operands mem) (admits.operand mem)
    unfold Evaluates
    cases e with
    | ident name =>
      rw [Expr.eval]
      exact identifier_keeps here name
    | int | float | bool | str =>
      rw [Expr.eval]
      exact .pure (inv.scalar rfl)
    | array items =>
      rw [Expr.eval]
      exact (evalAll_keeps operand).bind fun vs hvs => .pure (inv.array_iff.mpr hvs)
    | hash pairs =>
      rw [Expr.eval]
      have pair (pair : Expr × Expr) (mem : pair ∈ pairs) :
          inv.Evaluates m i pair.1 ∧ inv.Evaluates m i pair.2 := by
        constructor
        all_goals
          refine operand _ (List.mem_flatMap.mpr ⟨pair, mem, ?_⟩)
          simp
      refine (evalPairs_keeps pair (fun _ mem => by cases mem)).bind fun entries filed => ?_
      exact .pure (inv.hash_iff.mpr filed)
    | unary op e =>
      rw [Expr.eval]
      refine (operand e List.mem_cons_self).bind fun v _ => .lift fun w result => ?_
      exact inv.scalar (UnaryOp.isScalar_of_apply result)
    | binary op left right =>
      obtain ⟨hleft, hright⟩ := List.forall_mem_cons.mp operand
      replace hright := List.forall_mem_singleton.mp hright
      rw [Expr.eval]
      refine hleft.bind fun v _ => hright.bind fun v' _ => .lift fun w result => ?_
      exact inv.scalar (BinaryOp.isScalar_of_apply result)
    | cond test yes no =>
      obtain ⟨htest, hblocks⟩ := List.forall_mem_cons.mp operand
      obtain ⟨hyes, hno⟩ := List.forall_mem_append.mp hblocks
      have target {name : String} {value : Expr} (mem : .bind name value ∈ yes ++ no.getD []) :
          inv.target i name := admits.target ⟨_, value, .root _, mem⟩
      rw [Expr.eval]
      refine htest.bind fun v _ => ?_
      split
      · refine evalStmts_keeps (List.forall_mem_map.mp hyes) (fun mem => ?_) (inv.scalar rfl)
        exact target (List.mem_append_left _ mem)
      · refine evalElse_keeps (List.forall_mem_map.mp hno) fun mem => ?_
        exact target (List.mem_append_right _ mem)
    | fn params body =>
      rw [Expr.eval]
      intro s start
      exact ⟨inv.make start, inv.function (admits.literal (.root _)) here⟩
    | call callee args =>
      obtain ⟨hcallee, hargs⟩ := List.forall_mem_cons.mp operand
      rw [Expr.eval]
      refine hcallee.bind fun f hf => (evalAll_keeps hargs).bind fun vs hvs => ?_
      exact apply_keeps calls hf hvs
    | index target sub =>
      obtain ⟨htarget, hsub⟩ := List.forall_mem_cons.mp operand
      rw [Expr.eval]
      refine htarget.bind fun v hv => ?_
      split
      · refine (select_keeps hsub _).bind fun selection _ => .pure ?_
        exact of_selectItems (inv.array_iff.mp hv) selection
      · refine (select_keeps hsub _).bind fun selection _ => .pure (inv.scalar ?_)
        cases selection
        all_goals rfl
      · refine (evalKey_keeps hsub).bind fun key _ => (hashKeyOf_keeps key).bind fun hashKey _ => ?_
        exact .pure (of_find? (inv.hash_iff.mp hv) hashKey)
      · exact .fail

end Machine

/-! ## Calls and trees -/

/-- Calls respect the invariant, by induction over the limit: the body of a function only calls with
a lower one. -/
theorem call_keeps (inv : Invariant host) (limit : Nat) {f : Closure} {args : List Value}
    (hf : inv.value (.function f)) (hargs : ∀ v ∈ args, inv.value v) :
    inv.Keeps (call host limit f args) inv.value := by
  induction limit generalizing f args with
  | zero =>
    rw [call]
    exact .exhaust (inv.called hf)
  | succ limit ih =>
    rw [call, Rule.body]
    split
    · exact .fail
    · have bound : ∀ b ∈ f.params.zip args, inv.value b.2 :=
        fun b mem => hargs b.2 (List.of_mem_zip mem).2
      refine (enter_keeps hf bound).bind fun i ⟨here, free⟩ => ?_
      have statement (st : Stmt) (mem : st ∈ f.body) :
          inv.Evaluates ⟨host, call host limit⟩ i st.value :=
        eval_keeps (m := ⟨host, call host limit⟩) ih here st.value
          ⟨inv.body hf st mem _ _, fun _ => free _⟩
      refine (evalStmts_keeps statement (fun _ => free _) (inv.scalar rfl)).bind fun v hv => ?_
      exact .pure (inv.unwrap hv)

/-- Every tree that may be evaluated respects the invariant.  Its result has lost a wrapper. -/
theorem node_keeps (inv : Invariant host) (limit : Nat) (here : inv.scope i) {node : Node}
    (admits : inv.AdmitsNode i node) :
    inv.Keeps (node.eval (.withLimit host limit) i) fun w => ∃ v, inv.value v ∧ w = v.unwrap := by
  have root (e : Expr) (mem : e ∈ node.roots) : inv.Keeps (e.eval (.withLimit host limit) i) _ :=
    eval_keeps (m := .withLimit host limit) (inv.call_keeps limit) here e (admits.root mem)
  have target {name : String} {value : Expr} (mem : .bind name value ∈ node.statements) :
      inv.target i name := admits.target (.inl ⟨value, mem⟩)
  have top : inv.Keeps (node.top (.withLimit host limit) i) inv.value := by
    cases node with
    | program p => exact evalStmts_keeps (List.forall_mem_map.mp root) target (inv.scalar rfl)
    | block body => exact evalStmts_keeps (List.forall_mem_map.mp root) target (inv.scalar rfl)
    | statement st =>
      refine stmt_keeps (root st.value List.mem_cons_self) ?_
      rintro name value rfl
      exact target List.mem_cons_self
    | expression e => exact root e List.mem_cons_self
  rw [node.eval_eq]
  exact top.bind fun v hv => .pure ⟨v, hv, rfl⟩

end Invariant

end MonkeyLang
