import MonkeyLang.Proofs.Invariant

/-!
# The depth of recursion

The rules of evaluation are for the evaluations of parts, however these come about.  Here they are
applied with a given way to evaluate the parts of an expression, and all recursion goes through that
way.  Evaluation follows the tree there; instead it can be given a depth, the number of expressions
whose evaluation may be in progress at once.  The body of a function that is called counts like a
part of the call, so that calls use up the depth too.

An evaluation to a depth runs as the evaluation itself wherever it is not exhausted.  If no call
reaches a function, then the height of a tree is depth enough.

## Main definitions

* `Expr.evalBy`, `stmtsBy`, `Node.topBy`: the rules with a way to evaluate parts
* `Expr.evalTo`, `evaluateTo`: evaluation to a depth
* `Eval.Under`: evaluations that run as others do, as far as they are not exhausted

## Main results

* `Expr.eval_eq_evalBy`: along a tree the parts are evaluated in the same way
* `evalBy_under`: the rules respect `Eval.Under`
* `evaluateTo_under`: an evaluation to a depth is an evaluation
* `evaluate_under_evaluateTo`: without calls of functions, the height of a tree is depth enough
-/

namespace MonkeyLang

/-! ## Rules with a way to evaluate parts -/

section Parts

variable (scope : ScopeId) (part : Expr → Eval Value)

def fileBy (entries : Table (Value × Value)) (pair : Expr × Expr) :
    Eval (Table (Value × Value)) :=
  Rule.file (bareKey? pair.1) (part pair.1) (part pair.2) entries

def segmentBy : Option Expr → Eval (Option Int64)
  | none => return none
  | some e => Rule.segment (part e)

def Subscript.selectBy : Subscript → (length : Nat) → Eval Selection
  | .empty, _ => Rule.emptyIndex
  | .item index, length => Rule.item (part index) length
  | .slice start stop, length =>
    sliceOf length (segmentBy part start) (segmentBy part stop) (pure none)
  | .stepped start stop stride, length =>
    sliceOf length (segmentBy part start) (segmentBy part stop) (segmentBy part stride)

def Subscript.keyBy : Subscript → Eval Value
  | .empty => Rule.emptyIndex
  | .item index => part index
  | .slice _ _ | .stepped _ _ _ => Rule.hashSlice

def Stmt.evalBy : Stmt → Eval Value
  | .bind name value => Rule.bind scope name (part value)
  | .ret value => Rule.ret (part value)
  | .expr value => part value

def stmtsBy : List Stmt → (last : Value) → Eval Value
  | [], last => return last
  | s :: rest, _ => Rule.behind (s.evalBy scope part) fun v => stmtsBy rest v

/-- The value of an expression, with the given way to evaluate its parts.  What has no parts is
evaluated as it is. -/
def Expr.evalBy (m : Machine) : Expr → Eval Value
  | .array items => Rule.array (items.mapM part)
  | .hash pairs => Rule.hash (pairs.foldlM (fileBy part) [])
  | .unary op operand => Rule.unary op (part operand)
  | .binary op left right => Rule.binary op (part left) (part right)
  | .cond test yes no =>
    Rule.cond (part test) (stmtsBy scope part yes .null) (stmtsBy scope part (no.getD []) .null)
  | .call callee args => Rule.call m (part callee) (args.mapM part)
  | .index target sub => Rule.index (part target) (sub.selectBy part) (sub.keyBy part)
  | leaf => leaf.eval m scope

/-- The value of a tree, with the wrapper of a return. -/
def Node.topBy : Node → Eval Value
  | .program p => stmtsBy scope part p.statements .null
  | .statement st => st.evalBy scope part
  | .block body => stmtsBy scope part body .null
  | .expression e => part e

/-- Evaluates a tree; a fault is an error value. -/
def Node.evaluateBy (node : Node) : Eval Value := Eval.caught do
  let value ← node.topBy scope part
  return value.unwrap

end Parts

/-- A call of a function, whose body is evaluated in the given way. -/
def Closure.callBy (part : ScopeId → Expr → Eval Value) (f : Closure) (args : List Value) :
    Eval Value := Rule.body f args fun scope => stmtsBy scope (part scope) f.body .null

/-- The value of an expression, if the evaluation of at most `depth` expressions may be in progress
at once. -/
def Expr.evalTo (host : Host) : (depth : Nat) → (scope : ScopeId) → Expr → Eval Value
  | 0, _, _ => Eval.exhaust
  | depth + 1, scope, e =>
    e.evalBy scope (evalTo host depth scope) ⟨host, Closure.callBy (evalTo host depth)⟩

/-- Evaluates a tree to a depth; a fault is an error value. -/
def evaluateTo (host : Host) (depth : Nat) (scope : ScopeId) (node : Node) : Eval Value :=
  node.evaluateBy scope (Expr.evalTo host depth scope)

/-! ## Along a tree -/

section Trees

variable (m : Machine) (scope : ScopeId)

theorem evalAll_eq (es : List Expr) :
    evalAll m scope es = es.mapM fun e => e.eval m scope := by
  induction es with
  | nil => rw [evalAll, List.mapM_nil]
  | cons e es ih => rw [evalAll, List.mapM_cons, ih]

theorem evalPairs_eq (pairs : List (Expr × Expr)) (entries : Table (Value × Value)) :
    evalPairs m scope pairs entries = pairs.foldlM (fileBy fun e => e.eval m scope) entries := by
  induction pairs generalizing entries with
  | nil => rw [evalPairs, List.foldlM_nil]
  | cons pair rest ih =>
    rw [evalPairs, List.foldlM_cons, fileBy]
    exact bind_congr ih

theorem evalSegment_eq (e? : Option Expr) :
    evalSegment m scope e? = segmentBy (fun e => e.eval m scope) e? := by
  cases e?
  all_goals rw [evalSegment, segmentBy]

theorem Subscript.select_eq (sub : Subscript) :
    sub.select m scope = sub.selectBy fun e => e.eval m scope := by
  funext length
  cases sub with
  | empty | item => rw [select, selectBy]
  | slice | stepped => simp only [select, selectBy, evalSegment_eq]

theorem Subscript.evalKey_eq (sub : Subscript) :
    sub.evalKey m scope = sub.keyBy fun e => e.eval m scope := by
  cases sub
  all_goals rw [evalKey, keyBy]

theorem Stmt.eval_eq (st : Stmt) : st.eval m scope = st.evalBy scope fun e => e.eval m scope := by
  cases st
  all_goals rw [eval, evalBy]

theorem evalStmts_eq (ss : List Stmt) (last : Value) :
    evalStmts m scope ss last = stmtsBy scope (fun e => e.eval m scope) ss last := by
  induction ss generalizing last with
  | nil => rw [evalStmts, stmtsBy]
  | cons st rest ih => simp only [evalStmts, stmtsBy, Stmt.eval_eq, ih]

theorem evalElse_eq (no : Option (List Stmt)) :
    evalElse m scope no = stmtsBy scope (fun e => e.eval m scope) (no.getD []) .null := by
  cases no with
  | none => rw [evalElse, Option.getD_none, stmtsBy]
  | some body => rw [evalElse, evalStmts_eq, Option.getD_some]

/-- Along a tree the parts are evaluated in the same way as the whole. -/
theorem Expr.eval_eq_evalBy (e : Expr) :
    e.eval m scope = e.evalBy scope (fun c => c.eval m scope) m := by
  cases e with
  | array => rw [eval, evalBy, evalAll_eq]
  | hash => rw [eval, evalBy, evalPairs_eq]
  | cond => rw [eval, evalBy, evalStmts_eq, evalElse_eq]
  | call => rw [eval, evalBy, evalAll_eq]
  | index => rw [eval, evalBy, Subscript.select_eq, Subscript.evalKey_eq]
  | unary | binary => rw [eval, evalBy]
  | ident | int | float | bool | str | fn => rfl

theorem evaluate_eq (node : Node) :
    evaluate m scope node = node.evaluateBy scope fun e => e.eval m scope := by
  rw [evaluate, node.eval_eq, Node.evaluateBy]
  cases node with
  | program | block => rw [Node.top, Node.topBy, evalStmts_eq]
  | statement st => rw [Node.top, Node.topBy, st.eval_eq]
  | expression e => rfl

end Trees

/-! ## As far as it is not exhausted -/

namespace Eval

variable {α β : Type}

/-- The evaluation `e'` runs as `e` does, except where `e` is exhausted. -/
def Under (e e' : Eval α) : Prop := ∀ store, (e store).1 = .exhausted ∨ e' store = e store

namespace Under

theorem refl (e : Eval α) : Under e e := fun _ => .inr rfl

theorem exhaust (e : Eval α) : Under Eval.exhaust e := fun _ => .inl rfl

theorem trans {e e' e'' : Eval α} (h : Under e e') (h' : Under e' e'') : Under e e'' := by
  intro store
  rcases h store with limit | same
  · exact .inl limit
  · rw [← same]
    exact h' store

/-- If the first evaluation is not exhausted, then the second one starts in both from the same
store with the same result. -/
theorem bind {e e' : Eval α} {f f' : α → Eval β} (first : Under e e')
    (second : ∀ a, Under (f a) (f' a)) : Under (e >>= f) (e' >>= f') := by
  intro store
  show (andThen e f store).1 = _ ∨ andThen e' f' store = andThen e f store
  unfold andThen
  rcases first store with limit | same
  · left
    rcases ended : e store with ⟨outcome, store'⟩
    rw [ended] at limit
    cases limit
    rfl
  · rw [same]
    rcases e store with ⟨outcome, store'⟩
    cases outcome with
    | done a => exact second a store'
    | fault | exhausted => exact .inr rfl

theorem caught {e e' : Eval Value} (h : Under e e') : Under (Eval.caught e) (Eval.caught e') := by
  intro store
  unfold Eval.caught
  rcases h store with limit | same
  · left
    rcases ended : e store with ⟨outcome, store'⟩
    rw [ended] at limit
    cases limit
    rfl
  · rw [same]
    exact .inr rfl

end Under

end Eval

/-! ## Rules, one way of evaluation under another -/

section Under

variable {scope : ScopeId} {part part' : Expr → Eval Value}

theorem mapM_under {es : List Expr} (h : ∀ e ∈ es, (part e).Under (part' e)) :
    (es.mapM part).Under (es.mapM part') := by
  induction es with
  | nil => exact .refl _
  | cons e es ih =>
    obtain ⟨first, others⟩ := List.forall_mem_cons.mp h
    rw [List.mapM_cons, List.mapM_cons]
    exact first.bind fun v => (ih others).bind fun vs => .refl _

theorem fileBy_under {pair : Expr × Expr} (key : (part pair.1).Under (part' pair.1))
    (value : (part pair.2).Under (part' pair.2)) (entries : Table (Value × Value)) :
    (fileBy part entries pair).Under (fileBy part' entries pair) := by
  unfold fileBy Rule.file
  refine Eval.Under.bind ?_ fun k => (Eval.Under.refl _).bind fun hashKey => ?_
  · split
    · exact .refl _
    · exact key
  · exact value.bind fun v => .refl _

theorem foldlM_under {pairs : List (Expr × Expr)}
    (h : ∀ pair ∈ pairs, (part pair.1).Under (part' pair.1) ∧ (part pair.2).Under (part' pair.2))
    (entries : Table (Value × Value)) :
    (pairs.foldlM (fileBy part) entries).Under (pairs.foldlM (fileBy part') entries) := by
  induction pairs generalizing entries with
  | nil => exact .refl _
  | cons pair rest ih =>
    obtain ⟨⟨key, value⟩, others⟩ := List.forall_mem_cons.mp h
    rw [List.foldlM_cons, List.foldlM_cons]
    exact (fileBy_under key value entries).bind (ih others)

theorem segmentBy_under {e? : Option Expr} (h : ∀ e ∈ e?.toList, (part e).Under (part' e)) :
    (segmentBy part e?).Under (segmentBy part' e?) := by
  cases e? with
  | none => exact .refl _
  | some e => exact (h e (Option.mem_toList.mpr rfl)).bind fun v => .refl _

theorem sliceOf_under (length : Nat) {start stop stride start' stop' stride' : Eval (Option Int64)}
    (hstart : start.Under start') (hstop : stop.Under stop') (hstride : stride.Under stride') :
    (sliceOf length start stop stride).Under (sliceOf length start' stop' stride') := by
  unfold sliceOf
  refine hstart.bind fun start? => (Eval.Under.refl _).bind fun first => hstop.bind fun stop? => ?_
  split
  · exact .refl _
  · exact hstride.bind fun stride? => .refl _

theorem selectBy_under {sub : Subscript} (h : ∀ e ∈ sub.parts, (part e).Under (part' e))
    (length : Nat) : (sub.selectBy part length).Under (sub.selectBy part' length) := by
  cases sub with
  | empty => exact .refl _
  | item index => exact (h index List.mem_cons_self).bind fun v => .refl _
  | slice start stop =>
    obtain ⟨hstart, hstop⟩ := List.forall_mem_append.mp h
    exact sliceOf_under length (segmentBy_under hstart) (segmentBy_under hstop) (.refl _)
  | stepped start stop stride =>
    obtain ⟨h, hstride⟩ := List.forall_mem_append.mp h
    obtain ⟨hstart, hstop⟩ := List.forall_mem_append.mp h
    exact sliceOf_under length (segmentBy_under hstart) (segmentBy_under hstop)
      (segmentBy_under hstride)

theorem keyBy_under {sub : Subscript} (h : ∀ e ∈ sub.parts, (part e).Under (part' e)) :
    (sub.keyBy part).Under (sub.keyBy part') := by
  cases sub with
  | item index => exact h index List.mem_cons_self
  | empty | slice | stepped => exact .refl _

theorem Stmt.evalBy_under {st : Stmt} (h : (part st.value).Under (part' st.value)) :
    (st.evalBy scope part).Under (st.evalBy scope part') := by
  cases st with
  | bind name value => exact Eval.Under.bind h fun v => .refl _
  | ret value => exact Eval.Under.bind h fun v => .refl _
  | expr value => exact h

theorem stmtsBy_under {ss : List Stmt} (h : ∀ st ∈ ss, (part st.value).Under (part' st.value))
    (last : Value) : (stmtsBy scope part ss last).Under (stmtsBy scope part' ss last) := by
  induction ss generalizing last with
  | nil => exact .refl _
  | cons st rest ih =>
    obtain ⟨first, others⟩ := List.forall_mem_cons.mp h
    refine (Stmt.evalBy_under first).bind fun v => ?_
    split
    · exact .refl _
    · exact ih others v

theorem callBy_under {part part' : ScopeId → Expr → Eval Value}
    (h : ∀ scope e, (part scope e).Under (part' scope e)) (f : Closure) (args : List Value) :
    (f.callBy part args).Under (f.callBy part' args) := by
  unfold Closure.callBy Rule.body
  split
  · exact .refl _
  · refine (Eval.Under.refl _).bind fun scope => ?_
    exact (stmtsBy_under (fun st _ => h scope st.value) _).bind fun v => .refl _

/-- The rule of an expression comes under the same rule, if the evaluation of its parts does and
calls do. -/
theorem evalBy_under {host : Host} {call call' : Closure → List Value → Eval Value}
    (calls : ∀ f args, (call f args).Under (call' f args)) {e : Expr}
    (parts : ∀ c ∈ e.operands, (part c).Under (part' c)) :
    (e.evalBy scope part ⟨host, call⟩).Under (e.evalBy scope part' ⟨host, call'⟩) := by
  cases e with
  | ident | int | float | bool | str | fn => exact .refl _
  | array items => exact (mapM_under parts).bind fun vs => .refl _
  | hash pairs =>
    refine (foldlM_under (fun pair mem => ⟨?_, ?_⟩) []).bind fun entries => .refl _
    all_goals
      refine parts _ (List.mem_flatMap.mpr ⟨pair, mem, ?_⟩)
      simp
  | unary op operand => exact (parts operand List.mem_cons_self).bind fun v => .refl _
  | binary op left right =>
    obtain ⟨hleft, hright⟩ := List.forall_mem_cons.mp parts
    refine hleft.bind fun v => (List.forall_mem_singleton.mp hright).bind fun v' => .refl _
  | cond test yes no =>
    obtain ⟨htest, hblocks⟩ := List.forall_mem_cons.mp parts
    obtain ⟨hyes, hno⟩ := List.forall_mem_append.mp hblocks
    refine htest.bind fun v => ?_
    split
    · exact stmtsBy_under (List.forall_mem_map.mp hyes) _
    · exact stmtsBy_under (List.forall_mem_map.mp hno) _
  | call callee args =>
    obtain ⟨hcallee, hargs⟩ := List.forall_mem_cons.mp parts
    refine hcallee.bind fun f => (mapM_under hargs).bind fun vs => ?_
    cases f with
    | function f => exact calls f vs
    | _ => exact .refl _
  | index target sub =>
    obtain ⟨htarget, hsub⟩ := List.forall_mem_cons.mp parts
    refine htarget.bind fun v => ?_
    cases v with
    | array items => exact (selectBy_under hsub _).bind fun selection => .refl _
    | str text => exact (selectBy_under hsub _).bind fun selection => .refl _
    | hash entries => exact (keyBy_under hsub).bind fun key => .refl _
    | _ => exact .refl _

theorem Node.evaluateBy_under {node : Node} (h : ∀ e ∈ node.roots, (part e).Under (part' e)) :
    (node.evaluateBy scope part).Under (node.evaluateBy scope part') := by
  have top : (node.topBy scope part).Under (node.topBy scope part') := by
    cases node with
    | program p => exact stmtsBy_under (List.forall_mem_map.mp h) _
    | block body => exact stmtsBy_under (List.forall_mem_map.mp h) _
    | statement st => exact Stmt.evalBy_under (h st.value List.mem_cons_self)
    | expression e => exact h e List.mem_cons_self
  exact (top.bind fun v => .refl _).caught

end Under

/-! ## Limits and depths -/

section Limits

variable {host : Host}

theorem eval_under {call call' : Closure → List Value → Eval Value}
    (calls : ∀ f args, (call f args).Under (call' f args)) (scope : ScopeId) (e : Expr) :
    (e.eval ⟨host, call⟩ scope).Under (e.eval ⟨host, call'⟩ scope) := by
  induction e using Expr.induction with
  | step e ih =>
    rw [Expr.eval_eq_evalBy, Expr.eval_eq_evalBy]
    exact evalBy_under calls fun c mem => ih c (Expr.mem_children_of_operands mem)

theorem call_succ_eq (limit : Nat) (f : Closure) (args : List Value) :
    call host (limit + 1) f args =
      f.callBy (fun scope e => e.eval (.withLimit host limit) scope) args := by
  simp only [call, Closure.callBy, evalStmts_eq]
  rfl

/-- With a higher limit of nested calls an evaluation runs as before, if it was not exhausted. -/
theorem call_under {limit limit' : Nat} (le : limit ≤ limit') (f : Closure) (args : List Value) :
    (call host limit f args).Under (call host limit' f args) := by
  induction limit generalizing limit' f args with
  | zero => exact .exhaust _
  | succ limit ih =>
    cases limit' with
    | zero => cases le
    | succ limit' =>
      rw [call_succ_eq, call_succ_eq]
      exact callBy_under (eval_under (ih (Nat.le_of_succ_le_succ le))) f args

/-- What an evaluation to a depth comes to is what the evaluation comes to, with functions too: each
nested call has used a level. -/
theorem Expr.evalTo_under (depth : Nat) (scope : ScopeId) (e : Expr) :
    (e.evalTo host depth scope).Under (e.eval (.withLimit host depth) scope) := by
  induction depth generalizing scope e with
  | zero => exact .exhaust _
  | succ depth ih =>
    rw [evalTo, eval_eq_evalBy]
    refine evalBy_under (fun f args => ?_) fun c _ => (ih scope c).trans ?_
    · rw [call_succ_eq]
      exact callBy_under ih f args
    · exact eval_under (call_under (Nat.le_succ depth)) scope c

/-- A tree without calls of functions recurses no deeper than it is high. -/
theorem Expr.eval_under_evalTo {depth : Nat} (scope : ScopeId) {e : Expr} (le : e.height ≤ depth) :
    (e.eval (.withLimit host 0) scope).Under (e.evalTo host depth scope) := by
  induction depth generalizing e with
  | zero => exact absurd e.height_pos (Nat.not_lt_of_le le)
  | succ depth ih =>
    rw [evalTo, eval_eq_evalBy]
    refine evalBy_under (fun f args => .exhaust _) fun c mem => ih ?_
    exact Nat.le_of_lt_succ (Nat.lt_of_lt_of_le (height_lt (mem_children_of_operands mem)) le)

end Limits

/-! ## Trees -/

/-- The height of a tree: that of its highest expression. -/
def Node.height (node : Node) : Nat := (node.roots.map Expr.height).foldr max 0

theorem Node.height_le_iff {node : Node} {n : Nat} :
    node.height ≤ n ↔ ∀ e ∈ node.roots, e.height ≤ n := by
  unfold height
  induction node.roots with
  | nil => simp
  | cons e es ih =>
    rw [List.map_cons, List.foldr_cons, Nat.max_le, ih, List.forall_mem_cons]

section Nodes

variable {host : Host} (scope : ScopeId) (node : Node)

theorem evaluate_under {limit limit' : Nat} (le : limit ≤ limit') :
    (evaluate (.withLimit host limit) scope node).Under
      (evaluate (.withLimit host limit') scope node) := by
  rw [evaluate_eq, evaluate_eq]
  exact Node.evaluateBy_under fun e _ => eval_under (call_under le) scope e

/-- An evaluation to a depth is an evaluation. -/
theorem evaluateTo_under (depth : Nat) :
    (evaluateTo host depth scope node).Under (evaluate (.withLimit host depth) scope node) := by
  rw [evaluate_eq]
  exact Node.evaluateBy_under fun e _ => e.evalTo_under depth scope

/-- Without calls of functions, the height of a tree is depth enough. -/
theorem evaluate_under_evaluateTo {depth : Nat} (le : node.height ≤ depth) :
    (evaluate (.withLimit host 0) scope node).Under (evaluateTo host depth scope node) := by
  rw [evaluate_eq]
  exact Node.evaluateBy_under fun e mem =>
    Expr.eval_under_evalTo scope (Node.height_le_iff.mp le e mem)

end Nodes

end MonkeyLang
