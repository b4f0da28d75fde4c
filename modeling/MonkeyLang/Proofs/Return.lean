import MonkeyLang.Proofs.Reach

/-!
# Values on their way to a call

A `return` wraps its value, and the call or the program that it returns from takes the wrapper off.
A call takes off one wrapper only.  That is enough: a value that is wrapped already is never wrapped
again, so a wrapper is not handed out, and none is left around another one in any scope.

Statements pass a wrapper on, and so do the blocks of conditionals, up to the call or the program.
Nothing behind them is evaluated.  All other expressions do not: where a part of one gives a
wrapper, it is used like any other value.  It is true as a condition, it is handed over as an
argument, and in every other place the wrapper is gone.

## Main definitions

* `Value.Flat`: values that are no wrapper around a wrapper
* `Unwrapped`: runs that hand out no wrapper and leave none around another one
* `Turn`: when the evaluation of an expression comes to one of its parts
* `Used`: what an expression does with a wrapper that one of its parts gives
* `Arrives`: when the evaluation of a block comes to the expression of a statement in it

## Main results

* `evaluate_unwrapped`: no evaluation hands out a wrapper
* `evalStmts_of_arrives`: a block passes on the wrapper of any statement in it
* `returned_part`: what becomes of a wrapper that comes out of an expression
-/

namespace MonkeyLang

/-! ## No wrapper around a wrapper -/

/-- The value is no wrapper around a wrapper. -/
def Value.Flat : Value → Prop
  | returned v => v.isReturned = false
  | _ => True

/-- Without its wrapper a value is no wrapper. -/
theorem Value.Flat.isReturned_unwrap {v : Value} (h : v.Flat) : v.unwrap.isReturned = false := by
  cases v with
  | returned w => exact h
  | _ => rfl

theorem Value.isReturned_of_isScalar {v : Value} (h : v.isScalar) : v.isReturned = false := by
  cases v with
  | returned => cases h
  | _ => rfl

/-- No rule wraps a value that is wrapped already. -/
theorem lasting_flat : Lasting Value.Flat fun _ _ => True where
  scalar {v} h := by
    cases v with
    | returned => cases h
    | _ => trivial
  array := trivial
  hash := trivial
  builtin := trivial
  returned := id
  function_iff := .rfl
  body _ _ _ _ _ _ := trivial

/-- The run hands out no wrapper, and leaves no wrapper around a wrapper behind. -/
structure Unwrapped (scope : ScopeId) (before : Store) (run : Outcome Value × Store) : Prop where
  result : ∀ {v}, run.1 = .done v → v.isReturned = false ∧ v.Every Value.Flat
  scopes : before.Keeps Value.Flat scope run.2

section Boundary

variable (limit : Nat) {scope : ScopeId} {store : Store}

theorem node_unwrapped (flat : ∀ w, store.Holds scope w → w.Flat) (node : Node) :
    Unwrapped scope store (node.eval (.withLimit .standard limit) scope store) := by
  obtain ⟨-, scopes, meets⟩ :=
    node_lasting lasting_flat limit flat node fun _ _ _ _ _ => trivial
  refine ⟨fun done => ?_, scopes⟩
  rw [done] at meets
  obtain ⟨v, every, rfl⟩ := meets
  exact ⟨(every v (.root v)).isReturned_unwrap, every.unwrap⟩

/-- If no wrapper around a wrapper is within reach of a scope, then what an evaluation there hands
out is no wrapper, and neither in it nor in any binding afterwards there is a wrapper around a
wrapper, at any depth. -/
theorem evaluate_unwrapped (flat : ∀ w, store.Holds scope w → w.Flat) (node : Node) :
    Unwrapped scope store (evaluate (.withLimit .standard limit) scope node store) ∧
      ∀ p, Unwrapped scope store (execute (.withLimit .standard limit) scope p store) := by
  have unwrapped := node_unwrapped limit flat node
  refine ⟨⟨fun done => ?_, ?_⟩, fun p => node_unwrapped limit flat (.program p)⟩
  · rcases Eval.caught_done_iff.mp done with done | ⟨f, -, rfl⟩
    · exact unwrapped.result done
    · -- the error of a fault is no wrapper, and nothing lies inside of it
      exact ⟨rfl, Value.every_iff.mpr ⟨trivial, nofun⟩⟩
  · rw [evaluate, Eval.caught_store]
    exact unwrapped.scopes

/-- A scope that binds an array with a wrapper in it. -/
def wrappedItem : Store := ⟨#[⟨[("a", .array [.returned (.int 1)])], none⟩], 0, ""⟩

theorem flat_of_wrappedItem_holds (w : Value) (held : wrappedItem.Holds 0 w) : w.Flat := by
  refine held.of_every fun i s found name v bound => ?_
  have one : (Value.int 1).Every Value.Flat := Value.every_iff.mpr ⟨trivial, nofun⟩
  have wrapped : (Value.returned (.int 1)).Every Value.Flat :=
    Value.every_iff.mpr ⟨rfl, List.forall_mem_singleton.mpr one⟩
  cases i with
  | zero =>
    cases found
    change (if "a" = name then some (Value.array _) else none) = some v at bound
    split at bound
    · cases bound
      exact Value.every_iff.mpr ⟨trivial, List.forall_mem_singleton.mpr wrapped⟩
    · cases bound
  | succ i => cases found

/-- The item of the array is a wrapper, and is handed out without it. -/
theorem evaluate_unwrapped_item :
    let machine := Machine.withLimit .standard 0
    let node := Node.expression (.index (.ident "a") (.item (.int 0)))
    (∀ w, wrappedItem.Holds 0 w → w.Flat) ∧
      Unwrapped 0 wrappedItem (evaluate machine 0 node wrappedItem) ∧
      ∀ p, Unwrapped 0 wrappedItem (execute machine 0 p wrappedItem) :=
  ⟨flat_of_wrappedItem_holds, evaluate_unwrapped 0 flat_of_wrappedItem_holds _⟩

end Boundary

/-! ## Where a wrapper goes -/

/-- The start, the stop and the stride of a slice, as far as they are written. -/
def Subscript.slice? : Subscript → Option (Option Expr × Option Expr × Option Expr)
  | slice start stop => some (start, stop, none)
  | stepped start stop stride => some (start, stop, stride)
  | _ => none

/-- The number of items, if the value is a sequence. -/
def Value.length? : Value → Option Nat
  | array items => some items.length
  | str text => some text.toList.length
  | _ => none

/-- The evaluation of `whole` from a store comes to the evaluation of its part `e` from another
store, in the same scope. -/
inductive Turn (m : Machine) (scope : ScopeId) :
    (whole : Expr) → Store → (e : Expr) → Store → Prop where
  | operand {op e s} : Turn m scope (.unary op e) s e s
  | left {op e right s} : Turn m scope (.binary op e right) s e s
  | right {op left e s s' a} (hleft : left.eval m scope s = (.done a, s')) :
      Turn m scope (.binary op left e) s e s'
  | test {e yes no s} : Turn m scope (.cond e yes no) s e s
  | callee {e args s} : Turn m scope (.call e args) s e s
  | arg {callee before e after s s' s'' f vs}
      (hcallee : callee.eval m scope s = (.done f, s'))
      (hbefore : evalAll m scope before s' = (.done vs, s'')) :
      Turn m scope (.call callee (before ++ e :: after)) s e s''
  | item {before e after s s' vs} (hbefore : evalAll m scope before s = (.done vs, s')) :
      Turn m scope (.array (before ++ e :: after)) s e s'
  /-- A bare name as a key is not evaluated. -/
  | key {before e value after s s' entries}
      (hbefore : evalPairs m scope before [] s = (.done entries, s'))
      (evaluated : bareKey? e = none) :
      Turn m scope (.hash (before ++ (e, value) :: after)) s e s'
  | value {before key e after s s' s'' entries k}
      (hbefore : evalPairs m scope before [] s = (.done entries, s'))
      (hkey : bareKey? key = none ∧ key.eval m scope s' = (.done k, s'') ∧ k.hashKey?.isSome ∨
        (bareKey? key).isSome ∧ s'' = s') :
      Turn m scope (.hash (before ++ (key, e) :: after)) s e s''
  | target {e sub s} : Turn m scope (.index e sub) s e s
  | index {target e s s' v n} (htarget : target.eval m scope s = (.done v, s'))
      (sequence : v.length? = some n) : Turn m scope (.index target (.item e)) s e s'
  | lookup {target e s s' entries} (htarget : target.eval m scope s = (.done (.hash entries), s')) :
      Turn m scope (.index target (.item e)) s e s'
  | start {target sub e stop stride s s' v n} (htarget : target.eval m scope s = (.done v, s'))
      (sequence : v.length? = some n) (written : sub.slice? = some (some e, stop, stride)) :
      Turn m scope (.index target sub) s e s'
  | stop {target sub start e stride s s' s₁ s₂ v n start? first}
      (htarget : target.eval m scope s = (.done v, s'))
      (sequence : v.length? = some n) (written : sub.slice? = some (start, some e, stride))
      (hstart : evalSegment m scope start s' = (.done start?, s₁))
      (hfirst : startOf n start? s₁ = (.done first, s₂)) :
      Turn m scope (.index target sub) s e s₂
  /-- A stop before the sequence ends the slice, and the stride is not evaluated. -/
  | stride {target sub start stop e s s' s₁ s₂ s₃ v n start? first stop? last}
      (htarget : target.eval m scope s = (.done v, s'))
      (sequence : v.length? = some n) (written : sub.slice? = some (start, stop, some e))
      (hstart : evalSegment m scope start s' = (.done start?, s₁))
      (hfirst : startOf n start? s₁ = (.done first, s₂))
      (hstop : evalSegment m scope stop s₂ = (.done stop?, s₃))
      (hlast : stopOf n stop? = some last) :
      Turn m scope (.index target sub) s e s₃

/-- The run of `whole` from the store `s`, if the part `e` that it comes to in the store `s'` gives
a wrapper around `v` and leaves the store `s''`. -/
inductive Used (m : Machine) (scope : ScopeId) (s s' s'' : Store) (e : Expr) (v : Value) :
    (whole : Expr) → (run : Outcome Value × Store) → Prop where
  /-- As a condition the wrapper is true. -/
  | test {yes no} : Used m scope s s' s'' e v (.cond e yes no) (evalStmts m scope yes .null s'')
  /-- As an argument it is handed over. -/
  | arg {callee before after s₁ f} {vs : List Value}
      (hcallee : callee.eval m scope s = (.done f, s₁))
      (hbefore : evalAll m scope before s₁ = (.done vs, s')) :
      Used m scope s s' s'' e v (.call callee (before ++ e :: after)) ((do
        let vs' ← evalAll m scope after
        m.apply f (vs ++ Value.returned v :: vs')) s'')
  /-- In any other place it is gone. -/
  | lost {whole run} (untested : ∀ yes no, whole ≠ .cond e yes no)
      (kept : ∀ callee before after s₁ f vs, callee.eval m scope s = (.done f, s₁) →
        evalAll m scope before s₁ = (.done vs, s') → whole ≠ .call callee (before ++ e :: after))
      (h : ∀ w, run.1 ≠ .done (.returned w)) : Used m scope s s' s'' e v whole run

/-- The evaluation of a block from a store comes to the evaluation of `e` from another store.  There
`e` is all of a statement, in the block itself or in a block of a conditional that is all of a
statement, at any depth. -/
inductive Arrives (m : Machine) (scope : ScopeId) :
    (body : List Stmt) → Store → (e : Expr) → Store → Prop where
  | here {st rest s} : Arrives m scope (st :: rest) s st.value s
  | behind {st rest e s s' s'' v} (hst : st.eval m scope s = (.done v, s'))
      (onward : v.isReturned = false) (arrives : Arrives m scope rest s' e s'') :
      Arrives m scope (st :: rest) s e s''
  | yes {st rest test yes no e s s' s'' v} (hst : st.value = .cond test yes no)
      (htest : test.eval m scope s = (.done v, s')) (truthy : v.isTruthy)
      (arrives : Arrives m scope yes s' e s'') : Arrives m scope (st :: rest) s e s''
  | no {st rest test yes no e s s' s'' v} (hst : st.value = .cond test yes (some no))
      (htest : test.eval m scope s = (.done v, s')) (falsy : v.isTruthy = false)
      (arrives : Arrives m scope no s' e s'') : Arrives m scope (st :: rest) s e s''

section Parts

variable {m : Machine} {scope : ScopeId} {e : Expr} {s s' s'' : Store} {v : Value}

theorem evalAll_append (es es' : List Expr) :
    evalAll m scope (es ++ es') = do
      let values ← evalAll m scope es
      let values' ← evalAll m scope es'
      return values ++ values' := by
  induction es with
  | nil => simp [evalAll]
  | cons e es ih => simp [evalAll, ih]

theorem Subscript.select_of_slice? {sub : Subscript} {start stop stride : Option Expr}
    (h : sub.slice? = some (start, stop, stride)) (n : Nat) :
    sub.select m scope n = sliceOf n (evalSegment m scope start) (evalSegment m scope stop)
      (evalSegment m scope stride) := by
  cases sub with
  | empty | item => cases h
  | slice start stop =>
    cases h
    rw [Subscript.select, evalSegment.eq_1]
  | stepped start stop stride =>
    cases h
    rw [Subscript.select]

/-- No run of the evaluation is done with a wrapper. -/
abbrev Eval.Opens (e : Eval Value) : Prop :=
  e.Keeps (fun _ => True) True fun v => v.isReturned = false

theorem Eval.Keeps.of_any {α : Type} (e : Eval α) : e.Keeps (fun _ => True) True fun _ => True := by
  intro store _
  refine ⟨trivial, ?_⟩
  cases (e store).1
  all_goals trivial

theorem Eval.Opens.ne_returned {e : Eval Value} (h : e.Opens) (s : Store) (w : Value) :
    (e s).1 ≠ .done (.returned w) := by
  intro done
  have meets := (h s trivial).2
  rw [done] at meets
  cases meets

namespace Expr

theorem opens_unary (op : UnaryOp) (e : Expr) : ((unary op e).eval m scope).Opens := by
  rw [eval]
  refine (Eval.Keeps.of_any _).bind fun v _ => .lift fun w result => ?_
  exact Value.isReturned_of_isScalar (UnaryOp.isScalar_of_apply result)

theorem opens_binary (op : BinaryOp) (left right : Expr) :
    ((binary op left right).eval m scope).Opens := by
  rw [eval]
  refine (Eval.Keeps.of_any _).bind fun v _ => (Eval.Keeps.of_any _).bind fun v' _ => ?_
  refine .lift fun w result => ?_
  exact Value.isReturned_of_isScalar (BinaryOp.isScalar_of_apply result)

theorem opens_array (items : List Expr) : ((array items).eval m scope).Opens := by
  rw [eval]
  exact (Eval.Keeps.of_any _).bind fun vs _ => .pure rfl

theorem opens_hash (pairs : List (Expr × Expr)) : ((hash pairs).eval m scope).Opens := by
  rw [eval]
  exact (Eval.Keeps.of_any _).bind fun entries _ => .pure rfl

/-- If a segment fails, so does the subscript. -/
theorem index_eval_of_select {target : Expr} {sub : Subscript} {n : Nat} {f : Fault}
    (htarget : target.eval m scope s = (.done v, s')) (sequence : v.length? = some n)
    (fault : sub.select m scope n s' = (.fault f, s'')) :
    (index target sub).eval m scope s = (.fault f, s'') := by
  rw [eval, Rule.index, Eval.bind_of_done htarget]
  cases v with
  | array items =>
    cases sequence
    exact Eval.bind_of_fault fault _
  | str text =>
    cases sequence
    exact Eval.bind_of_fault fault _
  | _ => cases sequence

end Expr

/-- A wrapper is no integer. -/
theorem evalSegment_of_returned (returned : e.eval m scope s = (.done (.returned v), s')) :
    evalSegment m scope (some e) s = (.fault (.indexNotInteger .returned), s') := by
  rw [evalSegment, Rule.segment, Eval.bind_of_done returned]
  rfl

/-- A wrapper in a subscript is a fault. -/
theorem Turn.index_eval_of_returned {target : Expr} {sub : Subscript}
    (turn : Turn m scope (.index target sub) s e s')
    (returned : e.eval m scope s' = (.done (.returned v), s'')) :
    ∃ f, (Expr.index target sub).eval m scope s = (.fault f, s'') := by
  cases turn with
  | target =>
    refine ⟨.indexNotSupported .returned, ?_⟩
    rw [Expr.eval, Rule.index, Eval.bind_of_done returned]
    rfl
  | index htarget sequence =>
    refine ⟨.indexNotInteger .returned, Expr.index_eval_of_select htarget sequence ?_⟩
    rw [Subscript.select, Rule.item, Eval.bind_of_done returned]
    rfl
  | lookup htarget =>
    refine ⟨.keyNotHashable .returned, ?_⟩
    rw [Expr.eval, Rule.index, Eval.bind_of_done htarget]
    show (Subscript.evalKey m scope (.item e) >>= _) s' = _
    rw [Subscript.evalKey, Eval.bind_of_done returned]
    rfl
  | start htarget sequence written =>
    refine ⟨.indexNotInteger .returned, Expr.index_eval_of_select htarget sequence ?_⟩
    rw [Subscript.select_of_slice? written, sliceOf]
    exact Eval.bind_of_fault (evalSegment_of_returned returned) _
  | stop htarget sequence written hstart hfirst =>
    refine ⟨.indexNotInteger .returned, Expr.index_eval_of_select htarget sequence ?_⟩
    rw [Subscript.select_of_slice? written, sliceOf, Eval.bind_of_done hstart,
      Eval.bind_of_done hfirst]
    exact Eval.bind_of_fault (evalSegment_of_returned returned) _
  | stride htarget sequence written hstart hfirst hstop hlast =>
    refine ⟨.indexNotInteger .returned, Expr.index_eval_of_select htarget sequence ?_⟩
    rw [Subscript.select_of_slice? written, sliceOf, Eval.bind_of_done hstart,
      Eval.bind_of_done hfirst, Eval.bind_of_done hstop, hlast]
    exact Eval.bind_of_fault (evalSegment_of_returned returned) _

/-- A wrapper that is an argument is handed over. -/
theorem call_eval_of_returned {callee : Expr} {before after : List Expr} {s₁ : Store} {f : Value}
    {vs : List Value} (hcallee : callee.eval m scope s = (.done f, s₁))
    (hbefore : evalAll m scope before s₁ = (.done vs, s'))
    (returned : e.eval m scope s' = (.done (.returned v), s'')) :
    (Expr.call callee (before ++ e :: after)).eval m scope s = (do
      let vs' ← evalAll m scope after
      m.apply f (vs ++ Value.returned v :: vs')) s'' := by
  rw [Expr.eval, Rule.call, Eval.bind_of_done hcallee, evalAll_append]
  simp only [evalAll, bind_assoc, pure_bind]
  rw [Eval.bind_of_done hbefore, Eval.bind_of_done returned]

/-- What the parts of an expression give is used like any other value. -/
theorem Turn.used {whole : Expr} (turn : Turn m scope whole s e s')
    (returned : e.eval m scope s' = (.done (.returned v), s'')) :
    Used m scope s s' s'' e v whole (whole.eval m scope s) := by
  by_cases tested : ∃ yes no, whole = .cond e yes no
  · obtain ⟨yes, no, rfl⟩ := tested
    cases turn
    rw [Expr.eval, Rule.cond, Eval.bind_of_done returned]
    exact .test
  by_cases handed : ∃ callee before after s₁ f vs, callee.eval m scope s = (.done f, s₁) ∧
      evalAll m scope before s₁ = (.done vs, s') ∧ whole = .call callee (before ++ e :: after)
  · obtain ⟨callee, before, after, s₁, f, vs, hcallee, hbefore, rfl⟩ := handed
    rw [call_eval_of_returned hcallee hbefore returned]
    exact .arg hcallee hbefore
  have lost (gone : ∀ w, (whole.eval m scope s).1 ≠ .done (.returned w)) :
      Used m scope s s' s'' e v whole (whole.eval m scope s) := by
    refine .lost (fun yes no eq => tested ⟨yes, no, eq⟩) ?_ gone
    intro callee before after s₁ f vs hcallee hbefore eq
    exact handed ⟨callee, before, after, s₁, f, vs, hcallee, hbefore, eq⟩
  cases whole with
  | unary op e => exact lost ((Expr.opens_unary op e).ne_returned s)
  | binary op left right => exact lost ((Expr.opens_binary op left right).ne_returned s)
  | array items => exact lost ((Expr.opens_array items).ne_returned s)
  | hash pairs => exact lost ((Expr.opens_hash pairs).ne_returned s)
  | index target sub =>
    obtain ⟨f, fault⟩ := turn.index_eval_of_returned returned
    refine lost fun w gives => ?_
    rw [fault] at gives
    cases gives
  | cond test yes no =>
    cases turn
    exact absurd ⟨yes, no, rfl⟩ tested
  | call callee args =>
    generalize whole : Expr.call callee args = e' at turn
    cases turn with
    | callee =>
      cases whole
      have opens : Eval.Opens (evalAll m scope args >>= m.apply (.returned v)) :=
        (Eval.Keeps.of_any _).bind fun vs _ => .fail
      refine lost fun w => ?_
      rw [Expr.eval, Rule.call, Eval.bind_of_done returned]
      exact opens.ne_returned s'' w
    | arg hcallee hbefore =>
      cases whole
      exact absurd ⟨_, _, _, _, _, _, hcallee, hbefore, rfl⟩ handed
    | _ => cases whole
  | _ => cases turn

/-- A statement passes a wrapper on, and the statements behind it are not evaluated. -/
theorem evalStmts_of_returned {st : Stmt}
    (returned : st.value.eval m scope s = (.done (.returned v), s')) (rest : List Stmt)
    (last : Value) : evalStmts m scope (st :: rest) last s = (.done (.returned v), s') := by
  have passed : st.eval m scope s = (.done (.returned v), s') := by
    cases st with
    | bind | ret =>
      rw [Stmt.eval]
      exact Eval.bind_of_done returned _
    | expr =>
      rw [Stmt.eval]
      exact returned
  rw [evalStmts]
  exact Eval.bind_of_done passed _

/-- The wrapper gets out of all blocks around the statement. -/
theorem evalStmts_of_arrives {body : List Stmt} (arrives : Arrives m scope body s e s')
    (returned : e.eval m scope s' = (.done (.returned v), s'')) (last : Value) :
    evalStmts m scope body last s = (.done (.returned v), s'') := by
  induction arrives generalizing last with
  | here => exact evalStmts_of_returned returned _ last
  | behind hst onward _ ih =>
    rw [evalStmts, Rule.behind, Eval.bind_of_done hst, if_neg (Bool.eq_false_iff.mp onward)]
    exact ih returned _
  | yes hst htest truthy _ ih =>
    refine evalStmts_of_returned ?_ _ last
    rw [hst, Expr.eval, Rule.cond, Eval.bind_of_done htest, if_pos truthy]
    exact ih returned .null
  | no hst htest falsy _ ih =>
    refine evalStmts_of_returned ?_ _ last
    rw [hst, Expr.eval, Rule.cond, Eval.bind_of_done htest, if_neg (Bool.eq_false_iff.mp falsy),
      evalElse]
    exact ih returned .null

theorem call_of_arrives {host : Host} {limit : Nat} {f : Closure} {args : List Value} {s₀ : Store}
    (count : f.params.length = args.length)
    (entered : Eval.enter f.scope (f.params.zip args) s₀ = (.done scope, s))
    (arrives : Arrives (.withLimit host limit) scope f.body s e s')
    (returned : e.eval (.withLimit host limit) scope s' = (.done (.returned v), s'')) :
    call host (limit + 1) f args s₀ = (.done v, s'') := by
  rw [call, Rule.body, if_neg (not_not_intro count), Eval.bind_of_done entered]
  exact Eval.bind_of_done (evalStmts_of_arrives arrives returned .null) _

/-- What becomes of a wrapper that comes out of an expression.  If the expression is all of a
statement, then the wrapper gets out of all blocks, and the program or the call ends at once with
the value.  If it is a part of another expression, there are three cases: as a condition the wrapper
counts as true, as an argument it is handed over, and anywhere else the whole expression does not
give a wrapper. -/
theorem returned_part {host : Host} {limit : Nat}
    (returned : e.eval (.withLimit host limit) scope s' = (.done (.returned v), s'')) :
    (∀ p s, Arrives (.withLimit host limit) scope p.statements s e s' →
      execute (.withLimit host limit) scope p s = (.done v, s'')) ∧
    (∀ f args s s₀, f.params.length = args.length →
      Eval.enter f.scope (f.params.zip args) s₀ = (.done scope, s) →
      Arrives (.withLimit host limit) scope f.body s e s' →
      call host (limit + 1) f args s₀ = (.done v, s'')) ∧
    ∀ whole s, Turn (.withLimit host limit) scope whole s e s' →
      Used (.withLimit host limit) scope s s' s'' e v whole
        (whole.eval (.withLimit host limit) scope s) := by
  refine ⟨fun p s arrives => ?_, fun f args s s₀ count entered arrives => ?_,
    fun whole s turn => turn.used returned⟩
  · exact Eval.bind_of_done (evalStmts_of_arrives arrives returned .null) _
  · exact call_of_arrives count entered arrives returned

end Parts

/-- A conditional that returns two. -/
def returning : Expr := .cond (.bool true) [.ret (.int 2)] none

/-- A binding of a value that is being returned ends the program, and the name behind it is not
looked up. -/
theorem returned_part_of_bind :
    let machine := Machine.withLimit .standard 0
    let store := (Store.empty.enclose none).2
    let bind := Stmt.bind "x" returning
    let program := Program.mk [.expr (.cond (.bool true) [bind, .expr (.ident "y")] none)]
    returning.eval machine 0 store = (.done (.returned (.int 2)), store) ∧
      Arrives machine 0 program.statements store returning store ∧
      execute machine 0 program store = (.done (.int 2), store) := by
  intro machine store bind program
  have arrives : Arrives machine 0 program.statements store returning store :=
    .yes rfl rfl rfl .here
  exact ⟨rfl, arrives, (returned_part rfl).1 program store arrives⟩

/-- The sum of one and a `return` is a fault, and so is a program that consists of it: the `return`
does not get out of the sum. -/
theorem sum_of_returning :
    let machine := Machine.withLimit .standard 0
    let store := (Store.empty.enclose none).2
    let sum := Expr.binary .add (.int 1) returning
    let fault := Fault.unknownBinary .int .add .returned
    Turn machine 0 sum store returning store ∧
      returning.eval machine 0 store = (.done (.returned (.int 2)), store) ∧
      sum.eval machine 0 store = (.fault fault, store) ∧
      execute machine 0 ⟨[.expr sum]⟩ store = (.fault fault, store) :=
  ⟨.right rfl, rfl, rfl, rfl⟩

end MonkeyLang
