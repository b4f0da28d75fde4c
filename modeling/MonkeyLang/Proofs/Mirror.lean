import MonkeyLang.Proofs.Invariant

/-!
# Runs in two stores

Two stores can differ in a way that evaluation does not notice: the one is the image of the other,
the names that are looked up have the same values in both, and every elementary evaluation leads
from image to image.  Then a run in the image goes as the run in the store itself: it ends with the
same result, with the same fault or at the limit as well, and in the image of the store where the
other one ends.

The two runs are followed in step, by induction over expressions and over the limit of nested calls.
What holds of the values and the scopes on the way is the matter of an invariant of one run.

## Main definitions

* `Eval.Mirrors`: an evaluation that goes in the images as it goes in the stores
* `Mirror`: a map of stores that evaluation does not notice, beside an invariant

## Main results

* `Mirror.eval_mirrors`: expressions, if calls do not notice the map
* `Mirror.call_mirrors`: calls, with any limit
* `Mirror.node_mirrors`: all trees
-/

namespace MonkeyLang

namespace Eval

variable {α β : Type} {I : Store → Prop} {X : Prop} {image : Store → Store}

/-- The evaluation goes in the image of a store with `I` as it goes in the store itself, and ends in
the image of the store where it ends there. -/
def Mirrors (I : Store → Prop) (image : Store → Store) (e : Eval α) : Prop :=
  ∀ s, I s → e (image s) = ((e s).1, image (e s).2)

/-- The evaluation respects an invariant and does not notice the map of stores. -/
structure Twins (I : Store → Prop) (X : Prop) (image : Store → Store) (e : Eval α) (Q : α → Prop) :
    Prop where
  keeps : e.Keeps I X Q
  mirrors : e.Mirrors I image

namespace Mirrors

theorem pure (a : α) : Mirrors I image (Pure.pure a : Eval α) := fun _ _ => rfl

theorem fail (fault : Fault) : Mirrors I image (Eval.fail fault : Eval α) := fun _ _ => rfl

theorem exhaust : Mirrors I image (Eval.exhaust : Eval α) := fun _ _ => rfl

theorem lift (r : Except Fault α) : Mirrors I image (Eval.lift r) := by
  cases r with
  | ok a => exact .pure a
  | error fault => exact .fail fault

/-- Catching faults adds nothing to notice. -/
theorem caught {e : Eval Value} (h : Mirrors I image e) : Mirrors I image (Eval.caught e) := by
  intro s start
  unfold Eval.caught
  rw [h s start]
  rcases e s with ⟨_ | _ | _, _⟩
  all_goals rfl

end Mirrors

namespace Twins

variable {e : Eval α} {f : α → Eval β} {Q : α → Prop}

/-- The second evaluation starts where the first one is done, in both runs with the same result. -/
theorem bind (first : Twins I X image e Q) (second : ∀ a, Q a → Mirrors I image (f a)) :
    Mirrors I image (e >>= f) := by
  intro s start
  have run (s : Store) : (e >>= f) s = Eval.andThen e f s := rfl
  obtain ⟨keeps, meets⟩ := first.keeps s start
  have mirrored := first.mirrors s start
  rw [run, run, Eval.andThen, Eval.andThen, mirrored]
  rcases ended : e s with ⟨outcome, s'⟩
  rw [ended] at keeps meets
  cases outcome with
  | done a => exact second a meets s' keeps
  | fault => rfl
  | exhausted => rfl

end Twins

end Eval

/-- A map of stores that evaluation does not notice, as long as only some names are looked up. -/
structure Mirror {host : Host} (inv : Invariant host) where
  /-- The store that a store is mapped to. -/
  image : Store → Store
  /-- The names that are looked up. -/
  reads : String → Prop
  lookup {s : Store} {i : ScopeId} {name : String} : reads name →
    (image s).lookup i name = s.lookup i name
  bind {s : Store} {i : ScopeId} {name : String} {v : Value} : inv.store s → inv.target i name →
    (image s).bind i name v = image (s.bind i name v)
  enclose {s : Store} {parent : Option ScopeId} : inv.store s →
    (image s).enclose parent = ((s.enclose parent).1, image (s.enclose parent).2)
  functions {s : Store} : (image s).functions = s.functions
  make {s : Store} : { image s with functions := s.functions + 1 } =
    image { s with functions := s.functions + 1 }
  answer {b : Builtin} {args : List Value} : (host.answer b args).Mirrors inv.store image
  /-- The names in the body of a function are looked up when it is called. -/
  body {f : Closure} : inv.value (.function f) → ∀ st ∈ f.body, ∀ name,
    st.value.Shares (.ident name) → reads name

namespace Mirror

variable {host : Host} {inv : Invariant host} (mirror : Mirror inv) {i : ScopeId}

/-- The evaluation does not notice the map. -/
abbrev Mirrors {α : Type} (e : Eval α) : Prop := e.Mirrors inv.store mirror.image

/-- The evaluation respects the invariant and does not notice the map. -/
abbrev Twins {α : Type} (e : Eval α) (Q : α → Prop) : Prop :=
  e.Twins inv.store inv.limit mirror.image Q

/-- The expression looks up nothing but names of the mirror. -/
def Admits (e : Expr) : Prop := ∀ name, e.Shares (.ident name) → mirror.reads name

variable {mirror}

theorem Admits.operand {e c : Expr} (h : mirror.Admits e) (mem : c ∈ e.operands) :
    mirror.Admits c := fun name shares => h name (.inside mem shares)

/-! ## Rules -/

theorem enter_mirrors {f : Closure} (hf : inv.value (.function f))
    {bindings : List (String × Value)} (values : ∀ b ∈ bindings, inv.value b.2) :
    mirror.Mirrors (Eval.enter f.scope bindings) := by
  intro s start
  obtain ⟨keeps, -, free⟩ := inv.enclose start hf
  have entered : (mirror.image s).enclose (some f.scope) =
      (s.scopes.size, mirror.image (s.enclose (some f.scope)).2) := mirror.enclose start
  have run : Eval.enter f.scope bindings (mirror.image s) =
      (.done s.scopes.size, (mirror.image (s.enclose (some f.scope)).2).bindAll s.scopes.size
        bindings) := by
    rw [Eval.enter, entered]
  have run' : Eval.enter f.scope bindings s =
      (.done s.scopes.size, (s.enclose (some f.scope)).2.bindAll s.scopes.size bindings) := rfl
  rw [run, run', Prod.mk.injEq]
  refine ⟨rfl, ?_⟩
  -- the parameters are bound in step, one after the other
  generalize (s.enclose (some f.scope)).2 = s' at keeps
  clear run run' entered
  induction bindings generalizing s' with
  | nil => rfl
  | cons b rest ih =>
    have bound : inv.store (s'.bind s.scopes.size b.1 b.2) :=
      inv.bind keeps (free b.1) (values b List.mem_cons_self)
    rw [Store.bindAll, Store.bindAll, mirror.bind keeps (free b.1)]
    exact ih (fun b' mem => values b' (List.mem_cons_of_mem b mem)) _ bound

theorem hashKeyOf_twins (key : Value) : mirror.Twins (hashKeyOf key) fun _ => True where
  keeps := Invariant.hashKeyOf_keeps key
  mirrors := by
    unfold hashKeyOf
    split
    · exact .pure _
    · exact .fail _

theorem integerOf_twins (v : Value) : mirror.Twins (integerOf v) fun _ => True where
  keeps := Invariant.integerOf_keeps v
  mirrors := by
    unfold integerOf
    split
    · exact .pure _
    · exact .fail _

theorem lift_twins {α : Type} (r : Except Fault α) : mirror.Twins (Eval.lift r) fun _ => True where
  keeps := .lift fun _ _ => trivial
  mirrors := .lift r

theorem startOf_twins (length : Nat) (index? : Option Int64) :
    mirror.Twins (startOf length index?) fun _ => True where
  keeps := Invariant.startOf_keeps length index?
  mirrors := by
    cases index? with
    | none => exact .pure none
    | some index => exact (lift_twins _).bind fun _ _ => .pure _

theorem sliceOf_mirrors (length : Nat) {start stop stride : Eval (Option Int64)}
    (hstart : mirror.Twins start fun _ => True) (hstop : mirror.Twins stop fun _ => True)
    (hstride : mirror.Twins stride fun _ => True) :
    mirror.Mirrors (sliceOf length start stop stride) := by
  unfold sliceOf
  refine hstart.bind fun start? _ => (startOf_twins length start?).bind fun first _ => ?_
  refine hstop.bind fun stop? _ => ?_
  split
  · exact .pure _
  · refine hstride.bind fun stride? _ => ?_
    split
    · exact .fail _
    · exact .pure _

section Rules

variable {m : Machine}

/-- The expression respects the invariant in the scope and does not notice the map. -/
abbrev Evaluates (mirror : Mirror inv) (m : Machine) (i : ScopeId) (e : Expr) : Prop :=
  mirror.Twins (e.eval m i) inv.value

theorem evalAll_twins {es : List Expr} (h : ∀ e ∈ es, mirror.Evaluates m i e) :
    mirror.Twins (evalAll m i es) fun vs => ∀ v ∈ vs, inv.value v where
  keeps := Invariant.evalAll_keeps fun e mem => (h e mem).keeps
  mirrors := by
    induction es with
    | nil =>
      rw [evalAll]
      exact .pure []
    | cons e es ih =>
      obtain ⟨first, others⟩ := List.forall_mem_cons.mp h
      have rest : mirror.Twins (evalAll m i es) fun vs => ∀ v ∈ vs, inv.value v :=
        ⟨Invariant.evalAll_keeps fun e mem => (others e mem).keeps, ih others⟩
      rw [evalAll]
      exact first.bind fun v _ => rest.bind fun vs _ => .pure _

theorem file_twins {bare? : Option String} {key value : Eval Value}
    (hkey : mirror.Twins key inv.value) (hvalue : mirror.Twins value inv.value)
    {entries : Table (Value × Value)} (filed : inv.Entries entries) :
    mirror.Twins (Rule.file bare? key value entries) inv.Entries where
  keeps := Invariant.file_keeps hkey.keeps hvalue.keeps filed
  mirrors := by
    unfold Rule.file
    refine Eval.Twins.bind (X := inv.limit) (Q := inv.value) ⟨?_, ?_⟩ fun k _ => ?_
    -- a bare name is a key without being looked up
    · split
      · exact .pure (inv.scalar rfl)
      · exact hkey.keeps
    · split
      · exact .pure _
      · exact hkey.mirrors
    · exact (hashKeyOf_twins k).bind fun hashKey _ => hvalue.bind fun v _ => .pure _

theorem evalPairs_twins {pairs : List (Expr × Expr)}
    (h : ∀ pair ∈ pairs, mirror.Evaluates m i pair.1 ∧ mirror.Evaluates m i pair.2)
    {entries : Table (Value × Value)} (filed : inv.Entries entries) :
    mirror.Twins (evalPairs m i pairs entries) inv.Entries where
  keeps := Invariant.evalPairs_keeps (fun p mem => ⟨(h p mem).1.keeps, (h p mem).2.keeps⟩) filed
  mirrors := by
    induction pairs generalizing entries with
    | nil =>
      rw [evalPairs]
      exact .pure entries
    | cons pair rest ih =>
      obtain ⟨⟨key, value⟩, others⟩ := List.forall_mem_cons.mp h
      rw [evalPairs]
      exact (file_twins key value filed).bind fun entries filed => ih others filed

theorem evalSegment_twins {e? : Option Expr} (h : ∀ e ∈ e?.toList, mirror.Evaluates m i e) :
    mirror.Twins (evalSegment m i e?) fun _ => True where
  keeps := Invariant.evalSegment_keeps fun e mem => (h e mem).keeps
  mirrors := by
    cases e? with
    | none =>
      rw [evalSegment]
      exact .pure none
    | some e =>
      rw [evalSegment]
      refine (h e (Option.mem_toList.mpr rfl)).bind fun v _ => ?_
      exact (integerOf_twins v).bind fun n _ => .pure _

theorem select_twins {sub : Subscript} (h : ∀ e ∈ sub.parts, mirror.Evaluates m i e)
    (length : Nat) : mirror.Twins (sub.select m i length) fun _ => True where
  keeps := Invariant.select_keeps (fun e mem => (h e mem).keeps) length
  mirrors := by
    cases sub with
    | empty =>
      rw [Subscript.select]
      exact .fail _
    | item index =>
      rw [Subscript.select]
      refine (h index List.mem_cons_self).bind fun v _ => (integerOf_twins v).bind fun n _ => ?_
      exact (lift_twins _).bind fun _ _ => .pure _
    | slice start stop =>
      obtain ⟨hstart, hstop⟩ := List.forall_mem_append.mp h
      rw [Subscript.select]
      exact sliceOf_mirrors length (evalSegment_twins hstart) (evalSegment_twins hstop)
        ⟨.pure trivial, .pure none⟩
    | stepped start stop stride =>
      obtain ⟨h, hstride⟩ := List.forall_mem_append.mp h
      obtain ⟨hstart, hstop⟩ := List.forall_mem_append.mp h
      rw [Subscript.select]
      exact sliceOf_mirrors length (evalSegment_twins hstart) (evalSegment_twins hstop)
        (evalSegment_twins hstride)

theorem evalKey_twins {sub : Subscript} (h : ∀ e ∈ sub.parts, mirror.Evaluates m i e) :
    mirror.Twins (sub.evalKey m i) inv.value where
  keeps := Invariant.evalKey_keeps fun e mem => (h e mem).keeps
  mirrors := by
    cases sub with
    | item index =>
      rw [Subscript.evalKey]
      exact (h index List.mem_cons_self).mirrors
    | empty | slice | stepped =>
      rw [Subscript.evalKey]
      exact .fail _

theorem bindName_twins {name : String} {v : Value} (target : inv.target i name)
    (hv : inv.value v) : mirror.Twins (Eval.bindName i name v) fun _ => True where
  keeps := fun _ start => ⟨inv.bind start target hv, trivial⟩
  mirrors := fun _ start => Prod.ext rfl (mirror.bind start target)

theorem stmt_twins {st : Stmt} (h : mirror.Evaluates m i st.value)
    (target : ∀ {name value}, st = .bind name value → inv.target i name) :
    mirror.Twins (st.eval m i) inv.value where
  keeps := Invariant.stmt_keeps h.keeps target
  mirrors := by
    cases st with
    | bind name value =>
      rw [Stmt.eval]
      refine Eval.Twins.bind h fun v hv => ?_
      split
      · exact .pure v
      · exact (bindName_twins (target rfl) hv).bind fun _ _ => .pure _
    | ret value =>
      rw [Stmt.eval]
      exact Eval.Twins.bind h fun v _ => .pure _
    | expr value =>
      rw [Stmt.eval]
      exact h.mirrors

theorem evalStmts_twins {ss : List Stmt} (h : ∀ st ∈ ss, mirror.Evaluates m i st.value)
    (target : ∀ {name value}, .bind name value ∈ ss → inv.target i name) {last : Value}
    (hlast : inv.value last) : mirror.Twins (evalStmts m i ss last) inv.value where
  keeps := Invariant.evalStmts_keeps (fun st mem => (h st mem).keeps) target hlast
  mirrors := by
    induction ss generalizing last with
    | nil =>
      rw [evalStmts]
      exact .pure last
    | cons st rest ih =>
      obtain ⟨first, others⟩ := List.forall_mem_cons.mp h
      have hfirst : mirror.Twins (st.eval m i) inv.value := by
        refine stmt_twins first ?_
        rintro name value rfl
        exact target List.mem_cons_self
      rw [evalStmts]
      refine hfirst.bind fun v hv => ?_
      split
      · exact .pure v
      · exact ih others (fun mem => target (List.mem_cons_of_mem st mem)) hv

theorem evalElse_mirrors {no : Option (List Stmt)}
    (h : ∀ st ∈ no.getD [], mirror.Evaluates m i st.value)
    (target : ∀ {name value}, .bind name value ∈ no.getD [] → inv.target i name) :
    mirror.Mirrors (evalElse m i no) := by
  cases no with
  | none =>
    rw [evalElse]
    exact .pure _
  | some body =>
    rw [evalElse]
    exact (evalStmts_twins h target (inv.scalar rfl)).mirrors

end Rules

section Machine

variable {m : Machine} {inv : Invariant m.host} {mirror : Mirror inv}

theorem identifier_mirrors {name : String} (reads : mirror.reads name) :
    mirror.Mirrors (m.identifier i name) := by
  intro s start
  unfold Machine.identifier
  have run (s : Store) (f : Option Value → Eval Value) :
      (Eval.lookup i name >>= f) s = f (s.lookup i name) s := rfl
  rw [run, run, mirror.lookup reads]
  -- the value is the same in both runs, and the builtins are
  cases s.lookup i name with
  | some v => rfl
  | none =>
    cases NameMap.get? name m.host.builtins with
    | some b => rfl
    | none => rfl

/-- A function does not notice the map when it is called. -/
abbrev Calls (mirror : Mirror inv) : Prop := ∀ {f args}, inv.value (.function f) →
  (∀ v ∈ args, inv.value v) → mirror.Mirrors (m.call f args)

theorem apply_mirrors (calls : mirror.Calls) {callee : Value} {args : List Value}
    (hcallee : inv.value callee) (hargs : ∀ v ∈ args, inv.value v) :
    mirror.Mirrors (m.apply callee args) := by
  unfold Machine.apply
  split
  · exact calls hcallee hargs
  · exact mirror.answer
  · exact .fail _

/-- No expression that may be evaluated notices the map, if calls do not. -/
theorem eval_mirrors (keeps : inv.Calls) (calls : mirror.Calls) (here : inv.scope i) (e : Expr)
    (admits : inv.Admits i e) (reads : mirror.Admits e) : mirror.Mirrors (e.eval m i) := by
  induction e using Expr.induction with
  | step e ih =>
    have operand (c : Expr) (mem : c ∈ e.operands) : mirror.Evaluates m i c :=
      ⟨Invariant.eval_keeps keeps here c (admits.operand mem),
        ih c (Expr.mem_children_of_operands mem) (admits.operand mem) (reads.operand mem)⟩
    cases e with
    | ident name =>
      rw [Expr.eval]
      exact identifier_mirrors (reads name (.root _))
    | int | float | bool | str =>
      rw [Expr.eval]
      exact .pure _
    | array items =>
      rw [Expr.eval]
      exact (evalAll_twins operand).bind fun vs _ => .pure _
    | hash pairs =>
      rw [Expr.eval]
      have pair (pair : Expr × Expr) (mem : pair ∈ pairs) :
          mirror.Evaluates m i pair.1 ∧ mirror.Evaluates m i pair.2 := by
        constructor
        all_goals
          refine operand _ (List.mem_flatMap.mpr ⟨pair, mem, ?_⟩)
          simp
      have none : inv.Entries [] := fun _ mem => by cases mem
      exact (evalPairs_twins pair none).bind fun entries _ => .pure _
    | unary op e =>
      rw [Expr.eval]
      exact (operand e List.mem_cons_self).bind fun v _ => .lift _
    | binary op left right =>
      obtain ⟨hleft, hright⟩ := List.forall_mem_cons.mp operand
      replace hright := List.forall_mem_singleton.mp hright
      rw [Expr.eval]
      exact hleft.bind fun v _ => hright.bind fun v' _ => .lift _
    | cond test yes no =>
      obtain ⟨htest, hblocks⟩ := List.forall_mem_cons.mp operand
      obtain ⟨hyes, hno⟩ := List.forall_mem_append.mp hblocks
      have target {name : String} {value : Expr} (mem : .bind name value ∈ yes ++ no.getD []) :
          inv.target i name := admits.target ⟨_, value, .root _, mem⟩
      rw [Expr.eval]
      refine htest.bind fun v _ => ?_
      split
      · refine (evalStmts_twins (List.forall_mem_map.mp hyes) (fun mem => ?_)
          (inv.scalar rfl)).mirrors
        exact target (List.mem_append_left _ mem)
      · refine evalElse_mirrors (List.forall_mem_map.mp hno) fun mem => ?_
        exact target (List.mem_append_right _ mem)
    | fn params body =>
      rw [Expr.eval]
      intro s _
      -- the number of functions made is the same in both stores, so the identity is
      show (Outcome.done (Value.function ⟨(mirror.image s).functions, params, body, i⟩),
        { mirror.image s with functions := (mirror.image s).functions + 1 }) = _
      rw [mirror.functions, mirror.make]
      rfl
    | call callee args =>
      obtain ⟨hcallee, hargs⟩ := List.forall_mem_cons.mp operand
      rw [Expr.eval]
      refine hcallee.bind fun f hf => (evalAll_twins hargs).bind fun vs hvs => ?_
      exact apply_mirrors calls hf hvs
    | index target sub =>
      obtain ⟨htarget, hsub⟩ := List.forall_mem_cons.mp operand
      rw [Expr.eval]
      refine htarget.bind fun v _ => ?_
      split
      · exact (select_twins hsub _).bind fun selection _ => .pure _
      · exact (select_twins hsub _).bind fun selection _ => .pure _
      · exact (evalKey_twins hsub).bind fun key _ => (hashKeyOf_twins key).bind fun _ _ => .pure _
      · exact .fail _

end Machine

/-! ## Calls and trees -/

/-- Calls do not notice the map, by induction over the limit: the body of a function only calls with
a lower one. -/
theorem call_mirrors (mirror : Mirror inv) (limit : Nat) {f : Closure} {args : List Value}
    (hf : inv.value (.function f)) (hargs : ∀ v ∈ args, inv.value v) :
    mirror.Mirrors (call host limit f args) := by
  induction limit generalizing f args with
  | zero =>
    rw [call]
    exact .exhaust
  | succ limit ih =>
    rw [call, Rule.body]
    split
    · exact .fail _
    · have bound : ∀ b ∈ f.params.zip args, inv.value b.2 :=
        fun b mem => hargs b.2 (List.of_mem_zip mem).2
      have entered : mirror.Twins (Eval.enter f.scope (f.params.zip args))
          fun i => inv.scope i ∧ ∀ name, inv.target i name :=
        ⟨Invariant.enter_keeps hf bound, enter_mirrors hf bound⟩
      refine entered.bind fun i scope => ?_
      obtain ⟨here, free⟩ := scope
      have keeps {f : Closure} {args : List Value} (hf : inv.value (.function f))
          (hargs : ∀ v ∈ args, inv.value v) : inv.Keeps (call host limit f args) inv.value :=
        inv.call_keeps limit hf hargs
      have statement (st : Stmt) (mem : st ∈ f.body) :
          mirror.Evaluates ⟨host, call host limit⟩ i st.value := by
        have admits : inv.Admits i st.value := ⟨inv.body hf st mem _ _, fun _ => free _⟩
        exact ⟨Invariant.eval_keeps (m := ⟨host, call host limit⟩) keeps here st.value admits,
          eval_mirrors (m := ⟨host, call host limit⟩) keeps ih here st.value admits
            (mirror.body hf st mem)⟩
      refine (evalStmts_twins statement (fun _ => free _) (inv.scalar rfl)).bind fun v _ => ?_
      exact .pure _

/-- No tree that may be evaluated notices the map. -/
theorem node_mirrors (mirror : Mirror inv) (limit : Nat) (here : inv.scope i) {node : Node}
    (admits : inv.AdmitsNode i node) (reads : ∀ e ∈ node.roots, mirror.Admits e) :
    mirror.Mirrors (node.eval (.withLimit host limit) i) := by
  have root (e : Expr) (mem : e ∈ node.roots) : mirror.Evaluates (.withLimit host limit) i e :=
    ⟨Invariant.eval_keeps (m := .withLimit host limit) (inv.call_keeps limit) here e
        (admits.root mem),
      eval_mirrors (m := .withLimit host limit) (inv.call_keeps limit) (mirror.call_mirrors limit)
        here e (admits.root mem) (reads e mem)⟩
  have target {name : String} {value : Expr} (mem : .bind name value ∈ node.statements) :
      inv.target i name := admits.target (.inl ⟨value, mem⟩)
  have top : mirror.Twins (node.top (.withLimit host limit) i) inv.value := by
    cases node with
    | program p => exact evalStmts_twins (List.forall_mem_map.mp root) target (inv.scalar rfl)
    | block body => exact evalStmts_twins (List.forall_mem_map.mp root) target (inv.scalar rfl)
    | statement st =>
      refine stmt_twins (root st.value List.mem_cons_self) ?_
      rintro name value rfl
      exact target List.mem_cons_self
    | expression e => exact root e List.mem_cons_self
  rw [node.eval_eq]
  exact top.bind fun v _ => .pure _

end Mirror

end MonkeyLang
