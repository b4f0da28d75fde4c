import MonkeyLang.Program.Tree

/-!
# The expressions inside expressions

The children of an expression are the expressions right below it, also those of the statements in
its blocks.  One of them can be its left operand, which was read before the expression itself was
known to be one.  The height of a tree, the expressions that occur in it, and the names that it is
written with are all given by children, and so is induction over expressions.

## Main definitions

* `Expr.left?`, `Expr.others`, `Expr.children`: the expressions right below an expression
* `Expr.height`: the height of a tree, where a leaf has height one
* `Expr.Within`, `Program.Contains`: the expressions that occur in a tree, and in a program
* `boundNames`, `Expr.names`: the names that statements bind, and those at the top of an expression

## Main results

* `Expr.induction`: induction over the children of expressions
* `Expr.height_lt`, `Expr.height_le`: the height of a tree and those of its children
-/

namespace MonkeyLang

/-! ## Children -/

/-- The expression of every segment that is written. -/
def Subscript.parts : Subscript → List Expr
  | empty => []
  | item index => [index]
  | slice start stop => start.toList ++ stop.toList
  | stepped start stop stride => start.toList ++ stop.toList ++ stride.toList

namespace Expr

/-- The expression that something is joined to: the left operand of an operator, the callee of a
call, the target of a subscript. -/
def left? : Expr → Option Expr
  | binary _ left _ => some left
  | call callee _ => some callee
  | index target _ => some target
  | _ => none

/-- The expressions right below an expression, except the one that something is joined to. -/
def others : Expr → List Expr
  | ident _ | int _ | float _ | bool _ | str _ => []
  | array items => items
  | hash pairs => pairs.flatMap fun pair => [pair.1, pair.2]
  | unary _ operand => [operand]
  | binary _ _ right => [right]
  | cond test yes no => test :: (yes.map Stmt.value ++ (no.getD []).map Stmt.value)
  | fn _ body => body.map Stmt.value
  | call _ args => args
  | index _ subscript => subscript.parts

/-- The expressions right below an expression. -/
def children (e : Expr) : List Expr := e.left?.toList ++ e.others

section Children

variable (e e' : Expr) (es : List Expr) (sub : Subscript) (ss : List Stmt)

theorem children_array : (array es).children = es := rfl

theorem children_hash (pairs : List (Expr × Expr)) :
    (hash pairs).children = pairs.flatMap fun pair => [pair.1, pair.2] := rfl

theorem children_unary (op : UnaryOp) : (unary op e).children = [e] := rfl

theorem children_binary (op : BinaryOp) : (binary op e e').children = [e, e'] := rfl

theorem children_cond (no : Option (List Stmt)) :
    (cond e ss no).children = e :: (ss.map Stmt.value ++ (no.getD []).map Stmt.value) := rfl

theorem children_fn (params : List String) : (fn params ss).children = ss.map Stmt.value := rfl

theorem children_call : (call e es).children = e :: es := rfl

theorem children_index : (index e sub).children = e :: sub.parts := rfl

end Children

end Expr

theorem Stmt.sizeOf_value_lt (st : Stmt) : sizeOf st.value < sizeOf st := by
  cases st with
  | bind name value =>
    rw [Stmt.value, bind.sizeOf_spec]
    omega
  | ret value =>
    rw [Stmt.value, ret.sizeOf_spec]
    omega
  | expr value =>
    rw [Stmt.value, expr.sizeOf_spec]
    omega

theorem Subscript.sizeOf_lt_of_mem_parts {sub : Subscript} {c : Expr} (h : c ∈ sub.parts) :
    sizeOf c < sizeOf sub := by
  -- a segment that is written is smaller than the choice of writing it
  have some {e? : Option Expr} (h : c ∈ e?.toList) : sizeOf c < sizeOf e? := by
    rw [Option.mem_toList] at h
    cases h
    simp
  cases sub with
  | empty => cases h
  | item index =>
    rw [List.mem_singleton.mp h]
    simp
  | slice start stop =>
    rcases List.mem_append.mp h with h | h
    all_goals
      have := some h
      simp
      omega
  | stepped start stop stride =>
    rcases List.mem_append.mp h with h | h
    · rcases List.mem_append.mp h with h | h
      all_goals
        have := some h
        simp
        omega
    · have := some h
      simp
      omega

theorem sizeOf_value_lt_of_mem {ss : List Stmt} {c : Expr} (h : c ∈ ss.map Stmt.value) :
    sizeOf c < sizeOf ss := by
  obtain ⟨st, mem, rfl⟩ := List.mem_map.mp h
  exact Nat.lt_trans st.sizeOf_value_lt (List.sizeOf_lt_of_mem mem)

namespace Expr

/-- Children are smaller. -/
theorem sizeOf_lt_of_mem_children {e c : Expr} (h : c ∈ e.children) : sizeOf c < sizeOf e := by
  cases e with
  | ident | int | float | bool | str => cases h
  | array items =>
    rw [children_array] at h
    have := List.sizeOf_lt_of_mem h
    simp
    omega
  | hash pairs =>
    rw [children_hash] at h
    -- a key or a value is smaller than its entry, and the entry than the list
    obtain ⟨⟨k, v⟩, mem, h⟩ := List.mem_flatMap.mp h
    have := List.sizeOf_lt_of_mem mem
    simp at h this ⊢
    rcases h with rfl | rfl <;> omega
  | unary op operand =>
    rw [children_unary] at h
    rw [List.mem_singleton.mp h, unary.sizeOf_spec]
    omega
  | binary op left right =>
    rw [children_binary] at h
    simp at h ⊢
    rcases h with rfl | rfl <;> omega
  | cond test yes no =>
    rw [children_cond] at h
    rcases List.mem_cons.mp h with rfl | h
    · simp
      omega
    · rcases List.mem_append.mp h with h | h
      · have := sizeOf_value_lt_of_mem h
        simp
        omega
      · have := sizeOf_value_lt_of_mem h
        cases no with
        | none => cases h
        | some no =>
          simp at this ⊢
          omega
  | fn params body =>
    rw [children_fn] at h
    have := sizeOf_value_lt_of_mem h
    simp
    omega
  | call callee args =>
    rw [children_call] at h
    rcases List.mem_cons.mp h with rfl | h
    · simp
      omega
    · have := List.sizeOf_lt_of_mem h
      simp
      omega
  | index target sub =>
    rw [children_index] at h
    rcases List.mem_cons.mp h with rfl | h
    · simp
      omega
    · have := Subscript.sizeOf_lt_of_mem_parts h
      simp
      omega

/-- Induction over the children of expressions. -/
theorem induction {P : Expr → Prop} (step : ∀ e : Expr, (∀ c ∈ e.children, P c) → P e) (e : Expr) :
    P e :=
  step e fun c _ => induction step c
termination_by sizeOf e
decreasing_by exact sizeOf_lt_of_mem_children ‹_›

/-! ## Height -/

/-- The height of a tree: one more than that of its highest child. -/
def height (e : Expr) : Nat := (e.children.attach.map fun c => height c.1).foldr max 0 + 1
termination_by sizeOf e
decreasing_by exact sizeOf_lt_of_mem_children c.2

theorem height_eq (e : Expr) : e.height = (e.children.map height).foldr max 0 + 1 := by
  rw [height, List.attach_map_val]

theorem height_pos (e : Expr) : 0 < e.height := by
  rw [height_eq]
  exact Nat.succ_pos _

/-- Children are lower. -/
theorem height_lt {e c : Expr} (h : c ∈ e.children) : c.height < e.height := by
  rw [height_eq e]
  have le_foldr {n : Nat} {ns : List Nat} (h : n ∈ ns) : n ≤ ns.foldr max 0 := by
    induction ns with
    | nil => cases h
    | cons m ns ih =>
      rw [List.foldr_cons]
      rcases List.mem_cons.mp h with rfl | h
      · exact Nat.le_max_left _ _
      · exact Nat.le_trans (ih h) (Nat.le_max_right _ _)
  exact Nat.lt_succ_of_le (le_foldr (List.mem_map_of_mem h))

/-- A tree is at most one level higher than a bound for its children. -/
theorem height_le {e : Expr} {n : Nat} (h : ∀ c ∈ e.children, c.height ≤ n) : e.height ≤ n + 1 := by
  rw [height_eq]
  have foldr_le {ns : List Nat} (h : ∀ m ∈ ns, m ≤ n) : ns.foldr max 0 ≤ n := by
    induction ns with
    | nil => exact Nat.zero_le n
    | cons m ns ih =>
      rw [List.foldr_cons]
      refine Nat.max_le.mpr ⟨h m List.mem_cons_self, ih fun k hk => h k ?_⟩
      exact List.mem_cons_of_mem _ hk
  refine Nat.succ_le_succ (foldr_le fun m hm => ?_)
  obtain ⟨c, hc, rfl⟩ := List.mem_map.mp hm
  exact h c hc

/-! ## Occurrence -/

/-- The expression `e` occurs in the tree `root`. -/
inductive Within : (root e : Expr) → Prop where
  | root (e : Expr) : Within e e
  | inside {root c e : Expr} (child : c ∈ root.children) (within : Within c e) : Within root e

theorem Within.height_le {root e : Expr} (h : Within root e) : e.height ≤ root.height := by
  induction h with
  | root e => exact Nat.le_refl _
  | inside child _ ih => exact Nat.le_trans ih (Nat.le_of_lt (height_lt child))

end Expr

/-- The expression `e` occurs in the program. -/
def Program.Contains (p : Program) (e : Expr) : Prop := ∃ st ∈ p.statements, st.value.Within e

/-- What occurs in a program is bounded as its statements are. -/
theorem Program.contains_height_le_iff {p : Program} {n : Nat} :
    (∀ e, p.Contains e → e.height ≤ n) ↔ ∀ st ∈ p.statements, st.value.height ≤ n := by
  constructor
  · intro h st mem
    exact h st.value ⟨st, mem, .root _⟩
  · rintro h e ⟨st, mem, within⟩
    exact Nat.le_trans within.height_le (h st mem)

/-! ## Names -/

/-- The names that statements bind. -/
def boundNames (ss : List Stmt) : List String :=
  ss.filterMap fun
    | .bind name _ => some name
    | _ => none

theorem boundNames_cons (st : Stmt) (ss : List Stmt) :
    boundNames (st :: ss) = boundNames [st] ++ boundNames ss := List.filterMap_append (l := [st])

/-- The names at the top of an expression: its own name, its parameters, and the names that the
statements of its blocks bind. -/
def Expr.names : Expr → List String
  | .ident name => [name]
  | .cond _ yes no => boundNames yes ++ boundNames (no.getD [])
  | .fn params body => params ++ boundNames body
  | _ => []

end MonkeyLang
