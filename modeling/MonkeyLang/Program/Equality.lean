import MonkeyLang.Program.Tree

/-!
# Equality of programs

Two trees are equal if they have the same shape, operators, names and literals.  Positions and
spelling are not part of a tree, so texts that differ only in blanks, in redundant parentheses or
in the spelling of a literal have equal trees.

## Main definitions

* `Expr.same`, `Subscript.same`, `Stmt.same`, `Program.same`: equality as a computation

## Main results

* `Expr.same_iff`, `Stmt.same_iff`, `Program.same_iff`: the computation decides equality
-/

namespace MonkeyLang

mutual

/-- Whether two expressions are equal. -/
def Expr.same : Expr → Expr → Bool
  | .ident a, .ident b => a == b
  | .int a, .int b => a == b
  | .float a, .float b => a == b
  | .bool a, .bool b => a == b
  | .str a, .str b => a == b
  | .array as, .array bs => sameAll as bs
  | .hash as, .hash bs => samePairs as bs
  | .unary o a, .unary p b => o == p && a.same b
  | .binary o a a', .binary p b b' => o == p && a.same b && a'.same b'
  | .cond a as as', .cond b bs bs' => a.same b && sameStmts as bs && sameElse as' bs'
  | .fn ps as, .fn qs bs => ps == qs && sameStmts as bs
  | .call a as, .call b bs => a.same b && sameAll as bs
  | .index a i, .index b j => a.same b && i.same j
  | _, _ => false
termination_by structural a => a

/-- Whether two lists of expressions are equal. -/
def sameAll : List Expr → List Expr → Bool
  | [], [] => true
  | a :: as, b :: bs => a.same b && sameAll as bs
  | _, _ => false
termination_by structural a => a

/-- Whether two lists of entries are equal. -/
def samePairs : List (Expr × Expr) → List (Expr × Expr) → Bool
  | [], [] => true
  | (k, a) :: as, (l, b) :: bs => k.same l && a.same b && samePairs as bs
  | _, _ => false
termination_by structural a => a

/-- Whether two segments that can be left out are equal. -/
def sameOptional : Option Expr → Option Expr → Bool
  | none, none => true
  | some a, some b => a.same b
  | _, _ => false
termination_by structural a => a

/-- Whether two subscripts are equal. -/
def Subscript.same : Subscript → Subscript → Bool
  | .empty, .empty => true
  | .item a, .item b => a.same b
  | .slice a a', .slice b b' => sameOptional a b && sameOptional a' b'
  | .stepped a a' a'', .stepped b b' b'' =>
    sameOptional a b && sameOptional a' b' && sameOptional a'' b''
  | _, _ => false
termination_by structural a => a

/-- Whether two statements are equal. -/
def Stmt.same : Stmt → Stmt → Bool
  | .bind x a, .bind y b => x == y && a.same b
  | .ret a, .ret b => a.same b
  | .expr a, .expr b => a.same b
  | _, _ => false
termination_by structural a => a

/-- Whether two lists of statements are equal. -/
def sameStmts : List Stmt → List Stmt → Bool
  | [], [] => true
  | a :: as, b :: bs => a.same b && sameStmts as bs
  | _, _ => false
termination_by structural a => a

/-- Whether two second blocks are equal. -/
def sameElse : Option (List Stmt) → Option (List Stmt) → Bool
  | none, none => true
  | some as, some bs => sameStmts as bs
  | _, _ => false
termination_by structural a => a

end

mutual

/-- The computation decides equality of expressions. -/
theorem Expr.same_iff (a b : Expr) : a.same b = true ↔ a = b := by
  cases a <;> cases b
  case ident.ident => simp only [Expr.same, beq_iff_eq, Expr.ident.injEq]
  case int.int => simp only [Expr.same, beq_iff_eq, Expr.int.injEq]
  case float.float => simp only [Expr.same, beq_iff_eq, Expr.float.injEq]
  case bool.bool => simp only [Expr.same, beq_iff_eq, Expr.bool.injEq]
  case str.str => simp only [Expr.same, beq_iff_eq, Expr.str.injEq]
  case array.array as bs => simp only [Expr.same, sameAll_iff as bs, Expr.array.injEq]
  case hash.hash as bs => simp only [Expr.same, samePairs_iff as bs, Expr.hash.injEq]
  case unary.unary a _ b =>
    simp only [Expr.same, Bool.and_eq_true, beq_iff_eq, Expr.same_iff a b, Expr.unary.injEq]
  case binary.binary a a' _ b b' =>
    simp only [Expr.same, Bool.and_eq_true, beq_iff_eq, Expr.same_iff a b, Expr.same_iff a' b',
      Expr.binary.injEq, and_assoc]
  case cond.cond a as as' b bs bs' =>
    simp only [Expr.same, Bool.and_eq_true, Expr.same_iff a b, sameStmts_iff as bs,
      sameElse_iff as' bs', Expr.cond.injEq, and_assoc]
  case fn.fn as _ bs =>
    simp only [Expr.same, Bool.and_eq_true, beq_iff_eq, sameStmts_iff as bs, Expr.fn.injEq]
  case call.call a as b bs =>
    simp only [Expr.same, Bool.and_eq_true, Expr.same_iff a b, sameAll_iff as bs, Expr.call.injEq]
  case index.index a i b j =>
    simp only [Expr.same, Bool.and_eq_true, Expr.same_iff a b, Subscript.same_iff i j,
      Expr.index.injEq]
  all_goals simp only [Expr.same, Bool.false_eq_true, reduceCtorEq]
termination_by structural a

/-- The computation decides equality of lists of expressions. -/
theorem sameAll_iff (as bs : List Expr) : sameAll as bs = true ↔ as = bs := by
  cases as <;> cases bs
  case nil.nil => simp only [sameAll]
  case cons.cons a as b bs =>
    simp only [sameAll, Bool.and_eq_true, Expr.same_iff a b, sameAll_iff as bs, List.cons.injEq]
  all_goals simp only [sameAll, Bool.false_eq_true, reduceCtorEq]
termination_by structural as

/-- The computation decides equality of lists of entries. -/
theorem samePairs_iff (as bs : List (Expr × Expr)) : samePairs as bs = true ↔ as = bs := by
  cases as <;> cases bs
  case nil.nil => simp only [samePairs]
  case cons.cons a as b bs =>
    cases a with
    | mk k a =>
    cases b with
    | mk l b =>
    simp only [samePairs, Bool.and_eq_true, Expr.same_iff k l, Expr.same_iff a b,
      samePairs_iff as bs, List.cons.injEq, Prod.mk.injEq]
  all_goals simp only [samePairs, Bool.false_eq_true, reduceCtorEq]
termination_by structural as

/-- The computation decides equality of segments. -/
theorem sameOptional_iff (a b : Option Expr) : sameOptional a b = true ↔ a = b := by
  cases a <;> cases b
  case none.none => simp only [sameOptional]
  case some.some a b => simp only [sameOptional, Expr.same_iff a b, Option.some.injEq]
  all_goals simp only [sameOptional, Bool.false_eq_true, reduceCtorEq]
termination_by structural a

/-- The computation decides equality of subscripts. -/
theorem Subscript.same_iff (a b : Subscript) : a.same b = true ↔ a = b := by
  cases a <;> cases b
  case empty.empty => simp only [Subscript.same]
  case item.item a b => simp only [Subscript.same, Expr.same_iff a b, Subscript.item.injEq]
  case slice.slice a a' b b' =>
    simp only [Subscript.same, Bool.and_eq_true, sameOptional_iff a b, sameOptional_iff a' b',
      Subscript.slice.injEq]
  case stepped.stepped a a' a'' b b' b'' =>
    simp only [Subscript.same, Bool.and_eq_true, sameOptional_iff a b, sameOptional_iff a' b',
      sameOptional_iff a'' b'', Subscript.stepped.injEq, and_assoc]
  all_goals simp only [Subscript.same, Bool.false_eq_true, reduceCtorEq]
termination_by structural a

/-- The computation decides equality of statements. -/
theorem Stmt.same_iff (a b : Stmt) : a.same b = true ↔ a = b := by
  cases a <;> cases b
  case bind.bind a _ b =>
    simp only [Stmt.same, Bool.and_eq_true, beq_iff_eq, Expr.same_iff a b, Stmt.bind.injEq]
  case ret.ret a b => simp only [Stmt.same, Expr.same_iff a b, Stmt.ret.injEq]
  case expr.expr a b => simp only [Stmt.same, Expr.same_iff a b, Stmt.expr.injEq]
  all_goals simp only [Stmt.same, Bool.false_eq_true, reduceCtorEq]
termination_by structural a

/-- The computation decides equality of lists of statements. -/
theorem sameStmts_iff (as bs : List Stmt) : sameStmts as bs = true ↔ as = bs := by
  cases as <;> cases bs
  case nil.nil => simp only [sameStmts]
  case cons.cons a as b bs =>
    simp only [sameStmts, Bool.and_eq_true, Stmt.same_iff a b, sameStmts_iff as bs,
      List.cons.injEq]
  all_goals simp only [sameStmts, Bool.false_eq_true, reduceCtorEq]
termination_by structural as

/-- The computation decides equality of second blocks. -/
theorem sameElse_iff (a b : Option (List Stmt)) : sameElse a b = true ↔ a = b := by
  cases a <;> cases b
  case none.none => simp only [sameElse]
  case some.some as bs => simp only [sameElse, sameStmts_iff as bs, Option.some.injEq]
  all_goals simp only [sameElse, Bool.false_eq_true, reduceCtorEq]
termination_by structural a

end

/-- Whether two programs are equal. -/
def Program.same (p q : Program) : Bool := sameStmts p.statements q.statements

/-- The computation decides equality of programs. -/
theorem Program.same_iff (p q : Program) : p.same q = true ↔ p = q := by
  cases p
  cases q
  simp [Program.same, sameStmts_iff]

instance : DecidableEq Expr := fun a b => decidable_of_iff _ (Expr.same_iff a b)

instance : DecidableEq Stmt := fun a b => decidable_of_iff _ (Stmt.same_iff a b)

instance : DecidableEq Program := fun p q => decidable_of_iff _ (Program.same_iff p q)

end MonkeyLang
