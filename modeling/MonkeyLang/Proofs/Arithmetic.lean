import MonkeyLang.Evaluation.Rules
import Mathlib.Data.Int.ModEq

/-!
# Integer arithmetic

Sums, differences, products and opposites of whole literals are computed in the integers of 64
bits, a ring in which the exact results are taken modulo the number of words.  A literal beyond the
largest signed integer is already such a residue, and truth values take part as zero and one.  So no
tree of these expressions ends in a fault, and what comes out is congruent to the exact value of the
tree, no matter where in the tree a result has wrapped around.

## Main definitions

* `RingOp`: the operators of a ring, on exact integers
* `IntTree`, `IntTree.expr`: trees of integer arithmetic, as expressions
* `IntTree.value`: the exact value of a tree
* `Value.integer?`: the integer that a value stands for

## Main results

* `UnaryOp.neg_apply_of_whole`, `BinaryOp.apply_of_whole`: operators on whole values
* `RingOp.applyInt_ofInt`: residues of sums, differences and products
* `IntTree.eval_expr`: a tree gives the residue of its exact value
* `eval_congruent`: evaluation is congruent to exact computation
-/

namespace MonkeyLang

/-! ## Trees -/

/-- The operators of a ring. -/
inductive RingOp where
  | add
  | sub
  | mul

namespace RingOp

/-- The operator of the language. -/
def binary : RingOp → BinaryOp
  | add => .add
  | sub => .sub
  | mul => .mul

/-- The exact result. -/
def apply : RingOp → Int → Int → Int
  | add, a, b => a + b
  | sub, a, b => a - b
  | mul, a, b => a * b

end RingOp

/-- The trees of integer arithmetic. -/
inductive IntTree where
  /-- A literal, which has no sign. -/
  | int (n : UInt64)
  | bool (b : Bool)
  | neg (t : IntTree)
  | binary (op : RingOp) (left right : IntTree)

namespace IntTree

/-- The expression that a tree is. -/
def expr : IntTree → Expr
  | int n => .int n
  | bool b => .bool b
  | neg t => .unary .neg t.expr
  | binary op left right => .binary op.binary left.expr right.expr

/-- The exact value of a tree, among all integers. -/
def value : IntTree → Int
  | int n => n.toNat
  | bool b => if b then 1 else 0
  | neg t => -t.value
  | binary op left right => op.apply left.value right.value

end IntTree

/-- The integer that an integer or a truth value stands for, among all integers. -/
def Value.integer? : Value → Option Int
  | int n => some n.toInt
  | bool b => some (if b then 1 else 0)
  | _ => none

/-! ## Operators -/

/-- The opposite of a whole value is whole; that of `false` is `false` itself. -/
theorem UnaryOp.neg_apply_of_whole {v : Value} {n : Int64} (whole : v.whole? = some n) :
    ∃ w, UnaryOp.neg.apply v = .ok w ∧ w.whole? = some (-n) := by
  cases v with
  | int =>
    cases whole
    exact ⟨_, rfl, rfl⟩
  | bool b =>
    cases whole
    cases b with
    | false => exact ⟨.bool false, rfl, rfl⟩
    | true => exact ⟨.int (-1), rfl, rfl⟩
  | _ => cases whole

/-- Between whole values an operator is the one of the integers, whichever of them are truth
values. -/
theorem BinaryOp.apply_of_whole (op : BinaryOp) {v w : Value} {a b : Int64}
    (hv : v.whole? = some a) (hw : w.whole? = some b) : op.apply v w = op.applyInt a b := by
  rw [BinaryOp.apply, hv, hw]

/-- The residue of an exact result is the result of the residues. -/
theorem RingOp.applyInt_ofInt (op : RingOp) (a b : Int) :
    op.binary.applyInt (Int64.ofInt a) (Int64.ofInt b) =
      .ok (.int (Int64.ofInt (op.apply a b))) := by
  cases op with
  | add => rw [apply, Int64.ofInt_add, binary, BinaryOp.applyInt]
  | sub => rw [apply, Int64.ofInt_sub, binary, BinaryOp.applyInt]
  | mul => rw [apply, Int64.ofInt_mul, binary, BinaryOp.applyInt]

/-! ## Evaluation -/

theorem toInt64_eq_ofInt (n : UInt64) : n.toInt64 = Int64.ofInt n.toNat := by
  rw [Int64.ofInt_eq_ofNat]
  exact (congrArg UInt64.toInt64 UInt64.ofNat_toNat).symm

/-- A tree gives the residue of its exact value, everywhere the same, and the store is not looked
at.  The residues form a ring, so they are followed through the tree from the literals on. -/
theorem IntTree.eval_expr (t : IntTree) :
    ∃ v : Value, (∀ m scope, t.expr.eval m scope = pure v) ∧
      v.whole? = some (Int64.ofInt t.value) := by
  induction t with
  | int n =>
    refine ⟨.int n.toInt64, fun m scope => by rw [expr, Expr.eval], ?_⟩
    rw [Value.whole?, value, toInt64_eq_ofInt]
  | bool b =>
    refine ⟨.bool b, fun m scope => by rw [expr, Expr.eval], ?_⟩
    cases b <;> rfl
  | neg t ih =>
    obtain ⟨v, run, whole⟩ := ih
    obtain ⟨w, opposite, whole'⟩ := UnaryOp.neg_apply_of_whole whole
    refine ⟨w, fun m scope => ?_, ?_⟩
    · rw [expr, Expr.eval, run, Rule.unary, pure_bind, opposite]
      rfl
    · rw [whole', value, Int64.ofInt_neg]
  | binary op left right ihl ihr =>
    obtain ⟨v, hleft, hv⟩ := ihl
    obtain ⟨w, hright, hw⟩ := ihr
    refine ⟨.int (Int64.ofInt (op.apply left.value right.value)), fun m scope => ?_, rfl⟩
    rw [expr, Expr.eval, hleft, hright, Rule.binary, pure_bind, pure_bind,
      BinaryOp.apply_of_whole _ hv hw, RingOp.applyInt_ofInt]
    rfl

/-- A whole value stands for an integer that is congruent to all that have its residue. -/
theorem Value.integer?_of_whole {v : Value} {z : Int} (whole : v.whole? = some (Int64.ofInt z)) :
    ∃ n, v.integer? = some n ∧ n ≡ z [ZMOD UInt64.size] := by
  have residue : (Int64.ofInt z).toInt ≡ z [ZMOD UInt64.size] := by
    rw [Int64.toInt_ofInt]
    exact Int.bmod_emod
  cases v with
  | int n =>
    cases whole
    exact ⟨_, rfl, residue⟩
  | bool b =>
    refine ⟨_, rfl, ?_⟩
    rw [← Option.some.inj whole] at residue
    cases b <;> exact residue
  | _ => cases whole

/-- **Integer arithmetic is exact modulo the number of words.**  Every tree of whole literals, truth
values, opposites, sums, differences and products has one value in all surroundings.  It is an
integer or a truth value, evaluation leaves the store as it is, and the integer the value stands for
is congruent to the exact value of the tree. -/
theorem eval_congruent (t : IntTree) :
    ∃ (v : Value) (n : Int), v.integer? = some n ∧ n ≡ t.value [ZMOD UInt64.size] ∧
      ∀ (m : Machine) (scope : ScopeId) (store : Store),
        t.expr.eval m scope store = (.done v, store) ∧
          evaluate m scope (.expression t.expr) store = (.done v, store) := by
  obtain ⟨v, run, whole⟩ := t.eval_expr
  obtain ⟨n, stands, congruent⟩ := Value.integer?_of_whole whole
  refine ⟨v, n, stands, congruent, fun m scope store => ⟨by rw [run]; rfl, ?_⟩⟩
  have bare : v.unwrap = v := by
    cases v with
    | returned => cases whole
    | _ => rfl
  rw [evaluate, Node.eval, run, pure_bind, bare]
  rfl

end MonkeyLang
