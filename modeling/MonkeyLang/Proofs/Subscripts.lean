import MonkeyLang.Proofs.Positions

/-!
# Subscripts of sequences

A subscript sees no more of a sequence than its length.  So a text and the array of its characters
answer every subscript alike: with the same fault, or with the same items, which the text gives
joined.  The segments are evaluated in the same stores, whatever they do there.

The segments of a slice are looked at in order, and a slice can end before it comes to its stride:
a stop before the sequence makes it empty, and then nothing is asked of the stride.

## Main definitions

* `Value.picked`: the items of a sequence that a selection picks
* `StrideFault`: what can be wrong with a stride
* `Reassembles`, `EndsAlike`: the answers of a text and of its characters

## Main results

* `index_eval_of_sequence`: a subscript sees the length of the sequence alone
* `index_of_strideFault`: when a stride is looked at
* `index_str_reassembles`: a text answers like the array of its characters
-/

namespace MonkeyLang

/-- The items of a sequence that a selection picks, as a sequence of the same kind.  A single item
of an array is the item itself. -/
def Value.picked (sel : Selection) : Value → Value
  | array items => selectItems items sel
  | str text => selectChars text.toList sel
  | v => v

section Sequences

variable {m : Machine} {scope : ScopeId} {target : Expr} {v : Value} {n : Nat} {s s' : Store}

/-- A subscript sees the length of the sequence alone. -/
theorem index_eval_of_sequence (htarget : target.eval m scope s = (.done v, s'))
    (sequence : v.length? = some n) (sub : Subscript) :
    (Expr.index target sub).eval m scope s = (do
      let sel ← sub.select m scope n
      return v.picked sel) s' := by
  rw [Expr.eval, Rule.index, Eval.bind_of_done htarget]
  cases v with
  | array items => cases sequence; rfl
  | str text => cases sequence; rfl
  | _ => cases sequence

theorem picked_nil (sequence : v.length? = some n) :
    (v.picked (.several [])).kind = v.kind ∧ (v.picked (.several [])).length? = some 0 := by
  cases v with
  | array items => exact ⟨rfl, rfl⟩
  | str text => exact ⟨rfl, rfl⟩
  | _ => cases sequence

end Sequences

/-! ## When a stride is looked at -/

/-- What is wrong with a stride that is evaluated from the store `s`: it fails, it is no integer, or
it is zero. -/
inductive StrideFault (m : Machine) (scope : ScopeId) (e : Expr) (s : Store) :
    Fault → Store → Prop where
  | fails {f s'} (h : e.eval m scope s = (.fault f, s')) : StrideFault m scope e s f s'
  | notInteger {v s'} (h : e.eval m scope s = (.done v, s')) (other : ∀ i, v ≠ .int i) :
      StrideFault m scope e s (.indexNotInteger v.kind) s'
  | zero {s'} (h : e.eval m scope s = (.done (.int 0), s')) :
      StrideFault m scope e s .zeroStride s'

section Strides

variable {m : Machine} {scope : ScopeId} {target e : Expr} {sub : Subscript}
  {start stop : Option Expr} {start? stop? : Option Int64} {v : Value} {n : Nat} {f : Fault}
  {s s' s₁ s₂ s₃ : Store}

/-- A slice that comes to a stride with a fault ends in that fault. -/
theorem StrideFault.fails_of_reached (fault : StrideFault m scope e s f s')
    (positions : Int64 → List Nat) :
    (do
      let stride? ← evalSegment m scope (some e)
      if stride?.getD 1 = 0 then Eval.fail .zeroStride
      else return Selection.several (positions (stride?.getD 1))) s = (.fault f, s') := by
  rw [evalSegment, Rule.segment]
  cases fault with
  | fails h => rw [bind_assoc, Eval.bind_of_fault h]
  | notInteger h other =>
    rename_i v
    rw [bind_assoc, Eval.bind_of_done h]
    cases v with
    | int i => exact absurd rfl (other i)
    | _ => rfl
  | zero h =>
    rw [bind_assoc, Eval.bind_of_done h]
    rfl

/-- A slice of a sequence whose stride has a fault ends in that fault exactly if its stop does not
lie before the sequence.  If it does, then the slice is empty, and its stride is not evaluated. -/
theorem index_of_strideFault (small : n < Nat.pow 2 63)
    (htarget : target.eval m scope s = (.done v, s')) (sequence : v.length? = some n)
    (written : sub.slice? = some (start, stop, some e))
    (hstart : evalSegment m scope start s' = (.done start?, s₁))
    (inside : ∀ i, start? = some i → Inside n i.toInt)
    (hstop : evalSegment m scope stop s₁ = (.done stop?, s₂))
    (fault : StrideFault m scope e s₂ f s₃) :
    ((Expr.index target sub).eval m scope s = (.fault f, s₃) ↔
      ∀ i, stop? = some i → -(n : Int) ≤ i.toInt) ∧
    ∀ i, stop? = some i → i.toInt < -(n : Int) → ∃ w, w.kind = v.kind ∧ w.length? = some 0 ∧
      (Expr.index target sub).eval m scope s = (.done w, s₂) := by
  have sums := exactSums small
  have emptied (i : Int64) (given : stop? = some i) (before : i.toInt < -(n : Int)) :
      (Expr.index target sub).eval m scope s = (.done (v.picked (.several [])), s₂) := by
    subst given
    rw [index_eval_of_sequence htarget sequence, Subscript.select_of_slice? written]
    exact Eval.bind_of_done (sliceOf_of_before sums hstart inside hstop before) _
  refine ⟨⟨fun failed i given => ?_, fun within => ?_⟩, fun i given before => ?_⟩
  · refine Int.not_lt.mp fun before => ?_
    rw [emptied i given before] at failed
    cases failed
  · obtain ⟨first, last, run, -⟩ := sliceOf_of_within sums hstart inside hstop within
    rw [index_eval_of_sequence htarget sequence, Subscript.select_of_slice? written]
    refine Eval.bind_of_fault ?_ _
    rw [run]
    exact fault.fails_of_reached _
  · obtain ⟨kind, length⟩ := picked_nil sequence
    exact ⟨_, kind, length, emptied i given before⟩

end Strides

/-- An array of three items. -/
def threeItems : Expr := .array [.int 1, .int 2, .int 3]

/-- The slice of three items from the second one on, with a division by zero for its stride. -/
theorem index_of_strideFault_division :
    let machine := Machine.withLimit .standard 0
    let store := (Store.empty.enclose none).2
    let items := Value.array [.int 1, .int 2, .int 3]
    let stride := Expr.binary .div (.int 1) (.int 0)
    let sub := Subscript.stepped (some (.int 1)) none (some stride)
    3 < Nat.pow 2 63 ∧ threeItems.eval machine 0 store = (.done items, store) ∧ Inside 3 1 ∧
      StrideFault machine 0 stride store .divisionByZero store ∧
      (Expr.index threeItems sub).eval machine 0 store = (.fault .divisionByZero, store) := by
  intro machine store items stride sub
  have small : 3 < Nat.pow 2 63 := by decide
  have inside : Inside 3 1 := by
    constructor <;> decide
  have htarget : threeItems.eval machine 0 store = (.done items, store) := rfl
  have written : sub.slice? = some (some (.int 1), none, some stride) := rfl
  have hstart : evalSegment machine 0 (some (.int 1)) store = (.done (some 1), store) := rfl
  have hstop : evalSegment machine 0 none store = (.done none, store) := rfl
  have fault : StrideFault machine 0 stride store .divisionByZero store := .fails rfl
  obtain ⟨fails, _⟩ := index_of_strideFault small htarget rfl written hstart
    (by rintro i ⟨⟩; exact inside) hstop fault
  exact ⟨small, htarget, inside, fault, fails.mpr (by rintro i ⟨⟩)⟩

/-- The stride of this slice is zero, but its stop lies before the three items, so it is empty. -/
theorem index_of_stop_before :
    let machine := Machine.withLimit .standard 0
    let store := (Store.empty.enclose none).2
    let stop := Expr.unary .neg (.int 9)
    let whole := Expr.index threeItems (.stepped none (some stop) (some (.int 0)))
    evalSegment machine 0 (some stop) store = (.done (some (-9)), store) ∧
      StrideFault machine 0 (.int 0) store .zeroStride store ∧
      whole.eval machine 0 store = (.done (.array []), store) :=
  ⟨rfl, .zero rfl, rfl⟩

/-! ## Texts and their characters -/

/-- An index that is not refused is a position of the sequence. -/
theorem toNatClampNeg_lt_of_resolveIndex {n : Nat} {i p : Int64} (h : resolveIndex n i = .ok p) :
    p.toNatClampNeg < n := by
  rw [← Int64.toNat_toInt]
  by_cases small : n < Nat.pow 2 63
  · have sums := exactSums small
    by_cases inside : Inside n i.toInt
    · obtain ⟨q, resolved, hq⟩ := resolveIndex_of_inside sums inside
      cases resolved.symm.trans h
      obtain ⟨low, high⟩ := place_inside inside
      omega
    · rw [resolveIndex_of_outside sums inside] at h
      cases h
  · -- no integer of 64 bits lies behind so long a sequence
    have bound : ¬ n < 9223372036854775808 := small
    have := Int64.toInt_lt p
    omega

/-- What a subscript can pick out of a sequence of `n` items: an index one of its positions, and a
slice any positions. -/
inductive Fits (n : Nat) : Subscript → Selection → Prop where
  | single {e p} (lt : p < n) : Fits n (.item e) (.single p)
  | several {sub segments positions} (written : sub.slice? = some segments) :
      Fits n sub (.several positions)

section Fitting

variable {m : Machine} {scope : ScopeId} {n : Nat}

theorem sliceOf_several (start stop stride : Eval (Option Int64)) :
    (sliceOf n start stop stride).Keeps (fun _ => True) True fun sel =>
      ∃ ps, sel = .several ps := by
  unfold sliceOf
  refine (Eval.Keeps.of_any _).bind fun start? _ => (Eval.Keeps.of_any _).bind fun first _ => ?_
  refine (Eval.Keeps.of_any _).bind fun stop? _ => ?_
  split
  · exact .pure ⟨_, rfl⟩
  · refine (Eval.Keeps.of_any _).bind fun stride? _ => ?_
    split
    · exact .fail
    · exact .pure ⟨_, rfl⟩

theorem select_fits (sub : Subscript) :
    (sub.select m scope n).Keeps (fun _ => True) True (Fits n sub) := by
  cases sub with
  | empty =>
    rw [Subscript.select]
    exact .fail
  | item e =>
    rw [Subscript.select]
    refine (Eval.Keeps.of_any _).bind fun v _ => (Eval.Keeps.of_any _).bind fun i _ => ?_
    refine Eval.Keeps.bind (.lift fun p resolved => toNatClampNeg_lt_of_resolveIndex resolved) ?_
    exact fun p lt => .pure (.single lt)
  | slice start stop =>
    rw [Subscript.select]
    refine (sliceOf_several _ _ _).mono ?_
    rintro _ ⟨ps, rfl⟩
    exact .several rfl
  | stepped start stop stride =>
    rw [Subscript.select]
    refine (sliceOf_several _ _ _).mono ?_
    rintro _ ⟨ps, rfl⟩
    exact .several rfl

end Fitting

/-- The characters of a text, each as a text of its own. -/
def characters (text : String) : List String := text.toList.map String.singleton

/-- What a subscript gives on a text, and what it gives on the array of its characters: one
character for an index, and the characters joined or in an array for a slice. -/
inductive Reassembles : Subscript → (onText onItems : Value) → Prop where
  | item {e text} : Reassembles (.item e) (.str text) (.str text)
  | slice {sub segments texts} (written : sub.slice? = some segments) :
      Reassembles sub (.str (String.join texts)) (.array (texts.map .str))

/-- Two runs end in the same store, with the same fault, both at the limit, or with results in a
relation. -/
inductive EndsAlike (R : Value → Value → Prop) : (run run' : Outcome Value × Store) → Prop where
  | done {v w store} (related : R v w) : EndsAlike R (.done v, store) (.done w, store)
  | fault {f store} : EndsAlike R (.fault f, store) (.fault f, store)
  | exhausted {store} : EndsAlike R (.exhausted, store) (.exhausted, store)

theorem EndsAlike.of_selection {R : Value → Value → Prop} {e : Eval Selection}
    {f g : Selection → Value} {P : Selection → Prop} (meets : e.Keeps (fun _ => True) True P)
    (related : ∀ sel, P sel → R (f sel) (g sel)) (store : Store) :
    EndsAlike R ((do return f (← e)) store) ((do return g (← e)) store) := by
  have met := (meets store trivial).2
  show EndsAlike R (Eval.andThen e _ store) (Eval.andThen e _ store)
  unfold Eval.andThen
  revert met
  rcases e store with ⟨sel | fault | _, store'⟩ <;> intro met
  · exact .done (related sel met)
  · exact .fault
  · exact .exhausted

theorem Selection.itemsAt_map {α β : Type} (f : α → β) (items : List α) (positions : List Nat) :
    itemsAt (items.map f) positions = (itemsAt items positions).map f := by
  simp [itemsAt, List.map_filterMap]

theorem join_singletons (cs : List Char) :
    String.join (cs.map String.singleton) = String.ofList cs := by
  apply String.toList_injective
  simp [String.toList_join, List.flatMap_map]

/-- The same selection of a text and of the array of its characters. -/
theorem picked_reassembles (text : String) {sub : Subscript} {sel : Selection}
    (fits : Fits text.toList.length sub sel) :
    Reassembles sub ((Value.str text).picked sel)
      ((Value.array ((characters text).map .str)).picked sel) := by
  cases fits with
  | single lt =>
    rename_i e p
    have onText : (Value.str text).picked (.single p) = .str (String.singleton text.toList[p]) := by
      simp [Value.picked, selectChars, Selection.itemsAt, lt]
    have onItems : (Value.array ((characters text).map .str)).picked (.single p) =
        .str (String.singleton text.toList[p]) := by
      simp [Value.picked, selectItems, characters, lt]
    rw [onText, onItems]
    exact .item
  | several written =>
    rename_i segments positions
    have onText : (Value.str text).picked (.several positions) =
        .str (String.join ((Selection.itemsAt text.toList positions).map String.singleton)) := by
      rw [join_singletons]
      rfl
    have onItems : (Value.array ((characters text).map .str)).picked (.several positions) =
        .array (((Selection.itemsAt text.toList positions).map String.singleton).map .str) := by
      simp only [Value.picked, selectItems, characters, Selection.itemsAt_map]
    rw [onText, onItems]
    exact .slice written

theorem evalAll_texts (m : Machine) (scope : ScopeId) (texts : List String) :
    evalAll m scope (texts.map .str) = pure (texts.map .str) := by
  induction texts with
  | nil => simp [evalAll]
  | cons text texts ih => simp [evalAll, Expr.eval, ih]

/-- A text answers every subscript like the array of its characters: with the same fault, or with
the same characters, joined; and all that the segments do to the store is the same. -/
theorem index_str_reassembles (m : Machine) (scope : ScopeId) (text : String) (sub : Subscript)
    (store : Store) :
    EndsAlike (Reassembles sub) ((Expr.index (.str text) sub).eval m scope store)
      ((Expr.index (.array ((characters text).map .str)) sub).eval m scope store) := by
  have onText : (Expr.str text).eval m scope store = (.done (.str text), store) := by
    rw [Expr.eval]
    rfl
  have onItems : (Expr.array ((characters text).map .str)).eval m scope store =
      (.done (.array ((characters text).map .str)), store) := by
    rw [Expr.eval, evalAll_texts]
    rfl
  have length : (Value.array ((characters text).map .str)).length? = some text.toList.length := by
    simp [Value.length?, characters]
  rw [index_eval_of_sequence onText rfl, index_eval_of_sequence onItems length]
  exact .of_selection (select_fits sub) (fun sel fits => picked_reassembles text fits) store

end MonkeyLang
