import MonkeyLang.Proofs.Return

/-!
# The positions of a slice

A slice passes the terms of an arithmetic progression: its start, then one stride further each time,
as long as they come before its stop on the way that the stride leads.  The integers of 64 bits do
not disturb this.  No sum with the length of a sequence leaves them, and where the next term would,
the stop has been passed already, since the stop lies in the integers of 64 bits itself.

## Main definitions

* `Precedes`, `Progression`: the terms of a progression that come before a stop
* `Passes`: the rounds of a slice, one position in each
* `Kept`: starts and stops between which no round leaves the sequence
* `Inside`, `place`, `firstPlace`, `stopPlace`: written numbers as places of a sequence
* `ExactSums`: sums with the length of a sequence are those of the integers

## Main results

* `ascending_passes`, `descending_passes`: the rounds of a slice come to an end
* `Passes.progression`: the positions passed are the terms of a progression
* `select_positions`: what a subscript picks out of a sequence
-/

namespace MonkeyLang

/-! ## Progressions -/

/-- `a` comes strictly before `b` on the way that the stride leads. -/
def Precedes (stride a b : Int) : Prop := 0 < stride ∧ a < b ∨ stride < 0 ∧ b < a

/-- The positions are `first`, `first + stride`, `first + 2 * stride` and so on, in this order: all
terms that precede the stop, and no others. -/
structure Progression (first stride stop : Int) (positions : List Nat) : Prop where
  term : ∀ (k : Nat) (h : k < positions.length), (positions[k] : Int) = first + k * stride
  covers : ∀ k : Nat, k < positions.length ↔ Precedes stride (first + k * stride) stop

section Progressions

variable {first stride stop : Int}

/-- The way does not come back before a stop that it has reached. -/
theorem not_precedes_later (h : ¬ Precedes stride first stop) (k : Nat) :
    ¬ Precedes stride (first + k * stride) stop := by
  unfold Precedes at h ⊢
  rcases Int.lt_trichotomy stride 0 with down | rfl | up
  · have further : k * stride ≤ 0 := Int.mul_nonpos_of_nonneg_of_nonpos (by omega) (by omega)
    omega
  · omega
  · have further : 0 ≤ k * stride := Int.mul_nonneg (by omega) (by omega)
    omega

theorem Progression.nil (h : ¬ Precedes stride first stop) : Progression first stride stop [] where
  term k bound := absurd bound (by simp)
  covers k := by simp [not_precedes_later h k]

theorem Progression.cons {position : Nat} {rest : List Nat} (h : Precedes stride first stop)
    (here : (position : Int) = first) (later : Progression (first + stride) stride stop rest) :
    Progression first stride stop (position :: rest) := by
  have shift (k : Nat) : first + stride + k * stride = first + (k + 1 : Nat) * stride := by
    rw [Int.natCast_succ, Int.add_mul, Int.one_mul]
    omega
  constructor
  · intro k bound
    cases k with
    | zero => simpa using here
    | succ k => simpa [shift] using later.term k (by simpa using bound)
  · intro k
    cases k with
    | zero => simpa using h
    | succ k => simpa [shift] using later.covers k

end Progressions

/-! ## The rounds of a slice -/

theorem sum_outside_of_addWithin? {a b : Int64} (h : addWithin? a b = none) :
    a.toInt + b.toInt < Int64.minValue.toInt ∨ Int64.maxValue.toInt < a.toInt + b.toInt := by
  unfold addWithin? at h
  split at h
  · cases h
  · omega

/-- The rounds of a slice from `i` on.  In each round a position is noted and the stride is added;
they end at the stop, or where the sum would not have 64 bits. -/
inductive Passes (stop stride : Int64) : (i : Int64) → List Nat → Prop where
  | ended {i} (reached : ¬ Precedes stride.toInt i.toInt stop.toInt) : Passes stop stride i []
  | last {i} (ahead : Precedes stride.toInt i.toInt stop.toInt)
      (leaves : addWithin? i stride = none) :
      Passes stop stride i [i.toNatClampNeg]
  | more {i next rest} (ahead : Precedes stride.toInt i.toInt stop.toInt)
      (sum : addWithin? i stride = some next) (further : Passes stop stride next rest) :
      Passes stop stride i (i.toNatClampNeg :: rest)

section Rounds

variable {stop stride : Int64}

/-- A slice with a positive stride comes to an end. -/
theorem ascending_passes (up : 0 < stride) (i : Int64) :
    Passes stop stride i (ascending stop stride i) := by
  have up' : 0 < stride.toInt := Int64.lt_iff_toInt_lt.mp up
  fun_induction ascending stop stride i with
  | case1 i before ih =>
    have ahead : Precedes stride.toInt i.toInt stop.toInt :=
      .inl ⟨up', Int64.lt_iff_toInt_lt.mp before⟩
    split
    · rename_i next sum
      have further : i < next := by
        rw [Int64.lt_iff_toInt_lt, toInt_of_addWithin?_eq_some sum]
        omega
      rw [if_pos further]
      exact .more ahead sum (ih next further)
    · rename_i leaves
      exact .last ahead leaves
  | case2 i reached =>
    rw [Int64.lt_iff_toInt_lt] at reached
    exact .ended (by unfold Precedes; omega)

/-- A slice with a negative stride comes to an end. -/
theorem descending_passes (down : stride < 0) (i : Int64) :
    Passes stop stride i (descending stop stride i) := by
  have down' : stride.toInt < 0 := Int64.lt_iff_toInt_lt.mp down
  fun_induction descending stop stride i with
  | case1 i before ih =>
    have ahead : Precedes stride.toInt i.toInt stop.toInt :=
      .inr ⟨down', Int64.lt_iff_toInt_lt.mp before⟩
    split
    · rename_i next sum
      have further : next < i := by
        rw [Int64.lt_iff_toInt_lt, toInt_of_addWithin?_eq_some sum]
        omega
      rw [if_pos further]
      exact .more ahead sum (ih next further)
    · rename_i leaves
      exact .last ahead leaves
  | case2 i reached =>
    rw [Int64.lt_iff_toInt_lt] at reached
    exact .ended (by unfold Precedes; omega)

/-- From `i` on, no round before the stop leaves a sequence of `n` items. -/
def Kept (n : Nat) (stride stop i : Int) : Prop :=
  0 < stride ∧ 0 ≤ i ∧ stop ≤ n ∨ stride < 0 ∧ i < n ∧ -1 ≤ stop

theorem Kept.next {n : Nat} {stride stop i : Int} (kept : Kept n stride stop i) :
    Kept n stride stop (i + stride) := by
  unfold Kept at kept ⊢
  omega

theorem Kept.inside {n : Nat} {stride stop i : Int} (kept : Kept n stride stop i)
    (ahead : Precedes stride i stop) : 0 ≤ i ∧ i < n := by
  unfold Kept at kept
  unfold Precedes at ahead
  omega

/-- What a round notes is the integer itself, since the rounds keep to the sequence. -/
theorem Kept.noted {n : Nat} {i : Int64} (kept : Kept n stride.toInt stop.toInt i.toInt)
    (ahead : Precedes stride.toInt i.toInt stop.toInt) :
    (i.toNatClampNeg : Int) = i.toInt ∧ i.toNatClampNeg < n := by
  have inside := kept.inside ahead
  rw [← Int64.toNat_toInt]
  omega

/-- A position that is no longer among the integers of 64 bits lies behind every stop. -/
theorem not_precedes_of_leaves {i : Int64} (leaves : addWithin? i stride = none) :
    ¬ Precedes stride.toInt (i.toInt + stride.toInt) stop.toInt := by
  have beyond := sum_outside_of_addWithin? leaves
  have least := Int64.minValue_le_toInt stop
  have greatest := Int64.toInt_le stop
  have least' := Int64.minValue_le_toInt i
  have greatest' := Int64.toInt_le i
  unfold Precedes
  omega

/-- The positions passed are exactly the terms before the stop, and they lie in the sequence. -/
theorem Passes.progression {n : Nat} {i : Int64} {positions : List Nat}
    (passes : Passes stop stride i positions) (kept : Kept n stride.toInt stop.toInt i.toInt) :
    Progression i.toInt stride.toInt stop.toInt positions ∧ ∀ p ∈ positions, p < n := by
  induction passes with
  | ended reached => exact ⟨.nil reached, by simp⟩
  | last ahead leaves =>
    obtain ⟨here, inside⟩ := kept.noted ahead
    exact ⟨.cons ahead here (.nil (not_precedes_of_leaves leaves)), by simpa using inside⟩
  | more ahead sum _ ih =>
    obtain ⟨here, inside⟩ := kept.noted ahead
    rw [toInt_of_addWithin?_eq_some sum] at ih
    obtain ⟨later, inside'⟩ := ih kept.next
    exact ⟨.cons ahead here later, by simpa using ⟨inside, inside'⟩⟩

end Rounds

/-! ## Written numbers as places -/

/-- The number is that of an item: not beyond the sequence from its start, nor from its end. -/
def Inside (n : Nat) (i : Int) : Prop := -(n : Int) ≤ i ∧ i < n

/-- The place of an index in a sequence of `n` items.  Negative numbers count from the end. -/
def place (n : Nat) (i : Int) : Int := if i < 0 then n + i else i

/-- The place where a slice starts.  A start that is left out is the near end of the sequence. -/
def firstPlace (n : Nat) (stride : Int) : Option Int64 → Int
  | some i => place n i.toInt
  | none => if stride < 0 then n - 1 else 0

/-- The place before which a slice stops.  A stop beyond the sequence is cut to its length, and one
that is left out is beyond the far end of the sequence. -/
def stopPlace (n : Nat) (stride : Int) : Option Int64 → Int
  | some i => if i.toInt < 0 then n + i.toInt else if i.toInt < n then i.toInt else n
  | none => if stride < 0 then -1 else n

/-- The sums with the length of a sequence that are not checked do not leave the integers of 64
bits: the length itself, the place before the end, and a number counted from the end. -/
structure ExactSums (n : Nat) : Prop where
  length : (Int64.ofNat n).toInt = n
  beforeEnd : (Int64.ofNat n - 1).toInt = n - 1
  fromEnd : ∀ i : Int64, -(n : Int) ≤ i.toInt → i.toInt < 0 →
    (Int64.ofNat n + i).toInt = n + i.toInt

theorem exactSums {n : Nat} (small : n < Nat.pow 2 63) : ExactSums n := by
  have bound : n < 9223372036854775808 := small
  have length : (Int64.ofNat n).toInt = n := Int64.toInt_ofNat_of_lt small
  refine ⟨length, ?_, fun i low high => ?_⟩
  · rw [Int64.toInt_sub, length]
    exact Int.bmod_eq_of_le (by simp; omega) (by simp; omega)
  · rw [Int64.toInt_add, length]
    exact Int.bmod_eq_of_le (by omega) (by omega)

section Places

variable {n : Nat}

theorem negative_iff {i : Int64} : i < 0 ↔ i.toInt < 0 := by
  rw [Int64.lt_iff_toInt_lt, Int64.toInt_zero]

theorem resolveIndex_of_inside (sums : ExactSums n) {i : Int64} (inside : Inside n i.toInt) :
    ∃ p, resolveIndex n i = .ok p ∧ p.toInt = place n i.toInt := by
  obtain ⟨low, high⟩ := inside
  have below : ¬ Int64.ofNat n ≤ i := by
    rw [Int64.le_iff_toInt_le, sums.length]
    omega
  rw [resolveIndex, if_neg below, place]
  by_cases negative : i < 0
  · have negative' : i.toInt < 0 := negative_iff.mp negative
    refine ⟨Int64.ofNat n + i, ?_, ?_⟩
    · rw [if_pos negative, if_neg (by omega)]
    · rw [if_pos negative', sums.fromEnd i low negative']
  · have negative' : ¬ i.toInt < 0 := mt negative_iff.mpr negative
    exact ⟨i, by rw [if_neg negative], by rw [if_neg negative']⟩

theorem place_inside {i : Int} (inside : Inside n i) : 0 ≤ place n i ∧ place n i < n := by
  obtain ⟨low, high⟩ := inside
  unfold place
  split <;> omega

theorem resolveIndex_of_outside (sums : ExactSums n) {i : Int64} (outside : ¬ Inside n i.toInt) :
    resolveIndex n i = .error (.indexOutOfRange i n) := by
  unfold Inside at outside
  rw [resolveIndex]
  by_cases beyond : Int64.ofNat n ≤ i
  · rw [if_pos beyond]
  · rw [if_neg beyond]
    rw [Int64.le_iff_toInt_le, sums.length] at beyond
    have negative : i < 0 := negative_iff.mpr (by omega)
    rw [if_pos negative, if_pos (by omega)]

theorem resolveStop_of_inside (sums : ExactSums n) {i : Int64} (low : -(n : Int) ≤ i.toInt)
    (stride : Int) : ∃ p, resolveStop n i = some p ∧ p.toInt = stopPlace n stride (some i) := by
  rw [resolveStop, stopPlace]
  by_cases negative : i < 0
  · have negative' : i.toInt < 0 := negative_iff.mp negative
    refine ⟨Int64.ofNat n + i, ?_, ?_⟩
    · rw [if_pos negative, if_neg (by omega)]
    · rw [if_pos negative', sums.fromEnd i low negative']
  · have negative' : ¬ i.toInt < 0 := mt negative_iff.mpr negative
    rw [if_neg negative, if_neg negative']
    refine ⟨_, rfl, ?_⟩
    by_cases within : i ≤ Int64.ofNat n
    · rw [if_pos within]
      rw [Int64.le_iff_toInt_le, sums.length] at within
      split <;> omega
    · rw [if_neg within, sums.length]
      rw [Int64.le_iff_toInt_le, sums.length] at within
      split <;> omega

theorem resolveStop_of_before {i : Int64} (before : i.toInt < -(n : Int)) :
    resolveStop n i = none := by
  have negative : i < 0 := negative_iff.mpr (by omega)
  rw [resolveStop, if_pos negative, if_pos (by omega)]

/-- Between a start in the sequence and a stop that is cut to it no round leaves the sequence. -/
theorem kept_places {start? stop? : Option Int64} {stride : Int} (nonzero : stride ≠ 0)
    (starts : ∀ i, start? = some i → Inside n i.toInt)
    (stops : ∀ i, stop? = some i → -(n : Int) ≤ i.toInt) :
    Kept n stride (stopPlace n stride stop?) (firstPlace n stride start?) := by
  have first : 0 < stride ∧ 0 ≤ firstPlace n stride start? ∨
      stride < 0 ∧ firstPlace n stride start? < n := by
    cases start? with
    | none => simp only [firstPlace]; split <;> omega
    | some i =>
      obtain ⟨low, high⟩ := starts i rfl
      simp only [firstPlace, place]
      split <;> omega
  have stop : 0 < stride ∧ stopPlace n stride stop? ≤ n ∨
      stride < 0 ∧ -1 ≤ stopPlace n stride stop? := by
    cases stop? with
    | none => simp only [stopPlace]; split <;> omega
    | some i =>
      have low := stops i rfl
      simp only [stopPlace]
      split
      · omega
      · split <;> omega
  unfold Kept
  omega

end Places

/-- The positions that a slice with these segments picks out of a sequence of `n` items: rounds that
come to an end pass them, they are the terms of the progression between the places of the segments,
and they lie in the sequence. -/
structure Picked (n : Nat) (start? stop? : Option Int64) (stride : Int64) (positions : List Nat) :
    Prop where
  ends : ∃ first stop : Int64, first.toInt = firstPlace n stride.toInt start? ∧
    stop.toInt = stopPlace n stride.toInt stop? ∧ Passes stop stride first positions
  progression : Progression (firstPlace n stride.toInt start?) stride.toInt
    (stopPlace n stride.toInt stop?) positions
  inside : ∀ p ∈ positions, p < n

section Slices

variable {n : Nat} {start? stop? first last : Option Int64} {stride : Int64}

/-- The rounds of a slice run from the place of its start to the place of its stop. -/
theorem slicePositions_passes (sums : ExactSums n) (nonzero : stride ≠ 0)
    (starts : first.map Int64.toInt = start?.map fun i => place n i.toInt)
    (stops : last.map Int64.toInt = stop?.map fun i => stopPlace n stride.toInt (some i)) :
    ∃ i stop : Int64, i.toInt = firstPlace n stride.toInt start? ∧
      stop.toInt = stopPlace n stride.toInt stop? ∧
      Passes stop stride i (slicePositions n first last stride) := by
  have nonzero' : stride.toInt ≠ 0 := fun h => nonzero (Int64.toInt_inj.mp h)
  unfold slicePositions
  by_cases up : 0 < stride
  · have up' : 0 < stride.toInt := Int64.lt_iff_toInt_lt.mp up
    rw [if_pos up]
    refine ⟨_, _, ?_, ?_, ascending_passes up _⟩
    · cases start? <;> cases first <;> simp_all [firstPlace]
      omega
    · cases stop? <;> cases last <;> simp_all [stopPlace, sums.length]
      omega
  · have down' : stride.toInt < 0 := by
      rw [Int64.lt_iff_toInt_lt, Int64.toInt_zero] at up
      omega
    rw [if_neg up]
    refine ⟨_, _, ?_, ?_, descending_passes (Int64.lt_iff_toInt_lt.mpr down') _⟩
    · cases start? <;> cases first <;> simp_all [firstPlace, sums.beforeEnd]
    · cases stop? <;> cases last <;> simp_all [stopPlace]

theorem picked_slicePositions (sums : ExactSums n) (nonzero : stride ≠ 0)
    (inside : ∀ i, start? = some i → Inside n i.toInt)
    (within : ∀ i, stop? = some i → -(n : Int) ≤ i.toInt)
    (starts : first.map Int64.toInt = start?.map fun i => place n i.toInt)
    (stops : last.map Int64.toInt = stop?.map fun i => stopPlace n stride.toInt (some i)) :
    Picked n start? stop? stride (slicePositions n first last stride) := by
  have nonzero' : stride.toInt ≠ 0 := fun h => nonzero (Int64.toInt_inj.mp h)
  obtain ⟨i, stop, hi, hstop, passes⟩ := slicePositions_passes sums nonzero starts stops
  have kept := kept_places nonzero' inside within
  rw [← hi, ← hstop] at kept
  obtain ⟨progression, contained⟩ := passes.progression kept
  rw [hi, hstop] at progression
  exact ⟨⟨i, stop, hi, hstop, passes⟩, progression, contained⟩

end Slices

/-! ## What subscripts pick -/

section Subscripts

variable {n : Nat} {m : Machine} {scope : ScopeId} {start? stop? stride? : Option Int64}
  {s s₁ s₂ s₃ : Store}

theorem startOf_of_inside (sums : ExactSums n) (inside : ∀ i, start? = some i → Inside n i.toInt) :
    ∃ first, startOf n start? = pure first ∧
      first.map Int64.toInt = start?.map fun i => place n i.toInt := by
  cases start? with
  | none => exact ⟨none, rfl, rfl⟩
  | some i =>
    obtain ⟨p, resolved, hp⟩ := resolveIndex_of_inside sums (inside i rfl)
    refine ⟨some p, ?_, by simp [hp]⟩
    rw [startOf, resolved]
    rfl

theorem stopOf_of_within (sums : ExactSums n)
    (within : ∀ i, stop? = some i → -(n : Int) ≤ i.toInt) (stride : Int) :
    ∃ last, stopOf n stop? = some last ∧
      last.map Int64.toInt = stop?.map fun i => stopPlace n stride (some i) := by
  cases stop? with
  | none => exact ⟨none, rfl, rfl⟩
  | some i =>
    obtain ⟨p, resolved, hp⟩ := resolveStop_of_inside sums (within i rfl) stride
    exact ⟨some p, by rw [stopOf, resolved]; rfl, by simp [hp]⟩

/-- A start outside of the sequence ends the slice before its stop is evaluated. -/
theorem sliceOf_of_outside (sums : ExactSums n) {start stop stride : Eval (Option Int64)}
    {i : Int64} (hstart : start s = (.done (some i), s₁)) (outside : ¬ Inside n i.toInt) :
    sliceOf n start stop stride s = (.fault (.indexOutOfRange i n), s₁) := by
  rw [sliceOf, Eval.bind_of_done hstart, startOf, resolveIndex_of_outside sums outside]
  rfl

/-- A stop before the sequence ends the slice before its stride is evaluated. -/
theorem sliceOf_of_before (sums : ExactSums n) {start stop stride : Eval (Option Int64)}
    {i : Int64} (hstart : start s = (.done start?, s₁))
    (inside : ∀ i, start? = some i → Inside n i.toInt) (hstop : stop s₁ = (.done (some i), s₂))
    (before : i.toInt < -(n : Int)) :
    sliceOf n start stop stride s = (.done (.several []), s₂) := by
  obtain ⟨first, hfirst, -⟩ := startOf_of_inside sums inside
  rw [sliceOf, Eval.bind_of_done hstart, hfirst, pure_bind, Eval.bind_of_done hstop, stopOf,
    resolveStop_of_before before]
  rfl

/-- A slice whose start lies in the sequence and whose stop does not lie before it comes to its
stride. -/
theorem sliceOf_of_within (sums : ExactSums n) {start stop stride : Eval (Option Int64)}
    (hstart : start s = (.done start?, s₁)) (inside : ∀ i, start? = some i → Inside n i.toInt)
    (hstop : stop s₁ = (.done stop?, s₂)) (within : ∀ i, stop? = some i → -(n : Int) ≤ i.toInt) :
    ∃ first last, sliceOf n start stop stride s = (do
        let stride? ← stride
        if stride?.getD 1 = 0 then Eval.fail .zeroStride
        else return Selection.several (slicePositions n first last (stride?.getD 1))) s₂ ∧
      ∀ stride, stride ≠ 0 → Picked n start? stop? stride (slicePositions n first last stride) := by
  obtain ⟨first, hfirst, starts⟩ := startOf_of_inside sums inside
  obtain ⟨last, hlast, -⟩ := stopOf_of_within sums within 1
  refine ⟨first, last, ?_, fun stride nonzero => ?_⟩
  · rw [sliceOf, Eval.bind_of_done hstart, hfirst, pure_bind, Eval.bind_of_done hstop, hlast]
  · obtain ⟨last', hlast', stops⟩ := stopOf_of_within sums within stride.toInt
    cases hlast.symm.trans hlast'
    exact picked_slicePositions sums nonzero inside within starts stops

end Subscripts

/-- What a subscript picks out of a sequence.  An index picks its place if that lies in the
sequence, and is a fault otherwise.  A slice is a fault if its start lies outside of the sequence;
else it is empty if its stop lies before the sequence; else it picks the terms of the progression
from its start by its stride that come before its stop. -/
theorem select_positions {n : Nat} (small : n < Nat.pow 2 63) (m : Machine) (scope : ScopeId) :
    ExactSums n ∧
    (∀ e i s s', Expr.eval m scope e s = (.done (.int i), s') →
      (Inside n i.toInt → ∃ p : Nat, (p : Int) = place n i.toInt ∧ p < n ∧
        (Subscript.item e).select m scope n s = (.done (.single p), s')) ∧
      (¬ Inside n i.toInt →
        (Subscript.item e).select m scope n s = (.fault (.indexOutOfRange i n), s'))) ∧
    ∀ sub start stop stride start? stop? stride? s s₁ s₂ s₃,
      Subscript.slice? sub = some (start, stop, stride) →
      evalSegment m scope start s = (.done start?, s₁) →
      evalSegment m scope stop s₁ = (.done stop?, s₂) →
      evalSegment m scope stride s₂ = (.done stride?, s₃) → stride? ≠ some 0 →
      (∀ i, start? = some i → ¬ Inside n i.toInt →
        sub.select m scope n s = (.fault (.indexOutOfRange i n), s₁)) ∧
      ((∀ i, start? = some i → Inside n i.toInt) →
        (∀ i, stop? = some i → i.toInt < -(n : Int) →
          sub.select m scope n s = (.done (.several []), s₂)) ∧
        ((∀ i, stop? = some i → -(n : Int) ≤ i.toInt) → ∃ positions,
          sub.select m scope n s = (.done (.several positions), s₃) ∧
          Picked n start? stop? (stride?.getD 1) positions)) := by
  have sums := exactSums small
  refine ⟨sums, fun e i s s' he => ⟨fun inside => ?_, fun outside => ?_⟩, ?_⟩
  · obtain ⟨p, resolved, hp⟩ := resolveIndex_of_inside sums inside
    obtain ⟨low, high⟩ := place_inside inside
    refine ⟨p.toNatClampNeg, ?_, ?_, ?_⟩
    · rw [← Int64.toNat_toInt]
      omega
    · rw [← Int64.toNat_toInt]
      omega
    · rw [Subscript.select, Rule.item, Eval.bind_of_done he]
      show (Eval.lift (resolveIndex n i) >>= _) s' = _
      rw [resolved]
      rfl
  · rw [Subscript.select, Rule.item, Eval.bind_of_done he]
    show (Eval.lift (resolveIndex n i) >>= _) s' = _
    rw [resolveIndex_of_outside sums outside]
    rfl
  · intro sub start stop stride start? stop? stride? s s₁ s₂ s₃ written hstart hstop hstride nonzero
    rw [Subscript.select_of_slice? written]
    refine ⟨?_, fun inside => ⟨?_, fun within => ?_⟩⟩
    · rintro i rfl outside
      exact sliceOf_of_outside sums hstart outside
    · rintro i rfl before
      exact sliceOf_of_before sums hstart inside hstop before
    · obtain ⟨first, last, run, picked⟩ := sliceOf_of_within sums hstart inside hstop within
      have nonzero' : stride?.getD 1 ≠ 0 := by
        cases stride? with
        | none => decide
        | some t => exact fun h => nonzero (congrArg some h)
      refine ⟨_, ?_, picked (stride?.getD 1) nonzero'⟩
      rw [run, Eval.bind_of_done hstride, if_neg nonzero']
      rfl

/-- The slice from the last item but one by the least stride there is: the next position would not
have 64 bits. -/
theorem select_positions_least_stride :
    let machine := Machine.withLimit .standard 0
    let store := (Store.empty.enclose none).2
    let start := Expr.unary .neg (.int 2)
    let stride := Expr.int 9223372036854775808
    let sub := Subscript.stepped (some start) none (some stride)
    5 < Nat.pow 2 63 ∧
      evalSegment machine 0 (some start) store = (.done (some (-2)), store) ∧
      evalSegment machine 0 (some stride) store = (.done (some Int64.minValue), store) ∧
      Inside 5 (-2) ∧
      ∃ positions, sub.select machine 0 5 store = (.done (.several positions), store) ∧
        Picked 5 (some (-2)) none Int64.minValue positions := by
  intro machine store start stride sub
  have small : 5 < Nat.pow 2 63 := by decide
  have inside : Inside 5 (-2) := by
    constructor <;> decide
  obtain ⟨_, _, slices⟩ := select_positions small machine 0
  obtain ⟨_, picks⟩ := slices sub (some start) none (some stride) (some (-2)) none
    (some Int64.minValue) store store store store rfl rfl rfl rfl (by decide)
  refine ⟨small, rfl, rfl, inside, (picks ?_).2 ?_⟩
  · rintro i ⟨⟩
    exact inside
  · rintro i ⟨⟩

end MonkeyLang
