import MonkeyLang.Proofs.RoundTrip

/-!
# How high trees can get

Reading is given a number of levels.  What is read below an expression is given one level less, and
so is what is joined to it, so a path from the top of a tree downwards is bounded by the levels, as
long as it does not enter a left operand.  A left operand has been read before anything was joined
to it, and the levels that were used inside it count no longer: its height comes on top of the
levels that are left.  So a tree can be higher than there are levels, and how much higher is known
exactly.

Nothing here needs a text without mistakes: what cannot be read is left out of the tree.

## Main definitions

* `Expr.Path`: the paths from the top of a tree downwards, and whether they enter a left operand
* `triangle`: the greatest height for a number of levels
* `tower`: lists in lists with calls behind each of them, among them the trees of that height

## Main results

* `Grammar.expression_climb_bounds`: what the levels bound
* `tower_opens`: which towers are read
* `height_le_iff_of_parse`: when the height of the trees of a program is bounded by the levels, and
  which heights there are
* `height_parse_calledLists`: a text whose tree is higher than there are levels
-/

namespace MonkeyLang

/-! ## Paths -/

namespace Expr

/-- A path of `n` expressions from the top of the tree downwards; `leans` says whether it enters a
left operand. -/
inductive Path : (root : Expr) → (n : Nat) → (leans : Bool) → Prop where
  | top (e : Expr) : Path e 1 false
  | left {e l : Expr} {n : Nat} {leans : Bool} (left : e.left? = some l) (path : Path l n leans) :
      Path e (n + 1) true
  | other {e c : Expr} {n : Nat} {leans : Bool} (other : c ∈ e.others) (path : Path c n leans) :
      Path e (n + 1) leans

theorem mem_children_of_left {e l : Expr} (h : e.left? = some l) : l ∈ e.children :=
  List.mem_append_left _ (Option.mem_toList.mpr h)

theorem mem_children_of_others {e c : Expr} (h : c ∈ e.others) : c ∈ e.children :=
  List.mem_append_right _ h

/-- No path is longer than the tree is high. -/
theorem Path.le_height {e : Expr} {n : Nat} {leans : Bool} (path : e.Path n leans) :
    n ≤ e.height := by
  induction path with
  | top e => exact e.height_pos
  | left left _ ih =>
    have lt := height_lt (mem_children_of_left left)
    omega
  | other other _ ih =>
    have lt := height_lt (mem_children_of_others other)
    omega

theorem exists_path_of_child {e c : Expr} {n : Nat} {leans : Bool} (h : c ∈ e.children)
    (path : c.Path n leans) : ∃ leans, e.Path (n + 1) leans := by
  rcases List.mem_append.mp h with h | h
  · exact ⟨true, .left (Option.mem_toList.mp h) path⟩
  · exact ⟨leans, .other h path⟩

/-- A tree is no higher than its paths are long. -/
theorem height_le_of_paths {e : Expr} {k : Nat} (bound : ∀ n leans, e.Path n leans → n ≤ k) :
    e.height ≤ k := by
  induction e using Expr.induction generalizing k with
  | step e ih =>
  -- a path below a child is one shorter than the path from the top
  obtain ⟨k, rfl⟩ := Nat.exists_eq_succ_of_ne_zero (Nat.ne_of_gt (bound 1 false (.top e)))
  refine height_le fun c mem => ih c mem fun n leans path => ?_
  obtain ⟨leans, longer⟩ := exists_path_of_child mem path
  exact Nat.le_of_succ_le_succ (bound _ _ longer)

/-- Below a tree there are trees of every smaller height. -/
theorem exists_within_of_le_height {e : Expr} {h : Nat} (pos : 0 < h) (le : h ≤ e.height) :
    ∃ e', e.Within e' ∧ e'.height = h := by
  induction e using Expr.induction with
  | step e ih =>
  rcases Nat.eq_or_lt_of_le le with rfl | lt
  · exact ⟨e, .root e, rfl⟩
  · by_cases high : ∃ c ∈ e.children, h ≤ c.height
    · obtain ⟨c, mem, le⟩ := high
      obtain ⟨e', within, height⟩ := ih c mem le
      exact ⟨e', .inside mem within, height⟩
    · -- children below `h` would leave no room for a tree above `h`
      have low : e.height ≤ h - 1 + 1 := by
        refine height_le fun c mem => ?_
        have lower : ¬ h ≤ c.height := fun le => high ⟨c, mem, le⟩
        omega
      omega

end Expr

/-! ## What readers build -/

namespace Grammar

open Parse

/-- All expressions that are read have the property `P`. -/
def Builds (expr : Precedence → Parse Expr) (P : Expr → Prop) : Prop :=
  ∀ p s e s', expr p s = (some e, s') → P e

section Parts

variable {expr : Precedence → Parse Expr} {P : Expr → Prop} (builds : Builds expr P)
  {s s' : ParseState}
include builds

theorem expressions_builds {close : Token.Kind} {es : List Expr}
    (run : expressions expr close s = (some es, s')) : ∀ e ∈ es, P e := by
  unfold expressions at run
  rw [bind_peek] at run
  split at run
  · cases run
    nofun
  · rw [bind_advance] at run
    obtain ⟨first, s₁, run₁, run⟩ := bind_eq_some_iff.mp run
    obtain ⟨rest, s₂, run₂, run⟩ := bind_eq_some_iff.mp run
    obtain ⟨_, s₃, run₃, run⟩ := bind_eq_some_iff.mp run
    cases run
    refine List.forall_mem_cons.mpr ⟨builds _ _ _ _ run₁, ?_⟩
    exact (rounds_of_many run₂).forall_mem fun s e s' read => builds _ _ _ _ read

theorem pairs_builds {ps : List (Expr × Expr)} (run : pairs expr s = (some ps, s')) :
    ∀ e ∈ ps.flatMap fun pair => [pair.1, pair.2], P e := by
  unfold pairs at run
  obtain ⟨found, s₁, run₁, run⟩ := bind_eq_some_iff.mp run
  obtain ⟨_, s₂, run₂, run⟩ := bind_eq_some_iff.mp run
  cases run
  have each : ∀ pair ∈ ps, P pair.1 ∧ P pair.2 := by
    refine (rounds_of_many run₁).forall_mem fun s pair s' read => ?_
    -- a pair is read as two expressions, with or without a comma behind them
    unfold Grammar.pair at read
    rw [bind_advance] at read
    obtain ⟨key, s₁, read₁, read⟩ := bind_eq_some_iff.mp read
    obtain ⟨_, s₂, read₂, read⟩ := bind_eq_some_iff.mp read
    rw [bind_advance] at read
    obtain ⟨value, s₃, read₃, read⟩ := bind_eq_some_iff.mp read
    have built := And.intro (builds _ _ _ _ read₁) (builds _ _ _ _ read₃)
    rw [bind_peek] at read
    split at read
    · cases read
      exact built
    · obtain ⟨_, s₄, _, read⟩ := bind_eq_some_iff.mp read
      cases read
      exact built
  intro e mem
  obtain ⟨pair, mem, h⟩ := List.mem_flatMap.mp mem
  have := each pair mem
  simp at h
  rcases h with rfl | rfl
  · exact this.1
  · exact this.2

theorem segment_builds {closing : List Token.Kind} {e? : Option Expr}
    (run : segment expr closing s = (some e?, s')) : ∀ e ∈ e?.toList, P e := by
  unfold segment at run
  rw [bind_peek] at run
  split at run
  · cases run
    nofun
  · rw [bind_advance] at run
    obtain ⟨e, s₁, run₁, run⟩ := bind_eq_some_iff.mp run
    cases run
    exact List.forall_mem_singleton.mpr (builds _ _ _ _ run₁)

theorem sliceFrom_builds {start : Option Expr} {sub : Subscript} (first : ∀ e ∈ start.toList, P e)
    (run : sliceFrom expr start s = (some sub, s')) : ∀ e ∈ sub.parts, P e := by
  unfold sliceFrom at run
  rw [bind_advance] at run
  obtain ⟨stop, s₁, run₁, run⟩ := bind_eq_some_iff.mp run
  have second := segment_builds builds run₁
  rw [bind_peek] at run
  split at run
  · rw [bind_advance] at run
    obtain ⟨stride, s₂, run₂, run⟩ := bind_eq_some_iff.mp run
    obtain ⟨_, s₃, _, run⟩ := bind_eq_some_iff.mp run
    cases run
    have third := segment_builds builds run₂
    exact List.forall_mem_append.mpr ⟨List.forall_mem_append.mpr ⟨first, second⟩, third⟩
  · obtain ⟨_, s₂, _, run⟩ := bind_eq_some_iff.mp run
    cases run
    exact List.forall_mem_append.mpr ⟨first, second⟩

theorem subscript_builds {sub : Subscript} (run : subscript expr s = (some sub, s')) :
    ∀ e ∈ sub.parts, P e := by
  unfold subscript at run
  rw [bind_peek] at run
  split at run
  · cases run
    nofun
  · split at run
    · have nothing : ∀ e ∈ (none : Option Expr).toList, P e := nofun
      exact sliceFrom_builds builds nothing run
    · rw [bind_advance] at run
      obtain ⟨index, s₁, run₁, run⟩ := bind_eq_some_iff.mp run
      have first : ∀ e ∈ (some index).toList, P e :=
        List.forall_mem_singleton.mpr (builds _ _ _ _ run₁)
      rw [bind_peek] at run
      split at run
      · exact sliceFrom_builds builds first run
      · obtain ⟨_, s₂, _, run⟩ := bind_eq_some_iff.mp run
        cases run
        exact first

theorem statement_builds {st : Stmt} (run : statement expr s = (some st, s')) : P st.value := by
  -- every statement ends in the expression that is its value
  have ending {s : ParseState} {build : Expr → Stmt} (keeps : ∀ e, (build e).value = e)
      (run : (expr .lowest >>= fun value => skip .semicolon >>= fun _ => pure (build value)) s =
        (some st, s')) : P st.value := by
    obtain ⟨value, s₁, run₁, run⟩ := bind_eq_some_iff.mp run
    obtain ⟨_, s₂, _, run⟩ := bind_eq_some_iff.mp run
    cases run
    rw [keeps]
    exact builds _ _ _ _ run₁
  revert run
  apply statement_cases expr s (motive := fun result => result = (some st, s') → P st.value)
  case bind =>
    intro _ run
    obtain ⟨_, s₁, _, run⟩ := bind_eq_some_iff.mp run
    rw [bind_current] at run
    obtain ⟨_, s₂, _, run⟩ := bind_eq_some_iff.mp run
    rw [bind_advance] at run
    exact ending (fun _ => rfl) run
  case ret => exact fun _ run => ending (fun _ => rfl) run
  case value => exact fun _ _ run => ending (fun _ => rfl) run

/-- A statement that cannot be read is left out, so nothing is known of it. -/
theorem statements_builds {more : ParseState → Bool} {ss : List Stmt}
    (run : statements expr more s = (some ss, s')) : ∀ e ∈ ss.map Stmt.value, P e := by
  unfold statements at run
  obtain ⟨found, s₁, run₁, run⟩ := bind_eq_some_iff.mp run
  cases run
  have rounds : Rounds more (statementRound expr) s found s' := rounds_of_many run₁
  -- each round gives a statement or nothing
  have each : ∀ st? ∈ found, ∀ st ∈ st?, P (Stmt.value st) := by
    refine rounds.forall_mem fun s st? s' read => ?_
    obtain ⟨_, s₁, read₁, read⟩ := bind_eq_some_iff.mp read
    cases read
    rw [attempt_run] at read₁
    cases read₁
    intro st hst
    exact statement_builds builds (Prod.ext hst rfl)
  intro e value
  obtain ⟨st, mem, rfl⟩ := List.mem_map.mp value
  obtain ⟨st?, mem', h⟩ := List.mem_filterMap.mp mem
  exact each st? mem' st h

theorem block_builds {ss : List Stmt} (run : block expr s = (some ss, s')) :
    ∀ e ∈ ss.map Stmt.value, P e := by
  unfold block at run
  rw [bind_advance] at run
  exact statements_builds builds run

theorem conditional_builds {e : Expr} (run : conditional expr s = (some e, s')) :
    e.left? = none ∧ ∀ c ∈ e.others, P c := by
  unfold conditional at run
  obtain ⟨_, s₁, _, run⟩ := bind_eq_some_iff.mp run
  rw [bind_advance] at run
  obtain ⟨test, s₂, run₂, run⟩ := bind_eq_some_iff.mp run
  obtain ⟨_, s₃, _, run⟩ := bind_eq_some_iff.mp run
  obtain ⟨_, s₄, _, run⟩ := bind_eq_some_iff.mp run
  obtain ⟨yes, s₅, run₅, run⟩ := bind_eq_some_iff.mp run
  have first := builds _ _ _ _ run₂
  have body := block_builds builds run₅
  rw [bind_peek] at run
  split at run
  · rw [bind_advance] at run
    obtain ⟨_, s₆, _, run⟩ := bind_eq_some_iff.mp run
    obtain ⟨no, s₇, run₇, run⟩ := bind_eq_some_iff.mp run
    cases run
    have body' := block_builds builds run₇
    exact ⟨rfl, List.forall_mem_cons.mpr ⟨first, List.forall_mem_append.mpr ⟨body, body'⟩⟩⟩
  · cases run
    exact ⟨rfl, List.forall_mem_cons.mpr ⟨first, List.forall_mem_append.mpr ⟨body, nofun⟩⟩⟩

/-- An operand is an expression in parentheses, or nothing is joined in it and all below it is
read. -/
theorem operand_builds {e : Expr} (run : operand expr s = (some e, s')) :
    P e ∨ e.left? = none ∧ ∀ c ∈ e.others, P c := by
  revert run
  apply operand_cases expr s
    (motive := fun result => result = (some e, s') → P e ∨ e.left? = none ∧ ∀ c ∈ e.others, P c)
  case int =>
    intro _ run
    unfold integer at run
    split at run
    · cases run
      exact .inr ⟨rfl, nofun⟩
    · cases run
  case unary =>
    intro op _ run
    obtain ⟨operand, s₁, run₁, run⟩ := bind_eq_some_iff.mp run
    cases run
    exact .inr ⟨rfl, List.forall_mem_singleton.mpr (builds _ _ _ _ run₁)⟩
  case paren =>
    intro _ run
    unfold group at run
    rw [bind_advance] at run
    obtain ⟨inner, s₁, run₁, run⟩ := bind_eq_some_iff.mp run
    obtain ⟨_, s₂, _, run⟩ := bind_eq_some_iff.mp run
    cases run
    exact .inl (builds _ _ _ _ run₁)
  case cond => exact fun _ run => .inr (conditional_builds builds run)
  case fn =>
    intro _ run
    unfold function at run
    obtain ⟨_, s₁, _, run⟩ := bind_eq_some_iff.mp run
    obtain ⟨params, s₂, _, run⟩ := bind_eq_some_iff.mp run
    obtain ⟨_, s₃, _, run⟩ := bind_eq_some_iff.mp run
    obtain ⟨body, s₄, run₄, run⟩ := bind_eq_some_iff.mp run
    cases run
    exact .inr ⟨rfl, block_builds builds run₄⟩
  case array =>
    intro _ run
    obtain ⟨items, s₁, run₁, run⟩ := bind_eq_some_iff.mp run
    cases run
    exact .inr ⟨rfl, expressions_builds builds run₁⟩
  case hash =>
    intro _ run
    obtain ⟨entries, s₁, run₁, run⟩ := bind_eq_some_iff.mp run
    cases run
    exact .inr ⟨rfl, pairs_builds builds run₁⟩
  case other => exact fun run => nomatch run
  case bool =>
    rintro b _ ⟨⟩
    exact .inr ⟨rfl, nofun⟩
  all_goals
    rintro _ ⟨⟩
    exact .inr ⟨rfl, nofun⟩

/-- What is joined to an expression has it for its left operand, and all else below it is read. -/
theorem joined_builds {left e : Expr} (run : joined expr left s = (some e, s')) :
    e = left ∨ e.left? = some left ∧ ∀ c ∈ e.others, P c := by
  revert run
  apply joined_cases expr s left
    (motive := fun result => result = (some e, s') →
      e = left ∨ e.left? = some left ∧ ∀ c ∈ e.others, P c)
  case call =>
    intro _ run
    obtain ⟨args, s₁, run₁, run⟩ := bind_eq_some_iff.mp run
    cases run
    exact .inr ⟨rfl, expressions_builds builds run₁⟩
  case index =>
    intro _ run
    obtain ⟨sub, s₁, run₁, run⟩ := bind_eq_some_iff.mp run
    cases run
    exact .inr ⟨rfl, subscript_builds builds run₁⟩
  case binary =>
    intro op _ run
    obtain ⟨right, s₁, run₁, run⟩ := bind_eq_some_iff.mp run
    cases run
    exact .inr ⟨rfl, List.forall_mem_singleton.mpr (builds _ _ _ _ run₁)⟩
  case other =>
    rintro _ ⟨⟩
    exact .inl rfl

end Parts

/-! ### What the levels bound -/

/-- The paths below every expression of the tree that enter no left operand have at most `n`
expressions. -/
def Upright (n : Nat) (root : Expr) : Prop :=
  ∀ e, root.Within e → ∀ k, e.Path k false → k ≤ n

theorem Upright.mono {n m : Nat} {e : Expr} (h : Upright n e) (le : n ≤ m) : Upright m e :=
  fun e' within k path => Nat.le_trans (h e' within k path) le

/-- What is not below the left operand is one level further down; the left operand stands for
itself. -/
theorem Upright.of_children {n : Nat} {e : Expr} (left : ∀ l ∈ e.left?, Upright (n + 1) l)
    (others : ∀ c ∈ e.others, Upright n c) : Upright (n + 1) e := by
  intro e' within k path
  cases within with
  | root =>
    cases path with
    -- a path that enters no left operand goes on below the others
    | top => exact Nat.succ_le_succ (Nat.zero_le n)
    | other mem path => exact Nat.succ_le_succ (others _ mem _ (.root _) _ path)
  | inside child within =>
    rcases List.mem_append.mp child with mem | mem
    · exact left _ (Option.mem_toList.mp mem) e' within k path
    · exact Nat.le_succ_of_le (others _ mem e' within k path)

end Grammar

/-- The sum of the numbers up to `n`. -/
def triangle : Nat → Nat
  | 0 => 0
  | n + 1 => triangle n + n + 1

theorem triangle_eq (n : Nat) : triangle n = n * (n + 1) / 2 := by
  have double : ∀ n, 2 * triangle n = n * (n + 1) := by
    intro n
    induction n with
    | zero => rfl
    | succ n ih =>
      rw [triangle, Nat.mul_add, Nat.mul_add, ih]
      grind
  rw [← double n, Nat.mul_div_cancel_left _ (by decide)]

theorem Expr.height_le_of_others {e : Expr} {n : Nat} (left : ∀ l ∈ e.left?, l.height ≤ n)
    (others : ∀ c ∈ e.others, c.height ≤ n) : e.height ≤ n + 1 := by
  refine height_le fun c mem => ?_
  rcases List.mem_append.mp mem with mem | mem
  · exact left c (Option.mem_toList.mp mem)
  · exact others c mem

namespace Grammar

open Parse

/-- With a number of levels, a tree is upright up to that number, and as high as the sum of the
numbers up to it.  What is joined to a tree adds to its height what is left of the levels. -/
theorem expression_climb_bounds (room : Nat) :
    Builds (expression room) (fun e => Upright room e ∧ e.height ≤ triangle room) ∧
      ∀ p left s e s' n h, room < n → triangle room ≤ h → Upright n left → left.height ≤ h →
        climb room p left s = (some e, s') → Upright n e ∧ e.height ≤ h + room := by
  induction room with
  | zero =>
    refine ⟨?_, ?_⟩
    · rintro p s e s' ⟨⟩
    intro p left s e s' n h _ _ upright low run
    by_cases binds : p.rank < s.peek.kind.precedence.rank
    · rw [climb_zero binds] at run
      cases run
    · rw [climb_of_not_binds binds] at run
      cases run
      exact ⟨upright, low⟩
  | succ room ih =>
    obtain ⟨builds, climbs⟩ := ih
    refine ⟨fun p s e s' run => ?_, ?_⟩
    · rw [expression] at run
      obtain ⟨left, s₁, run₁, run⟩ := bind_eq_some_iff.mp run
      -- an operand is at most one level higher than what is read with one level less, and an
      -- expression in parentheses is not higher at all
      have first : Upright (room + 1) left ∧ left.height ≤ triangle room + 1 := by
        rcases operand_builds builds run₁ with ⟨upright, low⟩ | ⟨none, others⟩
        · exact ⟨upright.mono (Nat.le_succ room), Nat.le_succ_of_le low⟩
        · refine ⟨.of_children ?_ fun c mem => (others c mem).1, ?_⟩
          · rw [none]
            rintro _ ⟨⟩
          · refine Expr.height_le_of_others ?_ fun c mem => (others c mem).2
            rw [none]
            rintro _ ⟨⟩
      have bounds := climbs p left s₁ e s' (room + 1) (triangle room + 1) (Nat.lt_succ_self _)
        (Nat.le_succ _) first.1 first.2 run
      rw [triangle, Nat.add_right_comm]
      exact bounds
    · intro p left s e s' n h less enough upright low run
      rw [triangle] at enough
      by_cases binds : p.rank < s.peek.kind.precedence.rank
      · rw [climb_succ binds] at run
        obtain ⟨next, s₁, run₁, run⟩ := bind_eq_some_iff.mp run
        -- what is read on the right stays within the bound `h` by itself, so joining it adds one
        -- level, wherever it is the highest
        have joined : Upright n next ∧ next.height ≤ h + 1 := by
          rcases joined_builds builds run₁ with rfl | ⟨some, others⟩
          · exact ⟨upright, Nat.le_succ_of_le low⟩
          · obtain ⟨n, rfl⟩ := Nat.exists_eq_succ_of_ne_zero (Nat.ne_zero_of_lt less)
            refine ⟨.of_children ?_ fun c mem => (others c mem).1.mono (by omega), ?_⟩
            · rw [some]
              rintro _ ⟨⟩
              exact upright
            · refine Expr.height_le_of_others ?_ fun c mem => Nat.le_trans (others c mem).2 (by omega)
              rw [some]
              rintro _ ⟨⟩
              exact low
        have bounds := climbs p next s₁ e s' n (h + 1) (by omega) (by omega) joined.1 joined.2 run
        exact ⟨bounds.1, by omega⟩
      · rw [climb_of_not_binds binds] at run
        cases run
        exact ⟨upright, by omega⟩

end Grammar

/-- What the levels bound in a program, clean or not. -/
theorem parse_bounds (source : String) :
    ∀ st ∈ (parse source).program.statements,
      Grammar.Upright Grammar.maxNesting st.value ∧
        st.value.height ≤ triangle Grammar.maxNesting := by
  have builds := (Grammar.expression_climb_bounds Grammar.maxNesting).1
  intro st mem
  cases run : Grammar.program (.start (scan source)) with
  | mk statements? s =>
  have statements : (parse source).program.statements = statements?.getD [] := by
    rw [parse, TokenStream.parse, run]
  rw [statements] at mem
  cases statements? with
  | none => cases mem
  | some ss => exact Grammar.statements_builds builds run _ (List.mem_map_of_mem mem)

/-! ## Towers -/

open ParseState Grammar

/-- The expression with calls without arguments joined to it. -/
def calls : Nat → Expr → Expr
  | 0, e => e
  | n + 1, e => calls n (.call e [])

/-- A list in a list, `n` times, and a number of calls of each but the innermost. -/
def tower (joins : Nat → Nat) : Nat → Expr
  | 0 => .array []
  | n + 1 => calls (joins n) (.array [tower joins n])

theorem calls_height (n : Nat) (e : Expr) : (calls n e).height = e.height + n := by
  induction n generalizing e with
  | zero => rfl
  | succ n ih =>
    rw [calls, ih, Expr.height_eq (.call e []), Expr.children_call]
    simp only [List.map_cons, List.map_nil, List.foldr_cons, List.foldr_nil, Nat.max_zero]
    omega

theorem tower_height_succ (joins : Nat → Nat) (n : Nat) :
    (tower joins (n + 1)).height = (tower joins n).height + 1 + joins n := by
  rw [tower, calls_height, Expr.height_eq (.array _), Expr.children_array]
  simp only [List.map_cons, List.map_nil, List.foldr_cons, List.foldr_nil, Nat.max_zero]

/-- Without calls a tower is as high as there are lists in it. -/
theorem tower_height_lists (n : Nat) : (tower (fun _ => 0) n).height = n + 1 := by
  induction n with
  | zero => rw [tower, Expr.height_eq, Expr.children_array]; rfl
  | succ n ih => rw [tower_height_succ, ih]

/-- With a call for every level that is left behind a list, a tower is as high as trees can get. -/
theorem tower_height_triangle (n : Nat) : (tower Nat.succ n).height = triangle (n + 1) := by
  induction n with
  | zero => rw [tower, Expr.height_eq, Expr.children_array]; rfl
  | succ n ih =>
    rw [tower_height_succ, ih, Nat.add_right_comm]
    rfl

/-- The words of calls without arguments. -/
def callWords : Nat → List Word
  | 0 => []
  | n + 1 => ⟨.leftParen, "("⟩ :: ⟨.rightParen, ")"⟩ :: callWords n

theorem calls_words (n : Nat) (e : Expr) : (calls n e).words = e.words ++ callWords n := by
  induction n generalizing e with
  | zero => rw [calls, callWords, List.append_nil]
  | succ n ih =>
    rw [calls, ih, Expr.words, callWords, List.append_assoc]
    rfl

theorem calls_plain (n : Nat) {e : Expr} (plain : e.Plain) : (calls n e).Plain := by
  induction n generalizing e with
  | zero => exact plain
  | succ n ih => exact ih (.of_children rfl nofun (List.forall_mem_singleton.mpr plain))

theorem tower_plain (joins : Nat → Nat) (n : Nat) : (tower joins n).Plain := by
  induction n with
  | zero => exact .of_children rfl nofun nofun
  | succ n ih => exact calls_plain _ (.of_children rfl nofun (List.forall_mem_singleton.mpr ih))

/-- Calls without arguments use up one level each. -/
theorem Opens.append_calls {deep : Prop} {s : ParseState} {result : Option Expr × ParseState}
    {p : Precedence} {room : Nat} {e : Expr} {rest : List Word} (n : Nat)
    (h : Opens deep s result p (room + n) e (callWords n ++ rest))
    (loose : p.rank < Precedence.postfixed.rank) :
    Opens deep s result p room (calls n e) rest := by
  induction n generalizing e with
  | zero => exact h
  | succ n ih =>
    rw [calls]
    refine ih (h.join loose (fun zero => (nomatch zero)) fun m s' succ behind => ?_)
    have behind : s'.words = ⟨.leftParen, "("⟩ :: ([] ++ ⟨.rightParen, ")"⟩ ::
      (callWords n ++ rest)) := behind
    exact joined_gets_call (expression_orderly m) behind rfl .nil rfl

/-- A tower is read if behind each list there are levels for its calls. -/
theorem tower_opens {joins : Nat → Nat} (fits : ∀ m, joins m ≤ m + 1) (n : Nat) {p : Precedence}
    {s : ParseState} {rest : List Word} (behind : s.words = (tower joins n).words ++ rest)
    (loose : p.rank < Precedence.postfixed.rank) :
    Opens False s (expression (n + 1) p s) p (n - joins (n - 1)) (tower joins n) rest := by
  induction n generalizing p s rest with
  | zero =>
    have behind : s.words = ⟨.leftBracket, "["⟩ :: ([] ++ ⟨.rightBracket, "]"⟩ :: rest) := behind
    rw [Nat.zero_sub]
    refine .of_operand nofun ?_
    rintro m ⟨⟩
    exact operand_gets_array (expression_orderly 0) behind rfl .nil rfl
  | succ n ih =>
    have inner : Takes False (expression (n + 1)) (tower joins n) (tower joins n).words :=
      ⟨(tower_plain joins n).rereads.starts,
        fun _ _ behind ends => (ih behind (by decide)).ended ends⟩
    refine Opens.append_calls (joins n) ?_ loose
    -- the list takes one level, and the calls behind it take theirs of those that are left
    rw [Nat.add_sub_cancel, Nat.sub_add_cancel (fits n)]
    refine .of_operand nofun ?_
    rintro m ⟨⟩
    rw [tower, calls_words, List.append_assoc, Expr.words, wordsAll_eq, List.cons_append,
      List.append_assoc] at behind
    refine operand_gets_array (expression_orderly _) behind rfl ?_ rfl
    exact takesList_commas (expression_orderly _) (List.forall_mem_singleton.mpr inner)

/-- The program that is an expression. -/
def Expr.program (e : Expr) : Program := ⟨[.expr e]⟩

/-- A plain expression for which there are enough levels is read from its canonical text without a
complaint. -/
theorem parse_render_of_opens {e : Expr} (room : Nat) (plain : e.Plain)
    (opens : ∀ s rest, s.words = e.words ++ rest →
      Opens False s (expression maxNesting .lowest s) .lowest room e rest) :
    (parse e.program.render).program = e.program ∧ (parse e.program.render).diagnostics = [] := by
  have takes : Takes False (expression maxNesting) e e.words :=
    ⟨plain.rereads.starts, fun s rest behind ends => (opens s rest behind).ended ends⟩
  have read := Program.parse_render_of_takes (p := e.program)
    ⟨nofun, List.forall_mem_singleton.mpr plain.named⟩ (List.forall_mem_singleton.mpr plain)
    (List.forall_mem_singleton.mpr takes)
  exact read.resolve_right fun deep => deep.1

/-- The text of `n` lists, each but the innermost with the next one in it, and a call. -/
def calledLists (n : Nat) : String :=
  String.ofList (List.replicate n '[' ++ List.replicate n ']' ++ ['(', ')', ';'])

theorem tower_render_lists (n : Nat) :
    (tower (fun _ => 0) n).render = List.replicate (n + 1) '[' ++ List.replicate (n + 1) ']' := by
  induction n with
  | zero => rfl
  | succ n ih =>
    have opening : List.replicate (n + 2) '[' = '[' :: List.replicate (n + 1) '[' := rfl
    have closing : List.replicate (n + 2) ']' = List.replicate (n + 1) ']' ++ [']'] :=
      List.replicate_succ'
    rw [tower, calls, Expr.render, renderAll, renderAll, separated, ih, opening, closing,
      List.cons_append, List.cons_append, List.append_assoc]

theorem calledLists_eq_render (n : Nat) :
    calledLists (n + 1) = (calls 1 (tower (fun _ => 0) n)).program.render := by
  simp only [calledLists, ← tower_render_lists, calls, Expr.program, Program.render, List.map_cons,
    List.map_nil, separated, Stmt.render, Expr.render, renderAll, List.append_assoc,
    List.cons_append, List.nil_append]

/-- **The levels bound trees only beside their left operands.**  A path in a tree of a program that
enters no left operand has no more expressions than there are levels, so trees are bounded by the
levels exactly when the paths into left operands are.  These need not be: the heights of the trees
of clean programs are all numbers up to the sum of the levels. -/
theorem height_le_iff_of_parse (source : String) :
    (∀ e, (parse source).program.Contains e →
      (∀ n, e.Path n false → n ≤ maxNesting) ∧
        e.height ≤ maxNesting * (maxNesting + 1) / 2) ∧
    ((∀ e, (parse source).program.Contains e → e.height ≤ maxNesting) ↔
      ∀ e, (parse source).program.Contains e → ∀ n, e.Path n true → n ≤ maxNesting) ∧
    ∀ h, (∃ text e, (parse text).diagnostics = [] ∧ (parse text).program.Contains e ∧
      e.height = h) ↔ 0 < h ∧ h ≤ maxNesting * (maxNesting + 1) / 2 := by
  have upright (source : String) : ∀ e, (parse source).program.Contains e →
      ∀ n, e.Path n false → n ≤ maxNesting := by
    rintro e ⟨st, mem, within⟩ n path
    exact (parse_bounds source st mem).1 e within n path
  have low (source : String) : ∀ e, (parse source).program.Contains e →
      e.height ≤ maxNesting * (maxNesting + 1) / 2 := by
    rw [← triangle_eq, Program.contains_height_le_iff]
    exact fun st mem => (parse_bounds source st mem).2
  refine ⟨fun e mem => ⟨upright source e mem, low source e mem⟩, ⟨?_, ?_⟩, fun h => ⟨?_, ?_⟩⟩
  · intro bound e mem n path
    exact Nat.le_trans path.le_height (bound e mem)
  -- every path enters a left operand or does not
  · intro leaning e mem
    refine Expr.height_le_of_paths fun n leans path => ?_
    cases leans with
    | false => exact upright source e mem n path
    | true => exact leaning e mem n path
  · rintro ⟨text, e, _, mem, rfl⟩
    exact ⟨e.height_pos, low text e mem⟩
  · rintro ⟨pos, le⟩
    -- the highest tower has a tree of every height in it
    obtain ⟨n, levels⟩ : ∃ n, n + 1 = maxNesting := ⟨255, rfl⟩
    obtain ⟨program, clean⟩ := parse_render_of_opens _ (tower_plain Nat.succ n) fun s rest behind =>
      levels ▸ tower_opens (fun m => Nat.le_refl (m + 1)) n behind (by decide)
    rw [← levels, ← triangle_eq, ← tower_height_triangle] at le
    obtain ⟨e, within, height⟩ := Expr.exists_within_of_le_height pos le
    refine ⟨(tower Nat.succ n).program.render, e, clean, ?_, height⟩
    rw [program]
    exact ⟨_, List.mem_singleton.mpr rfl, within⟩

/-- A call of as many lists as there are levels is read, since the levels used inside what is called
do not count. -/
theorem height_parse_calledLists :
    (parse (calledLists 256)).diagnostics = [] ∧
      ∃ e, (parse (calledLists 256)).program.Contains e ∧ e.height = maxNesting + 1 := by
  obtain ⟨n, levels⟩ : ∃ n, n + 1 + 1 = maxNesting := ⟨254, rfl⟩
  have opens : ∀ s rest, s.words = (calls 1 (tower (fun _ => 0) (n + 1))).words ++ rest →
      Opens False s (expression maxNesting .lowest s) .lowest n
        (calls 1 (tower (fun _ => 0) (n + 1))) rest := by
    intro s rest behind
    rw [calls_words, List.append_assoc] at behind
    rw [← levels]
    -- no call stands inside the lists, so all levels but the first are left behind them
    have loose : Precedence.lowest.rank < Precedence.postfixed.rank := by decide
    exact (tower_opens (fun _ => Nat.zero_le _) (n + 1) behind loose).append_calls 1 loose
  have plain := calls_plain 1 (tower_plain (fun _ => 0) (n + 1))
  obtain ⟨program, clean⟩ := parse_render_of_opens n plain opens
  have text : calledLists maxNesting = (calls 1 (tower (fun _ => 0) (n + 1))).program.render := by
    rw [← levels, calledLists_eq_render]
  rw [show 256 = maxNesting from rfl, text, program]
  refine ⟨clean, _, ⟨_, List.mem_singleton.mpr rfl, .root _⟩, ?_⟩
  rw [Stmt.value, calls_height, tower_height_lists, levels]

end MonkeyLang
