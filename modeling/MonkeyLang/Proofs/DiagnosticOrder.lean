import MonkeyLang.Proofs.ReadingInvariant
import Mathlib.Order.Basic

/-!
# The order of diagnostics

Diagnostics are recorded while a text is read from left to right, so their places come in the order
of the text.  A complaint is about one of the two tokens in view, though, and after a complaint
about the second one the first is still the current token.  What keeps the order is that a failure
is passed on without another complaint, up to the statement that is left out, and then the current
token is passed over.  So no complaint is behind the current token while a reading goes on, and none
is behind the next token when it has failed.

## Main definitions

* `Position` is ordered by lines, and by columns within a line
* `Token.InOrder`: tokens in the order of their places
* `Recorded`: the diagnostics of a state, in order, at places of tokens, and none behind a place

## Main results

* `Token.scanFrom_inOrder`: the tokens of a text are in order
* `Recorded.note`, `Recorded.next`: what a step does to the diagnostics
* `diagnostics_in_order`: the diagnostics of a text are in order
-/

namespace MonkeyLang

/-! ## Places in order -/

namespace Position

/-- Places are ordered by their lines, and within a line by their columns. -/
instance : Preorder Position where
  le p q := p.line < q.line ∨ p.line = q.line ∧ p.column ≤ q.column
  le_refl p := .inr ⟨rfl, Nat.le_refl _⟩
  le_trans p q r hpq hqr := by omega

theorem le_step (p : Position) (c : Char) : p ≤ p.step c := by
  unfold step
  split
  · exact .inl (Nat.lt_succ_self _)
  · exact .inr ⟨rfl, Nat.le_succ _⟩

end Position

namespace Token

/-- The tokens are in order, and none of them is outside of the two places. -/
structure InOrder (first last : Position) (tokens : List Token) : Prop where
  ordered : tokens.Pairwise fun t u => t.position ≤ u.position
  first_le : ∀ t ∈ tokens, first ≤ t.position
  le_last : ∀ t ∈ tokens, t.position ≤ last
  le : first ≤ last

namespace InOrder

variable {first first' last : Position} {tokens : List Token}

/-- The first place can be moved back. -/
theorem since (h : InOrder first' last tokens) (le : first ≤ first') :
    InOrder first last tokens where
  ordered := h.ordered
  first_le t mem := le.trans (h.first_le t mem)
  le_last := h.le_last
  le := le.trans h.le

/-- A token at the first place, before the others. -/
theorem cons {t : Token} (h : InOrder t.position last tokens) :
    InOrder t.position last (t :: tokens) where
  ordered := List.pairwise_cons.mpr ⟨h.first_le, h.ordered⟩
  first_le := List.forall_mem_cons.mpr ⟨le_refl _, h.first_le⟩
  le_last := List.forall_mem_cons.mpr ⟨h.le, h.le_last⟩
  le := h.le

end InOrder

/-- The tokens of a text are in order, from the place where the text starts to the place where it
ends. -/
theorem scanFrom_inOrder (text : List Char) (p : Position) (covered : Nat) :
    InOrder p (scanFrom text p covered).2 (scanFrom text p covered).1 := by
  fun_induction scanFrom text p covered with
  | case1 => exact ⟨.nil, by simp, by simp, le_refl _⟩
  | case2 c cs p covered ih => exact ih.since (p.le_step c)
  | case3 c cs p blank ih => exact ih.since (p.le_step c)
  -- the token stands where the text starts, and the others come behind its first character
  | case4 c cs p word l rest ih =>
    have others : InOrder (ofLexeme l p).position rest.2 rest.1 := ih.since (p.le_step c)
    exact others.cons

end Token

/-! ## States -/

/-- The tokens ahead are in order, up to the end of the text, and stand at the places given. -/
structure ParseState.TokensIn (IsPlace : Position → Prop) (s : ParseState) : Prop where
  ordered : s.ahead.Pairwise fun t u => t.position ≤ u.position
  le_stop : ∀ t ∈ s.ahead, t.position ≤ s.stop
  isPlace : ∀ t ∈ s.ahead, IsPlace t.position
  isPlace_stop : IsPlace s.stop

namespace ParseState.TokensIn

variable {IsPlace : Position → Prop} {s : ParseState}

theorem next (h : s.TokensIn IsPlace) : s.next.TokensIn IsPlace where
  ordered := h.ordered.sublist (List.tail_sublist _)
  le_stop t mem := h.le_stop t (List.mem_of_mem_tail mem)
  isPlace t mem := h.isPlace t (List.mem_of_mem_tail mem)
  isPlace_stop := h.isPlace_stop

/-- The current token stands at one of the places. -/
theorem current (h : s.TokensIn IsPlace) : IsPlace s.current.position := by
  unfold ParseState.current
  cases ahead : s.ahead with
  | nil => exact h.isPlace_stop
  | cons t ts => exact h.isPlace t (by simp [ahead])

theorem peek (h : s.TokensIn IsPlace) : IsPlace s.peek.position := h.next.current

/-- The token behind the current one does not stand before it. -/
theorem current_le_peek (h : s.TokensIn IsPlace) : s.current.position ≤ s.peek.position := by
  have ordered := h.ordered
  have le_stop := h.le_stop
  unfold ParseState.current ParseState.peek
  rcases ahead : s.ahead with _ | ⟨t, _ | ⟨u, ts⟩⟩ <;> rw [ahead] at ordered le_stop
  · exact le_refl _
  · exact le_stop t List.mem_cons_self
  · exact (List.pairwise_cons.mp ordered).1 u List.mem_cons_self

end ParseState.TokensIn

/-- The diagnostics of a state, the most recent first, are in order, stand at the places of tokens,
and none of them stands behind the place `last`. -/
structure Recorded (IsPlace : Position → Prop) (last : Position) (s : ParseState) : Prop where
  tokens : s.TokensIn IsPlace
  ordered : s.diagnostics.Pairwise fun newer older => older.position ≤ newer.position
  le_last : ∀ d ∈ s.diagnostics, d.position ≤ last
  isPlace : ∀ d ∈ s.diagnostics, IsPlace d.position

namespace Recorded

variable {IsPlace : Position → Prop} {last last' position : Position} {s : ParseState}

/-- A complaint about a place that none of the others stands behind. -/
theorem note (h : Recorded IsPlace last s) (behind : last ≤ position) (le : position ≤ last')
    (token : IsPlace position) (c : Complaint) : Recorded IsPlace last' (s.note position c) where
  tokens := ⟨h.tokens.ordered, h.tokens.le_stop, h.tokens.isPlace, h.tokens.isPlace_stop⟩
  ordered := List.pairwise_cons.mpr ⟨fun d mem => (h.le_last d mem).trans behind, h.ordered⟩
  le_last := List.forall_mem_cons.mpr ⟨le, fun d mem => (h.le_last d mem).trans (behind.trans le)⟩
  isPlace := List.forall_mem_cons.mpr ⟨token, h.isPlace⟩

/-- The current token is passed over. -/
theorem next (h : Recorded IsPlace last s) (le : last ≤ s.peek.position) :
    Recorded IsPlace s.next.current.position s.next where
  tokens := h.tokens.next
  ordered := h.ordered
  le_last d mem := (h.le_last d mem).trans le
  isPlace := h.isPlace

end Recorded

/-- While a reading goes on, no diagnostic stands behind the current token, and when it has failed,
none stands behind the next one.  The levels do not matter. -/
def inOrder (IsPlace : Position → Prop) : ReadingInvariant where
  Going _ s := Recorded IsPlace s.current.position s
  Failed _ s := Recorded IsPlace s.peek.position s
  going_succ h := h
  failed_succ h := h
  next h := h.next h.tokens.current_le_peek
  inside h _ := h.next h.tokens.current_le_peek
  noteCurrent h _ := h.note (le_refl _) h.tokens.current_le_peek h.tokens.current _
  notePeek h _ := h.note h.tokens.current_le_peek (le_refl _) h.tokens.peek _
  resume h := h.next (le_refl _)
  tooDeep h := h.note (le_refl _) h.tokens.current_le_peek h.tokens.current _
  tooDeepToJoin h _ := h.note (le_refl _) h.tokens.current_le_peek h.tokens.current _

/-! ## Whole texts -/

/-- The places of the tokens of a text, with that of the end token. -/
def TokenStream.IsPlace (stream : TokenStream) (p : Position) : Prop :=
  ∃ t ∈ stream.toList, t.position = p

/-- Before anything is read nothing is recorded, and all tokens are ahead. -/
theorem recorded_start (source : String) :
    Recorded (scan source).IsPlace (ParseState.start (scan source)).current.position
      (.start (scan source)) where
  tokens := by
    have found := Token.scanFrom_inOrder source.toList .start 0
    refine ⟨found.ordered, found.le_last, fun t mem => ⟨t, ?_, rfl⟩, ?_⟩
    · exact List.mem_append_left _ mem
    · exact ⟨.finish (scan source).stop, List.mem_append_right _ (List.mem_singleton_self _), rfl⟩
  ordered := .nil
  le_last := nofun
  isPlace := nofun

/-- **Diagnostics come in the order of the text.**  Every diagnostic of a text stands at the place of
one of its tokens, the end token included, and from the oldest to the most recent one their places
never go back.  So the list of them, which has the most recent one first, goes up the text. -/
theorem diagnostics_in_order (source : String) :
    (∀ d ∈ (parse source).diagnostics,
      ∃ t ∈ (scan source).toList, t.position = d.position) ∧
    (parse source).diagnostics.reverse.Pairwise
      (fun older newer => older.position ≤ newer.position) ∧
    (parse source).diagnostics.Pairwise fun newer older => older.position ≤ newer.position := by
  have kept := ReadingInvariant.program_ends (I := inOrder (scan source).IsPlace)
    (recorded_start source)
  have recorded : ∃ last, Recorded (scan source).IsPlace last
      (Grammar.program (.start (scan source))).2 := by
    rcases kept.state with going | failed
    · exact ⟨_, going⟩
    · exact ⟨_, failed⟩
  obtain ⟨last, recorded⟩ := recorded
  exact ⟨recorded.isPlace, List.pairwise_reverse.mpr recorded.ordered, recorded.ordered⟩

end MonkeyLang
