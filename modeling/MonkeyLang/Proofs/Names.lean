import MonkeyLang.Proofs.Occurrence
import MonkeyLang.Proofs.Spelling

/-!
# The names that programs are written with

The names of a program that is read without a complaint are the names of its tokens, so they are
names that identifiers can have.

## Main definitions

* `Expr.Named`, `NamedStmts`: trees with proper names
* `Proper`: tokens with proper names

## Main results

* `Spells.named`: what is spelled with proper names is a tree with proper names
* `named_of_clean`: the names of a program that is read without a complaint
-/

namespace MonkeyLang

/-- All names in a tree are names that identifiers can have. -/
def Expr.Named (root : Expr) : Prop := ∀ e, root.Within e → ∀ name ∈ e.names, IsName name

theorem Expr.named_iff {e : Expr} :
    e.Named ↔ (∀ name ∈ e.names, IsName name) ∧ ∀ c ∈ e.children, c.Named := by
  constructor
  · intro h
    exact ⟨h e (.root e), fun c child e' within => h e' (.inside child within)⟩
  · rintro ⟨here, below⟩ e' within
    cases within with
    | root => exact here
    | inside child within => exact below _ child e' within

/-- All names in statements are names that identifiers can have. -/
def NamedStmts (ss : List Stmt) : Prop :=
  (∀ name ∈ boundNames ss, IsName name) ∧ ∀ c ∈ ss.map Stmt.value, c.Named

theorem namedStmts_cons {st : Stmt} {ss : List Stmt} :
    NamedStmts (st :: ss) ↔ NamedStmts [st] ∧ NamedStmts ss := by
  unfold NamedStmts
  rw [boundNames_cons, List.forall_mem_append, List.map_cons, List.forall_mem_cons, List.map_cons,
    List.map_nil, List.forall_mem_singleton]
  exact and_and_and_comm

/-- All names in a phrase are names that identifiers can have. -/
def Phrase.Named : Phrase → Prop
  | .expr e => e.Named
  | .more es | .list _ es => ∀ e ∈ es, e.Named
  | .moreNames ns | .names ns => ∀ name ∈ ns, IsName name
  | .entries pairs => ∀ e ∈ pairs.flatMap fun pair => [pair.1, pair.2], e.Named
  | .segment e? => ∀ e ∈ e?.toList, e.Named
  | .subscript sub => ∀ e ∈ sub.parts, e.Named
  | .stmt st => NamedStmts [st]
  | .stmts ss | .block ss => NamedStmts ss

/-- Every identifier among the tokens has a name that identifiers can have. -/
def Proper (ts : List Token) : Prop := ∀ t ∈ ts, t.kind = .ident → IsName t.literal

@[simp]
theorem proper_cons {t : Token} {ts : List Token} :
    Proper (t :: ts) ↔ (t.kind = .ident → IsName t.literal) ∧ Proper ts := List.forall_mem_cons

theorem Ended.proper {ts rest : List Token} (h : Ended ts rest) (proper : Proper ts) :
    Proper rest := by
  cases h with
  | bare => exact proper
  | semicolon => exact (proper_cons.mp proper).2

/-- An expression without names at its top has proper names if its children have. -/
theorem Expr.Named.of_children {e : Expr} (none : e.names = []) (h : ∀ c ∈ e.children, c.Named) :
    e.Named := by
  refine named_iff.mpr ⟨fun name mem => ?_, h⟩
  rw [none] at mem
  cases mem

/-- What is spelled with proper names is a tree with proper names.  The tokens behind it are among
those it is spelled with, so they have proper names as well. -/
theorem Spells.named {phrase : Phrase} {ts rest : List Token} (h : Spells phrase ts rest)
    (proper : Proper ts) : phrase.Named ∧ Proper rest := by
  induction h with
  | ident word =>
    obtain ⟨name, proper⟩ := proper_cons.mp proper
    refine ⟨Expr.named_iff.mpr ⟨?_, nofun⟩, proper⟩
    intro n mem
    rw [List.mem_singleton.mp mem]
    exact name word
  | int | float | str | bool => exact ⟨.of_children rfl nofun, (proper_cons.mp proper).2⟩
  -- parentheses leave no trace, so the tree inside is the tree itself
  | group _ _ _ inner =>
    obtain ⟨named, proper⟩ := inner (proper_cons.mp proper).2
    exact ⟨named, (proper_cons.mp proper).2⟩
  | unary _ _ operand =>
    obtain ⟨named, proper⟩ := operand (proper_cons.mp proper).2
    exact ⟨.of_children rfl (List.forall_mem_singleton.mpr named), proper⟩
  | binary _ _ _ left right =>
    obtain ⟨named, proper⟩ := left proper
    obtain ⟨named', proper⟩ := right (proper_cons.mp proper).2
    refine ⟨.of_children rfl ?_, proper⟩
    exact List.forall_mem_cons.mpr ⟨named, List.forall_mem_singleton.mpr named'⟩
  | array _ _ items =>
    obtain ⟨named, proper⟩ := items (proper_cons.mp proper).2
    exact ⟨.of_children rfl named, proper⟩
  | hash _ _ _ entries =>
    obtain ⟨named, proper⟩ := entries (proper_cons.mp proper).2
    exact ⟨.of_children rfl named, (proper_cons.mp proper).2⟩
  | call _ _ _ callee args =>
    obtain ⟨named, proper⟩ := callee proper
    obtain ⟨named', proper⟩ := args (proper_cons.mp proper).2
    exact ⟨.of_children rfl (List.forall_mem_cons.mpr ⟨named, named'⟩), proper⟩
  | index _ _ _ target segments =>
    obtain ⟨named, proper⟩ := target proper
    obtain ⟨named', proper⟩ := segments (proper_cons.mp proper).2
    exact ⟨.of_children rfl (List.forall_mem_cons.mpr ⟨named, named'⟩), proper⟩
  -- the names that a block binds are names of the conditional, not of a child
  | cond _ _ _ _ _ _ test block =>
    obtain ⟨named, proper⟩ := test (proper_cons.mp (proper_cons.mp proper).2).2
    obtain ⟨⟨bound, values⟩, proper⟩ := block (proper_cons.mp (proper_cons.mp proper).2).2
    refine ⟨Expr.named_iff.mpr ⟨?_, ?_⟩, proper⟩
    · exact List.forall_mem_append.mpr ⟨bound, nofun⟩
    · exact List.forall_mem_cons.mpr ⟨named, List.forall_mem_append.mpr ⟨values, nofun⟩⟩
  | condElse _ _ _ _ _ _ _ _ _ test block block' =>
    obtain ⟨named, proper⟩ := test (proper_cons.mp (proper_cons.mp proper).2).2
    obtain ⟨⟨bound, values⟩, proper⟩ := block (proper_cons.mp (proper_cons.mp proper).2).2
    obtain ⟨⟨bound', values'⟩, proper⟩ := block' (proper_cons.mp (proper_cons.mp proper).2).2
    refine ⟨Expr.named_iff.mpr ⟨?_, ?_⟩, proper⟩
    · exact List.forall_mem_append.mpr ⟨bound, bound'⟩
    · exact List.forall_mem_cons.mpr ⟨named, List.forall_mem_append.mpr ⟨values, values'⟩⟩
  | fn _ _ _ _ _ names block =>
    obtain ⟨named, proper⟩ := names (proper_cons.mp (proper_cons.mp proper).2).2
    obtain ⟨⟨bound, values⟩, proper⟩ := block (proper_cons.mp proper).2
    exact ⟨Expr.named_iff.mpr ⟨List.forall_mem_append.mpr ⟨named, bound⟩, values⟩, proper⟩
  | moreNil | moreNamesNil | entriesNil | segmentNone => exact ⟨nofun, proper⟩
  | moreCons _ _ _ first others =>
    obtain ⟨named, proper⟩ := first (proper_cons.mp proper).2
    obtain ⟨named', proper⟩ := others proper
    exact ⟨List.forall_mem_cons.mpr ⟨named, named'⟩, proper⟩
  | listNil | namesNil | subscriptEmpty => exact ⟨nofun, (proper_cons.mp proper).2⟩
  | listCons _ _ _ first others =>
    obtain ⟨named, proper⟩ := first proper
    obtain ⟨named', proper⟩ := others proper
    exact ⟨List.forall_mem_cons.mpr ⟨named, named'⟩, (proper_cons.mp proper).2⟩
  -- names come from the tokens themselves
  | moreNamesCons _ name _ others =>
    obtain ⟨-, here, proper⟩ : _ ∧ _ ∧ _ := by simpa using proper
    obtain ⟨named, proper⟩ := others proper
    exact ⟨List.forall_mem_cons.mpr ⟨here name, named⟩, proper⟩
  | namesCons name _ _ others =>
    obtain ⟨here, proper⟩ := proper_cons.mp proper
    obtain ⟨named, proper⟩ := others proper
    exact ⟨List.forall_mem_cons.mpr ⟨here name, named⟩, (proper_cons.mp proper).2⟩
  | entriesLast _ _ _ key value =>
    obtain ⟨named, proper⟩ := key proper
    obtain ⟨named', proper⟩ := value (proper_cons.mp proper).2
    exact ⟨List.forall_mem_cons.mpr ⟨named, List.forall_mem_singleton.mpr named'⟩, proper⟩
  | entriesCons _ _ _ _ _ key value others =>
    obtain ⟨named, proper⟩ := key proper
    obtain ⟨named', proper⟩ := value (proper_cons.mp proper).2
    obtain ⟨named'', proper⟩ := others (proper_cons.mp proper).2
    exact ⟨List.forall_mem_cons.mpr ⟨named, List.forall_mem_cons.mpr ⟨named', named''⟩⟩, proper⟩
  | segmentSome _ written =>
    obtain ⟨named, proper⟩ := written proper
    exact ⟨List.forall_mem_singleton.mpr named, proper⟩
  | subscriptItem _ _ item =>
    obtain ⟨named, proper⟩ := item proper
    exact ⟨List.forall_mem_singleton.mpr named, (proper_cons.mp proper).2⟩
  | subscriptSlice _ _ _ _ first second =>
    obtain ⟨named, proper⟩ := first proper
    obtain ⟨named', proper⟩ := second (proper_cons.mp proper).2
    exact ⟨List.forall_mem_append.mpr ⟨named, named'⟩, (proper_cons.mp proper).2⟩
  | subscriptStepped _ _ _ _ _ _ first second third =>
    obtain ⟨named, proper⟩ := first proper
    obtain ⟨named', proper⟩ := second (proper_cons.mp proper).2
    obtain ⟨named'', proper⟩ := third (proper_cons.mp proper).2
    refine ⟨List.forall_mem_append.mpr ⟨List.forall_mem_append.mpr ⟨named, named'⟩, named''⟩, ?_⟩
    exact (proper_cons.mp proper).2
  | bind _ name _ _ ended value =>
    obtain ⟨-, here, -, proper⟩ : _ ∧ _ ∧ _ ∧ _ := by simpa using proper
    obtain ⟨named, proper⟩ := value proper
    refine ⟨⟨List.forall_mem_singleton.mpr (here name), List.forall_mem_singleton.mpr named⟩, ?_⟩
    exact ended.proper proper
  | ret _ _ ended value =>
    obtain ⟨named, proper⟩ := value (proper_cons.mp proper).2
    exact ⟨⟨nofun, List.forall_mem_singleton.mpr named⟩, ended.proper proper⟩
  | exprStmt _ ended value =>
    obtain ⟨named, proper⟩ := value proper
    exact ⟨⟨nofun, List.forall_mem_singleton.mpr named⟩, ended.proper proper⟩
  | stmtsNil => exact ⟨⟨nofun, nofun⟩, proper⟩
  | stmtsCons _ _ first others =>
    obtain ⟨named, proper⟩ := first proper
    obtain ⟨named', proper⟩ := others proper
    exact ⟨namedStmts_cons.mpr ⟨named, named'⟩, proper⟩
  | blockClosed _ _ body =>
    obtain ⟨named, proper⟩ := body proper
    exact ⟨named, (proper_cons.mp proper).2⟩
  -- a block that is cut has no token behind it
  | blockCut _ body => exact body proper

/-- The names of a program that is read without a complaint are names that identifiers can have. -/
theorem named_of_clean {source : String} (clean : (parse source).diagnostics = []) :
    NamedStmts (parse source).program.statements := by
  obtain ⟨s, run, clean'⟩ := TokenStream.program_eq_of_clean clean
  have spelled := Grammar.program_spells (TokenStream.sealed_scan source) run clean'
  exact (spelled.named fun t mem ident => isName_of_mem_scan mem ident).1

end MonkeyLang
