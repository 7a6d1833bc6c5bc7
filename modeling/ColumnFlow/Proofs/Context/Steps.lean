import ColumnFlow.Proofs.Rows.Sequence
import ColumnFlow.Proofs.Unfold.Shape

/-!
# Runs of steps on a context

A context is worked on step by step: all columns are gathered, a column is removed, or one is
unfolded. A context is uniform if all of its columns have one size, which is the count of its rows.
-/

namespace ColumnFlow.Context

open Rows

variable {ctx out : Context} {c : Column}

/-- An operation that makes the rows of a context from its rows. -/
inductive Step where
  | gather (offsets : List Nat)
  | gatherOptional (offsets : List (Option Nat))
  | remove (tag : Nat)
  | unfold (key tag : Nat) (settings : Settings)

/-- What a step makes of a context. -/
def Step.run (ctx : Context) : Step → Except Failure Context
  | gather offsets => orFault (ctx.gather offsets)
  | gatherOptional offsets => orFault (ctx.gatherOptional offsets)
  | remove tag => .ok (ctx.remove tag).2
  | unfold key tag settings => ctx.unfold key tag settings

/-- The tag whose column a step removes or puts. -/
def Step.tag? : Step → Option Nat
  | gather _ | gatherOptional _ => none
  | remove tag | unfold _ tag _ => some tag

/-- What the steps make of a context, one after the other; the first that fails ends the run. -/
def run (ctx : Context) (steps : List Step) : Except Failure Context := steps.foldlM Step.run ctx

theorem run_cons_eq_ok_iff {step : Step} {steps : List Step} :
    ctx.run (step :: steps) = .ok out ↔ ∃ mid, step.run ctx = .ok mid ∧ mid.run steps = .ok out :=
  foldlM_cons_eq_ok_iff

/-! ## Columns of one size -/

/-- Every column has as many rows as the context. -/
def Uniform (ctx : Context) : Prop :=
  ∀ (tag : Nat) (c : Column), ctx.get? tag = some c → c.size = ctx.rowCount

theorem uniform_of_size (n : Nat)
    (h : ∀ (tag : Nat) (c : Column), ctx.get? tag = some c → c.size = n) : ctx.Uniform := by
  intro tag c hc
  rw [h tag c hc, rowCount_eq hc h]

/-- There are rows only where there is a column. -/
theorem exists_column_of_lt_rowCount {r : Nat} (h : r < ctx.rowCount) :
    ∃ tag c, ctx.get? tag = some c := by
  unfold rowCount at h
  cases hcolumns : ctx.columns with
  | nil =>
    rw [hcolumns] at h
    exact absurd h (Nat.not_lt_zero r)
  | cons c columns =>
    obtain ⟨tag, hc⟩ := mem_columns.1 (hcolumns ▸ List.mem_cons_self : c ∈ ctx.columns)
    exact ⟨tag, c, hc⟩

end ColumnFlow.Context
