import ColumnFlow.Proofs.Column.Sources
import ColumnFlow.Proofs.Context.Steps

/-!
# Rows stay together

The columns of a context are gathered by different code, and a run may repeat, drop and clear rows
of all of them. Still they never come apart: after any run there is one map from the rows to the
rows at the start, and every column that was only gathered reads as this map says
(`Context.run_aligned`).
-/

namespace ColumnFlow.Context

open Rows

variable {ctx mid out : Context} {kept kept' : Nat → Prop} {source source' : Nat → Option Nat}

/-- The columns under the tags of `kept` have become columns whose rows all come from the same
sources. -/
structure Realigned (ctx : Context) (kept : Nat → Prop) (source : Nat → Option Nat)
    (out : Context) : Prop where
  uniform : out.Uniform
  source_lt : ∀ r < out.rowCount, ∀ i, source r = some i → i < ctx.rowCount
  rowsFrom : ∀ (tag : Nat) (c : Column), ctx.get? tag = some c → c.Aligned → c.Real → kept tag →
    ∃ d, out.get? tag = some d ∧ d.Aligned ∧ d.Real ∧ c.RowsFrom source d

namespace Realigned

theorem refl (hu : ctx.Uniform) : Realigned ctx kept some ctx where
  uniform := hu
  source_lt := fun r hr i hi => by
    cases hi
    exact hr
  rowsFrom := fun _ c hc ha hreal _ => ⟨c, hc, ha, hreal, .refl c⟩

theorem trans (h : Realigned ctx kept source mid) (h' : Realigned mid kept' source' out) :
    Realigned ctx (fun tag => kept tag ∧ kept' tag) (fun r => (source' r).bind source) out where
  uniform := h'.uniform
  source_lt := fun r hr i hi => by
    obtain ⟨j, hj, hsource⟩ := Option.bind_eq_some_iff.1 hi
    exact h.source_lt j (h'.source_lt r hr j hj) i hsource
  rowsFrom := fun tag c hc ha hreal hkept => by
    obtain ⟨d, hd, ha, hreal, hrows⟩ := h.rowsFrom tag c hc ha hreal hkept.1
    obtain ⟨e, he, ha, hreal, hrows'⟩ := h'.rowsFrom tag d hd ha hreal hkept.2
    exact ⟨e, he, ha, hreal, hrows.trans hrows'⟩

theorem mono (h : Realigned ctx kept source out) (hkept : ∀ tag, kept' tag → kept tag) :
    Realigned ctx kept' source out where
  uniform := h.uniform
  source_lt := h.source_lt
  rowsFrom := fun tag c hc ha hreal htag => h.rowsFrom tag c hc ha hreal (hkept tag htag)

end Realigned

/-! ## What one step does -/

/-- Every column is replaced by one with `n` rows, with the same sources for all of them. -/
theorem realigned_of_mapColumns {f : Column → Except Fault Column} {n : Nat} (hu : ctx.Uniform)
    (hsize : ∀ c d, f c = .ok d → d.size = n)
    (hsource : ∀ c d, f c = .ok d → ∀ r i, source r = some i → i < c.size)
    (hrows : ∀ c d, c.Aligned → c.Real → f c = .ok d → d.Aligned ∧ d.Real ∧ c.RowsFrom source d)
    (h : ctx.mapColumns f = .ok out) : Realigned ctx kept source out := by
  have hcolumn : ∀ (tag : Nat) (d : Column), out.get? tag = some d →
      ∃ c, ctx.get? tag = some c ∧ f c = .ok d := by
    intro tag d hd
    rcases get?_of_mapColumns h tag with ⟨-, hnone⟩ | ⟨c, d', hc, hf, hd'⟩
    · rw [hd] at hnone
      cases hnone
    · obtain rfl := Option.some.inj (hd.symm.trans hd')
      exact ⟨c, hc, hf⟩
  refine ⟨uniform_of_size n fun tag d hd => ?_, fun r hr i hi => ?_, fun tag c hc ha hreal _ => ?_⟩
  · obtain ⟨c, -, hf⟩ := hcolumn tag d hd
    exact hsize c d hf
  · obtain ⟨tag, d, hd⟩ := exists_column_of_lt_rowCount hr
    obtain ⟨c, hc, hf⟩ := hcolumn tag d hd
    rw [← hu tag c hc]
    exact hsource c d hf r i hi
  · rcases get?_of_mapColumns h tag with ⟨hnone, -⟩ | ⟨c', d, hc', hf, hd⟩
    · rw [hc] at hnone
      cases hnone
    · obtain rfl := Option.some.inj (hc.symm.trans hc')
      obtain ⟨hda, hdreal, hfrom⟩ := hrows c d ha hreal hf
      exact ⟨d, hd, hda, hdreal, hfrom⟩

theorem realigned_of_gather {offsets : List Nat} (hu : ctx.Uniform)
    (h : ctx.gather offsets = .ok out) : Realigned ctx kept (offsets[·]?) out := by
  refine realigned_of_mapColumns hu (fun c d hd => Column.size_of_gather hd) ?_ ?_ h
  · intro c d hd r i hi
    exact Column.inRange_of_gather hd i (List.mem_of_getElem? hi)
  · intro c d ha hreal hd
    have hg := Column.gathered_of_gather ha hd
    exact ⟨hg.aligned, hg.real hreal, Column.rowsFrom_of_gather ha hd⟩

theorem realigned_of_gatherOptional {offsets : List (Option Nat)} (hu : ctx.Uniform)
    (h : ctx.gatherOptional offsets = .ok out) :
    Realigned ctx kept (fun r => offsets[r]?.join) out := by
  refine realigned_of_mapColumns hu (fun c d hd => Column.size_of_gatherOptional hd) ?_ ?_ h
  · intro c d hd r i hi
    have hoffset := List.mem_of_getElem? (Option.join_eq_some_iff.1 hi)
    exact Column.inRange_of_gatherOptional hd i hoffset
  · intro c d ha hreal hd
    have hg := Column.gatheredOptional_of_gatherOptional ha hd
    exact ⟨hg.aligned, hg.real hreal, Column.rowsFrom_of_gatherOptional ha hreal hd⟩

/-- The columns under all tags but one stay as they are. -/
theorem realigned_of_get? {tag : Nat} (h : ∀ a ≠ tag, out.get? a = ctx.get? a)
    (hsize : ∀ (a : Nat) (c : Column), out.get? a = some c → c.size = ctx.rowCount) :
    Realigned ctx (· ≠ tag) some out := by
  refine ⟨uniform_of_size _ hsize, fun r hr i hi => ?_, fun a c hc ha hreal hne => ?_⟩
  · obtain ⟨a, c, hc⟩ := exists_column_of_lt_rowCount hr
    rw [rowCount_eq hc hsize] at hr
    cases hi
    exact hr
  · exact ⟨c, (h a hne).trans hc, ha, hreal, .refl c⟩

theorem realigned_of_remove (hu : ctx.Uniform) (tag : Nat) :
    Realigned ctx (· ≠ tag) some (ctx.remove tag).2 := by
  refine realigned_of_get? (fun a hne => ?_) fun a c hc => ?_
  · rw [get?_remove, if_neg hne]
  · rw [get?_remove] at hc
    split at hc
    · cases hc
    · exact hu a c hc

theorem realigned_of_set {column : Column} {tag : Nat} (hu : ctx.Uniform)
    (hsize : column.size = ctx.rowCount) (h : ctx.set tag column = .ok out) :
    Realigned ctx (· ≠ tag) some out := by
  refine realigned_of_get? (fun a hne => ?_) fun a c hc => ?_
  · rw [get?_of_set h, if_neg hne]
  · rw [get?_of_set h] at hc
    split at hc
    · cases hc
      exact hsize
    · exact hu a c hc

/-- The column under the key is gathered too, so the gathered context has a row for each element. -/
theorem size_eq_rowCount_of_gather {key : Nat} {limit : Option UInt64} {column : Column}
    {u : Unfolded} {gathered : Context} (hu : gathered.Uniform) (hkey : ctx.get? key = some column)
    (hcolumn : Unfolded.ofColumn limit column = .ok u)
    (hgathered : ctx.gather u.offsets = .ok gathered) : u.column.size = gathered.rowCount := by
  rcases get?_of_gather hgathered key with ⟨hnone, -⟩ | ⟨c, d, -, hd, hd'⟩
  · rw [hkey] at hnone
    cases hnone
  · rw [← hu key d hd', Column.size_of_gather hd, Unfolded.size_of_ofColumn hcolumn]

/-- The rows of an unfolded context come from the rows that its elements come from. -/
theorem realigned_of_unfold {key tag : Nat} {settings : Settings} (hu : ctx.Uniform)
    (h : ctx.unfold key tag settings = .ok out) : ∃ source, Realigned ctx (· ≠ tag) source out := by
  obtain ⟨column, u, gathered, hkey, hcolumn, hgathered, hset⟩ := exists_of_unfold h
  have hgather : Realigned ctx (fun _ => True) _ gathered := realigned_of_gather hu hgathered
  have hrows := size_eq_rowCount_of_gather hgather.uniform hkey hcolumn hgathered
  exact ⟨_, (hgather.trans (realigned_of_set hgather.uniform hrows hset)).mono
    fun a hne => ⟨trivial, hne⟩⟩

/-- One map serves all columns that a step does not remove or replace. -/
theorem realigned_of_step {step : Step} (hu : ctx.Uniform) (h : step.run ctx = .ok out) :
    ∃ source, Realigned ctx (fun tag => step.tag? ≠ some tag) source out := by
  have htag : ∀ {a tag : Nat}, some tag ≠ some a → a ≠ tag :=
    fun hne heq => hne (congrArg some heq.symm)
  cases step with
  | gather offsets => exact ⟨_, realigned_of_gather hu (orFault_eq_ok_iff.1 h)⟩
  | gatherOptional offsets => exact ⟨_, realigned_of_gatherOptional hu (orFault_eq_ok_iff.1 h)⟩
  | remove tag =>
    cases h
    exact ⟨some, (realigned_of_remove hu tag).mono fun a => htag⟩
  | unfold key tag settings =>
    obtain ⟨source, hsource⟩ := realigned_of_unfold hu h
    exact ⟨source, hsource.mono fun a => htag⟩

/-! ## Whole runs -/

/-- The maps of the steps are composed to one for the run. -/
theorem realigned_of_run {steps : List Step} (hu : ctx.Uniform) (h : ctx.run steps = .ok out) :
    ∃ source, Realigned ctx (fun tag => ∀ step ∈ steps, step.tag? ≠ some tag) source out := by
  induction steps generalizing ctx with
  | nil =>
    cases h
    exact ⟨some, .refl hu⟩
  | cons step steps ih =>
    obtain ⟨mid, hstep, hsteps⟩ := run_cons_eq_ok_iff.1 h
    obtain ⟨source, hfirst⟩ := realigned_of_step hu hstep
    obtain ⟨source', hrest⟩ := ih hfirst.uniform hsteps
    exact ⟨_, (hfirst.trans hrest).mono fun tag hkept => List.forall_mem_cons.1 hkept⟩

/-- Rows stay together over every run that succeeds from a context whose columns have one size.
There is one map `source` from the rows at the end to the rows at the start, for all columns that
no step removes or replaces: such a column has a row for each row of the context, absent where
there is no source, and otherwise present exactly if its source is, with the same cell. The
columns have a presence bit for each row, and no present row is the reserved vertex. -/
theorem run_aligned {steps : List Step} (huniform : ctx.Uniform) (h : ctx.run steps = .ok out) :
    ∃ source : Nat → Option Nat,
      (∀ r < out.rowCount, ∀ i, source r = some i → i < ctx.rowCount) ∧
      ∀ (tag : Nat) (c : Column), ctx.get? tag = some c → c.Aligned → c.Real →
        (∀ step ∈ steps, step.tag? ≠ some tag) →
          ∃ d, out.get? tag = some d ∧ d.size = out.rowCount ∧ c.RowsFrom source d := by
  obtain ⟨source, hrun⟩ := realigned_of_run huniform h
  refine ⟨source, hrun.source_lt, fun tag c hc ha hreal hkept => ?_⟩
  obtain ⟨d, hd, -, -, hrows⟩ := hrun.rowsFrom tag c hc ha hreal hkept
  exact ⟨d, hd, hrun.uniform tag d hd, hrows⟩

/-- Vertices in runs. -/
def runsSample : VertexColumn := .segmented ⟨[⟨1, [10, 11]⟩, ⟨2, [20]⟩]⟩

theorem real_runsSample : runsSample.Real := by
  refine VertexColumn.Marked.real ?_
  unfold VertexColumn.Marked
  decide

/-- Lists, vertices in runs, and numbers. -/
def mixedKinds : Context where
  slots := [some (.value ⟨.lists .int64 [⟨.int64, [.int64 7, .null]⟩, ⟨.int64, []⟩,
      ⟨.int64, [.int64 8]⟩], none⟩), some (.vertex runsSample), none,
    some (.value ⟨.scalars .int64 [100, 200, 300], none⟩)]
  verifyLengths := true

theorem uniform_mixedKinds : mixedKinds.Uniform := by
  intro tag c hc
  rcases tag with _ | _ | _ | _ | tag <;> cases hc <;> rfl

/-- Steps of all kinds; the lists are unfolded to numbers under tag 5. -/
def mixedSteps : List Step :=
  [.gather [2, 0, 0], .unfold 0 5 Settings.defaults, .gatherOptional [some 0, none, some 2],
    .remove 3]

theorem run_aligned_mixedKinds :
    ∃ out source d, mixedKinds.run mixedSteps = .ok out ∧ out.get? 1 = some d ∧ d.size = 3 ∧
      (Column.vertex runsSample).RowsFrom source d := by
  obtain ⟨out, h⟩ : ∃ out, mixedKinds.run mixedSteps = .ok out := ⟨_, rfl⟩
  obtain ⟨source, -, hcolumns⟩ := run_aligned uniform_mixedKinds h
  obtain ⟨d, hd, hsize, hrows⟩ := hcolumns 1 (.vertex runsSample) rfl trivial real_runsSample
    (by decide)
  refine ⟨out, source, d, h, hd, ?_, hrows⟩
  rw [hsize]
  cases h
  rfl

end ColumnFlow.Context
