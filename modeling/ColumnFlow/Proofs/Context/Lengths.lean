import ColumnFlow.Proofs.Context.Reachable

/-!
# Verified lengths

With verified lengths, a column is refused exactly if a column under another tag has another size.
The context compares it with one of them only. That one speaks for all, because the columns have
one size after any actions, carried out or refused (`Context.lengths_agree`).
-/

namespace ColumnFlow.Context

open Rows

variable {ctx out : Context} {tag : Nat} {column : Column}

/-! ## Putting a column into a uniform context -/

/-- The first other column stands for all of them. -/
theorem set_eq_error_iff (hv : ctx.verifyLengths = true) (hu : ctx.Uniform) {e : Error} :
    ctx.set tag column = .error e ↔
      (∃ a c, a ≠ tag ∧ ctx.get? a = some c ∧ c.size ≠ column.size) ∧
        e = .of (.lengthMismatch column.info column.size ctx.rowCount) := by
  cases hfirst : ctx.firstOther? tag with
  | none =>
    refine iff_of_false (by simp [set, hv, hfirst]) fun h => ?_
    obtain ⟨⟨a, c, ha, hc, -⟩, -⟩ := h
    simp [get?_of_firstOther?_eq_none hfirst ha] at hc
  | some other =>
    obtain ⟨b, hb, hother⟩ := exists_of_firstOther? hfirst
    have hcount : other.size = ctx.rowCount := hu b other hother
    have hset : ctx.set tag column = .error e ↔ other.size ≠ column.size ∧
        e = .of (.lengthMismatch column.info column.size other.size) := by
      by_cases hsize : other.size = column.size <;> simp [set, hv, hfirst, hsize, eq_comm]
    rw [hset, hcount]
    refine and_congr_left fun _ => ⟨fun hne => ⟨b, other, hb, hother, hcount ▸ hne⟩, fun h => ?_⟩
    obtain ⟨a, c, -, hc, hne⟩ := h
    rwa [hu a c hc] at hne

/-- A column with a row for each row of the context is put, whether or not lengths are verified. -/
theorem exists_set (hu : ctx.Uniform) (hsize : column.size = ctx.rowCount) (tag : Nat) :
    ∃ out, ctx.set tag column = .ok out := by
  cases hv : ctx.verifyLengths with
  | false => exact ⟨_, by simp [set, hv]; rfl⟩
  | true =>
    cases hset : ctx.set tag column with
    | ok out => exact ⟨out, rfl⟩
    | error e =>
      obtain ⟨⟨a, c, -, hc, hne⟩, -⟩ := (set_eq_error_iff hv hu).1 hset
      exact absurd ((hu a c hc).trans hsize.symm) hne

/-! ## Sequences of actions -/

/-- What a caller does to a context: it puts a column, or takes a step. -/
inductive Action where
  | set (tag : Nat) (column : Column)
  | step (step : Step)

/-- What an action makes of a context. -/
def Action.run (ctx : Context) : Action → Except Failure Context
  | set tag column => orError (ctx.set tag column)
  | step s => s.run ctx

/-- The context that a caller has after an action. If the action is refused with an error, it is the
one from before. -/
def attempt (ctx : Context) (action : Action) : Except Fault Context :=
  match action.run ctx with
  | .ok out => .ok out
  | .error (.error _) => .ok ctx
  | .error (.fault fault) => .error fault

/-- The context that a caller has after all of the actions, none of which faults. -/
def attemptAll (ctx : Context) (actions : List Action) : Except Fault Context :=
  actions.foldlM attempt ctx

theorem attempt_set_of_error {e : Error} (h : ctx.set tag column = .error e) :
    ctx.attempt (.set tag column) = .ok ctx := by
  simp [attempt, Action.run, h, orError]

/-- Refused actions reach no new contexts. -/
theorem Reachable.attempt {action : Action} (hctx : ctx.Reachable fun _ => True)
    (h : ctx.attempt action = .ok out) : out.Reachable fun _ => True := by
  cases hrun : action.run ctx with
  | ok next =>
    obtain rfl : next = out := by simpa [Context.attempt, hrun] using h
    cases action with
    | set tag column => exact .set hctx trivial (orError_eq_ok_iff.1 hrun)
    | step s => exact .step hctx hrun
  | error failure =>
    cases failure with
    | error e =>
      obtain rfl : ctx = out := by simpa [Context.attempt, hrun] using h
      exact hctx
    | fault fault => simp [Context.attempt, hrun] at h

theorem Reachable.attemptAll {actions : List Action} (hctx : ctx.Reachable fun _ => True)
    (h : ctx.attemptAll actions = .ok out) : out.Reachable fun _ => True := by
  induction actions generalizing ctx with
  | nil =>
    cases h
    exact hctx
  | cons action actions ih =>
    obtain ⟨mid, hfirst, hrest⟩ := foldlM_cons_eq_ok_iff.1 h
    exact ih (hctx.attempt hfirst) hrest

/-- After any actions on a new context with verified lengths, all columns have as many rows as the
context, which has none if there are no columns. A column is then refused exactly if one under
another tag has another size. The error names both sizes, and the context stays as it is. -/
theorem lengths_agree {settings : Settings} (hv : settings.verifiesLengths = true)
    {actions : List Action} (h : (empty settings).attemptAll actions = .ok ctx) :
    (∀ (tag : Nat) (c : Column), ctx.get? tag = some c → c.size = ctx.rowCount) ∧
      ((∀ tag, ctx.get? tag = none) → ctx.rowCount = 0) ∧
      ∀ (tag : Nat) (column : Column),
        ((∃ e, ctx.set tag column = .error e) ↔
          ∃ a c, a ≠ tag ∧ ctx.get? a = some c ∧ c.size ≠ column.size) ∧
        ∀ e, ctx.set tag column = .error e →
          e = .of (.lengthMismatch column.info column.size ctx.rowCount) ∧
            ctx.attempt (.set tag column) = .ok ctx := by
  have hreach := Reachable.attemptAll (.empty hv) h
  have hrefused : ∀ tag column e, ctx.set tag column = .error e ↔ _ := fun _ _ _ =>
    set_eq_error_iff hreach.verifyLengths hreach.uniform
  refine ⟨hreach.uniform, fun hnone => ?_, fun tag column => ⟨?_, fun e he => ?_⟩⟩
  · by_contra hne
    obtain ⟨tag, c, hc⟩ := exists_column_of_lt_rowCount (Nat.pos_of_ne_zero hne)
    simp [hnone tag] at hc
  · simp [hrefused]
  · exact ⟨((hrefused tag column e).1 he).2, attempt_set_of_error he⟩

/-- A column of numbers. -/
def numbers (cells : List Int64) : Column := .value ⟨.scalars .int64 cells, none⟩

/-- The only column may be replaced by one of another size; another one must then have that size. -/
theorem lengths_agree_replaced :
    ∃ ctx, (empty Settings.defaults).attemptAll [.set 0 (numbers [1, 2]), .set 3 (numbers [7]),
        .step (.gather [1, 1, 0]), .step (.unfold 0 0 Settings.defaults), .set 0 (numbers [5])]
          = .ok ctx ∧
      ctx.rowCount = 1 ∧ ∃ e, ctx.set 3 (numbers [8, 9]) = .error e := by
  obtain ⟨ctx, h⟩ : ∃ ctx, (empty Settings.defaults).attemptAll [.set 0 (numbers [1, 2]),
      .set 3 (numbers [7]), .step (.gather [1, 1, 0]), .step (.unfold 0 0 Settings.defaults),
      .set 0 (numbers [5])] = .ok ctx := ⟨_, rfl⟩
  obtain ⟨hsize, -, hrefused⟩ := lengths_agree rfl h
  have hput : ctx.get? 0 = some (numbers [5]) := by
    cases h
    rfl
  refine ⟨ctx, h, (hsize 0 _ hput).symm, (hrefused 3 _).1.2 ⟨0, _, by decide, hput, by decide⟩⟩

end ColumnFlow.Context
