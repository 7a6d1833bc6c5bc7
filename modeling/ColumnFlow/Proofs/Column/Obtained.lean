import ColumnFlow.Proofs.Unfold.Faults

/-!
# Obtained columns

Beside building, gathering, appending and grouping, a caller unfolds contexts that hold its columns,
and takes the columns of the result. What every finished column has, and what gathering, appending
and unfolding keep, therefore holds of every column there is (`Column.Obtained.of_kept`).
-/

namespace ColumnFlow.Column

open Rows

variable {c : Column} {allowed : Value → Prop} {P : Column → Prop}

/-- The columns that are obtained from builders to which allowed values are pushed. -/
inductive Obtained (allowed : Value → Prop) : Column → Prop where
  | finish {b : Builder} (hb : b.Reachable allowed) (id : ArenaId) (arena : Option Arena) :
      Obtained allowed (b.finish id arena)
  | gather {c d : Column} {offsets : List Nat} (hc : Obtained allowed c)
      (h : c.gather offsets = .ok d) : Obtained allowed d
  | gatherOptional {c d : Column} {offsets : List (Option Nat)} (hc : Obtained allowed c)
      (h : c.gatherOptional offsets = .ok d) : Obtained allowed d
  | append {c d e : Column} {id : ArenaId} (hc : Obtained allowed c) (hd : Obtained allowed d)
      (h : c.append id d = .ok e) : Obtained allowed e
  | groupKeys {c keys : Column} {groups : List (List Nat)} (hc : Obtained allowed c)
      (h : c.group = .ok (keys, groups)) : Obtained allowed keys
  | unfold {ctx out : Context} {key tag a : Nat} {settings : Settings} {d : Column}
      (hctx : ∀ (t : Nat) (c : Column), ctx.get? t = some c → Obtained allowed c)
      (h : ctx.unfold key tag settings = .ok out) (hd : out.get? a = some d) : Obtained allowed d

/-- The columns of an unfolded context are gathered, but for the one of the elements. -/
theorem kept_of_unfold {ctx out : Context} {key tag a : Nat} {settings : Settings} {d : Column}
    (hP : Kept P) (hunfold : ∀ c limit u, P c → Unfolded.ofColumn limit c = .ok u → P u.column)
    (hctx : ∀ t c, ctx.get? t = some c → P c) (h : ctx.unfold key tag settings = .ok out)
    (hd : out.get? a = some d) : P d := by
  obtain ⟨column, u, gathered, hkey, hu, hgathered, hset⟩ := Context.exists_of_unfold h
  rw [Context.get?_of_set hset] at hd
  split at hd
  · cases hd
    exact hunfold column _ u (hctx key column hkey) hu
  · rcases Context.get?_of_gather hgathered a with ⟨-, hnone⟩ | ⟨c, d', hc, hgather, hd'⟩
    · simp [hnone] at hd
    · obtain rfl := Option.some.inj (hd.symm.trans hd')
      exact hP.gather (hctx a c hc) hgather

theorem Obtained.of_kept (hP : Kept P)
    (hfinish : ∀ (b : Builder) (arena : Option Arena), b.Reachable allowed → P (b.toColumn arena))
    (hunfold : ∀ c limit u, P c → Unfolded.ofColumn limit c = .ok u → P u.column)
    (h : c.Obtained allowed) : P c := by
  induction h with
  | @finish b hb id arena =>
    obtain ⟨arena', harena⟩ := b.finish_eq_toColumn id arena
    rw [harena]
    exact hfinish b arena' hb
  | gather _ h ih => exact hP.gather ih h
  | gatherOptional _ h ih => exact hP.gatherOptional ih h
  | append _ _ h ihc ihd => exact hP.append ihc ihd h
  | groupKeys _ h ih => exact hP.of_group ih h
  | unfold _ h hd ih => exact kept_of_unfold hP hunfold ih h hd

theorem Obtained.aligned (h : c.Obtained allowed) : c.Aligned :=
  h.of_kept kept_aligned (fun _ arena hb => Builder.aligned_toColumn hb.aligned arena)
    fun _ _ _ => Unfolded.aligned_of_ofColumn

theorem Obtained.listsTyped (h : c.Obtained Value.WellTyped) : c.ListsTyped :=
  h.of_kept kept_listsTyped (fun _ arena hb => Builder.listsTyped_toColumn hb.listsTyped arena)
    fun _ _ _ => Unfolded.listsTyped_of_ofColumn

end ColumnFlow.Column
