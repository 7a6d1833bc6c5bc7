import ColumnFlow.Rows.Gather

/-!
# When rows can be gathered

A gather succeeds exactly when each of its offsets names a row, and its result then holds the rows
named.
-/

namespace ColumnFlow.Rows

variable {α β ε : Type}

theorem bind_eq_ok_iff {x : Except ε α} {f : α → Except ε β} {b : β} :
    x >>= f = .ok b ↔ ∃ a, x = .ok a ∧ f a = .ok b := by
  cases x <;> simp [bind, Except.bind]

/-- A sequence of steps succeeds when each step does. -/
theorem mapM_eq_ok_iff {f : α → Except ε β} {xs : List α} {ys : List β} :
    xs.mapM f = .ok ys ↔ xs.map f = ys.map .ok := by
  induction xs generalizing ys with
  | nil => cases ys <;> simp [pure, Except.pure]
  | cons x xs ih =>
    rw [List.mapM_cons, bind_eq_ok_iff]
    constructor
    · rintro ⟨y, hy, h⟩
      obtain ⟨zs, hzs, h⟩ := bind_eq_ok_iff.1 h
      cases h
      rw [List.map_cons, List.map_cons, hy, ih.1 hzs]
    · intro h
      cases ys with
      | nil => simp at h
      | cons y ys =>
        obtain ⟨hy, hys⟩ := List.cons.inj h
        exact ⟨y, hy, bind_eq_ok_iff.2 ⟨ys, ih.2 hys, rfl⟩⟩

/-- Steps that give the same, whatever their faults are. -/
theorem mapM_eq_ok_congr {f g : α → Except ε β} {xs : List α} {ys : List β}
    (h : ∀ x ∈ xs, ∀ y, f x = .ok y ↔ g x = .ok y) :
    xs.mapM f = .ok ys ↔ xs.mapM g = .ok ys := by
  rw [mapM_eq_ok_iff, mapM_eq_ok_iff]
  induction xs generalizing ys with
  | nil => rfl
  | cons x xs ih =>
    obtain ⟨hx, hxs⟩ := List.forall_mem_cons.1 h
    cases ys with
    | nil => simp
    | cons y ys => rw [List.map_cons, List.map_cons, List.map_cons, List.cons.injEq,
        List.cons.injEq, hx y, ih hxs]

theorem exists_mapM {f : α → Except ε β} {xs : List α} (h : ∀ x ∈ xs, ∃ y, f x = .ok y) :
    ∃ ys, xs.mapM f = .ok ys := by
  induction xs with
  | nil => exact ⟨[], rfl⟩
  | cons x xs ih =>
    obtain ⟨⟨y, hy⟩, hxs⟩ := List.forall_mem_cons.1 h
    obtain ⟨ys, hys⟩ := ih hxs
    refine ⟨y :: ys, mapM_eq_ok_iff.2 ?_⟩
    rw [List.map_cons, List.map_cons, hy, mapM_eq_ok_iff.1 hys]

theorem fetch_eq_ok_iff {cells : List α} {i : Nat} {a : α} :
    fetch cells i = .ok a ↔ cells[i]? = some a := by
  unfold fetch
  split <;> simp [*]

theorem gather_eq_ok_iff {cells out : List α} {offsets : List Nat} :
    gather cells offsets = .ok out ↔ offsets.map (cells[·]?) = out.map some := by
  unfold gather
  rw [mapM_eq_ok_iff]
  induction offsets generalizing out with
  | nil => cases out <;> simp
  | cons i offsets ih =>
    cases out with
    | nil => simp
    | cons a out => simp [fetch_eq_ok_iff, ih]

end ColumnFlow.Rows
