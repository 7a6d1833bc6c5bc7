import ColumnFlow.Rows.Lemmas
import Mathlib.Data.List.Induction

/-!
# Steps one after the other

Steps that may fail are taken one after the other, each on what the steps before it have left. What
each of them keeps holds in the end, and all of them go through exactly if none is refused after
those before it (`exists_foldlM_iff`).
-/

namespace ColumnFlow.Rows

variable {ε α σ : Type} {step : σ → α → Except ε σ} {s t : σ} {x : α} {xs : List α}

theorem foldlM_cons_eq_ok_iff :
    (x :: xs).foldlM step s = .ok t ↔ ∃ mid, step s x = .ok mid ∧ xs.foldlM step mid = .ok t := by
  rw [List.foldlM_cons, bind_eq_ok_iff]

theorem foldlM_concat_eq_ok_iff :
    (xs ++ [x]).foldlM step s = .ok t ↔ ∃ mid, xs.foldlM step s = .ok mid ∧ step mid x = .ok t := by
  rw [List.foldlM_append, bind_eq_ok_iff]
  simp

/-- What holds before the steps and is kept by each of them. -/
theorem foldlM_induction {P : List α → σ → Prop} (hstart : P [] s)
    (hstep : ∀ before mid x t, P before mid → step mid x = .ok t → P (before ++ [x]) t)
    (h : xs.foldlM step s = .ok t) : P xs t := by
  induction xs using List.reverseRecOn generalizing t with
  | nil =>
    cases h
    exact hstart
  | append_singleton xs x ih =>
    obtain ⟨mid, hmid, hlast⟩ := foldlM_concat_eq_ok_iff.1 h
    exact hstep xs mid x t (ih hmid) hlast

/-- Steps go through exactly if each is accepted by what those before it have left. -/
theorem exists_foldlM_iff {refused : List α → α → Prop}
    (h : ∀ before mid x, before.foldlM step s = .ok mid →
      ((∃ t, step mid x = .ok t) ↔ ¬ refused before x)) :
    (∃ t, xs.foldlM step s = .ok t)
      ↔ ∀ before x after, xs = before ++ x :: after → ¬ refused before x := by
  -- on the steps from the last one, which is taken on what the others have left
  induction xs using List.reverseRecOn with
  | nil =>
    refine iff_of_true ⟨s, rfl⟩ fun before x after hxs => ?_
    simp at hxs
  | append_singleton xs x ih =>
    constructor
    · intro hok before y after hxs
      obtain ⟨t, ht⟩ := hok
      obtain ⟨mid, hmid, hlast⟩ := foldlM_concat_eq_ok_iff.1 ht
      cases after using List.reverseRecOn with
      | nil =>
        obtain ⟨rfl, ⟨⟩⟩ := List.append_inj' hxs rfl
        exact (h _ mid _ hmid).1 ⟨t, hlast⟩
      | append_singleton after z =>
        rw [← List.cons_append, ← List.append_assoc] at hxs
        exact ih.1 ⟨mid, hmid⟩ before y after (List.append_inj' hxs rfl).1
    · intro hall
      obtain ⟨mid, hmid⟩ := ih.2 fun before y after hxs => hall before y (after ++ [x]) (by simp [hxs])
      obtain ⟨t, hlast⟩ := (h xs mid x hmid).2 (hall xs x [] rfl)
      exact ⟨t, foldlM_concat_eq_ok_iff.2 ⟨mid, hmid, hlast⟩⟩

end ColumnFlow.Rows
