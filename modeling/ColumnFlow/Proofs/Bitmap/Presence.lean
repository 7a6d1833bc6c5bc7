import ColumnFlow.Bitmap.Lemmas
import ColumnFlow.Proofs.Rows.Gather

/-!
# Presence of gathered and appended rows

A column of `n` rows that has a bitmap has a bit for each row; without a bitmap every row is
present. Either way there is a list of `n` bits, and what gathering and appending do to the bitmap
is what they do to this list.
-/

namespace ColumnFlow.Bitmap

open Rows

/-- A bitmap, if there is one, has a bit for each of `n` rows. -/
def Aligned (n : Nat) (validity : Option Bitmap) : Prop :=
  ∀ b, validity = some b → b.WellFormed ∧ b.len = n

theorem aligned_none (n : Nat) : Aligned n none := fun _ h => absurd h (by simp)

theorem aligned_ofList {n : Nat} {bits : List Bool} (h : bits.length = n) :
    Aligned n (some (ofList bits)) := by
  intro b hb
  cases hb
  exact ⟨wellFormed_ofList bits, by rw [len_ofList, h]⟩

theorem get_eq_ok_iff {b : Bitmap} {i : Nat} {v : Bool} :
    b.get i = .ok v ↔ b.toList[i]? = some v := by
  rw [get, getElem?_toList]
  split <;> simp

/-- The bits of `n` rows, all of them ones without a bitmap. -/
abbrev presence (n : Nat) (validity : Option Bitmap) : List Bool := append.bits n validity

theorem length_presence {n : Nat} {validity : Option Bitmap} (h : Aligned n validity) :
    (presence n validity).length = n := by
  cases validity with
  | none => exact List.length_replicate
  | some b => rw [presence, append.bits, length_toList, (h b rfl).2]

/-! ## One more row -/

theorem aligned_empty : Aligned 0 (some empty) := by
  intro b hb
  cases hb
  exact ⟨wellFormed_empty, rfl⟩

/-- A bit for one more row. -/
theorem aligned_push {n : Nat} {validity : Option Bitmap} (h : Aligned n validity) (bit : Bool) :
    Aligned (n + 1) (validity.map (·.push bit)) := by
  intro b hb
  obtain ⟨old, hold, rfl⟩ := Option.map_eq_some_iff.1 hb
  obtain ⟨hwf, hlen⟩ := h old hold
  exact ⟨hwf.push bit, by rw [len_push, hlen]⟩

theorem presence_push_true {n : Nat} {validity : Option Bitmap} (h : Aligned n validity) :
    presence (n + 1) (validity.map (·.push true)) = presence n validity ++ [true] := by
  cases validity with
  | none => exact List.replicate_succ'
  | some b => exact (h b rfl).1.toList_push true

/-- Presence tells all of a bitmap but whether there is one. -/
theorem Aligned.ext {n : Nat} {a b : Option Bitmap} (ha : Aligned n a) (hb : Aligned n b)
    (hsome : a.isSome = b.isSome) (h : presence n a = presence n b) : a = b := by
  rcases a with _ | a <;> rcases b with _ | b
  · rfl
  · cases hsome
  · cases hsome
  · exact congrArg some ((ha a rfl).1.ext (hb b rfl).1 h)

/-! ## Gathering -/

/-- A gather of a bitmap is one of its bits. -/
theorem gather_eq_ok_iff {b d : Bitmap} {offsets : List Nat} :
    b.gather offsets = .ok d ↔
      ∃ bits, Rows.gather b.toList offsets = .ok bits ∧ ofList bits = d := by
  have hget : ∀ bits, offsets.mapM b.get = .ok bits ↔ Rows.gather b.toList offsets = .ok bits :=
    fun bits => mapM_eq_ok_congr fun i _ v => get_eq_ok_iff.trans fetch_eq_ok_iff.symm
  rw [gather, bind_eq_ok_iff]
  exact exists_congr fun bits => and_congr (hget bits) (iff_of_eq (Except.ok.injEq _ _))

/-- A gather of presence, with a bitmap or without. -/
theorem presence_of_gather {n : Nat} {a b : Option Bitmap} {offsets : List Nat}
    (hi : InRange n offsets) (h : a.mapM (Bitmap.gather · offsets) = .ok b) :
    Rows.gather (presence n a) offsets = .ok (presence offsets.length b) ∧ b.isSome = a.isSome := by
  cases a with
  | none =>
    cases h
    exact ⟨gather_replicate true hi, rfl⟩
  | some a =>
    obtain ⟨d, hd, rfl⟩ := map_eq_ok_iff.1 h
    obtain ⟨bits, hbits, rfl⟩ := gather_eq_ok_iff.1 hd
    refine ⟨?_, rfl⟩
    rw [presence, append.bits, hbits, presence, append.bits, toList_ofList]

/-- Rows that are absent are cleared one by one, among ones that are not looked at yet. -/
theorem clear_rows {b : Bitmap} {done present : List Bool} (hb : b.WellFormed)
    (h : b.toList = done ++ List.replicate present.length true) :
    let cleared := (present.zipIdx done.length).foldl
      (fun b row => if row.1 then b else b.put row.2 false) b
    cleared.WellFormed ∧ cleared.toList = done ++ present := by
  -- on the rows, with those that are done general
  induction present generalizing b done with
  | nil => exact ⟨hb, h⟩
  | cons v present ih =>
    rw [List.length_cons, List.replicate_succ] at h
    have hlen : done.length < b.len := by
      rw [← length_toList, h, List.length_append, List.length_cons]
      omega
    rw [List.zipIdx_cons, List.foldl_cons, List.append_cons]
    have hdone : (done ++ [v]).length = done.length + 1 := List.length_append
    rw [← hdone]
    cases v with
    | true =>
      have h' : b.toList = done ++ [true] ++ List.replicate present.length true := by
        rw [h, ← List.append_cons]
      exact ih hb h'
    | false =>
      refine ih (hb.put hlen false) ?_
      show (b.put done.length false).toList = _
      rw [hb.toList_put hlen, h, List.set_append_right _ _ (Nat.le_refl _), Nat.sub_self,
        ← List.append_cons]
      rfl

/-- It makes no difference, to the last word, how the bitmap of some bits is made. -/
theorem ofPresence_eq (present : List Bool) : ofPresence present = ofList present := by
  have hones : (allTrue present.length).toList = [] ++ List.replicate present.length true :=
    toList_allTrue present.length
  obtain ⟨hwf, hbits⟩ := clear_rows (wellFormed_allTrue present.length) hones
  exact hwf.ext (wellFormed_ofList present) (hbits.trans (toList_ofList present).symm)

/-- A gather of presence in which rows may have no source. -/
theorem gatherOptional_eq_ok_iff {n : Nat} {validity : Option Bitmap} {d : Bitmap}
    {offsets : List (Option Nat)} (hi : SourcesInRange n offsets) :
    Bitmap.gatherOptional validity offsets = .ok d ↔
      ∃ bits, Rows.gatherOptional false (presence n validity) offsets = .ok bits ∧
        ofList bits = d := by
  have hget : ∀ bits, offsets.mapM (presentAt validity) = .ok bits ↔
      Rows.gatherOptional false (presence n validity) offsets = .ok bits := by
    refine fun bits => mapM_eq_ok_congr fun o ho v => ?_
    rcases o with _ | i
    · rfl
    · refine Iff.trans ?_ fetch_eq_ok_iff.symm
      cases validity with
      | some b => exact get_eq_ok_iff
      | none => simp [presentAt, append.bits, hi i ho]
  rw [gatherOptional, bind_eq_ok_iff]
  refine exists_congr fun bits => and_congr (hget bits) ?_
  rw [ofPresence_eq]
  exact iff_of_eq (Except.ok.injEq _ _)

theorem presence_of_gatherOptional {n : Nat} {validity : Option Bitmap} {d : Bitmap}
    {offsets : List (Option Nat)} (hi : SourcesInRange n offsets)
    (h : Bitmap.gatherOptional validity offsets = .ok d) :
    Rows.gatherOptional false (presence n validity) offsets = .ok d.toList := by
  obtain ⟨bits, hbits, rfl⟩ := (gatherOptional_eq_ok_iff hi).1 h
  rw [toList_ofList, hbits]

/-! ## Appending -/

theorem aligned_append {m n : Nat} {a b : Option Bitmap} (ha : Aligned m a) (hb : Aligned n b) :
    Aligned (m + n) (append m a n b) := by
  have hlen : (presence m a ++ presence n b).length = m + n := by
    rw [List.length_append, length_presence ha, length_presence hb]
  rcases a with _ | a <;> rcases b with _ | b
  · exact aligned_none _
  all_goals exact aligned_ofList hlen

theorem presence_append (m n : Nat) (a b : Option Bitmap) :
    presence (m + n) (append m a n b) = presence m a ++ presence n b := by
  rcases a with _ | a <;> rcases b with _ | b
  · exact List.replicate_append_replicate.symm
  all_goals exact toList_ofList _

theorem isSome_append (m n : Nat) (a b : Option Bitmap) :
    (append m a n b).isSome = (a.isSome || b.isSome) := by
  rcases a with _ | a <;> rcases b with _ | b <;> rfl

end ColumnFlow.Bitmap
