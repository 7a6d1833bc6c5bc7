import ColumnFlow.Proofs.Builder.Reachable
import ColumnFlow.Proofs.Column.Append

/-!
# Derived columns

The columns that a caller can have: those that it builds, those that it gathers and appends from
them, and the keys of their groups, in any nesting. All of them are aligned, and they are marked if
no reserved vertex was ever pushed.
-/

namespace ColumnFlow.Column

open Rows

variable {c d e : Column} {allowed : Value → Prop} {P : Column → Prop}

/-- The columns that are derived from builders to which allowed values are pushed. -/
inductive Derived (allowed : Value → Prop) : Column → Prop where
  | finish {b : Builder} (hb : b.Reachable allowed) (id : ArenaId) (arena : Option Arena) :
      Derived allowed (b.finish id arena)
  | gather {c d : Column} {offsets : List Nat} (hc : Derived allowed c)
      (h : c.gather offsets = .ok d) : Derived allowed d
  | gatherOptional {c d : Column} {offsets : List (Option Nat)} (hc : Derived allowed c)
      (h : c.gatherOptional offsets = .ok d) : Derived allowed d
  | append {c d e : Column} {id : ArenaId} (hc : Derived allowed c) (hd : Derived allowed d)
      (h : c.append id d = .ok e) : Derived allowed e
  | groupKeys {c keys : Column} {groups : List (List Nat)} (hc : Derived allowed c)
      (h : c.group = .ok (keys, groups)) : Derived allowed keys

/-- The keys of groups are gathered from the rows. -/
theorem gather_of_group {keys : Column} {groups : List (List Nat)}
    (h : c.group = .ok (keys, groups)) : ∃ offsets, c.gather offsets = .ok keys := by
  obtain ⟨numbers, -, h⟩ := bind_eq_ok_iff.1 h
  obtain ⟨gathered, hgathered, ⟨⟩⟩ := bind_eq_ok_iff.1 h
  exact ⟨_, hgathered⟩

/-- What gathering and appending keep. -/
structure Kept (P : Column → Prop) : Prop where
  gather : ∀ {c d : Column} {offsets : List Nat}, P c → c.gather offsets = .ok d → P d
  gatherOptional : ∀ {c d : Column} {offsets : List (Option Nat)}, P c →
    c.gatherOptional offsets = .ok d → P d
  append : ∀ {c d e : Column} {id : ArenaId}, P c → P d → c.append id d = .ok e → P e

/-- What vertices alone decide is kept if gathers and appends of vertices keep it. -/
theorem kept_of_vertices (hother : ∀ {c : Column}, (∀ vertices, c ≠ vertex vertices) → P c)
    (hgather : ∀ {c d : VertexColumn} {offsets : List Nat}, P (vertex c) →
      c.gather offsets = .ok d → P (vertex d))
    (hgatherOptional : ∀ {c d : VertexColumn} {offsets : List (Option Nat)}, P (vertex c) →
      c.gatherOptional offsets = .ok d → P (vertex d))
    (happend : ∀ {c d e : VertexColumn}, P (vertex c) → P (vertex d) → c.append d = .ok e →
      P (vertex e)) : Kept P where
  gather {c d offsets} hc h := by
    cases c with
    | vertex c =>
      obtain ⟨d, hd, rfl⟩ := map_eq_ok_iff.1 h
      exact hgather hc hd
    | edge c | value c | optionalValue c | path c =>
      obtain ⟨d, -, rfl⟩ := map_eq_ok_iff.1 h
      exact hother fun _ heq => by cases heq
  gatherOptional {c d offsets} hc h := by
    cases c with
    | vertex c =>
      obtain ⟨d, hd, rfl⟩ := map_eq_ok_iff.1 h
      exact hgatherOptional hc hd
    | edge c | value c | optionalValue c | path c =>
      obtain ⟨d, -, rfl⟩ := map_eq_ok_iff.1 h
      exact hother fun _ heq => by cases heq
  append {c d e id} hc hd h := by
    cases appendsTo_of_append h with
    | vertex he => exact happend hc hd he
    | edge | value | optionalValue | path => exact hother fun _ heq => by cases heq

theorem Kept.of_group (hP : Kept P) (hc : P c) {keys : Column} {groups : List (List Nat)}
    (h : c.group = .ok (keys, groups)) : P keys := by
  obtain ⟨offsets, hkeys⟩ := gather_of_group h
  exact hP.gather hc hkeys

/-- What every finished column has, and gathering and appending keep, every derived column has. -/
theorem Derived.of_kept (hP : Kept P)
    (hfinish : ∀ (b : Builder) (arena : Option Arena), b.Reachable allowed → P (b.toColumn arena))
    (h : c.Derived allowed) : P c := by
  induction h with
  | @finish b hb id arena =>
    obtain ⟨arena', harena⟩ := b.finish_eq_toColumn id arena
    rw [harena]
    exact hfinish b arena' hb
  | gather _ h ih => exact hP.gather ih h
  | gatherOptional _ h ih => exact hP.gatherOptional ih h
  | append _ _ h ihc ihd => exact hP.append ihc ihd h
  | groupKeys _ h ih => exact hP.of_group ih h

theorem kept_aligned : Kept Aligned where
  gather := fun ha h => (gathered_of_gather ha h).aligned
  gatherOptional := fun ha h => (gatheredOptional_of_gatherOptional ha h).aligned
  append := aligned_of_append

theorem Derived.aligned (h : c.Derived allowed) : c.Aligned :=
  h.of_kept kept_aligned fun _ arena hb => Builder.aligned_toColumn hb.aligned arena

/-- Gathers and appends read the rows of aligned columns. -/
theorem kept_marked : Kept fun c => c.Aligned ∧ c.Marked where
  gather := fun hc h =>
    have hg := gathered_of_gather hc.1 h
    ⟨hg.aligned, hg.marked hc.2⟩
  gatherOptional := fun hc h =>
    have hg := gatheredOptional_of_gatherOptional hc.1 h
    ⟨hg.aligned, hg.marked hc.2⟩
  append := fun hc hd h =>
    ⟨aligned_of_append hc.1 hd.1 h, (appended_of_append hc.1 hc.2 hd.2 h).marked⟩

/-- Made without pushing the reserved vertex. -/
def WellMade (c : Column) : Prop := c.Derived fun v => v.isReserved = false

theorem WellMade.aligned (h : c.WellMade) : c.Aligned := Derived.aligned h

theorem WellMade.marked (h : c.WellMade) : c.Marked :=
  (Derived.of_kept kept_marked (fun _ arena hb =>
    ⟨Builder.aligned_toColumn hb.aligned arena,
      Builder.marked_toColumn (hb.marked fun _ hv => hv) arena⟩) h).2

end ColumnFlow.Column
