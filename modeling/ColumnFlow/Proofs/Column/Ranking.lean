import ColumnFlow.Proofs.Column.AbsentVertices
import ColumnFlow.Proofs.Rows.Ranking

/-!
# Ranks and groups of value columns

Rows are grouped by numbers and ranked by comparisons, each with code of its own for every type.
They agree because cells compare as equal exactly if they are the same: the order of each type is
one of keys that tell its cells apart. So ties are groups (`Column.group_best`).
-/

namespace ColumnFlow

open Rows

/-! ## The orders of cells -/

section

variable {α β : Type} [Ord β]

/-- An order by keys is as good as that of the keys. -/
theorem transCmp_of_key [Std.TransOrd β] (key : α → β) :
    Std.TransCmp fun a b => compare (key a) (key b) where
  eq_swap := Std.OrientedCmp.eq_swap
  isLE_trans := Std.TransCmp.isLE_trans

/-- Keys that tell the cells apart leave no ties between different cells. -/
theorem lawfulEqCmp_of_key [Std.LawfulEqOrd β] (key : α → β) (h : ∀ a b, key a = key b → a = b) :
    Std.LawfulEqCmp fun a b => compare (key a) (key b) where
  compare_self := Std.ReflCmp.compare_self
  eq_of_compare := fun heq => h _ _ (Std.LawfulEqCmp.eq_of_compare heq)

end

theorem Text.bytes_inj {a b : String} (h : Text.bytes a = Text.bytes b) : a = b :=
  String.toByteArray_inj.1 (ByteArray.ext (Array.toList_inj.1 h))

namespace ScalarType

instance (t : ScalarType) : Std.TransCmp t.compareCells := by
  cases t with
  | bool => exact inferInstanceAs (Std.TransOrd Bool)
  | int32 => exact inferInstanceAs (Std.TransOrd Int32)
  | int64 => exact inferInstanceAs (Std.TransOrd Int64)
  | uint64 => exact inferInstanceAs (Std.TransOrd UInt64)
  | float64 => exact transCmp_of_key Float64.rank
  | date => exact transCmp_of_key Date.millis
  | day => exact transCmp_of_key Day.packed
  | string => exact transCmp_of_key Text.bytes

instance (t : ScalarType) : Std.LawfulEqCmp t.compareCells := by
  cases t with
  | bool => exact inferInstanceAs (Std.LawfulEqOrd Bool)
  | int32 => exact inferInstanceAs (Std.LawfulEqOrd Int32)
  | int64 => exact inferInstanceAs (Std.LawfulEqOrd Int64)
  | uint64 => exact inferInstanceAs (Std.LawfulEqOrd UInt64)
  | float64 => exact lawfulEqCmp_of_key Float64.rank fun _ _ => Float64.rank_inj
  | date => exact lawfulEqCmp_of_key Date.millis fun _ _ => congrArg Date.mk
  | day => exact lawfulEqCmp_of_key Day.packed fun _ _ => congrArg Day.mk
  | string => exact lawfulEqCmp_of_key Text.bytes fun _ _ => Text.bytes_inj

end ScalarType

/-! ## Columns -/

/-- The rows of a value column of any scalar type, ranked in either direction, are its groups one
after the other: each group stands together, with its rows in ascending order, and the direction
turns the order of the groups and of nothing else. -/
theorem Column.group_best (t : ScalarType) (cells : List t.Cell) (arena : Option Arena) :
    ∃ (keys : Column) (groups blocks : List (List Nat)),
      (value ⟨.scalars t cells, arena⟩).group = .ok (keys, groups) ∧
      (∀ g ∈ groups, g ≠ [] ∧ g.Pairwise (· < ·)) ∧ blocks.Perm groups ∧
      (value ⟨.scalars t cells, arena⟩).best true (value ⟨.scalars t cells, arena⟩).size
        = some blocks.flatten ∧
      (value ⟨.scalars t cells, arena⟩).best false (value ⟨.scalars t cells, arena⟩).size
        = some blocks.reverse.flatten := by
  have hpattern := t.samePattern_signatures cells
  have hpartition := partition_of_samePattern hpattern
  obtain ⟨keys, hkeys⟩ := exists_group (c := value ⟨.scalars t cells, arena⟩) trivial rfl
    hpattern.length_eq
  obtain ⟨blocks, hperm, hforward, hbackward⟩ : ∃ blocks : List (List Nat), blocks.Perm _ ∧
      Rows.best t.compareCells true cells.length cells = blocks.flatten ∧
        Rows.best t.compareCells false cells.length cells = blocks.reverse.flatten :=
    best_of_partition hpartition
  exact ⟨keys, _, blocks, hkeys,
    fun g hg => ⟨hpartition.ne_nil hg, hpartition.group_ascending g hg⟩, hperm,
    congrArg some hforward, congrArg some hbackward⟩

end ColumnFlow
