import ColumnFlow.Column.Records
import ColumnFlow.Proofs.Bitmap.Presence
import ColumnFlow.Proofs.Rows.Pattern

/-!
# The rows of edge and path columns

A column of records is a list of cells under a list of presence bits. As long as the bitmap, if
there is one, has a bit for each cell, every operation is one on these two lists.
-/

namespace ColumnFlow.RecordColumn

open Rows

variable {α : Type} {c d : RecordColumn α}

/-- The bitmap, if there is one, has a bit for each row. -/
def Aligned (c : RecordColumn α) : Prop := Bitmap.Aligned c.size c.validity

/-- What the rows hold, nothing where they are absent. -/
def contents (c : RecordColumn α) : List (Option α) :=
  mask c.cells (Bitmap.presence c.size c.validity)

theorem contents_ofList (cells : List α) (bits : List Bool) :
    contents ⟨cells, some (Bitmap.ofList bits)⟩ = mask cells bits :=
  congrArg (mask cells) (Bitmap.toList_ofList bits)

theorem length_contents (h : c.Aligned) : c.contents.length = c.size := by
  rw [contents, length_mask, Bitmap.length_presence h, size, Nat.min_self]

/-! ## Reading rows -/

theorem get_eq_ok_iff {i : Nat} {a : α} : c.get i = .ok a ↔ c.cells[i]? = some a := fetch_eq_ok_iff

theorem hasValue_eq_ok [Record α] (h : c.Aligned) {i : Nat} {b : Bool}
    (hb : (Bitmap.presence c.size c.validity)[i]? = some b) : c.hasValue i = .ok b := by
  have hi : i < c.size := by
    rw [← Bitmap.length_presence h]
    exact (List.getElem?_eq_some_iff.1 hb).1
  unfold hasValue
  rcases hv : c.validity with _ | validity
  · rw [hv] at hb
    rw [List.eq_of_mem_replicate (List.mem_of_getElem? hb)]
    exact if_pos hi
  · rw [hv] at hb
    exact Bitmap.get_eq_ok_iff.2 hb

theorem exists_row [Record α] (h : c.Aligned) {i : Nat} {row : Option α}
    (hrow : c.contents[i]? = some row) :
    ∃ x b, c.get i = .ok x ∧ c.hasValue i = .ok b ∧ row = keep x b := by
  obtain ⟨x, b, hx, hb, hkeep⟩ := getElem?_mask_eq_some hrow
  exact ⟨x, b, get_eq_ok_iff.2 hx, hasValue_eq_ok h hb, hkeep⟩

theorem rows_eq [Record α] (h : c.Aligned) : c.rows = .ok c.contents := by
  have hbits := map_present_eq (Bitmap.length_presence h) fun i b hb => hasValue_eq_ok h hb
  exact mapM_zipIdx_eq_ok_iff.2 ⟨_, hbits, by rw [contents, List.zipIdx_map_fst]⟩

/-! ## Gathering and appending -/

theorem cells_of_gather {offsets : List Nat} (h : c.gather offsets = .ok d) :
    Rows.gather c.cells offsets = .ok d.cells := by
  obtain ⟨cells, hcells, h⟩ := bind_eq_ok_iff.1 h
  obtain ⟨validity, -, ⟨⟩⟩ := bind_eq_ok_iff.1 h
  exact hcells

theorem exists_gather (hc : c.Aligned) {offsets : List Nat} (hi : InRange c.size offsets) :
    ∃ d, c.gather offsets = .ok d ∧ d.Aligned ∧ d.optional = c.optional ∧
      Rows.gather c.contents offsets = .ok d.contents := by
  obtain ⟨cells, hcells⟩ := exists_gather_iff.2 hi
  obtain ⟨bits, hbits⟩ := exists_gather_iff.2 ((Bitmap.length_presence hc).symm ▸ hi)
  have hlen : bits.length = cells.length :=
    (length_of_gather hbits).trans (length_of_gather hcells).symm
  have hmask := gather_zipWith keep hcells hbits
  obtain ⟨_, _ | b⟩ := c
  · -- without a bitmap all bits are ones, before and after
    have hones := Except.ok.inj (hbits.symm.trans (gather_replicate true hi))
    rw [hones, ← length_of_gather hcells] at hmask
    exact ⟨⟨cells, none⟩, bind_eq_ok_iff.2 ⟨cells, hcells, rfl⟩, Bitmap.aligned_none _, rfl, hmask⟩
  · have hgather : (some b).mapM (Bitmap.gather · offsets) = .ok (some (Bitmap.ofList bits)) :=
      map_eq_ok_iff.2 ⟨_, Bitmap.gather_eq_ok_iff.2 ⟨bits, hbits, rfl⟩, rfl⟩
    refine ⟨⟨cells, some (Bitmap.ofList bits)⟩,
      bind_eq_ok_iff.2 ⟨cells, hcells, bind_eq_ok_iff.2 ⟨_, hgather, rfl⟩⟩,
      Bitmap.aligned_ofList hlen, rfl, ?_⟩
    rw [contents_ofList]
    exact hmask

theorem cells_of_gatherOptional [Record α] {offsets : List (Option Nat)}
    (h : c.gatherOptional offsets = .ok d) :
    Rows.gatherOptional Record.placeholder c.cells offsets = .ok d.cells := by
  obtain ⟨cells, hcells, h⟩ := bind_eq_ok_iff.1 h
  obtain ⟨validity, -, ⟨⟩⟩ := bind_eq_ok_iff.1 h
  exact hcells

theorem exists_gatherOptional [Record α] (hc : c.Aligned) {offsets : List (Option Nat)}
    (hi : SourcesInRange c.size offsets) :
    ∃ d, c.gatherOptional offsets = .ok d ∧ d.Aligned ∧ d.optional = true ∧
      Rows.gatherOptional none c.contents offsets = .ok d.contents := by
  obtain ⟨cells, hcells⟩ := exists_gatherOptional_iff (p := Record.placeholder).2 hi
  obtain ⟨bits, hbits⟩ := exists_gatherOptional_iff (p := false).2
    ((Bitmap.length_presence hc).symm ▸ hi)
  have hlen : bits.length = cells.length :=
    (length_of_gatherOptional hbits).trans (length_of_gatherOptional hcells).symm
  refine ⟨⟨cells, some (Bitmap.ofList bits)⟩, bind_eq_ok_iff.2 ⟨cells, hcells,
    bind_eq_ok_iff.2 ⟨_, (Bitmap.gatherOptional_eq_ok_iff hi).2 ⟨bits, hbits, rfl⟩, rfl⟩⟩,
    Bitmap.aligned_ofList hlen, rfl, ?_⟩
  rw [contents_ofList]
  exact gatherOptional_zipWith keep hcells hbits

theorem aligned_append (hc : c.Aligned) (hd : d.Aligned) : (c.append d).Aligned := by
  rw [Aligned, size, append, List.length_append]
  exact Bitmap.aligned_append hc hd

theorem contents_append (hc : c.Aligned) (d : RecordColumn α) :
    (c.append d).contents = c.contents ++ d.contents := by
  rw [contents, size, append, List.length_append]
  show mask (c.cells ++ d.cells) (Bitmap.presence (c.size + d.size) _) = _
  rw [Bitmap.presence_append]
  exact List.zipWith_append (Bitmap.length_presence hc).symm

theorem optional_append (c d : RecordColumn α) :
    (c.append d).optional = (c.optional || d.optional) := Bitmap.isSome_append _ _ _ _

/-! ## Signatures -/

theorem signatures_eq [Record α] [DecidableEq α] (h : c.Aligned) :
    c.signatures = .ok (ordinals c.contents) := by
  rw [signatures, rows_eq h]
  rfl

end ColumnFlow.RecordColumn
