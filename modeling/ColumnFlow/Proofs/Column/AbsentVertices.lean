import ColumnFlow.Proofs.Column.Derived
import ColumnFlow.Proofs.Rows.Partition

/-!
# Absent vertices

Rows are grouped by their signatures, and the signature of a vertex counts its label, also where the
vertex is absent. So the absent rows of a column of vertices are one group exactly if they all hold
the reserved id under one label (`Column.absent_vertices_together`). Null and the operations on
columns see to that, but a vertex that is pushed with the reserved id keeps the label it has.
-/

namespace ColumnFlow

open Rows

/-! ## Absent rows in one group -/

namespace Column

variable {c keys : Column}

/-- Row `i` is there, and it is absent. -/
def Absent (c : Column) (i : Nat) : Prop := c.hasValue i = .ok false

/-- All absent rows have one signature, so that only the first of them counts when equal rows are
dropped, and they are in one group when the rows are grouped. -/
structure AbsentTogether (c : Column) : Prop where
  signatureAt_eq : ∀ i j, c.Absent i → c.Absent j → c.signatureAt i = c.signatureAt j
  firstRows : ∃ rows, c.firstRows = .ok rows ∧
    ∀ i ∈ rows, ∀ j ∈ rows, c.Absent i → c.Absent j → i = j
  group : ∃ keys groups, c.group = .ok (keys, groups) ∧
    ∀ g ∈ groups, ∀ i ∈ g, c.Absent i → ∀ j, c.Absent j → j ∈ g

/-- The rows of a column that can be numbered can be grouped. -/
theorem exists_group (hc : c.Aligned) {numbers : List Nat} (h : c.signatures = .ok numbers)
    (hlen : numbers.length = c.size) :
    ∃ keys, c.group = .ok (keys, (Rows.groups numbers).map Group.rows) := by
  have hrange : InRange c.size ((Rows.groups numbers).map Group.first) := by
    intro f hf
    rw [(grouped_groups numbers).firsts_eq] at hf
    exact hlen ▸ (mem_firstRows.1 hf).1
  obtain ⟨keys, hkeys, -⟩ := exists_gathered hc hrange
  exact ⟨keys, bind_eq_ok_iff.2 ⟨numbers, h, bind_eq_ok_iff.2 ⟨keys, hkeys, rfl⟩⟩⟩

/-- One number for all absent rows puts them in one group. -/
theorem absentTogether_of_signatures (hc : c.Aligned) {numbers : List Nat}
    (h : c.signatures = .ok numbers) (hlen : numbers.length = c.size) {n : Nat}
    (habsent : ∀ i, c.Absent i → numbers[i]? = some n) : c.AbsentTogether := by
  refine ⟨fun i j hi hj => ?_, ?_, ?_⟩
  · have hrow : ∀ k, c.Absent k → c.signatureAt k = .ok n := fun k hk =>
      bind_eq_ok_iff.2 ⟨numbers, h, fetch_eq_ok_iff.2 (habsent k hk)⟩
    rw [hrow i hi, hrow j hj]
  · refine ⟨_, bind_eq_ok_iff.2 ⟨numbers, h, rfl⟩, fun i hi j hj hia hja => ?_⟩
    -- of two first rows with one number neither stands before the other
    have hkey : numbers[i]? = numbers[j]? := by rw [habsent i hia, habsent j hja]
    rcases Nat.lt_trichotomy i j with hlt | heq | hgt
    · exact absurd hkey ((mem_firstRows.1 hj).2 i hlt)
    · exact heq
    · exact absurd hkey.symm ((mem_firstRows.1 hi).2 j hgt)
  · obtain ⟨keys, hgroup⟩ := exists_group hc h hlen
    refine ⟨keys, _, hgroup, fun rows hrows i hi hia j hja => ?_⟩
    obtain ⟨g, hg, rfl⟩ := List.mem_map.1 hrows
    rw [(grouped_groups numbers).rows_eq g hg, mem_rowsWith] at hi ⊢
    rw [habsent j hja, ← habsent i hia, hi]

end Column

/-! ## Absent vertices -/

namespace VertexColumn

variable {c d e : VertexColumn}

theorem exists_of_hasValue {i : Nat} {b : Bool} (h : c.hasValue i = .ok b) :
    ∃ v, c.vertices[i]? = some v := by
  have hi : i < c.size := by
    cases c with
    | single s =>
      obtain ⟨vid, hvid, -⟩ := bind_eq_ok_iff.1 h
      exact (List.getElem?_eq_some_iff.1 (fetch_eq_ok_iff.1 hvid)).1
    | segmented s =>
      by_contra hle
      cases (if_neg hle).symm.trans h
    | mixed m =>
      obtain ⟨v, hv, -⟩ := bind_eq_ok_iff.1 h
      exact (List.getElem?_eq_some_iff.1 (fetch_eq_ok_iff.1 hv)).1
  rw [← length_vertices] at hi
  exact ⟨c.vertices[i], List.getElem?_eq_getElem hi⟩

/-- A row is absent if the column is optional and the row holds the reserved id. -/
theorem absent_iff {i : Nat} :
    (Column.vertex c).Absent i
      ↔ ∃ label, c.vertices[i]? = some (Vertex.none label) ∧ c.optional = true := by
  constructor
  · intro h
    obtain ⟨v, hv⟩ := exists_of_hasValue h
    have hpresent : (meaning c.optional v).isSome = false :=
      Except.ok.inj ((hasValue_of_getElem? hv).symm.trans h)
    rw [isSome_meaning, Bool.not_eq_false', Bool.and_eq_true] at hpresent
    obtain ⟨hopt, hnone⟩ := hpresent
    obtain ⟨label, vid⟩ := v
    obtain rfl : vid = noVertexId := by simpa [Vertex.isNone] using hnone
    exact ⟨label, hv, hopt⟩
  · intro h
    obtain ⟨label, hv, hopt⟩ := h
    refine (hasValue_of_getElem? hv).trans ?_
    rw [isSome_meaning, hopt, Vertex.isNone_none]
    rfl

/-- Absent rows are one group exactly if they hold one vertex. -/
theorem absentTogether_iff :
    (Column.vertex c).AbsentTogether
      ↔ ∃ label, ∀ i, (Column.vertex c).Absent i → c.vertices[i]? = some (Vertex.none label) := by
  have hnumber : ∀ {i : Nat} {v : Vertex}, c.vertices[i]? = some v →
      c.signatures[i]? = some v.signature := by
    intro i v hv
    rw [signatures_eq, List.getElem?_map, hv]
    rfl
  constructor
  · intro h
    by_cases hex : ∃ i, (Column.vertex c).Absent i
    · obtain ⟨i, hi⟩ := hex
      obtain ⟨label, hlabel, -⟩ := absent_iff.1 hi
      refine ⟨label, fun j hj => ?_⟩
      obtain ⟨label', hlabel', -⟩ := absent_iff.1 hj
      have hsame := h.signatureAt_eq i j hi hj
      have hat : ∀ {k : Nat} {v : Vertex}, c.vertices[k]? = some v →
          (Column.vertex c).signatureAt k = .ok v.signature := fun hv =>
        bind_eq_ok_iff.2 ⟨_, rfl, fetch_eq_ok_iff.2 (hnumber hv)⟩
      rw [hat hlabel, hat hlabel'] at hsame
      rw [hlabel', Vertex.signature_inj (Except.ok.inj hsame)]
    · exact ⟨0, fun i hi => absurd ⟨i, hi⟩ hex⟩
  · intro h
    obtain ⟨label, hlabel⟩ := h
    have hlen : c.signatures.length = (Column.vertex c).size := by
      rw [signatures_eq, List.length_map, length_vertices]
      rfl
    exact Column.absentTogether_of_signatures trivial rfl hlen fun i hi => hnumber (hlabel i hi)

/-! ## Where absent vertices come from -/

/-- The reserved id is held as the placeholder for mixed labels, or in an absent row of one label
as the placeholder for that. -/
def Settled (c : VertexColumn) : Prop :=
  ∀ v ∈ c.vertices, v.isNone = true → v = Vertex.absent ∨ (c.optional = true ∧ v = c.placeholder)

theorem Settled.absentTogether (h : c.Settled) : (Column.vertex c).AbsentTogether := by
  rw [absentTogether_iff]
  have habsent : ∀ i, (Column.vertex c).Absent i → ∃ label,
      c.vertices[i]? = some (Vertex.none label) := by
    intro i hi
    obtain ⟨label, hlabel, -⟩ := absent_iff.1 hi
    exact ⟨label, hlabel⟩
  cases c with
  | single s =>
    -- there is only one label
    refine ⟨s.label, fun i hi => ?_⟩
    obtain ⟨label, hlabel⟩ := habsent i hi
    obtain ⟨vid, -, hvid⟩ := List.mem_map.1 (List.mem_of_getElem? hlabel)
    obtain rfl : s.label = label := (Vertex.mk.inj hvid).1
    exact hlabel
  | segmented s | mixed m =>
    refine ⟨lastLabel, fun i hi => ?_⟩
    obtain ⟨label, hlabel⟩ := habsent i hi
    rcases h _ (List.mem_of_getElem? hlabel) (Vertex.isNone_none label) with hv | ⟨-, hv⟩ <;>
      exact hlabel.trans (congrArg some hv)

theorem Pushed.settled {v : Vertex} (h : Pushed c v d) (hc : c.Settled)
    (hv : v.isNone = true → v = Vertex.absent ∨ (c.optional = true ∧ v = c.placeholder)) :
    d.Settled := by
  intro w hw hnone
  rw [h.optional_eq, h.placeholder_eq]
  rw [h.vertices_eq, List.mem_append, List.mem_singleton] at hw
  rcases hw with hw | rfl
  · exact hc w hw hnone
  · exact hv hnone

theorem Gathered.settled {offsets : List Nat} (h : Gathered c offsets d) (hc : c.Settled) :
    d.Settled := by
  intro v hv hnone
  rw [h.optional_eq, h.placeholder_eq]
  exact hc v (mem_of_gather h.vertices_eq hv) hnone

theorem GatheredOptional.settled {offsets : List (Option Nat)} (h : GatheredOptional c offsets d)
    (hc : c.Settled) : d.Settled := by
  intro v hv hnone
  rw [h.optional_eq, h.placeholder_eq]
  rcases mem_of_gatherOptional h.vertices_eq hv with hv | hv
  · exact .inr ⟨rfl, hv⟩
  · exact (hc v hv hnone).imp_right fun hplace => ⟨rfl, hplace.2⟩

/-- Normal rows with the reserved id hold the placeholder for mixed labels. -/
theorem Settled.eq_absent_of_mem_normalized (hc : c.Settled) {v : Vertex} (hv : v ∈ c.normalized)
    (hnone : v.isNone = true) : v = Vertex.absent := by
  rw [normalized_eq, List.mem_map] at hv
  obtain ⟨row, hrow, rfl⟩ := hv
  obtain ⟨w, hw, rfl⟩ := List.mem_map.1 hrow
  cases habsent : c.optional && w.isNone with
  | true => simp [meaning, habsent]
  | false =>
    have hself : (meaning c.optional w).getD Vertex.absent = w := by simp [meaning, habsent]
    rw [hself] at hnone ⊢
    rw [hnone, Bool.and_true] at habsent
    exact (hc w hw hnone).resolve_right fun hplace => by simp [habsent] at hplace

theorem settled_mix (hc : c.Settled) (hd : d.Settled) : (mixed (append.mix c d)).Settled := by
  intro v hv hnone
  rcases List.mem_append.1 hv with hv | hv
  · exact .inl (hc.eq_absent_of_mem_normalized hv hnone)
  · exact .inl (hd.eq_absent_of_mem_normalized hv hnone)

theorem settled_single {label : Label} {xs ys : List VertexId} {p q : Bool}
    (hc : Settled (single ⟨label, xs, p⟩)) (hd : Settled (single ⟨label, ys, q⟩)) :
    Settled (single ⟨label, xs ++ ys, p || q⟩) := by
  intro v hv hnone
  rw [vertices, List.map_append, List.mem_append] at hv
  rcases hv with hv | hv
  · exact (hc v hv hnone).imp_right fun hplace => ⟨Bool.or_eq_true_iff.2 (.inl hplace.1), hplace.2⟩
  · exact (hd v hv hnone).imp_right fun hplace => ⟨Bool.or_eq_true_iff.2 (.inr hplace.1), hplace.2⟩

theorem settled_of_append (hc : c.Settled) (hd : d.Settled) (h : c.append d = .ok e) :
    e.Settled := by
  rcases append_cases h with rfl | ⟨label, xs, ys, p, q, rfl, rfl, rfl⟩
  · exact settled_mix hc hd
  · exact settled_single hc hd

end VertexColumn

/-- A value that is not the reserved vertex of a label, but for the placeholder itself. -/
def Value.Settled (v : Value) : Prop := v.isReserved = true → v = .vertex Vertex.absent

theorem Value.Settled.eq_absent {v : Vertex} (h : (Value.vertex v).Settled)
    (hnone : v.isNone = true) : v = Vertex.absent := Value.vertex.inj (h hnone)

namespace Column

/-- A column of vertices holds the reserved id as a placeholder only. -/
def Settled : Column → Prop
  | vertex c => c.Settled
  | _ => True

end Column

namespace Builder

variable {b b' : Builder} {v : Value}

theorem settled_toColumn_value (b : ValueBuilder) (arena : Option Arena) :
    ((value b).toColumn arena).Settled :=
  toColumn_value_cases trivial fun _ => trivial

theorem settled_toColumn (h : (b.toColumn none).Settled) (arena : Option Arena) :
    (b.toColumn arena).Settled := by
  cases b with
  | value b => exact settled_toColumn_value b arena
  | single c | segmented c | mixed c => exact h
  | edge c | path c => trivial

theorem settled_of_pushValue (hb : b.Aligned) (hs : (b.toColumn none).Settled) (hv : v.Settled)
    (h : b.pushValue v = .ok b') : (b'.toColumn none).Settled := by
  cases valuePushed_of_pushValue h with
  | single | segmented | mixed =>
    obtain ⟨x, d, ⟨⟩, -, hd, hpush⟩ := vertex_of_pushValue hb rfl h
    rw [hd]
    exact hpush.settled hs fun hnone => .inl (hv.eq_absent hnone)
  | @value c d => exact settled_toColumn_value d none
  | edge | path => trivial

theorem settled_of_pushNull (hs : (b.toColumn none).Settled) (h : b.pushNull = .ok b') :
    (b'.toColumn none).Settled := by
  cases b with
  | single c | segmented c | mixed c =>
    obtain ⟨d, -, hd, hopt, hpush⟩ := vertex_of_pushNull rfl h
    rw [hd]
    exact hpush.settled hs fun _ => .inr ⟨hopt, rfl⟩
  | value c =>
    obtain ⟨d, -, rfl⟩ := map_eq_ok_iff.1 h
    exact settled_toColumn_value d none
  | edge c | path c =>
    obtain ⟨d, -, rfl⟩ := map_eq_ok_iff.1 h
    trivial

theorem Fresh.settled (h : Fresh b) : (b.toColumn none).Settled := by
  cases h with
  | single label optional | mixed optional | segmented =>
    intro v hv
    cases hv
  | edge optional | path optional => trivial
  | value h => exact settled_toColumn_value _ none

theorem Reachable.settled (h : Reachable Value.Settled b) : (b.toColumn none).Settled := by
  induction h with
  | fresh h => exact h.settled
  | pushValue hb hv h ih => exact settled_of_pushValue hb.aligned ih hv h
  | pushNull hb h ih => exact settled_of_pushNull ih h
  | @pushVid c vid hb hv ih =>
    exact (c.pushed_pushVid vid).settled ih fun hnone => .inl (hv.eq_absent hnone)
  | @startLabel c hb label ih =>
    intro v hv
    have hvertices : (VertexColumn.segmented (c.startLabel label).finish).vertices
        = (VertexColumn.segmented c.finish).vertices := by
      rw [SegmentBuilder.vertices_finish, SegmentBuilder.vertices_finish,
        SegmentBuilder.vertices_startLabel hb.aligned]
    exact ih v (hvertices ▸ hv)
  | pushOpenVid hb hv h ih =>
    obtain ⟨-, label, hlabel, hpush⟩ := SegmentBuilder.pushed_of_pushVid h
    exact hpush.settled ih fun hnone => .inl ((hv label hlabel).eq_absent hnone)
  | pushText => exact settled_toColumn_value _ none

end Builder

namespace Column

variable {c : Column}

theorem settled_of_ne_vertex (h : ∀ vertices, c ≠ vertex vertices) : c.Settled := by
  cases c with
  | vertex c => exact absurd rfl (h c)
  | edge c | value c | optionalValue c | path c => trivial

theorem kept_settled : Kept Settled :=
  kept_of_vertices settled_of_ne_vertex
    (fun hc h => (VertexColumn.gathered_of_gather h).settled hc)
    (fun hc h => (VertexColumn.gatheredOptional_of_gatherOptional h).2.settled hc)
    VertexColumn.settled_of_append

theorem Derived.settled (h : c.Derived Value.Settled) : c.Settled :=
  h.of_kept kept_settled fun _ arena hb => Builder.settled_toColumn hb.settled arena

/-- The absent rows of a column of vertices are one group exactly if they hold the reserved id under
one label. They do if the reserved id was only ever pushed as the placeholder for mixed labels,
whatever was pushed, gathered and appended otherwise. -/
theorem absent_vertices_together (c : VertexColumn) :
    ((vertex c).AbsentTogether ↔
      ∃ label, ∀ i, (vertex c).Absent i → (vertex c).get i = .ok (.vertex (Vertex.none label))) ∧
    ((vertex c).Derived Value.Settled → (vertex c).AbsentTogether) := by
  refine ⟨?_, fun h => VertexColumn.Settled.absentTogether h.settled⟩
  rw [VertexColumn.absentTogether_iff]
  refine exists_congr fun label => forall_congr' fun i => imp_congr_right fun _ => ?_
  rw [← VertexColumn.get_eq_ok_iff, get, map_eq_ok_iff]
  constructor
  · intro hv
    exact ⟨_, hv, rfl⟩
  · intro hv
    obtain ⟨v, hv, heq⟩ := hv
    rw [hv, Value.vertex.inj heq]

/-- Vertex 7 and a null of label 1, and a null of label 2 behind them. -/
def appendedSample : VertexColumn :=
  .mixed ⟨[⟨1, 7⟩, Vertex.absent, Vertex.absent], LabelSet.ofList [1, 2], true⟩

/-- Nulls of two labels hold one placeholder once they are appended. -/
theorem absent_vertices_together_appendedSample :
    (vertex appendedSample).Derived Value.Settled ∧ (vertex appendedSample).Absent 1 ∧
      (vertex appendedSample).Absent 2 ∧ (vertex appendedSample).AbsentTogether := by
  have hfirst : (Builder.single ⟨1, [7, noVertexId], true⟩).Reachable Value.Settled := by
    have hnew : (Builder.single (SingleVertices.empty 1 true)).Reachable Value.Settled :=
      .fresh (.single 1 true)
    have hvertex : (Builder.single ⟨1, [7], true⟩).Reachable Value.Settled :=
      hnew.pushVid fun hreserved => by cases hreserved
    exact hvertex.pushNull rfl
  have hsecond : (Builder.single ⟨2, [noVertexId], true⟩).Reachable Value.Settled := by
    have hnew : (Builder.single (SingleVertices.empty 2 true)).Reachable Value.Settled :=
      .fresh (.single 2 true)
    exact hnew.pushNull rfl
  have happend : (vertex (.single ⟨1, [7, noVertexId], true⟩)).append 0
      (vertex (.single ⟨2, [noVertexId], true⟩)) = .ok (vertex appendedSample) := rfl
  have hderived : (vertex appendedSample).Derived Value.Settled :=
    .append (.finish hfirst 0 none) (.finish hsecond 0 none) happend
  exact ⟨hderived, rfl, rfl, (absent_vertices_together appendedSample).2 hderived⟩

/-- A vertex with the reserved id under label 1, and a null: both rows are absent. -/
def mislabelledSample : VertexColumn :=
  .mixed ⟨[Vertex.none 1, Vertex.absent], LabelSet.ofList [1], true⟩

/-- Absent rows of two labels are two groups. -/
theorem not_absentTogether_mislabelledSample :
    (vertex mislabelledSample).Derived (fun _ => True) ∧ mislabelledSample.optional = true ∧
      (vertex mislabelledSample).firstRows = .ok [0, 1] ∧
      ¬ (vertex mislabelledSample).AbsentTogether := by
  have hnew : (Builder.mixed (MixedVertices.empty true)).Reachable fun _ => True :=
    .fresh (.mixed true)
  have hpush := (hnew.pushValue (v := .vertex (Vertex.none 1)) trivial rfl).pushNull rfl
  have hne : Vertex.absent.signature ≠ (Vertex.none 1).signature := by
    intro h
    cases Vertex.signature_inj h
  refine ⟨.finish hpush 0 none, rfl, ?_, fun h => ?_⟩
  · show Except.ok (Rows.firstRows [(Vertex.none 1).signature, Vertex.absent.signature]) = _
    simp [Rows.firstRows, Rows.firstRowsFrom, hne]
  · have hsame : (.ok (Vertex.none 1).signature : Except Fault Nat) = .ok Vertex.absent.signature :=
      h.signatureAt_eq 0 1 rfl rfl
    exact hne (Except.ok.inj hsame).symm

end Column

end ColumnFlow
