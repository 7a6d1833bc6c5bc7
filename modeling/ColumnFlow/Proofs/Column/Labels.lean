import ColumnFlow.Proofs.Builder.Runs
import ColumnFlow.Proofs.Column.AbsentVertices
import ColumnFlow.Proofs.Column.Obtained

/-!
# Label sets

A vertex column tells the labels of its vertices without a look at the rows. Mixed columns keep the
set beside the rows: a gather hands it on as it is, and an append unites both. It may therefore have
labels that no row has any more, and the label of the placeholder need not be in it. But it has the
label of every row that is present, whatever was done before (`VertexColumn.labels_sound`).
-/

namespace ColumnFlow

open Rows

namespace VertexColumn

variable {c d e : VertexColumn}

/-! ## What a label set says -/

/-- The runs, of a column that has any. -/
def runs : VertexColumn → List Segment
  | segmented s => s.segments
  | single _ | mixed _ => []

/-- The set has the labels of all present rows, and no run is empty. -/
structure LabelsSound (c : VertexColumn) : Prop where
  label_mem : ∀ v, some v ∈ c.contents → v.label ∈ c.labels
  run_ne_nil : ∀ run ∈ c.runs, run.vids ≠ []

/-- One label is known for all rows. -/
theorem labelsSound_single (s : SingleVertices) : (single s).LabelsSound := by
  refine ⟨fun v hv => ?_, fun run hrun => absurd hrun List.not_mem_nil⟩
  obtain ⟨vid, -, rfl⟩ := List.mem_map.1 (some_mem_contents_iff.1 hv).1
  exact LabelSet.mem_ofList.2 List.mem_cons_self

/-- Runs tell their labels: what remains is that each of them has a vertex. -/
theorem labelsSound_segmented {s : SegmentedVertices} (h : ∀ run ∈ s.segments, run.vids ≠ []) :
    (segmented s).LabelsSound := by
  refine ⟨fun v hv => ?_, h⟩
  obtain ⟨run, hrun, hmem⟩ := List.mem_flatMap.1 (some_mem_contents_iff.1 hv).1
  obtain ⟨vid, -, rfl⟩ := List.mem_map.1 hmem
  exact LabelSet.mem_ofList.2 (List.mem_map_of_mem hrun)

/-- Then the labels of the runs are those of the rows. -/
theorem LabelsSound.mem_labels_iff (h : c.LabelsSound) (hseg : c.isSegmented = true) {l : Label} :
    l ∈ c.labels ↔ ∃ v ∈ c.vertices, v.label = l := by
  cases c with
  | single s | mixed s => cases hseg
  | segmented s =>
    constructor
    · intro hl
      obtain ⟨run, hrun, rfl⟩ := List.mem_map.1 (LabelSet.mem_ofList.1 hl)
      obtain ⟨vid, hvid⟩ := List.exists_mem_of_ne_nil _ (h.run_ne_nil run hrun)
      exact ⟨⟨run.label, vid⟩, List.mem_flatMap.2 ⟨run, hrun, List.mem_map_of_mem hvid⟩, rfl⟩
    · intro hl
      obtain ⟨v, hv, rfl⟩ := hl
      exact h.label_mem v (some_mem_contents_iff.2 ⟨hv, rfl⟩)

/-! ## Gathering and appending -/

theorem labels_of_gather {offsets : List Nat} (h : c.gather offsets = .ok d) :
    d.labels = c.labels ∧ d.runs = [] := by
  cases c with
  | single s | segmented s | mixed s =>
    obtain ⟨out, -, ⟨⟩⟩ := bind_eq_ok_iff.1 h
    exact ⟨rfl, rfl⟩

theorem labels_of_gatherOptional {offsets : List (Option Nat)}
    (h : c.gatherOptional offsets = .ok d) : d.labels = c.labels ∧ d.runs = [] := by
  cases c with
  | single s | mixed s =>
    obtain ⟨out, -, ⟨⟩⟩ := bind_eq_ok_iff.1 h
    exact ⟨rfl, rfl⟩
  | segmented s => cases h

theorem labels_of_append (h : c.append d = .ok e) :
    e.labels = c.labels.union d.labels ∧ e.runs = [] := by
  rcases append_cases h with rfl | ⟨label, xs, ys, p, q, rfl, rfl, rfl⟩
  · exact ⟨rfl, rfl⟩
  · exact ⟨(LabelSet.union_self _).symm, rfl⟩

theorem LabelsSound.of_gather {offsets : List Nat} (hc : c.LabelsSound)
    (h : c.gather offsets = .ok d) : d.LabelsSound := by
  obtain ⟨hlabels, hruns⟩ := labels_of_gather h
  refine ⟨fun v hv => ?_, by simp [hruns]⟩
  rw [hlabels]
  exact hc.label_mem v (mem_of_gather (gathered_of_gather h).contents_eq hv)

/-- The placeholder makes a row absent, so no present row has its label from there. -/
theorem LabelsSound.of_gatherOptional {offsets : List (Option Nat)} (hc : c.LabelsSound)
    (h : c.gatherOptional offsets = .ok d) : d.LabelsSound := by
  obtain ⟨hlabels, hruns⟩ := labels_of_gatherOptional h
  obtain ⟨-, hg⟩ := gatheredOptional_of_gatherOptional h
  refine ⟨fun v hv => ?_, by simp [hruns]⟩
  rw [some_mem_contents_iff, hg.optional_eq, Bool.true_and] at hv
  obtain ⟨hmem, hreal⟩ := hv
  rw [hlabels]
  rcases mem_of_gatherOptional hg.vertices_eq hmem with rfl | hmem
  · rw [isNone_placeholder] at hreal
    cases hreal
  · exact hc.label_mem v (some_mem_contents_iff.2 ⟨hmem, by simp [hreal]⟩)

/-- What is present in the normal form was present before, unless it is the placeholder of a column
that is not optional. -/
theorem LabelsSound.label_mem_of_normalized (hc : c.LabelsSound) {v : Vertex}
    (hv : v ∈ c.normalized) (hpresent : (c.optional && v.isNone) = false) :
    v.label ∈ c.labels := by
  rw [normalized_eq] at hv
  obtain ⟨row, hrow, rfl⟩ := List.mem_map.1 hv
  cases row with
  | some w => exact hc.label_mem w hrow
  | none =>
    rw [optional_of_none_mem_contents hrow] at hpresent
    cases hpresent

theorem LabelsSound.of_append (hc : c.LabelsSound) (hd : d.LabelsSound)
    (h : c.append d = .ok e) : e.LabelsSound := by
  rcases append_cases h with rfl | ⟨label, xs, ys, p, q, rfl, rfl, rfl⟩
  · refine ⟨fun v hv => ?_, fun run hrun => absurd hrun List.not_mem_nil⟩
    obtain ⟨hmem, hpresent⟩ := some_mem_contents_iff.1 hv
    -- a row that is absent in either column is absent in the result, which is optional then
    have hpresent : ((c.optional || d.optional) && v.isNone) = false := hpresent
    rw [Bool.and_or_distrib_right, Bool.or_eq_false_iff] at hpresent
    refine LabelSet.mem_union.2 ((List.mem_append.1 hmem).imp ?_ ?_)
    · exact fun hv => hc.label_mem_of_normalized hv hpresent.1
    · exact fun hv => hd.label_mem_of_normalized hv hpresent.2
  · exact labelsSound_single _

end VertexColumn

/-! ## Building -/

theorem MixedVertices.labelsSound_push {c : MixedVertices}
    (hc : (VertexColumn.mixed c).LabelsSound) (v : Vertex) :
    (VertexColumn.mixed (c.push v)).LabelsSound := by
  refine ⟨fun w hw => ?_, fun run hrun => absurd hrun List.not_mem_nil⟩
  obtain ⟨hmem, hpresent⟩ := VertexColumn.some_mem_contents_iff.1 hw
  show w.label ∈ c.labels.insert v.label
  rw [LabelSet.mem_insert]
  rcases List.mem_append.1 hmem with hold | hnew
  · exact .inr (hc.label_mem w (VertexColumn.some_mem_contents_iff.2 ⟨hold, hpresent⟩))
  · exact .inl (congrArg Vertex.label (List.mem_singleton.1 hnew))

theorem MixedVertices.labelsSound_of_pushNull {c d : MixedVertices}
    (hc : (VertexColumn.mixed c).LabelsSound) (h : c.pushNull = .ok d) :
    (VertexColumn.mixed d).LabelsSound := by
  obtain ⟨hopt, hpush⟩ := MixedVertices.pushed_of_pushNull h
  have hlabels : d.labels = c.labels := by
    rw [pushNull, if_pos hopt] at h
    cases h
    rfl
  refine ⟨fun w hw => ?_, fun run hrun => absurd hrun List.not_mem_nil⟩
  -- the row that came is absent
  rw [hpush.contents_eq, List.mem_append, List.mem_singleton] at hw
  show w.label ∈ d.labels
  rw [hlabels]
  rcases hw with hold | hnew
  · exact hc.label_mem w hold
  · have hopt : (VertexColumn.mixed c).optional = true := hopt
    rw [hopt] at hnew
    cases hnew

namespace SegmentBuilder

variable {b : SegmentBuilder}

theorem run_ne_nil_startLabel (hs : b.Started) (hb : ∀ run ∈ b.finish.segments, run.vids ≠ [])
    (label : Label) : ∀ run ∈ (b.startLabel label).finish.segments, run.vids ≠ [] := by
  rw [segments_startLabel hs]
  exact hb

theorem run_ne_nil_push (hs : b.Started) (hb : ∀ run ∈ b.finish.segments, run.vids ≠ [])
    (v : Vertex) : ∀ run ∈ (b.push v).finish.segments, run.vids ≠ [] :=
  run_ne_nil_concat (run_ne_nil_startLabel hs hb v.label) (label?_startLabel b v.label) v.vid

end SegmentBuilder

namespace Builder

variable {b b' : Builder} {v : Value} {allowed : Value → Prop}

/-- The label set that a builder of vertices has so far is that of its rows. -/
def LabelsSound : Builder → Prop
  | segmented b => ∀ run ∈ b.finish.segments, run.vids ≠ []
  | mixed c => (VertexColumn.mixed c).LabelsSound
  | single _ | edge _ | value _ | path _ => True

theorem Fresh.labelsSound (h : Fresh b) : b.LabelsSound := by
  cases h with
  | segmented => exact fun run hrun => absurd hrun List.not_mem_nil
  | mixed optional => exact ⟨fun v hv => (by cases hv), fun run hrun => absurd hrun List.not_mem_nil⟩
  | single | edge | value | path => trivial

theorem Reachable.labelsSound (h : Reachable allowed b) : b.LabelsSound := by
  induction h with
  | fresh h => exact h.labelsSound
  | pushValue hb _ h ih =>
    cases valuePushed_of_pushValue h with
    | segmented s x => exact SegmentBuilder.run_ne_nil_push hb.aligned ih x
    | mixed s x => exact MixedVertices.labelsSound_push ih x
    | single | edge | value | path => trivial
  | @pushNull b _ _ h ih =>
    cases b with
    | segmented s => cases h
    | mixed s =>
      obtain ⟨d, hd, rfl⟩ := map_eq_ok_iff.1 h
      exact MixedVertices.labelsSound_of_pushNull ih hd
    | single s | edge s | value s | path s =>
      obtain ⟨d, -, rfl⟩ := map_eq_ok_iff.1 h
      trivial
  | startLabel hc label ih => exact SegmentBuilder.run_ne_nil_startLabel hc.aligned ih label
  | @pushOpenVid c _ vid _ _ h ih =>
    obtain ⟨label, hlabel, rfl⟩ := SegmentBuilder.pushVid_eq_ok_iff.1 h
    exact SegmentBuilder.run_ne_nil_concat ih hlabel vid
  | pushVid | pushText => trivial

end Builder

/-! ## Columns -/

namespace Column

variable {c d e : Column} {allowed : Value → Prop}

/-- The label set of a vertex column is that of its rows. -/
def LabelsSound : Column → Prop
  | vertex c => c.LabelsSound
  | edge _ | value _ | optionalValue _ | path _ => True

theorem labelsSound_toColumn {b : Builder} (h : b.LabelsSound) (arena : Option Arena) :
    (b.toColumn arena).LabelsSound := by
  cases b with
  | single s => exact VertexColumn.labelsSound_single s
  | segmented s => exact VertexColumn.labelsSound_segmented h
  | mixed s => exact h
  | value s => exact Builder.toColumn_value_cases trivial fun _ => trivial
  | edge s | path s => trivial

theorem labelsSound_of_ne_vertex (h : ∀ vertices, c ≠ vertex vertices) : c.LabelsSound := by
  cases c with
  | vertex c => exact absurd rfl (h c)
  | edge c | value c | optionalValue c | path c => trivial

theorem kept_labelsSound : Kept LabelsSound :=
  kept_of_vertices labelsSound_of_ne_vertex VertexColumn.LabelsSound.of_gather
    VertexColumn.LabelsSound.of_gatherOptional VertexColumn.LabelsSound.of_append

/-- The vertices of paths are pushed to a new column, and so are the items of lists. -/
theorem labelsSound_of_unfold {limit : Option UInt64} {u : Unfolded} (hc : c.LabelsSound)
    (h : Unfolded.ofColumn limit c = .ok u) : u.column.LabelsSound := by
  rcases Unfolded.ofColumn_shape limit c with
    ⟨paths, rfl⟩ | ⟨itemType, cells, hlists⟩ | ⟨-, -, hrefused⟩
  · obtain ⟨-, visited, -, -, rfl⟩ := Unfolded.exists_of_ofPaths h
    refine ⟨fun v hv => ?_, fun run hrun => absurd hrun List.not_mem_nil⟩
    obtain ⟨p, hp, rfl⟩ := List.mem_map.1 (VertexColumn.some_mem_contents_iff.1 hv).1
    exact LabelSet.mem_ofList.2 (List.mem_map_of_mem hp)
  · rw [Unfolded.ofColumn_of_hasLists hlists] at h
    obtain ⟨lists, -, h⟩ := bind_eq_ok_iff.1 h
    rcases Unfolded.ofLists_eq_ok h with ⟨-, hcolumn, -⟩ | ⟨b, b', hfresh, hpush, hcolumn, -⟩
    · exact kept_labelsSound.gather hc hcolumn
    · have hnew : b.Reachable fun _ => True := .fresh hfresh
      rw [hcolumn]
      exact labelsSound_toColumn (hnew.pushAll (fun _ _ => trivial) hpush).labelsSound c.arena
  · rw [hrefused] at h
    cases h

theorem Obtained.labelsSound (h : c.Obtained allowed) : c.LabelsSound :=
  h.of_kept kept_labelsSound (fun _ arena hb => labelsSound_toColumn hb.labelsSound arena)
    fun _ _ _ => labelsSound_of_unfold

end Column

/-! ## Labels of present rows -/

/-- Whatever vertex column is obtained, its set has the label of every present row, and of runs it
has no other labels. Gathers hand the set on, and an append unites both. -/
theorem VertexColumn.labels_sound {c : VertexColumn} {allowed : Value → Prop}
    (hc : (Column.vertex c).Obtained allowed) :
    (∀ i, c.hasValue i = .ok true → ∃ v, c.get i = .ok v ∧ v.label ∈ c.labels) ∧
      (c.isSegmented = true →
        ∀ l, l ∈ c.labels ↔ ∃ i v, c.get i = .ok v ∧ v.label = l) ∧
      (∀ offsets d, c.gather offsets = .ok d → d.labels = c.labels) ∧
      (∀ offsets d, c.gatherOptional offsets = .ok d → d.labels = c.labels) ∧
      ∀ d e, c.append d = .ok e → e.labels = c.labels.union d.labels := by
  have hsound : c.LabelsSound := hc.labelsSound
  refine ⟨fun i hi => ?_, fun hseg l => ?_, fun _ _ h => (labels_of_gather h).1,
    fun _ _ h => (labels_of_gatherOptional h).1, fun _ _ h => (labels_of_append h).1⟩
  · obtain ⟨v, hv⟩ := exists_of_hasValue hi
    have hpresent := Except.ok.inj ((hasValue_of_getElem? hv).symm.trans hi)
    rw [isSome_meaning, Bool.not_eq_true'] at hpresent
    have hrow := some_mem_contents_iff.2 ⟨List.mem_of_getElem? hv, hpresent⟩
    exact ⟨v, get_eq_ok_iff.2 hv, hsound.label_mem v hrow⟩
  · rw [hsound.mem_labels_iff hseg]
    simp only [List.mem_iff_getElem?, get_eq_ok_iff]
    constructor
    · intro h
      obtain ⟨v, ⟨i, hi⟩, hl⟩ := h
      exact ⟨i, v, hi, hl⟩
    · intro h
      obtain ⟨i, v, hi, hl⟩ := h
      exact ⟨v, ⟨i, hi⟩, hl⟩

/-- A row without a source, behind vertices of mixed labels and before a column of one label. -/
def placeholderSample : VertexColumn :=
  .mixed ⟨[⟨2, 20⟩, Vertex.absent, ⟨3, 30⟩], LabelSet.ofList [1, 2, 3], true⟩

theorem obtained_placeholderSample :
    (Column.vertex placeholderSample).Obtained fun _ => True := by
  have hnew : (Builder.mixed (MixedVertices.empty false)).Reachable fun _ => True :=
    .fresh (.mixed false)
  have hvertices := hnew.pushAll (fun _ _ => trivial)
    (show Builder.pushAll _ [.vertex ⟨1, 10⟩, .vertex ⟨2, 20⟩] = .ok _ from rfl)
  have hdrawn := (Column.Obtained.finish hvertices 0 none).gatherOptional
    (show Column.gatherOptional _ [some 1, none] = .ok _ from rfl)
  have hlabel : (Builder.single (SingleVertices.empty 3 false)).Reachable fun _ => True :=
    .fresh (.single 3 false)
  have hrow : (Builder.single ⟨3, [30], false⟩).Reachable fun _ => True := .pushVid hlabel trivial
  exact hdrawn.append (.finish hrow 0 none) (show Column.append 0 _ _ = .ok _ from rfl)

theorem labels_sound_placeholderSample :
    placeholderSample.hasValue 1 = .ok false ∧ Vertex.absent.label ∉ placeholderSample.labels ∧
      ∃ v, placeholderSample.get 2 = .ok v ∧ v.label ∈ placeholderSample.labels := by
  obtain ⟨hlabel, -⟩ := VertexColumn.labels_sound obtained_placeholderSample
  exact ⟨rfl, by decide, hlabel 2 rfl⟩

end ColumnFlow
