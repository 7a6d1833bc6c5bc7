import ColumnFlow.Proofs.Builder.Runs
import ColumnFlow.Proofs.Column.Grouping
import ColumnFlow.Proofs.Rows.Composition

/-!
# Views of runs

A column of runs is read in several ways, each with a walk of its own over the runs: by row, from
the first row to the last, by a gather, by the numbers of the rows, and run by run. All of them show
the same rows (`SegmentedVertices.shows_vertices`). For a column that was built by calls these are
the rows that were pushed, each under the label that was set last before it
(`SegmentBuilder.shows_pushedRows`).
-/

namespace ColumnFlow

open Rows

/-! ## Walks over the rows -/

/-- A walk that counts the rows meets each vertex with its row. -/
theorem SegmentedVertices.visitFrom_eq (row : Nat) (segments : List Segment) :
    visitFrom row segments
      = ((segments.flatMap Segment.vertices).zipIdx row).map fun (v, i) => (i, v) := by
  induction segments generalizing row with
  | nil => rfl
  | cons s segments ih =>
    have hlen : s.vertices.length = s.vids.length := List.length_map _
    rw [visitFrom, ih, List.flatMap_cons, List.zipIdx_append, List.map_append, hlen,
      Segment.vertices, List.zipIdx_map, List.map_map]
    rfl

/-- Every row is visited with what is stored in it, however it is stored. -/
theorem VertexColumn.visit_eq (c : VertexColumn) :
    c.visit = c.vertices.zipIdx.map fun (v, i) => (i, v) := by
  cases c with
  | single s =>
    show _ = ((s.vids.map _).zipIdx).map _
    rw [List.zipIdx_map, List.map_map]
    rfl
  | segmented s => exact SegmentedVertices.visitFrom_eq 0 s.segments
  | mixed m => rfl

namespace SegmentedVertices

variable {c : SegmentedVertices}

/-- Whichever way the column is read, these are its rows. -/
structure Shows (c : SegmentedVertices) (rows : List Vertex) : Prop where
  size_eq : c.size = rows.length
  get_iff : ∀ i v, c.get i = .ok v ↔ rows[i]? = some v
  present : ∀ i, i < rows.length → (VertexColumn.segmented c).hasValue i = .ok true
  visit_eq : (VertexColumn.segmented c).visit = rows.zipIdx.map fun (v, i) => (i, v)
  gather_eq : ∃ d, (VertexColumn.segmented c).gather (List.range c.size) = .ok d ∧
    d.size = rows.length ∧ ∀ i v, d.get i = .ok v ↔ rows[i]? = some v
  signature : ∀ i v, rows[i]? = some v →
    ∃ n, (Column.vertex (.segmented c)).signatureAt i = .ok n ∧ Vertex.ofSignature n = v
  segments_eq : c.segments.flatMap Segment.vertices = rows

/-- All walks over the runs agree, for any runs. -/
theorem shows_vertices (c : SegmentedVertices) : Shows c c.vertices where
  size_eq := (VertexColumn.length_vertices (.segmented c)).symm
  get_iff := fun _ _ => VertexColumn.get_eq_ok_iff (c := .segmented c)
  present := fun i hi => by
    rw [VertexColumn.hasValue_of_getElem? (c := .segmented c) (List.getElem?_eq_getElem hi)]
    rfl
  visit_eq := VertexColumn.visit_eq (.segmented c)
  gather_eq := by
    have hlen : c.vertices.length = c.size := VertexColumn.length_vertices (.segmented c)
    refine ⟨.mixed ⟨c.vertices, c.labels, false⟩, ?_, rfl, fun _ _ => fetch_eq_ok_iff⟩
    exact bind_eq_ok_iff.2 ⟨c.vertices, hlen ▸ gather_range c.vertices, rfl⟩
  signature := fun i v hv => by
    refine ⟨v.signature, ?_, v.ofSignature_signature⟩
    rw [Column.signatureAt_eq_ok_iff rfl, VertexColumn.signatures_eq, List.getElem?_map]
    show c.vertices[i]?.map _ = _
    rw [hv]
    rfl
  segments_eq := rfl

end SegmentedVertices

namespace SegmentBuilder

variable {b b' : SegmentBuilder} {call : Call} {calls : List Call}

/-! ## What calls push -/

namespace Call

/-- The label that a call sets. -/
def label? : Call → Option Label
  | startLabel label => some label
  | pushVertex v => some v.label
  | pushVid _ => none
  | pushValue v => v.vertex?.map Vertex.label

/-- The vertex that a call pushes, an id under the label set before. -/
def vertex? (label? : Option Label) : Call → Option Vertex
  | startLabel _ => none
  | pushVertex v => some v
  | pushVid vid => label?.map (⟨·, vid⟩)
  | pushValue v => v.vertex?

/-- Whether a call is to push a row. -/
def isPush : Call → Bool
  | startLabel _ => false
  | pushVertex _ | pushVid _ | pushValue _ => true

/-- An id needs a label to come under, and a value must be a vertex. -/
def Refused (label? : Option Label) : Call → Prop
  | startLabel _ | pushVertex _ => False
  | pushVid _ => label? = none
  | pushValue v => v.vertex? = none

end Call

/-- The label that calls set last. -/
def labelAfter? (calls : List Call) : Option Label := (calls.filterMap Call.label?).getLast?

/-- The rows that calls push, each under the label that was set last before it. -/
def pushedRows (calls : List Call) : List Vertex :=
  calls.zipIdx.filterMap fun (call, k) => call.vertex? (labelAfter? (calls.take k))

theorem labelAfter?_concat (calls : List Call) (call : Call) :
    labelAfter? (calls ++ [call]) = call.label?.or (labelAfter? calls) := by
  rw [labelAfter?, List.filterMap_append]
  cases h : call.label? <;> simp [labelAfter?, h]

theorem labelAfter?_eq_none_iff : labelAfter? calls = none ↔ ∀ call ∈ calls, call.label? = none := by
  simp [labelAfter?]

theorem pushedRows_concat (calls : List Call) (call : Call) :
    pushedRows (calls ++ [call]) = pushedRows calls ++ (call.vertex? (labelAfter? calls)).toList := by
  have hbefore : ∀ entry ∈ calls.zipIdx,
      entry.1.vertex? (labelAfter? ((calls ++ [call]).take entry.2))
        = entry.1.vertex? (labelAfter? (calls.take entry.2)) := by
    intro entry hentry
    have hlt := (List.getElem?_eq_some_iff.1 (List.mem_zipIdx_iff_getElem?.1 hentry)).1
    rw [List.take_append_of_le_length (Nat.le_of_lt hlt)]
  rw [pushedRows, List.zipIdx_append, List.filterMap_append, List.filterMap_congr hbefore]
  congr 1
  cases h : call.vertex? (labelAfter? calls) <;> simp [h]

/-! ## One call -/

/-- What a call makes of a builder. -/
structure Applied (b : SegmentBuilder) (call : Call) (b' : SegmentBuilder) : Prop where
  started : b'.Started
  label?_eq : b'.label? = call.label?.or b.label?
  vertices_eq : b'.vertices = b.vertices ++ (call.vertex? b.label?).toList
  isSome_vertex? : (call.vertex? b.label?).isSome = call.isPush

theorem applied_push (hs : b.Started) (v : Vertex) : Applied b (.pushVertex v) (b.push v) where
  started := started_push b v
  label?_eq := label?_startLabel b v.label
  vertices_eq := by
    have hpush := (pushed_push hs v).vertices_eq
    rwa [vertices_finish, vertices_finish] at hpush
  isSome_vertex? := rfl

theorem applied_of_apply (hs : b.Started) (h : call.apply b = .ok b') : Applied b call b' := by
  cases call with
  | startLabel label =>
    cases h
    refine ⟨started_startLabel b label, label?_startLabel b label, ?_, rfl⟩
    rw [vertices_startLabel hs]
    exact (List.append_nil _).symm
  | pushVertex v =>
    cases h
    exact applied_push hs v
  | pushVid vid =>
    obtain ⟨label, hlabel, rfl⟩ := pushVid_eq_ok_iff.1 h
    refine ⟨started_of_label? hlabel, rfl, ?_, ?_⟩
    · rw [vertices_concat hlabel, hlabel]
      rfl
    · rw [hlabel]
      rfl
  | pushValue v =>
    cases v with
    | vertex x =>
      cases h
      obtain ⟨hstarted, hlabel, hvertices, -⟩ := applied_push hs x
      exact ⟨hstarted, hlabel, hvertices, rfl⟩
    | _ => cases h

theorem exists_apply_iff : (∃ b', call.apply b = .ok b') ↔ ¬ call.Refused b.label? := by
  cases call with
  | startLabel label | pushVertex v => simp [Call.apply, Call.Refused]
  | pushVid vid => cases h : b.label? <;> simp [Call.apply, Call.Refused, pushVid, h]
  | pushValue v => cases h : v.vertex? <;> simp [Call.apply, Call.Refused, h]

/-! ## All calls -/

/-- What calls make of a new builder. -/
structure Built (calls : List Call) (b : SegmentBuilder) : Prop where
  started : b.Started
  label?_eq : b.label? = labelAfter? calls
  vertices_eq : b.vertices = pushedRows calls
  length_eq : (pushedRows calls).length = calls.countP Call.isPush

theorem built_empty : Built [] empty := ⟨started_empty, rfl, rfl, rfl⟩

theorem Built.concat (hb : Built calls b) (h : call.apply b = .ok b') :
    Built (calls ++ [call]) b' := by
  obtain ⟨hstarted, hlabel, hvertices, hsome⟩ := applied_of_apply hb.started h
  rw [hb.label?_eq] at hlabel hvertices hsome
  refine ⟨hstarted, by rw [hlabel, labelAfter?_concat], ?_, ?_⟩
  · rw [hvertices, hb.vertices_eq, pushedRows_concat]
  · rw [pushedRows_concat, List.length_append, hb.length_eq, List.countP_append,
      List.countP_singleton, ← hsome]
    cases call.vertex? (labelAfter? calls) <;> rfl

theorem built_of_runCalls (h : empty.runCalls calls = .ok b) : Built calls b :=
  foldlM_induction built_empty (fun _ _ _ _ hmid hcall => hmid.concat hcall) h

theorem exists_runCalls_iff : (∃ b, empty.runCalls calls = .ok b) ↔
    ∀ before call after, calls = before ++ call :: after → ¬ call.Refused (labelAfter? before) := by
  refine exists_foldlM_iff fun before mid call hmid => ?_
  rw [exists_apply_iff, (built_of_runCalls hmid).label?_eq]

/-- Calls to a new builder of runs fault exactly if an id comes before any label was set, or a value
that is no vertex comes. Otherwise the column has a row for each push, the pushed vertex under the
label that was set last, and shows these rows whichever way it is read. -/
theorem shows_pushedRows (calls : List Call) :
    ((∃ fault, empty.runCalls calls = .error fault) ↔
      (∃ before vid after, calls = before ++ .pushVid vid :: after ∧
        ∀ call ∈ before, call.label? = none) ∨ ∃ v, .pushValue v ∈ calls ∧ v.vertex? = none) ∧
    ∀ b, empty.runCalls calls = .ok b →
      b.finish.Shows (pushedRows calls) ∧ b.finish.size = calls.countP Call.isPush := by
  constructor
  · rw [exists_error_iff, exists_runCalls_iff]
    constructor
    · intro h
      simp only [not_forall, not_not] at h
      obtain ⟨before, call, after, hcalls, hrefused⟩ := h
      cases call with
      | startLabel label | pushVertex v => exact hrefused.elim
      | pushVid vid =>
        exact .inl ⟨before, vid, after, hcalls, labelAfter?_eq_none_iff.1 hrefused⟩
      | pushValue v => exact .inr ⟨v, by simp [hcalls], hrefused⟩
    · rintro (⟨before, vid, after, hcalls, hlabel⟩ | ⟨v, hmem, hv⟩) haccepted
      · exact haccepted before _ after hcalls (labelAfter?_eq_none_iff.2 hlabel)
      · obtain ⟨before, after, hcalls⟩ := List.append_of_mem hmem
        exact haccepted before _ after hcalls hv
  · intro b h
    have hb := built_of_runCalls h
    have hshows := b.finish.shows_vertices
    rw [show b.finish.vertices = b.vertices from vertices_finish b, hb.vertices_eq] at hshows
    exact ⟨hshows, hshows.size_eq.trans hb.length_eq⟩

/-- Three runs, two of them of one label. -/
theorem shows_pushedRows_threeRuns :
    ∃ b, empty.runCalls [.startLabel 4, .pushVid 1, .startLabel 5, .startLabel 4, .pushVid 2,
        .pushVertex ⟨2, 20⟩, .pushVid 21] = .ok b ∧
      b.finish.segments.length = 3 ∧ b.finish.Shows [⟨4, 1⟩, ⟨4, 2⟩, ⟨2, 20⟩, ⟨2, 21⟩] := by
  obtain ⟨b, h, hruns⟩ : ∃ b, empty.runCalls [.startLabel 4, .pushVid 1, .startLabel 5,
      .startLabel 4, .pushVid 2, .pushVertex ⟨2, 20⟩, .pushVid 21] = .ok b ∧
    b.finish.segments.length = 3 := ⟨_, rfl, rfl⟩
  exact ⟨b, h, hruns, ((shows_pushedRows _).2 b h).1⟩

end SegmentBuilder

end ColumnFlow
