import ColumnFlow.Column.Vertices
import ColumnFlow.Proofs.Rows.Gather
import ColumnFlow.Proofs.Rows.Pattern

/-!
# The rows of vertex columns

All three representations store one vertex for each row. A stored vertex means itself, except that
in an optional column the reserved id means that the row is absent. `Marked` is what keeps this
reading unambiguous: the reserved id stands in absent rows only, and these all hold the same
placeholder.
-/

namespace ColumnFlow

open Rows

namespace Vertex

/-- The vertex that a number packs: the label above, the id in the low 32 bits. -/
def ofSignature (n : Nat) : Vertex :=
  ⟨UInt8.ofNat (n / vertexIdCount), UInt32.ofNat (n % vertexIdCount)⟩

theorem vid_lt_vertexIdCount (v : Vertex) : v.vid.toNat < vertexIdCount := v.vid.toNat_lt

theorem ofSignature_signature (v : Vertex) : ofSignature v.signature = v := by
  have hvid := v.vid_lt_vertexIdCount
  have hpos : 0 < vertexIdCount := by decide
  have hlabel : v.signature / vertexIdCount = v.label.toNat := by
    rw [signature, Nat.add_comm, Nat.add_mul_div_right _ _ hpos, Nat.div_eq_of_lt hvid,
      Nat.zero_add]
  have hid : v.signature % vertexIdCount = v.vid.toNat := by
    rw [signature, Nat.mul_add_mod', Nat.mod_eq_of_lt hvid]
  rw [ofSignature, hlabel, hid, UInt8.ofNat_toNat, UInt32.ofNat_toNat]

theorem signature_inj {v w : Vertex} (h : v.signature = w.signature) : v = w := by
  rw [← ofSignature_signature v, ← ofSignature_signature w, h]

theorem signature_lt (v : Vertex) : v.signature < 1099511627776 := by
  have hlabel := v.label.toNat_lt
  have hvid := v.vid_lt_vertexIdCount
  simp only [signature, vertexIdCount] at *
  omega

/-- Numbers are ordered as the vertices are: the label decides, and the id among equal labels. -/
theorem signature_lt_iff {v w : Vertex} : v.signature < w.signature ↔ compare v w = .lt := by
  have hv := v.vid_lt_vertexIdCount
  have hw := w.vid_lt_vertexIdCount
  show _ ↔ (compare v.label w.label).then (compare v.vid w.vid) = .lt
  rw [Ordering.then_eq_lt, Std.compare_eq_lt, Std.compare_eq_iff_eq, Std.compare_eq_lt,
    UInt8.lt_iff_toNat_lt, UInt32.lt_iff_toNat_lt, ← UInt8.toNat_inj]
  simp only [signature, vertexIdCount] at *
  omega

end Vertex

namespace VertexColumn

variable {c d e : VertexColumn}

/-! ## Stored vertices and what they mean -/

/-- The vertices as they are stored, one for each row. -/
def vertices : VertexColumn → List Vertex
  | single s => s.vids.map (Vertex.mk s.label)
  | segmented s => s.vertices
  | mixed m => m.vertices

/-- What is stored in absent rows. -/
def placeholder : VertexColumn → Vertex
  | single s => Vertex.none s.label
  | segmented _ | mixed _ => Vertex.absent

/-- What a stored vertex means. -/
def meaning (optional : Bool) (v : Vertex) : Option Vertex :=
  if optional && v.isNone then none else some v

/-- What the rows hold, nothing where they are absent. -/
def contents (c : VertexColumn) : List (Option Vertex) := c.vertices.map (meaning c.optional)

/-- The reserved id stands in absent rows only, and these hold the placeholder. -/
def Marked (c : VertexColumn) : Prop :=
  ∀ v ∈ c.vertices, v.isNone = true → c.optional = true ∧ v = c.placeholder

theorem isNone_placeholder (c : VertexColumn) : c.placeholder.isNone = true := by
  cases c <;> exact Vertex.isNone_none _

theorem isSome_meaning (optional : Bool) (v : Vertex) :
    (meaning optional v).isSome = !(optional && v.isNone) := by
  unfold meaning
  cases optional && v.isNone <;> rfl

theorem meaning_of_not_isNone {optional : Bool} {v : Vertex} (h : v.isNone = false) :
    meaning optional v = some v := by
  rw [meaning, h, Bool.and_false]
  rfl

theorem meaning_eq_some_iff {optional : Bool} {v w : Vertex} :
    meaning optional w = some v ↔ w = v ∧ (optional && w.isNone) = false := by
  unfold meaning
  cases optional && w.isNone <;> simp

/-- A present row stores its vertex, which is not the reserved one if the column is optional. -/
theorem some_mem_contents_iff {v : Vertex} :
    some v ∈ c.contents ↔ v ∈ c.vertices ∧ (c.optional && v.isNone) = false := by
  rw [contents, List.mem_map]
  constructor
  · intro h
    obtain ⟨w, hw, heq⟩ := h
    obtain ⟨rfl, hpresent⟩ := meaning_eq_some_iff.1 heq
    exact ⟨hw, hpresent⟩
  · intro h
    obtain ⟨hv, hpresent⟩ := h
    exact ⟨v, hv, meaning_eq_some_iff.2 ⟨rfl, hpresent⟩⟩

/-- No present row is the reserved vertex. -/
def Real (c : VertexColumn) : Prop := ∀ v, some v ∈ c.contents → v.isNone = false

/-- Then a vertex means the same whether or not the column is optional. -/
theorem Real.contents_eq (h : c.Real) : c.contents = c.vertices.map (meaning true) := by
  apply List.map_congr_left
  intro v hv
  cases hnone : v.isNone with
  | false => rw [meaning_of_not_isNone hnone, meaning_of_not_isNone hnone]
  | true =>
    cases hopt : c.optional with
    | true => rfl
    | false =>
      have hrow : some v ∈ c.contents := some_mem_contents_iff.2 ⟨hv, by simp [hopt]⟩
      rw [h v hrow] at hnone
      cases hnone

theorem Marked.real (h : c.Marked) : c.Real := by
  intro v hv
  obtain ⟨hmem, hpresent⟩ := some_mem_contents_iff.1 hv
  cases hnone : v.isNone with
  | false => rfl
  | true =>
    rw [(h v hmem hnone).1, hnone] at hpresent
    cases hpresent

/-! ## Reading rows -/

theorem length_flatMap_vertices (segments : List Segment) :
    (segments.flatMap Segment.vertices).length
      = segments.foldr (fun s n => s.vids.length + n) 0 := by
  induction segments with
  | nil => rfl
  | cons s segments ih =>
    rw [List.flatMap_cons, List.length_append, ih, Segment.vertices, List.length_map]
    rfl

@[simp] theorem length_vertices (c : VertexColumn) : c.vertices.length = c.size := by
  cases c with
  | single s => exact List.length_map _
  | segmented s => exact length_flatMap_vertices s.segments
  | mixed m => rfl

@[simp] theorem length_contents (c : VertexColumn) : c.contents.length = c.size := by
  rw [contents, List.length_map, length_vertices]

/-- The walk over the runs that subtracts their lengths finds the vertex of the row. -/
theorem vertexAt?_eq (segments : List Segment) (i : Nat) :
    SegmentedVertices.vertexAt? segments i = (segments.flatMap Segment.vertices)[i]? := by
  induction segments generalizing i with
  | nil => rfl
  | cons s segments ih =>
    rw [SegmentedVertices.vertexAt?, List.flatMap_cons]
    -- the row is behind this run, or in it
    rcases hs : s.vids[i]? with _ | vid
    · have hle : s.vids.length ≤ i := List.getElem?_eq_none_iff.1 hs
      have hlen : s.vertices.length = s.vids.length := List.length_map _
      rw [List.getElem?_append_right (by omega), hlen]
      exact ih (i - s.vids.length)
    · have hlt := (List.getElem?_eq_some_iff.1 hs).1
      rw [List.getElem?_append_left (by rwa [Segment.vertices, List.length_map]), Segment.vertices,
        List.getElem?_map, hs]
      rfl

theorem get_eq_ok_iff {i : Nat} {v : Vertex} : c.get i = .ok v ↔ c.vertices[i]? = some v := by
  cases c with
  | single s =>
    rw [get, map_eq_ok_iff, vertices, List.getElem?_map, Option.map_eq_some_iff]
    exact exists_congr fun vid => and_congr_left fun _ => fetch_eq_ok_iff
  | segmented s =>
    rw [get, SegmentedVertices.get, vertexAt?_eq]
    show _ ↔ s.vertices[i]? = some v
    unfold SegmentedVertices.vertices
    rcases (s.segments.flatMap Segment.vertices)[i]? with _ | w <;> simp
  | mixed m => exact fetch_eq_ok_iff

theorem hasValue_of_getElem? {i : Nat} {v : Vertex} (h : c.vertices[i]? = some v) :
    c.hasValue i = .ok (meaning c.optional v).isSome := by
  rw [isSome_meaning]
  cases c with
  | single s =>
    rw [vertices, List.getElem?_map, Option.map_eq_some_iff] at h
    obtain ⟨vid, hvid, rfl⟩ := h
    rw [hasValue, fetch_eq_ok_iff.2 hvid]
    show Except.ok (vid != noVertexId || !s.optional) = _
    rw [optional, Vertex.isNone, Bool.not_and, Bool.or_comm]
    rfl
  | segmented s =>
    have hlt := (List.getElem?_eq_some_iff.1 h).1
    rw [length_vertices] at hlt
    exact if_pos hlt
  | mixed m =>
    have hv : m.vertices[i]? = some v := h
    rw [hasValue, fetch_eq_ok_iff.2 hv]
    show Except.ok (!v.isNone || !m.optional) = _
    rw [optional, Bool.not_and, Bool.or_comm]

/-! ## Gathering -/

/-- A gather keeps what a column says about its stored vertices. -/
structure Gathered (c : VertexColumn) (offsets : List Nat) (d : VertexColumn) : Prop where
  vertices_eq : Rows.gather c.vertices offsets = .ok d.vertices
  optional_eq : d.optional = c.optional
  placeholder_eq : d.placeholder = c.placeholder

theorem gathered_of_gather {offsets : List Nat} (h : c.gather offsets = .ok d) :
    Gathered c offsets d := by
  cases c with
  | single s =>
    obtain ⟨vids, hvids, ⟨⟩⟩ := bind_eq_ok_iff.1 h
    exact ⟨gather_map _ hvids, rfl, rfl⟩
  | segmented s =>
    obtain ⟨vs, hvs, ⟨⟩⟩ := bind_eq_ok_iff.1 h
    exact ⟨hvs, rfl, rfl⟩
  | mixed m =>
    obtain ⟨vs, hvs, ⟨⟩⟩ := bind_eq_ok_iff.1 h
    exact ⟨hvs, rfl, rfl⟩

theorem exists_gather {offsets : List Nat} (h : InRange c.size offsets) :
    ∃ d, c.gather offsets = .ok d := by
  rw [← length_vertices] at h
  cases c with
  | single s =>
    rw [vertices, List.length_map] at h
    obtain ⟨vids, hvids⟩ := exists_gather_iff.2 h
    exact ⟨_, bind_eq_ok_iff.2 ⟨vids, hvids, rfl⟩⟩
  | segmented s =>
    obtain ⟨vs, hvs⟩ := exists_gather_iff.2 h
    exact ⟨_, bind_eq_ok_iff.2 ⟨vs, hvs, rfl⟩⟩
  | mixed m =>
    obtain ⟨vs, hvs⟩ := exists_gather_iff.2 h
    exact ⟨_, bind_eq_ok_iff.2 ⟨vs, hvs, rfl⟩⟩

theorem Gathered.marked {offsets : List Nat} (hd : Gathered c offsets d) (hc : c.Marked) :
    d.Marked := by
  intro v hv hnone
  rw [hd.optional_eq, hd.placeholder_eq]
  exact hc v (mem_of_gather hd.vertices_eq hv) hnone

theorem Gathered.contents_eq {offsets : List Nat} (hd : Gathered c offsets d) :
    Rows.gather c.contents offsets = .ok d.contents := by
  rw [contents, contents, hd.optional_eq]
  exact gather_map _ hd.vertices_eq

theorem Gathered.real {offsets : List Nat} (hd : Gathered c offsets d) (hc : c.Real) : d.Real :=
  fun v hv => hc v (mem_of_gather hd.contents_eq hv)

/-- Columns of runs can't be gathered with rows that have no source. -/
def isSegmented : VertexColumn → Bool
  | segmented _ => true
  | _ => false

/-- An optional gather makes absent rows of the placeholder. -/
structure GatheredOptional (c : VertexColumn) (offsets : List (Option Nat)) (d : VertexColumn) :
    Prop where
  vertices_eq : Rows.gatherOptional c.placeholder c.vertices offsets = .ok d.vertices
  optional_eq : d.optional = true
  placeholder_eq : d.placeholder = c.placeholder

theorem gatheredOptional_of_gatherOptional {offsets : List (Option Nat)}
    (h : c.gatherOptional offsets = .ok d) :
    c.isSegmented = false ∧ GatheredOptional c offsets d := by
  cases c with
  | single s =>
    obtain ⟨vids, hvids, ⟨⟩⟩ := bind_eq_ok_iff.1 h
    exact ⟨rfl, gatherOptional_map (Vertex.mk s.label) hvids, rfl, rfl⟩
  | segmented s => exact absurd h (by simp [gatherOptional])
  | mixed m =>
    obtain ⟨vs, hvs, ⟨⟩⟩ := bind_eq_ok_iff.1 h
    exact ⟨rfl, hvs, rfl, rfl⟩

theorem exists_gatherOptional {offsets : List (Option Nat)} (hseg : c.isSegmented = false)
    (h : SourcesInRange c.size offsets) : ∃ d, c.gatherOptional offsets = .ok d := by
  cases c with
  | single s =>
    obtain ⟨vids, hvids⟩ := exists_gatherOptional_iff.2 h
    exact ⟨_, bind_eq_ok_iff.2 ⟨vids, hvids, rfl⟩⟩
  | segmented s => exact absurd hseg (by simp [isSegmented])
  | mixed m =>
    obtain ⟨vs, hvs⟩ := exists_gatherOptional_iff.2 h
    exact ⟨_, bind_eq_ok_iff.2 ⟨vs, hvs, rfl⟩⟩

theorem GatheredOptional.marked {offsets : List (Option Nat)} (hd : GatheredOptional c offsets d)
    (hc : c.Marked) : d.Marked := by
  intro v hv hnone
  rw [hd.optional_eq, hd.placeholder_eq]
  rcases mem_of_gatherOptional hd.vertices_eq hv with hv | hv
  · exact ⟨rfl, hv⟩
  · exact ⟨rfl, (hc v hv hnone).2⟩

theorem GatheredOptional.contents_eq {offsets : List (Option Nat)}
    (hd : GatheredOptional c offsets d) (hc : c.Real) :
    Rows.gatherOptional none c.contents offsets = .ok d.contents := by
  have hnone : meaning true c.placeholder = none := by
    rw [meaning, isNone_placeholder]
    rfl
  rw [hc.contents_eq, contents, hd.optional_eq, ← hnone]
  exact gatherOptional_map _ hd.vertices_eq

theorem GatheredOptional.real {offsets : List (Option Nat)} (hd : GatheredOptional c offsets d)
    (hc : c.Real) : d.Real := by
  intro v hv
  rcases mem_of_gatherOptional (hd.contents_eq hc) hv with hv | hv
  · cases hv
  · exact hc v hv

/-! ## Appending -/

theorem normalized_eq (c : VertexColumn) :
    c.normalized = c.contents.map (·.getD Vertex.absent) := by
  have hmeaning : ∀ (optional : Bool) (v : Vertex),
      (meaning optional v).getD Vertex.absent
        = if optional && v.isNone then Vertex.absent else v := by
    intro optional v
    unfold meaning
    split <;> rfl
  rw [contents, List.map_map]
  cases c with
  | single s =>
    rw [vertices, List.map_map]
    exact List.map_congr_left fun vid _ => (hmeaning s.optional ⟨s.label, vid⟩).symm
  | segmented s =>
    exact (List.map_id _).symm.trans (List.map_congr_left fun v _ => (hmeaning false v).symm)
  | mixed m => exact List.map_congr_left fun v _ => (hmeaning _ _).symm

theorem optional_of_none_mem_contents (hv : none ∈ c.contents) : c.optional = true := by
  obtain ⟨w, -, hw⟩ := List.mem_map.1 hv
  cases hopt : c.optional with
  | true => rfl
  | false => rw [hopt] at hw; exact absurd hw (by simp [meaning])

/-- Rows that are written in the normal form of mixed columns are read back. -/
theorem meaning_normal {optional : Bool} {rows : List (Option Vertex)}
    (hsome : ∀ v, some v ∈ rows → v.isNone = false) (hnone : none ∈ rows → optional = true) :
    (rows.map (·.getD Vertex.absent)).map (meaning optional) = rows := by
  rw [List.map_map]
  refine (List.map_congr_left fun row hrow => ?_).trans (List.map_id rows)
  rcases row with _ | v
  · rw [hnone hrow]
    rfl
  · exact meaning_of_not_isNone (hsome v hrow)

theorem isNone_of_mem_normal {rows : List (Option Vertex)}
    (hsome : ∀ v, some v ∈ rows → v.isNone = false) {v : Vertex}
    (hv : v ∈ rows.map (·.getD Vertex.absent)) (hnone : v.isNone = true) :
    none ∈ rows ∧ v = Vertex.absent := by
  obtain ⟨row, hrow, rfl⟩ := List.mem_map.1 hv
  rcases row with _ | w
  · exact ⟨hrow, rfl⟩
  · exact absurd hnone (by rw [Option.getD_some, hsome w hrow]; simp)

/-- An append keeps the rows of both columns. -/
structure Appended (c d e : VertexColumn) : Prop where
  marked : e.Marked
  contents_eq : e.contents = c.contents ++ d.contents
  optional_eq : e.optional = (c.optional || d.optional)

theorem appended_mix (hc : c.Marked) (hd : d.Marked) : Appended c d (mixed (append.mix c d)) := by
  -- present rows are real vertices, and only optional columns have absent ones
  have hsome : ∀ v, some v ∈ c.contents ++ d.contents → v.isNone = false := by
    intro v hv
    rcases List.mem_append.1 hv with hv | hv
    · exact hc.real v hv
    · exact hd.real v hv
  have hnone : none ∈ c.contents ++ d.contents → (c.optional || d.optional) = true := by
    intro hv
    rw [Bool.or_eq_true]
    exact (List.mem_append.1 hv).imp optional_of_none_mem_contents optional_of_none_mem_contents
  have hvs : (mixed (append.mix c d)).vertices
      = (c.contents ++ d.contents).map (·.getD Vertex.absent) := by
    rw [List.map_append, ← normalized_eq, ← normalized_eq]
    rfl
  refine ⟨fun v hv hv' => ?_, ?_, rfl⟩
  · rw [hvs] at hv
    obtain ⟨hmem, hv⟩ := isNone_of_mem_normal hsome hv hv'
    exact ⟨hnone hmem, hv⟩
  · rw [contents, hvs]
    exact meaning_normal hsome hnone

theorem appended_single {label : Label} {xs ys : List VertexId} {p q : Bool}
    (hc : Marked (single ⟨label, xs, p⟩)) (hd : Marked (single ⟨label, ys, q⟩)) :
    Appended (single ⟨label, xs, p⟩) (single ⟨label, ys, q⟩)
      (single ⟨label, xs ++ ys, p || q⟩) := by
  have he : Marked (single ⟨label, xs ++ ys, p || q⟩) := by
    intro v hv hnone
    rw [vertices, List.map_append, List.mem_append] at hv
    rcases hv with hv | hv
    · obtain ⟨hp, hv⟩ := hc v hv hnone
      exact ⟨Bool.or_eq_true_iff.2 (.inl hp), hv⟩
    · obtain ⟨hq, hv⟩ := hd v hv hnone
      exact ⟨Bool.or_eq_true_iff.2 (.inr hq), hv⟩
  refine ⟨he, ?_, rfl⟩
  rw [he.real.contents_eq, hc.real.contents_eq, hd.real.contents_eq, ← List.map_append]
  congr 1
  exact List.map_append

/-- Columns of vertices can be appended unless one of them has runs. -/
theorem exists_append (hc : c.isSegmented = false) (hd : d.isSegmented = false) :
    ∃ e, c.append d = .ok e := by
  rcases c with s | s | m
  case segmented => cases hc
  case mixed => rcases d with t | t | n <;> first | exact ⟨_, rfl⟩ | cases hd
  case single =>
    rcases d with t | t | n
    case segmented => cases hd
    case mixed => exact ⟨_, rfl⟩
    by_cases hlabel : s.label = t.label
    · exact ⟨_, if_pos hlabel⟩
    · exact ⟨_, if_neg hlabel⟩

/-- Only two columns of one label stay with it: all other pairs are mixed, and runs are refused. -/
theorem append_cases (h : c.append d = .ok e) :
    e = mixed (append.mix c d) ∨ ∃ label xs ys p q, c = single ⟨label, xs, p⟩ ∧
      d = single ⟨label, ys, q⟩ ∧ e = single ⟨label, xs ++ ys, p || q⟩ := by
  rcases c with s | s | m
  case segmented => rcases d with t | t | n <;> cases h
  case mixed =>
    rcases d with t | t | n
    case segmented => cases h
    all_goals
      cases h
      exact .inl rfl
  case single =>
    rcases d with t | t | n
    case segmented => cases h
    case mixed =>
      cases h
      exact .inl rfl
    by_cases hlabel : s.label = t.label
    · obtain ⟨label, xs, p⟩ := s
      obtain ⟨_, ys, q⟩ := t
      cases hlabel
      cases (if_pos rfl).symm.trans h
      exact .inr ⟨label, xs, ys, p, q, rfl, rfl, rfl⟩
    · cases (if_neg hlabel).symm.trans h
      exact .inl rfl

theorem appended_of_append (hc : c.Marked) (hd : d.Marked) (h : c.append d = .ok e) :
    Appended c d e := by
  rcases append_cases h with rfl | ⟨label, xs, ys, p, q, rfl, rfl, rfl⟩
  · exact appended_mix hc hd
  · exact appended_single hc hd

theorem append_of_isSegmented (h : c.isSegmented = true ∨ d.isSegmented = true) :
    c.append d = .error (.segmentedAppend c.info d.info) := by
  rcases c with s | s | m <;> rcases d with t | t | n <;>
    first | rfl | exact absurd h (by simp [isSegmented])

theorem exists_append_iff :
    (∃ e, c.append d = .ok e) ↔ c.isSegmented = false ∧ d.isSegmented = false := by
  constructor
  · intro hok
    obtain ⟨e, he⟩ := hok
    by_contra hne
    rw [not_and_or, Bool.not_eq_false, Bool.not_eq_false] at hne
    rw [append_of_isSegmented hne] at he
    cases he
  · intro hruns
    obtain ⟨hc, hd⟩ := hruns
    exact exists_append hc hd

/-! ## Signatures -/

theorem signatures_eq (c : VertexColumn) : c.signatures = c.vertices.map Vertex.signature := by
  cases c with
  | single s =>
    rw [vertices, List.map_map]
    rfl
  | segmented s =>
    show s.signatures = s.vertices.map Vertex.signature
    rw [SegmentedVertices.signatures, SegmentedVertices.vertices, List.map_flatMap]
    congr 1
    funext t
    rw [Segment.vertices, List.map_map]
    rfl
  | mixed m => rfl

/-- In a marked column equal numbers mean equal rows: all absent rows store the same vertex, and no
present row stores it. -/
theorem samePattern_signatures (h : c.Marked) : SamePattern c.signatures c.contents := by
  rw [signatures_eq, h.real.contents_eq]
  -- of two rows that mean the same both are absent, and hold the placeholder, or neither is
  refine SamePattern.of_map c.vertices fun v hv w hw => ⟨fun he => ?_, fun he => ?_⟩
  · rw [Vertex.signature_inj he]
  · cases hvn : v.isNone with
    | true =>
      cases hwn : w.isNone with
      | true => rw [(h v hv hvn).2, (h w hw hwn).2]
      | false => exact absurd he (by simp [meaning, hvn, hwn])
    | false =>
      cases hwn : w.isNone with
      | true => exact absurd he (by simp [meaning, hvn, hwn])
      | false =>
        rw [meaning_of_not_isNone hvn, meaning_of_not_isNone hwn] at he
        rw [Option.some.inj he]

end VertexColumn

end ColumnFlow
