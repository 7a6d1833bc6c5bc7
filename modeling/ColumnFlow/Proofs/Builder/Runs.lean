import ColumnFlow.Proofs.Builder.Rows
import Mathlib.Data.List.Chain

/-!
# Which runs are stored

Vertices of one label that come one after the other are stored in one run, unless another label was
started between them: a started label closes the open run even if no vertex of it ever comes. So the
runs are maximal exactly if no start came between (`SegmentBuilder.runs_of_calls`), and always if
all vertices come as values (`SegmentBuilder.maximal_of_pushAll`).
-/

namespace ColumnFlow.SegmentBuilder

open Rows

variable {b b' : SegmentBuilder}

/-! ## What callers do -/

/-- A call to a builder of runs: a label is started, or a row comes, as a vertex, as an id under the
label last started, or as a value. -/
inductive Call where
  | startLabel (label : Label)
  | pushVertex (v : Vertex)
  | pushVid (vid : VertexId)
  | pushValue (v : Value)

/-- What a call makes of a builder. Values other than vertices are refused. -/
def Call.apply (b : SegmentBuilder) : Call → Except Fault SegmentBuilder
  | startLabel label => .ok (b.startLabel label)
  | pushVertex v => .ok (b.push v)
  | pushVid vid => b.pushVid vid
  | pushValue v =>
    match v.vertex? with
    | some x => .ok (b.push x)
    | none => .error (.recordType .vertex v.elemType)

/-- A value is pushed as builders of all kinds push it. -/
theorem pushValue_segmented (b : SegmentBuilder) (v : Value) :
    (Builder.segmented b).pushValue v = Builder.segmented <$> (Call.pushValue v).apply b := by
  cases v <;> rfl

/-- What calls make of a builder, one after the other. -/
def runCalls (b : SegmentBuilder) (calls : List Call) : Except Fault SegmentBuilder :=
  calls.foldlM Call.apply b

/-- A vertex, and the labels that were started after the vertex before it. -/
structure Arrival where
  started : List Label
  vertex : Vertex

/-- The vertices that came, and the labels started after the last of them. -/
structure History where
  arrivals : List Arrival
  started : List Label

namespace History

/-- Nothing came yet. -/
def empty : History := ⟨[], []⟩

/-- The label under which an id comes: the one last started, or else that of the last vertex. -/
def label? (h : History) : Option Label :=
  h.started.getLast?.or (h.arrivals.getLast?.map fun p => p.vertex.label)

/-- A label is started. -/
def start (h : History) (label : Label) : History := { h with started := h.started ++ [label] }

/-- A vertex comes by its id. -/
def arrive (h : History) (vid : VertexId) : History :=
  match h.label? with
  | some label => ⟨h.arrivals ++ [⟨h.started, ⟨label, vid⟩⟩], []⟩
  | none => h

/-- What a call adds. A vertex starts its own label. -/
def add (h : History) : Call → History
  | .startLabel label => h.start label
  | .pushVertex v | .pushValue (.vertex v) => (h.start v.label).arrive v.vid
  | .pushVid vid => h.arrive vid
  | .pushValue _ => h

/-- What came by the calls. -/
def ofCalls (calls : List Call) : History := calls.foldl add empty

/-- Between vertices of one label no other label was started. -/
def Uninterrupted (h : History) : Prop :=
  h.arrivals.IsChain fun p q => p.vertex.label = q.vertex.label → ∀ l ∈ q.started, l = q.vertex.label

end History

/-- No two runs of one label stand side by side. -/
def Maximal (segments : List Segment) : Prop := segments.IsChain fun s t => s.label ≠ t.label

/-! ## Runs and history -/

theorem segments_of_nil (h : b.vids = []) : b.finish.segments = b.closed := by
  unfold finish close
  cases b.label? <;> simp [h]

theorem segments_of_ne_nil {label : Label} (hlabel : b.label? = some label) (h : b.vids ≠ []) :
    b.finish.segments = b.closed ++ [⟨label, b.vids⟩] := by
  unfold finish close
  simp [hlabel, h]

theorem closed_subset {s : Segment} (h : s ∈ b.closed) : s ∈ b.finish.segments := by
  unfold finish close
  split
  · split
    · exact h
    · exact List.mem_append_left _ h
  · exact h

/-- An id behind those of the open run. -/
theorem segments_concat {label : Label} (hlabel : b.label? = some label) (vid : VertexId) :
    (finish { b with vids := b.vids ++ [vid] }).segments
      = b.closed ++ [⟨label, b.vids ++ [vid]⟩] :=
  segments_of_ne_nil hlabel (List.append_ne_nil_of_right_ne_nil _ (List.cons_ne_nil _ _))

/-- No run is empty when it gets an id. -/
theorem run_ne_nil_concat (hb : ∀ run ∈ b.finish.segments, run.vids ≠ []) {label : Label}
    (hlabel : b.label? = some label) (vid : VertexId) :
    ∀ run ∈ (finish { b with vids := b.vids ++ [vid] }).segments, run.vids ≠ [] := by
  intro run hrun
  rw [segments_concat hlabel, List.mem_append, List.mem_singleton] at hrun
  rcases hrun with hrun | rfl
  · exact hb run (closed_subset hrun)
  · exact List.append_ne_nil_of_right_ne_nil _ (List.cons_ne_nil _ _)

theorem maximal_concat {segments : List Segment} {s : Segment} :
    Maximal (segments ++ [s])
      ↔ Maximal segments ∧ ∀ t ∈ segments.getLast?, t.label ≠ s.label := by
  rw [Maximal, List.isChain_append]
  simp [Maximal]

theorem History.uninterrupted_concat {h : History} {q : Arrival} {started : List Label} :
    History.Uninterrupted ⟨h.arrivals ++ [q], started⟩
      ↔ h.Uninterrupted ∧ ∀ p ∈ h.arrivals.getLast?,
          p.vertex.label = q.vertex.label → ∀ l ∈ q.started, l = q.vertex.label := by
  rw [Uninterrupted, List.isChain_append]
  simp [Uninterrupted]

/-- Starting a label stores no run and drops none. -/
theorem segments_startLabel (h : b.Started) (label : Label) :
    (b.startLabel label).finish.segments = b.finish.segments := by
  unfold startLabel
  split
  · rfl
  · exact segments_of_nil (vids_close h)

theorem vids_startLabel (h : b.Started) {label : Label} (hne : b.label? ≠ some label) :
    (b.startLabel label).vids = [] := by
  rw [startLabel, if_neg hne]
  exact vids_close h

/-- The builder has stored what came, and its open run has no vertices exactly if another label was
started after the last vertex. -/
structure Records (b : SegmentBuilder) (h : History) : Prop where
  started : b.Started
  label?_eq : b.label? = h.label?
  vertices_eq : b.vertices = h.arrivals.map Arrival.vertex
  ne_nil : ∀ s ∈ b.finish.segments, s.vids ≠ []
  maximal_iff : Maximal b.finish.segments ↔ h.Uninterrupted
  last_label : b.finish.segments.getLast?.map Segment.label
    = h.arrivals.getLast?.map fun p => p.vertex.label
  open_label : b.vids ≠ [] → ∀ l ∈ h.started, b.label? = some l
  interrupted : b.vids = [] → ∀ p ∈ h.arrivals.getLast?, ∃ l ∈ h.started, l ≠ p.vertex.label

namespace Records

variable {h : History}

theorem empty : Records SegmentBuilder.empty History.empty where
  started := started_empty
  label?_eq := rfl
  vertices_eq := rfl
  ne_nil := fun _ hs => absurd hs List.not_mem_nil
  maximal_iff := iff_of_true .nil .nil
  last_label := rfl
  open_label := fun hne => absurd rfl hne
  interrupted := fun _ _ hp => by cases hp

/-- The label of the open run is that of the last vertex. -/
theorem label_of_open (hr : Records b h) {label : Label} (hlabel : b.label? = some label)
    (hvids : b.vids ≠ []) : h.arrivals.getLast?.map (fun p => p.vertex.label) = some label := by
  rw [← hr.last_label, segments_of_ne_nil hlabel hvids, List.getLast?_concat]
  rfl

theorem start (hr : Records b h) (label : Label) :
    Records (b.startLabel label) (h.start label) where
  started := started_startLabel b label
  label?_eq := by
    rw [label?_startLabel, History.label?, History.start, List.getLast?_concat]
    rfl
  vertices_eq := by rw [vertices_startLabel hr.started, hr.vertices_eq]; rfl
  ne_nil := by rw [segments_startLabel hr.started]; exact hr.ne_nil
  maximal_iff := by rw [segments_startLabel hr.started]; exact hr.maximal_iff
  last_label := by rw [segments_startLabel hr.started]; exact hr.last_label
  open_label := fun hvids l hl => by
    by_cases hsame : b.label? = some label
    · rw [startLabel, if_pos hsame] at hvids ⊢
      rcases List.mem_append.1 hl with hl | hl
      · exact hr.open_label hvids l hl
      · rw [List.mem_singleton.1 hl, hsame]
    · exact absurd (vids_startLabel hr.started hsame) hvids
  interrupted := fun hvids p hp => by
    have hmem : label ∈ (h.start label).started := List.mem_append_right _ List.mem_cons_self
    by_cases hold : b.vids = []
    · obtain ⟨l, hl, hne⟩ := hr.interrupted hold p hp
      exact ⟨l, List.mem_append_left _ hl, hne⟩
    · -- the run that was open is closed now, so it was of another label
      have hother : b.label? ≠ some label := by
        intro hsame
        rw [startLabel, if_pos hsame] at hvids
        exact hold hvids
      refine ⟨label, hmem, fun heq => hother ?_⟩
      cases hlabel : b.label? with
      | none => exact absurd (hr.started hlabel) hold
      | some current =>
        have hlast := hr.label_of_open hlabel hold
        rw [show h.arrivals.getLast? = some p from hp] at hlast
        rw [heq, ← Option.some.inj hlast]

/-- A vertex behind the open run meets no label that was started in between. Where no run is open,
another label was started, and so a run of the label before must not follow. -/
theorem maximal_concat_iff (hr : Records b h) {label : Label} (hlabel : b.label? = some label) :
    (Maximal b.closed ∧ ∀ t ∈ b.closed.getLast?, t.label ≠ label)
      ↔ h.Uninterrupted ∧ ∀ p ∈ h.arrivals.getLast?,
          p.vertex.label = label → ∀ l ∈ h.started, l = label := by
  by_cases hvids : b.vids = []
  · have hlast := hr.last_label
    rw [← hr.maximal_iff, segments_of_nil hvids]
    rw [segments_of_nil hvids] at hlast
    refine and_congr_right fun _ => ?_
    cases hp : h.arrivals.getLast? with
    | none =>
      rw [hp] at hlast
      rw [Option.map_eq_none_iff.1 hlast]
      exact iff_of_true (fun _ ht => by cases ht) fun _ hp => by cases hp
    | some p =>
      rw [hp] at hlast
      obtain ⟨t, ht, htlabel⟩ := Option.map_eq_some_iff.1 hlast
      obtain ⟨l, hl, hne⟩ := hr.interrupted hvids p hp
      rw [ht]
      constructor
      · rintro hsegment _ ⟨⟩ heq
        exact absurd (htlabel.trans heq) (hsegment t rfl)
      · rintro harrival _ ⟨⟩ heq
        have hlabels : p.vertex.label = label := htlabel.symm.trans heq
        exact hne ((harrival p rfl hlabels l hl).trans hlabels.symm)
  · have hopen := hr.maximal_iff
    rw [segments_of_ne_nil hlabel hvids, maximal_concat] at hopen
    rw [hopen]
    refine (and_iff_left fun p _ _ l hl => ?_).symm
    exact Option.some.inj ((hr.open_label hvids l hl).symm.trans hlabel)

/-- A vertex goes to the open run, or starts a run behind the others. -/
theorem arrive (hr : Records b h) {label : Label} (hlabel : b.label? = some label)
    (vid : VertexId) : Records { b with vids := b.vids ++ [vid] } (h.arrive vid) := by
  have hhistory : h.arrive vid = ⟨h.arrivals ++ [⟨h.started, ⟨label, vid⟩⟩], []⟩ := by
    rw [History.arrive, ← hr.label?_eq, hlabel]
  rw [hhistory]
  refine ⟨started_of_label? hlabel, ?_, ?_, run_ne_nil_concat hr.ne_nil hlabel vid, ?_, ?_,
    fun _ l hl => ?_, fun hnil => ?_⟩
  · rw [hlabel, History.label?, List.getLast?_concat]
    rfl
  · rw [vertices_concat hlabel, hr.vertices_eq, List.map_append]
    rfl
  · rw [segments_concat hlabel, maximal_concat, History.uninterrupted_concat]
    exact hr.maximal_concat_iff hlabel
  · rw [segments_concat hlabel, List.getLast?_concat, List.getLast?_concat]
    rfl
  · exact absurd hl List.not_mem_nil
  · exact absurd hnil (List.append_ne_nil_of_right_ne_nil _ (List.cons_ne_nil _ _))

theorem push (hr : Records b h) (v : Vertex) :
    Records (b.push v) ((h.start v.label).arrive v.vid) :=
  (hr.start v.label).arrive (label?_startLabel b v.label) v.vid

/-- What a call makes of a builder is recorded. -/
theorem apply {call : Call} (hr : Records b h) (hb : call.apply b = .ok b') :
    Records b' (h.add call) := by
  cases call with
  | startLabel label =>
    cases hb
    exact hr.start label
  | pushVertex v =>
    cases hb
    exact hr.push v
  | pushVid vid =>
    obtain ⟨label, hlabel, rfl⟩ := pushVid_eq_ok_iff.1 hb
    exact hr.arrive hlabel vid
  | pushValue v =>
    cases v with
    | vertex x =>
      cases hb
      exact hr.push x
    | _ => cases hb

theorem runCalls {calls : List Call} (hr : Records b h) (hb : b.runCalls calls = .ok b') :
    Records b' (calls.foldl History.add h) := by
  induction calls generalizing b h with
  | nil =>
    cases hb
    exact hr
  | cons call calls ih =>
    obtain ⟨b₁, hcall, hcalls⟩ := foldlM_cons_eq_ok_iff.1 hb
    exact ih (hr.apply hcall) hcalls

end Records

/-! ## Values only -/

/-- A builder of runs takes a value as its calls do. What is null or no vertex is refused. -/
theorem push_segmented_eq_ok_iff {v : Value} {out : Builder} :
    (Builder.segmented b).push v = .ok out
      ↔ ∃ b', (Call.pushValue v).apply b = .ok b' ∧ out = .segmented b' := by
  by_cases hnull : v.isNull = true
  · obtain rfl := Value.isNull_iff.1 hnull
    refine iff_of_false nofun ?_
    rintro ⟨b', hb', -⟩
    cases hb'
  · rw [Builder.push, if_neg hnull, pushValue_segmented, map_eq_ok_iff]
    simp only [eq_comm]

theorem pushAll_segmented_eq_ok_iff {values : List Value} {out : Builder} :
    (Builder.segmented b).pushAll values = .ok out
      ↔ ∃ b', b.runCalls (values.map .pushValue) = .ok b' ∧ out = .segmented b' := by
  induction values generalizing b with
  | nil =>
    constructor
    · rintro ⟨⟩
      exact ⟨b, rfl, rfl⟩
    · rintro ⟨b', ⟨⟩, rfl⟩
      rfl
  | cons v values ih =>
    rw [Builder.pushAll_cons_eq_ok_iff]
    constructor
    · rintro ⟨mid, hmid, hrest⟩
      obtain ⟨b₁, hfirst, rfl⟩ := push_segmented_eq_ok_iff.1 hmid
      obtain ⟨b', hb', rfl⟩ := ih.1 hrest
      exact ⟨b', foldlM_cons_eq_ok_iff.2 ⟨b₁, hfirst, hb'⟩, rfl⟩
    · rintro ⟨b', hb', rfl⟩
      obtain ⟨b₁, hfirst, hrest⟩ := foldlM_cons_eq_ok_iff.1 hb'
      exact ⟨_, push_segmented_eq_ok_iff.2 ⟨b₁, hfirst, rfl⟩, ih.2 ⟨b', hrest, rfl⟩⟩

/-- A value starts no label but that of its vertex. -/
theorem History.add_pushValue {h : History} (hstarted : h.started = [])
    (hchain : h.Uninterrupted) (v : Value) :
    (h.add (.pushValue v)).started = [] ∧ (h.add (.pushValue v)).Uninterrupted := by
  cases v with
  | vertex x =>
    have hlabel : (h.start x.label).label? = some x.label := by
      rw [label?, start, List.getLast?_concat]
      rfl
    have hadd : h.add (.pushValue (.vertex x)) = ⟨h.arrivals ++ [⟨[x.label], x⟩], []⟩ := by
      rw [add, arrive, hlabel]
      simp [start, hstarted]
    rw [hadd, uninterrupted_concat]
    exact ⟨rfl, hchain, fun _ _ _ l hl => List.mem_singleton.1 hl⟩
  | _ => exact ⟨hstarted, hchain⟩

theorem History.uninterrupted_pushValues {h : History} (hstarted : h.started = [])
    (hchain : h.Uninterrupted) (values : List Value) :
    ((values.map Call.pushValue).foldl add h).Uninterrupted := by
  induction values generalizing h with
  | nil => exact hchain
  | cons v values ih =>
    obtain ⟨hstarted', hchain'⟩ := add_pushValue hstarted hchain v
    exact ih hstarted' hchain'

/-- No run is split when all vertices come as values. -/
theorem maximal_of_pushAll {values : List Value}
    (h : (Builder.segmented empty).pushAll values = .ok (.segmented b)) :
    Maximal b.finish.segments := by
  obtain ⟨b', hb', heq⟩ := pushAll_segmented_eq_ok_iff.1 h
  obtain rfl := Builder.segmented.inj heq
  have hnew : History.empty.Uninterrupted := .nil
  exact (Records.empty.runCalls hb').maximal_iff.2
    (History.uninterrupted_pushValues rfl hnew values)

/-! ## All calls -/

/-- What a builder of runs stores, for all calls that do not fault: the vertices that came, in order,
in runs none of which is empty. No two runs of one label stand side by side exactly if no other
label was ever started between two vertices that come one after the other under one label. -/
theorem runs_of_calls {calls : List Call} (h : empty.runCalls calls = .ok b) :
    (VertexColumn.segmented b.finish).vertices = (History.ofCalls calls).arrivals.map (·.vertex) ∧
      (∀ s ∈ b.finish.segments, s.vids ≠ []) ∧
      (Maximal b.finish.segments ↔ (History.ofCalls calls).Uninterrupted) := by
  have hr := Records.empty.runCalls h
  refine ⟨?_, hr.ne_nil, hr.maximal_iff⟩
  rw [vertices_finish]
  exact hr.vertices_eq

/-- Vertices of two labels, and a start that nothing comes between. -/
theorem runs_of_calls_uninterrupted :
    ∃ b, empty.runCalls [.pushVertex ⟨1, 10⟩, .startLabel 1, .pushVid 11, .startLabel 3,
        .pushValue (.vertex ⟨2, 20⟩)] = .ok b ∧ Maximal b.finish.segments := by
  obtain ⟨b, h⟩ : ∃ b, empty.runCalls [.pushVertex ⟨1, 10⟩, .startLabel 1, .pushVid 11,
      .startLabel 3, .pushValue (.vertex ⟨2, 20⟩)] = .ok b := ⟨_, rfl⟩
  refine ⟨b, h, (runs_of_calls h).2.2.2 ?_⟩
  simp [History.Uninterrupted, History.ofCalls, History.empty, History.add, History.start,
    History.arrive, History.label?]

/-- A label that is started and left again splits a run of one label in two. -/
theorem not_maximal_of_left_label :
    ∃ b, empty.runCalls [.startLabel 4, .pushVid 1, .startLabel 5, .startLabel 4, .pushVid 2]
        = .ok b ∧
      b.finish.segments = [⟨4, [1]⟩, ⟨4, [2]⟩] ∧ ¬ Maximal b.finish.segments := by
  refine ⟨_, rfl, rfl, fun h => ?_⟩
  exact (List.isChain_cons_cons.1 h).1 rfl

end ColumnFlow.SegmentBuilder
