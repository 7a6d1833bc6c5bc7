import ColumnFlow.Proofs.Builder.Rows

/-!
# Builders that a caller can have

A caller starts with a new builder of some kind and pushes to it, in any order and as often as it
likes. Which values it pushes is left open: `allowed` says which. Main results, for every builder
reached this way: `Reachable.aligned`, and `Reachable.marked` if no reserved vertex is pushed.
-/

namespace ColumnFlow.Builder

open Rows

variable {b : Builder} {allowed : Value → Prop}

/-- New builders. -/
inductive Fresh : Builder → Prop where
  | single (label : Label) (optional : Bool) : Fresh (single (SingleVertices.empty label optional))
  | segmented : Fresh (segmented SegmentBuilder.empty)
  | mixed (optional : Bool) : Fresh (mixed (MixedVertices.empty optional))
  | edge (optional : Bool) : Fresh (edge (RecordColumn.empty optional))
  | value {type : ElemType} {optional : Bool} {b : ValueBuilder}
      (h : ValueBuilder.empty type optional = .ok b) : Fresh (value b)
  | path (optional : Bool) : Fresh (path (RecordColumn.empty optional))

/-- The builders that are reached from new ones by pushes of allowed values. An id is pushed as the
vertex of the label that it goes under. -/
inductive Reachable (allowed : Value → Prop) : Builder → Prop where
  | fresh {b : Builder} (h : Fresh b) : Reachable allowed b
  | pushValue {b b' : Builder} {v : Value} (hb : Reachable allowed b) (hv : allowed v)
      (h : b.pushValue v = .ok b') : Reachable allowed b'
  | pushNull {b b' : Builder} (hb : Reachable allowed b) (h : b.pushNull = .ok b') :
      Reachable allowed b'
  | pushVid {c : SingleVertices} {vid : VertexId} (hc : Reachable allowed (single c))
      (hv : allowed (.vertex ⟨c.label, vid⟩)) : Reachable allowed (single (c.pushVid vid))
  | startLabel {c : SegmentBuilder} (hc : Reachable allowed (segmented c)) (label : Label) :
      Reachable allowed (segmented (c.startLabel label))
  | pushOpenVid {c c' : SegmentBuilder} {vid : VertexId} (hc : Reachable allowed (segmented c))
      (hv : ∀ label, c.label? = some label → allowed (.vertex ⟨label, vid⟩))
      (h : c.pushVid vid = .ok c') : Reachable allowed (segmented c')
  | pushText {c c' : ValueBuilder} {text : String} (hc : Reachable allowed (value c))
      (hv : allowed (.string text)) (h : c.pushText text = .ok c') : Reachable allowed (value c')

/-! ## New builders -/

theorem fresh_ofStorage {type : ElemType} {storage : Storage} (h : Storage.empty type = .ok storage)
    (optional : Bool) : Fresh (value (ValueBuilder.ofStorage storage optional)) :=
  Fresh.value (bind_eq_ok_iff.2 ⟨storage, h, rfl⟩)

theorem fresh_of_ofType {type : ElemType} {optional : Bool} (h : ofType type optional = .ok b) :
    Fresh b := by
  have hscalar : ∀ t : ScalarType, Storage.empty t.elemType = .ok (.scalars t []) := by
    intro t
    rw [Storage.empty, ElemType.scalar?_eq_some_iff.2 rfl]
  cases type <;> cases h
  case vertex => exact .mixed optional
  case edge => exact .edge optional
  case path => exact .path optional
  case list => exact fresh_ofStorage (show Storage.empty .list = _ from rfl) optional
  all_goals exact fresh_ofStorage (hscalar _) optional

theorem Fresh.aligned (h : Fresh b) : b.Aligned := by
  cases h with
  | single label optional | mixed optional => trivial
  | segmented => exact SegmentBuilder.started_empty
  | edge optional | path optional => exact RecordColumn.aligned_empty optional
  | value h => exact (ValueBuilder.aligned_of_empty h).1

theorem Fresh.contents_eq (h : Fresh b) : b.contents = [] := by
  cases h with
  | single label optional | mixed optional | segmented => rfl
  | edge optional | path optional => cases optional <;> rfl
  | value h => rw [contents_value, (ValueBuilder.aligned_of_empty h).2]

theorem Fresh.marked (h : Fresh b) : b.Marked := by
  cases h with
  | single label optional | mixed optional | segmented =>
    intro v hv
    cases hv
  | edge optional | path optional => trivial
  | value h => exact marked_toColumn_value _ none

/-! ## Pushes -/

theorem pushed_of_pushVid {c : SingleVertices} (vid : VertexId) :
    Pushed (single c) (some (.vertex ⟨c.label, vid⟩)) (single (c.pushVid vid)) :=
  pushed_vertex rfl rfl trivial (c.pushed_pushVid vid)

theorem pushed_of_pushText {c c' : ValueBuilder} {text : String} (hc : c.Aligned)
    (h : c.pushText text = .ok c') : Pushed (value c) (some (.string text)) (value c') := by
  have halloc : ValueBuilder.Aligned { c with texts := c.texts.alloc text } := hc
  have hpush := ValueBuilder.pushed_of_push halloc h
  exact pushed_value hpush

theorem pushed_of_pushOpenVid {c c' : SegmentBuilder} {vid : VertexId}
    (h : c.pushVid vid = .ok c') :
    ∃ label, c.label? = some label ∧
      Pushed (segmented c) (some (.vertex ⟨label, vid⟩)) (segmented c') := by
  obtain ⟨hstarted, label, hlabel, hpush⟩ := SegmentBuilder.pushed_of_pushVid h
  exact ⟨label, hlabel, pushed_vertex rfl rfl hstarted hpush⟩

theorem marked_startLabel {c : SegmentBuilder} (hc : c.Started) (h : (segmented c).Marked)
    (label : Label) : (segmented (c.startLabel label)).Marked := by
  intro v hv
  have hstored : v ∈ (VertexColumn.segmented c.finish).vertices := by
    rwa [SegmentBuilder.vertices_finish, SegmentBuilder.vertices_startLabel hc,
      ← SegmentBuilder.vertices_finish] at hv
  exact h v hstored

theorem Reachable.aligned (h : Reachable allowed b) : b.Aligned := by
  induction h with
  | fresh h => exact h.aligned
  | pushValue _ _ h ih => exact (pushed_of_pushValue ih h).aligned
  | pushNull _ h ih => exact (pushed_of_pushNull ih h).aligned
  | pushVid => trivial
  | @startLabel c _ label => exact c.started_startLabel label
  | pushOpenVid _ _ h => exact (SegmentBuilder.pushed_of_pushVid h).1
  | pushText _ _ h ih => exact (pushed_of_pushText ih h).aligned

theorem Reachable.marked (hallowed : ∀ v, allowed v → v.isReserved = false)
    (h : Reachable allowed b) : b.Marked := by
  -- a row that is allowed to be pushed is not the reserved vertex
  have hrow : ∀ {v : Value}, allowed v → ∀ w ∈ some v, w.isReserved = false := by
    intro v hv w hw
    cases hw
    exact hallowed v hv
  induction h with
  | fresh h => exact h.marked
  | pushValue hb hv h ih => exact (pushed_of_pushValue hb.aligned h).marked (hrow hv) ih
  | pushNull hb h ih => exact (pushed_of_pushNull hb.aligned h).marked (fun _ hw => by cases hw) ih
  | pushVid _ hv ih => exact (pushed_of_pushVid _).marked (hrow hv) ih
  | startLabel hc label ih => exact marked_startLabel hc.aligned ih label
  | pushOpenVid hc hv h ih =>
    obtain ⟨label, hlabel, hpush⟩ := pushed_of_pushOpenVid h
    exact hpush.marked (hrow (hv label hlabel)) ih
  | pushText hc hv h ih => exact (pushed_of_pushText hc.aligned h).marked (hrow hv) ih

/-- Values that are pushed one after the other, null as absent rows. -/
theorem Reachable.pushAll {b' : Builder} {values : List Value} (hb : Reachable allowed b)
    (hvalues : ∀ v ∈ values, allowed v) (h : b.pushAll values = .ok b') :
    Reachable allowed b' := by
  induction values generalizing b with
  | nil =>
    cases h
    exact hb
  | cons v values ih =>
    obtain ⟨mid, hpush, h⟩ := pushAll_cons_eq_ok_iff.1 h
    have hmid : Reachable allowed mid := by
      unfold push at hpush
      split at hpush
      · exact hb.pushNull hpush
      · exact hb.pushValue (hvalues v List.mem_cons_self) hpush
    exact ih hmid (fun w hw => hvalues w (List.mem_cons_of_mem v hw)) h

end ColumnFlow.Builder
