import ColumnFlow.Proofs.Builder.Faithful
import ColumnFlow.Proofs.Column.Parts
import ColumnFlow.Proofs.Unfold.Faults

/-!
# Texts and the arenas that keep them

A column is covered if its arena keeps the texts of all present rows, those inside lists too. Arenas
are handed on beside the cells: a finished column gets the given arena, that of the copied texts, or
both merged, gathers keep it, appends join two, and unfolded items get the arena of their lists. No
text is lost on any of these ways (`Column.covered_of_backed`).
-/

namespace ColumnFlow

open Rows

/-- A text stands in a value: as the value itself, or in a list at any depth. -/
inductive Value.HasText (s : String) : Value → Prop where
  | string : HasText s (.string s)
  | item {itemType : ElemType} {items : List Value} {v : Value} (hv : v ∈ items)
      (h : HasText s v) : HasText s (.list itemType items)

namespace Arena

/-- The texts that are kept, none without an arena. -/
def payloads (arena : Option Arena) : List String := arena.elim [] texts

/-- The joined arena keeps what either keeps, whether they are the same, differ or are missing. -/
theorem mem_payloads_join {id : ArenaId} {a b : Option Arena} {s : String} :
    s ∈ payloads (join id a b) ↔ s ∈ payloads a ∨ s ∈ payloads b := by
  cases a with
  | none => simp [join, payloads]
  | some a =>
    cases b with
    | none => simp [join, payloads]
    | some b =>
      by_cases hab : a = b
      · simp [join, hab, payloads]
      · simp [join, hab, payloads, merge]

end Arena

/-! ## Covered columns -/

namespace Column

variable {c d e : Column} {v : Value}

/-- The arena keeps the texts of all present rows. -/
def Covered (c : Column) : Prop :=
  ∀ v, some v ∈ c.rows → ∀ s, v.HasText s → s ∈ Arena.payloads c.arena

theorem covered_iff (ha : c.Aligned) :
    c.Covered ↔ ∀ v, some v ∈ c.contents → ∀ s, v.HasText s → s ∈ Arena.payloads c.arena := by
  rw [Covered, rows_eq_contents ha]

theorem exists_get_of_mem_rows (h : some v ∈ c.rows) : ∃ i, c.get i = .ok v := by
  obtain ⟨i, -, hi⟩ := List.mem_map.1 h
  exact ⟨i, (rowAt_eq_some_iff.1 hi).2⟩

/-- There are no texts in vertices, edges and paths. -/
theorem covered_of_kind (hvalue : c.kind ≠ .value) (hoptional : c.kind ≠ .optionalValue) :
    c.Covered := by
  intro v hv s hs
  obtain ⟨i, hi⟩ := exists_get_of_mem_rows hv
  cases c with
  | vertex c | edge c | path c =>
    obtain ⟨x, -, rfl⟩ := map_eq_ok_iff.1 hi
    cases hs
  | value c => exact absurd rfl hvalue
  | optionalValue c => exact absurd rfl hoptional

/-! ## Gathering and appending -/

theorem covered_of_gather (ha : c.Aligned) (hc : c.Covered) {offsets : List Nat}
    (h : c.gather offsets = .ok d) : d.Covered := by
  have hg := gathered_of_gather ha h
  rw [covered_iff hg.aligned, (sameAbsence_of_gather h).arena_eq]
  exact fun v hv => (covered_iff ha).1 hc v (mem_of_gather hg.contents_eq hv)

/-- Rows without a source are absent, and have no texts. -/
theorem covered_of_gatherOptional (ha : c.Aligned) (hc : c.Covered) {offsets : List (Option Nat)}
    (h : c.gatherOptional offsets = .ok d) : d.Covered := by
  have hg := gatheredOptional_of_gatherOptional ha h
  have hvalues (hreal : c.Real) : d.Covered := by
    rw [covered_iff hg.aligned, (sameAbsence_of_gatherOptional h).arena_eq]
    intro v hv
    rcases mem_of_gatherOptional (hg.contents_eq hreal) hv with hnone | hmem
    · cases hnone
    · exact (covered_iff ha).1 hc v hmem
  cases c with
  | value c | optionalValue c => exact hvalues trivial
  | vertex c | edge c | path c =>
    obtain ⟨d, -, rfl⟩ := map_eq_ok_iff.1 h
    exact covered_of_kind (by simp [kind]) (by simp [kind])

theorem arena_of_append {id : ArenaId} (h : c.append id d = .ok e) :
    e.arena = Arena.join id c.arena d.arena := by
  cases appendsTo_of_append h with
  | value happend =>
    obtain ⟨storage, -, ⟨⟩⟩ := bind_eq_ok_iff.1 happend
    rfl
  | optionalValue happend =>
    obtain ⟨values, hvalues, ⟨⟩⟩ := bind_eq_ok_iff.1 happend
    obtain ⟨storage, -, ⟨⟩⟩ := bind_eq_ok_iff.1 hvalues
    rfl
  | vertex | edge | path => rfl

theorem covered_of_append {id : ArenaId} (hc : c.Aligned) (hd : d.Aligned) (hcc : c.Covered)
    (hcd : d.Covered) (h : c.append id d = .ok e) : e.Covered := by
  have hrows (hcontents : e.contents = c.contents ++ d.contents) : e.Covered := by
    rw [covered_iff (aligned_of_append hc hd h), hcontents, arena_of_append h]
    intro v hv s hs
    rw [Arena.mem_payloads_join]
    rcases List.mem_append.1 hv with hv | hv
    · exact .inl ((covered_iff hc).1 hcc v hv s hs)
    · exact .inr ((covered_iff hd).1 hcd v hv s hs)
  cases appendsTo_of_append h with
  | value happend => exact hrows (ValueColumn.contents_of_append happend)
  | optionalValue happend => exact hrows (OptionalValueColumn.contents_of_append hc happend)
  | vertex | edge | path => exact covered_of_kind (by simp [kind]) (by simp [kind])

/-- Gathers and appends read the rows of aligned columns. -/
theorem kept_covered : Kept fun c => c.Aligned ∧ c.Covered where
  gather := fun hc h =>
    ⟨(gathered_of_gather hc.1 h).aligned, covered_of_gather hc.1 hc.2 h⟩
  gatherOptional := fun hc h =>
    ⟨(gatheredOptional_of_gatherOptional hc.1 h).aligned, covered_of_gatherOptional hc.1 hc.2 h⟩
  append := fun hc hd h =>
    ⟨aligned_of_append hc.1 hd.1 h, covered_of_append hc.1 hd.1 hc.2 hd.2 h⟩

end Column

/-! ## Builders -/

namespace ValueBuilder

variable {b b' : ValueBuilder} {supplied : String → Prop} {v : Value}

/-- The builders that are reached by pushing values whose texts are supplied, absent rows, and texts
to be copied. -/
inductive Filled (supplied : String → Prop) : ValueBuilder → Prop where
  | empty {type : ElemType} {optional : Bool} {b : ValueBuilder}
      (h : ValueBuilder.empty type optional = .ok b) : Filled supplied b
  | push {b b' : ValueBuilder} {v : Value} (hb : Filled supplied b)
      (hv : ∀ s, v.HasText s → supplied s) (h : b.push v = .ok b') : Filled supplied b'
  | pushNull {b b' : ValueBuilder} (hb : Filled supplied b) (h : b.pushNull = .ok b') :
      Filled supplied b'
  | pushText {b b' : ValueBuilder} {text : String} (hb : Filled supplied b)
      (h : b.pushText text = .ok b') : Filled supplied b'

theorem texts_of_push (h : b.push v = .ok b') : b'.texts = b.texts := by
  obtain ⟨storage, -, ⟨⟩⟩ := bind_eq_ok_iff.1 h
  rfl

theorem texts_of_pushNull (h : b.pushNull = .ok b') : b'.texts = b.texts := by
  unfold pushNull at h
  split at h <;> cases h
  rfl

/-- The column of a builder keeps the texts of the given arena and the copied ones. -/
theorem payloads_arena (id : ArenaId) (b : ValueBuilder) (given : Option Arena) :
    Arena.payloads (b.arena id given) = Arena.payloads given ++ b.texts.texts := by
  unfold arena
  split
  · next hsize =>
    have hnil : b.texts.texts = [] := List.eq_nil_of_length_eq_zero hsize
    rw [hnil, List.append_nil]
  · cases given <;> rfl

/-- The texts of the rows so far are supplied or copied. -/
structure Holding (supplied : String → Prop) (b : ValueBuilder) : Prop where
  aligned : b.Aligned
  texts : ∀ v, some v ∈ b.contents → ∀ s, v.HasText s → supplied s ∨ s ∈ b.texts.texts

namespace Holding

theorem push (hb : b.Holding supplied) (hv : ∀ s, v.HasText s → supplied s ∨ s ∈ b.texts.texts)
    (h : b.push v = .ok b') : b'.Holding supplied := by
  obtain ⟨ha, hcontents⟩ := pushed_of_push hb.aligned h
  refine ⟨ha, fun w hw s hs => ?_⟩
  rw [texts_of_push h]
  rw [hcontents] at hw
  rcases List.mem_append.1 hw with hw | hw
  · exact hb.texts w hw s hs
  · obtain rfl := Option.some.inj (List.mem_singleton.1 hw)
    exact hv s hs

theorem pushNull (hb : b.Holding supplied) (h : b.pushNull = .ok b') : b'.Holding supplied := by
  obtain ⟨ha, hcontents⟩ := pushed_of_pushNull hb.aligned h
  refine ⟨ha, fun w hw s hs => ?_⟩
  rw [texts_of_pushNull h]
  rw [hcontents] at hw
  rcases List.mem_append.1 hw with hw | hw
  · exact hb.texts w hw s hs
  · cases List.mem_singleton.1 hw

/-- A text that is copied is there before the row that holds it. -/
theorem alloc (hb : b.Holding supplied) (text : String) :
    Holding supplied { b with texts := b.texts.alloc text } :=
  ⟨hb.aligned, fun w hw s hs => (hb.texts w hw s hs).imp_right (List.mem_append_left _)⟩

end Holding

theorem Filled.holding (h : b.Filled supplied) : b.Holding supplied := by
  induction h with
  | empty h =>
    obtain ⟨ha, hnil⟩ := aligned_of_empty h
    refine ⟨ha, fun v hv => ?_⟩
    rw [hnil] at hv
    cases hv
  | push _ hv h ih => exact ih.push (fun s hs => .inl (hv s hs)) h
  | pushNull _ h ih => exact ih.pushNull h
  | @pushText b b' text _ h ih =>
    refine (ih.alloc text).push (fun s hs => ?_) h
    cases hs
    exact .inr (List.mem_append_right _ List.mem_cons_self)

/-- Pushing rows one after the other. -/
theorem Filled.pushAll {values : List Value} {out : Builder} (hb : b.Filled supplied)
    (hvalues : ∀ v ∈ values, ∀ s, v.HasText s → supplied s)
    (h : (Builder.value b).pushAll values = .ok out) :
    ∃ b', out = .value b' ∧ b'.Filled supplied ∧ b'.texts = b.texts := by
  induction values generalizing b with
  | nil =>
    cases h
    exact ⟨b, rfl, hb, rfl⟩
  | cons v values ih =>
    obtain ⟨mid, hpush, h⟩ := Builder.pushAll_cons_eq_ok_iff.1 h
    have hfirst : ∃ b₁, mid = .value b₁ ∧ b₁.Filled supplied ∧ b₁.texts = b.texts := by
      unfold Builder.push at hpush
      split at hpush
      · obtain ⟨b₁, hb₁, rfl⟩ := map_eq_ok_iff.1 hpush
        exact ⟨b₁, rfl, .pushNull hb hb₁, texts_of_pushNull hb₁⟩
      · obtain ⟨b₁, hb₁, rfl⟩ := map_eq_ok_iff.1 hpush
        exact ⟨b₁, rfl, .push hb (hvalues v List.mem_cons_self) hb₁, texts_of_push hb₁⟩
    obtain ⟨b₁, rfl, hb₁, htexts₁⟩ := hfirst
    obtain ⟨b', rfl, hb', htexts⟩ :=
      ih hb₁ (fun w hw => hvalues w (List.mem_cons_of_mem v hw)) h
    exact ⟨b', rfl, hb', htexts.trans htexts₁⟩

/-- A column over an arena with the supplied texts and the copied ones. -/
theorem Holding.covered_toColumn (h : b.Holding supplied) {arena : Option Arena}
    (harena : ∀ s, supplied s ∨ s ∈ b.texts.texts → s ∈ Arena.payloads arena) :
    ((Builder.value b).toColumn arena).Aligned ∧ ((Builder.value b).toColumn arena).Covered := by
  have ha := Builder.aligned_toColumn (b := .value b) h.aligned arena
  have hkept : ((Builder.value b).toColumn arena).arena = arena :=
    Builder.toColumn_value_cases (P := (·.arena = arena)) rfl fun _ => rfl
  refine ⟨ha, (Column.covered_iff ha).2 fun v hv s hs => ?_⟩
  rw [Builder.contents_toColumn, Builder.contents_value] at hv
  rw [hkept]
  exact harena s (h.texts v hv s hs)

end ValueBuilder

/-- The values that are pushed to a new builder have texts of the arena that its column gets. -/
theorem Builder.covered_of_pushAll {b b' : Builder} {values : List Value} {arena : Option Arena}
    (hfresh : b.Fresh) (hvalues : ∀ v ∈ values, ∀ s, v.HasText s → s ∈ Arena.payloads arena)
    (hpush : b.pushAll values = .ok b') : (b'.toColumn arena).Covered := by
  have hkind : (b'.toColumn arena).kind = b.profile.kind := by
    obtain ⟨hprofile, -⟩ := types_of_pushAll hfresh.itemType_eq hpush
    rw [← hprofile]
    exact congrArg Profile.kind (b'.profile_toColumn arena)
  cases hfresh with
  | value hempty =>
    obtain ⟨b', rfl, hfilled, htexts⟩ := ValueBuilder.Filled.pushAll (.empty hempty) hvalues hpush
    obtain ⟨storage, -, ⟨⟩⟩ := bind_eq_ok_iff.1 hempty
    -- nothing was copied, so all texts are those of the values
    refine (hfilled.holding.covered_toColumn fun s hs => hs.elim id fun hcopied => ?_).2
    rw [htexts] at hcopied
    cases hcopied
  | single | segmented | mixed | edge | path =>
    exact Column.covered_of_kind (by simp [hkind, profile]) (by simp [hkind, profile])

/-! ## Unfolding -/

namespace Column

variable {c d : Column}

/-- The texts of the items are texts of the lists. -/
theorem covered_elements (hc : c.Covered) {e : Nat × Value} (he : e ∈ c.elements) {s : String}
    (hs : e.2.HasText s) : s ∈ Arena.payloads c.arena := by
  obtain ⟨v, hv, hitem⟩ := mem_elementsFrom he
  refine hc v hv s ?_
  cases v with
  | list itemType items => exact .item hitem hs
  | path p =>
    obtain ⟨x, -, hx⟩ := List.mem_map.1 hitem
    rw [← hx] at hs
    cases hs
  | _ => cases hitem

theorem covered_of_ofColumn (ha : c.Aligned) (hc : c.Covered) {limit : Option UInt64}
    {u : Unfolded} (h : Unfolded.ofColumn limit c = .ok u) : u.column.Covered := by
  rcases Unfolded.ofColumn_shape limit c with
    ⟨paths, rfl⟩ | ⟨itemType, cells, hlists⟩ | ⟨-, -, hrefused⟩
  · obtain ⟨-, visited, -, -, rfl⟩ := Unfolded.exists_of_ofPaths h
    have hkind : (Unfolded.ofVertices visited).column.kind = .vertex := rfl
    exact covered_of_kind (by simp [hkind]) (by simp [hkind])
  · rw [Unfolded.ofColumn_of_hasLists hlists] at h
    obtain ⟨lists, hpresent, h⟩ := bind_eq_ok_iff.1 h
    obtain ⟨hitems, -⟩ := Unfolded.listItems_of_presentLists hlists.size_eq
      (fun _ _ => hlists.get_eq) (orFault_eq_ok_iff.1 hpresent)
    rcases Unfolded.ofLists_eq_ok h with ⟨-, hcolumn, -⟩ | ⟨b, b', hfresh, hpush, hcolumn, -⟩
    · exact covered_of_gather ha hc hcolumn
    · rw [hcolumn]
      refine Builder.covered_of_pushAll hfresh (fun v hv s hs => ?_) hpush
      obtain ⟨e, he, rfl⟩ := List.mem_map.1 hv
      exact covered_elements hc (hitems ▸ he) hs
  · rw [hrefused] at h
    cases h

/-! ## Whole sequences of steps -/

/-- The columns that are made from covered ones, and from builders whose texts are those of the
arena that they are finished with or were copied. -/
inductive Backed : Column → Prop where
  | start {c : Column} (ha : c.Aligned) (hc : c.Covered) : Backed c
  | finish {b : ValueBuilder} {given : Option Arena}
      (hb : b.Filled fun s => s ∈ Arena.payloads given ∨ s ∈ b.texts.texts) (id : ArenaId) :
      Backed ((Builder.value b).finish id given)
  | gather {c d : Column} {offsets : List Nat} (hc : Backed c) (h : c.gather offsets = .ok d) :
      Backed d
  | gatherOptional {c d : Column} {offsets : List (Option Nat)} (hc : Backed c)
      (h : c.gatherOptional offsets = .ok d) : Backed d
  | append {c d e : Column} {id : ArenaId} (hc : Backed c) (hd : Backed d)
      (h : c.append id d = .ok e) : Backed e
  | groupKeys {c keys : Column} {groups : List (List Nat)} (hc : Backed c)
      (h : c.group = .ok (keys, groups)) : Backed keys
  | unfold {ctx out : Context} {key tag : Nat} {settings : Settings} {c d : Column}
      (hkey : ctx.get? key = some c) (hc : Backed c) (h : ctx.unfold key tag settings = .ok out)
      (hd : out.get? tag = some d) : Backed d

theorem covered_of_unfold {ctx out : Context} {key tag : Nat} {settings : Settings}
    (hkey : ctx.get? key = some c) (hc : c.Aligned ∧ c.Covered)
    (h : ctx.unfold key tag settings = .ok out) (hd : out.get? tag = some d) :
    d.Aligned ∧ d.Covered := by
  obtain ⟨column, u, gathered, hcolumn, hu, -, hset⟩ := Context.exists_of_unfold h
  obtain rfl := Option.some.inj (hkey.symm.trans hcolumn)
  rw [Context.get?_of_set hset, if_pos rfl] at hd
  obtain rfl := Option.some.inj hd
  exact ⟨Unfolded.aligned_of_ofColumn hc.1 hu, covered_of_ofColumn hc.1 hc.2 hu⟩

/-- No sequence of steps loses a text: gathers, optional gathers, appends, the keys of groups and
the unfolded items of covered columns are covered, and so is every finished column whose texts were
copied or are in the arena that it was finished with. -/
theorem covered_of_backed (h : c.Backed) : c.Covered := by
  suffices c.Aligned ∧ c.Covered from this.2
  induction h with
  | start ha hc => exact ⟨ha, hc⟩
  | @finish b given hb id =>
    refine hb.holding.covered_toColumn fun s hs => ?_
    rw [ValueBuilder.payloads_arena, List.mem_append]
    exact hs.elim (fun hsupplied => hsupplied) .inr
  | gather _ h ih => exact kept_covered.gather ih h
  | gatherOptional _ h ih => exact kept_covered.gatherOptional ih h
  | append _ _ h ihc ihd => exact kept_covered.append ihc ihd h
  | groupKeys _ h ih => exact kept_covered.of_group ih h
  | unfold hkey _ h hd ih => exact covered_of_unfold hkey ih h hd

/-- A copied text and an absent row, before they are finished. -/
def copiedTexts : ValueBuilder :=
  ⟨.scalars .string ["ann", ""], some (Bitmap.ofList [true, false]), ⟨["ann"]⟩⟩

theorem filled_copiedTexts (supplied : String → Prop) : copiedTexts.Filled supplied := by
  have hnew : ValueBuilder.empty .string true
      = .ok (ValueBuilder.ofStorage (.scalars .string []) true) := rfl
  have htext : (ValueBuilder.ofStorage (.scalars .string []) true).pushText "ann"
      = .ok ⟨.scalars .string ["ann"], some (Bitmap.ofList [true]), ⟨["ann"]⟩⟩ := rfl
  exact .pushNull (.pushText (.empty hnew) htext) rfl

/-- A list of a text and a null, before it is finished. -/
def givenList : ValueBuilder :=
  ⟨.lists .string [⟨.string, [.string "bob", .null]⟩], none, ArenaBuilder.empty⟩

/-- The items of the list, over the arena that the list was finished with. -/
def givenItems : Column :=
  .optionalValue ⟨⟨.scalars .string ["bob", ""], some ⟨2, ["bob"]⟩⟩, Bitmap.ofList [true, false]⟩

theorem backed_givenItems : givenItems.Backed := by
  have hnew : ValueBuilder.empty .list false
      = .ok (ValueBuilder.ofStorage (.lists .null []) false) := rfl
  have hpush : (ValueBuilder.ofStorage (.lists .null []) false).push
      (.list .string [.string "bob", .null]) = .ok givenList := rfl
  have hlist : Backed ((Builder.value givenList).finish 7 (some ⟨2, ["bob"]⟩)) := by
    refine .finish (.push (.empty hnew) (fun s hs => ?_) hpush) 7
    cases hs with
    | item hv hs =>
      rcases List.mem_pair.1 hv with rfl | rfl <;> cases hs
      exact .inl List.mem_cons_self
  have hunfold : (⟨[some ((Builder.value givenList).finish 7 (some ⟨2, ["bob"]⟩))], true⟩ :
      Context).unfold 0 0 Settings.defaults = .ok ⟨[some givenItems], true⟩ := rfl
  refine .unfold ?_ hlist hunfold ?_ <;> rfl

/-- Two arenas are merged, and all texts are kept. -/
theorem covered_merged :
    ∃ e, ((Builder.value copiedTexts).finish 1 none).append 3 givenItems = .ok e ∧
      e.arena = some ⟨3, ["ann", "bob"]⟩ ∧ e.Covered := by
  obtain ⟨e, he⟩ : ∃ e, ((Builder.value copiedTexts).finish 1 none).append 3 givenItems = .ok e :=
    ⟨_, rfl⟩
  have hcopied : Backed ((Builder.value copiedTexts).finish 1 none) :=
    .finish (filled_copiedTexts _) 1
  refine ⟨e, he, ?_, covered_of_backed (.append hcopied backed_givenItems he)⟩
  cases he
  rfl

end Column

end ColumnFlow
