import ColumnFlow.Proofs.Context.Lengths

/-!
# Contexts as maps

A context keeps its columns in slots, some of them empty. Nothing of this can be told from outside:
it answers as a map from tags to columns (`Context.readsAsMap`), and what it answers follows from
what happened to it. Under each tag stands the column that was last put there and not erased since,
gathered as all columns were gathered since (`Context.follows_history`).
-/

namespace ColumnFlow.Context

open Rows

variable {ctx out mid : Context} {column c : Column} {tag a : Nat}

/-! ## What happens to columns -/

/-- What happens to the columns of a context. -/
inductive Event where
  | put (tag : Nat) (column : Column)
  | erase (tag : Nat)
  | gather (offsets : List Nat)
  | gatherOptional (offsets : List (Option Nat))

namespace Event

/-- The tag that an event is about, if it is not about all of them. -/
def tag? : Event → Option Nat
  | put tag _ | erase tag => some tag
  | gather _ | gatherOptional _ => none

/-- A column after an event that is not about its tag. -/
def regather (column : Column) : Event → Except Fault Column
  | put _ _ | erase _ => .ok column
  | gather offsets => column.gather offsets
  | gatherOptional offsets => column.gatherOptional offsets

/-- What stands under `tag` after an event, if `old` stood there before. -/
def follow (tag : Nat) (old : Option Column) : Event → Except Fault (Option Column)
  | put t column => .ok (if t = tag then some column else old)
  | erase t => .ok (if t = tag then none else old)
  | gather offsets => old.mapM (·.gather offsets)
  | gatherOptional offsets => old.mapM (·.gatherOptional offsets)

end Event

/-- A column after events none of which is about its tag. -/
def regatherAll (events : List Event) (column : Column) : Except Fault Column :=
  events.foldlM Event.regather column

/-- What happens when an action is carried out. Unfolding gathers all columns and puts one. -/
def Action.events (ctx : Context) : Action → List Event
  | set tag column => [.put tag column]
  | step (.remove tag) => [.erase tag]
  | step (.gather offsets) => [.gather offsets]
  | step (.gatherOptional offsets) => [.gatherOptional offsets]
  | step (.unfold key tag settings) =>
    match (ctx.get? key).map (Unfolded.ofColumn settings.unfoldLimit) with
    | some (.ok unfolded) => [.gather unfolded.offsets, .put tag unfolded.column]
    | _ => []

/-- What has happened after some actions. Nothing happens when an action is refused. -/
def history (ctx : Context) : List Action → List Event
  | [] => []
  | action :: actions =>
    match action.run ctx with
    | .ok next => action.events ctx ++ next.history actions
    | .error _ => ctx.history actions

/-! ## One tag -/

/-- The events are followed under each tag by itself. -/
def Follows (ctx : Context) (events : List Event) (out : Context) : Prop :=
  ∀ tag, events.foldlM (Event.follow tag) (ctx.get? tag) = .ok (out.get? tag)

theorem follows_nil (ctx : Context) : ctx.Follows [] ctx := fun _ => rfl

theorem Follows.append {before after : List Event} (h : ctx.Follows before mid)
    (h' : mid.Follows after out) : ctx.Follows (before ++ after) out := by
  intro tag
  rw [List.foldlM_append, h tag]
  exact h' tag

theorem follows_of_set (h : ctx.set tag column = .ok out) : ctx.Follows [.put tag column] out := by
  intro a
  rw [get?_of_set h]
  simp [Event.follow, eq_comm]

theorem follows_of_remove (ctx : Context) (tag : Nat) :
    ctx.Follows [.erase tag] (ctx.remove tag).2 := by
  intro a
  rw [get?_remove]
  simp [Event.follow, eq_comm]

theorem mapM_get?_of_mapColumns {f : Column → Except Fault Column} (h : ctx.mapColumns f = .ok out)
    (a : Nat) : (ctx.get? a).mapM f = .ok (out.get? a) := by
  rcases get?_of_mapColumns h a with ⟨hnone, hnone'⟩ | ⟨c, d, hc, hf, hd⟩
  · rw [hnone, hnone']
    rfl
  · rw [hc, hd]
    exact map_eq_ok_iff.2 ⟨d, hf, rfl⟩

/-- An event that does the same to all columns. -/
theorem follows_of_mapColumns {f : Column → Except Fault Column} {e : Event}
    (he : ∀ tag old, e.follow tag old = old.mapM f) (h : ctx.mapColumns f = .ok out) :
    ctx.Follows [e] out := by
  intro a
  rw [List.foldlM_cons, he, mapM_get?_of_mapColumns h]
  rfl

theorem follows_of_gather {offsets : List Nat} (h : ctx.gather offsets = .ok out) :
    ctx.Follows [.gather offsets] out :=
  follows_of_mapColumns (fun _ _ => rfl) h

theorem follows_of_gatherOptional {offsets : List (Option Nat)}
    (h : ctx.gatherOptional offsets = .ok out) : ctx.Follows [.gatherOptional offsets] out :=
  follows_of_mapColumns (fun _ _ => rfl) h

theorem follows_of_action {action : Action} (h : action.run ctx = .ok out) :
    ctx.Follows (action.events ctx) out := by
  cases action with
  | set tag column => exact follows_of_set (orError_eq_ok_iff.1 h)
  | step step =>
    cases step with
    | remove tag =>
      cases h
      exact follows_of_remove ctx tag
    | gather offsets => exact follows_of_gather (orFault_eq_ok_iff.1 h)
    | gatherOptional offsets => exact follows_of_gatherOptional (orFault_eq_ok_iff.1 h)
    | unfold key tag settings =>
      obtain ⟨column, u, gathered, hkey, hcolumn, hgathered, hset⟩ := exists_of_unfold h
      have hevents : (Action.step (.unfold key tag settings)).events ctx
          = [.gather u.offsets] ++ [.put tag u.column] := by
        simp only [Action.events, hkey, Option.map_some, hcolumn]
        rfl
      rw [hevents]
      exact (follows_of_gather hgathered).append (follows_of_set hset)

theorem follows_of_attemptAll {actions : List Action} (h : ctx.attemptAll actions = .ok out) :
    ctx.Follows (ctx.history actions) out := by
  induction actions generalizing ctx with
  | nil =>
    cases h
    exact follows_nil out
  | cons action actions ih =>
    obtain ⟨mid, hfirst, hrest⟩ := foldlM_cons_eq_ok_iff.1 h
    rw [history]
    rw [attempt] at hfirst
    cases hrun : action.run ctx with
    | ok next =>
      rw [hrun] at hfirst
      cases hfirst
      exact (follows_of_action hrun).append (ih hrest)
    | error failure =>
      rw [hrun] at hfirst
      cases failure with
      | error e =>
        -- refused: the context is the one from before, and nothing was recorded
        cases hfirst
        exact ih hrest
      | fault fault => cases hfirst

/-! ## The last event about a tag -/

theorem follow_of_tag?_ne {e : Event} (h : e.tag? ≠ some tag) (old : Option Column) :
    e.follow tag old = old.mapM e.regather := by
  cases e with
  | put t column | erase t =>
    have hne : t ≠ tag := fun heq => h (congrArg some heq)
    rw [Event.follow, if_neg hne]
    cases old <;> rfl
  | gather offsets | gatherOptional offsets => rfl

/-- Events about other tags only gather. -/
theorem foldlM_follow {events : List Event} (h : ∀ e ∈ events, e.tag? ≠ some tag)
    (old : Option Column) :
    events.foldlM (Event.follow tag) old = old.mapM (regatherAll events) := by
  induction events generalizing old with
  | nil => cases old <;> rfl
  | cons e events ih =>
    obtain ⟨he, hevents⟩ := List.forall_mem_cons.1 h
    rw [List.foldlM_cons, follow_of_tag?_ne he]
    cases old with
    | none => exact ih hevents none
    | some column =>
      show (some <$> e.regather column) >>= _ = some <$> (e.regather column >>= regatherAll events)
      cases hcolumn : e.regather column with
      | error fault => rfl
      | ok column' => exact ih hevents (some column')

/-- What stands under each tag, by the last event about it. -/
structure Traced (ctx : Context) (events : List Event) (out : Context) : Prop where
  get?_of_put : ∀ before tag column after, events = before ++ .put tag column :: after →
    (∀ e ∈ after, e.tag? ≠ some tag) →
      ∃ d, regatherAll after column = .ok d ∧ out.get? tag = some d
  get?_of_erase : ∀ before tag after, events = before ++ .erase tag :: after →
    (∀ e ∈ after, e.tag? ≠ some tag) → out.get? tag = none
  get?_of_some : ∀ tag column, (∀ e ∈ events, e.tag? ≠ some tag) → ctx.get? tag = some column →
    ∃ d, regatherAll events column = .ok d ∧ out.get? tag = some d
  get?_of_none : ∀ tag, (∀ e ∈ events, e.tag? ≠ some tag) → ctx.get? tag = none →
    out.get? tag = none

/-- After an event that leaves `new` under the tag, whatever was there, only gathers matter. -/
theorem Follows.mapM_of_follow {before after : List Event} {e : Event} {new : Option Column}
    (h : ctx.Follows (before ++ e :: after) out) (he : ∀ old, e.follow tag old = .ok new)
    (hafter : ∀ e ∈ after, e.tag? ≠ some tag) :
    new.mapM (regatherAll after) = .ok (out.get? tag) := by
  have htag := h tag
  rw [List.foldlM_append] at htag
  obtain ⟨old, -, hrest⟩ := bind_eq_ok_iff.1 htag
  rw [List.foldlM_cons, he old] at hrest
  rw [← foldlM_follow hafter]
  exact hrest

theorem Follows.traced {events : List Event} (h : ctx.Follows events out) :
    ctx.Traced events out where
  get?_of_put := by
    rintro before tag column after rfl hafter
    have hput : ∀ old, (Event.put tag column).follow tag old = .ok (some column) :=
      fun _ => by simp [Event.follow]
    obtain ⟨d, hd, hout⟩ := map_eq_ok_iff.1 (h.mapM_of_follow hput hafter)
    exact ⟨d, hd, hout.symm⟩
  get?_of_erase := by
    rintro before tag after rfl hafter
    have herase : ∀ old, (Event.erase tag).follow tag old = .ok none :=
      fun _ => by simp [Event.follow]
    exact (Except.ok.inj (h.mapM_of_follow herase hafter)).symm
  get?_of_some := fun tag column hevents hold => by
    have htag := h tag
    rw [foldlM_follow hevents, hold] at htag
    obtain ⟨d, hd, hout⟩ := map_eq_ok_iff.1 htag
    exact ⟨d, hd, hout.symm⟩
  get?_of_none := fun tag hevents hold => by
    have htag := h tag
    rw [foldlM_follow hevents, hold] at htag
    exact (Except.ok.inj htag).symm

/-! ## What a context answers -/

/-- The slots come by ascending tag. -/
theorem places_ascending (ctx : Context) : ctx.slots.zipIdx.Pairwise fun s t => s.2 < t.2 := by
  rw [← List.pairwise_map, List.zipIdx_map_snd]
  exact List.pairwise_lt_range' 1

theorem get?_of_mem_places {place : Option Column × Nat} (h : place ∈ ctx.slots.zipIdx) :
    ctx.get? place.2 = place.1 := by
  rw [get?, List.mem_zipIdx_iff_getElem?.1 h]
  rfl

theorem mem_places_of_get? (h : ctx.get? a = some c) : (some c, a) ∈ ctx.slots.zipIdx :=
  List.mem_zipIdx_iff_getElem?.2 (Option.join_eq_some_iff.1 h)

/-- A walk along the slots that skips some tags ends at the least tag of the others that has a
column. -/
theorem findSome?_slots_eq_some_iff (skip : Nat → Prop) [DecidablePred skip] :
    (ctx.slots.zipIdx.findSome? fun place => if skip place.2 then none else place.1) = some c ↔
      ∃ a, ¬ skip a ∧ ctx.get? a = some c ∧ ∀ b < a, ¬ skip b → ctx.get? b = none := by
  have hascending := places_ascending ctx
  rw [List.findSome?_eq_some_iff]
  constructor
  · rintro ⟨before, ⟨slot, a⟩, after, hsplit, hfound, hbefore⟩
    have hskip : ¬ skip a := fun h => by simp [h] at hfound
    obtain rfl : slot = some c := by simpa [hskip] using hfound
    have hmem : (some c, a) ∈ ctx.slots.zipIdx := by simp [hsplit]
    refine ⟨a, hskip, get?_of_mem_places hmem, fun b hb hskip' => ?_⟩
    by_contra hne
    obtain ⟨d, hd⟩ := Option.ne_none_iff_exists'.1 hne
    have hplace := mem_places_of_get? hd
    rw [hsplit] at hplace hascending
    -- the walk has not passed it, so it is further on
    rcases List.mem_append.1 hplace with hpassed | hahead
    · simpa [hskip'] using hbefore _ hpassed
    · rcases List.mem_cons.1 hahead with heq | hlater
      · cases heq
        exact Nat.lt_irrefl _ hb
      · have hlt := List.rel_of_pairwise_cons (List.pairwise_append.1 hascending).2.1 hlater
        exact Nat.lt_asymm hb hlt
  · rintro ⟨a, hskip, hc, hleast⟩
    obtain ⟨before, after, hsplit⟩ := List.append_of_mem (mem_places_of_get? hc)
    refine ⟨before, _, after, hsplit, by simp [hskip], fun place hplace => ?_⟩
    have hmem : place ∈ ctx.slots.zipIdx := by simp [hsplit, hplace]
    rw [hsplit] at hascending
    have hlt := (List.pairwise_append.1 hascending).2.2 place hplace _ List.mem_cons_self
    by_cases hskip' : skip place.2
    · simp [hskip']
    · rw [if_neg hskip', ← get?_of_mem_places hmem]
      exact hleast _ hlt hskip'

/-- The first other column is the one of the least other tag. -/
theorem firstOther?_eq_some_iff :
    ctx.firstOther? tag = some c ↔
      ∃ a, a ≠ tag ∧ ctx.get? a = some c ∧ ∀ b < a, b ≠ tag → ctx.get? b = none :=
  findSome?_slots_eq_some_iff (· = tag)

/-- Only the column of the least other tag is compared. -/
theorem exists_set_eq_error_iff :
    (∃ e, ctx.set tag column = .error e) ↔ ctx.verifyLengths = true ∧
      ∃ a c, a ≠ tag ∧ ctx.get? a = some c ∧ (∀ b < a, b ≠ tag → ctx.get? b = none) ∧
        c.size ≠ column.size := by
  have hother : (∃ e, ctx.set tag column = .error e) ↔ ctx.verifyLengths = true ∧
      ∃ c, ctx.firstOther? tag = some c ∧ c.size ≠ column.size := by
    cases hv : ctx.verifyLengths with
    | false => simp [set, hv]
    | true =>
      cases hfirst : ctx.firstOther? tag with
      | none => simp [set, hv, hfirst]
      | some other => by_cases hsize : other.size = column.size <;> simp [set, hv, hfirst, hsize]
  rw [hother]
  refine and_congr_right fun _ => ?_
  constructor
  · rintro ⟨c, hfirst, hsize⟩
    obtain ⟨a, ha, hc, hleast⟩ := firstOther?_eq_some_iff.1 hfirst
    exact ⟨a, c, ha, hc, hleast, hsize⟩
  · rintro ⟨a, c, ha, hc, hleast, hsize⟩
    exact ⟨c, firstOther?_eq_some_iff.2 ⟨a, ha, hc, hleast⟩, hsize⟩

theorem remove_fst (ctx : Context) (tag : Nat) : (ctx.remove tag).1 = ctx.get? tag := by
  unfold remove
  split
  · rfl
  · next h =>
    rw [get?, List.getElem?_eq_none (Nat.le_of_not_lt h)]
    rfl

theorem tags_ascending (ctx : Context) : ctx.tags.Pairwise (· < ·) := by
  rw [tags, List.pairwise_filterMap]
  refine (places_ascending ctx).imp fun hlt a ha b hb => ?_
  obtain ⟨-, -, rfl⟩ := Option.map_eq_some_iff.1 ha
  obtain ⟨-, -, rfl⟩ := Option.map_eq_some_iff.1 hb
  exact hlt

theorem columnCount_eq (ctx : Context) : ctx.columnCount = ctx.tags.length := by
  rw [columnCount, columns, tags, List.length_filterMap_eq_countP, List.length_filterMap_eq_countP,
    ← List.zipIdx_map_fst 0 ctx.slots, List.countP_map, List.zipIdx_map_fst]
  refine List.countP_congr fun place _ => ?_
  obtain ⟨_ | column, i⟩ := place <;> simp

/-- The first column is the one of the least tag. -/
theorem rowCount_of_least (hc : ctx.get? a = some c) (hleast : ∀ b < a, ctx.get? b = none) :
    ctx.rowCount = c.size := by
  have hfirst : ctx.columns.head? = some c := by
    rw [columns, List.head?_filterMap, ← List.zipIdx_map_fst 0 ctx.slots, List.findSome?_map]
    exact (findSome?_slots_eq_some_iff fun _ => False).2
      ⟨a, not_false, hc, fun b hb _ => hleast b hb⟩
  rw [rowCount, hfirst]
  rfl

theorem rowCount_eq_zero (h : ∀ a, ctx.get? a = none) : ctx.rowCount = 0 := by
  by_contra hne
  obtain ⟨tag, c, hc⟩ := exists_column_of_lt_rowCount (Nat.pos_of_ne_zero hne)
  rw [h tag] at hc
  cases hc

/-- A context answers as a map from tags to columns. -/
structure ReadsAsMap (ctx : Context) : Prop where
  remove_fst : ∀ tag, (ctx.remove tag).1 = ctx.get? tag
  get?_remove : ∀ tag a, (ctx.remove tag).2.get? a = if a = tag then none else ctx.get? a
  get?_set : ∀ tag column out, ctx.set tag column = .ok out →
    ∀ a, out.get? a = if a = tag then some column else ctx.get? a
  /-- A column is refused for the size of the one under the least other tag. -/
  exists_set_eq_error_iff : ∀ tag column, (∃ e, ctx.set tag column = .error e) ↔
    ctx.verifyLengths = true ∧ ∃ a c, a ≠ tag ∧ ctx.get? a = some c ∧
      (∀ b < a, b ≠ tag → ctx.get? b = none) ∧ c.size ≠ column.size
  attempt_set : ∀ tag column e, ctx.set tag column = .error e →
    ctx.attempt (.set tag column) = .ok ctx
  tags_ascending : ctx.tags.Pairwise (· < ·)
  mem_tags_iff : ∀ a, a ∈ ctx.tags ↔ ∃ c, ctx.get? a = some c
  columnCount_eq : ctx.columnCount = ctx.tags.length
  rowCount_of_least : ∀ a c, ctx.get? a = some c → (∀ b < a, ctx.get? b = none) →
    ctx.rowCount = c.size
  rowCount_eq_zero : (∀ a, ctx.get? a = none) → ctx.rowCount = 0

theorem readsAsMap (ctx : Context) : ctx.ReadsAsMap where
  remove_fst := Context.remove_fst ctx
  get?_remove := Context.get?_remove ctx
  get?_set := fun _ _ _ h => get?_of_set h
  exists_set_eq_error_iff := fun _ _ => Context.exists_set_eq_error_iff
  attempt_set := fun _ _ _ h => attempt_set_of_error h
  tags_ascending := Context.tags_ascending ctx
  mem_tags_iff := fun _ => mem_tags
  columnCount_eq := Context.columnCount_eq ctx
  rowCount_of_least := fun _ _ hc hleast => Context.rowCount_of_least hc hleast
  rowCount_eq_zero := Context.rowCount_eq_zero

/-- A context is a map from tags to columns after any actions that do not fault, refused ones among
them, whatever it held before. Under a tag stands the column that was last put there, if it was not
erased since, as all gathers since have made it. If nothing was put there or erased, it is the
column from before, gathered likewise, and under all other tags there is nothing. The column that
is removed is the one that stood there, no other column changes with it or with one that is put,
the tags are listed in ascending order, and the rows are counted in the column of the least tag. -/
theorem behaves_as_map {actions : List Action} (h : ctx.attemptAll actions = .ok out) :
    ctx.Traced (ctx.history actions) out ∧ out.ReadsAsMap :=
  ⟨(follows_of_attemptAll h).traced, readsAsMap out⟩

/-- A column replaced and another one removed, with a refused column and gathers in between. -/
theorem behaves_as_map_replaced :
    ∃ out, (empty Settings.defaults).attemptAll [.set 2 (numbers [1, 2]), .set 0 (numbers [3, 4]),
        .set 5 (numbers [9]), .step (.gather [1, 1, 0]), .set 2 (numbers [7, 8, 9]),
        .step (.remove 0), .step (.gather [2, 0])] = .ok out ∧
      out.get? 2 = some (numbers [9, 7]) ∧ out.get? 0 = none ∧ out.get? 5 = none ∧
      out.rowCount = 2 := by
  obtain ⟨out, h⟩ : ∃ out, (empty Settings.defaults).attemptAll [.set 2 (numbers [1, 2]),
      .set 0 (numbers [3, 4]), .set 5 (numbers [9]), .step (.gather [1, 1, 0]),
      .set 2 (numbers [7, 8, 9]), .step (.remove 0), .step (.gather [2, 0])] = .ok out := ⟨_, rfl⟩
  obtain ⟨htraced, hmap⟩ := behaves_as_map h
  obtain ⟨d, hd, hput⟩ := htraced.get?_of_put [.put 2 (numbers [1, 2]), .put 0 (numbers [3, 4]),
    .gather [1, 1, 0]] 2 (numbers [7, 8, 9]) [.erase 0, .gather [2, 0]] rfl (by decide)
  cases hd
  have herased : out.get? 0 = none := htraced.get?_of_erase [.put 2 (numbers [1, 2]),
    .put 0 (numbers [3, 4]), .gather [1, 1, 0], .put 2 (numbers [7, 8, 9])] 0 [.gather [2, 0]] rfl
    (by decide)
  have hnever : out.get? 5 = none := htraced.get?_of_none 5 (by decide) rfl
  refine ⟨out, h, hput, herased, hnever, ?_⟩
  refine hmap.rowCount_of_least 2 _ hput fun b hb => ?_
  obtain rfl | rfl : b = 0 ∨ b = 1 := by omega
  · exact herased
  · exact htraced.get?_of_none 1 (by decide) rfl

end ColumnFlow.Context
