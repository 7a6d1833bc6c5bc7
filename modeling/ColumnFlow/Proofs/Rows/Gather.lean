import ColumnFlow.Rows.Lemmas

/-!
# Gathers as functions of the cells

A gather succeeds exactly when its offsets are in range. It then commutes with everything that is
done cell by cell: mapping the cells, and joining them with those of another sequence that is
gathered by the same offsets.
-/

namespace ColumnFlow.Rows

variable {α β γ ι ε : Type}

/-- Every offset names one of `n` rows. -/
def InRange (n : Nat) (offsets : List Nat) : Prop := ∀ i ∈ offsets, i < n

instance (n : Nat) (offsets : List Nat) : Decidable (InRange n offsets) :=
  inferInstanceAs (Decidable (∀ i ∈ offsets, i < n))

/-- Every offset names one of `n` rows or none. -/
def SourcesInRange (n : Nat) (offsets : List (Option Nat)) : Prop := ∀ i, some i ∈ offsets → i < n

/-- An operation faults exactly when it has no result. -/
theorem exists_error_iff {x : Except ε α} : (∃ e, x = .error e) ↔ ¬ ∃ a, x = .ok a := by
  cases x <;> simp

theorem map_eq_ok_iff {x : Except ε α} {f : α → β} {b : β} :
    f <$> x = .ok b ↔ ∃ a, x = .ok a ∧ f a = b := by
  cases x <;> simp [Functor.map, Except.map]

theorem exists_map_eq_ok_iff {x : Except ε α} {f : α → β} :
    (∃ b, f <$> x = .ok b) ↔ ∃ a, x = .ok a := by
  constructor
  · intro hok
    obtain ⟨b, hb⟩ := hok
    obtain ⟨a, ha, -⟩ := map_eq_ok_iff.1 hb
    exact ⟨a, ha⟩
  · intro hok
    obtain ⟨a, ha⟩ := hok
    exact ⟨f a, map_eq_ok_iff.2 ⟨a, ha, rfl⟩⟩

/-! ## Lists of lookups -/

/-- A list of lookups succeeds when each of them does. -/
theorem exists_map_some_iff {look : ι → Option α} {xs : List ι} :
    (∃ out : List α, xs.map look = out.map some) ↔ ∀ x ∈ xs, (look x).isSome := by
  induction xs with
  | nil => exact ⟨fun _ x hx => absurd hx (List.not_mem_nil), fun _ => ⟨[], rfl⟩⟩
  | cons x xs ih =>
    rw [List.forall_mem_cons, ← ih]
    constructor
    · intro hok
      obtain ⟨out, h⟩ := hok
      cases out with
      | nil => exact absurd h (by simp)
      | cons a out =>
        obtain ⟨hx, hxs⟩ := List.cons.inj h
        exact ⟨by rw [hx]; rfl, out, hxs⟩
    · intro hall
      obtain ⟨hx, out, hxs⟩ := hall
      obtain ⟨a, ha⟩ := Option.isSome_iff_exists.1 hx
      exact ⟨a :: out, by rw [List.map_cons, List.map_cons, ha, hxs]⟩

theorem map_zipWith_some {look : ι → Option α} {look' : ι → Option β} {xs : List ι} {as : List α}
    {bs : List β} (f : α → β → γ) (ha : xs.map look = as.map some)
    (hb : xs.map look' = bs.map some) :
    (xs.map fun x => ((look x).map f).bind fun g => (look' x).map g)
      = (List.zipWith f as bs).map some := by
  -- all three lists have one length, so the cases are those of `xs`
  induction xs generalizing as bs with
  | nil =>
    cases as
    · rfl
    · exact absurd ha (by simp)
  | cons x xs ih =>
    cases as with
    | nil => exact absurd ha (by simp)
    | cons a as =>
      cases bs with
      | nil => exact absurd hb (by simp)
      | cons b bs =>
        obtain ⟨ha, has⟩ := List.cons.inj ha
        obtain ⟨hb, hbs⟩ := List.cons.inj hb
        rw [List.map_cons, ih has hbs, ha, hb]
        rfl

/-! ## Gathers with a source for every row -/

theorem exists_gather_iff {cells : List α} {offsets : List Nat} :
    (∃ out, gather cells offsets = .ok out) ↔ InRange cells.length offsets := by
  simp only [gather_eq_ok_iff]
  rw [exists_map_some_iff]
  simp [InRange]

theorem length_of_gather {cells out : List α} {offsets : List Nat}
    (h : gather cells offsets = .ok out) : out.length = offsets.length := by
  have := congrArg List.length (gather_eq_ok_iff.1 h)
  rw [List.length_map, List.length_map] at this
  exact this.symm

theorem mem_of_gather {cells out : List α} {offsets : List Nat}
    (h : gather cells offsets = .ok out) {a : α} (ha : a ∈ out) : a ∈ cells := by
  have hmem : some a ∈ offsets.map (cells[·]?) := by
    rw [gather_eq_ok_iff.1 h]
    exact List.mem_map_of_mem ha
  obtain ⟨i, -, hi⟩ := List.mem_map.1 hmem
  exact List.mem_of_getElem? hi

theorem getElem?_of_gather {cells out : List α} {offsets : List Nat} {r i : Nat}
    (h : gather cells offsets = .ok out) (hr : offsets[r]? = some i) :
    ∃ a, cells[i]? = some a ∧ out[r]? = some a := by
  have hrow := congrArg (·[r]?) (gather_eq_ok_iff.1 h)
  rw [List.getElem?_map, List.getElem?_map, hr] at hrow
  obtain ⟨a, ha, hcell⟩ := Option.map_eq_some_iff.1 hrow.symm
  exact ⟨a, hcell.symm, ha⟩

theorem gather_map {cells out : List α} {offsets : List Nat} (f : α → β)
    (h : gather cells offsets = .ok out) : gather (cells.map f) offsets = .ok (out.map f) := by
  rw [gather_eq_ok_iff] at h ⊢
  have := congrArg (List.map (Option.map f)) h
  simpa [List.map_map, Function.comp_def] using this

theorem gather_zipWith {as as' : List α} {bs bs' : List β} {offsets : List Nat} (f : α → β → γ)
    (ha : gather as offsets = .ok as') (hb : gather bs offsets = .ok bs') :
    gather (List.zipWith f as bs) offsets = .ok (List.zipWith f as' bs') := by
  rw [gather_eq_ok_iff] at ha hb ⊢
  rw [← map_zipWith_some f ha hb]
  exact List.map_congr_left fun i _ => List.getElem?_zipWith'

/-- The rows of a gather, where absence is a value of the cells. -/
theorem eq_map_of_gather {rows out : List (Option α)} {offsets : List Nat}
    (h : gather rows offsets = .ok out) : out = offsets.map fun i => rows[i]?.join := by
  have := congrArg (List.map Option.join) (gather_eq_ok_iff.1 h)
  simpa [List.map_map, Function.comp_def] using this.symm

/-- A gather of cells that are all the same. -/
theorem gather_replicate {n : Nat} {offsets : List Nat} (a : α) (h : InRange n offsets) :
    gather (List.replicate n a) offsets = .ok (List.replicate offsets.length a) := by
  rw [gather_eq_ok_iff, List.map_replicate, List.eq_replicate_iff]
  refine ⟨List.length_map _, fun x hx => ?_⟩
  obtain ⟨i, hi, rfl⟩ := List.mem_map.1 hx
  exact List.getElem?_replicate_of_lt (h i hi)

/-! ## Gathers where a row may have no source -/

/-- The cell that an offset of an optional gather names. -/
def sourceCell (placeholder : α) (cells : List α) : Option Nat → Option α
  | none => some placeholder
  | some i => cells[i]?

theorem gatherOptional_eq_ok_iff {p : α} {cells out : List α} {offsets : List (Option Nat)} :
    gatherOptional p cells offsets = .ok out ↔ offsets.map (sourceCell p cells) = out.map some := by
  unfold gatherOptional
  rw [mapM_eq_ok_iff]
  induction offsets generalizing out with
  | nil => cases out <;> simp
  | cons o offsets ih =>
    cases out with
    | nil => simp
    | cons a out => cases o <;> simp [sourceCell, fetch_eq_ok_iff, ih]

theorem exists_gatherOptional_iff {p : α} {cells : List α} {offsets : List (Option Nat)} :
    (∃ out, gatherOptional p cells offsets = .ok out) ↔ SourcesInRange cells.length offsets := by
  simp only [gatherOptional_eq_ok_iff]
  rw [exists_map_some_iff]
  constructor
  · intro h i hi
    simpa [sourceCell] using h (some i) hi
  · intro h o ho
    cases o with
    | none => rfl
    | some i => simpa [sourceCell] using h i ho

theorem length_of_gatherOptional {p : α} {cells out : List α} {offsets : List (Option Nat)}
    (h : gatherOptional p cells offsets = .ok out) : out.length = offsets.length := by
  have := congrArg List.length (gatherOptional_eq_ok_iff.1 h)
  rw [List.length_map, List.length_map] at this
  exact this.symm

theorem mem_of_gatherOptional {p : α} {cells out : List α} {offsets : List (Option Nat)}
    (h : gatherOptional p cells offsets = .ok out) {a : α} (ha : a ∈ out) : a = p ∨ a ∈ cells := by
  have hmem : some a ∈ offsets.map (sourceCell p cells) := by
    rw [gatherOptional_eq_ok_iff.1 h]
    exact List.mem_map_of_mem ha
  obtain ⟨o, -, ho⟩ := List.mem_map.1 hmem
  cases o with
  | none => exact .inl (Option.some.inj ho).symm
  | some i => exact .inr (List.mem_of_getElem? ho)

theorem getElem?_of_gatherOptional {p : α} {cells out : List α} {offsets : List (Option Nat)}
    {r : Nat} {o : Option Nat} (h : gatherOptional p cells offsets = .ok out)
    (hr : offsets[r]? = some o) : ∃ a, sourceCell p cells o = some a ∧ out[r]? = some a := by
  have hrow := congrArg (·[r]?) (gatherOptional_eq_ok_iff.1 h)
  rw [List.getElem?_map, List.getElem?_map, hr] at hrow
  obtain ⟨a, ha, hcell⟩ := Option.map_eq_some_iff.1 hrow.symm
  exact ⟨a, hcell.symm, ha⟩

theorem gatherOptional_map {p : α} {cells out : List α} {offsets : List (Option Nat)} (f : α → β)
    (h : gatherOptional p cells offsets = .ok out) :
    gatherOptional (f p) (cells.map f) offsets = .ok (out.map f) := by
  rw [gatherOptional_eq_ok_iff] at h ⊢
  have hmap := congrArg (List.map (Option.map f)) h
  have hcell : ∀ o, sourceCell (f p) (cells.map f) o = (sourceCell p cells o).map f := by
    intro o
    cases o <;> simp [sourceCell]
  rw [List.map_congr_left fun o _ => hcell o]
  simpa [List.map_map, Function.comp_def] using hmap

theorem gatherOptional_zipWith {p : α} {q : β} {as as' : List α} {bs bs' : List β}
    {offsets : List (Option Nat)} (f : α → β → γ) (ha : gatherOptional p as offsets = .ok as')
    (hb : gatherOptional q bs offsets = .ok bs') :
    gatherOptional (f p q) (List.zipWith f as bs) offsets = .ok (List.zipWith f as' bs') := by
  rw [gatherOptional_eq_ok_iff] at ha hb ⊢
  rw [← map_zipWith_some f ha hb]
  apply List.map_congr_left
  intro o _
  cases o with
  | none => rfl
  | some i => exact List.getElem?_zipWith'

theorem gatherOptional_replicate {n : Nat} {offsets : List (Option Nat)} (a : α)
    (h : SourcesInRange n offsets) :
    gatherOptional a (List.replicate n a) offsets = .ok (List.replicate offsets.length a) := by
  rw [gatherOptional_eq_ok_iff, List.map_replicate, List.eq_replicate_iff]
  refine ⟨List.length_map _, fun x hx => ?_⟩
  obtain ⟨o, ho, rfl⟩ := List.mem_map.1 hx
  cases o with
  | none => rfl
  | some i => exact List.getElem?_replicate_of_lt (h i ho)

/-- The rows of an optional gather, where absence is a value of the cells. -/
theorem eq_map_of_gatherOptional {rows out : List (Option α)} {offsets : List (Option Nat)}
    (h : gatherOptional none rows offsets = .ok out) :
    out = offsets.map fun o => o.bind fun i => rows[i]?.join := by
  have hjoin := congrArg (List.map Option.join) (gatherOptional_eq_ok_iff.1 h)
  have hcell : ∀ o, (sourceCell none rows o).join = o.bind fun i => rows[i]?.join := by
    intro o
    cases o <;> rfl
  simpa [List.map_map, Function.comp_def, hcell] using hjoin.symm

end ColumnFlow.Rows
