import ColumnFlow.Settings
import Mathlib.Data.List.DropRight
import Mathlib.Data.List.Nodup

/-!
# Settings that stay well typed

Settings are changed by calls with any names and any values, some of which are refused. Whether a
call is refused depends on the declarations alone, because each setting keeps the type of its
default. A setting has the value that was set last since it was last reset, and its default if none
was (`Settings.stay_well_typed`). What contexts and unfolding read is therefore what is stored, and
never what they would fall back to.
-/

namespace ColumnFlow.Settings

variable {s out : Settings} {declared old : Setting} {name : String} {values : Setting → Value}

/-! ## Calls -/

/-- A setting is declared under this name. -/
def Declared (name : String) : Prop := ∃ declared ∈ defaults.table, declared.name = name

instance (name : String) : Decidable (Declared name) :=
  inferInstanceAs (Decidable (∃ declared ∈ defaults.table, declared.name = name))

/-- A call that changes settings. -/
inductive Call where
  | set (name : String) (value : Value)
  | reset (name : String)
  | resetAll

namespace Call

/-- What a call makes of settings. -/
def run (s : Settings) : Call → Except Error Settings
  | set name value => s.set name value
  | reset name => s.reset name
  | resetAll => .ok defaults

/-- Whether a call takes the setting of this name back to its default. -/
def resets (name : String) : Call → Bool
  | set _ _ => false
  | reset n => name = n
  | resetAll => true

/-- The value that a call sets under this name. -/
def given? (name : String) : Call → Option Value
  | set n value => if name = n then some value else none
  | reset _ | resetAll => none

/-- Why a call is refused. -/
inductive Refused : Call → Cause → Prop where
  | setUnknown {name : String} {value : Value} (h : ¬ Declared name) :
      Refused (set name value) (.unknownSetting name)
  | setType {declared : Setting} {value : Value} (h : declared ∈ defaults.table)
      (htype : declared.elemType ≠ value.elemType) :
      Refused (set declared.name value)
        (.settingType declared.name declared.elemType value.elemType)
  | resetUnknown {name : String} (h : ¬ Declared name) :
      Refused (reset name) (.unknownSetting name)

/-- The calls that are not refused. -/
inductive Admitted : Call → Prop where
  | set {declared : Setting} {value : Value} (h : declared ∈ defaults.table)
      (htype : declared.elemType = value.elemType) : Admitted (set declared.name value)
  | reset {declared : Setting} (h : declared ∈ defaults.table) : Admitted (reset declared.name)
  | resetAll : Admitted resetAll

theorem refused_or_admitted (call : Call) : (∃ cause, call.Refused cause) ∨ call.Admitted := by
  cases call with
  | set name value =>
    by_cases hname : Declared name
    · obtain ⟨declared, h, rfl⟩ := hname
      by_cases htype : declared.elemType = value.elemType
      · exact .inr (.set h htype)
      · exact .inl ⟨_, .setType h htype⟩
    · exact .inl ⟨_, .setUnknown hname⟩
  | reset name =>
    by_cases hname : Declared name
    · obtain ⟨declared, h, rfl⟩ := hname
      exact .inr (.reset h)
    · exact .inl ⟨_, .resetUnknown hname⟩
  | resetAll => exact .inr .resetAll

end Call

/-- The settings that a caller has after a call. If the call is refused, they are the ones from
before. -/
def attempt (s : Settings) (call : Call) : Settings :=
  match call.run s with
  | .ok out => out
  | .error _ => s

/-- The settings that a caller has after all of the calls. -/
def attemptAll (s : Settings) (calls : List Call) : Settings := calls.foldl attempt s

/-- Those of the calls that are not refused when they are made one after the other. -/
def accepted (s : Settings) : List Call → List Call
  | [] => []
  | call :: calls =>
    match call.run s with
    | .ok next => call :: next.accepted calls
    | .error _ => s.accepted calls

/-- The calls since the setting of this name was last reset, or all of them if it never was. -/
def sinceReset (name : String) (calls : List Call) : List Call :=
  calls.rtakeWhile fun call => !call.resets name

/-- The value set last since the last reset, or the default if none was set since. -/
def valueAfter (calls : List Call) (declared : Setting) : Value :=
  ((sinceReset declared.name calls).filterMap (Call.given? declared.name)).getLast?.getD
    declared.value

/-! ## Declarations -/

/-- No two settings are declared under one name. -/
theorem nodup_names : (defaults.table.map Setting.name).Nodup := by decide

theorem eq_of_name_eq (hold : old ∈ defaults.table) (h : declared ∈ defaults.table)
    (hname : old.name = declared.name) : old = declared :=
  List.inj_on_of_nodup_map nodup_names hold h hname

theorem find?_defaults_of_mem (h : declared ∈ defaults.table) :
    defaults.find? declared.name = some declared := by
  cases hfind : defaults.find? declared.name with
  | none => simpa using List.find?_eq_none.1 hfind declared h
  | some other =>
    have hname : other.name = declared.name := by simpa using List.find?_some hfind
    rw [eq_of_name_eq (List.mem_of_find?_eq_some hfind) h hname]

theorem find?_defaults_of_not_declared (h : ¬ Declared name) : defaults.find? name = none :=
  List.find?_eq_none.2 fun declared hd => by
    simpa using fun hname => h ⟨declared, hd, hname⟩

/-! ## Settings with given values -/

/-- The declared settings with these values. -/
def valued (values : Setting → Value) : Settings :=
  ⟨defaults.table.map fun declared => { declared with value := values declared }⟩

/-- Each declared setting has a value of the type of its default. -/
def Typed (values : Setting → Value) : Prop :=
  ∀ declared ∈ defaults.table, (values declared).elemType = declared.elemType

theorem valued_default : valued Setting.value = defaults := rfl

theorem valued_congr {f g : Setting → Value}
    (h : ∀ declared ∈ defaults.table, f declared = g declared) : valued f = valued g :=
  congrArg Settings.mk (List.map_congr_left fun declared hd => by rw [h declared hd])

theorem find?_valued (values : Setting → Value) (name : String) :
    (valued values).find? name =
      (defaults.find? name).map fun declared => { declared with value := values declared } :=
  List.find?_map

theorem find?_valued_of_mem (h : declared ∈ defaults.table) (values : Setting → Value) :
    (valued values).find? declared.name = some { declared with value := values declared } := by
  rw [find?_valued, find?_defaults_of_mem h]
  rfl

theorem get_valued_of_mem (h : declared ∈ defaults.table) (values : Setting → Value) :
    (valued values).get declared.name = .ok { declared with value := values declared } := by
  rw [get, find?_valued_of_mem h]

theorem get_valued_of_not_declared (h : ¬ Declared name) (values : Setting → Value) :
    (valued values).get name = .error (.of (.unknownSetting name)) := by
  rw [get, find?_valued, find?_defaults_of_not_declared h]
  rfl

theorem exists_get_valued_iff (values : Setting → Value) (name : String) :
    (∃ setting, (valued values).get name = .ok setting) ↔ Declared name := by
  constructor
  · rintro ⟨setting, hget⟩
    by_contra h
    cases hget.symm.trans (get_valued_of_not_declared h values)
  · rintro ⟨declared, h, rfl⟩
    exact ⟨_, get_valued_of_mem h values⟩

theorem put_valued (h : declared ∈ defaults.table) (values : Setting → Value) (value : Value) :
    (valued values).put { declared with value } =
      valued fun old => if old.name = declared.name then value else values old := by
  rw [put, valued, valued, List.map_map]
  refine congrArg Settings.mk (List.map_congr_left fun old hold => ?_)
  by_cases hname : old.name = declared.name
  · obtain rfl := eq_of_name_eq hold h hname
    simp
  · simp [hname]

/-! ## One call -/

/-- The values of the declared settings after a call that is not refused. -/
def Call.follow (values : Setting → Value) : Call → Setting → Value
  | set name value, declared => if declared.name = name then value else values declared
  | reset name, declared => if declared.name = name then declared.value else values declared
  | resetAll, declared => declared.value

/-- The value that is stored has the declared type, so a new one is compared with that. -/
theorem set_valued (hv : Typed values) (h : declared ∈ defaults.table) (value : Value) :
    (valued values).set declared.name value =
      if declared.elemType = value.elemType then
        .ok (valued ((Call.set declared.name value).follow values))
      else .error (.of (.settingType declared.name declared.elemType value.elemType)) := by
  have hstored : ({ declared with value := values declared } : Setting).elemType
      = declared.elemType := hv declared h
  rw [set, get_valued_of_mem h]
  show (if _ then Except.ok _ else Except.error _) = _
  rw [hstored, put_valued h]
  rfl

theorem reset_valued (h : declared ∈ defaults.table) (values : Setting → Value) :
    (valued values).reset declared.name =
      .ok (valued ((Call.reset declared.name).follow values)) := by
  have hget : defaults.get declared.name = .ok declared := get_valued_of_mem h Setting.value
  rw [reset, hget]
  show Except.ok ((valued values).put { declared with value := declared.value }) = _
  rw [put_valued h]
  -- the default that is put is the one of each setting of this name, since there is only one
  refine congrArg Except.ok (valued_congr fun old hold => ?_)
  by_cases hname : old.name = declared.name
  · obtain rfl := eq_of_name_eq hold h hname
    simp [Call.follow]
  · simp [Call.follow, hname]

theorem run_of_refused (hv : Typed values) {call : Call} {cause : Cause} (h : call.Refused cause) :
    call.run (valued values) = .error (.of cause) := by
  cases h with
  | setUnknown h =>
    rw [Call.run, set, get_valued_of_not_declared h]
    rfl
  | setType h htype => rw [Call.run, set_valued hv h, if_neg htype]
  | resetUnknown h =>
    rw [Call.run, reset, ← valued_default, get_valued_of_not_declared h]
    rfl

theorem run_of_admitted (hv : Typed values) {call : Call} (h : call.Admitted) :
    call.run (valued values) = .ok (valued (call.follow values)) := by
  cases h with
  | set h htype => rw [Call.run, set_valued hv h, if_pos htype]
  | reset h => rw [Call.run, reset_valued h]
  | resetAll => rfl

theorem run_valued_eq_error_iff (hv : Typed values) {call : Call} {e : Error} :
    call.run (valued values) = .error e ↔ ∃ cause, call.Refused cause ∧ e = .of cause := by
  constructor
  · intro he
    rcases call.refused_or_admitted with ⟨cause, hcause⟩ | hcall
    · exact ⟨cause, hcause, Except.error.inj (he.symm.trans (run_of_refused hv hcause))⟩
    · cases he.symm.trans (run_of_admitted hv hcall)
  · rintro ⟨cause, hcause, rfl⟩
    exact run_of_refused hv hcause

theorem typed_follow (hv : Typed values) {call : Call} (h : call.Admitted) :
    Typed (call.follow values) := by
  intro old hold
  cases h with
  | @set declared value h htype =>
    by_cases hname : old.name = declared.name
    · obtain rfl := eq_of_name_eq hold h hname
      simp [Call.follow, htype]
    · simpa [Call.follow, hname] using hv old hold
  | @reset declared h =>
    by_cases hname : old.name = declared.name
    · simp [Call.follow, hname, Setting.elemType]
    · simpa [Call.follow, hname] using hv old hold
  | resetAll => rfl

/-! ## All calls -/

/-- The last reset and what was set since tell the values after one more call. -/
theorem valueAfter_concat (calls : List Call) (call : Call) :
    valueAfter (calls ++ [call]) = call.follow (valueAfter calls) := by
  funext declared
  rw [valueAfter, sinceReset, List.rtakeWhile_concat]
  cases call with
  | set name value =>
    by_cases hname : declared.name = name
    · simp [Call.resets, Call.given?, Call.follow, hname]
    · simp [Call.resets, Call.given?, Call.follow, hname, valueAfter, sinceReset]
  | reset name =>
    by_cases hname : declared.name = name
    · simp [Call.resets, Call.follow, hname]
    · simp [Call.resets, Call.given?, Call.follow, hname, valueAfter, sinceReset]
  | resetAll => simp [Call.resets, Call.follow]

/-- The settings are the declared ones, with the values that the calls have left in them. -/
structure Follows (s : Settings) (calls : List Call) : Prop where
  eq_valued : s = valued (valueAfter calls)
  typed : Typed (valueAfter calls)

theorem follows_defaults : defaults.Follows [] := ⟨rfl, fun _ _ => rfl⟩

theorem Follows.of_run {before : List Call} (h : s.Follows before) {call : Call}
    (hrun : call.run s = .ok out) : out.Follows (before ++ [call]) := by
  obtain ⟨rfl, htyped⟩ := h
  rcases call.refused_or_admitted with ⟨cause, hcause⟩ | hcall
  · cases hrun.symm.trans (run_of_refused htyped hcause)
  · cases hrun.symm.trans (run_of_admitted htyped hcall)
    have hvalues := valueAfter_concat before call
    exact ⟨by rw [hvalues], hvalues ▸ typed_follow htyped hcall⟩

theorem attempt_of_error {call : Call} {e : Error} (h : call.run s = .error e) :
    s.attempt call = s := by
  rw [attempt, h]

theorem Follows.attemptAll {before : List Call} (h : s.Follows before) (calls : List Call) :
    (s.attemptAll calls).Follows (before ++ s.accepted calls) := by
  -- the calls that have been made move from the run to what the settings follow
  induction calls generalizing s before with
  | nil =>
    rw [accepted, List.append_nil]
    exact h
  | cons call calls ih =>
    rw [Settings.attemptAll, List.foldl_cons, attempt, accepted]
    cases hrun : call.run s with
    | ok next =>
      rw [List.append_cons]
      exact ih (h.of_run hrun)
    | error e =>
      -- refused: the settings are those from before, and the call is not among the accepted ones
      exact ih h

/-! ## What settings answer -/

theorem exists_eq_bool {v : Value} (h : v.elemType = .bool) : ∃ b, v = .bool b := by
  cases v with
  | bool b => exact ⟨b, rfl⟩
  | _ => cases h

theorem exists_eq_uint64 {v : Value} (h : v.elemType = .uint64) : ∃ n, v = .uint64 n := by
  cases v with
  | uint64 n => exact ⟨n, rfl⟩
  | _ => cases h

theorem exists_verifiesLengths_valued (hv : Typed values) :
    ∃ verify, (valued values).get Setting.verifyColumnLengths.name =
      .ok { Setting.verifyColumnLengths with value := .bool verify } ∧
        (valued values).verifiesLengths = verify := by
  have hmem : Setting.verifyColumnLengths ∈ defaults.table := by decide
  obtain ⟨verify, hvalue⟩ := exists_eq_bool (hv _ hmem)
  refine ⟨verify, hvalue ▸ get_valued_of_mem hmem values, ?_⟩
  rw [verifiesLengths, find?_valued_of_mem hmem, hvalue]

theorem exists_unfoldLimit_valued (hv : Typed values) :
    ∃ limit, (valued values).get Setting.maxUnfoldRows.name =
      .ok { Setting.maxUnfoldRows with value := .uint64 limit } ∧
        ((valued values).unfoldLimit = none ↔ limit = 0) ∧
          (limit ≠ 0 → (valued values).unfoldLimit = some limit) := by
  have hmem : Setting.maxUnfoldRows ∈ defaults.table := by decide
  obtain ⟨limit, hvalue⟩ := exists_eq_uint64 (hv _ hmem)
  have hlimit : (valued values).unfoldLimit = if limit = 0 then none else some limit := by
    rw [unfoldLimit, find?_valued_of_mem hmem, hvalue]
  refine ⟨limit, hvalue ▸ get_valued_of_mem hmem values, ?_, fun hne => ?_⟩
  · rw [hlimit]
    simp
  · rw [hlimit, if_neg hne]

/-- What settings answer after these calls, none of which was refused. -/
structure Answers (s : Settings) (calls : List Call) : Prop where
  exists_get_iff : ∀ name, (∃ setting, s.get name = .ok setting) ↔ Declared name
  get_eq : ∀ declared ∈ defaults.table,
    s.get declared.name = .ok { declared with value := valueAfter calls declared }
  elemType_valueAfter : ∀ declared ∈ defaults.table,
    (valueAfter calls declared).elemType = declared.elemType
  run_eq_error_iff : ∀ (call : Call) (e : Error),
    call.run s = .error e ↔ ∃ cause, call.Refused cause ∧ e = .of cause
  attempt_of_error : ∀ (call : Call) (e : Error), call.run s = .error e → s.attempt call = s
  /-- Lengths are verified as the stored value says. -/
  verifiesLengths_eq : ∃ verify, s.get Setting.verifyColumnLengths.name =
    .ok { Setting.verifyColumnLengths with value := .bool verify } ∧ s.verifiesLengths = verify
  /-- The limit is the stored number, and 0 is no limit. -/
  unfoldLimit_eq : ∃ limit, s.get Setting.maxUnfoldRows.name =
    .ok { Setting.maxUnfoldRows with value := .uint64 limit } ∧
      (s.unfoldLimit = none ↔ limit = 0) ∧ (limit ≠ 0 → s.unfoldLimit = some limit)

theorem answers_valued {calls : List Call} (hv : Typed (valueAfter calls)) :
    (valued (valueAfter calls)).Answers calls where
  exists_get_iff := exists_get_valued_iff _
  get_eq := fun _ hd => get_valued_of_mem hd _
  elemType_valueAfter := hv
  run_eq_error_iff := fun _ _ => run_valued_eq_error_iff hv
  attempt_of_error := fun _ _ he => Settings.attempt_of_error he
  verifiesLengths_eq := exists_verifiesLengths_valued hv
  unfoldLimit_eq := exists_unfoldLimit_valued hv

/-- Whatever calls are made on new settings, with any names and values, exactly the declared names
have a setting. It has the value that was last set under its name by a call that was not refused,
since it was last reset, or else its default, and this value is of the declared type. A call is
refused exactly for an unknown name or a value of another type, and changes nothing then. Lengths
are verified, and unfolding is limited, as the stored values say. -/
theorem stay_well_typed (calls : List Call) :
    (defaults.attemptAll calls).Answers (defaults.accepted calls) := by
  obtain ⟨hvalues, htyped⟩ := follows_defaults.attemptAll calls
  rw [List.nil_append] at hvalues htyped
  rw [hvalues]
  exact answers_valued htyped

/-- A limit is set twice and a setting is reset. Three calls are refused: for a value of another
type, for an unknown name, and for a value of the type of another setting. -/
def overwrites : List Call :=
  [.set "max_unfold_rows" (.uint64 5), .set "max_unfold_rows" (.int64 7),
    .set "verify_column_lengths" (.bool false), .set "row_limit" (.uint64 1),
    .set "max_unfold_rows" (.uint64 9), .reset "verify_column_lengths",
    .set "verify_column_lengths" (.uint64 0)]

theorem stay_well_typed_overwrites :
    (defaults.accepted overwrites).length = 4 ∧
      (defaults.attemptAll overwrites).unfoldLimit = some 9 ∧
      (defaults.attemptAll overwrites).verifiesLengths = true ∧
      ¬ ∃ setting, (defaults.attemptAll overwrites).get "row_limit" = .ok setting := by
  have h := stay_well_typed overwrites
  obtain ⟨limit, hlimit, -, hread⟩ := h.unfoldLimit_eq
  obtain ⟨verify, hverify, hread'⟩ := h.verifiesLengths_eq
  have hset : valueAfter (defaults.accepted overwrites) Setting.maxUnfoldRows
      = .uint64 9 := by decide
  have hreset : valueAfter (defaults.accepted overwrites) Setting.verifyColumnLengths
      = .bool true := by decide
  rw [h.get_eq Setting.maxUnfoldRows (by decide), hset] at hlimit
  rw [h.get_eq Setting.verifyColumnLengths (by decide), hreset] at hverify
  cases hlimit
  cases hverify
  exact ⟨by decide, hread (by decide), hread', mt (h.exists_get_iff "row_limit").1 (by decide)⟩

end ColumnFlow.Settings
