import ColumnFlow.Value.Basic

/-!
# Settings

Settings control how a plan is run. They are declared here with their defaults, and a setting only
ever takes values of the type of its default.
-/

namespace ColumnFlow

/-- A setting and its value. -/
structure Setting where
  name : String
  description : String
  value : Value
  deriving DecidableEq

namespace Setting

/-- The type of the values of a setting. -/
def elemType (s : Setting) : ElemType := s.value.elemType

/-- Whether a context checks the lengths of its columns. -/
def verifyColumnLengths : Setting where
  name := "verify_column_lengths"
  description := "Check that columns added to a context have the context's row count"
  value := .bool true

/-- How many rows unfolding may produce. -/
def maxUnfoldRows : Setting where
  name := "max_unfold_rows"
  description := "Maximum number of rows unfold may produce, 0 for no limit"
  value := .uint64 0

end Setting

/-- The settings of a run. -/
structure Settings where
  table : List Setting
  deriving DecidableEq

namespace Settings

/-- Every setting at its default. -/
def defaults : Settings := ⟨[Setting.verifyColumnLengths, Setting.maxUnfoldRows]⟩

/-- The setting of this name. -/
def find? (s : Settings) (name : String) : Option Setting :=
  s.table.find? fun setting => setting.name = name

/-- The setting of this name; only declared names have one. -/
def get (s : Settings) (name : String) : Except Error Setting :=
  match s.find? name with
  | some setting => .ok setting
  | none => .error (.of (.unknownSetting name))

/-- The settings with the one of `setting`'s name replaced. -/
def put (s : Settings) (setting : Setting) : Settings :=
  ⟨s.table.map fun old => if old.name = setting.name then setting else old⟩

/-- The settings with a new value for one of them, which must be of the old value's type. -/
def set (s : Settings) (name : String) (value : Value) : Except Error Settings := do
  let setting ← s.get name
  if setting.elemType = value.elemType then return s.put { setting with value }
  else throw (.of (.settingType name setting.elemType value.elemType))

/-- The settings with one of them back at its default. -/
def reset (s : Settings) (name : String) : Except Error Settings := do
  return s.put (← defaults.get name)

/-- Whether a context checks the lengths of its columns. -/
def verifiesLengths (s : Settings) : Bool :=
  match s.find? Setting.verifyColumnLengths.name with
  | some ⟨_, _, .bool verify⟩ => verify
  | _ => true

/-- The most rows that unfolding may produce; 0 stands for no limit. -/
def unfoldLimit (s : Settings) : Option UInt64 :=
  match s.find? Setting.maxUnfoldRows.name with
  | some ⟨_, _, .uint64 limit⟩ => if limit = 0 then none else some limit
  | _ => none

end Settings

end ColumnFlow
