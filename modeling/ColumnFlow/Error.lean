import ColumnFlow.CivilDate
import ColumnFlow.Fault

/-!
# Errors

An error is a failure that a caller is expected to handle. It has a cause, and it may have been
wrapped in messages of the callers that passed it on. An operation that can meet both errors and
faults reports a `Failure`.
-/

namespace ColumnFlow

/-- What went wrong. -/
inductive Cause where
  /-- The calendar has no such day. -/
  | invalidDay (year : Int) (month day : Nat)
  /-- The year of a date does not fit a packed day. -/
  | yearOutOfRange (date : CivilDate)
  /-- An item of a list is of another type than the list. -/
  | itemMismatch (item declared : ElemType)
  /-- There is no column of nulls. -/
  | columnOfNulls
  /-- A column of `rows` rows was added to a context of `contextRows` rows. -/
  | lengthMismatch (info : String) (rows contextRows : Nat)
  /-- No setting has this name. -/
  | unknownSetting (name : String)
  /-- A setting was given a value of another type. -/
  | settingType (name : String) (expected incoming : ElemType)
  /-- The context has no column to unfold under this alias. -/
  | missingKey (key : Nat)
  /-- Unfolding would produce more than `limit` rows. -/
  | rowLimit (limit : UInt64)
  /-- Lists are to be unfolded, and their item type is not known. -/
  | itemTypeUnknown (info : String)
  /-- The library does not do this. -/
  | notImplemented (what : String)
  /-- Something required was not there. -/
  | missing (what : String)
  /-- A caller's own words. -/
  | note (text : String)
  deriving DecidableEq

/-- The text that reports a cause. -/
def Cause.message : Cause → String
  | invalidDay year month day => s!"Invalid day: {year}-{month}-{day}"
  | yearOutOfRange date => s!"Year out of range for day: {date.text}"
  | itemMismatch item declared =>
    s!"List item type {item.name} does not match list type {declared.name}"
  | columnOfNulls => "Cannot build a column of nulls"
  | lengthMismatch info rows contextRows =>
    s!"Column {info} has {rows} rows, context has {contextRows}"
  | unknownSetting name => s!"Execution variable '{name}' does not exist"
  | settingType name expected incoming =>
    s!"Invalid value type for '{name}': expected {expected.name}, got {incoming.name}"
  | missingKey key => s!"Missing column for unfold key {key}"
  | rowLimit limit => s!"Unfold produced more than {limit} rows"
  | itemTypeUnknown info => s!"Cannot unfold {info}, list item type unknown"
  | notImplemented what => s!"Not yet implemented: {what}"
  | missing what => s!"Missing {what}"
  | note text => text

/-- A cause, wrapped in any number of messages. -/
inductive Error where
  | of (cause : Cause)
  /-- `message` says what was being done when `source` came up. -/
  | wrapped (message : String) (source : Error)
  deriving DecidableEq

namespace Error

/-- The outermost message. -/
def message : Error → String
  | of cause => cause.message
  | wrapped message _ => message

/-- The errors that led to this one, the nearest first. -/
def sources : Error → List Error
  | of _ => []
  | wrapped _ source => source :: source.sources

/-- The message, followed by the nearest source in parentheses. -/
def display : Error → String
  | of cause => cause.message
  | wrapped message source => s!"{message} ({source.display})"

/-- The messages wrapped around each other, the first outermost; none if there is no message. -/
def ofMessages? : List String → Option Error
  | [] => none
  | message :: messages =>
    match ofMessages? messages with
    | none => some (of (.note message))
    | some source => some (wrapped message source)

end Error

/-- Wraps the error of a result in `message`. -/
def withContext {α : Type} (message : String) : Except Error α → Except Error α
  | .ok a => .ok a
  | .error source => .error (.wrapped message source)

/-- The value of an option; `what` was missing if there is none. -/
def required {α : Type} (what : String) : Option α → Except Error α
  | some a => .ok a
  | none => .error (.of (.missing what))

/-- Why an operation that can meet both did not finish. -/
inductive Failure where
  | fault (fault : Fault)
  | error (error : Error)
  deriving DecidableEq

/-- An operation that can only meet faults. -/
def orFault {α : Type} : Except Fault α → Except Failure α
  | .ok a => .ok a
  | .error fault => .error (.fault fault)

/-- An operation that can only meet errors. -/
def orError {α : Type} : Except Error α → Except Failure α
  | .ok a => .ok a
  | .error error => .error (.error error)

end ColumnFlow
