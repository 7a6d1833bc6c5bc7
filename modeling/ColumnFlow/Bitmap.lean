import ColumnFlow.Fault

/-!
# Bitmaps

A bitmap says for each row whether it is present. Bit `i` stands in word `i / 64` at place `i % 64`.
There are no more words than the bits need, and the places behind the last bit are zero, so that
equal bits make equal bitmaps.
-/

namespace ColumnFlow

/-- `len` bits in 64-bit words. -/
structure Bitmap where
  len : Nat
  words : Array UInt64
  deriving DecidableEq

namespace Bitmap

/-- The bitmap without bits. -/
def empty : Bitmap := ⟨0, #[]⟩

/-- The word with a one at the place of bit `i`. -/
def mask (i : Nat) : UInt64 := 1 <<< (i % 64).toUInt64

/-- Bit `i`, false where there is no word for it. -/
def testBit (b : Bitmap) (i : Nat) : Bool := b.words.getD (i / 64) 0 &&& mask i != 0

/-- Bit `i` replaced, in the word that holds it. -/
def put (b : Bitmap) (i : Nat) (value : Bool) : Bitmap :=
  { b with
    words := b.words.modify (i / 64) fun word =>
      if value then word ||| mask i else word &&& ~~~mask i }

/-- Bit `i`. -/
def get (b : Bitmap) (i : Nat) : Except Fault Bool :=
  if i < b.len then .ok (b.testBit i) else .error (.bit b.len i)

/-- Bit `i` replaced. -/
def set (b : Bitmap) (i : Nat) (value : Bool) : Except Fault Bitmap :=
  if i < b.len then .ok (b.put i value) else .error (.bit b.len i)

/-- One more bit, in a new word if the last one is full. -/
def push (b : Bitmap) (value : Bool) : Bitmap :=
  put ⟨b.len + 1, if b.len % 64 = 0 then b.words.push 0 else b.words⟩ b.len value

/-- More bits. -/
def extend (b : Bitmap) (values : List Bool) : Bitmap := values.foldl push b

/-- The bitmap of a list of bits. -/
def ofList (values : List Bool) : Bitmap := empty.extend values

/-- The list of the bits. -/
def toList (b : Bitmap) : List Bool := (List.range b.len).map b.testBit

/-- `len` ones. The last word has ones only up to the last bit. -/
def allTrue (len : Nat) : Bitmap :=
  let full := Array.replicate (len / 64) (0 - 1 : UInt64)
  ⟨len, if len % 64 = 0 then full else full.push (mask len - 1)⟩

end Bitmap

end ColumnFlow
