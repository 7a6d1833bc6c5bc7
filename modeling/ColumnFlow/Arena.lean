/-!
# Arenas

An arena keeps the texts that columns refer to. It is filled by a builder, frozen once, and then
shared by all columns that hold texts of it. Appending two columns has to know whether they share
one arena or have two with the same texts, so an arena has an identity besides its texts. The
caller of an operation that makes an arena chooses the identity, and chooses a new one each time.
-/

namespace ColumnFlow

/-- The identity of an arena. -/
abbrev ArenaId := Nat

/-- Texts in the order of their allocation, with the identity of the object that keeps them. -/
structure Arena where
  id : ArenaId
  texts : List String
  deriving DecidableEq

/-- The texts allocated so far. -/
structure ArenaBuilder where
  texts : List String
  deriving DecidableEq

namespace ArenaBuilder

/-- Nothing allocated. -/
def empty : ArenaBuilder := ⟨[]⟩

/-- One more text allocated. -/
def alloc (b : ArenaBuilder) (text : String) : ArenaBuilder := ⟨b.texts ++ [text]⟩

/-- The number of texts allocated. -/
def size (b : ArenaBuilder) : Nat := b.texts.length

/-- The arena of the texts allocated. -/
def freeze (id : ArenaId) (b : ArenaBuilder) : Arena := ⟨id, b.texts⟩

end ArenaBuilder

namespace Arena

/-- An arena without texts. -/
def empty (id : ArenaId) : Arena := ⟨id, []⟩

/-- The number of texts. -/
def size (a : Arena) : Nat := a.texts.length

/-- An arena with the texts of both, the first one's first. -/
def merge (id : ArenaId) (a b : Arena) : Arena := ⟨id, a.texts ++ b.texts⟩

/-- Whether two arenas keep the same texts in the same order. They need not be the same object. -/
def sameTexts (a b : Arena) : Bool := a.texts == b.texts

/-- The arena of a column appended to another: the one both share or the only one there is, and
otherwise a new one, `id`, with the texts of both. -/
def join (id : ArenaId) : Option Arena → Option Arena → Option Arena
  | some a, some b => if a = b then some a else some (merge id a b)
  | some a, none => some a
  | none, b => b

end Arena

end ColumnFlow
