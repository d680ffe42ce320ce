import Two.Library.PrefixInteger
import Two.Hpack.TableRefinement
import Two.Hpack.HuffmanCoding

/-!
# What a header block means

RFC 7541 gives a block of representations a meaning in a context, which is the dynamic table with
its maximum size and the limit announced in the settings. The bytes that spell a representation are
not unique: each string may be Huffman coded or not. Integers are spelled in their shortest form; the
decoder does not take every longer one.

## Main definitions

* `Representation`: the representations of RFC 7541
* `AbstractTable.lookup`, `AbstractTable.insert`, `AbstractTable.update`: the index address space,
  insertion and the size update
* `Representation.meaning`, `blockMeaning`: the context after, and the headers
* `SpellsString`, `Representation.Spells`, `SpellsBlock`: the bytes of a string, a representation and
  a block
-/

namespace Two.Hpack

/-! ## Representations -/

/-- What a literal representation asks for its header: to be inserted into the table, or not, or
never by anyone. -/
inductive LiteralKind
  | incremental
  | without
  | never
  deriving DecidableEq

/-- A header field representation, or a size update. -/
inductive Representation
  | indexed (index : ℕ)
  | indexedName (kind : LiteralKind) (index : ℕ) (value : Bytes)
  | newName (kind : LiteralKind) (name value : Bytes)
  | sizeUpdate (maxSize : ℕ)
  deriving DecidableEq

/-- The preamble of a literal representation. -/
def LiteralKind.preamble : LiteralKind → Preamble
  | .incremental => .literalHeaderFieldWithIncrementalIndexing
  | .without => .literalHeaderFieldWithoutIndexing
  | .never => .literalHeaderFieldNeverIndexed

/-- The bits that stand before the integer at the start of a representation. -/
def tagBits : Preamble → ℕ
  | .indexedHeaderField => 1
  | .literalHeaderFieldWithIncrementalIndexing => 1
  | .dynamicTableSizeUpdate => 1
  | .literalHeaderFieldNeverIndexed => 1
  | .literalHeaderFieldWithoutIndexing => 0

namespace Representation

/-- Whether a representation is a size update. -/
def isUpdate : Representation → Bool
  | .sizeUpdate _ => true
  | _ => false

/-- The preamble of a representation. -/
def preamble : Representation → Preamble
  | .indexed _ => .indexedHeaderField
  | .indexedName kind _ _ => kind.preamble
  | .newName kind _ _ => kind.preamble
  | .sizeUpdate _ => .dynamicTableSizeUpdate

/-- The integer at the start of a representation; zero announces a new name. -/
def integer : Representation → ℕ
  | .indexed index => index
  | .indexedName _ index _ => index
  | .newName .. => 0
  | .sizeUpdate maxSize => maxSize

end Representation

/-! ## The context -/

namespace AbstractTable

variable (a : AbstractTable)

/-- The index address space: the static table, then the dynamic table from its newest entry on. -/
def lookup (index : ℕ) : Option Header :=
  if index = 0 then none
  else if index ≤ 61 then some (staticName (index - 1), staticValue (index - 1))
  else a.entries[index - 62]?

/-- An entry is inserted after the oldest ones were evicted to make room for it. One that is larger
than the table leaves it empty. -/
def insert (e : Header) : AbstractTable :=
  { a with entries :=
      if entrySize e ≤ a.maxSize then e :: evictTo (a.maxSize - entrySize e) a.entries else [] }

/-- The table is resized, and the entries that no longer fit are evicted. -/
def update (maxSize : ℕ) : AbstractTable :=
  { a with maxSize := maxSize, entries := evictTo maxSize a.entries }

/-- The effect of a literal on the table. -/
def literal (kind : LiteralKind) (e : Header) : AbstractTable :=
  match kind with
  | .incremental => a.insert e
  | _ => a

end AbstractTable

/-! ## Meaning -/

/-- The meaning of a representation: the table after it and the headers it adds, which are none or
one. A decoding error is `none`. -/
def Representation.meaning (a : AbstractTable) : Representation → Option (AbstractTable × List Header)
  | .indexed index => (a.lookup index).map fun e => (a, [e])
  | .indexedName kind index value =>
    (a.lookup index).map fun e => (a.literal kind (e.1, value), [(e.1, value)])
  | .newName kind name value => some (a.literal kind (name, value), [(name, value)])
  | .sizeUpdate maxSize => if maxSize ≤ a.limit then some (a.update maxSize, []) else none

/-- The meaning of a block. Size updates stand before everything else; `start` says that nothing
else has come yet. -/
def blockMeaning : Bool → AbstractTable → List Representation →
    Option (AbstractTable × List Header)
  | _, a, [] => some (a, [])
  | start, a, r :: rs =>
    if r.isUpdate ∧ start = false then none
    else do
      let (a, hs) ← r.meaning a
      let (a, hs') ← blockMeaning (start && r.isUpdate) a rs
      return (a, hs ++ hs')

/-! ## Spelling -/

/-- The bytes of a string literal: its length and its characters, or the length of its Huffman code
and the code, filled up to a whole byte with ones. -/
inductive SpellsString (s : Bytes) : Bytes → Prop
  | raw : SpellsString s (PrefixInteger.encode 7 0 s.length ++ s)
  | huffman {code : Bytes} (h : PaddedAt code code.length 0 s) :
    SpellsString s (PrefixInteger.encode 7 1 code.length ++ code)

/-- The first bytes of a representation. -/
def Representation.head (r : Representation) : Bytes :=
  PrefixInteger.encode (findPrefixSize r.preamble) (tagBits r.preamble) r.integer

/-- The bytes of a representation. -/
inductive Representation.Spells : Representation → Bytes → Prop
  | indexed (index : ℕ) : Spells (.indexed index) (Representation.indexed index).head
  | indexedName (kind : LiteralKind) {index : ℕ} {value valueBytes : Bytes} (hi : 0 < index)
    (hv : SpellsString value valueBytes) :
    Spells (.indexedName kind index value)
      ((Representation.indexedName kind index value).head ++ valueBytes)
  | newName (kind : LiteralKind) {name value nameBytes valueBytes : Bytes}
    (hn : SpellsString name nameBytes) (hv : SpellsString value valueBytes) :
    Spells (.newName kind name value)
      ((Representation.newName kind name value).head ++ (nameBytes ++ valueBytes))
  | sizeUpdate (maxSize : ℕ) : Spells (.sizeUpdate maxSize) (Representation.sizeUpdate maxSize).head

/-- The bytes of a block are those of its representations, one after the other. -/
inductive SpellsBlock : List Representation → Bytes → Prop
  | nil : SpellsBlock [] []
  | cons {r : Representation} {rs : List Representation} {bytes bytes' : Bytes}
    (h : r.Spells bytes) (hs : SpellsBlock rs bytes') : SpellsBlock (r :: rs) (bytes ++ bytes')

end Two.Hpack
