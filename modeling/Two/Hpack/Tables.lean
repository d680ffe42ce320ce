import Mathlib.Tactic.Common
import Mathlib.Algebra.Order.Ring.Int
import Two.Base.Bytes
import Two.Base.Conf
import Two.HeaderList

/-!
# The HPACK tables

`hpack/tables.c`: the static table, and the dynamic table as a ring of NUL-separated strings. The
entries of the ring are read backwards from `next`; `first` is the NUL before the oldest entry.

## Main definitions

* `staticNames`, `staticValues`: the static table
* `DynamicTable`, `DynamicTable.cell`: the ring and its cells modulo `max_size`
* `findEntryNameAndValue`, `findEntryName`: lookup by index
* `findIndex`, `findIndexName`: search by content
* `DynamicTable.addEntry`, `DynamicTable.resize`, `DynamicTable.init`: updates, with the return
  value of the source
-/

namespace Two.Hpack

/-- `NAME_TABLE_LITERAL`. -/
def staticNameLiterals : List String :=
  [":authority", ":method", ":method", ":path", ":path", ":scheme", ":scheme", ":status",
   ":status", ":status", ":status", ":status", ":status", ":status", "accept-charset",
   "accept-encoding", "accept-language", "accept-ranges", "accept", "access-control-allow-origin",
   "age", "allow", "authorization", "cache-control", "content-disposition", "content-encoding",
   "content-language", "content-length", "content-location", "content-range", "content-type",
   "cookie", "date", "etag", "expect", "expires", "from", "host", "if-match", "if-modified-since",
   "if-none-match", "if-range", "if-unmodified-since", "last-modified", "link", "location",
   "max-forwards", "proxy-authenticate", "proxy-authorization", "range", "referer", "refresh",
   "retry-after", "server", "set-cookie", "strict-transport-security", "transfer-encoding",
   "user-agent", "vary", "via", "www-authenticate"]

/-- `VALUE_TABLE_LITERAL`. -/
def staticValueLiterals : List String :=
  ["", "GET", "POST", "/", "/index.html", "http", "https", "200", "204", "206", "304", "400",
   "404", "500", "", "gzip, deflate", "", "", "", "", "", "", "", "", "", "", "", "", "", "", "",
   "", "", "", "", "", "", "", "", "", "", "", "", "", "", "", "", "", "", "", "", "", "", "", "",
   "", "", "", "", "", ""]

/-- The names of the static table; past its end the packed literal has its terminating NUL, that is
an empty string. -/
def staticName (i : ℕ) : Bytes := ascii (staticNameLiterals.getD i "")

/-- The values of the static table. -/
def staticValue (i : ℕ) : Bytes := ascii (staticValueLiterals.getD i "")

/-- `hpack_error_t`. -/
def compressionError : ℤ := -1

/-- `hpack_error_t`. -/
def internalError : ℤ := -2

/-- `hpack_error_t`. -/
def memoryError : ℤ := -3

/-- `hpack_dynamic_table_t`. The counters are 16-bit; the buffer is addressed from its start. -/
structure DynamicTable where
  maxSize : ℕ
  first : ℕ
  next : ℕ
  actualSize : ℕ
  nEntries : ℕ
  settingsMaxTableSize : ℕ
  buffer : ℕ → UInt8

namespace DynamicTable

variable (t : DynamicTable)

/-- The cell at position `k` modulo `max_size`. -/
def cell (k : ℕ) : UInt8 := t.buffer (k % t.maxSize)

/-- The cell `i` positions before `next`. -/
def back (i : ℕ) : UInt8 := t.cell (t.next + t.maxSize - i)

/-- An assignment to the cell at position `k` modulo `max_size`. -/
def put (k : ℕ) (b : UInt8) : DynamicTable :=
  { t with buffer := Function.update t.buffer (k % t.maxSize) b }

/-- The loop of `hpack_tables_dynamic_pos_of_index`, at distance `i` from `next`. -/
def posOfIndexLoop (index : ℕ) : ℕ → ℕ → ℕ → ℕ → ℤ
  | 0, _, _, _ => internalError
  | fuel + 1, i, counter0, entriesCounter =>
    let isEnd := t.back i = 0
    -- an entry has two strings, so every second NUL lies between two entries
    let counter0 := if isEnd then counter0 + 1 else counter0
    let entriesCounter :=
      if isEnd ∧ counter0 % 2 = 0 then entriesCounter + 1 else entriesCounter
    if entriesCounter = index - 61 then i
    else posOfIndexLoop index fuel (i + 1) counter0 entriesCounter

/-- `hpack_tables_dynamic_pos_of_index`. -/
def posOfIndex (index : ℕ) : ℤ := t.posOfIndexLoop index (t.maxSize - 1) 1 0 0

/-- The loop of `hpack_tables_dynamic_copy_to_ext`: the string copied and the position after it,
`none` when no NUL is found. -/
def copyToExtLoop (initialPosition : ℕ) : ℕ → ℕ → Option (Bytes × ℤ)
  | 0, _ => none
  | fuel + 1, i =>
    let b := t.cell (t.next + t.maxSize - initialPosition + i)
    -- the position after the string, nearer to `next`
    if b = 0 then some ([], initialPosition - i)
    else (copyToExtLoop initialPosition fuel (i + 1)).map fun (s, p) => (b :: s, p)

/-- `hpack_tables_dynamic_copy_to_ext`. -/
def copyToExt (initialPosition : ℕ) : Option (Bytes × ℤ) :=
  t.copyToExtLoop initialPosition (t.maxSize - 1) 1

/-- `hpack_tables_dynamic_compare_string`: whether the characters of `s` are found from position
`initialPosition` on. The NUL after them is not compared. -/
def compareString (initialPosition : ℕ) : ℕ → Bytes → Bool
  | _, [] => true
  | i, b :: s =>
    if b ≠ t.cell (t.next + t.maxSize - initialPosition + 1 + i) then false
    else compareString initialPosition (i + 1) s

/-- The loop of `hpack_tables_dynamic_copy_from_ext`, at offset `i`. -/
def copyFromExtLoop (initialPosition : ℕ) : ℕ → ℕ → Bytes → DynamicTable → DynamicTable × ℤ
  | 0, _, _, t => (t, internalError)
  | _ + 1, i, [], t => (t.put (t.next + initialPosition + i + t.maxSize) 0, initialPosition + i)
  | fuel + 1, i, b :: s, t =>
    copyFromExtLoop initialPosition fuel (i + 1) s
      (t.put (t.next + initialPosition + i + t.maxSize) b)

/-- `hpack_tables_dynamic_copy_from_ext`. -/
def copyFromExt (initialPosition : ℕ) (s : Bytes) : DynamicTable × ℤ :=
  copyFromExtLoop initialPosition (t.maxSize - 1) 1 s
    (t.put (t.next + initialPosition + t.maxSize) 0)

/-- The loop of `hpack_tables_dynamic_pop`, at offset `i` from `first`: the offset of the second NUL
and the number of characters before it. -/
def popLoop : ℕ → ℕ → ℕ → ℕ → Option (ℕ × ℕ)
  | 0, _, _, _ => none
  | fuel + 1, i, entryLength, counter0 =>
    if t.cell (t.first + i + t.maxSize) = 0 then
      -- the second NUL is the one before the next entry
      if counter0 + 1 = 2 then some (i, entryLength)
      else popLoop fuel (i + 1) entryLength (counter0 + 1)
    else popLoop fuel (i + 1) (entryLength + 1) counter0

/-- `hpack_tables_dynamic_pop`; its return value is never used. -/
def pop : DynamicTable :=
  if t.nEntries = 0 then t
  else
    match t.popLoop (t.maxSize - 1) 1 0 0 with
    | none => t
    | some (i, entryLength) =>
      { t with
        first := (t.first + i + t.maxSize) % t.maxSize
        actualSize := (t.actualSize + 2 ^ 16 - (entryLength + 32)) % 2 ^ 16
        nEntries := t.nEntries - 1 }

/-- `hpack_tables_dynamic_find_entry_name`. -/
def findEntryName (index : ℕ) : Except ℤ Bytes :=
  if t.nEntries < index - 61 then .error compressionError
  else
    let position := t.posOfIndex index
    if position < 0 then .error internalError
    else
      match t.copyToExt position.toNat with
      | none => .error internalError
      | some (name, position) => if position < 0 then .error internalError else .ok name

/-- `hpack_tables_dynamic_find_entry_name_and_value`. -/
def findEntryNameAndValue (index : ℕ) : Except ℤ Header :=
  if t.nEntries < index - 61 then .error compressionError
  else
    let position := t.posOfIndex index
    if position < 0 then .error internalError
    else
      match t.copyToExt position.toNat with
      | none => .error internalError
      | some (name, position) =>
        if position < 0 then .error internalError
        else
          match t.copyToExt position.toNat with
          | none => .error internalError
          | some (value, position) =>
            if position < 0 then .error internalError else .ok (name, value)

/-- Entries are evicted while more than `limit` bytes are accounted for: the eviction loops of
`hpack_tables_dynamic_table_add_entry` and `hpack_tables_dynamic_table_resize`. There are no more
rounds than entries. -/
def evictLoop (limit : ℕ) : ℕ → DynamicTable → DynamicTable
  | 0, t => t
  | fuel + 1, t => if t.actualSize > limit then evictLoop limit fuel t.pop else t

/-- `hpack_tables_dynamic_table_add_entry`: the table and the return value. -/
def addEntry (name value : Bytes) : DynamicTable × ℤ :=
  let entrySize := (name.length + value.length + 32) % 2 ^ 16
  if entrySize > t.maxSize then (t, internalError)
  else
    -- room is made before the name and the value are written
    let t := evictLoop (t.maxSize - entrySize) t.nEntries t
    let (t, continuePos) := t.copyFromExt 0 name
    if continuePos < 0 then (t, continuePos)
    else
      let (t, continuePos) := t.copyFromExt continuePos.toNat value
      if continuePos < 0 then (t, continuePos)
      else
        ({ t with
          nEntries := (t.nEntries + 1) % 2 ^ 16
          actualSize := (t.actualSize + entrySize) % 2 ^ 16
          next := (t.next + continuePos.toNat + t.maxSize) % t.maxSize }, 0)

/-- A loop `for (i = 0; i < n; i++) buffer[to + i] = from(i)`, where `from` may read the buffer. -/
def copyUp (source : (ℕ → UInt8) → ℕ → UInt8) (target : ℕ) : ℕ → (ℕ → UInt8) → (ℕ → UInt8)
  | 0, buffer => buffer
  | n + 1, buffer =>
    let buffer := copyUp source target n buffer
    Function.update buffer (target + n) (source buffer n)

/-- The loop that shifts `buffer[0..next]` by `shift` to the right, from right to left; `i` counts
from `next` down. -/
def copyDown (next shift : ℕ) : ℕ → (ℕ → UInt8) → (ℕ → UInt8)
  | 0, buffer => buffer
  | n + 1, buffer =>
    let buffer := copyDown next shift n buffer
    Function.update buffer (next - n + shift) (buffer (next - n))

/-- The reorganisation of `hpack_tables_dynamic_table_resize`: the entries are moved to the start of
the buffer. -/
def reorganize : DynamicTable :=
  if t.next ≤ t.first then
    -- an empty ring has nothing to move
    if t.nEntries = 0 then { t with first := 0, next := 0 }
    else
      let tail := t.maxSize - t.first
      -- the ring wraps around: the shorter part goes through the auxiliary buffer
      if t.next ≤ tail then
        let aux := t.buffer
        let buffer := copyUp (fun b i => b (i + t.first)) 0 tail t.buffer
        let buffer := copyUp (fun _ i => aux i) tail (t.next + 1) buffer
        { t with first := 0, next := tail + t.next, buffer := buffer }
      else
        let aux := fun i => t.buffer (t.first + i)
        let buffer := copyDown t.next tail (t.next + 1) t.buffer
        let buffer := copyUp (fun _ i => aux i) 0 tail buffer
        { t with first := 0, next := tail + t.next, buffer := buffer }
  else
    -- the entries are in one piece
    let buffer := copyUp (fun b i => b (t.first + i)) 0 (t.next - t.first + 1) t.buffer
    { t with first := 0, next := t.next - t.first, buffer := buffer }

/-- `hpack_tables_dynamic_table_resize`: the table and the return value. -/
def resize (newMaxSize : ℕ) : DynamicTable × ℤ :=
  if newMaxSize > t.settingsMaxTableSize then (t, compressionError)
  else
    let t := evictLoop newMaxSize t.nEntries t
    let t := t.reorganize
    ({ t with maxSize := newMaxSize % 2 ^ 16 }, 0)

/-- `hpack_tables_init_dynamic_table` over a table with arbitrary contents. -/
def init (dynamicTableMaxSize : ℕ) : DynamicTable :=
  { maxSize := dynamicTableMaxSize % 2 ^ 16
    first := 0
    next := 0
    actualSize := 0
    nEntries := 0
    settingsMaxTableSize := dynamicTableMaxSize % 2 ^ 16
    buffer := fun i => if i < dynamicTableMaxSize then 0 else t.buffer i }

/-- The linear search of `hpack_tables_find_index` and `hpack_tables_find_index_name` over the
dynamic table; `hit i` is the comparison made where an entry starts, at distance `i` from `next`.
The counter of strings is 8-bit. -/
def searchLoop (hit : ℕ → Bool) : ℕ → ℕ → ℕ → ℤ
  | 0, _, _ => internalError
  | fuel + 1, i, stringsCounter =>
    let isEnd := t.back i = 0
    let stringsCounter := if isEnd then (stringsCounter + 1) % 2 ^ 8 else stringsCounter
    -- the comparison is made at the NUL before a name
    if isEnd ∧ stringsCounter % 2 = 0 ∧ 0 < stringsCounter ∧ hit i then
      (stringsCounter / 2 : ℕ) + 62 - 1
    else if stringsCounter / 2 ≥ t.nEntries then internalError
    else searchLoop hit fuel (i + 1) stringsCounter

/-- The comparison of `hpack_tables_find_index`: the name, then the value after as many characters
as `name` has and one more. -/
def matchesEntry (name value : Bytes) (i : ℕ) : Bool :=
  t.compareString i 0 name && t.compareString (i - (name.length + 1)) 0 value

/-- The comparison of `hpack_tables_find_index_name`. -/
def matchesName (name : Bytes) (i : ℕ) : Bool := t.compareString i 0 name

end DynamicTable

/-- `hpack_tables_find_entry_name_and_value`. -/
def findEntryNameAndValue (t : DynamicTable) (index : ℕ) : Except ℤ Header :=
  if index ≥ 62 then t.findEntryNameAndValue index
  else .ok (staticName (index - 1), staticValue (index - 1))

/-- `hpack_tables_find_entry_name`. -/
def findEntryName (t : DynamicTable) (index : ℕ) : Except ℤ Bytes :=
  if index ≥ 62 then t.findEntryName index
  else .ok (staticName (index - 1))

/-- The static part of `hpack_tables_find_index` and `hpack_tables_find_index_name`: the first of
the 62 strings pairs scanned that satisfies `hit`. -/
def staticSearch (hit : ℕ → Bool) : Option ℕ := (List.range 62).find? hit

/-- `hpack_tables_find_index`. -/
def findIndex (t : DynamicTable) (name value : Bytes) : ℤ :=
  match staticSearch fun i => staticName i == name && staticValue i == value with
  | some i => i + 1
  | none => t.searchLoop (t.matchesEntry name value) t.maxSize 1 0

/-- `hpack_tables_find_index_name`. -/
def findIndexName (t : DynamicTable) (name : Bytes) : ℤ :=
  match staticSearch fun i => staticName i == name with
  | some i => i + 1
  | none => t.searchLoop (t.matchesName name) t.maxSize 1 0

/-- `hpack_dynamic_change_max_size`. -/
def dynamicChangeMaxSize (t : DynamicTable) (incomingMaxTableSize : ℕ) : DynamicTable :=
  if incomingMaxTableSize ≤ http2HeaderTableSize then
    (DynamicTable.resize { t with settingsMaxTableSize := incomingMaxTableSize }
      incomingMaxTableSize).1
  else t

end Two.Hpack
