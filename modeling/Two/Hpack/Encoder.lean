import Two.Hpack.Huffman
import Two.Hpack.Tables
import Two.Hpack.Utils

/-!
# The HPACK encoder

`hpack/encoder.c`. The output buffer is addressed from `encoded_buffer`; each function stores bytes
into it and returns the value of the source. The extents of all stores are kept, since a store can
leave the buffer.

## Main definitions

* `OutBuffer`: the output buffer with the extents stored into it
* `packEncodedWordsToBytes`: the bit packing of code words
* `encodeString`: Huffman coding, or the raw string when that is shorter
* `packHeader`, `encodeHeader`, `encode`: the choice of a representation, its bytes, and a whole
  header list
-/

namespace Two.Hpack

/-- The output buffer: its cells, and the extents `(position, length)` of the stores made. -/
structure OutBuffer where
  cell : ℤ → UInt8
  stores : List (ℤ × ℕ)

namespace OutBuffer

/-- A zeroed buffer. -/
def empty : OutBuffer := ⟨fun _ => 0, []⟩

/-- Consecutive bytes are stored from `pos` on. -/
def store (o : OutBuffer) (pos : ℤ) (bs : Bytes) : OutBuffer where
  cell := fun i => if pos ≤ i ∧ i < pos + bs.length then bs.getD (i - pos).toNat 0 else o.cell i
  stores := o.stores ++ [(pos, bs.length)]

/-- The first `n` bytes. -/
def bytes (o : OutBuffer) (n : ℕ) : Bytes := (List.range n).map fun i : ℕ => o.cell i

end OutBuffer

/-- The sum of the lengths of code words, in bits. -/
def bitLength (words : List EncodedWord) : ℕ := (words.map EncodedWord.length).sum

/-- The number of bytes that hold `n` bits. -/
def requiredBytes (n : ℕ) : ℕ := if n % 8 ≠ 0 then n / 8 + 1 else n / 8

/-- The inner loop of `hpack_encoder_pack_encoded_words_to_bytes`: the `codeLength` topmost bits of
the 32-bit `code` are or-ed into the buffer at the 32-bit position `cur`. Every round writes a
bit. -/
def packWordLoop : ℕ → ℕ → ℕ → Bytes × ℕ → Bytes × ℕ
  | 0, _, _, st => st
  | fuel + 1, code, codeLength, (buffer, cur) =>
    if codeLength = 0 then (buffer, cur)
    else
      let byteOffset := cur / 8
      let bitOffset := cur - 8 * byteOffset
      let bitsToWrite := if 8 - bitOffset > codeLength then codeLength else 8 - bitOffset
      let mask := (2 ^ bitsToWrite - 1) <<< (32 - bitsToWrite) % 2 ^ 32
      let bits := (mask &&& code) >>> (32 - (8 - bitOffset))
      let byte := UInt8.ofNat ((buffer.getD byteOffset 0).toNat ||| bits)
      packWordLoop fuel (code <<< bitsToWrite % 2 ^ 32) (codeLength - bitsToWrite)
        (buffer.set byteOffset byte, (cur + bitsToWrite) % 2 ^ 32)

/-- One round of the outer loop: one code word. -/
def packWord (st : Bytes × ℕ) (word : EncodedWord) : Bytes × ℕ :=
  packWordLoop word.length (word.code <<< (32 - word.length) % 2 ^ 32) word.length st

/-- `hpack_encoder_pack_encoded_words_to_bytes`: `none` when the buffer is too small for the 32-bit
sum of the lengths. -/
def packEncodedWordsToBytes (words : List EncodedWord) (buffer : Bytes) : Option Bytes :=
  if requiredBytes (bitLength words % 2 ^ 32) > buffer.length then none
  else
    let (buffer, cur) := words.foldl packWord (buffer, 0)
    let byteOffset := cur / 8
    let bitOffset := cur - 8 * byteOffset
    -- the last byte is filled up with ones
    if bitOffset > 0 then
      let padding := 2 ^ (8 - bitOffset) - 1
      some (buffer.set byteOffset (UInt8.ofNat ((buffer.getD byteOffset 0).toNat ||| padding)))
    else some buffer

/-- `hpack_encoder_encode_non_huffman_string`: `str_length` is a `uint32_t`. -/
def encodeNonHuffmanString (str : Bytes) (o : OutBuffer) (pos : ℤ) (bufferSize : ℕ) :
    ℤ × OutBuffer :=
  let strLength := unsignedLength str
  let (sizeLength, sizeBytes) := encodeInteger strLength 7
  let o := o.store pos sizeBytes
  if sizeLength < 0 then (-1, o)
  else if strLength + sizeLength ≥ bufferSize then (-2, o)
  else (strLength + sizeLength, o.store (pos + sizeLength) (counted str))

/-- `hpack_encoder_encode_huffman_word`: the code words and the 32-bit sum of their lengths. Every
symbol has a code. -/
def encodeHuffmanWord (str : Bytes) : List EncodedWord × ℕ :=
  let words := str.map fun b => (huffmanEncode b).getD ⟨0, 0⟩
  (words, bitLength words % 2 ^ 32)

/-- `hpack_encoder_encode_huffman_string`. What the packing stores outside of `encoded_buffer`, when
the sum of the lengths has wrapped around, is not kept. -/
def encodeHuffmanString (str : Bytes) (o : OutBuffer) (pos : ℤ) (bufferSize : ℕ) :
    ℤ × OutBuffer :=
  -- `str_length` is a `uint32_t`
  let (words, bitLength) := encodeHuffmanWord (counted str)
  let byteLength := requiredBytes bitLength
  let (sizeLength, sizeBytes) := encodeInteger byteLength 7
  let o := o.store pos sizeBytes
  if sizeLength < 0 then (-1, o)
  else if byteLength + sizeLength ≥ bufferSize then (-2, o)
  else
    let packed := (packEncodedWordsToBytes words (List.replicate byteLength 0)).getD
      (List.replicate byteLength 0)
    let o := o.store pos [o.cell pos ||| 128]
    (byteLength + sizeLength, o.store (pos + sizeLength) packed)

/-- `hpack_encoder_encode_string`. -/
def encodeString (str : Bytes) (o : OutBuffer) (pos : ℤ) (bufferSize : ℕ) : ℤ × OutBuffer :=
  let (rc, o) := encodeHuffmanString str o pos bufferSize
  -- the raw string overwrites a Huffman code that failed or is longer
  if rc < 0 ∨ rc > str.length then encodeNonHuffmanString str o pos bufferSize else (rc, o)

/-- The fields of `hpack_encoded_header_t` that the encoder sets. -/
structure PackedHeader where
  preamble : Preamble
  index : ℕ
  deriving DecidableEq, Repr

/-- `hpack_encoder_pack_header`: the representation chosen, and the table after it. -/
def packHeader (t : DynamicTable) (name value : Bytes) : PackedHeader × DynamicTable :=
  let index := findIndex t name value
  if index > 0 then (⟨.indexedHeaderField, index.toNat⟩, t)
  else
    let nameIndex := findIndexName t name
    let index := if nameIndex < 0 then 0 else nameIndex.toNat
    let (t, added) := t.addEntry name value
    -- an entry that is refused is sent without indexing
    if added < 0 then (⟨.literalHeaderFieldNeverIndexed, index⟩, t)
    else (⟨.literalHeaderFieldWithIncrementalIndexing, index⟩, t)

/-- `hpack_encoder_encode_header`, at position `pos` of the buffer. -/
def encodeHeader (h : PackedHeader) (name value : Bytes) (o : OutBuffer) (pos : ℤ)
    (bufferSize : ℕ) : ℤ × OutBuffer :=
  let o := o.store pos [0]
  let attach := fun (o : OutBuffer) => o.store pos [o.cell pos ||| h.preamble.toByte]
  if h.index = 0 then
    -- a new name follows as a string literal
    let (nameSize, o) := encodeString name o (pos + 1) bufferSize
    if nameSize < 0 then (nameSize, o)
    else
      let (valueSize, o) := encodeString value o (pos + 1 + nameSize) bufferSize
      if valueSize < 0 then (valueSize, o) else (1 + nameSize + valueSize, attach o)
  else
    let (indexSize, indexBytes) := encodeInteger h.index (findPrefixSize h.preamble)
    let o := o.store pos indexBytes
    if indexSize < 0 then (compressionError, o)
    else if h.preamble ≠ .indexedHeaderField then
      let (valueSize, o) := encodeString value o (pos + indexSize) bufferSize
      if valueSize < 0 then (valueSize, o) else (indexSize + valueSize, attach o)
    else (indexSize, attach o)

/-- The loop of `hpack_encoder_encode` over the headers. The trace loop counts with a `uint8_t` up
to `rc + pointer`, so it does not end once that sum reaches 256: then there is no result. -/
def encodeLoop (bufferSize : ℕ) : List Header → DynamicTable → OutBuffer → ℤ →
    Option (ℤ × DynamicTable × OutBuffer)
  | [], t, o, pointer => some (pointer, t, o)
  | (name, value) :: hs, t, o, pointer =>
    let (h, t) := packHeader t name value
    let (rc, o) := encodeHeader h name value o pointer bufferSize
    -- a negative size is added to the pointer like any other
    if rc + pointer ≥ 256 then none else encodeLoop bufferSize hs t o (pointer + rc)

/-- `hpack_encode`: the result, the table and the buffer, or `none` when it does not return. -/
def encode (t : DynamicTable) (headers : HeaderList) (o : OutBuffer) (bufferSize : ℕ) :
    Option (ℤ × DynamicTable × OutBuffer) :=
  encodeLoop bufferSize (headers.all.take headers.count.toNat) t o 0

end Two.Hpack
