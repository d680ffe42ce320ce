import Two.Hpack.Huffman
import Two.Hpack.Tables
import Two.Hpack.Utils

/-!
# The HPACK decoder

`hpack/decoder.c`. A pointer into the header block is the region from there to the end of the
memory that holds it, so a read behind the block sees the bytes that lie there.

## Main definitions

* `readBitsFromBytes`: bits at a bit offset, as a number
* `decodeHuffmanString`, `decodeNonHuffmanString`, `decodeString`: string literals, with the bytes
  written to the output
* `EncodedHeader`, `parseEncodedHeader`: one representation as parsed from the block
* `checkErrors`, `decodeHeader`: its checks and its effect on the table
* `bufferString`: the string in one of the two buffers, which need not end there
* `decode`: a header block
-/

namespace Two.Hpack

/-- The middle bytes of `hpack_decoder_read_bits_from_bytes`, appended to `code`. -/
def readMiddleBytes (buffer : Bytes) (byteOffset code : ℕ) : ℕ → ℕ
  | 0 => code
  | n + 1 =>
    (readMiddleBytes buffer byteOffset code n <<< 8 % 2 ^ 32) |||
      (buffer.getD (n + 1 + byteOffset) 0).toNat

/-- `hpack_decoder_read_bits_from_bytes`. -/
def readBitsFromBytes (currentBitPointer numberOfBitsToRead : ℕ) (buffer : Bytes) : ℕ :=
  let byteOffset := currentBitPointer / 8
  let bitOffset := currentBitPointer - 8 * byteOffset
  let numBytes := (numberOfBitsToRead + currentBitPointer - 1) / 8 - currentBitPointer / 8 + 1
  let firstByteMask := 255 >>> bitOffset
  let code := firstByteMask &&& (buffer.getD byteOffset 0).toNat
  let lastBitOffset := 8 * (numBytes + byteOffset) - (currentBitPointer + numberOfBitsToRead)
  if numBytes = 1 then code >>> lastBitOffset
  else
    let code := readMiddleBytes buffer byteOffset code (numBytes - 2)
    let lastByteMask := 255 <<< lastBitOffset % 256
    let lastByte :=
      (lastByteMask &&& (buffer.getD (byteOffset + numBytes - 1) 0).toNat) >>> lastBitOffset
    (code <<< (8 - lastBitOffset) % 2 ^ 32) ||| lastByte

/-- `hpack_decoder_check_huffman_padding`. -/
def checkHuffmanPadding (bitsLeft : ℕ) (encodedBuffer : Bytes) (strLength : ℕ) : ℤ :=
  let lastByte := (encodedBuffer.getD (strLength - 1) 0).toNat
  if bitsLeft < 8 then
    let mask := 2 ^ bitsLeft - 1
    if lastByte &&& mask = mask then 0 else compressionError
  else compressionError

/-- `hpack_decoder_decode_huffman_word`: the return value, and the symbol when one is written. -/
def decodeHuffmanWord (encodedString : Bytes) (encodedStringSize bitPosition : ℕ) :
    ℤ × Option UInt8 :=
  let length := 30
  let bitsLeft := (8 * encodedStringSize + 256 - bitPosition % 256) % 256
  let finish := fun (result : ℕ) =>
    match huffmanDecode result with
    | some (bitSize, sym) => ((bitSize : ℤ), some sym)
    | none => (checkHuffmanPadding bitsLeft encodedString encodedStringSize, none)
  if bitPosition + length > 8 * encodedStringSize then
    -- fewer than thirty bits are left: no code word has less than five
    if bitsLeft < 5 then (checkHuffmanPadding bitsLeft encodedString encodedStringSize, none)
    else
      -- the window is filled up with ones
      let numberOfPaddingBits := length - bitsLeft
      let padding := 2 ^ numberOfPaddingBits - 1
      let result := readBitsFromBytes bitPosition bitsLeft encodedString
      finish (result <<< numberOfPaddingBits % 2 ^ 32 ||| padding)
  else finish (readBitsFromBytes bitPosition length encodedString)

/-- The loop of `hpack_decoder_decode_huffman_string`: zero or the error, and the symbols written.
Every round but the last consumes at least five bits. -/
def decodeHuffmanLoop (strLength : ℕ) (encodedString : Bytes) (encodedStrLength : ℕ) :
    ℕ → ℕ → ℕ → ℤ × Bytes
  | 0, _, _ => (0, [])
  | fuel + 1, i, bitPosition =>
    if (bitPosition - 1) / 8 < encodedStrLength then
      if strLength < i then (memoryError, [])
      else
        let (wordLength, sym) := decodeHuffmanWord encodedString encodedStrLength bitPosition
        -- zero stands for the padding at the end
        if wordLength = 0 then (0, [])
        else if wordLength < 0 then (wordLength, [])
        else
          let (rc, s) := decodeHuffmanLoop strLength encodedString encodedStrLength fuel
            ((i + 1) % 2 ^ 16) ((bitPosition + wordLength.toNat) % 2 ^ 16)
          (rc, sym.toList ++ s)
    else (0, [])

/-- `hpack_decoder_decode_huffman_string`: the return value and the bytes written to `str`. -/
def decodeHuffmanString (strLength : ℕ) (encodedString : Bytes) (encodedStrLength : ℕ) :
    ℤ × Bytes :=
  let (rc, s) := decodeHuffmanLoop strLength encodedString encodedStrLength
    (8 * encodedStrLength + 1) 0 0
  if rc < 0 then (rc, s) else (encodedStrLength + encodedIntegerSize encodedStrLength 7, s)

/-- `hpack_decoder_decode_non_huffman_string`: the return value and the bytes written to `str`. -/
def decodeNonHuffmanString (strLength : ℕ) (encodedString : Bytes) (encodedStrLength : ℕ) :
    ℤ × Bytes :=
  if encodedStrLength > strLength then (memoryError, [])
  else
    (encodedStrLength + encodedIntegerSize encodedStrLength 7, encodedString.take encodedStrLength)

/-- `hpack_decoder_decode_string`. -/
def decodeString (strLength : ℕ) (encodedBuffer : Bytes) (encodedBufferLength : ℕ)
    (huffmanBit : Bool) : ℤ × Bytes :=
  if huffmanBit then decodeHuffmanString strLength encodedBuffer encodedBufferLength
  else decodeNonHuffmanString strLength encodedBuffer encodedBufferLength

/-- `hpack_encoded_header_t`. The strings are the regions their pointers point to. -/
structure EncodedHeader where
  preamble : Preamble
  index : ℕ := 0
  dynamicTableSize : ℕ := 0
  nameLength : ℕ := 0
  nameString : Bytes := []
  huffmanBitOfName : Bool := false
  valueLength : ℕ := 0
  valueString : Bytes := []
  huffmanBitOfValue : Bool := false

/-- `get_huffman_bit`. -/
def getHuffmanBit (num : UInt8) : Bool := 128 &&& num ≠ 0

/-- One string literal of a representation: its Huffman bit, length and bytes, and the position
after it. -/
def parseString (headerBlock : Bytes) (headerSize pointer : ℕ) :
    Option (Bool × ℕ × Bytes × ℕ) :=
  let region := headerBlock.drop pointer
  let huffmanBit := getHuffmanBit (region.getD 0 0)
  let length := decodeInteger region 7
  if length < 0 then none
  else
    let length := length.toNat
    let pointer := pointer + encodedIntegerSize length 7
    if pointer > headerSize then none
    else if pointer + length > headerSize then none
    else some (huffmanBit, length, headerBlock.drop pointer, pointer + length)

/-- `hpack_decoder_parse_encoded_header`: `none` is `HPACK_COMPRESSION_ERROR`, its only error. -/
def parseEncodedHeader (headerBlock : Bytes) (headerSize : ℕ) : Option (EncodedHeader × ℕ) :=
  let preamble := getPreamble (headerBlock.getD 0 0)
  let prefixSize := findPrefixSize preamble
  let index := decodeInteger headerBlock prefixSize
  if index < 0 then none
  else
    let index := index.toNat
    let pointer := encodedIntegerSize index prefixSize
    -- an index alone, or a new table size, is a whole representation
    if preamble = .indexedHeaderField then some ({ preamble, index }, pointer)
    else if preamble = .dynamicTableSizeUpdate then
      some ({ preamble, dynamicTableSize := index % 2 ^ 16 }, pointer)
    else if pointer > headerSize then none
    else if index = 0 then
      -- a new name stands before the value
      match parseString headerBlock headerSize pointer with
      | none => none
      | some (huffmanBitOfName, nameLength, nameString, pointer) =>
        match parseString headerBlock headerSize pointer with
        | none => none
        | some (huffmanBitOfValue, valueLength, valueString, pointer) =>
          some ({ preamble, index, nameLength, nameString, huffmanBitOfName, valueLength,
                  valueString, huffmanBitOfValue }, pointer)
    else
      match parseString headerBlock headerSize pointer with
      | none => none
      | some (huffmanBitOfValue, valueLength, valueString, pointer) =>
        some ({ preamble, index, valueLength, valueString, huffmanBitOfValue }, pointer)

/-- `hpack_check_eos_symbol`: whether thirty consecutive ones occur at some bit position. -/
def checkEosSymbol (encodedBuffer : Bytes) (bufferLength : ℕ) : Bool :=
  (List.range (8 * bufferLength - 29)).any fun bitPosition =>
    readBitsFromBytes bitPosition 30 encodedBuffer &&& 0x3fffffff = 0x3fffffff

/-- `hpack_decoder_check_errors`: whether it returns an error, which is always
`HPACK_COMPRESSION_ERROR`. String lengths are passed on as 8-bit numbers. -/
def checkErrors (h : EncodedHeader) : Bool :=
  if h.preamble = .indexedHeaderField then h.index = 0
  else if h.preamble = .dynamicTableSizeUpdate then h.dynamicTableSize > hpackMaximumInteger
  else
    (h.index = 0 ∧ h.nameLength ≥ 4 ∧ checkEosSymbol h.nameString (h.nameLength % 256)) ∨
      (h.valueLength ≥ 4 ∧ checkEosSymbol h.valueString (h.valueLength % 256))

/-- What the memory behind `tmp_name` and behind `tmp_value` holds when the strings of the
representation at a position of the block are read. Nothing is assumed of it. -/
abbrev Behind := ℕ → Bytes × Bytes

/-- Zeroes behind the buffers. -/
def zeroBehind : Behind := fun _ => ([0], [0])

/-- The C string in a zeroed buffer of `size` cells, to which `s` was written, with `behind` after
its end. A string without NUL that fills the buffer is read on there. -/
def bufferString (size : ℕ) (behind s : Bytes) : Bytes :=
  cstr (s.take size ++ List.replicate (size - s.length) 0 ++ behind)

/-- A string that leaves room for a NUL, or has one in it, ends in the buffer. -/
theorem bufferString_eq {size : ℕ} {s : Bytes} (h : s.length < size ∨ 0 ∈ s.take size)
    (behind : Bytes) : bufferString size behind s = cstr s := by
  rw [bufferString]
  by_cases hmem : 0 ∈ s.take size
  · rw [List.append_assoc, cstr_append_of_mem hmem, ← cstr_append_of_mem hmem (s.drop size),
      List.take_append_drop]
  · -- there is room for a NUL behind the whole string
    have hlt := h.resolve_right hmem
    rw [List.take_of_length_le hlt.le] at hmem ⊢
    obtain ⟨n, hn⟩ : ∃ n, size - s.length = n + 1 := ⟨size - s.length - 1, by omega⟩
    rw [hn, List.replicate_succ, List.append_assoc, List.cons_append, cstr_append_zero hmem,
      cstr_of_nulFree hmem]

/-- `hpack_decoder_decode_literal_header_field`: the table, and the error or the strings in
`tmp_name` and `tmp_value`. -/
def decodeLiteralHeaderField (behind : Bytes × Bytes) (t : DynamicTable) (h : EncodedHeader) :
    DynamicTable × Except ℤ Header :=
  let name : Except ℤ Bytes :=
    if h.index = 0 then
      let (rc, s) := decodeString hpackHeaderNameLen h.nameString h.nameLength h.huffmanBitOfName
      if rc < 0 then .error rc else .ok (bufferString hpackHeaderNameLen behind.1 s)
    else findEntryName t h.index
  match name with
  | .error rc => (t, .error rc)
  | .ok name =>
    let (rc, s) := decodeString hpackHeaderValueLen h.valueString h.valueLength h.huffmanBitOfValue
    if rc < 0 then (t, .error rc)
    else
      let value := bufferString hpackHeaderValueLen behind.2 s
      if h.preamble = .literalHeaderFieldWithIncrementalIndexing then
        let (t, rc) := t.addEntry name value
        if rc < 0 then (t, .error rc) else (t, .ok (name, value))
      else (t, .ok (name, value))

/-- `hpack_decoder_decode_header`: the table, and the error or the strings in `tmp_name` and
`tmp_value`, which stay empty after a size update. -/
def decodeHeader (behind : Bytes × Bytes) (t : DynamicTable) (h : EncodedHeader) :
    DynamicTable × Except ℤ Header :=
  if h.preamble = .indexedHeaderField then (t, findEntryNameAndValue t h.index)
  else if h.preamble = .dynamicTableSizeUpdate then
    let (t, rc) := t.resize h.dynamicTableSize
    if rc < 0 then (t, .error rc) else (t, .ok ([], []))
  else decodeLiteralHeaderField behind t h

/-- What `hpack_decode` returns and leaves behind, with the calls of `header_list_add` it made. -/
structure DecodeResult where
  rc : ℤ
  table : DynamicTable
  headers : HeaderList
  added : List Header

/-- The loop of `hpack_decoder_decode` at `pointer`. Every round consumes a byte. -/
def decodeLoop (behind : Behind) (headerBlock : Bytes) (headerBlockSize : ℕ) :
    ℕ → ℕ → Bool → DynamicTable → HeaderList → List Header → DecodeResult
  | 0, pointer, _, t, headers, added => ⟨pointer, t, headers, added⟩
  | fuel + 1, pointer, canReceiveSizeUpdate, t, headers, added =>
    if pointer < headerBlockSize then
      match parseEncodedHeader (headerBlock.drop pointer) (headerBlockSize - pointer) with
      | none => ⟨compressionError, t, headers, added⟩
      | some (h, bytesRead) =>
        let isUpdate := h.preamble = .dynamicTableSizeUpdate
        if isUpdate ∧ canReceiveSizeUpdate = false then ⟨compressionError, t, headers, added⟩
        else if checkErrors h then ⟨compressionError, t, headers, added⟩
        else
          match decodeHeader (behind pointer) t h with
          | (t, .error rc) => ⟨rc, t, headers, added⟩
          | (t, .ok (name, value)) =>
            if name ≠ [] ∧ value ≠ [] then
              match headers.add name value with
              | none => ⟨-1, t, headers, added ++ [(name, value)]⟩
              | some headers =>
                decodeLoop behind headerBlock headerBlockSize fuel (pointer + bytesRead)
                  (canReceiveSizeUpdate && isUpdate) t headers (added ++ [(name, value)])
            else
              decodeLoop behind headerBlock headerBlockSize fuel (pointer + bytesRead)
                (canReceiveSizeUpdate && isUpdate) t headers added
    else if pointer > headerBlockSize then ⟨internalError, t, headers, added⟩
    else ⟨pointer, t, headers, added⟩

/-- `hpack_decode`. -/
def decode (behind : Behind) (t : DynamicTable) (headerBlock : Bytes) (headerBlockSize : ℕ)
    (headers : HeaderList) : DecodeResult :=
  decodeLoop behind headerBlock headerBlockSize (headerBlockSize + 1) 0 true t headers []

end Two.Hpack
