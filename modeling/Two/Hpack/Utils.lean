import Mathlib.Tactic.Common
import Mathlib.Algebra.Order.Ring.Int
import Two.Base.Bytes
import Two.Base.Conf

/-!
# HPACK integers and preambles

`hpack/utils.c` and the integer coding of `hpack/encoder.c` and `hpack/decoder.c`.

## Main definitions

* `Preamble`: the five kinds of header field representation, with `getPreamble` and
  `findPrefixSize`
* `log128`, `encodedIntegerSize`: the number of bytes of an encoded integer
* `encodeInteger`, `decodeInteger`: the integer coding, with the bytes written and the value read
-/

namespace Two.Hpack

/-- `hpack_preamble_t`. -/
inductive Preamble
  | indexedHeaderField
  | literalHeaderFieldWithIncrementalIndexing
  | literalHeaderFieldWithoutIndexing
  | literalHeaderFieldNeverIndexed
  | dynamicTableSizeUpdate
  deriving DecidableEq, Repr

/-- The value of a preamble: the bits above the prefix of the first byte. -/
def Preamble.toByte : Preamble → UInt8
  | .indexedHeaderField => 128
  | .literalHeaderFieldWithIncrementalIndexing => 64
  | .literalHeaderFieldWithoutIndexing => 0
  | .literalHeaderFieldNeverIndexed => 16
  | .dynamicTableSizeUpdate => 32

/-- `hpack_utils_get_preamble`. -/
def getPreamble (preamble : UInt8) : Preamble :=
  if preamble &&& 128 ≠ 0 then .indexedHeaderField
  else if preamble &&& 64 ≠ 0 then .literalHeaderFieldWithIncrementalIndexing
  else if preamble &&& 32 ≠ 0 then .dynamicTableSizeUpdate
  else if preamble &&& 16 ≠ 0 then .literalHeaderFieldNeverIndexed
  else .literalHeaderFieldWithoutIndexing

/-- `hpack_utils_find_prefix_size`. -/
def findPrefixSize : Preamble → ℕ
  | .indexedHeaderField => 7
  | .literalHeaderFieldWithIncrementalIndexing => 6
  | .dynamicTableSizeUpdate => 5
  | .literalHeaderFieldWithoutIndexing => 4
  | .literalHeaderFieldNeverIndexed => 4

/-- The loop of `hpack_utils_log128`, which ends within four rounds when `x` is at most `2 ^ 28`;
beyond, the shift amount leaves the width of `m`. -/
def log128Loop (x : ℕ) : ℕ → ℕ → ℕ → ℕ
  | 0, n, _ => n
  | fuel + 1, n, m =>
    if m < x then log128Loop x fuel (n + 1) (2 ^ (7 * (n + 1)) % 2 ^ 32)
    else if m = x then n else n - 1

/-- `hpack_utils_log128`. -/
def log128 (x : ℕ) : ℕ := log128Loop x 6 0 1

/-- The largest value of the prefix, `(1u << prefix) - 1u` as an octet. -/
def maxPrefix (prefixSize : ℕ) : ℕ := (2 ^ prefixSize - 1) % 256

/-- `hpack_utils_encoded_integer_size`. -/
def encodedIntegerSize (num prefixSize : ℕ) : ℕ :=
  let p := maxPrefix prefixSize
  if num < p then 1
  else if num = p then 2
  else log128 (num - p) + 2

/-- The continuation bytes of an encoded integer: a 32-bit integer has at most five groups of
seven bits. -/
def encodeIntegerTail : ℕ → ℕ → Bytes
  | 0, _ => []
  | fuel + 1, integer =>
    if integer ≥ 128 then UInt8.ofNat (integer % 128 + 128) :: encodeIntegerTail fuel (integer / 128)
    else [UInt8.ofNat integer]

/-- `hpack_encoder_encode_integer` for a configured `HPACK_MAXIMUM_INTEGER`: the return value and
the bytes written. -/
def encodeIntegerUpTo (maximumInteger integer prefixSize : ℕ) : ℤ × Bytes :=
  if integer > maximumInteger then (-1, [])
  else
    let octetsSize : ℤ := encodedIntegerSize integer prefixSize
    let b0 := maxPrefix prefixSize
    if integer < b0 then
      (octetsSize, [UInt8.ofNat ((integer <<< (8 - prefixSize) % 256) >>> (8 - prefixSize))])
    else (octetsSize, UInt8.ofNat b0 :: encodeIntegerTail 5 (integer - b0))

/-- `hpack_encoder_encode_integer`. -/
def encodeInteger (integer prefixSize : ℕ) : ℤ × Bytes :=
  encodeIntegerUpTo hpackMaximumInteger integer prefixSize

/-- The loop of `hpack_decoder_decode_integer` over the continuation bytes, in 32-bit arithmetic.
A byte outside of the region counts as zero. -/
def decodeIntegerTail (maximumInteger : ℕ) : Bytes → ℕ → ℕ → ℤ
  | [], integer, _ => if integer > maximumInteger then -1 else integer
  | bi :: bytes, integer, depth =>
    let weight := 2 ^ depth % 2 ^ 32
    if bi &&& 128 = 0 then
      let integer := (integer + bi.toNat * weight % 2 ^ 32) % 2 ^ 32
      if integer > maximumInteger then -1 else integer
    else
      decodeIntegerTail maximumInteger bytes
        ((integer + bi.toNat % 128 * weight % 2 ^ 32) % 2 ^ 32) (depth + 7)

/-- `hpack_decoder_decode_integer` for a configured `HPACK_MAXIMUM_INTEGER` of at least 256. -/
def decodeIntegerUpTo (maximumInteger : ℕ) (bytes : Bytes) (prefixSize : ℕ) : ℤ :=
  let b0 := ((bytes.getD 0 0).toNat <<< (8 - prefixSize) % 256) >>> (8 - prefixSize)
  let p := 255 >>> (8 - prefixSize)
  if b0 ≠ p then b0 else decodeIntegerTail maximumInteger bytes.tail p 0

/-- `hpack_decoder_decode_integer`. -/
def decodeInteger (bytes : Bytes) (prefixSize : ℕ) : ℤ :=
  decodeIntegerUpTo hpackMaximumInteger bytes prefixSize

end Two.Hpack
