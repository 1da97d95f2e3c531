/-
Duckcoin.Serialize — the storage encoding of `CBreadcrumbs`:
`CalcMaskSize`, `GetSerializeSize`, `Serialize` and `Unserialize`
(coins.h, coins.cpp).

The format is `VARINT(nVersion)`, `VARINT(nCode)`, the unspentness
bitmask for `vout[2..]` (least significant byte first, only up to the last
non-zero byte), every unspent output through `CTxOutCompressor`, and
`VARINT(nHeight)`. `nCode` packs the coinbase flag (bit 0), whether
outputs 0 and 1 are unspent (bits 1 and 2) and, above them, the number `N`
of non-zero bitmask bytes, stored as `N - 1` when bits 1 and 2 are both
clear.

Translation notes. The stream is a `List UInt8`; a writer appends, a
reader takes bytes from the front and returns what is left, or `none`
where the C++ stream would throw. `VARINT` (serialize.h) and
`CTxOutCompressor` (compressor.h) are not part of this source tree: they
are the parameters `Codecs`, each a writer, a reader and a size. A failed
`assert` is `none`. `unsigned int` counters are `Nat`. The loops over
output indices read a slot past the end of `vout` as null (`outAt`), so
the bounds `i < 8 && 2+b*8+i < vout.size()` become `i < 8`; the outer loop
of `CalcMaskSize` runs over the `b` with `2+b*8 < vout.size()`, which are
the `b < maskBytesBound vout.size()`.
-/
import Duckcoin.Breadcrumbs

namespace Duckcoin

/-- A serializer of one kind of value: what `::Serialize` appends, what `::Unserialize` reads
back from the front of a stream, and `::GetSerializeSize`. -/
structure Codec (α : Type) where
  write : α → List UInt8
  read : List UInt8 → Option (α × List UInt8)
  size : α → Nat

/-- The external serializers `CBreadcrumbs` calls: `VARINT` of an `int`, `VARINT` of an
`unsigned int`, and `CTxOutCompressor`. -/
structure Codecs where
  varInt : Codec Int
  varUInt : Codec Nat
  txOutCompressor : Codec TxOut

/-- `(chAvail & (1 << p)) != 0`. -/
def testBit8 (chAvail : UInt8) (p : Nat) : Bool := chAvail &&& ((1 : UInt8) <<< p.toUInt8) != 0

/-- Byte `b` of the bitmask as `Serialize` builds it: `chAvail |= (1 << i)` for every
available output `2+b*8+i`. -/
def maskByte (vout : List (Option TxOut)) (b : Nat) : UInt8 :=
  (List.range 8).foldl (fun chAvail i =>
    if (outAt vout (2 + b * 8 + i)).isSome then chAvail ||| ((1 : UInt8) <<< i.toUInt8)
    else chAvail) 0

/-- The inner loop of `CalcMaskSize`: `fZero`, no output of byte `b` is available. -/
def maskByteZero (vout : List (Option TxOut)) (b : Nat) : Bool :=
  (List.range 8).all fun i => (outAt vout (2 + b * 8 + i)).isNone

/-- How many bytes `b` the outer loop of `CalcMaskSize` visits: those with `2+b*8 < n`. -/
def maskBytesBound (n : Nat) : Nat := (n + 5) / 8

theorem lt_maskBytesBound_iff (b n : Nat) : b < maskBytesBound n ↔ 2 + b * 8 < n := by
  unfold maskBytesBound; omega

namespace CBreadcrumbs

/-- `CalcMaskSize(nBytes, nNonzeroBytes)`: adds to `nBytes` one plus the index of the last
non-zero bitmask byte, and to `nNonzeroBytes` the number of non-zero bytes. -/
def calcMaskSize (r : CBreadcrumbs) (nBytes nNonzeroBytes : Nat) : Nat × Nat :=
  let (nLastUsedByte, nNonzeroBytes) :=
    (List.range (maskBytesBound r.vout.length)).foldl
      (fun (acc : Nat × Nat) b => if maskByteZero r.vout b then acc else (b + 1, acc.2 + 1))
      (0, nNonzeroBytes)
  (nBytes + nLastUsedByte, nNonzeroBytes)

/-- `fFirst`: `vout.size() > 0 && !vout[0].IsNull()`. -/
def fFirst (r : CBreadcrumbs) : Bool := (outAt r.vout 0).isSome

/-- `fSecond`: `vout.size() > 1 && !vout[1].IsNull()`. -/
def fSecond (r : CBreadcrumbs) : Bool := (outAt r.vout 1).isSome

/-- `nCode`, as `GetSerializeSize` and `Serialize` compute it from `nMaskCode`. -/
def headerCode (r : CBreadcrumbs) (nMaskCode : Nat) : Nat :=
  8 * (nMaskCode - (if r.fFirst || r.fSecond then 0 else 1)) +
    (if r.fBreadcrumbBase then 1 else 0) + (if r.fFirst then 2 else 0) +
    (if r.fSecond then 4 else 0)

/-- The assertion of `GetSerializeSize` and `Serialize`: `fFirst || fSecond || nMaskCode`. -/
def serializable (r : CBreadcrumbs) : Bool :=
  r.fFirst || r.fSecond || (r.calcMaskSize 0 0).2 != 0

/-- What `Serialize` writes before the outputs: `VARINT(nVersion)`, `VARINT(nCode)` and the
`nMaskSize` bitmask bytes. -/
def headerBytes (cs : Codecs) (r : CBreadcrumbs) : List UInt8 :=
  let (nMaskSize, nMaskCode) := r.calcMaskSize 0 0
  cs.varInt.write r.nVersion ++ cs.varUInt.write (r.headerCode nMaskCode) ++
    (List.range nMaskSize).map (maskByte r.vout)

/-- `Serialize`: the header, each unspent output through `CTxOutCompressor` in index order,
then `VARINT(nHeight)`; `none` when the assertion fails. -/
def serialize (cs : Codecs) (r : CBreadcrumbs) : Option (List UInt8) :=
  if r.serializable then
    some (r.headerBytes cs ++ (r.vout.filterMap id).flatMap cs.txOutCompressor.write ++
      cs.varInt.write r.nHeight)
  else none

end CBreadcrumbs

/-- The bitmask loop of `Unserialize`: read a byte, push its eight bits to `vAvail`, and count
it when it is non-zero, until `nMaskCode` non-zero bytes have been read. -/
def readMask : Nat → List Bool → List UInt8 → Option (List Bool × List UInt8)
  | 0, vAvail, s => some (vAvail, s)
  | _ + 1, _, [] => none
  | nMaskCode + 1, vAvail, chAvail :: s =>
    readMask (if chAvail != 0 then nMaskCode else nMaskCode + 1)
      (vAvail ++ (List.range 8).map (testBit8 chAvail)) s

/-- The output loop of `Unserialize`: a null output where `vAvail` is false, one read through
`CTxOutCompressor` where it is true. -/
def readOutputs (c : Codec TxOut) :
    List Bool → List UInt8 → Option (List (Option TxOut) × List UInt8)
  | [], s => some ([], s)
  | false :: vAvail, s => (readOutputs c vAvail s).map fun (vout, s) => (none :: vout, s)
  | true :: vAvail, s => do
    let (o, s) ← c.read s
    let (vout, s) ← readOutputs c vAvail s
    pure (some o :: vout, s)

/-- The first half of `Unserialize`: `nVersion`, `nCode`, and the availability bits of the
outputs (`vAvail`), read from the bitmask. -/
def unserializeHeader (cs : Codecs) (s : List UInt8) :
    Option (Int × Nat × List Bool × List UInt8) := do
  let (nVersion, s) ← cs.varInt.read s
  let (nCode, s) ← cs.varUInt.read s
  let nMaskCode := nCode / 8 + (if nCode &&& 6 != 0 then 0 else 1)
  let (vAvail, s) ← readMask nMaskCode [nCode &&& 2 != 0, nCode &&& 4 != 0] s
  pure (nVersion, nCode, vAvail, s)

/-- `Unserialize`: the header, the outputs `vAvail` marks, `nHeight`, then `Cleanup`. -/
def unserialize (cs : Codecs) (s : List UInt8) : Option (CBreadcrumbs × List UInt8) := do
  let (nVersion, nCode, vAvail, s) ← unserializeHeader cs s
  let (vout, s) ← readOutputs cs.txOutCompressor vAvail s
  let (nHeight, s) ← cs.varInt.read s
  pure (CBreadcrumbs.cleanup ⟨nCode &&& 1 != 0, vout, nHeight, nVersion⟩, s)

end Duckcoin
