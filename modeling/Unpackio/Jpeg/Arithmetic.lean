/-
The arithmetic decoder of WinZip JPEG, from `decode/winzip_jpeg.rs`.

Unsigned numbers are natural numbers and signed ones are integers, and each checked
operation is bounded by its width.  The logarithms of `winzip_jpeg_tables.rs` are a
parameter.
-/
import Mathlib.Data.Nat.Log
import Unpackio.Filter.Words
import Unpackio.Foundation.Keeps

namespace Unpackio
namespace Jpeg

open Unpackio.Filter (wrappingShl)

def signed (size : Nat) (value : Int) : Option Int :=
  if -2 ^ (size - 1) ≤ value ∧ value < 2 ^ (size - 1) then some value else none

def logP : List Int :=
  [1024, 895, 795, 706, 628, 559, 493, 437, 379, 331, 287, 247, 212, 186, 158, 143, 127, 110, 98,
    84, 72, 65, 59, 53, 48, 45, 42, 40, 37, 35, 33, 30, 28, 26, 23, 21, 19, 17, 15, 13, 11, 9, 7,
    5, 4, 3, 2, 1, 1024]

def logQp : List Int :=
  [0, 272, 502, 726, 941, 1150, 1371, 1578, 1819, 2044, 2278, 2521, 2765, 2971, 3227, 3382, 3566,
    3788, 3965, 4200, 4435, 4590, 4737, 4899, 5050, 5147, 5250, 5325, 5441, 5527, 5617, 5758, 5863,
    5976, 6157, 6295, 6447, 6616, 6806, 7024, 7278, 7585, 7972, 8495, 8884, 9309, 10065, 11689, 0]

def nMaxLp : List Int :=
  [16384, 16110, 15105, 14826, 14444, 13975, 13804, 13547, 13265, 13240, 12915, 12844, 12720,
    12648, 12482, 12441, 12319, 12320, 12250, 12180, 12168, 12155, 12154, 12084, 12096, 12105,
    12096, 12080, 12062, 12075, 12078, 12060, 12068, 12090, 12075, 12075, 12103, 12121, 12150,
    12181, 12221, 12294, 12411, 12615, 13120, 13113, 14574, 21860, 0]

def halfI : List Nat :=
  [8, 8, 7, 7, 7, 6, 6, 6, 6, 6, 6, 6, 6, 6, 6, 6, 6, 6, 6, 8, 9, 10, 10, 10, 10, 10, 10, 9, 9, 8,
    8, 7, 7, 6, 6, 6, 5, 5, 4, 4, 3, 3, 3, 3, 2, 2, 1, 0, 0]

def dblI : List Nat :=
  [0, 1, 2, 3, 4, 5, 6, 7, 8, 7, 7, 6, 6, 6, 6, 6, 6, 6, 6, 6, 6, 6, 6, 6, 6, 7, 8, 8, 9, 9, 10,
    10, 10, 10, 10, 10, 9, 8, 7, 6, 6, 5, 4, 3, 3, 3, 2, 1, 0]

def tableI32 (table : List Int) (index : Nat) : Except Error Int :=
  okOr table[index]? (formatError "WinZip JPEG probability index is out of range")

/-- `ANTILOG_TABLE` and `LOG_TABLE`. -/
structure LogTables where
  antilog : Vector UInt16 1024
  log : Vector UInt16 4096

section

variable (tables : LogTables)

def wholeLog (high : Nat) : Except Error Int :=
  if high < 512 then do
    let floorLog ← okOr (checkedSub 31 (31 - Nat.log 2 high))
      (formatError "WinZip JPEG logarithm underflows")
    let floorLog ← okOr (signed 32 floorLog)
      (formatError "WinZip JPEG logarithm is not representable")
    okOr (signed 32 (8 - floorLog)) (formatError "WinZip JPEG logarithm underflows")
  else return 0

def logX (value : Nat) : Except Error Int :=
  let high := value >>> 12
  if high = 0 then return 0x2000
  else do
    let whole ← wholeLog high
    let shift ← okOr (signed 32 (8 - whole)) (formatError "WinZip JPEG logarithm shift underflows")
    let shifted := if 0 ≤ shift then value >>> shift.toNat else wrappingShl value shift.natAbs
    let fraction ← okOr tables.log[shifted &&& 0xfff]?
      (formatError "WinZip JPEG logarithm index is out of range")
    okOr (signed 32 (whole * 2 ^ 10 - fraction.toNat))
      (formatError "WinZip JPEG logarithm overflows")

def antilogX (lr : Int) : Except Error Nat := do
  let whole := lr / 2 ^ 10
  let value ← okOr tables.antilog[(lr % 2 ^ 10).toNat]?
    (formatError "WinZip JPEG antilogarithm index is out of range")
  let shift ← okOr (signed 32 (7 - whole))
    (formatError "WinZip JPEG antilogarithm shift underflows")
  if 0 ≤ shift then
    okOr (checkedShl 32 value.toNat shift.natAbs)
      (formatError "WinZip JPEG antilogarithm overflows")
  else return value.toNat >>> shift.natAbs

end

structure Bin where
  index : Nat
  dlrm : Int
  mps : Nat
  k : Nat
  deriving DecidableEq, Repr

namespace Bin

def adaptive : Bin := { index := 0, dlrm := 16384, mps := 0, k := 0 }

def fixed : Bin := { index := 48, dlrm := 16384, mps := 0, k := 0 }

def halfIndex (index : Nat) : Except Error Nat := do
  let half ← okOr halfI[index]? (formatError "WinZip JPEG probability index is out of range")
  okOr (checkedAdd index half) (formatError "WinZip JPEG probability index overflows")

/-- The further way of a bin that has not seen the other symbol for long. -/
def skipAhead (bin : Bin) (index : Nat) : Except Error Nat :=
  if bin.k ≤ 1 then do
    let index ← halfIndex index
    if bin.k = 0 then halfIndex index else return index
  else return index

def qSmaller (bin : Bin) : Except Error Bin :=
  if 47 ≤ bin.index then return bin
  else do
    let index ← okOr (checkedAdd bin.index 1)
      (formatError "WinZip JPEG probability index overflows")
    let index ← bin.skipAhead index
    rejectIf (47 < index) (formatError "WinZip JPEG probability index exceeds its adaptive range")
    return { bin with index := index }

def decrementIndex (index saved : Nat) : Except Error (Nat × Nat) :=
  if 0 < index then do
    let index ← okOr (checkedSub index 1) (formatError "WinZip JPEG probability index underflows")
    return (index, saved)
  else do
    let saved ← okOr (checkedAdd saved 1)
      (formatError "WinZip JPEG probability adjustment overflows")
    return (index, saved)

def doubleIndex (index saved : Nat) : Except Error (Nat × Nat) := do
  let delta ← okOr dblI[index]? (formatError "WinZip JPEG probability index is out of range")
  if 0 < index then do
    let index ← okOr (checkedSub index delta)
      (formatError "WinZip JPEG probability index underflows")
    return (index, saved)
  else do
    let saved ← okOr (checkedAdd saved delta)
      (formatError "WinZip JPEG probability adjustment overflows")
    return (index, saved)

def stepIf (condition : Prop) [Decidable condition] (step : Nat → Nat → Except Error (Nat × Nat))
    (index saved : Nat) : Except Error (Nat × Nat) :=
  if condition then step index saved else return (index, saved)

/-- The distance that `q_bigger` goes on with, and the index and what is saved. -/
def enlarge (maximum dlrm : Int) (index : Nat) : Except Error (Int × Nat × Nat) :=
  if maximum.tdiv 2 ≤ dlrm then do
    let dlrm ← okOr (signed 32 (maximum - dlrm))
      (formatError "WinZip JPEG adaptation distance is invalid")
    let (index, saved) ← stepIf (dlrm ≤ maximum.tdiv 4) doubleIndex index 0
    let (index, saved) ← doubleIndex index saved
    return (dlrm, index, saved)
  else do
    let (index, saved) ← stepIf (maximum.tdiv 4 ≤ dlrm) decrementIndex index 0
    let (index, saved) ← decrementIndex index saved
    return (dlrm, index, saved)

end Bin

/-! ## The decoder -/

structure Input where
  bytes : List UInt8
  position : Nat
  deriving DecidableEq, Repr

def Input.readByte (input : Input) : Metered (UInt8 × Input) := do
  checkpoint 1
  let value ← okOr input.bytes[input.position]? (formatError "truncated WinZip JPEG stream")
  let position ← okOr (checkedAdd input.position 1)
    (formatError "WinZip JPEG input position overflows")
  return (value, { input with position := position })

structure ArithmeticDecoder where
  input : Input
  currentByte : UInt8
  lastByte : UInt8
  x : Nat
  lr : Int
  lrm : Int
  lx : Int
  deriving DecidableEq, Repr

namespace ArithmeticDecoder

def byteIn (decoder : ArithmeticDecoder) : Metered (UInt8 × ArithmeticDecoder) := do
  let (byte, input) ← decoder.input.readByte
  return (byte, { decoder with
    input := input, lastByte := decoder.currentByte, currentByte := byte })

/-- The byte that follows two full ones is a carry. -/
def carryIn (decoder : ArithmeticDecoder) : Metered ArithmeticDecoder :=
  if decoder.currentByte = 0xff ∧ decoder.lastByte = 0xff then do
    let (byte, decoder) ← decoder.byteIn
    return { decoder with x := (decoder.x + byte.toNat) % 2 ^ 32 }
  else return decoder

/-- One round of the loop of `renormalize`. -/
def shiftIn (decoder : ArithmeticDecoder) : Metered ArithmeticDecoder := do
  let decoder ← decoder.carryIn
  let (byte, next) ← decoder.byteIn
  let lr ← okOr (signed 32 (decoder.lr - 0x2000))
    (formatError "WinZip JPEG arithmetic range underflows")
  let lrm ← okOr (signed 32 (decoder.lrm - 0x2000))
    (formatError "WinZip JPEG arithmetic model range underflows")
  return { next with x := wrappingShl decoder.x 8 ||| byte.toNat, lr := lr, lrm := lrm }

/-- The loop of `renormalize`.  A round takes `0x2000` from the range, which bounds
the rounds. -/
def shiftLoop : Nat → ArithmeticDecoder → Metered ArithmeticDecoder
  | 0, decoder => return decoder
  | rounds + 1, decoder =>
    if 0x1fff < decoder.lr then do
      let decoder ← decoder.shiftIn
      shiftLoop rounds decoder
    else return decoder

section

variable (tables : LogTables)

def new (input : Input) : Metered ArithmeticDecoder := do
  let decoder := { input := input, currentByte := 0, lastByte := 0, x := 0, lr := 0x1001,
                   lrm := 0x1001, lx := 0 }
  let (first, decoder) ← byteIn decoder
  let (second, decoder) ← byteIn decoder
  let x := first.toNat <<< 8 ||| second.toNat
  let lx ← logX tables x
  let decoder := { decoder with x := x, lx := lx }
  if x = 0xffff then do
    let (_, decoder) ← decoder.byteIn
    return decoder
  else return decoder

def renormalize (decoder : ArithmeticDecoder) : Metered ArithmeticDecoder := do
  let decoder ← shiftLoop (decoder.lr / 0x2000).toNat decoder
  let lx ← logX tables decoder.x
  return { decoder with lx := lx }

def lrmBig (decoder : ArithmeticDecoder) : Metered ArithmeticDecoder :=
  if 0x7ff < decoder.lrm then decoder.renormalize tables else return decoder

def flush (decoder : ArithmeticDecoder) : Metered ArithmeticDecoder := do
  let decoder ← decoder.renormalize tables
  if decoder.currentByte = 0xff ∧ decoder.lastByte = 0xff then do
    let (_, decoder) ← decoder.byteIn
    return decoder
  else return decoder

/-- `q_bigger`. -/
def qBigger (decoder : ArithmeticDecoder) (bin : Bin) : Except Error (ArithmeticDecoder × Bin) :=
  if 48 ≤ bin.index then return (decoder, bin)
  else do
    let maximum ← tableI32 nMaxLp bin.index
    let dlrm ← okOr (signed 32 (decoder.lrm - decoder.lr))
      (formatError "WinZip JPEG adaptation distance underflows")
    let (dlrm, index, saved) ← Bin.enlarge maximum dlrm bin.index
    let bin := if index = 0 then { bin with index := saved, mps := bin.mps ^^^ 1 }
      else { bin with index := index }
    rejectIf (48 ≤ bin.index) (formatError "WinZip JPEG probability adaptation is out of range")
    let lrm ← okOr (signed 32 (decoder.lr + dlrm))
      (formatError "WinZip JPEG adapted model range overflows")
    return ({ decoder with lrm := lrm }, bin)

/-- The index of a bin goes on while the other symbol is rare. -/
def adaptMps (bin : Bin) : Except Error Bin := if bin.k ≤ 5 then bin.qSmaller else return bin

def updateMps (decoder : ArithmeticDecoder) (bin : Bin) : Metered (Bin × ArithmeticDecoder) := do
  let bin ← adaptMps bin
  let bin := { bin with k := 0 }
  let maximum ← tableI32 nMaxLp bin.index
  let lrm ← okOr (signed 32 (decoder.lr + maximum)) (formatError "WinZip JPEG MPS range overflows")
  let decoder ← lrmBig tables { decoder with lrm := lrm }
  return (bin, decoder)

def updateLps (decoder : ArithmeticDecoder) (bin : Bin) : Except Error (Bin × ArithmeticDecoder) :=
  do
    let increment ← tableI32 logQp bin.index
    let lr ← okOr (signed 32 (decoder.lr + increment))
      (formatError "WinZip JPEG LPS range overflows")
    let lrm ← okOr (signed 32 (decoder.lrm + increment))
      (formatError "WinZip JPEG LPS model range overflows")
    let decoder := { decoder with lr := lr, lrm := lrm }
    if 11 ≤ bin.k then do
      let (decoder, bin) ← decoder.qBigger bin
      let maximum ← tableI32 nMaxLp bin.index
      let lrm ← okOr (signed 32 (decoder.lr + maximum))
        (formatError "WinZip JPEG adapted range overflows")
      return ({ bin with k := 0 }, { decoder with lrm := lrm })
    else if decoder.lrm < decoder.lr then return (bin, { decoder with lrm := decoder.lr })
    else return (bin, decoder)

/-- The less probable symbol. -/
def takeLps (decoder : ArithmeticDecoder) (bin : Bin) : Except Error (Bin × ArithmeticDecoder) :=
  do
    let k ← okOr (tryFrom 8 (bin.k + 1)) (formatError "WinZip JPEG probability count overflows")
    let below ← antilogX tables decoder.lr
    let x ← okOr (checkedSub decoder.x below)
      (formatError "invalid WinZip JPEG arithmetic code state")
    let lx ← logX tables x
    updateLps { decoder with x := x, lx := lx } { bin with k := k }

/-- What `decode_bit` does once the range has reached the threshold. -/
def exchange (decoder : ArithmeticDecoder) (bin : Bin) :
    Metered (Nat × Bin × ArithmeticDecoder) :=
  if decoder.lr < decoder.lx then do
    let (next, decoder) ← decoder.updateMps tables bin
    return (bin.mps, next, decoder)
  else do
    let decoder ← decoder.renormalize tables
    if decoder.lr < decoder.lx then
      if decoder.lrm ≤ decoder.lr then do
        let (next, decoder) ← decoder.updateMps tables bin
        return (bin.mps, next, decoder)
      else return (bin.mps, bin, decoder)
    else do
      let (next, decoder) ← decoder.takeLps tables bin
      return (bin.mps ^^^ 1, next, decoder)

def settle (decoder : ArithmeticDecoder) (bin : Bin) : Metered (Nat × Bin × ArithmeticDecoder) :=
  if min decoder.lrm decoder.lx ≤ decoder.lr then decoder.exchange tables bin
  else return (bin.mps, bin, decoder)

def decodeBit (decoder : ArithmeticDecoder) (bin : Bin) :
    Metered (Nat × Bin × ArithmeticDecoder) := do
  checkpoint 1
  let lrm ← okOr (signed 32 (decoder.lr + bin.dlrm))
    (formatError "WinZip JPEG arithmetic model range overflows")
  let decoder ← lrmBig tables { decoder with lrm := lrm }
  let step ← tableI32 logP bin.index
  let lr ← okOr (signed 32 (decoder.lr + step))
    (formatError "WinZip JPEG arithmetic range overflows")
  let (bit, bin, decoder) ← settle tables { decoder with lr := lr } bin
  let dlrm ← okOr (signed 32 (decoder.lrm - decoder.lr))
    (formatError "WinZip JPEG probability distance underflows")
  return (bit, { bin with dlrm := dlrm }, decoder)

end

end ArithmeticDecoder

end Jpeg
end Unpackio
