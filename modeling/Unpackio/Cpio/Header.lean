/-
CPIO record headers, from `cpio.rs`: the two `newc` variants, `odc`, and binary
records in either byte order.
-/
import Unpackio.ParseUtil

namespace Unpackio
namespace Cpio

def cpioFormat (detail : String) : Error := formatError ("CPIO: " ++ detail)

def newcHeaderBytes : Nat := 110

def odcHeaderBytes : Nat := 76

def binaryHeaderBytes : Nat := 26

/-- `070701`. -/
def magicNewc : List UInt8 := [0x30, 0x37, 0x30, 0x37, 0x30, 0x31]

/-- `070702`. -/
def magicCrc : List UInt8 := [0x30, 0x37, 0x30, 0x37, 0x30, 0x32]

/-- `070707`. -/
def magicOdc : List UInt8 := [0x30, 0x37, 0x30, 0x37, 0x30, 0x37]

/-- `07070X`. -/
def magicLarge : List UInt8 := [0x30, 0x37, 0x30, 0x37, 0x30, 0x58]

def binaryMagic : Nat := 0x71c7

/-- `TRAILER!!!`. -/
def trailerName : List UInt8 := [0x54, 0x52, 0x41, 0x49, 0x4c, 0x45, 0x52, 0x21, 0x21, 0x21]

inductive CpioFormat where
  | newc
  | crcNewc
  | odc
  | binaryLittleEndian
  | binaryBigEndian
  | mixed
  deriving DecidableEq, Repr

structure ParsedHeader where
  format : CpioFormat
  headerBytes : Nat
  alignment : Nat
  inode : Nat
  mode : Nat
  uid : Nat
  gid : Nat
  linkCount : Nat
  modifiedTime : Nat
  fileSize : Nat
  deviceMajor : Nat
  deviceMinor : Nat
  rdevMajor : Nat
  rdevMinor : Nat
  nameSize : Nat
  checksum : Option Nat
  deriving DecidableEq, Repr

def hexDigit (byte : UInt8) : Option Nat :=
  if 0x30 ≤ byte.toNat ∧ byte.toNat ≤ 0x39 then checkedSub byte.toNat 0x30
  else if 0x61 ≤ byte.toNat ∧ byte.toNat ≤ 0x66 then
    (checkedSub byte.toNat 0x61).bind fun digit => tryFrom 32 (digit + 10)
  else if 0x41 ≤ byte.toNat ∧ byte.toNat ≤ 0x46 then
    (checkedSub byte.toNat 0x41).bind fun digit => tryFrom 32 (digit + 10)
  else none

def octalDigit (byte : UInt8) : Option Nat :=
  (checkedSub byte.toNat 0x30).filter fun value => value < 8

/-- The digit loop of `hex_u32` and `octal_u64`, on an unsigned number of the
given size. -/
def digitLoop (size base : Nat) (digitOf : UInt8 → Option Nat) (detail : String) :
    List UInt8 → Nat → Except Error Nat
  | [], value => .ok value
  | digit :: digits, value => do
    let digit ← okOr (digitOf digit) (cpioFormat detail)
    let value ← okOr ((tryFrom size (value * base)).bind fun current =>
      tryFrom size (current + digit)) (cpioFormat detail)
    digitLoop size base digitOf detail digits value

def hexU32 (bytes : List UInt8) (offset : Nat) (detail : String) : Except Error Nat := do
  let digits ← checkedRange bytes offset 8 detail detail
  digitLoop 32 16 hexDigit detail digits 0

def octalU64 (bytes : List UInt8) (offset length : Nat) (detail : String) :
    Except Error Nat := do
  let digits ← checkedRange bytes offset length detail detail
  digitLoop 64 8 octalDigit detail digits 0

def octalU32 (bytes : List UInt8) (offset length : Nat) (detail : String) :
    Except Error Nat := do
  let value ← octalU64 bytes offset length detail
  okOr (tryFrom 32 value) (cpioFormat detail)

/-- `u16::from_le_bytes` or `u16::from_be_bytes`. -/
def wordOf (littleEndian : Bool) (first second : UInt8) : Nat :=
  if littleEndian then first.toNat + 256 * second.toNat
  else 256 * first.toNat + second.toNat

/-- The closure `word` of `parse_binary_header`. -/
def word (header : List UInt8) (littleEndian : Bool) (wordIndex : Nat) (detail : String) :
    Except Error Nat := do
  let byteOffset ← okOr (tryFrom 64 (wordIndex * 2)) (cpioFormat "binary header offset overflows")
  let bytes ← checkedRange header byteOffset 2 detail detail
  let first ← okOr bytes.head? (cpioFormat detail)
  let second ← okOr bytes[1]? (cpioFormat detail)
  return wordOf littleEndian first second

def combineWords (high low : Nat) : Nat := high <<< 16 ||| low

def parseNewcHeader (payload : List UInt8) (offset : Nat) (hasChecksum : Bool) :
    Except Error ParsedHeader := do
  let header ← checkedRange payload offset newcHeaderBytes "CPIO newc header range overflows"
    "CPIO newc header is truncated"
  let declaredChecksum ← hexU32 header 102 "CPIO checksum is invalid"
  rejectIf (hasChecksum = false ∧ declaredChecksum ≠ 0)
    (cpioFormat "newc entry has a nonzero checksum field")
  let inode ← hexU32 header 6 "CPIO inode is invalid"
  let mode ← hexU32 header 14 "CPIO mode is invalid"
  let uid ← hexU32 header 22 "CPIO uid is invalid"
  let gid ← hexU32 header 30 "CPIO gid is invalid"
  let linkCount ← hexU32 header 38 "CPIO link count is invalid"
  let modifiedTime ← hexU32 header 46 "CPIO mtime is invalid"
  let fileSize ← hexU32 header 54 "CPIO file size is invalid"
  let deviceMajor ← hexU32 header 62 "CPIO device major is invalid"
  let deviceMinor ← hexU32 header 70 "CPIO device minor is invalid"
  let rdevMajor ← hexU32 header 78 "CPIO rdev major is invalid"
  let rdevMinor ← hexU32 header 86 "CPIO rdev minor is invalid"
  let nameSize ← hexU32 header 94 "CPIO name size is invalid"
  return {
    format := if hasChecksum then .crcNewc else .newc
    headerBytes := newcHeaderBytes
    alignment := 4
    inode := inode
    mode := mode
    uid := uid
    gid := gid
    linkCount := linkCount
    modifiedTime := modifiedTime
    fileSize := fileSize
    deviceMajor := deviceMajor
    deviceMinor := deviceMinor
    rdevMajor := rdevMajor
    rdevMinor := rdevMinor
    nameSize := nameSize
    checksum := if hasChecksum then some declaredChecksum else none }

def parseOdcHeader (payload : List UInt8) (offset : Nat) : Except Error ParsedHeader := do
  let header ← checkedRange payload offset odcHeaderBytes "CPIO odc header range overflows"
    "CPIO odc header is truncated"
  let device ← octalU32 header 6 6 "CPIO odc device is invalid"
  let rdev ← octalU32 header 42 6 "CPIO odc rdev is invalid"
  let inode ← octalU32 header 12 6 "CPIO odc inode is invalid"
  let mode ← octalU32 header 18 6 "CPIO odc mode is invalid"
  let uid ← octalU32 header 24 6 "CPIO odc uid is invalid"
  let gid ← octalU32 header 30 6 "CPIO odc gid is invalid"
  let linkCount ← octalU32 header 36 6 "CPIO odc link count is invalid"
  let modifiedTime ← octalU64 header 48 11 "CPIO odc mtime is invalid"
  let nameSize ← octalU64 header 59 6 "CPIO odc name size is invalid"
  let fileSize ← octalU64 header 65 11 "CPIO odc file size is invalid"
  return {
    format := .odc
    headerBytes := odcHeaderBytes
    alignment := 1
    inode := inode
    mode := mode
    uid := uid
    gid := gid
    linkCount := linkCount
    modifiedTime := modifiedTime
    fileSize := fileSize
    deviceMajor := 0
    deviceMinor := device
    rdevMajor := 0
    rdevMinor := rdev
    nameSize := nameSize
    checksum := none }

def parseBinaryHeader (payload : List UInt8) (offset : Nat) (littleEndian : Bool) :
    Except Error ParsedHeader := do
  let header ← checkedRange payload offset binaryHeaderBytes "CPIO binary header range overflows"
    "CPIO binary header is truncated"
  let magic ← word header littleEndian 0 "CPIO binary magic is invalid"
  rejectIf (magic ≠ binaryMagic) (cpioFormat "binary magic is invalid")
  let device ← word header littleEndian 1 "CPIO binary device is invalid"
  let rdev ← word header littleEndian 7 "CPIO binary rdev is invalid"
  let timeHigh ← word header littleEndian 8 "CPIO binary mtime is invalid"
  let timeLow ← word header littleEndian 9 "CPIO binary mtime is invalid"
  let sizeHigh ← word header littleEndian 11 "CPIO binary file size is invalid"
  let sizeLow ← word header littleEndian 12 "CPIO binary file size is invalid"
  let inode ← word header littleEndian 2 "CPIO binary inode is invalid"
  let mode ← word header littleEndian 3 "CPIO binary mode is invalid"
  let uid ← word header littleEndian 4 "CPIO binary uid is invalid"
  let gid ← word header littleEndian 5 "CPIO binary gid is invalid"
  let linkCount ← word header littleEndian 6 "CPIO binary link count is invalid"
  let nameSize ← word header littleEndian 10 "CPIO binary name size is invalid"
  return {
    format := if littleEndian then .binaryLittleEndian else .binaryBigEndian
    headerBytes := binaryHeaderBytes
    alignment := 2
    inode := inode
    mode := mode
    uid := uid
    gid := gid
    linkCount := linkCount
    modifiedTime := combineWords timeHigh timeLow
    fileSize := combineWords sizeHigh sizeLow
    deviceMajor := 0
    deviceMinor := device
    rdevMajor := 0
    rdevMinor := rdev
    nameSize := nameSize
    checksum := none }

def parseHeader (payload : List UInt8) (offset : Nat) : Except Error ParsedHeader := do
  let magicPrefix ← checkedRange payload offset 2 "CPIO magic range overflows"
    "CPIO magic is truncated"
  let first ← okOr magicPrefix.head? (cpioFormat "magic is truncated")
  let second ← okOr magicPrefix[1]? (cpioFormat "magic is truncated")
  if [first, second] = [0xc7, 0x71] then parseBinaryHeader payload offset true
  else if [first, second] = [0x71, 0xc7] then parseBinaryHeader payload offset false
  else do
    let magic ← checkedRange payload offset 6 "CPIO magic range overflows"
      "CPIO magic is truncated"
    rejectIf (magic = magicLarge) (.unsupportedFeature "rpm-large-file-cpio")
    if magic = magicNewc ∨ magic = magicCrc then
      parseNewcHeader payload offset (decide (magic = magicCrc))
    else if magic = magicOdc then parseOdcHeader payload offset
    else throw (cpioFormat "magic is invalid")

end Cpio
end Unpackio
