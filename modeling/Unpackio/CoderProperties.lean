/-
Semantic checks of coder property records, from `coder_properties.rs` and
`validate_coder_properties`.
-/
import Unpackio.Bounded

namespace Unpackio

def ppmdCanonicalPropertyBytes : Nat := 5
def ppmdExtendedPropertyBytes : Nat := 7
def ppmdMinimumMemoryBytes : Nat := 1 <<< 11
def ppmdMinimumOrder : Nat := 2
def ppmdMaximumOrder : Nat := 64

structure PpmdProperties where
  order : Nat
  memorySize : Nat
  deriving DecidableEq, Repr

/-- The five canonical bytes, without the two reserved ones. -/
def canonicalPpmdProperties (properties : List UInt8) : Except Error (List UInt8) :=
  if properties.length = ppmdCanonicalPropertyBytes then .ok properties
  else if properties.length = ppmdExtendedPropertyBytes then do
    rejectIf (properties.drop ppmdCanonicalPropertyBytes ≠ [0, 0])
      (formatError "PPMd reserved properties must be zero")
    return properties.take ppmdCanonicalPropertyBytes
  else .error (formatError
    "PPMd properties must contain exactly five bytes, or seven bytes with two zero reserved bytes")

def parsePpmdProperties (properties : List UInt8) : Except Error PpmdProperties := do
  let canonical ← canonicalPpmdProperties properties
  let order ← okOr (canonical.head?.map UInt8.toNat)
    (formatError "PPMd order property is missing")
  rejectIf (order < ppmdMinimumOrder ∨ ppmdMaximumOrder < order)
    (formatError "PPMd order is outside 2 through 64")
  let memorySize := fromLeBytes (canonical.drop 1)
  rejectIf (memorySize < ppmdMinimumMemoryBytes)
    (formatError "PPMd memory size is below the format minimum")
  return { order := order, memorySize := memorySize }

def methodLzma : List UInt8 := [0x03, 0x01, 0x01]
def methodLzma2 : List UInt8 := [0x21]
def methodPpmd : List UInt8 := [0x03, 0x04, 0x01]
def methodDeflate64 : List UInt8 := [0x04, 0x01, 0x09]
def methodAes : List UInt8 := [0x06, 0xf1, 0x07, 0x01]

def deflate64DictionaryBytes : Nat := 64 * 1024

def lzmaDictionary (properties : List UInt8) : Except Error Nat := do
  rejectIf (properties.length ≠ 5)
    (formatError "LZMA properties must contain exactly five bytes")
  let parameter ← okOr (properties.head?.map UInt8.toNat)
    (formatError "LZMA properties are missing the parameter byte")
  rejectIf (4 < parameter / 9 / 5 ∨ 4 < parameter % 9 + parameter / 9 % 5)
    (formatError "invalid LZMA lc/lp/pb properties")
  return fromLeBytes (properties.drop 1)

def lzma2Dictionary (properties : List UInt8) : Except Error Nat := do
  rejectIf (properties.length ≠ 1)
    (formatError "LZMA2 properties must contain exactly one byte")
  let property ← okOr (properties.head?.map UInt8.toNat)
    (formatError "LZMA2 properties are missing the dictionary byte")
  rejectIf (40 < property) (formatError "invalid LZMA2 dictionary property")
  return (2 ||| property &&& 1) <<< (property / 2 + 11)

def coderDictionary (methodId properties : List UInt8) : Except Error (Option Nat) :=
  if methodId = methodLzma then some <$> lzmaDictionary properties
  else if methodId = methodLzma2 then some <$> lzma2Dictionary properties
  else if methodId = methodPpmd then (some ∘ PpmdProperties.memorySize) <$> parsePpmdProperties
    properties
  else if methodId = methodDeflate64 then do
    rejectIf (properties ≠ []) (formatError "Deflate64 properties must be empty")
    return some deflate64DictionaryBytes
  else return none

def checkAesProperties (properties : List UInt8) (limits : Limits) : Except Error Unit := do
  let (first, reader) ← (BoundedReader.new properties).readU8
  let (second, reader) ← reader.readU8
  let saltSize := ((first >>> 7) &&& 1).toNat + (second >>> 4).toNat
  let ivSize := ((first >>> 6) &&& 1).toNat + (second &&& 0x0f).toNat
  let (_, reader) ← reader.readBytes (saltSize + ivSize)
  reader.finish "AES properties were not consumed exactly"
  let kdfPower := (first &&& 0x3f).toNat
  rejectIf (kdfPower ≠ 0x3f ∧ limits.maxKdfPower < kdfPower)
    (.limitExceeded .kdfPower kdfPower limits.maxKdfPower)

def checkMethodProperties (methodId properties : List UInt8) (limits : Limits) :
    Except Error Unit :=
  if methodId = methodAes then checkAesProperties properties limits else .ok ()

def checkDictionary (dictionary : Option Nat) (limits : Limits) : Except Error Unit :=
  match dictionary with
  | some bytes => checkLimit bytes limits.maxDictionaryBytes .dictionaryBytes
  | none => .ok ()

def validateCoderProperties (methodId properties : List UInt8) (limits : Limits) :
    Except Error (Option Nat) := do
  let dictionary ← coderDictionary methodId properties
  checkMethodProperties methodId properties limits
  checkDictionary dictionary limits
  return dictionary

end Unpackio
