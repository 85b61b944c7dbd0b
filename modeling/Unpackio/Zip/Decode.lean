/-
What a ZIP reader keeps of an entry, from `zip/mod.rs`, the names in code page 437,
from `zip/cp437.rs`, and the decoding of one member, from `zip/decode.rs`.

The decoders and the two decryptions are parameters, each with the arguments
that the source gives it.
-/
import Unpackio.Bounded
import Unpackio.Checksum

namespace Unpackio
namespace Zip

def zipFormat (detail : String) : Error := formatError ("ZIP: " ++ detail)

inductive ZipCompressionMethod where
  | stored
  | deflate
  | deflate64
  | bzip2
  | lzma
  | zstandardDeprecated
  | zstandard
  | mp3
  | xz
  | jpeg
  | wavPack
  | ppmd
  | unknown (identifier : Nat)
  deriving DecidableEq, Repr

namespace ZipCompressionMethod

def id : ZipCompressionMethod → Nat
  | stored => 0
  | deflate => 8
  | deflate64 => 9
  | bzip2 => 12
  | lzma => 14
  | zstandardDeprecated => 20
  | zstandard => 93
  | mp3 => 94
  | xz => 95
  | jpeg => 96
  | wavPack => 97
  | ppmd => 98
  | unknown identifier => identifier

def fromId : Nat → ZipCompressionMethod
  | 0 => stored
  | 8 => deflate
  | 9 => deflate64
  | 12 => bzip2
  | 14 => lzma
  | 20 => zstandardDeprecated
  | 93 => zstandard
  | 94 => mp3
  | 95 => xz
  | 96 => jpeg
  | 97 => wavPack
  | 98 => ppmd
  | other => unknown other

end ZipCompressionMethod

inductive ZipEncryption where
  | none
  | zipCrypto
  | winZipAes (vendorVersion keyBits : Nat)
  | strong
  deriving DecidableEq, Repr

structure ZipTimestamp where
  year : Nat
  month : Nat
  day : Nat
  hour : Nat
  minute : Nat
  second : Nat
  deriving DecidableEq, Repr

structure WinZipAes where
  vendorVersion : Nat
  keyBytes : Nat
  deriving DecidableEq, Repr

structure ZipEntry where
  index : Nat
  rawName : List UInt8
  name : String
  rawComment : List UInt8
  extra : List UInt8
  compression : ZipCompressionMethod
  encryption : ZipEncryption
  compressedSize : Nat
  uncompressedSize : Nat
  crc32 : Option Nat
  isDirectory : Bool
  unixMode : Option Nat
  modified : Option ZipTimestamp
  modifiedTimeRaw : Nat
  modifiedDateRaw : Nat
  versionMadeBy : Nat
  versionNeeded : Nat
  flags : Nat
  internalAttributes : Nat
  externalAttributes : Nat
  localHeaderOffset : Nat
  dataStart : Nat
  dataEnd : Nat
  zipcryptoCheckByte : Nat
  aes : Option WinZipAes
  deriving DecidableEq, Repr

/-! ## Code page 437 -/

/-- `HIGH`, the characters of the bytes from `0x80` on. -/
def cp437High : List Char :=
  ("ÇüéâäàåçêëèïîìÄÅÉæÆôöòûùÿÖÜ¢£¥₧ƒáíóúñÑªº¿⌐¬½¼¡«»" ++
    "░▒▓│┤╡╢╖╕╣║╗╝╜╛┐└┴┬├─┼╞╟╚╔╩╦╠═╬╧╨╤╥╙╘╒╓╫╪┘┌█▄▌▐▀" ++
    "αßΓπΣσµτΦΘΩδ∞φε∩≡±≥≤⌠⌡÷≈°∙·√ⁿ²■\u00a0").toList

def decodeCp437Byte (byte : UInt8) : Except Error Char :=
  if byte.toNat < 0x80 then .ok (Char.ofNat byte.toNat)
  else do
    let index ← okOr (checkedSub byte.toNat 0x80)
      (formatError "ZIP CP437 name byte is out of range")
    okOr cp437High[index]? (formatError "ZIP CP437 name byte is out of range")

/-- `cp437::decode`. -/
def decodeCp437 (bytes : List UInt8) : Except Error String :=
  String.ofList <$> bytes.mapM decodeCp437Byte

/-! ## Decoding -/

def flagLzmaEos : Nat := 1 <<< 1

def flagEnhancedDeflate : Nat := 1 <<< 4

def flagPatchedData : Nat := 1 <<< 5

/-- What a member is decrypted and decompressed with. -/
structure Codecs (Password : Type) where
  decryptZipcrypto : List UInt8 → Option Password → Nat → Metered (List UInt8)
  decryptWinzipAes : List UInt8 → Option Password → Nat → Limits → Metered (List UInt8)
  decodeDeflate : List UInt8 → Option Nat → Nat → Limits → Metered (List UInt8)
  decodeDeflate64 : List UInt8 → Option Nat → Nat → Limits → Metered (List UInt8)
  decodeBzip2 : List UInt8 → Option Nat → Nat → Limits → Metered (List UInt8)
  decodeLzma : List UInt8 → List UInt8 → Option Nat → Nat → Metered (List UInt8)
  decodeZstd : List UInt8 → Option Nat → Nat → Limits → Metered (List UInt8)
  decodeXz : List UInt8 → Option Nat → Nat → Limits → Nat → Metered (List UInt8)
  decodeZipPpmd : List UInt8 → Nat → Nat → Limits → Metered (List UInt8)
  decodeZipWavpack : List UInt8 → Nat → Nat → Limits → Metered (List UInt8)
  decodeZipJpeg : List UInt8 → Nat → Nat → Limits → Metered (List UInt8)

variable {Password : Type}

def unsupportedMethod (method : ZipCompressionMethod) : Error :=
  .unsupportedMethod [UInt8.ofNat method.id, UInt8.ofNat (method.id / 256)]

def copyStoredLoop : List (List UInt8) → Metered Unit
  | [] => return ()
  | chunk :: chunks => do
    let work ← okOr (tryFrom 64 (chunk.length * 2))
      (zipFormat "stored ZIP work accounting overflows")
    checkpoint work
    copyStoredLoop chunks

def copyStored (input : List UInt8) (expected : Nat) : Metered (List UInt8) := do
  rejectIf (input.length ≠ expected) (zipFormat "stored entry size differs from its declaration")
  copyStoredLoop (chunks controlChunkSize input)
  return input

def decodeZipLzma (codecs : Codecs Password) (input : List UInt8) (entry : ZipEntry)
    (limits : Limits) (maximum : Nat) : Metered (List UInt8) := do
  let header ← okOr (getRange input 0 4) (zipFormat "LZMA entry header is truncated")
  let propertyLength ← okOr (getRange header 2 4) (zipFormat "LZMA property length is truncated")
  let propertyLength := fromLeBytes propertyLength
  rejectIf (propertyLength ≠ 5) (zipFormat "ZIP LZMA properties must contain exactly five bytes")
  let propertiesEnd ← okOr (checkedAdd 4 propertyLength)
    (zipFormat "ZIP LZMA property range overflows")
  let properties ← okOr (getRange input 4 propertiesEnd)
    (zipFormat "ZIP LZMA properties are truncated")
  let payload ← okOr (getRange input propertiesEnd input.length)
    (zipFormat "ZIP LZMA payload is truncated")
  let dictionary ← okOr (getRange properties 1 5) (zipFormat "ZIP LZMA dictionary is truncated")
  let dictionary := fromLeBytes dictionary
  checkLimit (max dictionary 1) limits.maxDictionaryBytes .dictionaryBytes
  codecs.decodeLzma payload properties
    (if entry.flags &&& flagLzmaEos ≠ 0 then none else some entry.uncompressedSize) maximum

def requireVersion (entry : ZipEntry) (detail : String) : Except Error Unit :=
  rejectIf (entry.versionNeeded < 20) (zipFormat detail)

def decodeCompressed (codecs : Codecs Password) (input : List UInt8) (entry : ZipEntry)
    (limits : Limits) (maximum : Nat) : Metered (List UInt8) :=
  let expected := some entry.uncompressedSize
  match entry.compression with
  | .stored => copyStored input entry.uncompressedSize
  | .deflate => codecs.decodeDeflate input expected maximum limits
  | .deflate64 => codecs.decodeDeflate64 input expected maximum limits
  | .bzip2 => codecs.decodeBzip2 input expected maximum limits
  | .lzma => decodeZipLzma codecs input entry limits maximum
  | .zstandard | .zstandardDeprecated => codecs.decodeZstd input expected maximum limits
  | .xz => do
    requireVersion entry "XZ entries require ZIP version 2.0 or later"
    codecs.decodeXz input expected maximum limits entry.index
  | .ppmd => do
    requireVersion entry "PPMd entries require ZIP version 2.0 or later"
    codecs.decodeZipPpmd input entry.uncompressedSize maximum limits
  | .wavPack => do
    requireVersion entry "WavPack entries require ZIP version 2.0 or later"
    codecs.decodeZipWavpack input entry.uncompressedSize maximum limits
  | .jpeg => do
    requireVersion entry "WinZip JPEG entries require ZIP version 2.0 or later"
    codecs.decodeZipJpeg input entry.uncompressedSize maximum limits
  | .mp3 | .unknown _ => throw (unsupportedMethod entry.compression)

/-- The checks of `decode_entry` before the data are touched. -/
def checkEntry (entry : ZipEntry) (limits : Limits) (maximum : Nat) : Except Error Unit := do
  checkLimit entry.uncompressedSize limits.maxEntryOutputBytes .entryOutputBytes
  checkLimit entry.uncompressedSize maximum .totalOutputBytes
  rejectIf (entry.flags &&& flagPatchedData ≠ 0) (.unsupportedFeature "zip-patched-data")
  rejectIf (entry.flags &&& flagEnhancedDeflate ≠ 0) (.unsupportedFeature "zip-enhanced-deflate")
  rejectIf (entry.encryption = .strong) (.unsupportedFeature "zip-strong-encryption")
  match entry.compression with
  | .mp3 | .unknown _ => throw (unsupportedMethod entry.compression)
  | _ => return ()

def entryRange (archive : List UInt8) (entry : ZipEntry) : Except Error (List UInt8) := do
  let length ← okOr (checkedSub entry.dataEnd entry.dataStart)
    (zipFormat "entry data range underflows")
  checkedRange archive entry.dataStart length "entry data range overflows"
    "entry data is truncated"

def decrypt (codecs : Codecs Password) (encrypted : List UInt8) (entry : ZipEntry)
    (password : Option Password) (limits : Limits) : Metered (List UInt8) :=
  match entry.encryption with
  | .none => return encrypted
  | .zipCrypto => codecs.decryptZipcrypto encrypted password entry.zipcryptoCheckByte
  | .winZipAes _ _ => do
    let aes ← okOr entry.aes (zipFormat "WinZip AES metadata is missing")
    codecs.decryptWinzipAes encrypted password aes.keyBytes limits
  | .strong => throw (.unsupportedFeature "zip-strong-encryption")

/-- What a failure behind the password says. -/
def memberError (entry : ZipEntry) (error : Error) : Error :=
  if entry.encryption = .none then error
  else match error with
    | .format _ | .checksum _ _ => .wrongPasswordOrCorrupt
    | other => other

def verifyCrc32 (entry : ZipEntry) (decoded : List UInt8) : Metered Unit :=
  match entry.crc32 with
  | none => return ()
  | some expected => do
    let actual ← checksumWithControl decoded
    rejectIf (actual.toNat ≠ expected) (memberError entry (.checksum .member (some entry.index)))

def decodeEntry (codecs : Codecs Password) (archive : List UInt8) (entry : ZipEntry)
    (password : Option Password) (limits : Limits) (maximum : Nat) : Metered (List UInt8) := do
  checkEntry entry limits maximum
  let encrypted ← entryRange archive entry
  let compressed ← decrypt codecs encrypted entry password limits
  let decoded ← (decodeCompressed codecs compressed entry limits maximum).mapError
    (memberError entry)
  rejectIf (decoded.length ≠ entry.uncompressedSize)
    (memberError entry (zipFormat "decoded size differs from the central declaration"))
  verifyCrc32 entry decoded
  return decoded

end Zip
end Unpackio
