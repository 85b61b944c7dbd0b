/-
The failures and the resource limits of the crate, from `error.rs` and
`limits.rs`.
-/

namespace Unpackio

/-- The checksum layer at which verification failed. -/
inductive ChecksumScope where
  | startHeader
  | nextHeader
  | encodedHeader
  | packedStream
  | folder
  | additionalStream
  | member
  | packageHeader
  | packagePayload
  deriving DecidableEq, Repr

/-- A configured limit that can reject work. -/
inductive LimitKind where
  | headerBytes
  | files
  | folders
  | codersPerFolder
  | totalCoders
  | streamsPerFolder
  | totalStreams
  | streamFrames
  | substreams
  | headerProperties
  | coderPropertyBytes
  | nameBytesPerEntry
  | totalNameBytes
  | dictionaryBytes
  | entryOutputBytes
  | totalOutputBytes
  | volumes
  | totalInputBytes
  | kdfPower
  | recursionDepth
  | sfxScanBytes
  | workUnits
  deriving DecidableEq, Repr

/-- A failure of opening, parsing, validating or decoding.  The payload of an
I/O failure is its message. -/
inductive Error where
  | format (detail : String)
  | streamFormat (format detail : String)
  | checksum (scope : ChecksumScope) (memberIndex : Option Nat)
  | streamChecksum (format : String) (frameIndex : Nat)
  | unsupportedMethod (methodId : List UInt8)
  | unsupportedFeature (feature : String)
  | unsupportedStreamFeature (format feature : String)
  | limitExceeded (limit : LimitKind) (requested maximum : Nat)
  | missingVolume (expected : String)
  | passwordRequired
  | wrongPasswordOrCorrupt
  | cancelled
  | io (message : String)
  deriving DecidableEq, Repr

/-- Per-archive resource limits. -/
structure Limits where
  maxHeaderBytes : Nat
  maxFiles : Nat
  maxFolders : Nat
  maxCodersPerFolder : Nat
  maxTotalCoders : Nat
  maxStreamsPerFolder : Nat
  maxTotalStreams : Nat
  maxStreamFrames : Nat
  maxSubstreams : Nat
  maxHeaderProperties : Nat
  maxCoderPropertyBytes : Nat
  maxNameBytesPerEntry : Nat
  maxTotalNameBytes : Nat
  maxDictionaryBytes : Nat
  maxEntryOutputBytes : Nat
  maxTotalOutputBytes : Nat
  maxVolumes : Nat
  maxTotalInputBytes : Nat
  maxKdfPower : Nat
  maxRecursionDepth : Nat
  sfxScanLimit : Nat
  deriving DecidableEq, Repr

/-- `Limits::DEFAULT`. -/
def Limits.default : Limits where
  maxHeaderBytes := 64 * 1024 * 1024
  maxFiles := 100000
  maxFolders := 100000
  maxCodersPerFolder := 32
  maxTotalCoders := 100000
  maxStreamsPerFolder := 1024
  maxTotalStreams := 200000
  maxStreamFrames := 100000
  maxSubstreams := 100000
  maxHeaderProperties := 100000
  maxCoderPropertyBytes := 1024 * 1024
  maxNameBytesPerEntry := 1024 * 1024
  maxTotalNameBytes := 64 * 1024 * 1024
  maxDictionaryBytes := 256 * 1024 * 1024
  maxEntryOutputBytes := 2 * 1024 * 1024 * 1024
  maxTotalOutputBytes := 8 * 1024 * 1024 * 1024
  maxVolumes := 1024
  maxTotalInputBytes := 64 * 1024 * 1024 * 1024
  maxKdfPower := 24
  maxRecursionDepth := 64
  sfxScanLimit := 1024 * 1024

end Unpackio
