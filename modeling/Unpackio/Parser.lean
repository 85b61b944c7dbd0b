/-
The signature scan and the next-header envelope, from `parser.rs`.
-/
import Unpackio.Checksum
import Unpackio.Validate

namespace Unpackio

def signature : List UInt8 := [0x37, 0x7a, 0xbc, 0xaf, 0x27, 0x1c]

def startHeaderOffset : Nat := 12

def startHeaderSize : Nat := 20

structure RawSignatureHeader where
  major : UInt8
  minor : UInt8
  startCrc : UInt32
  nextOffset : Nat
  nextSize : Nat
  nextCrc : UInt32
  deriving DecidableEq, Repr

/-- `BoundedReader::parse_exact`. -/
def BoundedReader.parseExact {α : Type} (reader : BoundedReader) (length : Nat)
    (unconsumedDetail : String) (parse : BoundedReader → Except Error (α × BoundedReader)) :
    Except Error (α × BoundedReader) := do
  let (bytes, reader) ← reader.readBytes length
  let (value, child) ← parse (.new bytes)
  child.finish unconsumedDetail
  return (value, reader)

def parseFixedFields (fixed : BoundedReader) :
    Except Error (RawSignatureHeader × BoundedReader) := do
  let (magic, fixed) ← fixed.readBytes 6
  rejectIf (magic ≠ signature) (formatError "invalid 7z signature")
  let (major, fixed) ← fixed.readU8
  let (minor, fixed) ← fixed.readU8
  let (startCrc, fixed) ← fixed.readU32Le
  let (nextOffset, fixed) ← fixed.readU64Le
  let (nextSize, fixed) ← fixed.readU64Le
  let (nextCrc, fixed) ← fixed.readU32Le
  return ({ major := major, minor := minor, startCrc := startCrc, nextOffset := nextOffset,
            nextSize := nextSize, nextCrc := nextCrc }, fixed)

def parseRawSignatureHeader (bytes : List UInt8) : Except Error RawSignatureHeader := do
  let (raw, _) ← (BoundedReader.new bytes).parseExact fixedHeaderSize
    "fixed 7z header was not consumed exactly" parseFixedFields
  return raw

def nextHeaderKind : List UInt8 → Except Error NextHeaderKind
  | [] => .error (formatError "next header is empty")
  | first :: _ =>
    if first = idHeader then .ok .header
    else if first = idEncodedHeader then .ok .encodedHeader
    else .error (formatError "unexpected next-header identifier")

def parseCandidate (bytes : List UInt8) (signatureOffset : Nat) (limits : Limits) :
    Metered HeaderEnvelope := do
  checkpoint fixedHeaderSize
  let candidateBytes ← checkedRange bytes signatureOffset fixedHeaderSize
    "fixed-header range overflows" "truncated fixed 7z header"
  let raw ← parseRawSignatureHeader candidateBytes
  let startFields ← checkedRange candidateBytes startHeaderOffset startHeaderSize
    "start-header range overflows" "truncated start-header fields"
  let startCrc ← checksumWithControl startFields
  rejectIf (startCrc ≠ raw.startCrc) (.checksum .startHeader none)
  rejectIf (raw.major ≠ 0) (.unsupportedFeature "7z-major-version")
  checkLimit raw.nextSize limits.maxHeaderBytes .headerBytes
  let afterFixed ← okOr (checkedAdd signatureOffset fixedHeaderSize)
    (formatError "fixed-header end overflows")
  let nextHeaderOffset ← okOr (checkedAdd afterFixed raw.nextOffset)
    (formatError "next-header offset overflows")
  let nextHeader ← checkedRange bytes nextHeaderOffset raw.nextSize
    "next-header end overflows" "truncated next-header range"
  let nextCrc ← checksumWithControl nextHeader
  rejectIf (nextCrc ≠ raw.nextCrc) (.checksum .nextHeader none)
  let kind ← nextHeaderKind nextHeader
  return { signatureOffset := signatureOffset,
           version := { major := raw.major, minor := raw.minor },
           nextHeaderOffset := nextHeaderOffset, nextHeaderSize := raw.nextSize,
           nextHeaderCrc := raw.nextCrc, nextHeaderKind := kind }

def candidateErrorIsFatal : Error → Bool
  | .cancelled => true
  | .io _ => true
  | .limitExceeded .workUnits _ _ => true
  | .limitExceeded .totalInputBytes _ _ => true
  | _ => false

/-- `bytes.windows(size)`. -/
def windows {α : Type} (size : Nat) (bytes : List α) : List (List α) :=
  (List.range (bytes.length + 1 - size)).map fun i => (bytes.drop i).take size

/-- The bytes in which a signature may start after an SFX prefix.  Inputs that
are shorter than the signature have none. -/
def sfxScanBytes (bytes : List UInt8) (limits : Limits) : Except Error (Option (List UInt8)) :=
  match checkedSub bytes.length signature.length with
  | none => .ok none
  | some lastPossibleOffset => do
    let lastScannedOffset := min lastPossibleOffset limits.sfxScanLimit
    let scanLength ← okOr (checkedAdd lastScannedOffset signature.length)
      (formatError "SFX scan range overflows")
    some <$> checkedRange bytes 0 scanLength "SFX scan range overflows" "truncated SFX scan range"

/-- The candidate loop of `parse_archive` over the windows and their offsets.  A
candidate that fails for itself only does not end the scan. -/
def scanCandidates {α : Type} (candidate : Nat → Metered α) :
    List (List UInt8 × Nat) → Option Error → Metered α
  | [], none => throw (formatError "7z signature was not found")
  | [], some firstError => throw firstError
  | (window, offset) :: rest, firstError => do
    checkpoint 1
    if window ≠ signature then scanCandidates candidate rest firstError
    else do
      match ← (candidate offset).attempt with
      | .ok value => return value
      | .error error =>
        if candidateErrorIsFatal error then throw error
        else scanCandidates candidate rest (firstError.orElse fun _ => some error)

/-- `validated_candidate`. -/
def validatedCandidate (bytes : List UInt8) (limits : Limits) (signatureOffset : Nat) :
    Metered ParsedArchive := do
  let envelope ← parseCandidate bytes signatureOffset limits
  let nextHeader ← checkedRange bytes envelope.nextHeaderOffset envelope.nextHeaderSize
    "next-header end overflows during body parsing"
    "next-header range was truncated during body parsing"
  let (raw, _) ← parseNextHeader limits nextHeader ParseState.default
  let validated ← validateNextHeader raw envelope bytes limits
  return { envelope := envelope, nextHeader := validated }

def parseArchive (bytes : List UInt8) (limits : Limits) : Metered ParsedArchive := do
  checkLimit bytes.length limits.maxTotalInputBytes .totalInputBytes
  if signature <+: bytes then validatedCandidate bytes limits 0
  else do
    match ← sfxScanBytes bytes limits with
    | none => throw (formatError "7z signature was not found")
    | some scanBytes =>
      scanCandidates (validatedCandidate bytes limits)
        (windows signature.length scanBytes).zipIdx none

def parseDecodedNextHeader (decoded : List UInt8) (envelope : HeaderEnvelope)
    (archiveBytes : List UInt8) (limits : Limits) : Metered ParsedNextHeader := do
  checkLimit decoded.length limits.maxHeaderBytes .headerBytes
  let (raw, _) ← parseNextHeader limits decoded ParseState.default
  validateNextHeader raw envelope archiveBytes limits

def parseNextHeaderFromExternalFolders (headerBytes : List UInt8) (dataIndex : Nat)
    (folderBytes : List UInt8) (envelope : HeaderEnvelope) (archiveBytes : List UInt8)
    (limits : Limits) : Metered ParsedNextHeader := do
  checkLimit headerBytes.length limits.maxHeaderBytes .headerBytes
  let (raw, _) ← parseNextHeaderWithExternalFolders limits headerBytes dataIndex folderBytes
    ParseState.default
  validateNextHeader raw envelope archiveBytes limits

def candidateDeclaresMoreBytes (bytes : List UInt8) (limits : Limits) (signatureOffset : Nat) :
    Metered (Option Bool) := do
  let fixedEnd ← okOr (checkedAdd signatureOffset fixedHeaderSize)
    (formatError "fixed-header end overflows")
  if bytes.length < fixedEnd then return some true
  else do
    let candidateBytes ← checkedRange bytes signatureOffset fixedHeaderSize
      "fixed-header range overflows" "truncated fixed 7z header"
    let raw ← parseRawSignatureHeader candidateBytes
    let startFields ← checkedRange candidateBytes startHeaderOffset startHeaderSize
      "start-header range overflows" "truncated start-header fields"
    let startCrc ← checksumWithControl startFields
    if startCrc ≠ raw.startCrc then return none
    else do
      checkLimit raw.nextSize limits.maxHeaderBytes .headerBytes
      let required ← okOr
        ((checkedAdd fixedEnd raw.nextOffset).bind fun offset => checkedAdd offset raw.nextSize)
        (formatError "declared archive end overflows")
      return some (bytes.length < required)

def scanDeclaresMoreBytes (bytes : List UInt8) (limits : Limits) :
    List (List UInt8 × Nat) → Metered Bool
  | [] => return false
  | (window, offset) :: rest => do
    checkpoint 1
    if window ≠ signature then scanDeclaresMoreBytes bytes limits rest
    else do
      match ← candidateDeclaresMoreBytes bytes limits offset with
      | some requiresMore => return requiresMore
      | none => scanDeclaresMoreBytes bytes limits rest

def archiveDeclaresMoreBytes (bytes : List UInt8) (limits : Limits) : Metered Bool := do
  checkLimit bytes.length limits.maxTotalInputBytes .totalInputBytes
  if signature <+: bytes then do
    let declares ← candidateDeclaresMoreBytes bytes limits 0
    return declares.getD false
  else do
    match ← sfxScanBytes bytes limits with
    | none => return false
    | some scanBytes =>
      scanDeclaresMoreBytes bytes limits (windows signature.length scanBytes).zipIdx

end Unpackio
