/-
The functions that decode folders, with notes of what they decode.

They are the functions of `archive.rs` and `metadata.rs` again, over an arbitrary
`decode_folder`, and they leave a note for every folder they decode, for every
expansion of a header and for every decoded header they parse.  Silenced they are
the functions without notes.
-/
import Unpackio.Archive.Members
import Unpackio.Foundation.Notes

namespace Unpackio

open Prog (noting note)

inductive DecodeNote where
  | expanding
  | decoded (bytes : Nat)
  | parsing (bytes : Nat)
  deriving DecidableEq, Repr

abbrev Accounted (α : Type) : Type := Prog (Prog.Noted Nat DecodeNote) Error α

/-- `decode_folder` on the archive, its streams, a folder index, the limits and
the maximum. -/
abbrev FolderDecoder : Type :=
  List UInt8 → StreamsInfo → Nat → Limits → Nat → Metered DecodedFolder

namespace Accounted

variable (decodeFolder : FolderDecoder)

/-- One call of `decode_folder`. -/
def decoding (archiveBytes : List UInt8) (streams : StreamsInfo) (folderIndex : Nat)
    (limits : Limits) (maximumOutput : Nat) : Accounted DecodedFolder := do
  let decoded ← noting (decodeFolder archiveBytes streams folderIndex limits maximumOutput)
  note (.decoded decoded.bytes.length)
  return decoded

def decodeEncodedFolders (archiveBytes : List UInt8) (streams : StreamsInfo) (limits : Limits)
    (maximumOutput : Nat) : List Folder → Nat → Nat → List UInt8 → Accounted (List UInt8)
  | [], _, _, header => return header
  | folder :: folders, folderIndex, decodedTotal, header => do
    noting (checkpoint 1)
    let remaining ← okOr (checkedSub (min limits.maxHeaderBytes maximumOutput) decodedTotal)
      (formatError "decoded-header output accounting underflows")
    let decoded ← (decoding decodeFolder archiveBytes streams folderIndex limits
      remaining).mapError (mapEncryptedError (folderIsEncrypted folder))
    noting (verifyEncodedHeaderFolder folder decoded)
    let decodedTotal ← okOr (checkedAdd decodedTotal decoded.bytes.length)
      (formatError "decoded-header output accounting overflows")
    checkLimit decodedTotal limits.maxHeaderBytes .headerBytes
    checkLimit decodedTotal maximumOutput .totalOutputBytes
    noting ((chunks controlChunkSize decoded.bytes).forM fun chunk => checkpoint chunk.length)
    decodeEncodedFolders archiveBytes streams limits maximumOutput folders (folderIndex + 1)
      decodedTotal (header ++ decoded.bytes)

def decodeEncodedHeader (archiveBytes : List UInt8) (streams : StreamsInfo) (limits : Limits)
    (maximumOutput : Nat) : Accounted (List UInt8) := do
  rejectIf (streams.folders = []) (formatError "encoded header has no folders")
  checkDeclaredTotal limits maximumOutput streams.folders 0
  decodeEncodedFolders decodeFolder archiveBytes streams limits maximumOutput streams.folders 0 0
    []

def processAdditionalFolders (archiveBytes : List UInt8) (streams : StreamsInfo)
    (limits : Limits) (maximumOutput : Nat) :
    List Folder → Nat → Nat → Accounted (List DecodedAdditionalStream × Nat)
  | [], _, totalOutput => return ([], totalOutput)
  | folder :: folders, folderIndex, totalOutput => do
    noting (checkpoint 1)
    let remainingHeader ← okOr (checkedSub limits.maxHeaderBytes totalOutput)
      (formatError "external metadata output accounting underflows")
    let remainingTotal ← okOr (checkedSub maximumOutput totalOutput)
      (formatError "external output accounting underflows")
    let encrypted := folderIsEncrypted folder
    let decoded ← (decoding decodeFolder archiveBytes streams folderIndex limits
      (min remainingHeader remainingTotal)).mapError (mapEncryptedError encrypted)
    let totalOutput ← okOr (checkedAdd totalOutput decoded.bytes.length)
      (formatError "external metadata output accounting overflows")
    checkLimit totalOutput limits.maxHeaderBytes .headerBytes
    checkLimit totalOutput maximumOutput .totalOutputBytes
    noting (verifyDecodedAdditionalFolder folder decoded encrypted)
    let (rest, totalOutput) ← processAdditionalFolders archiveBytes streams limits maximumOutput
      folders (folderIndex + 1) totalOutput
    return ({ bytes := decoded.bytes, encrypted := encrypted } :: rest, totalOutput)

def decodeAdditionalStreams (archiveBytes : List UInt8) (streams : StreamsInfo)
    (limits : Limits) (maximumOutput : Nat) : Accounted DecodedAdditionalStreams := do
  let (outputs, totalOutput) ← processAdditionalFolders decodeFolder archiveBytes streams limits
    maximumOutput streams.folders 0 0
  rejectIf (outputs.length ≠ streams.folders.length)
    (formatError "decoded additional-stream count does not match its declaration")
  return { streams := outputs, totalBytes := totalOutput }

def resolveExternalProperties (header : ArchiveHeader) (archiveBytes : List UInt8)
    (limits : Limits) (maximumOutput : Nat) : Accounted (ArchiveHeader × Nat) :=
  match header.files with
  | none => return (header, 0)
  | some files =>
    if files.externalProperties = [] then return (header, 0)
    else do
      let streams ← okOr header.additionalStreams
        (formatError "external file properties have no additional streams")
      let decoded ← decodeAdditionalStreams decodeFolder archiveBytes streams limits maximumOutput
      let header ← noting (applyExternalProperties header decoded limits)
      return (header, decoded.totalBytes)

/-! ## Opening -/

/-- `parse_decoded_next_header`. -/
def parseDecoded (decoded : List UInt8) (envelope : HeaderEnvelope) (archiveBytes : List UInt8)
    (limits : Limits) : Accounted ParsedNextHeader := do
  checkLimit decoded.length limits.maxHeaderBytes .headerBytes
  note (.parsing decoded.length)
  noting do
    let (raw, _) ← parseNextHeader limits decoded ParseState.default
    validateNextHeader raw envelope archiveBytes limits

/-- `parse_next_header_from_external_folders`. -/
def parseExternal (headerBytes : List UInt8) (dataIndex : Nat) (folderBytes : List UInt8)
    (envelope : HeaderEnvelope) (archiveBytes : List UInt8) (limits : Limits) :
    Accounted ParsedNextHeader := do
  checkLimit headerBytes.length limits.maxHeaderBytes .headerBytes
  note (.parsing headerBytes.length)
  noting do
    let (raw, _) ← parseNextHeaderWithExternalFolders limits headerBytes dataIndex folderBytes
      ParseState.default
    validateNextHeader raw envelope archiveBytes limits

def openPlainHeader (bytes : List UInt8) (limits : Limits) (header : ArchiveHeader)
    (decodedBytes : Nat) : Accounted ArchiveHeader := do
  let remaining ← remainingOutput limits decodedBytes
    "external-property output accounting underflows"
  let (header, externalBytes) ←
    resolveExternalProperties decodeFolder header bytes limits remaining
  let _ ← addDecoded limits decodedBytes externalBytes
    "decoded metadata output accounting overflows"
  return header

def openEncodedHeader (bytes : List UInt8) (envelope : HeaderEnvelope) (limits : Limits)
    (streams : StreamsInfo) (decodedBytes : Nat) : Accounted (ParsedNextHeader × Nat) := do
  let encrypted := streams.folders.any folderIsEncrypted
  let remaining ← remainingOutput limits decodedBytes "decoded-header output accounting underflows"
  let decoded ← (decodeEncodedHeader decodeFolder bytes streams limits remaining).mapError
    (mapEncryptedError encrypted)
  let decodedBytes ← addDecoded limits decodedBytes decoded.length
    "decoded-header output accounting overflows"
  let nextHeader ← (parseDecoded decoded envelope bytes limits).mapError
    (mapEncryptedError encrypted)
  return (nextHeader, decodedBytes)

def openExternalFolders (bytes : List UInt8) (envelope : HeaderEnvelope) (limits : Limits)
    (pending : PendingExternalFolderHeader) (decodedBytes : Nat) : Accounted ArchiveHeader := do
  let remaining ← remainingOutput limits decodedBytes
    "external-folder output accounting underflows"
  let decoded ← decodeAdditionalStreams decodeFolder bytes pending.additionalStreams limits
    remaining
  let _ ← addDecoded limits decodedBytes decoded.totalBytes
    "external-folder output accounting overflows"
  let folderStream ← decoded.get pending.dataIndex
  let resolved ← (parseExternal pending.headerBytes pending.dataIndex folderStream.bytes envelope
    bytes limits).mapError (mapEncryptedError folderStream.encrypted)
  match resolved with
  | .header header => noting (applyExternalProperties header decoded limits)
  | _ => throw (formatError "external folder resolution did not produce a plain header")

/-- The variables of the loop of `open_bytes_inner`. -/
structure Resolution where
  depth : Nat
  decodedBytes : Nat
  nextHeader : ParsedNextHeader

/-- One round of the loop of `open_bytes_inner`. -/
def resolveRound (bytes : List UInt8) (envelope : HeaderEnvelope) (limits : Limits)
    (state : Resolution) : Accounted (ArchiveHeader ⊕ Resolution) :=
  match state.nextHeader with
  | .header header =>
    .inl <$> openPlainHeader decodeFolder bytes limits header state.decodedBytes
  | .encodedHeader streams => do
    let depth ← okOr (checkedAdd state.depth 1)
      (formatError "encoded-header recursion depth overflows")
    checkLimit depth limits.maxRecursionDepth .recursionDepth
    note .expanding
    let (nextHeader, decodedBytes) ←
      openEncodedHeader decodeFolder bytes envelope limits streams state.decodedBytes
    return .inr { depth := depth, decodedBytes := decodedBytes, nextHeader := nextHeader }
  | .pendingExternalFolders pending => do
    let depth ← okOr (checkedAdd state.depth 1)
      (formatError "external-folder resolution depth overflows")
    checkLimit depth limits.maxRecursionDepth .recursionDepth
    note .expanding
    .inl <$> openExternalFolders decodeFolder bytes envelope limits pending state.decodedBytes

/-- The loop of `open_bytes_inner` for a number of rounds, without a header
where it would go on. -/
def resolveLoop (bytes : List UInt8) (envelope : HeaderEnvelope) (limits : Limits) :
    Nat → Resolution → Accounted (Option ArchiveHeader)
  | 0, _ => return none
  | rounds + 1, state => do
    match ← resolveRound decodeFolder bytes envelope limits state with
    | .inl header => return some header
    | .inr state => resolveLoop bytes envelope limits rounds state

def decodeMemberFolder (archive : Archive) (streams : StreamsInfo) (folderIndex : Nat)
    (folder : Folder) (remaining : Nat) : Accounted DecodedFolder := do
  let maximumOutput ← noting (folderDecodeMaximum folder archive.limits remaining)
  (decoding decodeFolder archive.bytes streams folderIndex archive.limits
    maximumOutput).mapError (mapEncryptedError (folderIsEncrypted folder))

def decodeWithinTotal (archive : Archive) (streams : StreamsInfo) (folderIndex : Nat)
    (folder : Folder) (totalOutput : Nat) : Accounted (DecodedFolder × Nat) := do
  let remaining ← okOr (checkedSub archive.limits.maxTotalOutputBytes totalOutput)
    (formatError "total decoded output accounting underflows")
  let decoded ← decodeMemberFolder decodeFolder archive streams folderIndex folder remaining
  let totalOutput ← okOr (checkedAdd totalOutput decoded.bytes.length)
    (formatError "total decoded output accounting overflows")
  checkLimit totalOutput archive.limits.maxTotalOutputBytes .totalOutputBytes
  return (decoded, totalOutput)

def verifyFolders (archive : Archive) (streams : StreamsInfo) :
    List Folder → Nat → Nat → List (FileEntry × Nat) → Accounted Unit
  | [], _, _, entries =>
    rejectIf (entries ≠ []) (formatError "member stream mapping exceeds the folder set")
  | folder :: folders, folderIndex, totalOutput, entries => do
    noting (checkpoint 0)
    let (decoded, totalOutput) ←
      decodeWithinTotal decodeFolder archive streams folderIndex folder totalOutput
    let entries ← noting (Archive.verifyFolderMembers folder folderIndex decoded entries)
    verifyFolders archive streams folders (folderIndex + 1) totalOutput entries

def verifyAdditional (archive : Archive) : Accounted Nat :=
  match archive.header.additionalStreams with
  | some streams => do
    let (_, totalOutput) ← processAdditionalFolders decodeFolder archive.bytes streams
      archive.limits archive.limits.maxTotalOutputBytes streams.folders 0 0
    return totalOutput
  | none => return 0

def verify (archive : Archive) : Accounted Unit := do
  let totalOutput ← verifyAdditional decodeFolder archive
  match archive.header.mainStreams with
  | none => return ()
  | some streams =>
    verifyFolders decodeFolder archive streams streams.folders 0 totalOutput
      (archive.entries.zipIdx.filter fun entry => entry.1.hasStream)

/-! ## Without the notes -/

section Silence

open Prog

@[simp] theorem silence_decoding (archiveBytes : List UInt8) (streams : StreamsInfo)
    (folderIndex : Nat) (limits : Limits) (maximumOutput : Nat) :
    (decoding decodeFolder archiveBytes streams folderIndex limits maximumOutput).silence =
      decodeFolder archiveBytes streams folderIndex limits maximumOutput := by
  simp [decoding]

variable (decodeCoder : CoderDecoder)

section

variable (archiveBytes : List UInt8) (streams : StreamsInfo) (limits : Limits) (maximumOutput : Nat)

theorem silence_decodeEncodedFolders (folders : List Folder) (folderIndex decodedTotal : Nat)
    (header : List UInt8) :
    (decodeEncodedFolders (Unpackio.decodeFolder decodeCoder) archiveBytes streams limits
        maximumOutput folders folderIndex decodedTotal header).silence =
      Unpackio.decodeEncodedFolders decodeCoder archiveBytes streams limits maximumOutput folders
        folderIndex decodedTotal header := by
  induction folders generalizing folderIndex decodedTotal header with
  | nil => rfl
  | cons folder folders ih =>
    rw [decodeEncodedFolders, Unpackio.decodeEncodedFolders]
    simp only [silence_bind, silence_noting, silence_lift, silence_mapError, silence_decoding, ih]

@[simp] theorem silence_decodeEncodedHeader :
    (decodeEncodedHeader (Unpackio.decodeFolder decodeCoder) archiveBytes streams limits
        maximumOutput).silence =
      Unpackio.decodeEncodedHeader decodeCoder archiveBytes streams limits maximumOutput := by
  simp only [decodeEncodedHeader, Unpackio.decodeEncodedHeader, silence_bind, silence_lift,
    silence_decodeEncodedFolders]

@[simp] theorem silence_processAdditionalFolders (folders : List Folder)
    (folderIndex totalOutput : Nat) :
    (processAdditionalFolders (Unpackio.decodeFolder decodeCoder) archiveBytes streams limits
        maximumOutput folders folderIndex totalOutput).silence =
      Unpackio.processAdditionalFolders decodeCoder archiveBytes streams limits maximumOutput
        folders folderIndex totalOutput := by
  induction folders generalizing folderIndex totalOutput with
  | nil => rfl
  | cons folder folders ih =>
    rw [processAdditionalFolders, Unpackio.processAdditionalFolders]
    simp only [silence_bind, silence_noting, silence_lift, silence_mapError, silence_decoding, ih,
      silence_pure]

@[simp] theorem silence_decodeAdditionalStreams :
    (decodeAdditionalStreams (Unpackio.decodeFolder decodeCoder) archiveBytes streams limits
        maximumOutput).silence =
      Unpackio.decodeAdditionalStreams decodeCoder archiveBytes streams limits maximumOutput := by
  simp only [decodeAdditionalStreams, Unpackio.decodeAdditionalStreams, silence_bind,
    silence_lift, silence_processAdditionalFolders, silence_pure]

end

@[simp] theorem silence_resolveExternalProperties (header : ArchiveHeader)
    (archiveBytes : List UInt8) (limits : Limits) (maximumOutput : Nat) :
    (resolveExternalProperties (Unpackio.decodeFolder decodeCoder) header archiveBytes limits
        maximumOutput).silence =
      Unpackio.resolveExternalProperties decodeCoder header archiveBytes limits
        maximumOutput := by
  unfold resolveExternalProperties Unpackio.resolveExternalProperties
  cases header.files with
  | none => rfl
  | some files =>
    simp only [silence_ite, silence_bind, silence_lift, silence_decodeAdditionalStreams,
      silence_noting, silence_pure]

@[simp] theorem silence_parseDecoded (decoded : List UInt8) (envelope : HeaderEnvelope)
    (archiveBytes : List UInt8) (limits : Limits) :
    (parseDecoded decoded envelope archiveBytes limits).silence =
      parseDecodedNextHeader decoded envelope archiveBytes limits := by
  simp only [parseDecoded, parseDecodedNextHeader, silence_bind, silence_lift, silence_note,
    silence_noting, pure_bind]

@[simp] theorem silence_parseExternal (headerBytes : List UInt8) (dataIndex : Nat)
    (folderBytes : List UInt8) (envelope : HeaderEnvelope) (archiveBytes : List UInt8)
    (limits : Limits) :
    (parseExternal headerBytes dataIndex folderBytes envelope archiveBytes limits).silence =
      parseNextHeaderFromExternalFolders headerBytes dataIndex folderBytes envelope archiveBytes
        limits := by
  simp only [parseExternal, parseNextHeaderFromExternalFolders, silence_bind, silence_lift,
    silence_note, silence_noting, pure_bind]

variable (codecs : Codecs) (bytes : List UInt8) (envelope : HeaderEnvelope) (limits : Limits)

@[simp] theorem silence_openPlainHeader (header : ArchiveHeader) (decodedBytes : Nat) :
    (openPlainHeader (Unpackio.decodeFolder (Unpackio.decodeCoder codecs)) bytes limits header
        decodedBytes).silence =
      Unpackio.openPlainHeader codecs bytes limits header decodedBytes := by
  simp only [openPlainHeader, Unpackio.openPlainHeader, silence_bind, silence_lift,
    silence_resolveExternalProperties, silence_pure]

@[simp] theorem silence_openEncodedHeader (streams : StreamsInfo) (decodedBytes : Nat) :
    (openEncodedHeader (Unpackio.decodeFolder (Unpackio.decodeCoder codecs)) bytes envelope limits
        streams decodedBytes).silence =
      Unpackio.openEncodedHeader codecs bytes envelope limits streams decodedBytes := by
  simp only [openEncodedHeader, Unpackio.openEncodedHeader, silence_bind, silence_lift,
    silence_mapError, silence_decodeEncodedHeader, silence_parseDecoded, silence_pure]

@[simp] theorem silence_openExternalFolders (pending : PendingExternalFolderHeader)
    (decodedBytes : Nat) :
    (openExternalFolders (Unpackio.decodeFolder (Unpackio.decodeCoder codecs)) bytes envelope
        limits pending decodedBytes).silence =
      Unpackio.openExternalFolders codecs bytes envelope limits pending decodedBytes := by
  simp only [openExternalFolders, Unpackio.openExternalFolders, silence_bind, silence_lift,
    silence_mapError, silence_decodeAdditionalStreams, silence_parseExternal]
  refine congrArg _ (funext fun remaining => congrArg _ (funext fun decoded => congrArg _
    (funext fun _ => congrArg _ (funext fun folderStream => congrArg _
      (funext fun resolved => ?_)))))
  cases resolved with
  | header header => exact silence_noting _
  | encodedHeader streams => rfl
  | pendingExternalFolders pending => rfl

theorem silence_resolveLoop_succ (rounds : Nat) (state : Resolution) :
    (resolveLoop decodeFolder bytes envelope limits (rounds + 1) state).silence =
      (resolveRound decodeFolder bytes envelope limits state).silence >>= fun outcome =>
        match outcome with
        | .inl header => pure (some header)
        | .inr state => (resolveLoop decodeFolder bytes envelope limits rounds state).silence := by
  rw [resolveLoop, silence_bind]
  refine congrArg _ (funext fun outcome => ?_)
  cases outcome <;> rfl

/-- The error that keeps the resolution from going one deeper. -/
def stopAt (depth : Nat) (detail : String) : Option Error :=
  if 2 ^ 64 ≤ depth + 1 then some (formatError detail)
  else if limits.maxRecursionDepth < depth + 1 then
    some (.limitExceeded .recursionDepth (depth + 1) limits.maxRecursionDepth)
  else none

theorem lt_of_stopAt {depth : Nat} {detail : String} (h : stopAt limits depth detail = none) :
    depth < limits.maxRecursionDepth := by
  by_contra hle
  rw [stopAt, if_pos (show limits.maxRecursionDepth < depth + 1 by omega)] at h
  split at h <;> cases h

theorem descend_eq {α : Type} (depth : Nat) (detail : String) (f : Nat → Accounted α) :
    (do
      let depth ← okOr (checkedAdd depth 1) (formatError detail)
      checkLimit depth limits.maxRecursionDepth .recursionDepth
      f depth) = (stopAt limits depth detail).elim (f (depth + 1)) throw := by
  rw [stopAt]
  by_cases hlt : depth + 1 < 2 ^ 64
  · rw [checkedAdd_of_lt hlt, if_neg (by omega)]
    show (liftM (checkLimit (depth + 1) limits.maxRecursionDepth .recursionDepth) >>= fun _ =>
      f (depth + 1)) = _
    by_cases hle : depth + 1 ≤ limits.maxRecursionDepth
    · rw [if_neg (by omega), checkLimit_of_le hle]
      rfl
    · rw [if_pos (by omega), checkLimit, rejectIf_of (by omega)]
      rfl
  · rw [if_pos (by omega), checkedAdd, if_neg hlt]
    rfl

theorem level_eq {α : Type} (depth fuel : Nat) (detail : String) (f : Nat → Nat → Metered α)
    (hfuel : depth + fuel = limits.maxRecursionDepth) :
    (do
      let depth ← okOr (checkedAdd depth 1) (formatError detail)
      match fuel with
      | 0 => throw (.limitExceeded .recursionDepth depth limits.maxRecursionDepth)
      | fuel + 1 => f fuel depth) =
    (stopAt limits depth detail).elim (f (fuel - 1) (depth + 1)) throw := by
  rw [stopAt]
  by_cases hlt : depth + 1 < 2 ^ 64
  · rw [checkedAdd_of_lt hlt, if_neg (by omega)]
    cases fuel with
    | zero =>
      rw [if_pos (by omega)]
      rfl
    | succ fuel =>
      rw [if_neg (by omega)]
      rfl
  · rw [if_pos (by omega), checkedAdd, if_neg hlt]
    rfl

theorem resolveRound_encodedHeader (depth decodedBytes : Nat) (streams : StreamsInfo) :
    resolveRound decodeFolder bytes envelope limits ⟨depth, decodedBytes, .encodedHeader streams⟩ =
      (stopAt limits depth "encoded-header recursion depth overflows").elim (do
        note .expanding
        let (nextHeader, decodedBytes) ←
          openEncodedHeader decodeFolder bytes envelope limits streams decodedBytes
        return .inr { depth := depth + 1, decodedBytes := decodedBytes,
                      nextHeader := nextHeader }) throw :=
  descend_eq limits depth _ _

theorem resolveHeader_encodedHeader (fuel depth decodedBytes : Nat) (streams : StreamsInfo)
    (hfuel : depth + fuel = limits.maxRecursionDepth) :
    resolveHeader codecs bytes envelope limits fuel depth decodedBytes (.encodedHeader streams) =
      (stopAt limits depth "encoded-header recursion depth overflows").elim (do
        let (nextHeader, decodedBytes) ←
          Unpackio.openEncodedHeader codecs bytes envelope limits streams decodedBytes
        resolveHeader codecs bytes envelope limits (fuel - 1) (depth + 1) decodedBytes
          nextHeader) throw := by
  rw [resolveHeader]
  exact level_eq limits depth fuel _ _ hfuel

theorem resolveRound_pendingExternalFolders (depth decodedBytes : Nat)
    (pending : PendingExternalFolderHeader) :
    resolveRound decodeFolder bytes envelope limits
        ⟨depth, decodedBytes, .pendingExternalFolders pending⟩ =
      (stopAt limits depth "external-folder resolution depth overflows").elim (do
        note .expanding
        .inl <$> openExternalFolders decodeFolder bytes envelope limits pending decodedBytes)
        throw :=
  descend_eq limits depth _ _

theorem resolveHeader_pendingExternalFolders (fuel depth decodedBytes : Nat)
    (pending : PendingExternalFolderHeader) (hfuel : depth + fuel = limits.maxRecursionDepth) :
    resolveHeader codecs bytes envelope limits fuel depth decodedBytes
        (.pendingExternalFolders pending) =
      (stopAt limits depth "external-folder resolution depth overflows").elim
        (Unpackio.openExternalFolders codecs bytes envelope limits pending decodedBytes) throw := by
  rw [resolveHeader]
  exact level_eq limits depth fuel _ (fun _ _ => _) hfuel

theorem silence_resolveLoop (fuel : Nat) (state : Resolution)
    (hfuel : state.depth + fuel = limits.maxRecursionDepth) :
    (resolveLoop (Unpackio.decodeFolder (Unpackio.decodeCoder codecs)) bytes envelope limits
        (fuel + 1) state).silence =
      some <$> resolveHeader codecs bytes envelope limits fuel state.depth state.decodedBytes
        state.nextHeader := by
  induction fuel using Nat.strong_induction_on generalizing state with
  | _ fuel ih =>
    obtain ⟨depth, decodedBytes, next⟩ := state
    have hdepth : depth + fuel = limits.maxRecursionDepth := hfuel
    rw [silence_resolveLoop_succ]
    cases next with
    | header header =>
      rw [resolveRound, resolveHeader, silence_map, silence_openPlainHeader, bind_map_left,
        ← bind_pure_comp]
    | encodedHeader streams =>
      rw [resolveRound_encodedHeader, resolveHeader_encodedHeader _ _ _ _ _ _ _ _ hdepth]
      cases hstop : stopAt limits depth "encoded-header recursion depth overflows" with
      | some e => rfl
      | none =>
        have hlt := lt_of_stopAt limits hstop
        simp only [Option.elim_none, silence_bind, silence_note, silence_openEncodedHeader,
          silence_pure, pure_bind, map_bind]
        refine (bind_assoc _ _ _).trans (congrArg _ (funext fun opened => ?_))
        obtain ⟨fuel, rfl⟩ := Nat.exists_eq_add_of_lt (show 0 < fuel by omega)
        exact ih _ (by omega) ⟨depth + 1, opened.2, opened.1⟩ (by simp only; omega)
    | pendingExternalFolders pending =>
      rw [resolveRound_pendingExternalFolders,
        resolveHeader_pendingExternalFolders _ _ _ _ _ _ _ _ hdepth]
      cases stopAt limits depth "external-folder resolution depth overflows" with
      | some e => rfl
      | none =>
        rw [Option.elim_none, Option.elim_none, silence_bind, silence_note, pure_bind, silence_map,
          silence_openExternalFolders, bind_map_left, ← bind_pure_comp]

variable (archive : Archive)

section

variable (streams : StreamsInfo) (folderIndex : Nat) (folder : Folder)

@[simp] theorem silence_decodeMemberFolder (remaining : Nat) :
    (decodeMemberFolder (Unpackio.decodeFolder (Unpackio.decodeCoder codecs)) archive streams
        folderIndex folder remaining).silence =
      archive.decodeMemberFolder codecs streams folderIndex folder remaining := by
  simp only [decodeMemberFolder, Archive.decodeMemberFolder, silence_bind, silence_noting,
    silence_mapError, silence_decoding]

@[simp] theorem silence_decodeWithinTotal (totalOutput : Nat) :
    (decodeWithinTotal (Unpackio.decodeFolder (Unpackio.decodeCoder codecs)) archive streams
        folderIndex folder totalOutput).silence =
      archive.decodeWithinTotal codecs streams folderIndex folder totalOutput := by
  simp only [decodeWithinTotal, Archive.decodeWithinTotal, silence_bind, silence_lift,
    silence_decodeMemberFolder, silence_pure]

end

theorem silence_verifyFolders (streams : StreamsInfo) (folders : List Folder)
    (folderIndex totalOutput : Nat) (entries : List (FileEntry × Nat)) :
    (verifyFolders (Unpackio.decodeFolder (Unpackio.decodeCoder codecs)) archive streams folders
        folderIndex totalOutput entries).silence =
      archive.verifyFolders codecs streams folders folderIndex totalOutput entries := by
  induction folders generalizing folderIndex totalOutput entries with
  | nil => rfl
  | cons folder folders ih =>
    rw [verifyFolders, Archive.verifyFolders]
    simp only [silence_bind, silence_noting, silence_decodeWithinTotal, ih]

@[simp] theorem silence_verifyAdditional :
    (verifyAdditional (Unpackio.decodeFolder (Unpackio.decodeCoder codecs)) archive).silence =
      archive.verifyAdditional codecs := by
  unfold verifyAdditional Archive.verifyAdditional
  cases archive.header.additionalStreams with
  | none => rfl
  | some streams =>
    simp only [silence_bind, silence_processAdditionalFolders, silence_pure]
    rfl

theorem silence_verify :
    (verify (Unpackio.decodeFolder (Unpackio.decodeCoder codecs)) archive).silence =
      archive.verify codecs := by
  rw [verify, Archive.verify, silence_bind, silence_verifyAdditional]
  refine congrArg _ (funext fun totalOutput => ?_)
  cases archive.header.mainStreams with
  | none => rfl
  | some streams => exact silence_verifyFolders codecs archive streams _ _ _ _

end Silence

end Accounted

end Unpackio
