/-
What an opened archive keeps of its validated header, and where its packed streams
lie.

The header of an archive is a validated plain header.  External properties only
change attributes of its entries.
-/
import Unpackio.Archive.Members
import Unpackio.Validate.PackRanges

namespace Unpackio

open Prog (granted_bind_eq_ok granted_pure_eq_ok granted_rest)
open Reading (bind_eq_ok pure_eq_ok)

variable {limits : Limits} {bytes : List UInt8} {envelope : HeaderEnvelope}

def FileEntry.placement (entry : FileEntry) : Bool × Bool × Bool × Option FileStream :=
  (entry.hasStream, entry.emptyFile, entry.antiItem, entry.stream)

def KeepsPlacement {σ : Type} (apply : FileEntry → σ → Reading (FileEntry × σ)) : Prop :=
  ∀ entry total reader result next, (apply entry total reader).granted = .ok (result, next) →
    result.1.placement = entry.placement

theorem applyDefined_placement {σ : Type} {apply : FileEntry → σ → Reading (FileEntry × σ)}
    (happly : KeepsPlacement apply) (pairs : List (FileEntry × Bool)) {total : σ}
    {reader next : BoundedReader} {result : List FileEntry × σ}
    (h : (applyDefined apply pairs total reader).granted = .ok (result, next)) :
    result.1.map FileEntry.placement = pairs.map fun pair => pair.1.placement := by
  induction pairs generalizing total reader result with
  | nil =>
    cases pure_eq_ok.mp h
    rfl
  | cons pair pairs ih =>
    obtain ⟨entry, isDefined⟩ := pair
    obtain ⟨_, _, -, h⟩ := bind_eq_ok.mp h
    cases isDefined with
    | true =>
      rw [if_pos rfl] at h
      obtain ⟨⟨entry', total'⟩, _, hentry, h⟩ := bind_eq_ok.mp h
      obtain ⟨⟨entries, _⟩, _, hrest, h⟩ := bind_eq_ok.mp h
      cases pure_eq_ok.mp h
      rw [List.map_cons, List.map_cons, ih hrest]
      exact congrArg (· :: _) (happly _ _ _ _ _ hentry)
    | false =>
      rw [if_neg Bool.false_ne_true] at h
      obtain ⟨⟨entries, _⟩, _, hrest, h⟩ := bind_eq_ok.mp h
      cases pure_eq_ok.mp h
      rw [List.map_cons, List.map_cons, ih hrest]

theorem applyExternalName_placement (limits : Limits) (fuel : Nat) :
    KeepsPlacement (applyExternalName limits fuel) := by
  intro entry total reader result next h
  obtain ⟨⟨name, nameBytes⟩, _, -, h⟩ := bind_eq_ok.mp h
  obtain ⟨_, _, -, h⟩ := bind_eq_ok.mp h
  obtain ⟨_, _, -, h⟩ := bind_eq_ok.mp h
  cases pure_eq_ok.mp h
  rfl

theorem keeping_placement {σ : Type} {apply : FileEntry → Reading FileEntry}
    (happly : ∀ entry reader result next, (apply entry reader).granted = .ok (result, next) →
      result.placement = entry.placement) : @KeepsPlacement σ (keeping apply) := by
  intro entry total reader result next h
  obtain ⟨entry', _, hentry, h⟩ := bind_eq_ok.mp h
  cases pure_eq_ok.mp h
  exact happly _ _ _ _ hentry

theorem applyExternalU64_placement (propertyId : UInt8) (entry : FileEntry)
    (reader : BoundedReader) (result : FileEntry) (next : BoundedReader)
    (h : (applyExternalU64 propertyId entry reader).granted = .ok (result, next)) :
    result.placement = entry.placement := by
  obtain ⟨value, reader', -, h⟩ := bind_eq_ok.mp h
  split at h
  · cases pure_eq_ok.mp h
    rfl
  · split at h
    · cases pure_eq_ok.mp h
      rfl
    · split at h
      · cases pure_eq_ok.mp h
        rfl
      · split at h
        · cases pure_eq_ok.mp h
          rfl
        · exact (nomatch h)

theorem applyExternalAttributes_placement (entry : FileEntry) (reader : BoundedReader)
    (result : FileEntry) (next : BoundedReader)
    (h : (applyExternalAttributes entry reader).granted = .ok (result, next)) :
    result.placement = entry.placement := by
  obtain ⟨value, _, -, h⟩ := bind_eq_ok.mp h
  cases pure_eq_ok.mp h
  rfl

theorem applyExternalStream_placement {σ : Type}
    {apply : FileEntry → σ → Reading (FileEntry × σ)} (happly : KeepsPlacement apply)
    {entries : List FileEntry} {property : ExternalProperty} {data : List UInt8} {total : σ}
    {detail : String} {result : List FileEntry × σ}
    (h : (applyExternalStream apply entries property data total detail).granted = .ok result) :
    result.1.map FileEntry.placement = entries.map FileEntry.placement := by
  obtain ⟨_, hlength, h⟩ := granted_bind_eq_ok.mp h
  obtain ⟨⟨entries', reader⟩, happlied, h⟩ := granted_bind_eq_ok.mp h
  obtain ⟨_, h⟩ := granted_rest h
  cases granted_pure_eq_ok.mp h
  have hlength := rejectIf_eq_ok.mp (Prog.granted_lift_eq_ok.mp hlength)
  rw [applyDefined_placement happly _ happlied]
  show List.map (FileEntry.placement ∘ Prod.fst) _ = _
  rw [← List.map_map, List.map_fst_zip (by omega)]

theorem applyExternalProperty_placement {entries : List FileEntry} {property : ExternalProperty}
    {data : List UInt8} {total : Nat} {result : List FileEntry × Nat}
    (h : (applyExternalProperty limits entries property data total).granted = .ok result) :
    result.1.map FileEntry.placement = entries.map FileEntry.placement := by
  unfold applyExternalProperty at h
  split at h
  · exact applyExternalStream_placement (applyExternalName_placement limits _) h
  · split at h
    · exact applyExternalStream_placement
        (keeping_placement (applyExternalU64_placement property.propertyId)) h
    · split at h
      · exact applyExternalStream_placement
          (keeping_placement applyExternalAttributes_placement) h
      · exact (nomatch h)

theorem applyExternalLoop_placement {decoded : DecodedAdditionalStreams}
    (properties : List ExternalProperty) {entries result : List FileEntry} {total : Nat}
    (h : (applyExternalLoop decoded limits properties entries total).granted = .ok result) :
    result.map FileEntry.placement = entries.map FileEntry.placement := by
  induction properties generalizing entries total with
  | nil =>
    cases granted_pure_eq_ok.mp h
    rfl
  | cons property properties ih =>
    obtain ⟨_, h⟩ := granted_rest h
    obtain ⟨stream, -, h⟩ := granted_bind_eq_ok.mp h
    obtain ⟨⟨entries', total'⟩, hstep, h⟩ := granted_bind_eq_ok.mp h
    rw [Prog.granted_mapError, Except.mapError_eq_ok] at hstep
    rw [ih h]
    exact applyExternalProperty_placement hstep

/-! ## Headers -/

/-- The header differs from its base in the attributes of the entries only. -/
structure ArchiveHeader.Refines (header base : ArchiveHeader) : Prop where
  archiveProperties : header.archiveProperties = base.archiveProperties
  additionalStreams : header.additionalStreams = base.additionalStreams
  mainStreams : header.mainStreams = base.mainStreams
  entries : header.files.map (fun files => files.entries.map FileEntry.placement) =
    base.files.map fun files => files.entries.map FileEntry.placement

theorem ArchiveHeader.Refines.refl (header : ArchiveHeader) : header.Refines header :=
  ⟨rfl, rfl, rfl, rfl⟩

theorem applyExternalProperties_refines {header result : ArchiveHeader}
    {decoded : DecodedAdditionalStreams}
    (h : (applyExternalProperties header decoded limits).granted = .ok result) :
    result.Refines header := by
  unfold applyExternalProperties at h
  cases hfiles : header.files with
  | none =>
    simp only [hfiles] at h
    cases granted_pure_eq_ok.mp h
    exact .refl _
  | some files =>
    simp only [hfiles] at h
    split at h
    · cases granted_pure_eq_ok.mp h
      exact .refl _
    · obtain ⟨total, -, h⟩ := granted_bind_eq_ok.mp h
      obtain ⟨entries, hloop, h⟩ := granted_bind_eq_ok.mp h
      cases granted_pure_eq_ok.mp h
      refine ⟨rfl, rfl, rfl, ?_⟩
      rw [hfiles]
      exact congrArg some (applyExternalLoop_placement _ hloop)

theorem resolveExternalProperties_refines {decodeCoder : CoderDecoder} {header : ArchiveHeader}
    {archiveBytes : List UInt8} {maximum : Nat} {result : ArchiveHeader × Nat}
    (h : (resolveExternalProperties decodeCoder header archiveBytes limits maximum).granted =
      .ok result) : result.1.Refines header := by
  unfold resolveExternalProperties at h
  cases hfiles : header.files with
  | none =>
    simp only [hfiles] at h
    cases granted_pure_eq_ok.mp h
    exact .refl _
  | some files =>
    simp only [hfiles] at h
    split at h
    · cases granted_pure_eq_ok.mp h
      exact .refl _
    · obtain ⟨streams, -, h⟩ := granted_bind_eq_ok.mp h
      obtain ⟨decoded, -, h⟩ := granted_bind_eq_ok.mp h
      obtain ⟨header', happlied, h⟩ := granted_bind_eq_ok.mp h
      cases granted_pure_eq_ok.mp h
      exact applyExternalProperties_refines happlied

/-- The outcome of `validate_next_header` for these bytes. -/
def Validated (bytes : List UInt8) (envelope : HeaderEnvelope) (limits : Limits)
    (next : ParsedNextHeader) : Prop :=
  ∃ raw, (validateNextHeader raw envelope bytes limits).granted = .ok next

theorem resolveHeader_refines {codecs : Codecs} {fuel depth decodedBytes : Nat}
    {header base : ArchiveHeader}
    (h : (resolveHeader codecs bytes envelope limits fuel depth decodedBytes
      (.header base)).granted = .ok header) : header.Refines base := by
  rw [resolveHeader] at h
  obtain ⟨_, h⟩ := granted_rest h
  obtain ⟨⟨header', _⟩, hresolve, h⟩ := granted_bind_eq_ok.mp h
  obtain ⟨_, h⟩ := granted_rest h
  cases granted_pure_eq_ok.mp h
  exact resolveExternalProperties_refines hresolve

/-- The loop of `open_bytes_inner` ends with a validated header. -/
theorem resolveHeader_validated {codecs : Codecs} (fuel : Nat) {depth decodedBytes : Nat}
    {next : ParsedNextHeader} {header : ArchiveHeader}
    (hnext : Validated bytes envelope limits next)
    (h : (resolveHeader codecs bytes envelope limits fuel depth decodedBytes next).granted =
      .ok header) :
    ∃ base, Validated bytes envelope limits (.header base) ∧ header.Refines base := by
  induction fuel generalizing depth decodedBytes next with
  | zero =>
    cases next with
    | header base => exact ⟨base, hnext, resolveHeader_refines h⟩
    | encodedHeader streams =>
      rw [resolveHeader] at h
      obtain ⟨_, h⟩ := granted_rest h
      exact (nomatch h)
    | pendingExternalFolders pending =>
      rw [resolveHeader] at h
      obtain ⟨_, h⟩ := granted_rest h
      exact (nomatch h)
  | succ fuel ih =>
    cases next with
    | header base => exact ⟨base, hnext, resolveHeader_refines h⟩
    | encodedHeader streams =>
      rw [resolveHeader] at h
      obtain ⟨_, h⟩ := granted_rest h
      obtain ⟨⟨next', decodedBytes'⟩, hopen, h⟩ := granted_bind_eq_ok.mp h
      refine ih ?_ h
      obtain ⟨_, hopen⟩ := granted_rest hopen
      obtain ⟨decoded, -, hopen⟩ := granted_bind_eq_ok.mp hopen
      obtain ⟨_, hopen⟩ := granted_rest hopen
      obtain ⟨next'', hparse, hopen⟩ := granted_bind_eq_ok.mp hopen
      cases granted_pure_eq_ok.mp hopen
      rw [Prog.granted_mapError, Except.mapError_eq_ok] at hparse
      obtain ⟨_, hparse⟩ := granted_rest hparse
      obtain ⟨⟨raw, _⟩, -, hparse⟩ := granted_bind_eq_ok.mp hparse
      exact ⟨raw, hparse⟩
    | pendingExternalFolders pending =>
      rw [resolveHeader] at h
      obtain ⟨_, h⟩ := granted_rest h
      obtain ⟨_, h⟩ := granted_rest h
      obtain ⟨decoded, -, h⟩ := granted_bind_eq_ok.mp h
      obtain ⟨_, h⟩ := granted_rest h
      obtain ⟨folderStream, -, h⟩ := granted_bind_eq_ok.mp h
      obtain ⟨resolved, hparse, h⟩ := granted_bind_eq_ok.mp h
      rw [Prog.granted_mapError, Except.mapError_eq_ok] at hparse
      obtain ⟨_, hparse⟩ := granted_rest hparse
      obtain ⟨⟨raw, _⟩, -, hparse⟩ := granted_bind_eq_ok.mp hparse
      cases resolved with
      | header base => exact ⟨base, ⟨raw, hparse⟩, applyExternalProperties_refines h⟩
      | encodedHeader streams => exact (nomatch h)
      | pendingExternalFolders pending => exact (nomatch h)

theorem scanCandidates_eq_ok {α : Type} {candidate : Nat → Metered α}
    (windows : List (List UInt8 × Nat)) {firstError : Option Error} {value : α}
    (h : (scanCandidates candidate windows firstError).granted = .ok value) :
    ∃ offset, (candidate offset).granted = .ok value := by
  induction windows generalizing firstError with
  | nil => cases firstError <;> exact (nomatch h)
  | cons window windows ih =>
    obtain ⟨window, offset⟩ := window
    obtain ⟨_, h⟩ := granted_rest h
    rw [Prog.granted_ite] at h
    split at h
    · exact ih h
    · obtain ⟨result, hresult, h⟩ := granted_bind_eq_ok.mp h
      rw [Prog.granted_attempt, Except.ok.injEq] at hresult
      cases result with
      | ok other =>
        cases granted_pure_eq_ok.mp h
        exact ⟨offset, hresult⟩
      | error error =>
        rw [Prog.granted_ite] at h
        split at h
        · exact (nomatch h)
        · exact ih h

theorem validatedCandidate_validated {offset : Nat} {parsed : ParsedArchive}
    (h : (validatedCandidate bytes limits offset).granted = .ok parsed) :
    (parseCandidate bytes offset limits).granted = .ok parsed.envelope ∧
      Validated bytes parsed.envelope limits parsed.nextHeader := by
  obtain ⟨envelope, henvelope, h⟩ := granted_bind_eq_ok.mp h
  obtain ⟨_, h⟩ := granted_rest h
  obtain ⟨⟨raw, _⟩, -, h⟩ := granted_bind_eq_ok.mp h
  obtain ⟨validated, hvalidated, h⟩ := granted_bind_eq_ok.mp h
  cases granted_pure_eq_ok.mp h
  exact ⟨henvelope, raw, hvalidated⟩

theorem parseArchive_candidate {parsed : ParsedArchive}
    (h : (parseArchive bytes limits).granted = .ok parsed) :
    ∃ offset, (validatedCandidate bytes limits offset).granted = .ok parsed := by
  obtain ⟨_, h⟩ := granted_rest h
  split at h
  · exact ⟨0, h⟩
  · obtain ⟨scanBytes, -, h⟩ := granted_bind_eq_ok.mp h
    cases scanBytes with
    | none => exact (nomatch h)
    | some scanBytes => exact scanCandidates_eq_ok _ h

theorem Archive.openBytes_validated {codecs : Codecs} {archive : Archive}
    (h : (Archive.openBytes codecs bytes limits).granted = .ok archive) :
    archive.bytes = bytes ∧ archive.limits = limits ∧
      (∃ offset, (parseCandidate bytes offset limits).granted = .ok archive.envelope) ∧
      ∃ base, Validated bytes archive.envelope limits (.header base) ∧
        archive.header.Refines base := by
  obtain ⟨parsed, hparsed, h⟩ := granted_bind_eq_ok.mp h
  obtain ⟨header, hresolve, h⟩ := granted_bind_eq_ok.mp h
  cases granted_pure_eq_ok.mp h
  obtain ⟨offset, hcandidate⟩ := parseArchive_candidate hparsed
  obtain ⟨henvelope, hvalidated⟩ := validatedCandidate_validated hcandidate
  exact ⟨rfl, rfl, ⟨offset, henvelope⟩, resolveHeader_validated _ hvalidated hresolve⟩

namespace Archive

/-- One stored folder with the files `ab` and `cde`, and an empty file between
them. -/
def copyArchive : List UInt8 :=
  signature ++ [0, 4, 0xc6, 0xdd, 0x93, 0x5a] ++ [5, 0, 0, 0, 0, 0, 0, 0] ++
    [45, 0, 0, 0, 0, 0, 0, 0] ++ [0xb1, 0x6e, 0x49, 0xe7] ++ [97, 98, 99, 100, 101] ++
    [1, 4, 6, 0, 1, 9, 5, 0, 7, 11, 1, 0, 1, 1, 0, 12, 5, 0, 8, 13, 2, 9, 2, 10, 1,
      0x6d, 0x48, 0x83, 0x9e, 0x1f, 0x97, 0x99, 0x89, 0, 0, 5, 3, 14, 1, 0x40, 15, 1, 0x80, 0, 0]

def copyFolder : Folder :=
  ⟨[⟨[0], 0, 1, 0, 1, [], none⟩], [], [0], [some 5], 0, [0], none,
    [⟨some 2, some 0x9e83486d⟩, ⟨some 3, some 0x8999971f⟩], 0, 0⟩

def copyEntries : List FileEntry :=
  [⟨none, true, false, false, none, none, none, none, none, some ⟨0, 0, some 2, some 0x9e83486d⟩⟩,
    ⟨none, false, true, false, none, none, none, none, none, none⟩,
    ⟨none, true, false, false, none, none, none, none, none, some ⟨0, 1, some 3, some 0x8999971f⟩⟩]

def openedCopyArchive : Archive :=
  ⟨copyArchive, ⟨0, ⟨0, 4⟩, 37, 45, 0xe7496eb1, .header⟩,
    ⟨[], none, some ⟨0, [⟨32, some 5, none⟩], [copyFolder], 2⟩, some ⟨copyEntries, [], []⟩⟩,
    Limits.default⟩

theorem openBytes_copyArchive :
    (openBytes .copyOnly copyArchive Limits.default).granted = .ok openedCopyArchive := by
  decide +kernel

end Archive

/-! ## Packed streams -/

theorem validateOptionalStreams_packed {raw : Option RawStreamsInfo} {archiveBytes : List UInt8}
    {ranges ranges' : List (Nat × Nat)} {streams : Option StreamsInfo}
    (h : (validateOptionalStreams raw envelope archiveBytes limits ranges).granted =
      .ok (streams, ranges')) :
    (∀ info, streams = some info → PackedSection envelope archiveBytes info) ∧
      ranges' = ranges ++ streams.elim [] (sectionRanges envelope) := by
  cases raw with
  | none =>
    cases granted_pure_eq_ok.mp h
    exact ⟨fun _ hsome => (nomatch hsome), (List.append_nil _).symm⟩
  | some raw =>
    obtain ⟨⟨info, _⟩, hinfo, h⟩ := granted_bind_eq_ok.mp h
    cases granted_pure_eq_ok.mp h
    obtain ⟨hsection, hranges⟩ := validateStreams_packed hinfo
    refine ⟨fun other hother => ?_, hranges⟩
    cases hother
    exact hsection

/-- The sections of a header lie soundly in the archive and apart. -/
structure PackedHeader (envelope : HeaderEnvelope) (archiveBytes : List UInt8)
    (additionalStreams mainStreams : Option StreamsInfo) : Prop where
  additional : ∀ streams, additionalStreams = some streams →
    PackedSection envelope archiveBytes streams
  main : ∀ streams, mainStreams = some streams → PackedSection envelope archiveBytes streams
  apart : ∀ first, additionalStreams = some first → ∀ second, mainStreams = some second →
    ∀ a ∈ first.packStreams, ∀ b ∈ second.packStreams, Disjoint a.extent b.extent

theorem Validated.packed {header : ArchiveHeader}
    (h : Validated bytes envelope limits (.header header)) :
    PackedHeader envelope bytes header.additionalStreams header.mainStreams := by
  obtain ⟨raw, h⟩ := h
  cases raw with
  | externalFolders pending =>
    iterate 6 obtain ⟨_, h⟩ := granted_rest h
    exact (nomatch h)
  | encoded streams =>
    obtain ⟨_, h⟩ := granted_rest h
    obtain ⟨_, h⟩ := granted_rest h
    exact (nomatch h)
  | header raw =>
    rw [validateNextHeader, Prog.granted_map] at h
    obtain ⟨plain, h, hplain⟩ := Except.map_eq_ok.mp h
    cases hplain
    obtain ⟨⟨additional, _⟩, hadditional, h⟩ := granted_bind_eq_ok.mp h
    obtain ⟨⟨main, _⟩, hmain, h⟩ := granted_bind_eq_ok.mp h
    obtain ⟨_, hoverlap, h⟩ := granted_bind_eq_ok.mp h
    obtain ⟨files, -, h⟩ := granted_bind_eq_ok.mp h
    obtain ⟨properties, -, h⟩ := granted_bind_eq_ok.mp h
    cases granted_pure_eq_ok.mp h
    obtain ⟨hadditionalSection, rfl⟩ := validateOptionalStreams_packed hadditional
    obtain ⟨hmainSection, rfl⟩ := validateOptionalStreams_packed hmain
    refine ⟨hadditionalSection, hmainSection, ?_⟩
    rintro first rfl second rfl
    exact (hadditionalSection first rfl).disjoint (hmainSection second rfl)
      (Prog.granted_lift_eq_ok.mp hoverlap)

namespace Archive

theorem openBytes_packed {codecs : Codecs} {archive : Archive}
    (h : (openBytes codecs bytes limits).granted = .ok archive) :
    PackedHeader archive.envelope archive.bytes archive.header.additionalStreams
      archive.header.mainStreams := by
  obtain ⟨hbytes, -, -, base, hvalidated, hrefines⟩ := openBytes_validated h
  rw [hbytes, hrefines.additionalStreams, hrefines.mainStreams]
  exact hvalidated.packed

/-- In an opened archive the packed streams of a section lie one behind the
other behind the signature header and before the next header, those of the two
sections share no byte, and the folders of a section split its streams.  So
`load_packed_inputs` fails on no index and on no range. -/
theorem openBytes_packedRanges (codecs : Codecs) (bytes : List UInt8) (limits : Limits)
    (archive : Archive) (h : (openBytes codecs bytes limits).granted = .ok archive) :
    (∀ streams, (archive.header.mainStreams = some streams ∨
        archive.header.additionalStreams = some streams) →
      ContiguousFrom (archive.envelope.signatureOffset + 32 + streams.packPosition)
          streams.packStreams ∧
        (∀ stream ∈ streams.packStreams, ∃ size, stream.size = some size ∧
          archive.envelope.signatureOffset + 32 ≤ stream.offset ∧
          stream.offset + size ≤ archive.envelope.nextHeaderOffset ∧
          stream.offset + size ≤ archive.bytes.length) ∧
        streams.folders.flatMap Folder.packStreamIndices =
          List.range streams.packStreams.length ∧
        ∀ folder ∈ streams.folders, folder.LoadsInRange archive.bytes streams) ∧
    ∀ additional, archive.header.additionalStreams = some additional →
      ∀ main, archive.header.mainStreams = some main →
        ∀ a ∈ additional.packStreams, ∀ b ∈ main.packStreams, Disjoint a.extent b.extent := by
  have hpacked := openBytes_packed h
  refine ⟨fun streams hstreams => ?_, hpacked.apart⟩
  have hsection : PackedSection archive.envelope archive.bytes streams := by
    rcases hstreams with hmain | hadditional
    · exact hpacked.main streams hmain
    · exact hpacked.additional streams hadditional
  refine ⟨hsection.contiguous, fun stream hstream => ?_, hsection.partition,
    fun folder hfolder => hsection.loadsInRange hfolder⟩
  obtain ⟨size, hsize, hheader, -, hbytes⟩ := hsection.readable stream hstream
  obtain ⟨hstart, -⟩ := hsection.contiguous.bounds stream hstream
  exact ⟨size, hsize, Nat.le_of_add_right_le hstart, hheader, hbytes⟩

theorem openBytes_packedRanges_copyArchive :
    ∃ archive streams, (openBytes .copyOnly copyArchive Limits.default).granted = .ok archive ∧
      archive.header.mainStreams = some streams ∧
      ContiguousFrom 32 streams.packStreams ∧
      ∀ folder ∈ streams.folders, folder.LoadsInRange archive.bytes streams := by
  have hpacked := openBytes_packedRanges .copyOnly copyArchive Limits.default _
    openBytes_copyArchive
  obtain ⟨hcontiguous, -, -, hloads⟩ := hpacked.1 _ (.inl rfl)
  exact ⟨_, _, openBytes_copyArchive, rfl, hcontiguous, hloads⟩

end Archive

end Unpackio
