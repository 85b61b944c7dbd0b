/-
The mapping from files to substreams that `validate_files` builds.
-/
import Unpackio.Header.Results
import Unpackio.Validate.Substreams

namespace Unpackio

open Prog (granted_bind_eq_ok granted_pure_eq_ok granted_rest)

/-- `members` are the substreams of `folders`, each once, folder by folder. -/
structure FolderMajor (folders : List Folder) (members : List FileStream) : Prop where
  mem_iff : ∀ member, member ∈ members ↔ ∃ folder substream,
    folders[member.folderIndex]? = some folder ∧
      folder.substreams[member.substreamIndex]? = some substream ∧
      member.size = substream.size ∧ member.crc = substream.crc
  ordered : members.Pairwise fun a b => a.folderIndex < b.folderIndex ∨
    a.folderIndex = b.folderIndex ∧ a.substreamIndex < b.substreamIndex

theorem mem_folderMappings {folderIndex : Nat} {folder : Folder} {member : FileStream} :
    member ∈ folderMappings folderIndex folder ↔ member.folderIndex = folderIndex ∧
      ∃ substream, folder.substreams[member.substreamIndex]? = some substream ∧
        member.size = substream.size ∧ member.crc = substream.crc := by
  simp only [folderMappings, List.mem_map, Prod.exists, List.mem_zipIdx_iff_getElem?]
  constructor
  · rintro ⟨substream, index, hget, rfl⟩
    exact ⟨rfl, substream, hget, rfl, rfl⟩
  · rintro ⟨rfl, substream, hget, hsize, hcrc⟩
    exact ⟨substream, member.substreamIndex, hget, by rw [← hsize, ← hcrc]⟩

theorem folderMajor_streamMappings (folders : List Folder) :
    FolderMajor folders (streamMappings folders) := by
  constructor
  · intro member
    simp only [streamMappings, List.mem_flatMap, Prod.exists, List.mem_zipIdx_iff_getElem?,
      mem_folderMappings]
    constructor
    · rintro ⟨folder, index, hget, rfl, substream, hsub⟩
      exact ⟨folder, substream, hget, hsub⟩
    · rintro ⟨folder, substream, hget, hsub⟩
      exact ⟨folder, member.folderIndex, hget, rfl, substream, hsub⟩
  · rw [streamMappings, List.pairwise_flatMap]
    constructor
    · rintro ⟨folder, index⟩ -
      show List.Pairwise _ (folderMappings index folder)
      rw [folderMappings, List.pairwise_map, List.pairwise_iff_getElem]
      intro i j hi hj hij
      simp only [List.getElem_zipIdx, Nat.zero_add]
      exact .inr ⟨trivial, hij⟩
    · rw [List.pairwise_iff_getElem]
      intro i j hi hj hij a ha b hb
      simp only [List.getElem_zipIdx, Nat.zero_add] at ha hb
      rw [(mem_folderMappings.mp ha).1, (mem_folderMappings.mp hb).1]
      exact .inl hij

theorem length_streamMappings (folders : List Folder) :
    (streamMappings folders).length =
      (folders.map fun folder => folder.substreams.length).sum := by
  have hfst : folders.map (fun folder => folder.substreams.length) =
      (folders.zipIdx.map Prod.fst).map fun folder => folder.substreams.length := by
    rw [List.zipIdx_map_fst]
  rw [streamMappings, List.length_flatMap, hfst, List.map_map]
  refine congrArg List.sum (List.map_congr_left fun entry _ => ?_)
  show (folderMappings entry.2 entry.1).length = entry.1.substreams.length
  rw [folderMappings, List.length_map, List.length_zipIdx]

variable {vectors : FileVectors} {mainStreams additionalStreams : Option StreamsInfo}
  {limits : Limits}

theorem streamAt_spec {isEmptyStream : Bool} {cursor cursor' : Nat} {stream : Option FileStream}
    (h : streamAt vectors isEmptyStream cursor = .ok (stream, cursor')) :
    stream.isSome = !isEmptyStream ∧ cursor' = cursor + stream.toList.length ∧
      (cursor < 2 ^ 64 → cursor' < 2 ^ 64) ∧
      ∀ n, stream.toList ++ (vectors.mappings.drop cursor').take n =
        (vectors.mappings.drop cursor).take (stream.toList.length + n) := by
  cases isEmptyStream with
  | true =>
    cases h
    refine ⟨rfl, rfl, id, fun n => ?_⟩
    rw [Option.toList_none, List.length_nil, Nat.zero_add]
    rfl
  | false =>
    obtain ⟨value, hvalue, h⟩ := Except.bind_eq_ok.mp h
    obtain ⟨next, hnext, h⟩ := Except.bind_eq_ok.mp h
    cases h
    obtain ⟨hroom, rfl⟩ := checkedAdd_eq_ok.mp hnext
    obtain ⟨hlt, hval⟩ := List.getElem?_eq_some_iff.mp (okOr_eq_ok.mp hvalue)
    refine ⟨rfl, rfl, fun _ => hroom, fun n => ?_⟩
    rw [Option.toList_some, List.length_singleton, Nat.add_comm 1 n,
      List.drop_eq_getElem_cons hlt, List.take_succ_cons, hval]
    rfl

theorem emptyBitsAt_stream {isEmptyStream : Bool} {emptyCursor cursor : Nat} {bits : Bool × Bool}
    (h : emptyBitsAt vectors isEmptyStream emptyCursor = .ok (bits, cursor))
    (hstream : (!isEmptyStream) = true) : bits.2 = false := by
  cases isEmptyStream with
  | true => exact absurd hstream Bool.false_ne_true
  | false =>
    cases h
    rfl

theorem filterMap_cons_eq {α β : Type} (f : α → Option β) (a : α) (l : List α) :
    (a :: l).filterMap f = (f a).toList ++ l.filterMap f := by
  rw [List.filterMap_cons]
  cases f a <;> rfl

/-- What the file loop takes of the vectors. -/
structure FilesTaken (vectors : FileVectors) (remaining fileIndex streamCursor streamCursor' : Nat)
    (files : List FileEntry) : Prop where
  length_eq : files.length = remaining
  bits_eq : files.map (fun file => !file.hasStream) =
    (vectors.emptyStreams.drop fileIndex).take remaining
  hasStream_eq : ∀ file ∈ files, file.hasStream = file.stream.isSome
  plain : ∀ file ∈ files, file.stream.isSome → file.antiItem = false
  mapped : files.filterMap FileEntry.stream = (vectors.mappings.drop streamCursor).take
    (files.filterMap FileEntry.stream).length
  cursor_eq : streamCursor' = streamCursor + (files.filterMap FileEntry.stream).length
  cursor_lt : streamCursor < 2 ^ 64 → streamCursor' < 2 ^ 64

/-- The induction goes over the files left.  A file takes the next member stream
exactly when it has a stream. -/
theorem fileEntries_spec (remaining fileIndex emptyCursor streamCursor : Nat)
    {files : List FileEntry} {emptyCursor' streamCursor' : Nat}
    (h : (fileEntries vectors remaining fileIndex emptyCursor streamCursor).granted =
      .ok (files, emptyCursor', streamCursor')) :
    FilesTaken vectors remaining fileIndex streamCursor streamCursor' files := by
  induction remaining generalizing fileIndex emptyCursor streamCursor files with
  | zero =>
    cases granted_pure_eq_ok.mp h
    exact ⟨rfl, rfl, fun _ hmem => absurd hmem List.not_mem_nil,
      fun _ hmem => absurd hmem List.not_mem_nil, rfl, rfl, id⟩
  | succ remaining ih =>
    obtain ⟨_, h⟩ := granted_rest h
    obtain ⟨isEmptyStream, hempty, h⟩ := granted_bind_eq_ok.mp h
    obtain ⟨⟨⟨isEmptyFile, isAnti⟩, _⟩, hanti, h⟩ := granted_bind_eq_ok.mp h
    obtain ⟨⟨stream, next⟩, hstream, h⟩ := granted_bind_eq_ok.mp h
    obtain ⟨rawName, -, h⟩ := granted_bind_eq_ok.mp h
    obtain ⟨creationTime, -, h⟩ := granted_bind_eq_ok.mp h
    obtain ⟨accessTime, -, h⟩ := granted_bind_eq_ok.mp h
    obtain ⟨modificationTime, -, h⟩ := granted_bind_eq_ok.mp h
    obtain ⟨windowsAttributes, -, h⟩ := granted_bind_eq_ok.mp h
    obtain ⟨startPosition, -, h⟩ := granted_bind_eq_ok.mp h
    obtain ⟨⟨rest, _, _⟩, hrest, h⟩ := granted_bind_eq_ok.mp h
    cases granted_pure_eq_ok.mp h
    have htaken := ih _ _ _ hrest
    obtain ⟨hlt, hval⟩ := List.getElem?_eq_some_iff.mp
      (okOr_eq_ok.mp (Prog.granted_lift_eq_ok.mp hempty))
    obtain ⟨hsome, hnext, hroom, htake⟩ := streamAt_spec (Prog.granted_lift_eq_ok.mp hstream)
    refine ⟨by rw [List.length_cons, htaken.length_eq], ?_,
      List.forall_mem_cons.mpr ⟨hsome.symm, htaken.hasStream_eq⟩,
      List.forall_mem_cons.mpr ⟨fun h => emptyBitsAt_stream
        (Prog.granted_lift_eq_ok.mp hanti) (hsome.symm.trans h), htaken.plain⟩, ?_, ?_,
      fun h => htaken.cursor_lt (hroom h)⟩
    · rw [List.map_cons, htaken.bits_eq, List.drop_eq_getElem_cons hlt, List.take_succ_cons, hval,
        Bool.not_not]
    · rw [filterMap_cons_eq, List.length_append, ← htake, ← htaken.mapped]
    · rw [filterMap_cons_eq, List.length_append, htaken.cursor_eq, hnext, Nat.add_assoc]

/-! ## FilesInfo -/

theorem collectStreamMappings_spec {streams : Option StreamsInfo} {mappings : List FileStream}
    (h : (collectStreamMappings streams).granted = .ok mappings) :
    mappings = streams.elim [] fun info => streamMappings info.folders := by
  obtain ⟨_, h⟩ := granted_rest h
  obtain ⟨_, h⟩ := granted_rest h
  obtain ⟨_, h⟩ := granted_rest h
  exact (granted_pure_eq_ok.mp h).symm

theorem granted_step {α β : Type} {p : Metered α} {next : α → β} {b : β} {motive : Prop}
    (h : (p >>= fun a => pure (next a)).granted = .ok b) (hnext : ∀ a, next a = b → motive) :
    motive := by
  obtain ⟨a, h⟩ := granted_rest h
  exact hnext a (granted_pure_eq_ok.mp h)

theorem granted_ite {β : Type} {c : Prop} [Decidable c] {p q : Metered β} {b : β} {motive : Prop}
    (h : (if c then p else q).granted = .ok b) (hp : p.granted = .ok b → motive)
    (hq : q.granted = .ok b → motive) : motive := by
  by_cases hc : c
  · rw [if_pos hc] at h
    exact hp h
  · rw [if_neg hc] at h
    exact hq h

theorem placeProperty_emptyStream {slots slots' : FilePropertySlots} {property : RawProperty}
    (h : (placeProperty slots property).granted = .ok slots') :
    if property.id = idEmptyStream then
      slots.emptyStream = none ∧ slots'.emptyStream = some property
    else slots'.emptyStream = slots.emptyStream := by
  unfold placeProperty at h
  by_cases hid : property.id = idEmptyStream
  · rw [if_pos hid] at h ⊢
    obtain ⟨slot, hslot, h⟩ := granted_bind_eq_ok.mp h
    cases granted_pure_eq_ok.mp h
    obtain ⟨_, hfree, hslot⟩ := Except.bind_eq_ok.mp (Prog.granted_lift_eq_ok.mp hslot)
    cases hslot
    refine ⟨?_, rfl⟩
    simpa using rejectIf_eq_ok.mp hfree
  · rw [if_neg hid] at h ⊢
    -- The other properties are put into other fields.
    iterate 9
      refine granted_ite h (fun h => granted_step h fun _ hnext => ?_) fun h => ?_
      · exact (congrArg FilePropertySlots.emptyStream hnext).symm
    exact granted_step h fun _ hnext => (congrArg FilePropertySlots.emptyStream hnext).symm

theorem foldlM_placeProperty_emptyStream (properties : List RawProperty)
    {slots slots' : FilePropertySlots}
    (h : (properties.foldlM placeProperty slots).granted = .ok slots') :
    (∀ property ∈ properties, property.id = idEmptyStream →
      slots'.emptyStream = some property) ∧
    ((∀ property ∈ properties, property.id ≠ idEmptyStream) →
      slots'.emptyStream = slots.emptyStream) ∧
    (∀ property, slots.emptyStream = some property → slots'.emptyStream = some property) := by
  induction properties generalizing slots with
  | nil =>
    cases granted_pure_eq_ok.mp h
    exact ⟨fun _ hmem => absurd hmem List.not_mem_nil, fun _ => rfl, fun _ h => h⟩
  | cons property properties ih =>
    rw [List.foldlM_cons] at h
    obtain ⟨middle, hplace, h⟩ := granted_bind_eq_ok.mp h
    obtain ⟨hlater, hnone, hkeep⟩ := ih h
    have hstep := placeProperty_emptyStream hplace
    by_cases hid : property.id = idEmptyStream
    · rw [if_pos hid] at hstep
      refine ⟨?_, ?_, ?_⟩
      · intro q hq hqid
        rcases List.mem_cons.mp hq with rfl | hq
        · exact hkeep _ hstep.2
        · exact hlater q hq hqid
      · exact fun hall => absurd hid (hall property List.mem_cons_self)
      · intro q hq
        rw [hstep.1] at hq
        exact nomatch hq
    · rw [if_neg hid] at hstep
      refine ⟨?_, ?_, ?_⟩
      · intro q hq hqid
        rcases List.mem_cons.mp hq with rfl | hq
        · exact absurd hqid hid
        · exact hlater q hq hqid
      · intro hall
        rw [hnone fun q hq => hall q (List.mem_cons_of_mem _ hq), hstep]
      · intro q hq
        exact hkeep q (by rw [hstep, hq])

/-- How the validated files stand to the EmptyStream property and to the
substreams of the main streams. -/
structure FilesMapped (raw : RawFilesInfo) (mainStreams : Option StreamsInfo)
    (files : FilesInfo) : Prop where
  length : files.entries.length = raw.count
  emptyStream : ∀ property ∈ raw.properties, property.id = idEmptyStream →
    (parsePlainBits property raw.count).granted =
      .ok (files.entries.map fun entry => !entry.hasStream)
  allStreams : (∀ property ∈ raw.properties, property.id ≠ idEmptyStream) →
    ∀ entry ∈ files.entries, entry.hasStream
  hasStream : ∀ entry ∈ files.entries, entry.hasStream = entry.stream.isSome
  mapped : FolderMajor (mainStreams.elim [] StreamsInfo.folders)
    (files.entries.filterMap FileEntry.stream)
  total : (files.entries.filterMap FileEntry.stream).length =
    ((mainStreams.elim [] StreamsInfo.folders).map fun folder => folder.substreams.length).sum

section

variable {raw : RawFilesInfo} {files : FilesInfo}
  (h : (validateFiles raw mainStreams additionalStreams limits).granted = .ok files)
include h

/-- The file loop of `validate_files` runs over the EmptyStream bits and over the
substreams of the main folders, and takes all of these. -/
theorem validateFiles_loop :
    ∃ (slots : FilePropertySlots) (vectors : FileVectors),
      (raw.properties.foldlM placeProperty FilePropertySlots.empty).granted = .ok slots ∧
      (optionalPlainBits slots.emptyStream raw.count).granted = .ok vectors.emptyStreams ∧
      FilesTaken vectors raw.count 0 0 vectors.mappings.length files.entries ∧
      files.entries.filterMap FileEntry.stream =
        streamMappings (mainStreams.elim [] StreamsInfo.folders) := by
  obtain ⟨_, h⟩ := granted_rest h
  obtain ⟨slots, hslots, h⟩ := granted_bind_eq_ok.mp h
  obtain ⟨emptyStreams, hempty, h⟩ := granted_bind_eq_ok.mp h
  obtain ⟨emptyFileBits, -, h⟩ := granted_bind_eq_ok.mp h
  obtain ⟨antiBits, -, h⟩ := granted_bind_eq_ok.mp h
  obtain ⟨⟨names, _⟩, -, h⟩ := granted_bind_eq_ok.mp h
  obtain ⟨⟨creationTimes, _⟩, -, h⟩ := granted_bind_eq_ok.mp h
  obtain ⟨⟨accessTimes, _⟩, -, h⟩ := granted_bind_eq_ok.mp h
  obtain ⟨⟨modificationTimes, _⟩, -, h⟩ := granted_bind_eq_ok.mp h
  obtain ⟨⟨attributeValues, _⟩, -, h⟩ := granted_bind_eq_ok.mp h
  obtain ⟨⟨startPositions, _⟩, -, h⟩ := granted_bind_eq_ok.mp h
  obtain ⟨mappings, hmappings, h⟩ := granted_bind_eq_ok.mp h
  obtain ⟨_, h⟩ := granted_rest h
  obtain ⟨⟨entries, emptyCursor, streamCursor⟩, hentries, h⟩ := granted_bind_eq_ok.mp h
  obtain ⟨_, hused, h⟩ := granted_bind_eq_ok.mp h
  cases granted_pure_eq_ok.mp h
  have htaken := fileEntries_spec _ _ _ _ hentries
  have hused := rejectIf_eq_ok.mp (Prog.granted_lift_eq_ok.mp hused)
  have hend : streamCursor = mappings.length := by
    by_contra hne
    exact hused (.inr (.inr hne))
  have hmapped := htaken.mapped
  have hcursor := htaken.cursor_eq
  rw [Nat.zero_add] at hcursor
  rw [List.drop_zero, ← hcursor, hend, List.take_length] at hmapped
  subst hend
  refine ⟨slots, _, hslots, hempty, htaken, ?_⟩
  show entries.filterMap FileEntry.stream = _
  rw [hmapped, collectStreamMappings_spec hmappings]
  cases mainStreams <;> rfl

theorem validateFiles_spec : FilesMapped raw mainStreams files := by
  obtain ⟨slots, vectors, hslots, hempty, htaken, hstreams⟩ := validateFiles_loop h
  obtain ⟨hplaced, habsent, -⟩ := foldlM_placeProperty_emptyStream _ hslots
  have hlength : vectors.emptyStreams.length = raw.count := by
    cases hslot : slots.emptyStream with
    | none =>
      rw [hslot] at hempty
      rw [← granted_pure_eq_ok.mp hempty]
      exact List.length_replicate
    | some property =>
      rw [hslot] at hempty
      obtain ⟨⟨bits, _⟩, hparse, hempty⟩ := granted_bind_eq_ok.mp hempty
      obtain ⟨_, hempty⟩ := granted_rest hempty
      rw [← granted_pure_eq_ok.mp hempty]
      exact length_parseBits hparse
  have hmap : files.entries.map (fun entry => !entry.hasStream) = vectors.emptyStreams := by
    rw [htaken.bits_eq, List.drop_zero, ← hlength, List.take_length]
  refine ⟨htaken.length_eq, ?_, ?_, htaken.hasStream_eq, ?_, ?_⟩
  · intro property hmem hid
    rw [hmap, ← hempty, hplaced property hmem hid]
    rfl
  · intro hnone entry hentry
    rw [habsent hnone] at hempty
    rw [← granted_pure_eq_ok.mp hempty] at hmap
    have hfalse := List.eq_of_mem_replicate (hmap ▸ List.mem_map_of_mem hentry)
    simpa using hfalse
  · rw [hstreams]
    exact folderMajor_streamMappings _
  · rw [hstreams, length_streamMappings]

end

theorem validateOptionalStreams_spec {raw : Option RawStreamsInfo} {envelope : HeaderEnvelope}
    {archiveBytes : List UInt8} {ranges ranges' : List (Nat × Nat)} {streams : Option StreamsInfo}
    (h : (validateOptionalStreams raw envelope archiveBytes limits ranges).granted =
      .ok (streams, ranges')) :
    streams.isSome = raw.isSome ∧
      ∀ r ∈ raw, ∀ info ∈ streams, SubstreamsExact r info := by
  cases raw with
  | none =>
    cases granted_pure_eq_ok.mp h
    exact ⟨rfl, fun _ hmem => (nomatch hmem)⟩
  | some rawStreams =>
    obtain ⟨⟨info, _⟩, hinfo, h⟩ := granted_bind_eq_ok.mp h
    cases granted_pure_eq_ok.mp h
    refine ⟨rfl, fun r hr i hi => ?_⟩
    cases hr
    cases hi
    exact validateStreams_spec hinfo

theorem validateOptionalFiles_spec {raw : RawFilesInfo} {files : Option FilesInfo}
    (h : (validateOptionalFiles (some raw) mainStreams additionalStreams limits).granted =
      .ok files) : ∃ info, files = some info ∧ FilesMapped raw mainStreams info := by
  rw [validateOptionalFiles, Prog.granted_map] at h
  obtain ⟨info, hinfo, rfl⟩ := Except.map_eq_ok.mp h
  exact ⟨info, rfl, validateFiles_spec hinfo⟩

/-- In an accepted plain header the files with a stream are the substreams in
folder-major order, and the substreams spend the vectors of SubStreamsInfo
exactly.  The sizes of a folder with a substream sum to its root size. -/
theorem validateNextHeader_mapped (raw : RawHeader) (files : RawFilesInfo)
    (envelope : HeaderEnvelope) (archiveBytes : List UInt8) (limits : Limits)
    (header : ArchiveHeader) (hfiles : raw.files = some files)
    (h : (validateNextHeader (.header raw) envelope archiveBytes limits).granted =
      .ok (.header header)) :
    (∃ info, header.files = some info ∧ FilesMapped files header.mainStreams info) ∧
      header.mainStreams.isSome = raw.mainStreams.isSome ∧
      (∀ rawStreams ∈ raw.mainStreams, ∀ streams ∈ header.mainStreams,
        SubstreamsExact rawStreams streams) ∧
      header.additionalStreams.isSome = raw.additionalStreams.isSome ∧
      ∀ rawStreams ∈ raw.additionalStreams, ∀ streams ∈ header.additionalStreams,
        SubstreamsExact rawStreams streams := by
  rw [validateNextHeader, Prog.granted_map] at h
  obtain ⟨plain, h, hplain⟩ := Except.map_eq_ok.mp h
  cases hplain
  obtain ⟨⟨additional, _⟩, hadditional, h⟩ := granted_bind_eq_ok.mp h
  obtain ⟨⟨main, _⟩, hmain, h⟩ := granted_bind_eq_ok.mp h
  obtain ⟨_, h⟩ := granted_rest h
  obtain ⟨info, hinfo, h⟩ := granted_bind_eq_ok.mp h
  obtain ⟨properties, -, h⟩ := granted_bind_eq_ok.mp h
  cases granted_pure_eq_ok.mp h
  rw [hfiles] at hinfo
  obtain ⟨hadditionalSome, hadditionalExact⟩ := validateOptionalStreams_spec hadditional
  obtain ⟨hmainSome, hmainExact⟩ := validateOptionalStreams_spec hmain
  exact ⟨validateOptionalFiles_spec hinfo, hmainSome, hmainExact, hadditionalSome,
    hadditionalExact⟩

def storedHeader (counts : List Nat) (sizes : Option (List Nat)) (files : Nat) : RawHeader :=
  { archiveProperties := []
    additionalStreams := none
    mainStreams := some
      { pack := some ⟨0, 1, some [5], none⟩
        unpack := some ⟨[⟨[⟨[0], 1, 1, []⟩], 1, 1, [], 1, none, [5]⟩], none⟩
        substreams := some ⟨counts, sizes, none⟩ }
    files := some ⟨files, []⟩ }

def storedEnvelope : HeaderEnvelope := ⟨0, ⟨0, 4⟩, 37, 1, 0, .header⟩

def storedFolder (substreams : List Substream) : Folder :=
  ⟨[⟨[0], 0, 1, 0, 1, [], none⟩], [], [0], [some 5], 0, [0], none, substreams, 0, 0⟩

def storedEntry (stream : FileStream) : FileEntry :=
  ⟨none, true, false, false, none, none, none, none, none, some stream⟩

def storedArchiveHeader (substreams : List Substream) (entries : List FileEntry) : ArchiveHeader :=
  ⟨[], none, some ⟨0, [⟨32, some 5, none⟩], [storedFolder substreams], substreams.length⟩,
    some ⟨entries, [], []⟩⟩

theorem validateNextHeader_mapped_two_files :
    FilesMapped ⟨2, []⟩
      (storedArchiveHeader [⟨some 2, none⟩, ⟨some 3, none⟩]
        [storedEntry ⟨0, 0, some 2, none⟩, storedEntry ⟨0, 1, some 3, none⟩]).mainStreams
      ⟨[storedEntry ⟨0, 0, some 2, none⟩, storedEntry ⟨0, 1, some 3, none⟩], [], []⟩ := by
  obtain ⟨⟨info, hinfo, hmapped⟩, -⟩ := validateNextHeader_mapped (storedHeader [2] (some [2]) 2)
    ⟨2, []⟩ storedEnvelope (List.replicate 38 0) Limits.default
    (storedArchiveHeader [⟨some 2, none⟩, ⟨some 3, none⟩]
      [storedEntry ⟨0, 0, some 2, none⟩, storedEntry ⟨0, 1, some 3, none⟩]) rfl (by decide +kernel)
  cases hinfo
  exact hmapped

/-- A folder with no substream keeps its root size, so its sizes do not sum to
it. -/
theorem validateNextHeader_no_substreams :
    (validateNextHeader (.header (storedHeader [0] none 0)) storedEnvelope (List.replicate 38 0)
        Limits.default).granted = .ok (.header (storedArchiveHeader [] [])) ∧
      (storedFolder []).rootSize = some 5 ∧
      (∀ size ∈ (storedFolder []).listedSizes, size ≠ none) ∧
      ¬SumsTo ((storedFolder []).substreams.map Substream.size) 5 := by
  refine ⟨by decide +kernel, rfl, fun _ hmem => absurd hmem List.not_mem_nil, ?_⟩
  rintro ⟨known, hmap, hsum⟩
  rw [show known = [] from List.map_eq_nil_iff.mp hmap.symm] at hsum
  exact nomatch hsum

end Unpackio
