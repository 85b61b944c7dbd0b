/-
What holds of every ZIP file that the parser accepts.

The locator is arbitrary.  Whatever offsets and hints it gives, each accepted
entry has a central record and a local record that agree, and the local records
lie in front of the central directory without a common byte.
-/
import Unpackio.Checkpoints
import Unpackio.Zip.Records

namespace Unpackio
namespace Zip

open Prog (CanReturn)

/-! ## Local records -/

/-- A local header with the data behind it, and the descriptor behind the data. -/
structure LocalRecord where
  header : LocalHeader
  data : List UInt8
  descriptor : Option Descriptor

namespace LocalRecord

def descriptorBytes (record : LocalRecord) : List UInt8 :=
  record.descriptor.elim [] Descriptor.bytes

def bytes (record : LocalRecord) : List UInt8 :=
  record.header.bytes ++ (record.data ++ record.descriptorBytes)

end LocalRecord

def hasDescriptor (flags : Nat) : Prop := flags &&& flagDataDescriptor ≠ 0

instance (flags : Nat) : Decidable (hasDescriptor flags) := inferInstanceAs (Decidable (_ ≠ _))

/-- The local record says what the central record says. -/
structure Agrees (central : CentralHeader) (resolved : ResolvedCentral) (record : LocalRecord) :
    Prop where
  name_eq : record.header.name = central.name
  method_eq : record.header.fixed.method = central.fixed.method
  flags_eq : record.header.fixed.flags = central.fixed.flags
  data_length : record.data.length = resolved.compressedSize
  -- Without bit 3 the local header has the CRC and the sizes.
  header_values : ¬hasDescriptor central.fixed.flags → record.descriptor = none ∧
    record.header.fixed.crc32 = central.fixed.crc32 ∧
      record.header.Declares resolved.compressedSize resolved.uncompressedSize
  -- With bit 3 the descriptor has them.
  descriptor_values : hasDescriptor central.fixed.flags → ∃ descriptor,
    record.descriptor = some descriptor ∧ descriptor.Fits ∧
      descriptor.zip64 = resolved.descriptorUsesZip64 ∧
      descriptor.crc32 = central.fixed.crc32 ∧
      descriptor.compressedSize = resolved.compressedSize ∧
      descriptor.uncompressedSize = resolved.uncompressedSize

/-- Where the data and the record end that stand at `offset`. -/
structure RecordRange (bytes : List UInt8) (offset : Nat) (range : LocalRange)
    (record : LocalRecord) : Prop where
  present : record.bytes <+: bytes.drop offset
  dataStart_eq : range.dataStart = offset + record.header.bytes.length
  dataEnd_eq : range.dataEnd = range.dataStart + record.data.length
  recordEnd_eq : range.recordEnd = offset + record.bytes.length

variable {bytes : List UInt8} {directoryOffset : Nat}

theorem exists_data {start length : Nat} (h : start + length ≤ bytes.length) :
    ∃ data : List UInt8, data.length = length ∧
      bytes.drop start = data ++ bytes.drop (start + length) := by
  refine ⟨(bytes.drop start).take length, ?_, ?_⟩
  · rw [List.length_take, List.length_drop]
    omega
  · rw [← List.drop_drop, List.take_append_drop]

theorem validateLocal_ok (hlen : bytes.length < 2 ^ 64) {offset : Nat} {central : CentralHeader}
    {resolved : ResolvedCentral} {range : LocalRange} (hdirectory : directoryOffset ≤ bytes.length)
    (h : validateLocal bytes offset central.name central.extra central.fixed resolved
      directoryOffset = .ok range) :
    ∃ record, Agrees central resolved record ∧ RecordRange bytes offset range record := by
  simp only [validateLocal, Except.bind_eq_ok, okOr_eq_ok, checkedAdd_eq_some, rejectIf_eq_ok,
    checkedRange_iff_drop hlen] at h
  obtain ⟨fixed, hfixed, _, hsame, _, ⟨-, rfl⟩, _, ⟨-, rfl⟩, content,
    ⟨hcontentFits, hcontentCount, hcontent⟩, localName, hname, localExtra, hextra, _, hnames, _,
    hvalid, _, -, _, -, _, -, _, ⟨-, rfl⟩, _, ⟨-, rfl⟩, _, hbefore, recordEnd, hsizes, h⟩ := h
  cases h
  simp only [not_or, ne_eq, Decidable.not_not] at hsame hnames
  obtain ⟨hflags, hmethod⟩ := hsame
  have hbefore := Nat.le_of_not_lt hbefore
  obtain ⟨hfits, -, versionNeeded, modifiedTime, modifiedDate, hpart⟩ :=
    parseLocalFixed_ok hlen hfixed
  obtain ⟨hnameLength, hsplit⟩ := getRange_split hname
  have hextraDrop := getRange_from hextra
  rw [hextraDrop] at hsplit
  have hcount := congrArg List.length hsplit
  rw [List.length_append] at hcount
  let header : LocalHeader := ⟨versionNeeded, modifiedTime, modifiedDate, fixed, localName,
    localExtra, hfits, hnameLength.symm, by omega⟩
  have hheaderLength : header.bytes.length = localFixedBytes + (fixed.nameLength +
      fixed.extraLength) := by
    rw [header.length_bytes]
    show localFixedBytes + (localName.length + localExtra.length) = _
    omega
  have hstart : offset + localFixedBytes + (fixed.nameLength + fixed.extraLength) =
      offset + header.bytes.length := by rw [hheaderLength, Nat.add_assoc]
  rw [hstart] at hcontent hbefore hsizes
  have hheader : bytes.drop offset = header.bytes ++ bytes.drop (offset + header.bytes.length) := by
    rw [hpart, hcontent, hsplit]
    exact (List.append_assoc _ _ _).symm
  obtain ⟨data, hdataLength, hdata⟩ := exists_data (show
    offset + header.bytes.length + resolved.compressedSize ≤ bytes.length by omega)
  rw [validateSizes] at hsizes
  by_cases hdescriptor : fixed.flags &&& flagDataDescriptor ≠ 0
  · rw [if_pos hdescriptor] at hsizes
    obtain ⟨signed, hfitsDescriptor, -, hdrop, hfinish⟩ := validateDescriptor_ok hlen hsizes
    refine ⟨⟨header, data, some ⟨signed, resolved.descriptorUsesZip64, central.fixed.crc32,
      resolved.compressedSize, resolved.uncompressedSize⟩⟩, ⟨hnames, hmethod, hflags, hdataLength,
        fun hnot => absurd (hflags ▸ hdescriptor) hnot,
        fun _ => ⟨_, rfl, hfitsDescriptor, rfl, rfl, rfl, rfl⟩⟩, ⟨?_, hstart, ?_, ?_⟩⟩
    · refine ⟨bytes.drop recordEnd, ?_⟩
      rw [hheader, hdata, hdrop, LocalRecord.bytes, LocalRecord.descriptorBytes]
      simp only [Option.elim_some, List.append_assoc]
    · simp only [hdataLength]
    · rw [hfinish, LocalRecord.bytes, LocalRecord.descriptorBytes]
      simp only [Option.elim_some, List.length_append, hdataLength]
      omega
  · rw [if_neg hdescriptor] at hsizes
    simp only [Except.bind_eq_ok, rejectIf_eq_ok] at hsizes
    obtain ⟨⟨localCompressed, localUncompressed⟩, hlocal, _, hvalues, hsizes⟩ := hsizes
    cases hsizes
    simp only [not_or, ne_eq, Decidable.not_not] at hvalues
    obtain ⟨hcrc, rfl, rfl⟩ := hvalues
    have hdeclares : header.Declares resolved.compressedSize resolved.uncompressedSize :=
      resolveLocalSizes_ok hvalid hlocal
    refine ⟨⟨header, data, none⟩, ⟨hnames, hmethod, hflags, hdataLength,
      fun _ => ⟨rfl, hcrc, hdeclares⟩, fun hhas => absurd (hflags ▸ hhas) hdescriptor⟩,
      ⟨?_, hstart, ?_, ?_⟩⟩
    · refine ⟨bytes.drop (offset + header.bytes.length + resolved.compressedSize), ?_⟩
      rw [hheader, hdata, LocalRecord.bytes, LocalRecord.descriptorBytes]
      simp only [Option.elim_none, List.append_nil, List.append_assoc]
    · simp only [hdataLength]
    · rw [LocalRecord.bytes, LocalRecord.descriptorBytes]
      simp only [Option.elim_none, List.append_nil, List.length_append, hdataLength]
      omega

/-- Two ranges without a common byte. -/
def Apart (first second : Nat × Nat) : Prop := first.2 ≤ second.1 ∨ second.2 ≤ first.1

theorem nonOverlappingLoop_ok {previousEnd : Nat} {ranges : List (Nat × Nat)}
    (h : nonOverlappingLoop directoryOffset ranges previousEnd = .ok ()) :
    (∀ range ∈ ranges, previousEnd ≤ range.1 ∧ range.2 ≤ directoryOffset) ∧
      ranges.Pairwise Apart := by
  induction ranges generalizing previousEnd with
  | nil => exact ⟨fun _ hmem => (nomatch hmem), .nil⟩
  | cons range ranges ih =>
    obtain ⟨_, hcheck, hrest⟩ := Except.bind_eq_ok.mp h
    have hcheck := rejectIf_eq_ok.mp hcheck
    obtain ⟨hinside, hapart⟩ := ih hrest
    refine ⟨List.forall_mem_cons.mpr ⟨by omega, fun other hmem => ?_⟩,
      .cons (fun other hmem => .inl (hinside other hmem).1) hapart⟩
    have hother := hinside other hmem
    exact ⟨by omega, hother.2⟩

theorem validateNonOverlapping_ok {ranges : List (Nat × Nat)}
    (h : validateNonOverlapping ranges directoryOffset = .ok ()) :
    (∀ range ∈ ranges, range.2 ≤ directoryOffset) ∧ ranges.Pairwise Apart := by
  have hperm := List.perm_insertionSort (fun first second : Nat × Nat => first.1 ≤ second.1) ranges
  obtain ⟨hinside, hapart⟩ := nonOverlappingLoop_ok h
  exact ⟨fun range hmem => (hinside range (hperm.mem_iff.mpr hmem)).2,
    (hperm.pairwise_iff Or.symm).mp hapart⟩

/-! ## Entries -/

/-- An accepted entry with the records it comes from. -/
structure Member where
  raw : RawEntry
  central : CentralHeader
  resolved : ResolvedCentral
  record : LocalRecord
  entry : ZipEntry

namespace Member

variable (member : Member)

/-- The bytes of the local record. -/
def range : Nat × Nat :=
  (member.entry.localHeaderOffset,
    member.entry.localHeaderOffset + member.record.bytes.length)

/-- The entry, the central record and the local record fit each other and the
bytes of the file. -/
structure Consistent (bytes : List UInt8) (sliceStart : Nat) : Prop where
  central_present : member.central.bytes <+:
    bytes.drop (sliceStart + member.raw.centralDirectoryOffset)
  record_present : member.record.bytes <+: bytes.drop member.entry.localHeaderOffset
  declares : member.central.Declares member.resolved
  agrees : Agrees member.central member.resolved member.record
  rawName_eq : member.entry.rawName = member.central.name
  flags_eq : member.entry.flags = member.central.fixed.flags
  compressedSize_eq : member.entry.compressedSize = member.resolved.compressedSize
  uncompressedSize_eq : member.entry.uncompressedSize = member.resolved.uncompressedSize
  -- AE-2 members have no CRC.
  crc32_eq : member.entry.crc32 = some member.central.fixed.crc32 ∨
    (member.entry.crc32 = none ∧ member.central.fixed.crc32 = 0)
  localHeaderOffset_eq : member.entry.localHeaderOffset =
    sliceStart + member.raw.localHeaderOffset
  dataStart_eq : member.entry.dataStart =
    member.entry.localHeaderOffset + member.record.header.bytes.length
  dataEnd_eq : member.entry.dataEnd = member.entry.dataStart + member.entry.compressedSize

end Member

theorem copyBytes_canReturn {out : List UInt8} (h : (copyBytes bytes).CanReturn out) :
    out = bytes := by
  have hgranted := (passes_copyBytes (fun _ => True) bytes).granted_of_canReturn h
  rw [copyBytes_granted] at hgranted
  exact (Except.ok.inj hgranted).symm

theorem entryCrc32_ok {fixed : CentralFixed} {aes : Option ParsedAes} {crc32 : Option Nat}
    (h : entryCrc32 fixed aes = .ok crc32) :
    crc32 = some fixed.crc32 ∨ (crc32 = none ∧ fixed.crc32 = 0) := by
  unfold entryCrc32 at h
  split at h
  · obtain ⟨_, hzero, h⟩ := Except.bind_eq_ok.mp h
    cases h
    exact .inr ⟨rfl, not_not.mp (rejectIf_eq_ok.mp hzero)⟩
  · cases h
    exact .inl rfl

theorem buildEntry_canReturn {record : CentralRecord} {resolved : ResolvedCentral}
    {localOffset entryIndex : Nat} {range : LocalRange} {entry : ZipEntry}
    (h : (buildEntry record resolved localOffset range entryIndex).CanReturn entry) :
    entry.index = entryIndex ∧ entry.rawName = record.name ∧ entry.flags = record.fixed.flags ∧
      entry.compressedSize = resolved.compressedSize ∧
      entry.uncompressedSize = resolved.uncompressedSize ∧
      (entry.crc32 = some record.fixed.crc32 ∨ (entry.crc32 = none ∧ record.fixed.crc32 = 0)) ∧
      entry.localHeaderOffset = localOffset ∧ entry.dataStart = range.dataStart ∧
      entry.dataEnd = range.dataEnd := by
  simp only [buildEntry, CanReturn.bind_iff, CanReturn.lift_iff, CanReturn.pure_iff] at h
  obtain ⟨_, -, _, -, crc32, hcrc, _, -, rawName, hname, _, -, _, -, rfl⟩ := h
  exact ⟨rfl, copyBytes_canReturn hname, rfl, rfl, rfl, entryCrc32_ok hcrc, rfl, rfl, rfl⟩

theorem parseEntry_canReturn (hlen : bytes.length < 2 ^ 64) {sliceStart : Nat}
    (hdirectory : directoryOffset ≤ bytes.length) {limits : Limits} {state next : ParseState}
    {raw : RawEntry}
    (h : (parseEntry bytes sliceStart directoryOffset limits state raw).CanReturn next) :
    ∃ member : Member, member.raw = raw ∧ member.Consistent bytes sliceStart ∧
      member.entry.index = state.count ∧ next.count = state.count + 1 ∧
      next.entries = state.entries ++ [member.entry] ∧
      next.ranges = state.ranges ++ [member.range] := by
  simp only [parseEntry, CanReturn.bind_iff, CanReturn.lift_iff, CanReturn.pure_iff, okOr_eq_ok,
    checkedAdd_eq_some, absoluteOffset, checkedSub_eq_some] at h
  obtain ⟨_, -, _, ⟨-, rfl⟩, _, -, _, ⟨-, rfl⟩, record, hrecord, ⟨resolved, totalNameBytes⟩,
    hcheck, _, ⟨-, rfl⟩, _, -, _, -, range, hrange, _, ⟨-, rfl⟩, entry, hentry, rfl⟩ := h
  obtain ⟨central, hfixed, hname, hextra, -, hpresent⟩ := parseCentral_ok hlen hrecord
  simp only [checkCentral, Except.bind_eq_ok] at hcheck
  obtain ⟨_, -, _, hvalid, _, -, _, -, _, -, _, hresolved, _, -, _, -, _, -, _, -, hcheck⟩ := hcheck
  cases hcheck
  rw [← hname, ← hextra, ← hfixed] at hrange
  rw [← hfixed, ← hextra] at hresolved
  rw [← hextra] at hvalid
  obtain ⟨localRecord, hagrees, hranges⟩ := validateLocal_ok hlen hdirectory hrange
  obtain ⟨hindex, hrawName, hflags, hcompressed, huncompressed, hcrc, hoffset, hdataStart,
    hdataEnd⟩ := buildEntry_canReturn hentry
  rw [← hname] at hrawName
  rw [← hfixed] at hflags hcrc
  refine ⟨⟨raw, central, resolved, localRecord, entry⟩, rfl, ?_, hindex, rfl, rfl, ?_⟩
  · refine ⟨hpresent, ?_, resolveCentral_ok hvalid hresolved, hagrees, hrawName, hflags,
      hcompressed, huncompressed, hcrc, hoffset, ?_, ?_⟩
    · rw [hoffset]
      exact hranges.present
    · rw [hdataStart, hoffset]
      exact hranges.dataStart_eq
    · rw [hdataEnd, hranges.dataEnd_eq, hdataStart, hcompressed, hagrees.data_length]
  · show _ ++ [(sliceStart + raw.localHeaderOffset, range.recordEnd)] = _
    rw [hranges.recordEnd_eq, Member.range, hoffset]

/-- The members that an entry loop has gone through. -/
structure Gathered (bytes : List UInt8) (sliceStart : Nat) (members : List Member)
    (state : ParseState) : Prop where
  consistent : ∀ member ∈ members, member.Consistent bytes sliceStart
  entries_eq : state.entries = members.map Member.entry
  ranges_eq : state.ranges = members.map Member.range
  count_eq : state.count = members.length
  index_eq : ∀ (i : Nat) (member : Member), members[i]? = some member → member.entry.index = i

theorem entryLoop_canReturn (hlen : bytes.length < 2 ^ 64) {sliceStart : Nat}
    (hdirectory : directoryOffset ≤ bytes.length) {limits : Limits}
    {outcomes : List (Outcome RawEntry)} {state final : ParseState} {members : List Member}
    (hstate : Gathered bytes sliceStart members state)
    (h : (entryLoop bytes sliceStart directoryOffset limits outcomes state).CanReturn final) :
    ∃ others : List Member, outcomes = others.map (fun member => .found member.raw) ∧
      Gathered bytes sliceStart (members ++ others) final := by
  induction outcomes generalizing state members with
  | nil =>
    cases CanReturn.pure_iff.mp h
    exact ⟨[], rfl, (List.append_nil members).symm ▸ hstate⟩
  | cons outcome outcomes ih =>
    simp only [entryLoop, CanReturn.bind_iff, CanReturn.lift_iff] at h
    obtain ⟨raw, hraw, next, hnext, h⟩ := h
    have houtcome : outcome = .found raw := by
      cases outcome with
      | found value => exact congrArg Outcome.found (Except.ok.inj hraw)
      | invalid => exact (nomatch hraw)
      | panicked => exact (nomatch hraw)
    obtain ⟨member, hmember, hconsistent, hindex, hcount, hentries, hranges⟩ :=
      parseEntry_canReturn hlen hdirectory hnext
    have hgathered : Gathered bytes sliceStart (members ++ [member]) next := by
      refine ⟨fun other hmem => ?_, ?_, ?_, ?_, fun i other hother => ?_⟩
      · rcases List.mem_append.mp hmem with hmem | hmem
        · exact hstate.consistent other hmem
        · exact List.mem_singleton.mp hmem ▸ hconsistent
      · rw [hentries, hstate.entries_eq, List.map_append, List.map_singleton]
      · rw [hranges, hstate.ranges_eq, List.map_append, List.map_singleton]
      · rw [hcount, hstate.count_eq, List.length_append, List.length_singleton]
      · rcases Nat.lt_or_ge i members.length with hlt | hge
        · rw [List.getElem?_append_left hlt] at hother
          exact hstate.index_eq i other hother
        · rw [List.getElem?_append_right hge] at hother
          obtain ⟨hlast, hother⟩ := List.getElem?_eq_some_iff.mp hother
          rw [List.getElem_singleton] at hother
          rw [List.length_singleton] at hlast
          rw [← hother, hindex, hstate.count_eq]
          omega
    obtain ⟨others, hothers, hfinal⟩ := ih hgathered h
    refine ⟨member :: others, ?_, ?_⟩
    · rw [houtcome, hothers, List.map_cons, hmember]
    · rwa [List.append_assoc, List.singleton_append] at hfinal

theorem Member.Consistent.entryRange_eq (hlen : bytes.length < 2 ^ 64) {sliceStart : Nat}
    {member : Member} (h : member.Consistent bytes sliceStart) :
    entryRange bytes member.entry = .ok member.record.data := by
  obtain ⟨rest, hrest⟩ := h.record_present
  rw [LocalRecord.bytes, List.append_assoc, List.append_assoc] at hrest
  have hheader : 0 < member.record.header.bytes.length := by
    rw [member.record.header.length_bytes]
    exact Nat.lt_add_right _ (by decide)
  have hcount := congrArg List.length hrest
  have hdata := drop_of_append hrest.symm
  rw [List.length_drop, List.length_append] at hcount
  rw [← h.dataStart_eq] at hdata
  have hsize : member.entry.dataEnd - member.entry.dataStart = member.record.data.length := by
    rw [h.dataEnd_eq, h.compressedSize_eq, h.agrees.data_length, Nat.add_sub_cancel_left]
  rw [entryRange, checkedSub_of_le (h.dataEnd_eq ▸ Nat.le_add_right _ _), okOr_bind, hsize]
  exact checkedRange_of_drop hlen (by rw [h.dataStart_eq]; omega) hdata _ _

theorem parse_gathered {locate : Locator} {limits : Limits} (hlen : bytes.length < 2 ^ 64)
    {parsed : ParsedZip} (h : (parse locate bytes limits).CanReturn parsed) :
    ∃ (sliceStart : Nat) (located : LocatedZip) (members : List Member) (state : ParseState),
      locate (bytes.drop sliceStart) = .found located ∧
      sliceStart + located.directoryOffset ≤ bytes.length ∧
      located.entries = members.map (fun member => .found member.raw) ∧
      parsed.entries = state.entries ∧ Gathered bytes sliceStart members state ∧
      validateNonOverlapping state.ranges (sliceStart + located.directoryOffset) = .ok () := by
  simp only [parse, CanReturn.bind_iff, CanReturn.lift_iff, CanReturn.pure_iff, okOr_eq_ok,
    absoluteOffset, checkedAdd_eq_some, checkedSub_eq_some] at h
  obtain ⟨sliceStart, -, archiveBytes, harchive, located, hlocated, _, ⟨-, rfl⟩, _, -, _, ⟨-, rfl⟩,
    _, ⟨-, rfl⟩, _, -, _, ⟨hdirectory, -⟩, _, -, _, -, _, -, state, hstate, _, -, _, hranges, _, -,
    comment, -, rfl⟩ := h
  obtain ⟨-, -, harchive⟩ := getRange_eq_some.mp harchive
  rw [List.take_length] at harchive
  have hfound : locate (bytes.drop sliceStart) = .found located := by
    rw [harchive]
    cases hcall : locate archiveBytes with
    | found value =>
      rw [hcall] at hlocated
      exact congrArg Outcome.found (Except.ok.inj hlocated)
    | invalid =>
      rw [hcall] at hlocated
      cases hlocated
    | panicked =>
      rw [hcall] at hlocated
      cases hlocated
  have hinitial : Gathered bytes sliceStart [] .initial :=
    ⟨fun _ hmem => (by cases hmem), rfl, rfl, rfl, fun _ _ hmem => (by cases hmem)⟩
  obtain ⟨members, hmembers, hgathered⟩ := entryLoop_canReturn hlen hdirectory hinitial hstate
  exact ⟨sliceStart, located, members, state, hfound, hdirectory, hmembers, rfl, hgathered,
    hranges⟩

/-- An accepted ZIP file is consistent.  Its entries are those of the central
directory, each with a central and a local record that agree; the local records
lie in front of the central directory, without a common byte; and the data of
each entry can be taken out of its own record. -/
theorem parse_consistent (locate : Locator) (limits : Limits) (bytes : List UInt8)
    (hlen : bytes.length < 2 ^ 64) (parsed : ParsedZip)
    (h : (parse locate bytes limits).CanReturn parsed) :
    ∃ (sliceStart : Nat) (located : LocatedZip) (members : List Member),
      locate (bytes.drop sliceStart) = .found located ∧
      located.entries = members.map (fun member => .found member.raw) ∧
      parsed.entries = members.map Member.entry ∧
      (∀ member ∈ members, member.Consistent bytes sliceStart ∧
        member.range.2 ≤ sliceStart + located.directoryOffset ∧
        entryRange bytes member.entry = .ok member.record.data) ∧
      (members.map Member.range).Pairwise Apart := by
  obtain ⟨sliceStart, located, members, state, hlocate, -, hraws, hentries, hgathered, hranges⟩ :=
    parse_gathered hlen h
  rw [hgathered.ranges_eq] at hranges
  obtain ⟨hinside, hapart⟩ := validateNonOverlapping_ok hranges
  refine ⟨sliceStart, located, members, hlocate, hraws, hentries.trans hgathered.entries_eq, ?_,
    hapart⟩
  intro member hmem
  have hconsistent := hgathered.consistent member hmem
  exact ⟨hconsistent, hinside member.range (List.mem_map_of_mem hmem),
    hconsistent.entryRange_eq hlen⟩

def sampleCentral (flags crc32 size localHeaderOffset : Nat) : CentralFixed where
  versionMadeBy := 20
  versionNeeded := 20
  flags := flags
  method := 0
  modifiedTime := 0
  modifiedDate := 0x5021
  crc32 := crc32
  compressedSize := size
  uncompressedSize := size
  nameLength := 1
  extraLength := 0
  commentLength := 0
  diskStart := 0
  internalAttributes := 0
  externalAttributes := 0
  localHeaderOffset := localHeaderOffset

def sampleBytes : List UInt8 :=
  localFixedPart 20 0 0x5021 ⟨0, 0, 0xb6cc4292, 2, 2, 1, 0⟩ ++ [0x61, 1, 2] ++
    localFixedPart 20 0 0x5021 ⟨8, 0, 0, 0, 0, 1, 0⟩ ++ [0x62, 3] ++
    Descriptor.bytes ⟨true, false, 0x4b0bbe37, 1, 1⟩ ++
    centralFixedPart (sampleCentral 0 0xb6cc4292 2 0) ++ [0x61] ++
    centralFixedPart (sampleCentral 8 0x4b0bbe37 1 33) ++ [0x62] ++
    toLeBytes 4 eocdSignature ++ toLeBytes 2 0 ++ toLeBytes 2 0 ++ toLeBytes 2 2 ++
    toLeBytes 2 2 ++ toLeBytes 4 94 ++ toLeBytes 4 81 ++ toLeBytes 2 0

def sampleLocate : Locator := fun bytes =>
  if bytes = sampleBytes then
    .found {
      endOffset := 197
      directoryOffset := 81
      eocdOffset := 175
      entriesHint := 2
      comment := []
      entries := [.found ⟨81, [0x61], 2, 2, 0⟩, .found ⟨128, [0x62], 1, 1, 33⟩] }
  else .invalid

def sampleParsed : ParsedZip :=
  ((parse sampleLocate sampleBytes Limits.default).granted.toOption).getD ⟨[], []⟩

theorem parse_consistent_sample :
    ∃ (sliceStart : Nat) (located : LocatedZip) (members : List Member),
      sampleLocate (sampleBytes.drop sliceStart) = .found located ∧
      located.entries = members.map (fun member => .found member.raw) ∧
      sampleParsed.entries = members.map Member.entry ∧
      (∀ member ∈ members, member.Consistent sampleBytes sliceStart ∧
        member.range.2 ≤ sliceStart + located.directoryOffset ∧
        entryRange sampleBytes member.entry = .ok member.record.data) ∧
      (members.map Member.range).Pairwise Apart :=
  parse_consistent sampleLocate Limits.default sampleBytes (by decide +kernel) sampleParsed
    (.of_granted (by decide +kernel))

example : sampleParsed.entries.map ZipEntry.dataStart = [31, 64] := by decide +kernel

end Zip
end Unpackio
