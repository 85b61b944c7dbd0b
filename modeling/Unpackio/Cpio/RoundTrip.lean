/-
The round trip of a CPIO archive: the parser gives back the members that were
written, whatever the layout of each.
-/
import Unpackio.Cpio.Layout

namespace Unpackio
namespace Cpio

open List (length_append map_cons sum_cons)

/-- A member that its layout can hold. -/
structure Member where
  layout : Layout
  fields : Fields
  name : List UInt8
  data : List UInt8
  held : fields.HeldBy layout
  name_fits : name.length + 1 < layout.shortBound
  data_fits : data.length < layout.longBound
  plain : 0 ∉ name

namespace Member

variable (member : Member)

theorem alignment_pos :
    0 < (member.layout.parsed member.fields member.name member.data).alignment := by
  show 0 < member.layout.alignment
  cases member.layout with
  | newc => decide
  | crcNewc => decide
  | odc => decide
  | binary _ => exact Nat.two_pos

def record : Record where
  header := member.layout.header member.fields member.name member.data
  parsed := member.layout.parsed member.fields member.name member.data
  name := member.name
  data := member.data
  header_parses := parseHeader_layout member.held member.name_fits member.data_fits
  headerBytes_eq := (Layout.length_header _ _ _ _).symm
  nameSize_eq := rfl
  fileSize_eq := rfl
  alignment_pos := member.alignment_pos
  plain := member.plain

/-- The entry of the member in an archive where its record stands at `offset`. -/
def entry (index offset : Nat) : CpioEntry where
  index := index
  format := member.layout.format
  rawName := member.name
  inode := member.fields.inode
  mode := member.fields.mode
  uid := member.fields.uid
  gid := member.fields.gid
  linkCount := member.fields.linkCount
  modifiedTime := member.fields.modifiedTime
  size := member.data.length
  deviceMajor := member.fields.deviceMajor
  deviceMinor := member.fields.deviceMinor
  rdevMajor := member.fields.rdevMajor
  rdevMinor := member.fields.rdevMinor
  checksum := member.layout.checksum member.data
  dataStart := member.record.dataStart offset
  dataEnd := member.record.dataStart offset + member.data.length

/-- The header bytes of the member up to the end of its name. -/
def headerCost : Nat := member.layout.headerBytes + (member.name.length + 1)

theorem checked : member.record.Checked := by
  intro expected h
  have h : member.layout.checksum member.data = some expected := h
  cases hlayout : member.layout with
  | crcNewc =>
    rw [hlayout] at h
    exact Option.some.inj h
  | newc | odc | binary _ =>
    rw [hlayout] at h
    exact (nomatch h)

end Member

def archiveBytes (members : List Member) (trailer : Member) (count : Nat) : List UInt8 :=
  recordsBytes 0 (members.map Member.record) ++
    (trailer.record.bytes (recordsFinish 0 (members.map Member.record)) ++ zeros count)

def memberEntries : Nat → Nat → List Member → List CpioEntry
  | _, _, [] => []
  | index, offset, member :: members =>
    member.entry index offset :: memberEntries (index + 1) (member.record.finish offset) members

def archiveFormat (members : List Member) (trailer : Member) : CpioFormat :=
  if ∀ member ∈ members, member.layout = trailer.layout then trailer.layout.format else .mixed

/-- The limits allow the archive. -/
structure Sufficient (limits : Limits) (members : List Member) (trailer : Member) : Prop where
  headerBytes : (members.map Member.headerCost).sum + trailer.headerCost ≤ limits.maxHeaderBytes
  files : members.length ≤ limits.maxFiles
  name : ∀ member ∈ members, member.name.length ≤ limits.maxNameBytesPerEntry
  names : (members.map fun member => member.name.length).sum ≤ limits.maxTotalNameBytes
  output : ∀ member ∈ members, member.data.length ≤ limits.maxEntryOutputBytes

theorem Layout.format_injective {layout other : Layout} (h : layout.format = other.format) :
    layout = other := by
  rcases layout with _ | _ | _ | ⟨_ | _⟩ <;> rcases other with _ | _ | _ | ⟨_ | _⟩ <;>
    first | rfl | exact (nomatch h)

theorem commonFormat_concat (formats : List CpioFormat) (last : CpioFormat) :
    commonFormat (formats ++ [last]) =
      some (if ∀ format ∈ formats, format = last then last else .mixed) := by
  cases formats with
  | nil => rfl
  | cons format formats =>
    rw [List.cons_append, commonFormat]
    by_cases hall : ∀ other ∈ format :: formats, other = last
    · have hformat := hall format List.mem_cons_self
      have hsame : ∀ other ∈ formats ++ [last], other = format := by
        intro other hmem
        rcases List.mem_append.mp hmem with hmem | hmem
        · rw [hall other (List.mem_cons_of_mem _ hmem), hformat]
        · rw [List.mem_singleton.mp hmem, hformat]
      rw [if_pos hall, if_pos hsame, hformat]
    · have hdiffer : ¬∀ other ∈ formats ++ [last], other = format := by
        intro hsame
        have hlast := hsame last (List.mem_append_right _ (List.mem_singleton_self _))
        refine hall fun other hmem => ?_
        rcases List.mem_cons.mp hmem with rfl | hmem
        · exact hlast.symm
        · rw [hsame other (List.mem_append_left _ hmem), hlast]
      rw [if_neg hall, if_neg hdiffer]

theorem commonFormat_members (members : List Member) (trailer : Member) :
    commonFormat ((members.map Member.record ++ [trailer.record]).map
      fun record => record.parsed.format) = some (archiveFormat members trailer) := by
  rw [List.map_append, List.map_map, List.map_singleton, commonFormat_concat]
  refine congrArg some (if_congr ?_ rfl rfl)
  rw [List.forall_mem_map]
  exact ⟨fun h member hmem => Layout.format_injective (h member hmem),
    fun h member hmem => congrArg Layout.format (h member hmem)⟩

open EntriesState in
theorem admitsAll_members {limits : Limits} {trailer : Member} (htrailer : trailer.name =
    trailerName)
    (hdata : trailer.data = []) {members : List Member}
    (hname : ∀ member ∈ members, member.name ≠ trailerName) {state : EntriesState}
    (hheaderLt : state.totalHeaderBytes + ((members.map Member.headerCost).sum +
      trailer.headerCost) < 2 ^ 64)
    (hheader : state.totalHeaderBytes + ((members.map Member.headerCost).sum +
      trailer.headerCost) ≤ limits.maxHeaderBytes)
    (hfilesLt : state.entries.length + members.length < 2 ^ 64)
    (hfiles : state.entries.length + members.length ≤ limits.maxFiles)
    (hnamesLt : state.totalNameBytes + (members.map fun member => member.name.length).sum < 2 ^ 64)
    (hnames : state.totalNameBytes + (members.map fun member => member.name.length).sum ≤
      limits.maxTotalNameBytes)
    (hnameBytes : ∀ member ∈ members, member.name.length ≤ limits.maxNameBytesPerEntry)
    (houtput : ∀ member ∈ members, member.data.length ≤ limits.maxEntryOutputBytes) :
    state.AdmitsAll limits trailer.record (members.map Member.record) := by
  have hcost : ∀ member : Member, member.headerCost =
      member.record.header.length + (member.record.name.length + 1) := by
    intro member
    rw [← member.record.headerBytes_eq]
    rfl
  induction members generalizing state with
  | nil =>
    rw [List.map_nil, List.sum_nil, Nat.zero_add, hcost trailer,
      ← Nat.add_assoc] at hheaderLt hheader
    exact ⟨⟨hheaderLt, hheader⟩, htrailer, hdata⟩
  | cons member members ih =>
    rw [map_cons, sum_cons, hcost member] at hheaderLt hheader
    rw [map_cons, sum_cons] at hnamesLt hnames
    rw [List.length_cons] at hfilesLt hfiles
    obtain ⟨hmemberName, hname⟩ := List.forall_mem_cons.mp hname
    obtain ⟨hmemberBytes, hnameBytes⟩ := List.forall_mem_cons.mp hnameBytes
    obtain ⟨hmemberOutput, houtput⟩ := List.forall_mem_cons.mp houtput
    have hnameLength : member.record.name.length = member.name.length := rfl
    have hcount : (state.absorb member.record).entries.length = state.entries.length + 1 := by
      rw [absorb, length_append, List.length_singleton]
    have htotal : (state.absorb member.record).totalHeaderBytes =
      state.totalHeaderBytes + member.record.header.length + (member.record.name.length + 1) := rfl
    have htotalNames : (state.absorb member.record).totalNameBytes =
      state.totalNameBytes + member.record.name.length := rfl
    refine ⟨⟨by omega, by omega⟩, ⟨by omega, by omega, hmemberBytes, by omega, by omega,
      hmemberOutput, member.checked, hmemberName⟩, ?_⟩
    exact ih hname (by omega) (by omega) (by omega) (by omega) (by omega) (by omega) hnameBytes
      houtput

theorem headerCost_le (offset : Nat) (members : List Member) :
    (members.map Member.headerCost).sum ≤
      (recordsBytes offset (members.map Member.record)).length := by
  induction members generalizing offset with
  | nil => exact Nat.le_refl _
  | cons member members ih =>
    have hrest := ih (member.record.finish offset)
    have hmember := member.record.headerCost_le offset
    rw [map_cons, sum_cons, map_cons, recordsBytes, length_append]
    rw [← member.record.headerBytes_eq] at hmember
    exact Nat.add_le_add hmember hrest

theorem names_le_headerCost (members : List Member) :
    (members.map fun member => member.name.length).sum ≤
      (members.map Member.headerCost).sum := by
  induction members with
  | nil => exact Nat.le_refl _
  | cons member members ih =>
    simp only [map_cons, sum_cons, Member.headerCost]
    omega

theorem recordEntries_members (index offset : Nat) (members : List Member) :
    recordEntries index offset (members.map Member.record) =
      memberEntries index offset members := by
  induction members generalizing index offset with
  | nil => rfl
  | cons member members ih => exact congrArg _ (ih _ _)

theorem memberEntries_data {payload rest : List UInt8} {index offset : Nat} {members : List Member}
    (hoffset : offset ≤ payload.length)
    (h : payload.drop offset = recordsBytes offset (members.map Member.record) ++ rest) :
    List.Forall₂ (fun member entry => getRange payload entry.dataStart entry.dataEnd =
      some member.data) members (memberEntries index offset members) := by
  induction members generalizing index offset with
  | nil => exact .nil
  | cons member members ih =>
    rw [map_cons, recordsBytes, List.append_assoc] at h
    obtain ⟨hfinish, hrange⟩ := member.record.data_range hoffset h
    have hnext := drop_of_append h
    rw [member.record.length_bytes] at hnext
    exact .cons hrange (ih hfinish hnext)

/-- The parser gives the members that were written, in order, with their fields,
names, data ranges and checksums, and the format that the records have in
common. -/
theorem parseEntries_archiveBytes (members : List Member) (trailer : Member) (count : Nat)
    (limits : Limits) (hname : ∀ member ∈ members, member.name ≠ trailerName)
    (htrailer : trailer.name = trailerName) (hdata : trailer.data = [])
    (hlen : (archiveBytes members trailer count).length < 2 ^ 64)
    (hlimits : Sufficient limits members trailer) :
    (parseEntries (archiveBytes members trailer count) limits).granted =
        .ok (archiveFormat members trailer, memberEntries 0 0 members) ∧
      List.Forall₂ (fun member entry =>
        getRange (archiveBytes members trailer count) entry.dataStart entry.dataEnd =
          some member.data) members (memberEntries 0 0 members) := by
  have hcosts := headerCost_le 0 members
  have hnames := names_le_headerCost members
  have hcount := length_le_recordsBytes 0 (members.map Member.record)
  have hlast := trailer.record.headerCost_le (recordsFinish 0 (members.map Member.record))
  have htrailerCost : trailer.headerCost =
      trailer.record.header.length + (trailer.record.name.length + 1) := by
    rw [← trailer.record.headerBytes_eq]
    rfl
  have htotal : (archiveBytes members trailer count).length =
      (recordsBytes 0 (members.map Member.record)).length +
        ((trailer.record.bytes (recordsFinish 0 (members.map Member.record))).length + count) := by
    rw [archiveBytes, length_append, length_append, length_zeros]
  have hheader := hlimits.headerBytes
  have hfiles := hlimits.files
  have hnamesLimit := hlimits.names
  rw [List.length_map] at hcount
  have hall : EntriesState.initial.AdmitsAll limits trailer.record (members.map Member.record) := by
    refine admitsAll_members htrailer hdata hname ?_ ?_ ?_ ?_ ?_ ?_ hlimits.name hlimits.output
    all_goals simp only [EntriesState.initial, List.length_nil, Nat.zero_add]; omega
  constructor
  · rw [← recordEntries_members]
    exact (parseEntries_eq_ok hlen).mpr ⟨members.map Member.record, trailer.record, count,
      rfl, hall,
      commonFormat_members members trailer, rfl⟩
  · exact memberEntries_data (Nat.zero_le _) rfl

def sampleFields : Fields where
  inode := 7
  mode := 0o644
  uid := 10
  gid := 20
  linkCount := 1
  modifiedTime := 100000
  deviceMajor := 0
  deviceMinor := 3
  rdevMajor := 0
  rdevMinor := 0

theorem sampleFields_held (layout : Layout) : sampleFields.HeldBy layout := by
  rcases layout with _ | _ | _ | ⟨_ | _⟩ <;> constructor <;> decide

/-- A member of an odd length, so that the next record is not aligned. -/
def odcSample : Member where
  layout := .odc
  fields := sampleFields
  name := [0x61]
  data := [0x78, 0x79, 0x7a]
  held := sampleFields_held .odc
  name_fits := by decide
  data_fits := by decide
  plain := by decide

def crcSample : Member where
  layout := .crcNewc
  fields := sampleFields
  name := [0x62, 0x63]
  data := [0xff, 0x00]
  held := sampleFields_held .crcNewc
  name_fits := by decide
  data_fits := by decide
  plain := by decide

def trailerSample : Member where
  layout := .binary false
  fields := sampleFields
  name := trailerName
  data := []
  held := sampleFields_held (.binary false)
  name_fits := by decide
  data_fits := by decide
  plain := by decide

theorem parseEntries_archiveBytes_mixed :
    (parseEntries (archiveBytes [odcSample, crcSample] trailerSample 3) Limits.default).granted =
        .ok (archiveFormat [odcSample, crcSample] trailerSample,
          memberEntries 0 0 [odcSample, crcSample]) ∧
      List.Forall₂ (fun member entry =>
        getRange (archiveBytes [odcSample, crcSample] trailerSample 3) entry.dataStart
          entry.dataEnd = some member.data) [odcSample, crcSample]
            (memberEntries 0 0 [odcSample, crcSample]) :=
  parseEntries_archiveBytes [odcSample, crcSample] trailerSample 3 Limits.default (by decide) rfl
    rfl (by decide +kernel) ⟨by decide, by decide, by decide, by decide, by decide⟩

example : archiveFormat [odcSample, crcSample] trailerSample = .mixed := by decide

end Cpio
end Unpackio
