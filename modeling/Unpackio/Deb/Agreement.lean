/-
`DebArchive` of `deb/mod.rs`: opening a package, the ways to read an entry, and their
agreement.

The decompression of the two archives is a parameter.  The numbers of the entries
go on from the control archive to the data archive, because the two archives are
parsed with the same totals.
-/
import Unpackio.Cpio.Entries
import Unpackio.Deb.Ar
import Unpackio.Rpm.Header
import Unpackio.Cpio.Tiling

namespace Unpackio
namespace Deb

open Extraction
open Rpm (PayloadCompression DecodeContainer)

structure DebArchive where
  bytes : List UInt8
  members : List DebMember
  controlTar : List UInt8
  dataTar : List UInt8
  entries : List DebEntry
  limits : Limits
  deriving DecidableEq, Repr

/-- `PayloadCompression::from`. -/
def DebCompression.container : DebCompression → PayloadCompression
  | .none => .none
  | .gzip => .gzip
  | .xz => .xz
  | .zstandard => .zstandard
  | .bzip2 => .bzip2
  | .lzma => .lzma

def memberData (bytes : List UInt8) (member : ArMember) : Except Error (List UInt8) := do
  let length ← okOr (checkedSub member.dataEnd member.dataStart)
    (debFormat "outer member data range underflows")
  checkedRange bytes member.dataStart length "Debian outer member data range overflows"
    "Debian outer member data range is invalid"

def totalMemberNameBytes (members : List DebMember) : Except Error Nat :=
  members.foldlM (fun total member => okOr (checkedAdd total member.member.rawName.length)
    (debFormat "total Debian member name bytes overflow")) 0

/-- As for CPIO. -/
def checkedOutputTotal : Nat → Nat → Limits → Except Error Nat := Cpio.checkedOutputTotal

def copyToWriter (bytes : List UInt8) : Copying Unit := do
  copyChunks bytes
  if bytes.isEmpty then (consumeBytes bytes).mapRequest CopyRequest.work

namespace DebArchive

/-- The archive in the member at this index, with `label` for it in the errors. -/
def decodeMember (decodeContainerPayload : DecodeContainer) (bytes : List UInt8)
    (members : List DebMember) (index : Nat) (label : String) (limits : Limits) (maximum : Nat) :
    Metered (List UInt8) := do
  let member ← okOr members[index]? (debFormat (label ++ " member index is invalid"))
  let compressed ← memberData bytes member.member
  let compression ← okOr member.compression (debFormat (label ++ " compression is missing"))
  decodeContainerPayload compressed compression.container limits maximum

def outerTotals (members : List DebMember) : Except Error ArchiveTotals := do
  let nameBytes ← totalMemberNameBytes members
  let headerBytes ← okOr ((tryFrom 64 (members.length * 60)).bind fun value => checkedAdd value 8)
    (debFormat "outer ar header accounting overflows")
  return { ArchiveTotals.default with
    files := members.length, nameBytes := nameBytes, headerBytes := headerBytes,
    nextEntryIndex := 0 }

def openBytes (decodeContainerPayload : DecodeContainer) (bytes : List UInt8) (limits : Limits) :
    Metered DebArchive := do
  checkLimit bytes.length limits.maxTotalInputBytes .totalInputBytes
  checkLimit 1 limits.maxRecursionDepth .recursionDepth
  let parsedMembers ← Ar.parse bytes limits
  let (members, controlIndex, dataIndex) ← validateMembers bytes parsedMembers limits
  -- Both indexes come from `validateMembers`, so that no lookup fails.
  let controlTar ← decodeMember decodeContainerPayload bytes members controlIndex "control" limits
    limits.maxTotalOutputBytes
  let remaining ← okOr (checkedSub limits.maxTotalOutputBytes controlTar.length)
    (.limitExceeded .totalOutputBytes controlTar.length limits.maxTotalOutputBytes)
  let dataTar ← decodeMember decodeContainerPayload bytes members dataIndex "data" limits remaining
  let totals ← outerTotals members
  let (entries, totals) ← parse controlTar .control limits totals
  let (dataEntries, _) ← parse dataTar .data limits totals
  return ⟨bytes, members, controlTar, dataTar, entries ++ dataEntries, limits⟩

variable (archive : DebArchive)

def requiredEntry (index : Nat) : Except Error DebEntry :=
  okOr archive.entries[index]? (debFormat "entry index is out of range")

def tar : DebSection → List UInt8
  | .control => archive.controlTar
  | .data => archive.dataTar

def entryData (entry : DebEntry) : Except Error (List UInt8) := do
  let length ← okOr (checkedSub entry.dataEnd entry.dataStart)
    (debFormat "inner entry data range underflows")
  checkedRange (archive.tar entry.tarSection) entry.dataStart length
    "Debian inner entry data range overflows" "Debian inner entry data range is invalid"

def extractEntryTo (entryIndex : Nat) : Copying Nat := do
  let entry ← archive.requiredEntry entryIndex
  checkLimit entry.size archive.limits.maxEntryOutputBytes .entryOutputBytes
  let data ← archive.entryData entry
  copyToWriter data
  return entry.size

def fetch (total : Nat) (entry : DebEntry) : Metered (Nat × List UInt8) := do
  let total ← checkedOutputTotal total entry.size archive.limits
  let data ← archive.entryData entry
  return (total, data)

def extractEntriesTo : Extracting DebEntry Nat :=
  extractLoop DebEntry.index archive.fetch archive.entries 0

/-- One entry of `verify`. -/
def verifyEntry (total : Nat) (entry : DebEntry) : Metered Nat := do
  let (total, data) ← archive.fetch total entry
  consumeBytes data
  return total

def verify : Metered Unit := verifyLoop archive.verifyEntry archive.entries 0

end DebArchive

open Prog (CanReturn)
open Prog.CanReturn (bind_iff lift_iff pure_iff)

/-! ## Numbers -/

/-- The entries read so far are numbered from `first` on, and each of them has its size
between the ends of its data. -/
structure TarState.Counts (first : Nat) (state : TarState) : Prop where
  next_eq : state.totals.nextEntryIndex = first + state.entries.length
  numbered : Numbered DebEntry.index first state.entries
  ends : ∀ entry ∈ state.entries, entry.dataEnd = entry.dataStart + entry.size

variable {first : Nat} {state next : TarState} {totals : ArchiveTotals} {limits : Limits}
  {bytes : List UInt8} {tarSection : DebSection}

theorem TarState.Counts.keep (h : state.Counts first) (hentries : next.entries = state.entries)
    (hnext : next.totals.nextEntryIndex = state.totals.nextEntryIndex) : next.Counts first :=
  ⟨by rw [hnext, hentries, h.next_eq], hentries ▸ h.numbered, hentries ▸ h.ends⟩

theorem addHeaderBytes_next {next : ArchiveTotals} {count : Nat}
    (h : addHeaderBytes totals count limits = .ok next) :
    next.nextEntryIndex = totals.nextEntryIndex := by
  obtain ⟨_, -, h⟩ := Except.bind_eq_ok.mp h
  obtain ⟨_, -, h⟩ := Except.bind_eq_ok.mp h
  cases h
  rfl

theorem validateName_next {name : List UInt8} {next : ArchiveTotals}
    (h : validateName name limits totals = .ok next) :
    next.nextEntryIndex = totals.nextEntryIndex := by
  simp only [validateName, Except.bind_eq_ok] at h
  obtain ⟨_, -, _, -, _, -, _, -, _, -, h⟩ := h
  cases h
  rfl

theorem parsePaxLoop_next {data : List UInt8} {fuel offset : Nat} {values : PaxValues}
    {result : PaxValues × ArchiveTotals}
    (h : (parsePaxLoop data limits fuel offset values totals).CanReturn result) :
    result.2.nextEntryIndex = totals.nextEntryIndex := by
  induction fuel generalizing offset values totals with
  | zero =>
    obtain ⟨_, -, h⟩ := bind_iff.mp h
    cases pure_iff.mp h
    rfl
  | succ fuel ih =>
    rw [parsePaxLoop] at h
    by_cases hmore : offset < data.length
    · rw [if_pos hmore] at h
      simp only [bind_iff] at h
      obtain ⟨_, -, properties, -, _, -, ⟨key, value, recordLength⟩, -, values, -, offset, -, h⟩ :=
        h
      have hrest := ih h
      exact hrest
    · rw [if_neg hmore] at h
      obtain ⟨_, -, h⟩ := bind_iff.mp h
      cases pure_iff.mp h
      rfl

section

variable {typeFlag : UInt8} (hstate : state.Counts first)
include hstate

theorem applyExtension_counts {data : List UInt8}
    (h : (applyExtension data limits state typeFlag).CanReturn next) : next.Counts first := by
  unfold applyExtension at h
  split at h
  · obtain ⟨⟨values, totals⟩, hpax, h⟩ := bind_iff.mp h
    cases pure_iff.mp h
    exact hstate.keep rfl (parsePaxLoop_next hpax)
  split at h
  · obtain ⟨⟨values, totals⟩, hpax, h⟩ := bind_iff.mp h
    cases pure_iff.mp h
    exact hstate.keep rfl (parsePaxLoop_next hpax)
  split at h
  · obtain ⟨longName, -, h⟩ := bind_iff.mp h
    cases pure_iff.mp h
    exact hstate.keep rfl rfl
  split at h
  · obtain ⟨longLink, -, h⟩ := bind_iff.mp h
    cases pure_iff.mp h
    exact hstate.keep rfl rfl
  · exact nomatch lift_iff.mp h

theorem parseExtension_counts {headerSize dataStart : Nat}
    (h : (parseExtension bytes limits state typeFlag headerSize dataStart).CanReturn next) :
    next.Counts first := by
  simp only [parseExtension, bind_iff, lift_iff, pure_iff] at h
  obtain ⟨_, -, totals, htotals, data, -, absorbed, habsorbed, offset, -, rfl⟩ := h
  have hcounted : ({ state with totals := totals } : TarState).Counts first :=
    hstate.keep rfl (addHeaderBytes_next htotals)
  exact (applyExtension_counts hcounted habsorbed).keep rfl rfl

theorem parseMember_counts {header : List UInt8} {headerSize dataStart : Nat}
    (h : (parseMember bytes header tarSection limits state typeFlag headerSize
      dataStart).CanReturn next) : next.Counts first := by
  obtain ⟨_, -, h⟩ := bind_iff.mp h
  obtain ⟨totals, htotals, h⟩ := bind_iff.mp h
  iterate 3 obtain ⟨_, -, h⟩ := bind_iff.mp h
  obtain ⟨dataEnd, hdataEnd, h⟩ := bind_iff.mp h
  obtain ⟨-, hdataEnd⟩ := checkedAdd_eq_ok.mp (lift_iff.mp hdataEnd)
  iterate 3 obtain ⟨_, -, h⟩ := bind_iff.mp h
  obtain ⟨nextEntryIndex, hnext, h⟩ := bind_iff.mp h
  obtain ⟨-, hnext⟩ := checkedAdd_eq_ok.mp (lift_iff.mp hnext)
  -- The fields of the header, and the copies of the names.
  iterate 16 obtain ⟨_, -, h⟩ := bind_iff.mp h
  obtain rfl := pure_iff.mp h
  have hindex := (validateName_next (lift_iff.mp htotals)).trans hstate.next_eq
  refine ⟨?_, hstate.numbered.concat ?_, ?_⟩
  · show nextEntryIndex = _
    rw [← hnext, hindex, List.length_append, List.length_singleton, Nat.add_assoc]
  · exact hindex
  · intro entry hentry
    rcases List.mem_append.mp hentry with hmem | hmem
    · exact hstate.ends entry hmem
    · rw [List.mem_singleton.mp hmem]
      exact hdataEnd.symm

end

theorem parseRecord_counts {header : List UInt8} (hstate : state.Counts first)
    (h : (parseRecord bytes header tarSection limits state).CanReturn next) :
    next.Counts first := by
  simp only [parseRecord, bind_iff] at h
  obtain ⟨_, -, _, -, headerSize, -, typeFlag, -, dataStart, -, h⟩ := h
  split at h
  · exact parseExtension_counts hstate h
  · exact parseMember_counts hstate h

theorem parseEnd_next {offset : Nat} {next : ArchiveTotals}
    (h : (parseEnd bytes limits offset totals).CanReturn next) :
    next.nextEntryIndex = totals.nextEntryIndex := by
  simp only [parseEnd, bind_iff, lift_iff, pure_iff] at h
  obtain ⟨_, -, _, -, _, -, counted, hcounted, _, -, _, -, _, -, _, -, _, -, rfl⟩ := h
  exact addHeaderBytes_next hcounted

theorem parseLoop_counts {fuel : Nat} {final : TarState} (hstate : state.Counts first)
    (h : (parseLoop bytes tarSection limits fuel state).CanReturn final) : final.Counts first := by
  induction fuel generalizing state with
  | zero => exact nomatch lift_iff.mp h
  | succ fuel ih =>
    rw [parseLoop] at h
    by_cases hmore : state.offset < bytes.length
    · rw [if_pos hmore] at h
      simp only [bind_iff, lift_iff] at h
      obtain ⟨_, -, header, -, totals, htotals, h⟩ := h
      have hcounted : ({ state with totals := totals } : TarState).Counts first :=
        hstate.keep rfl (addHeaderBytes_next htotals)
      split at h
      · simp only [bind_iff, pure_iff] at h
        obtain ⟨ended, hended, rfl⟩ := h
        exact hcounted.keep rfl (parseEnd_next hended)
      · obtain ⟨read, hread, h⟩ := bind_iff.mp h
        exact ih (parseRecord_counts hcounted hread) h
    · rw [if_neg hmore] at h
      exact nomatch lift_iff.mp h

theorem parse_counts {result : List DebEntry × ArchiveTotals}
    (h : (parse bytes tarSection limits totals).CanReturn result) :
    result.2.nextEntryIndex = totals.nextEntryIndex + result.1.length ∧
      Numbered DebEntry.index totals.nextEntryIndex result.1 ∧
      ∀ entry ∈ result.1, entry.dataEnd = entry.dataStart + entry.size := by
  simp only [parse, bind_iff, pure_iff] at h
  obtain ⟨state, hstate, _, -, rfl⟩ := h
  have hinitial : (TarState.initial totals).Counts totals.nextEntryIndex :=
    ⟨rfl, .nil, fun _ hmem => by cases hmem⟩
  have hcounts := parseLoop_counts hinitial hstate
  exact ⟨hcounts.next_eq, hcounts.numbered, hcounts.ends⟩

namespace DebArchive

theorem outerTotals_next {members : List DebMember} (h : outerTotals members = .ok totals) :
    totals.nextEntryIndex = 0 := by
  obtain ⟨_, -, h⟩ := Except.bind_eq_ok.mp h
  obtain ⟨_, -, h⟩ := Except.bind_eq_ok.mp h
  cases h
  rfl

theorem opened_counts {decodeContainerPayload : Rpm.DecodeContainer} {archive : DebArchive}
    (h : (openBytes decodeContainerPayload bytes limits).CanReturn archive) :
    Numbered DebEntry.index 0 archive.entries ∧
      ∀ entry ∈ archive.entries, entry.dataEnd = entry.dataStart + entry.size := by
  simp only [openBytes, bind_iff, lift_iff, pure_iff] at h
  obtain ⟨_, -, _, -, _, -, ⟨members, controlIndex, dataIndex⟩, -, controlTar, -, remaining, -,
    dataTar, -, totals, htotals, ⟨entries, between⟩, hcontrol, ⟨dataEntries, after⟩, hdata, rfl⟩ :=
      h
  obtain ⟨hbetween, hcontrols, hcontrolEnds⟩ := parse_counts hcontrol
  obtain ⟨-, hdatas, hdataEnds⟩ := parse_counts hdata
  rw [outerTotals_next htotals] at hbetween hcontrols
  rw [hbetween] at hdatas
  refine ⟨hcontrols.append hdatas, fun entry hentry => ?_⟩
  rcases List.mem_append.mp hentry with hmem | hmem
  · exact hcontrolEnds entry hmem
  · exact hdataEnds entry hmem

variable (archive : DebArchive)

/-- The bytes are those of the entry in the archive of its section. -/
def Intact (entry : DebEntry) (data : List UInt8) : Prop :=
  getRange (archive.tar entry.tarSection) entry.dataStart entry.dataEnd = some data

def reader : Reader DebEntry where
  entries := archive.entries
  index := DebEntry.index
  Intact := archive.Intact
  extractEntryTo := archive.extractEntryTo
  extractEntriesTo := archive.extractEntriesTo
  verify := archive.verify

variable {archive}

theorem entryData_intact {entry : DebEntry} (hends : entry.dataEnd = entry.dataStart + entry.size)
    {data : List UInt8} (h : archive.entryData entry = .ok data) :
    data.length = entry.size ∧ archive.Intact entry data := by
  obtain ⟨length, hlength, h⟩ := Except.bind_eq_ok.mp h
  obtain ⟨-, hlength⟩ := checkedSub_eq_ok.mp hlength
  obtain ⟨-, hle, hdata⟩ := checkedRange_eq_ok.mp h
  have hsize : entry.dataStart + length = entry.dataEnd := by omega
  rw [hsize] at hle hdata
  refine ⟨?_, getRange_eq_some.mpr ⟨?_, hle, hdata⟩⟩
  · rw [← hdata, List.length_drop, List.length_take, Nat.min_eq_left hle]
    omega
  · omega

theorem copyToWriter_copies (size : Nat) (data : List UInt8) :
    Copies (copyToWriter data >>= fun _ => pure size) size data := by
  rw [copyToWriter, bind_assoc]
  refine .chunks ?_
  by_cases hempty : data.isEmpty
  · rw [if_pos hempty]
    exact .work (consumeBytes_granted data) (.done size)
  · rw [if_neg hempty]
    exact .done size

theorem verifyEntry_granted (before : Nat) (entry : DebEntry) :
    (archive.verifyEntry before entry).granted =
      Prod.fst <$> (archive.fetch before entry).granted := by
  rw [verifyEntry, Prog.granted_bind]
  cases (archive.fetch before entry).granted with
  | error e => rfl
  | ok result =>
    rw [Except.ok_bind, Prog.granted_bind, consumeBytes_granted]
    rfl

theorem sized (hnumbered : Numbered DebEntry.index 0 archive.entries)
    (hends : ∀ entry ∈ archive.entries, entry.dataEnd = entry.dataStart + entry.size) :
    archive.reader.Sized DebEntry.size
      (fun total entry => checkedOutputTotal total entry.size archive.limits)
      (fun entry => liftM (archive.entryData entry)) where
  index_eq := hnumbered
  extract_eq := rfl
  verify_eq := verifyLoop_granted (fun entry _ before => verifyEntry_granted before entry) 0
  account_eq := fun _ _ _ htotal => (Cpio.CpioArchive.checkedOutputTotal_eq_ok.mp htotal).2.2.2.symm
  load_eq := fun entry hentry data hdata => entryData_intact (hends entry hentry) hdata
  copies := fun i entry hentry before total data htotal hdata => by
    have hrequired : archive.requiredEntry i = .ok entry := by
      rw [requiredEntry, show archive.entries[i]? = some entry from hentry, okOr_some]
    have hlimit := checkLimit_of_le (Cpio.CpioArchive.checkedOutputTotal_eq_ok.mp htotal).1
      .entryOutputBytes
    exact .lift hrequired (.lift hlimit (.lift hdata (copyToWriter_copies entry.size data)))

end DebArchive
end Deb
end Unpackio
