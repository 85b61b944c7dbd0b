/-
An accepted CPIO archive hides no bytes, its members can always be read, and its read paths
agree.

The record list that `parseEntries_eq_ok` gives tiles the input.  The accessors
compute the data ranges again from the entries, and find the data of the records.
-/
import Unpackio.Cpio.RoundTrip
import Unpackio.Extraction.Agreement

namespace Unpackio
namespace Cpio

open Except (ok_bind)
open Extraction
open Prog (granted_bind granted_lift_bind)

theorem byteSum_passes (data : List UInt8) : PassesAll (byteSum data) := by
  have hloop : ∀ pieces sum, PassesAll (byteSumLoop pieces sum) := by
    intro pieces
    induction pieces with
    | nil => exact fun _ => .pure _
    | cons chunk pieces ih => exact fun _ => .bind (.request _) fun _ => ih _
  exact hloop _ _

theorem verifyChecksum_passes (data : List UInt8) (entry : CpioEntry) :
    PassesAll (verifyChecksum data entry) := by
  unfold verifyChecksum
  cases entry.checksum with
  | none => exact .pure _
  | some expected => exact .bind (byteSum_passes data) fun _ => .lift _

theorem parseEntry_passes (state : EntriesState) (parsed : ParsedHeader) (body : RecordBody)
    (limits : Limits) : PassesAll (parseEntry state parsed body limits) :=
  .step fun _ => .step fun _ => .step fun _ => .step fun _ => .step fun _ => .step fun _ =>
    .step fun _ => .bind (passes_copyBytes _ _) fun _ => .bind (verifyChecksum_passes _ _) fun _ =>
      .pure _

theorem entriesLoop_passes (payload : List UInt8) (limits : Limits) (fuel : Nat)
    (state : EntriesState) : PassesAll (entriesLoop payload limits fuel state) := by
  induction fuel generalizing state with
  | zero => exact .pure _
  | succ fuel ih =>
    refine .ite (.bind (.request _) fun _ => .step fun parsed => .step fun _ =>
      .step fun body => .ite (.step fun _ => .pure _) ?_) (.pure _)
    exact .bind (parseEntry_passes state parsed body limits) fun _ => ih _

theorem parseEntries_passes (payload : List UInt8) (limits : Limits) :
    PassesAll (parseEntries payload limits) :=
  .bind (entriesLoop_passes payload limits _ _) fun _ => .lift _

namespace CpioArchive

variable (archive : CpioArchive)

theorem verifiedData_passes (entry : CpioEntry) : PassesAll (archive.verifiedData entry) :=
  .step fun _ => .bind (verifyChecksum_passes _ _) fun _ => .pure _

theorem fetch_passes (total : Nat) (entry : CpioEntry) : PassesAll (archive.fetch total entry) :=
  .step fun _ => .bind (archive.verifiedData_passes entry) fun _ => .pure _

theorem extractEntryTo_passes (entryIndex : Nat) : PassesAll (archive.extractEntryTo entryIndex) :=
  .step fun entry => .bind (.mapRequest _ (archive.verifiedData_passes entry)) fun _ =>
    .step fun _ => .bind (copyChunks_passes _) fun _ => .pure _

theorem extractEntriesTo_passes : PassesAll archive.extractEntriesTo :=
  extractLoop_passes _ archive.fetch_passes _ _

theorem verify_passes : PassesAll archive.verify :=
  verifyLoop_passes (fun total entry => .map (archive.fetch_passes total entry)) _ _

end CpioArchive

/-! ## Tilings -/

def Tiles (payload : List UInt8) (entries : List CpioEntry) : Prop :=
  ∃ (records : List Record) (trailer : Record) (count : Nat),
    payload = recordsBytes 0 records ++ (trailer.bytes (recordsFinish 0 records) ++ zeros count) ∧
      trailer.IsTrailer ∧ (∀ record ∈ records, record.name ≠ trailerName) ∧
      entries = recordEntries 0 0 records

/-- The data ranges increase, without a common byte, and end inside the payload. -/
structure RangesIncrease (payload : List UInt8) (entries : List CpioEntry) : Prop where
  ordered : ∀ entry ∈ entries, entry.dataStart ≤ entry.dataEnd
  inside : ∀ entry ∈ entries, entry.dataEnd ≤ payload.length
  disjoint : entries.Pairwise fun first second => first.dataEnd < second.dataStart

/-- The data of an entry, with its checksum. -/
structure HasData (payload : List UInt8) (limits : Limits) (entry : CpioEntry)
    (data : List UInt8) : Prop where
  range : getRange payload entry.dataStart entry.dataEnd = some data
  size : entry.size = data.length
  output : entry.size ≤ limits.maxEntryOutputBytes
  checked : ∀ expected, entry.checksum = some expected → byteTotal data = expected

variable {payload data : List UInt8} {limits : Limits} {entry : CpioEntry} {records : List Record}

theorem HasData.ordered (h : HasData payload limits entry data) : entry.dataStart ≤ entry.dataEnd :=
  (getRange_eq_some.mp h.range).1

theorem HasData.checkedRange_eq (hlen : payload.length < 2 ^ 64)
    (h : HasData payload limits entry data) (overflowDetail truncatedDetail : String) :
    checkedRange payload entry.dataStart (entry.dataEnd - entry.dataStart) overflowDetail
      truncatedDetail = .ok data := by
  obtain ⟨hle, hend, hdata⟩ := getRange_eq_some.mp h.range
  refine checkedRange_eq_ok.mpr ⟨?_, ?_, ?_⟩
  · omega
  · omega
  · rw [Nat.add_sub_cancel' hle, hdata]

theorem EntriesState.AdmitsAll.trailer {trailer : Record} {state : EntriesState}
    (h : state.AdmitsAll limits trailer records) : trailer.IsTrailer := by
  induction records generalizing state with
  | nil => exact h.2
  | cons record records ih => exact ih h.2.2

theorem EntriesState.AdmitsAll.admits {trailer : Record} {state : EntriesState}
    (h : state.AdmitsAll limits trailer records) :
    ∀ record ∈ records, record.data.length ≤ limits.maxEntryOutputBytes ∧ record.Checked ∧
      record.name ≠ trailerName := by
  induction records generalizing state with
  | nil => exact fun _ hmem => (nomatch hmem)
  | cons record records ih =>
    exact List.forall_mem_cons.mpr ⟨⟨h.2.1.output, h.2.1.checked, h.2.1.name_ne⟩, ih h.2.2⟩

theorem Record.offset_lt_dataStart (record : Record) (offset : Nat) :
    offset < record.dataStart offset := by
  simp only [Record.dataStart, Record.nameEnd]
  omega

theorem offset_lt_of_mem {index offset : Nat} (h : entry ∈ recordEntries index offset records) :
    offset < entry.dataStart := by
  induction records generalizing index offset with
  | nil => exact (nomatch h)
  | cons record records ih =>
    rcases List.mem_cons.mp h with rfl | h
    · exact record.offset_lt_dataStart offset
    · have hstart := record.offset_lt_dataStart offset
      have hend : record.dataStart offset ≤ record.dataEnd offset := Nat.le_add_right _ _
      have hfinish : record.dataEnd offset ≤ record.finish offset := Nat.le_add_right _ _
      exact Nat.lt_trans (by omega) (ih h)

theorem pairwise_recordEntries (index offset : Nat) (records : List Record) :
    (recordEntries index offset records).Pairwise
      fun first second => first.dataEnd < second.dataStart := by
  induction records generalizing index offset with
  | nil => exact .nil
  | cons record records ih =>
    refine .cons (fun entry hmem => ?_) (ih _ _)
    have hfinish : record.dataEnd offset ≤ record.finish offset := Nat.le_add_right _ _
    exact Nat.lt_of_le_of_lt hfinish (offset_lt_of_mem hmem)

theorem hasData_of_mem {rest : List UInt8} {index offset : Nat} (hoffset : offset ≤ payload.length)
    (hdrop : payload.drop offset = recordsBytes offset records ++ rest)
    (hall : ∀ record ∈ records, record.data.length ≤ limits.maxEntryOutputBytes ∧ record.Checked ∧
      record.name ≠ trailerName) (h : entry ∈ recordEntries index offset records) :
    ∃ data, HasData payload limits entry data := by
  induction records generalizing index offset with
  | nil => exact (nomatch h)
  | cons record records ih =>
    obtain ⟨⟨houtput, hchecked, -⟩, hrest⟩ := List.forall_mem_cons.mp hall
    rw [recordsBytes, List.append_assoc] at hdrop
    obtain ⟨hfinish, hrange⟩ := record.data_range hoffset hdrop
    rcases List.mem_cons.mp h with rfl | h
    · exact ⟨record.data, hrange, record.fileSize_eq,
        (show record.parsed.fileSize ≤ _ from record.fileSize_eq ▸ houtput), hchecked⟩
    · have hnext := drop_of_append hdrop
      rw [record.length_bytes] at hnext
      exact ih hfinish hnext hrest h

theorem index_recordEntries {index offset : Nat} {i : Nat}
    (h : (recordEntries index offset records)[i]? = some entry) : entry.index = index + i := by
  induction records generalizing index offset i with
  | nil => exact (nomatch h)
  | cons record records ih =>
    cases i with
    | zero =>
      cases h
      rfl
    | succ i =>
      have hnext : (recordEntries (index + 1) (record.finish offset) records)[i]? = some entry := h
      rw [ih hnext, Nat.add_assoc, Nat.add_comm 1]

/-- What the parser has checked of its result. -/
structure Accepted (payload : List UInt8) (limits : Limits) (entries : List CpioEntry) : Prop where
  length_lt : payload.length < 2 ^ 64
  tiles : Tiles payload entries
  ranges : RangesIncrease payload entries
  data : ∀ entry ∈ entries, ∃ data, HasData payload limits entry data
  index : ∀ (i : Nat) (entry : CpioEntry), entries[i]? = some entry → entry.index = i

theorem accepted_of_parseEntries (hlen : payload.length < 2 ^ 64) {format : CpioFormat}
    {entries : List CpioEntry} (h : (parseEntries payload limits).CanReturn (format, entries)) :
    Accepted payload limits entries := by
  obtain ⟨records, trailer, count, hpayload, hall, -, rfl⟩ :=
    (parseEntries_eq_ok hlen).mp ((parseEntries_passes payload limits).granted_of_canReturn h)
  have hdata : ∀ entry ∈ recordEntries 0 0 records, ∃ data, HasData payload limits entry data :=
    fun entry hmem => hasData_of_mem (Nat.zero_le _) hpayload hall.admits hmem
  refine ⟨hlen, ⟨records, trailer, count, hpayload, hall.trailer,
    fun record hmem => (hall.admits record hmem).2.2, rfl⟩, ⟨?_, ?_, pairwise_recordEntries 0 0 _⟩,
    hdata, fun i entry h => (index_recordEntries h).trans (Nat.zero_add i)⟩
  · intro entry hmem
    obtain ⟨data, hdata⟩ := hdata entry hmem
    exact (getRange_eq_some.mp hdata.range).1
  · intro entry hmem
    obtain ⟨data, hdata⟩ := hdata entry hmem
    exact (getRange_eq_some.mp hdata.range).2.1

namespace CpioArchive

variable {archive : CpioArchive}

section

variable (hlen : archive.bytes.length < 2 ^ 64)
  (h : HasData archive.bytes archive.limits entry data)
include hlen h

theorem data_eq : archive.data entry = .ok data := by
  rw [CpioArchive.data, checkedSub_of_le h.ordered, okOr_bind, h.checkedRange_eq hlen]

theorem verifiedData_granted : (archive.verifiedData entry).granted = .ok data := by
  rw [verifiedData, granted_lift_bind, data_eq hlen h, ok_bind, granted_bind,
    (@verifyChecksum_granted data entry ()).mpr h.checked]
  rfl

end

theorem checkedOutputTotal_eq_ok {current size total : Nat} :
    checkedOutputTotal current size limits = .ok total ↔
      size ≤ limits.maxEntryOutputBytes ∧ current + size < 2 ^ 64 ∧
        current + size ≤ limits.maxTotalOutputBytes ∧ current + size = total := by
  simp only [checkedOutputTotal, Except.bind_eq_ok, okOr_eq_ok, checkedAdd_eq_some,
    checkLimit_eq_ok]
  constructor
  · rintro ⟨_, hsize, _, ⟨hlt, rfl⟩, _, htotal, h⟩
    exact ⟨hsize, hlt, htotal, Except.ok.inj h⟩
  · rintro ⟨hsize, hlt, htotal, rfl⟩
    exact ⟨(), hsize, _, ⟨hlt, rfl⟩, (), htotal, rfl⟩

theorem checkedOutputTotal_error {current size : Nat} {e : Error}
    (hsize : size ≤ limits.maxEntryOutputBytes)
    (h : checkedOutputTotal current size limits = .error e) :
    ∃ requested, e = .limitExceeded .totalOutputBytes requested limits.maxTotalOutputBytes := by
  rw [checkedOutputTotal, checkLimit_of_le hsize, ok_bind] at h
  by_cases hlt : current + size < 2 ^ 64
  · rw [checkedAdd_bind hlt, checkLimit] at h
    by_cases htotal : limits.maxTotalOutputBytes < current + size
    · rw [rejectIf_of htotal] at h
      cases h
      exact ⟨_, rfl⟩
    · rw [rejectIf_of_not htotal] at h
      cases h
  · rw [checkedAdd, if_neg hlt] at h
    cases h
    exact ⟨_, rfl⟩

theorem fetch_granted (hlen : archive.bytes.length < 2 ^ 64)
    (h : HasData archive.bytes archive.limits entry data) (total : Nat) :
    (archive.fetch total entry).granted =
      (checkedOutputTotal total entry.size archive.limits).map fun total => (total, data) := by
  rw [fetch, granted_lift_bind]
  cases checkedOutputTotal total entry.size archive.limits with
  | error e => rfl
  | ok total =>
    rw [ok_bind, granted_bind, verifiedData_granted hlen h]
    rfl

def IsTotalLimit (limits : Limits) (e : Error) : Prop :=
  ∃ requested, e = .limitExceeded .totalOutputBytes requested limits.maxTotalOutputBytes

section Accepted

variable (h : Accepted archive.bytes archive.limits archive.entries)
include h

theorem symlinkTarget_eq (entryIndex : Nat) :
    archive.symlinkTarget entryIndex =
      match archive.entries[entryIndex]? with
      | none => .error (cpioFormat "entry index is out of range")
      | some entry =>
        .ok (if entry.isSymlink then getRange archive.bytes entry.dataStart entry.dataEnd
          else none) := by
  rw [symlinkTarget, requiredEntry]
  cases hentry : archive.entries[entryIndex]? with
  | none => rfl
  | some entry =>
    obtain ⟨data, hdata⟩ := h.data entry (List.mem_of_getElem? hentry)
    rw [okOr_bind]
    by_cases hlink : entry.isSymlink
    · rw [if_neg (not_not.mpr hlink), data_eq h.length_lt hdata]
      simp only [hlink, if_true, hdata.range]
      rfl
    · simp only [hlink, not_false_eq_true, if_true, if_false]
      rfl

theorem extractEntryTo_granted {entryIndex : Nat}
    (hentry : archive.entries[entryIndex]? = some entry) :
    (archive.extractEntryTo entryIndex).granted = .ok entry.size := by
  obtain ⟨data, hdata⟩ := h.data entry (List.mem_of_getElem? hentry)
  rw [extractEntryTo, granted_lift_bind, requiredEntry, hentry, okOr_bind, granted_bind,
    Prog.granted_mapRequest, verifiedData_granted h.length_lt hdata, ok_bind, granted_lift_bind,
    checkLimit_of_le hdata.output, ok_bind, granted_bind, copyChunks_granted]
  rfl

theorem extractEntryTo_failsWith (entryIndex : Nat) :
    (archive.extractEntryTo entryIndex).FailsWith fun e =>
      archive.entries.length ≤ entryIndex ∧ e = cpioFormat "entry index is out of range" := by
  refine (archive.extractEntryTo_passes entryIndex).failsWith fun e he => ?_
  cases hentry : archive.entries[entryIndex]? with
  | some entry =>
    rw [extractEntryTo_granted h hentry] at he
    exact (nomatch he)
  | none =>
    rw [extractEntryTo, granted_lift_bind, requiredEntry, hentry] at he
    cases he
    exact ⟨List.getElem?_eq_none_iff.mp hentry, rfl⟩

theorem fetchTotal_isTotalLimit {e : Error}
    (he : fetchTotal archive.fetch archive.entries 0 = .error e) :
    IsTotalLimit archive.limits e := by
  obtain ⟨entry, hmem, total, hfetch⟩ := fetchTotal_error he
  obtain ⟨data, hdata⟩ := h.data entry hmem
  rw [fetch_granted h.length_lt hdata] at hfetch
  cases htotal : checkedOutputTotal total entry.size archive.limits with
  | ok total' =>
    rw [htotal] at hfetch
    exact (nomatch hfetch)
  | error e' =>
    rw [htotal] at hfetch
    cases hfetch
    exact checkedOutputTotal_error hdata.output htotal

theorem extractEntriesTo_failsWith :
    archive.extractEntriesTo.FailsWith (IsTotalLimit archive.limits) :=
  archive.extractEntriesTo_passes.failsWith fun e he => by
    rw [extractEntriesTo, extractLoop_granted] at he
    exact fetchTotal_isTotalLimit h he

theorem verify_failsWith : archive.verify.FailsWith (IsTotalLimit archive.limits) := by
  refine archive.verify_passes.failsWith fun e he => ?_
  rw [verify, verifyLoop_granted (fun _ _ _ => Prog.granted_map _ _)] at he
  cases htotal : fetchTotal archive.fetch archive.entries 0 with
  | ok total =>
    rw [htotal] at he
    exact (nomatch he)
  | error e' =>
    rw [htotal] at he
    cases he
    exact fetchTotal_isTotalLimit h htotal

end Accepted

end CpioArchive

/-- The records of an accepted archive tile it, its data ranges increase, and the
accessors of the archive find them again: they fail only at an index that is out
of range, at the limit of the whole output, or with a refusal of their caller. -/
theorem parseEntries_tiles {payload : List UInt8} (hlen : payload.length < 2 ^ 64)
    {limits : Limits} {format : CpioFormat} {entries : List CpioEntry}
    (h : (parseEntries payload limits).CanReturn (format, entries)) :
    Tiles payload entries ∧ RangesIncrease payload entries ∧
      (∀ entryIndex, (CpioArchive.mk payload entries format limits).symlinkTarget entryIndex =
        match entries[entryIndex]? with
        | none => .error (cpioFormat "entry index is out of range")
        | some entry =>
          .ok (if entry.isSymlink then getRange payload entry.dataStart entry.dataEnd
            else none)) ∧
      (∀ entryIndex,
        ((CpioArchive.mk payload entries format limits).extractEntryTo entryIndex).FailsWith
          fun e => entries.length ≤ entryIndex ∧ e = cpioFormat "entry index is out of range") ∧
      (CpioArchive.mk payload entries format limits).extractEntriesTo.FailsWith
        (CpioArchive.IsTotalLimit limits) ∧
      (CpioArchive.mk payload entries format limits).verify.FailsWith
        (CpioArchive.IsTotalLimit limits) := by
  have haccepted := accepted_of_parseEntries hlen h
  exact ⟨haccepted.tiles, haccepted.ranges, CpioArchive.symlinkTarget_eq haccepted,
    CpioArchive.extractEntryTo_failsWith haccepted,
    CpioArchive.extractEntriesTo_failsWith haccepted, CpioArchive.verify_failsWith haccepted⟩

def mixedArchive : CpioArchive where
  bytes := archiveBytes [odcSample, crcSample] trailerSample 3
  entries := memberEntries 0 0 [odcSample, crcSample]
  format := .mixed
  limits := Limits.default

theorem parseEntries_tiles_mixed :
    Tiles mixedArchive.bytes mixedArchive.entries ∧
      RangesIncrease mixedArchive.bytes mixedArchive.entries ∧
      mixedArchive.symlinkTarget 1 = .ok none ∧
      mixedArchive.symlinkTarget 2 = .error (cpioFormat "entry index is out of range") ∧
      (mixedArchive.extractEntryTo 1).FailsWith
        (fun e => 2 ≤ 1 ∧ e = cpioFormat "entry index is out of range") ∧
      mixedArchive.extractEntriesTo.FailsWith (CpioArchive.IsTotalLimit Limits.default) ∧
      mixedArchive.verify.FailsWith (CpioArchive.IsTotalLimit Limits.default) := by
  obtain ⟨htiles, hranges, hsymlink, hextract, hall, hverify⟩ :=
    parseEntries_tiles (by decide +kernel) (.of_granted (show
      (parseEntries mixedArchive.bytes Limits.default).granted = .ok (.mixed, mixedArchive.entries)
      by decide +kernel))
  exact ⟨htiles, hranges, (hsymlink 1).trans (by decide +kernel), hsymlink 2, hextract 1, hall,
    hverify⟩

namespace CpioArchive

variable (archive : CpioArchive)

def reader : Reader CpioEntry where
  entries := archive.entries
  index := CpioEntry.index
  Intact := HasData archive.bytes archive.limits
  extractEntryTo := archive.extractEntryTo
  extractEntriesTo := archive.extractEntriesTo
  verify := archive.verify

variable {archive}

theorem opened_accepted {bytes : List UInt8} (hlen : bytes.length < 2 ^ 64)
    (h : (openBytes bytes limits).CanReturn archive) :
    Accepted archive.bytes archive.limits archive.entries := by
  simp only [openBytes, Prog.CanReturn.bind_iff, Prog.CanReturn.pure_iff] at h
  obtain ⟨_, -, ⟨format, entries⟩, hparse, rfl⟩ := h
  exact accepted_of_parseEntries hlen hparse

variable (h : Accepted archive.bytes archive.limits archive.entries)
include h

theorem verifiedData_hasData (hentry : entry ∈ archive.entries)
    (hdata : (archive.verifiedData entry).granted = .ok data) :
    HasData archive.bytes archive.limits entry data := by
  obtain ⟨own, hown⟩ := h.data entry hentry
  rw [verifiedData_granted h.length_lt hown] at hdata
  exact Except.ok.inj hdata ▸ hown

theorem sized :
    archive.reader.Sized CpioEntry.size
      (fun total entry => checkedOutputTotal total entry.size archive.limits)
      archive.verifiedData where
  index_eq := fun i entry hentry => (h.index i entry hentry).trans (Nat.zero_add i).symm
  extract_eq := rfl
  verify_eq := verifyLoop_granted (fun _ _ _ => Prog.granted_map _ _) 0
  account_eq := fun _ _ _ htotal => (checkedOutputTotal_eq_ok.mp htotal).2.2.2.symm
  load_eq := fun entry hentry data hdata => by
    have hown := verifiedData_hasData h hentry hdata
    exact ⟨hown.size.symm, hown⟩
  copies := fun i entry hentry before total data htotal hdata => by
    have hrequired : archive.requiredEntry i = .ok entry := by
      rw [requiredEntry, show archive.entries[i]? = some entry from hentry, okOr_some]
    have hlimit := checkLimit_of_le (checkedOutputTotal_eq_ok.mp htotal).1 .entryOutputBytes
    exact .lift hrequired (.work hdata (.lift hlimit (.copied entry.size data)))

end CpioArchive
end Cpio
end Unpackio
