/-
The record loop accepts exactly the runs of records that a trailer and zeros end.

`entriesLoop_step` says what one round does; both directions of
`parseEntries_eq_ok` are inductions over it.
-/
import Unpackio.Cpio.Record

namespace Unpackio
namespace Cpio

/-- The byte sum of `byte_sum`, modulo 2^32. -/
def byteTotal (data : List UInt8) : Nat := (data.map UInt8.toNat).sum % 2 ^ 32

theorem foldl_byteSum (chunk : List UInt8) (sum : Nat) (hsum : sum < 2 ^ 32) :
    chunk.foldl (fun sum byte => (sum + byte.toNat) % 2 ^ 32) sum =
      (sum + (chunk.map UInt8.toNat).sum) % 2 ^ 32 := by
  induction chunk generalizing sum with
  | nil => rw [List.foldl_nil, List.map_nil, List.sum_nil, Nat.add_zero, Nat.mod_eq_of_lt hsum]
  | cons byte chunk ih =>
    rw [List.foldl_cons, ih _ (Nat.mod_lt _ (by decide)), Nat.mod_add_mod, List.map_cons,
      List.sum_cons, Nat.add_assoc]

theorem byteSumLoop_granted (pieces : List (List UInt8)) (sum : Nat) (hsum : sum < 2 ^ 32) :
    (byteSumLoop pieces sum).granted =
      .ok ((sum + (pieces.flatten.map UInt8.toNat).sum) % 2 ^ 32) := by
  induction pieces generalizing sum with
  | nil =>
    rw [List.flatten_nil, List.map_nil, List.sum_nil, Nat.add_zero, Nat.mod_eq_of_lt hsum]
    rfl
  | cons chunk pieces ih =>
    rw [byteSumLoop, checkpoint_bind, foldl_byteSum chunk sum hsum, ih _ (Nat.mod_lt _ (by decide)),
      Nat.mod_add_mod, List.flatten_cons, List.map_append, List.sum_append, Nat.add_assoc]

@[simp] theorem byteSum_granted (data : List UInt8) :
    (byteSum data).granted = .ok (byteTotal data) := by
  rw [byteSum, byteSumLoop_granted _ 0 (by decide),
    flatten_chunks (by decide : 0 < controlChunkSize), Nat.zero_add]
  rfl

theorem verifyChecksum_granted {data : List UInt8} {entry : CpioEntry} {u : Unit} :
    (verifyChecksum data entry).granted = .ok u ↔
      ∀ expected, entry.checksum = some expected → byteTotal data = expected := by
  rw [verifyChecksum]
  cases entry.checksum with
  | none => exact ⟨fun _ _ h => (nomatch h), fun _ => rfl⟩
  | some expected =>
    simp only [Prog.granted_bind, byteSum_granted, Except.ok_bind, Prog.granted_lift,
      rejectIf_eq_ok, not_not]
    exact ⟨fun h _ heq => Option.some.inj heq ▸ h, fun h => h expected rfl⟩

namespace Record

def Checked (record : Record) : Prop :=
  ∀ expected, record.parsed.checksum = some expected → byteTotal record.data = expected

structure IsTrailer (record : Record) : Prop where
  name_eq : record.name = trailerName
  data_eq : record.data = []

end Record

/-- Records that follow each other from `offset` on. -/
def recordsBytes : Nat → List Record → List UInt8
  | _, [] => []
  | offset, record :: records =>
    record.bytes offset ++ recordsBytes (record.finish offset) records

def recordsFinish : Nat → List Record → Nat
  | offset, [] => offset
  | offset, record :: records => recordsFinish (record.finish offset) records

def recordEntries : Nat → Nat → List Record → List CpioEntry
  | _, _, [] => []
  | index, offset, record :: records =>
    record.entry index offset :: recordEntries (index + 1) (record.finish offset) records

theorem length_recordsBytes (offset : Nat) (records : List Record) :
    offset + (recordsBytes offset records).length = recordsFinish offset records := by
  induction records generalizing offset with
  | nil => rfl
  | cons record records ih =>
    rw [recordsBytes, recordsFinish, ← ih, ← record.length_bytes, List.length_append,
      Nat.add_assoc]

def commonFormat : List CpioFormat → Option CpioFormat
  | [] => none
  | format :: formats => some (if ∀ other ∈ formats, other = format then format else .mixed)

theorem foldl_mergeFormat_mixed (formats : List CpioFormat) :
    formats.foldl (fun merged format => some (mergeFormat merged format)) (some .mixed) =
      some .mixed := by
  induction formats with
  | nil => rfl
  | cons format formats ih => exact ih

theorem foldl_mergeFormat (format : CpioFormat) (formats : List CpioFormat) :
    formats.foldl (fun merged format => some (mergeFormat merged format)) (some format) =
      commonFormat (format :: formats) := by
  induction formats with
  | nil => rfl
  | cons other formats ih =>
    rw [List.foldl_cons]
    by_cases hsame : format = other
    · have hmerge : mergeFormat (some format) other = format := by
        cases format <;> simp [mergeFormat, ← hsame]
      rw [hmerge, ih]
      refine congrArg some (if_congr ?_ rfl rfl)
      rw [List.forall_mem_cons, and_iff_right hsame.symm]
    · have hmerge : mergeFormat (some format) other = .mixed := by
        cases format <;> simp [mergeFormat, hsame]
      have hnot : ¬∀ another ∈ other :: formats, another = format := fun hall =>
        hsame (hall other List.mem_cons_self).symm
      rw [hmerge, foldl_mergeFormat_mixed, commonFormat, if_neg hnot]

namespace EntriesState

variable (state : EntriesState) (record : Record)

def absorb : EntriesState where
  entries := state.entries ++ [record.entry state.entries.length state.offset]
  offset := record.finish state.offset
  totalNameBytes := state.totalNameBytes + record.name.length
  totalHeaderBytes := state.totalHeaderBytes + record.header.length + (record.name.length + 1)
  archiveFormat := some (mergeFormat state.archiveFormat record.parsed.format)
  sawTrailer := false

def close : EntriesState :=
  { state with
    offset := record.finish state.offset
    totalHeaderBytes := state.totalHeaderBytes + record.header.length + (record.name.length + 1)
    archiveFormat := some (mergeFormat state.archiveFormat record.parsed.format)
    sawTrailer := true }

/-- The header bytes up to the end of the name are within the limit. -/
structure HeaderFits (limits : Limits) : Prop where
  lt : state.totalHeaderBytes + record.header.length + (record.name.length + 1) < 2 ^ 64
  le : state.totalHeaderBytes + record.header.length + (record.name.length + 1) ≤
    limits.maxHeaderBytes

/-- A member may follow. -/
structure Admits (limits : Limits) : Prop where
  files_lt : state.entries.length + 1 < 2 ^ 64
  files : state.entries.length + 1 ≤ limits.maxFiles
  name : record.name.length ≤ limits.maxNameBytesPerEntry
  names_lt : state.totalNameBytes + record.name.length < 2 ^ 64
  names : state.totalNameBytes + record.name.length ≤ limits.maxTotalNameBytes
  output : record.data.length ≤ limits.maxEntryOutputBytes
  checked : record.Checked
  name_ne : record.name ≠ trailerName

end EntriesState

open EntriesState

variable {limits : Limits} {payload : List UInt8}

theorem addHeaderBytes_eq_ok {state : EntriesState} {record : Record} {total : Nat} :
    addHeaderBytes state.totalHeaderBytes record.parsed limits = .ok total ↔
      state.HeaderFits record limits ∧
        total = state.totalHeaderBytes + record.header.length + (record.name.length + 1) := by
  simp only [addHeaderBytes, record.headerBytes_eq, record.nameSize_eq, Except.bind_eq_ok,
    okOr_eq_ok, Option.bind_eq_some_iff, checkedAdd_eq_some, checkLimit_eq_ok]
  constructor
  · rintro ⟨_, ⟨_, ⟨-, rfl⟩, hlt, rfl⟩, _, hle, h⟩
    exact ⟨⟨hlt, hle⟩, (Except.ok.inj h).symm⟩
  · rintro ⟨⟨hlt, hle⟩, rfl⟩
    exact ⟨_, ⟨_, ⟨by omega, rfl⟩, hlt, rfl⟩, (), hle, rfl⟩

theorem parseEntry_granted {state : EntriesState} {record : Record}
    (hname : record.name ≠ trailerName) {result : CpioEntry × Nat} :
    (parseEntry state record.parsed (record.body state.offset) limits).granted = .ok result ↔
      state.Admits record limits ∧ result = (record.entry state.entries.length state.offset,
        state.totalNameBytes + record.name.length) := by
  simp only [parseEntry, Prog.granted_bind_eq_ok, Prog.granted_lift_eq_ok, okOr_eq_ok,
    checkedAdd_eq_some, checkLimit_eq_ok, checkedSub_eq_some, copyBytes_granted,
    Prog.granted_pure_eq_ok, verifyChecksum_granted, record.fileSize_eq]
  constructor
  · rintro ⟨_, ⟨hlt, rfl⟩, _, hfiles, _, hname, _, ⟨hnamesLt, rfl⟩, _, hnames, _, houtput, _,
      ⟨-, rfl⟩, _, hcopy, _, hchecked, rfl⟩
    cases hcopy
    refine ⟨⟨hlt, hfiles, hname, hnamesLt, hnames, houtput, hchecked, ‹_›⟩, ?_⟩
    rw [Record.entry, record.fileSize_eq]
    rfl
  · rintro ⟨hadmits, rfl⟩
    refine ⟨_, ⟨hadmits.files_lt, rfl⟩, (), hadmits.files, (), hadmits.name, _,
      ⟨hadmits.names_lt, rfl⟩, (), hadmits.names, (), hadmits.output, _,
      ⟨Nat.le_add_left _ _, rfl⟩, _, rfl, (), hadmits.checked, ?_⟩
    rw [Record.entry, record.fileSize_eq]
    rfl

theorem entriesLoop_step {fuel : Nat} {state final : EntriesState} (hlen : payload.length < 2 ^ 64)
    (hoffset : state.offset < payload.length) :
    (entriesLoop payload limits (fuel + 1) state).granted = .ok final ↔
      ∃ record : Record,
        payload.drop state.offset =
          record.bytes state.offset ++ payload.drop (record.finish state.offset) ∧
        state.HeaderFits record limits ∧
        ((record.IsTrailer ∧ final = state.close record) ∨
          (state.Admits record limits ∧
            (entriesLoop payload limits fuel (state.absorb record)).granted = .ok final)) := by
  rw [entriesLoop, if_pos hoffset]
  simp only [Prog.granted_bind_eq_ok, checkpoint_granted, Prog.granted_lift_eq_ok]
  constructor
  · rintro ⟨_, -, parsed, hparsed, total, htotal, body, hbody, h⟩
    obtain ⟨record, rfl, rfl, hdrop⟩ := exists_record hlen (Nat.le_of_lt hoffset) hparsed hbody
    obtain ⟨hfits, rfl⟩ := addHeaderBytes_eq_ok.mp htotal
    refine ⟨record, hdrop, hfits, ?_⟩
    by_cases hname : (record.body state.offset).name = trailerName
    · rw [if_pos hname] at h
      obtain ⟨_, hsize, h⟩ := Prog.granted_bind_eq_ok.mp h
      have hsize := not_not.mp (rejectIf_eq_ok.mp (Prog.granted_lift_eq_ok.mp hsize))
      rw [record.fileSize_eq] at hsize
      exact .inl ⟨⟨hname, List.eq_nil_of_length_eq_zero hsize⟩, (Except.ok.inj h).symm⟩
    · rw [if_neg hname] at h
      obtain ⟨_, hentry, h⟩ := Prog.granted_bind_eq_ok.mp h
      obtain ⟨hadmits, rfl⟩ := (parseEntry_granted hname).mp hentry
      exact .inr ⟨hadmits, h⟩
  · rintro ⟨record, hdrop, hfits, h⟩
    have hparts := record.parts (Nat.le_of_lt hoffset) hdrop
    have hheader : payload.drop state.offset =
        record.header ++ payload.drop (state.offset + record.header.length) := by
      have h := hdrop
      rw [Record.bytes, List.append_assoc] at h
      rw [drop_of_append h, h]
    refine ⟨(), trivial, record.parsed, (parseHeader_shift hlen (Nat.le_of_lt hoffset) hheader
      record.headerBytes_eq).mpr record.header_parses, _, addHeaderBytes_eq_ok.mpr ⟨hfits, rfl⟩,
      record.body state.offset, record.parseBody_eq hlen (Nat.le_of_lt hoffset) hdrop, ?_⟩
    rcases h with ⟨htrailer, rfl⟩ | ⟨hadmits, h⟩
    · have hsize : record.parsed.fileSize = 0 := by rw [record.fileSize_eq, htrailer.data_eq]; rfl
      rw [if_pos (show (record.body state.offset).name = trailerName from htrailer.name_eq),
        hsize, rejectIf_of_not (fun hne => hne rfl)]
      rfl
    · rw [if_neg (show (record.body state.offset).name ≠ trailerName from hadmits.name_ne)]
      exact Prog.granted_bind_eq_ok.mpr ⟨_, (parseEntry_granted hadmits.name_ne).mpr
        ⟨hadmits, rfl⟩, h⟩

/-! ## Whole archives -/

def EntriesState.AdmitsAll (limits : Limits) (trailer : Record) :
    EntriesState → List Record → Prop
  | state, [] => state.HeaderFits trailer limits ∧ trailer.IsTrailer
  | state, record :: records => state.HeaderFits record limits ∧ state.Admits record limits ∧
      AdmitsAll limits trailer (state.absorb record) records

namespace EntriesState

section

variable (state : EntriesState) (records : List Record)

theorem offset_foldl :
    (records.foldl absorb state).offset = recordsFinish state.offset records := by
  induction records generalizing state with
  | nil => rfl
  | cons record records ih => exact ih _

theorem entries_foldl :
    (records.foldl absorb state).entries =
      state.entries ++ recordEntries state.entries.length state.offset records := by
  induction records generalizing state with
  | nil => exact (List.append_nil _).symm
  | cons record records ih =>
    rw [List.foldl_cons, ih, absorb, List.length_append, List.length_singleton,
      List.append_assoc]
    rfl

theorem archiveFormat_foldl :
    (records.foldl absorb state).archiveFormat =
      (records.map fun record => record.parsed.format).foldl
        (fun merged format => some (mergeFormat merged format)) state.archiveFormat := by
  induction records generalizing state with
  | nil => rfl
  | cons record records ih => exact ih _

end

theorem archiveFormat_close (records : List Record) (trailer : Record) :
    ((records.foldl absorb EntriesState.initial).close trailer).archiveFormat =
      commonFormat ((records ++ [trailer]).map fun record => record.parsed.format) := by
  have hall : ((records.foldl absorb EntriesState.initial).close trailer).archiveFormat =
      ((records ++ [trailer]).map fun record => record.parsed.format).foldl
        (fun merged format => some (mergeFormat merged format)) none := by
    rw [List.map_append, List.foldl_append, close, archiveFormat_foldl]
    rfl
  rw [hall]
  cases records with
  | nil => exact foldl_mergeFormat _ _
  | cons record records => exact foldl_mergeFormat _ _

end EntriesState

section

variable {fuel : Nat} {state : EntriesState} (hlen : payload.length < 2 ^ 64)
include hlen

theorem recordsBytes_of_loop {final : EntriesState}
    (h : (entriesLoop payload limits fuel state).granted = .ok final)
    (hopen : state.sawTrailer = false) (hclosed : final.sawTrailer = true) :
    ∃ records trailer, payload.drop state.offset = recordsBytes state.offset records ++
        (trailer.bytes (recordsFinish state.offset records) ++ payload.drop final.offset) ∧
      state.AdmitsAll limits trailer records ∧
      final = (records.foldl absorb state).close trailer := by
  induction fuel generalizing state with
  | zero =>
    cases h
    exact absurd (hopen.symm.trans hclosed) Bool.false_ne_true
  | succ fuel ih =>
    by_cases hoffset : state.offset < payload.length
    · obtain ⟨record, hdrop, hfits, h⟩ := (entriesLoop_step hlen hoffset).mp h
      rcases h with ⟨htrailer, rfl⟩ | ⟨hadmits, h⟩
      · exact ⟨[], record, hdrop, ⟨hfits, htrailer⟩, rfl⟩
      · obtain ⟨records, trailer, hrest, hall, rfl⟩ := ih h rfl
        refine ⟨record :: records, trailer, ?_, ⟨hfits, hadmits, hall⟩, rfl⟩
        rw [hdrop, recordsBytes, List.append_assoc]
        exact congrArg _ hrest
    · rw [entriesLoop, if_neg hoffset] at h
      cases h
      exact absurd (hopen.symm.trans hclosed) Bool.false_ne_true

theorem loop_of_recordsBytes {rest : List UInt8} {records : List Record} {trailer : Record}
    (hfuel : records.length < fuel) (hoffset : state.offset ≤ payload.length)
    (hdrop : payload.drop state.offset = recordsBytes state.offset records ++
      (trailer.bytes (recordsFinish state.offset records) ++ rest))
    (hall : state.AdmitsAll limits trailer records) :
    (entriesLoop payload limits fuel state).granted =
      .ok ((records.foldl absorb state).close trailer) := by
  induction records generalizing state fuel with
  | nil =>
    obtain ⟨fuel, rfl⟩ := Nat.exists_eq_succ_of_ne_zero (by omega : fuel ≠ 0)
    have hdrop : payload.drop state.offset = trailer.bytes state.offset ++ rest := hdrop
    have hcount := congrArg List.length hdrop
    rw [List.length_drop, List.length_append] at hcount
    refine (entriesLoop_step hlen ?_).mpr ⟨trailer, ?_, hall.1, .inl ⟨hall.2, rfl⟩⟩
    · have hpos := trailer.bytes_pos state.offset
      omega
    · rw [← trailer.length_bytes, drop_of_append hdrop, hdrop]
  | cons record records ih =>
    obtain ⟨fuel, rfl⟩ := Nat.exists_eq_succ_of_ne_zero (by omega : fuel ≠ 0)
    obtain ⟨hfits, hadmits, hall⟩ := hall
    rw [recordsBytes, List.append_assoc] at hdrop
    have hnext := drop_of_append hdrop
    have hcount := congrArg List.length hdrop
    have hpos := record.bytes_pos state.offset
    rw [List.length_drop, List.length_append] at hcount
    rw [record.length_bytes] at hnext
    refine (entriesLoop_step hlen (by omega)).mpr ⟨record, by rw [hnext, hdrop], hfits,
      .inr ⟨hadmits, ?_⟩⟩
    refine ih (by simpa using hfuel) ?_ hnext hall
    show record.finish state.offset ≤ payload.length
    rw [← record.length_bytes]
    omega

end

theorem length_le_recordsBytes (offset : Nat) (records : List Record) :
    records.length ≤ (recordsBytes offset records).length := by
  induction records generalizing offset with
  | nil => exact Nat.le_refl _
  | cons record records ih =>
    have hpos := record.bytes_pos offset
    have hrest := ih (record.finish offset)
    rw [recordsBytes, List.length_append, List.length_cons]
    omega

variable {format : CpioFormat} {entries : List CpioEntry} (hlen : payload.length < 2 ^ 64)
include hlen

theorem finishEntries_eq_ok {state : EntriesState} :
    finishEntries payload state = .ok (format, entries) ↔
      state.sawTrailer = true ∧ state.offset ≤ payload.length ∧
        payload.drop state.offset = zeros (payload.length - state.offset) ∧
        state.archiveFormat = some format ∧ state.entries = entries := by
  simp only [finishEntries, Except.bind_eq_ok, rejectIf_eq_ok, okOr_eq_ok, checkedSub_eq_some,
    checkedRange_iff_drop hlen, Bool.not_eq_false]
  constructor
  · rintro ⟨_, hsaw, _, ⟨hle, rfl⟩, trailing, ⟨-, hcount, hdrop⟩, _, hzero, _, hformat, h⟩
    cases h
    have hzeros : ∀ byte ∈ trailing, byte = 0 := fun byte hmem =>
      by_contra fun hne => hzero ⟨byte, hmem, hne⟩
    rw [Nat.add_sub_cancel' hle, List.drop_length, List.append_nil,
      List.eq_replicate_of_mem hzeros, hcount] at hdrop
    exact ⟨hsaw, hle, hdrop, hformat, rfl⟩
  · rintro ⟨hsaw, hle, hdrop, hformat, rfl⟩
    refine ⟨(), hsaw, _, ⟨hle, rfl⟩, zeros (payload.length - state.offset),
      ⟨by omega, length_zeros _, ?_⟩, (), ?_, format, hformat, rfl⟩
    · rw [Nat.add_sub_cancel' hle, List.drop_length, List.append_nil, hdrop]
    · rintro ⟨byte, hmem, hne⟩
      exact hne (List.eq_of_mem_replicate hmem)

theorem parseEntries_eq_ok :
    (parseEntries payload limits).granted = .ok (format, entries) ↔
      ∃ records trailer count,
        payload = recordsBytes 0 records ++
          (trailer.bytes (recordsFinish 0 records) ++ zeros count) ∧
        EntriesState.initial.AdmitsAll limits trailer records ∧
        commonFormat ((records ++ [trailer]).map fun record => record.parsed.format) =
          some format ∧
        entries = recordEntries 0 0 records := by
  simp only [parseEntries, Prog.granted_bind_eq_ok, Prog.granted_lift_eq_ok,
    finishEntries_eq_ok hlen]
  constructor
  · rintro ⟨final, hloop, hsaw, -, hzeros, hformat, rfl⟩
    obtain ⟨records, trailer, hdrop, hall, rfl⟩ := recordsBytes_of_loop hlen hloop rfl hsaw
    rw [hzeros] at hdrop
    refine ⟨records, trailer, _, hdrop, hall, ?_, EntriesState.entries_foldl _ records⟩
    rw [← EntriesState.archiveFormat_close, hformat]
  · rintro ⟨records, trailer, count, hpayload, hall, hformat, rfl⟩
    have hcount := congrArg List.length hpayload
    have hlength := length_recordsBytes 0 records
    have hrecords := length_le_recordsBytes 0 records
    have hpos := trailer.bytes_pos (recordsFinish 0 records)
    have hfinish := trailer.length_bytes (recordsFinish 0 records)
    simp only [List.length_append, length_zeros] at hcount
    have hoffset : ((records.foldl EntriesState.absorb EntriesState.initial).close trailer).offset
        = trailer.finish (recordsFinish 0 records) := by
      rw [EntriesState.close, EntriesState.offset_foldl]
      rfl
    refine ⟨_, loop_of_recordsBytes hlen (by omega) (Nat.zero_le _) hpayload hall, rfl, ?_, ?_,
      ?_, EntriesState.entries_foldl _ records⟩
    · rw [hoffset]
      omega
    · have hdrop : payload.drop 0 = recordsBytes 0 records ++
          (trailer.bytes (recordsFinish 0 records) ++ zeros count) := hpayload
      have hlast := drop_of_append (drop_of_append hdrop)
      rw [hlength, hfinish] at hlast
      rw [hoffset, hlast]
      congr 1
      omega
    · rw [EntriesState.archiveFormat_close, hformat]

end Cpio
end Unpackio
