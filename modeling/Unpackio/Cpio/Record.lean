/-
CPIO records: a header, a name with its NUL, zeros, the data, and zeros.

A record is described by its bytes alone.  `parseBody` reads exactly these
bytes, whatever stands before and behind the record.
-/
import Unpackio.Cpio.Entries

namespace Unpackio
namespace Cpio

open List (append_assoc length_append length_drop length_singleton)
open Except (bind_eq_ok bind_eq_ok_congr ok_bind)

def padding (value alignment : Nat) : Nat := (alignment - value % alignment) % alignment

def zeros (count : Nat) : List UInt8 := List.replicate count 0

@[simp] theorem length_zeros (count : Nat) : (zeros count).length = count := List.length_replicate

theorem alignUp_eq_ok {value alignment aligned : Nat} :
    alignUp value alignment = .ok aligned ↔
      0 < alignment ∧ value + padding value alignment < 2 ^ 64 ∧
        value + padding value alignment = aligned := by
  rcases Nat.eq_zero_or_pos alignment with rfl | hpos
  · simp [alignUp, rejectIf]
  have hlt : value % alignment < alignment := Nat.mod_lt _ hpos
  have hpadding : alignPadding (value % alignment) alignment = .ok (padding value alignment) := by
    unfold alignPadding padding
    by_cases hzero : value % alignment = 0
    · rw [if_pos hzero, hzero, Nat.sub_zero, Nat.mod_self]
    · rw [if_neg hzero, checkedSub_of_le (Nat.le_of_lt hlt), okOr_some,
        Nat.mod_eq_of_lt (by omega : alignment - value % alignment < alignment)]
  rw [alignUp, rejectIf_of_not (by omega), ok_bind, hpadding, ok_bind, okOr_eq_ok,
    checkedAdd_eq_some]
  exact ⟨fun h => ⟨hpos, h⟩, fun h => h.2⟩

theorem validateZeroPadding_eq_ok {bytes : List UInt8} (hlen : bytes.length < 2 ^ 64)
    {start count : Nat} {u : Unit} :
    validateZeroPadding bytes start (start + count) = .ok u ↔
      start + count ≤ bytes.length ∧
        bytes.drop start = zeros count ++ bytes.drop (start + count) := by
  rw [validateZeroPadding, checkedSub_of_le (Nat.le_add_right _ _), okOr_bind,
    Nat.add_sub_cancel_left]
  simp only [bind_eq_ok, checkedRange_iff_drop hlen, rejectIf_eq_ok]
  constructor
  · rintro ⟨padding, ⟨hle, hcount, hdrop⟩, hzero⟩
    have hzeros : ∀ byte ∈ padding, byte = 0 := fun byte hmem =>
      by_contra fun hne => hzero ⟨byte, hmem, hne⟩
    rw [List.eq_replicate_of_mem hzeros, hcount] at hdrop
    exact ⟨hle, hdrop⟩
  · rintro ⟨hle, hdrop⟩
    refine ⟨zeros count, ⟨hle, length_zeros count, hdrop⟩, ?_⟩
    rintro ⟨byte, hmem, hne⟩
    exact hne (List.eq_of_mem_replicate hmem)

/-- A record with what its header says of it. -/
structure Record where
  header : List UInt8
  parsed : ParsedHeader
  name : List UInt8
  data : List UInt8
  header_parses : parseHeader header 0 = .ok parsed
  headerBytes_eq : parsed.headerBytes = header.length
  nameSize_eq : parsed.nameSize = name.length + 1
  fileSize_eq : parsed.fileSize = data.length
  alignment_pos : 0 < parsed.alignment
  plain : 0 ∉ name

namespace Record

variable (record : Record)

/-- Where the zeros before the data begin, for a record at `offset`. -/
def nameEnd (offset : Nat) : Nat := offset + record.header.length + (record.name.length + 1)

def dataStart (offset : Nat) : Nat :=
  record.nameEnd offset + padding (record.nameEnd offset) record.parsed.alignment

def dataEnd (offset : Nat) : Nat := record.dataStart offset + record.data.length

def finish (offset : Nat) : Nat :=
  record.dataEnd offset + padding (record.dataEnd offset) record.parsed.alignment

/-- The record as it stands at `offset`. -/
def bytes (offset : Nat) : List UInt8 :=
  record.header ++ ((record.name ++ [0]) ++
    (zeros (padding (record.nameEnd offset) record.parsed.alignment) ++
      (record.data ++ zeros (padding (record.dataEnd offset) record.parsed.alignment))))

theorem length_bytes (offset : Nat) : offset + (record.bytes offset).length =
    record.finish offset := by
  simp only [bytes, finish, dataEnd, dataStart, nameEnd, length_append, length_zeros,
    length_singleton]
  omega

theorem headerCost_le (offset : Nat) :
    record.header.length + (record.name.length + 1) ≤ (record.bytes offset).length := by
  simp only [bytes, length_append, length_singleton]
  omega

theorem bytes_pos (offset : Nat) : 0 < (record.bytes offset).length :=
  Nat.lt_of_lt_of_le (Nat.lt_add_left _ (Nat.succ_pos _)) (record.headerCost_le offset)

def entry (index offset : Nat) : CpioEntry where
  index := index
  format := record.parsed.format
  rawName := record.name
  inode := record.parsed.inode
  mode := record.parsed.mode
  uid := record.parsed.uid
  gid := record.parsed.gid
  linkCount := record.parsed.linkCount
  modifiedTime := record.parsed.modifiedTime
  size := record.parsed.fileSize
  deviceMajor := record.parsed.deviceMajor
  deviceMinor := record.parsed.deviceMinor
  rdevMajor := record.parsed.rdevMajor
  rdevMinor := record.parsed.rdevMinor
  checksum := record.parsed.checksum
  dataStart := record.dataStart offset
  dataEnd := record.dataEnd offset

def body (offset : Nat) : RecordBody where
  name := record.name
  nameLength := record.name.length
  dataStart := record.dataStart offset
  dataEnd := record.dataEnd offset
  data := record.data
  recordEnd := record.finish offset

end Record

variable {payload rest : List UInt8} {offset : Nat} {parsed : ParsedHeader}

theorem parseNewcHeader_headerBytes {hasChecksum : Bool}
    (h : parseNewcHeader payload offset hasChecksum = .ok parsed) :
    parsed.headerBytes = newcHeaderBytes := by
  simp only [parseNewcHeader, bind_eq_ok] at h
  obtain ⟨_, -, _, -, _, -, _, -, _, -, _, -, _, -, _, -, _, -, _, -, _, -, _, -, _, -, _, -, _, -,
    h⟩ := h
  cases h
  rfl

theorem parseOdcHeader_headerBytes (h : parseOdcHeader payload offset = .ok parsed) :
    parsed.headerBytes = odcHeaderBytes := by
  simp only [parseOdcHeader, bind_eq_ok] at h
  obtain ⟨_, -, _, -, _, -, _, -, _, -, _, -, _, -, _, -, _, -, _, -, _, -, h⟩ := h
  cases h
  rfl

theorem parseBinaryHeader_headerBytes {littleEndian : Bool}
    (h : parseBinaryHeader payload offset littleEndian = .ok parsed) :
    parsed.headerBytes = binaryHeaderBytes := by
  simp only [parseBinaryHeader, bind_eq_ok] at h
  obtain ⟨_, -, _, -, _, -, _, -, _, -, _, -, _, -, _, -, _, -, _, -, _, -, _, -, _, -, _, -, _, -,
    h⟩ := h
  cases h
  rfl

theorem parseHeader_headerBytes (h : parseHeader payload offset = .ok parsed) :
    parsed.headerBytes = newcHeaderBytes ∨ parsed.headerBytes = odcHeaderBytes ∨
      parsed.headerBytes = binaryHeaderBytes := by
  simp only [parseHeader, bind_eq_ok] at h
  obtain ⟨_, -, first, -, second, -, h⟩ := h
  split at h
  · exact .inr (.inr (parseBinaryHeader_headerBytes h))
  split at h
  · exact .inr (.inr (parseBinaryHeader_headerBytes h))
  obtain ⟨magic, -, h⟩ := bind_eq_ok.mp h
  obtain ⟨_, -, h⟩ := bind_eq_ok.mp h
  split at h
  · exact .inl (parseNewcHeader_headerBytes h)
  split at h
  · exact .inr (.inl (parseOdcHeader_headerBytes h))
  · exact (nomatch h)

theorem parseHeader_shift {header : List UInt8} (hlen : payload.length < 2 ^ 64)
    (hoffset : offset ≤ payload.length) (hdrop : payload.drop offset = header ++ rest)
    (hbytes : parsed.headerBytes = header.length) :
    parseHeader payload offset = .ok parsed ↔ parseHeader header 0 = .ok parsed := by
  have hcount := congrArg List.length hdrop
  rw [length_drop, length_append] at hcount
  have hrange : ∀ n ≤ header.length, ∀ o t,
      checkedRange payload offset n o t = checkedRange header 0 n o t := by
    intro n hn o t
    have hleft : checkedRange payload offset n o t = .ok (header.take n) := by
      refine checkedRange_eq_ok.mpr ⟨by omega, by omega, ?_⟩
      rw [List.drop_take, Nat.add_sub_cancel_left, hdrop, List.take_append_of_le_length hn]
    rw [hleft, eq_comm]
    exact checkedRange_eq_ok.mpr ⟨by omega, by omega, by rw [Nat.zero_add, List.drop_zero]⟩
  by_cases hsmall : header.length < binaryHeaderBytes
  · have hnot : ∀ {bytes : List UInt8} {start : Nat}, parseHeader bytes start ≠ .ok parsed := by
      intro bytes start h
      have hcases := parseHeader_headerBytes h
      simp only [newcHeaderBytes, odcHeaderBytes, binaryHeaderBytes] at hcases hsmall
      omega
    exact iff_of_false hnot hnot
  have hbinary : ∀ littleEndian, parseBinaryHeader payload offset littleEndian = .ok parsed ↔
      parseBinaryHeader header 0 littleEndian = .ok parsed := by
    intro littleEndian
    rw [parseBinaryHeader, parseBinaryHeader, hrange _ (Nat.le_of_not_lt hsmall)]
  have hnewc : ∀ hasChecksum, parseNewcHeader payload offset hasChecksum = .ok parsed ↔
      parseNewcHeader header 0 hasChecksum = .ok parsed := by
    intro hasChecksum
    by_cases hsize : parsed.headerBytes = newcHeaderBytes
    · rw [parseNewcHeader, parseNewcHeader, hrange _ (by omega)]
    · exact iff_of_false (fun h => hsize (parseNewcHeader_headerBytes h))
        fun h => hsize (parseNewcHeader_headerBytes h)
  have hodc : parseOdcHeader payload offset = .ok parsed ↔
      parseOdcHeader header 0 = .ok parsed := by
    by_cases hsize : parsed.headerBytes = odcHeaderBytes
    · rw [parseOdcHeader, parseOdcHeader, hrange _ (by omega)]
    · exact iff_of_false (fun h => hsize (parseOdcHeader_headerBytes h))
        fun h => hsize (parseOdcHeader_headerBytes h)
  rw [binaryHeaderBytes] at hsmall
  simp only [parseHeader, hrange 2 (by omega), hrange 6 (by omega)]
  refine bind_eq_ok_congr fun _ => bind_eq_ok_congr fun first =>
    bind_eq_ok_congr fun second => ?_
  by_cases hlittle : [first, second] = [0xc7, 0x71]
  · rw [if_pos hlittle, if_pos hlittle]
    exact hbinary true
  rw [if_neg hlittle, if_neg hlittle]
  by_cases hbig : [first, second] = [0x71, 0xc7]
  · rw [if_pos hbig, if_pos hbig]
    exact hbinary false
  rw [if_neg hbig, if_neg hbig]
  refine bind_eq_ok_congr fun magic => bind_eq_ok_congr fun _ => ?_
  by_cases hmagic : magic = magicNewc ∨ magic = magicCrc
  · rw [if_pos hmagic, if_pos hmagic]
    exact hnewc _
  rw [if_neg hmagic, if_neg hmagic]
  by_cases hmagic' : magic = magicOdc
  · rw [if_pos hmagic', if_pos hmagic']
    exact hodc
  · rw [if_neg hmagic', if_neg hmagic']

/-! ## Bodies -/

section

variable {record : Record} (hoffset : offset ≤ payload.length)
  (h : payload.drop offset = record.bytes offset ++ rest)
include hoffset h

theorem Record.parts :
    record.finish offset ≤ payload.length ∧
      payload.drop (offset + record.header.length) =
        (record.name ++ [0]) ++ payload.drop (record.nameEnd offset) ∧
      payload.drop (record.nameEnd offset) =
        zeros (padding (record.nameEnd offset) record.parsed.alignment) ++
          payload.drop (record.dataStart offset) ∧
      payload.drop (record.dataStart offset) =
        record.data ++ payload.drop (record.dataEnd offset) ∧
      payload.drop (record.dataEnd offset) =
        zeros (padding (record.dataEnd offset) record.parsed.alignment) ++
          payload.drop (record.finish offset) := by
  have hcount := congrArg List.length h
  have hlength := record.length_bytes offset
  rw [length_drop, length_append] at hcount
  simp only [Record.bytes, append_assoc] at h
  have hname := drop_of_append h
  rw [← append_assoc record.name] at hname
  have hpadding := drop_of_append hname
  rw [length_append, length_singleton] at hpadding
  have hdata := drop_of_append hpadding
  have htail := drop_of_append hdata
  have hrest := drop_of_append htail
  rw [length_zeros] at hdata htail hrest
  rw [length_zeros] at hrest
  refine ⟨by omega, ?_, ?_, ?_, ?_⟩
  · rw [hname]
    exact congrArg _ hpadding.symm
  · exact hpadding.trans (congrArg _ hdata.symm)
  · exact hdata.trans (congrArg _ htail.symm)
  · exact htail.trans (congrArg _ hrest.symm)

theorem Record.data_range :
    record.finish offset ≤ payload.length ∧
      getRange payload (record.dataStart offset) (record.dataEnd offset) = some record.data := by
  obtain ⟨hfinish, -, -, hdata, -⟩ := record.parts hoffset h
  have hend : record.dataEnd offset = record.dataStart offset + record.data.length := rfl
  have hle : record.dataEnd offset ≤ record.finish offset := Nat.le_add_right _ _
  refine ⟨hfinish, getRange_eq_some.mpr ⟨by omega, by omega, ?_⟩⟩
  rw [List.drop_take, hdata, hend, Nat.add_sub_cancel_left, List.take_left]

end

variable (hlen : payload.length < 2 ^ 64) (hoffset : offset ≤ payload.length)
include hlen hoffset

theorem Record.parseBody_eq {record : Record}
    (h : payload.drop offset = record.bytes offset ++ rest) :
    parseBody payload offset record.parsed = .ok (record.body offset) := by
  obtain ⟨hfinish, hname, hpadding, hdata, htail⟩ := record.parts hoffset h
  have hnameEnd : record.nameEnd offset =
      offset + record.header.length + (record.name.length + 1) := rfl
  have hdataStart : record.dataStart offset = record.nameEnd offset +
      padding (record.nameEnd offset) record.parsed.alignment := rfl
  have hdataEnd : record.dataEnd offset = record.dataStart offset + record.data.length := rfl
  have hrecordEnd : record.finish offset = record.dataEnd offset +
      padding (record.dataEnd offset) record.parsed.alignment := rfl
  have hwithNul := checkedRange_of_drop hlen (by omega) hname "CPIO name range overflows"
    "CPIO name is truncated"
  have honly : (record.name ++ [0]).length < 2 ^ 64 := by
    rw [length_append, length_singleton]
    omega
  have hplain := checkedRange_of_drop honly (Nat.zero_le _)
    (show (record.name ++ [0]).drop 0 = record.name ++ [0] from rfl) "CPIO name range overflows"
    "CPIO name is truncated"
  have hstart : alignUp (record.nameEnd offset) record.parsed.alignment =
      .ok (record.dataStart offset) :=
    alignUp_eq_ok.mpr ⟨record.alignment_pos, by omega, rfl⟩
  have hend : alignUp (record.dataEnd offset) record.parsed.alignment =
      .ok (record.finish offset) :=
    alignUp_eq_ok.mpr ⟨record.alignment_pos, by omega, rfl⟩
  have hzerosName : validateZeroPadding payload (record.nameEnd offset)
      (record.dataStart offset) = .ok () :=
    (validateZeroPadding_eq_ok hlen).mpr ⟨by omega, hpadding⟩
  have hzerosData : validateZeroPadding payload (record.dataEnd offset)
      (record.finish offset) = .ok () :=
    (validateZeroPadding_eq_ok hlen).mpr ⟨by omega, htail⟩
  rw [length_append, length_singleton] at hwithNul
  rw [parseBody, record.nameSize_eq, rejectIf_of_not (Nat.succ_ne_zero _), ok_bind,
    record.headerBytes_eq, checkedAdd_bind (by omega), hwithNul, ok_bind, List.getLast?_concat,
    rejectIf_of_not (fun hne => hne rfl), ok_bind, checkedSub_of_le (by omega), okOr_bind,
    Nat.add_sub_cancel, hplain, ok_bind, rejectIf_of_not record.plain, ok_bind,
    checkedAdd_bind (by omega), ← hnameEnd, hstart, ok_bind, hzerosName, ok_bind,
    record.fileSize_eq, checkedAdd_bind (by omega), checkedRange_of_drop hlen (by omega) hdata,
    ok_bind, ← hdataEnd, hend, ok_bind, hzerosData]
  rfl

theorem exists_record {body : RecordBody} (hparsed : parseHeader payload offset = .ok parsed)
    (hbody : parseBody payload offset parsed = .ok body) :
    ∃ record : Record, record.parsed = parsed ∧ body = record.body offset ∧
      payload.drop offset = record.bytes offset ++ payload.drop (record.finish offset) := by
  simp only [parseBody, bind_eq_ok, rejectIf_eq_ok, okOr_eq_ok, checkedAdd_eq_some,
    checkedSub_eq_some, checkedRange_iff_drop hlen, alignUp_eq_ok] at hbody
  obtain ⟨_, hsize, _, ⟨-, rfl⟩, nameWithNul, ⟨hnameFits, hnameLength, hname⟩, _, hlast, _,
    ⟨-, rfl⟩, name, hnamePart, _, hplain, _, ⟨-, rfl⟩, _, ⟨hpos, -, rfl⟩, _, hpadding, _, ⟨-, rfl⟩,
    data, ⟨hdataFits, hdataLength, hdata⟩, _, ⟨-, -, rfl⟩, _, htail, hbody⟩ := hbody
  obtain ⟨-, hpadding⟩ := (validateZeroPadding_eq_ok hlen).mp hpadding
  obtain ⟨-, htail⟩ := (validateZeroPadding_eq_ok hlen).mp htail
  obtain ⟨front, rfl⟩ := List.getLast?_eq_some_iff.mp (not_not.mp hlast)
  rw [length_append, length_singleton] at hnameLength
  have hfront : name = front := by
    obtain ⟨-, -, hpart⟩ := checkedRange_eq_ok.mp hnamePart
    rw [Nat.zero_add, List.drop_zero, List.take_left' (by omega)] at hpart
    exact hpart.symm
  subst hfront
  have hheader : payload.drop offset = (payload.drop offset).take parsed.headerBytes ++
      payload.drop (offset + parsed.headerBytes) := by
    rw [← List.drop_drop, List.take_append_drop]
  have hheaderLength : ((payload.drop offset).take parsed.headerBytes).length =
      parsed.headerBytes := by
    rw [List.length_take, length_drop]
    omega
  refine ⟨⟨(payload.drop offset).take parsed.headerBytes, parsed, name, data,
    (parseHeader_shift hlen hoffset hheader hheaderLength.symm).mp hparsed, hheaderLength.symm,
    hnameLength.symm, hdataLength.symm, hpos, hplain⟩, rfl, ?_, ?_⟩
  · cases hbody
    simp only [Record.body, Record.dataStart, Record.dataEnd, Record.finish, Record.nameEnd,
      hheaderLength, hnameLength, hdataLength]
    rw [← hnameLength, Nat.add_sub_cancel]
  · simp only [Record.bytes, Record.dataStart, Record.dataEnd, Record.finish, Record.nameEnd,
      hheaderLength, hnameLength, hdataLength, append_assoc]
    rw [← htail, ← hdata, ← hpadding, ← append_assoc name, ← hname, ← hheader]

end Cpio
end Unpackio
