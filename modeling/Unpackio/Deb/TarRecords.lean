/-
The record loop on the records of an archive: what an extension record leaves
pending, and the entry that a member makes of it.
-/
import Unpackio.Deb.TarArchive

namespace Unpackio
namespace Deb

open List (append_assoc length_append)
open Prog (granted_bind granted_lift_bind)
open Except (ok_bind)

/-! ## Totals -/

variable {totals : ArchiveTotals} {limits : Limits} {state : TarState}
  {bytes front rest : List UInt8}

namespace ArchiveTotals

def addHeader (totals : ArchiveTotals) (count : Nat) : ArchiveTotals :=
  { totals with headerBytes := totals.headerBytes + count }

def afterExtensions (totals : ArchiveTotals) (records : List Extension) : ArchiveTotals :=
  { totals with
    headerBytes := totals.headerBytes + (records.map Extension.headerCost).sum
    properties := totals.properties + (records.map fun record => record.payload.properties).sum }

def addEntry (totals : ArchiveTotals) (path : List UInt8) : ArchiveTotals where
  files := totals.files + 1
  nameBytes := totals.nameBytes + path.length
  headerBytes := totals.headerBytes
  nextEntryIndex := totals.nextEntryIndex + 1
  properties := totals.properties

def afterEntry (totals : ArchiveTotals) (path : List UInt8) : ArchiveTotals :=
  (totals.addHeader blockBytes).addEntry path

def afterMembers (totals : ArchiveTotals) : List Member → List PaxRecord → ArchiveTotals
  | [], _ => totals
  | member :: members, globals =>
    ((totals.afterExtensions member.extensions).afterEntry
      (member.path (globals ++ member.globalRecords))).afterMembers members
        (globals ++ member.globalRecords)

/-- The totals are within the limits and fit in 64 bits. -/
structure Within (limits : Limits) (totals : ArchiveTotals) : Prop where
  headerBytes : totals.headerBytes ≤ limits.maxHeaderBytes
  headerBytes_lt : totals.headerBytes < 2 ^ 64
  properties : totals.properties ≤ limits.maxHeaderProperties
  properties_lt : totals.properties < 2 ^ 64
  files : totals.files ≤ limits.maxFiles
  files_lt : totals.files < 2 ^ 64
  nameBytes : totals.nameBytes ≤ limits.maxTotalNameBytes
  nameBytes_lt : totals.nameBytes < 2 ^ 64
  nextEntryIndex_lt : totals.nextEntryIndex < 2 ^ 64

/-- No total of the first is above that of the second. -/
structure Below (totals others : ArchiveTotals) : Prop where
  headerBytes : totals.headerBytes ≤ others.headerBytes
  properties : totals.properties ≤ others.properties
  files : totals.files ≤ others.files
  nameBytes : totals.nameBytes ≤ others.nameBytes
  nextEntryIndex : totals.nextEntryIndex ≤ others.nextEntryIndex

theorem Below.trans {others last : ArchiveTotals} (h : totals.Below others)
    (h' : others.Below last) :
    totals.Below last where
  headerBytes := Nat.le_trans h.headerBytes h'.headerBytes
  properties := Nat.le_trans h.properties h'.properties
  files := Nat.le_trans h.files h'.files
  nameBytes := Nat.le_trans h.nameBytes h'.nameBytes
  nextEntryIndex := Nat.le_trans h.nextEntryIndex h'.nextEntryIndex

theorem Within.of_below {others : ArchiveTotals} (h : others.Within limits)
    (hbelow : totals.Below others) : totals.Within limits where
  headerBytes := Nat.le_trans hbelow.headerBytes h.headerBytes
  headerBytes_lt := Nat.lt_of_le_of_lt hbelow.headerBytes h.headerBytes_lt
  properties := Nat.le_trans hbelow.properties h.properties
  properties_lt := Nat.lt_of_le_of_lt hbelow.properties h.properties_lt
  files := Nat.le_trans hbelow.files h.files
  files_lt := Nat.lt_of_le_of_lt hbelow.files h.files_lt
  nameBytes := Nat.le_trans hbelow.nameBytes h.nameBytes
  nameBytes_lt := Nat.lt_of_le_of_lt hbelow.nameBytes h.nameBytes_lt
  nextEntryIndex_lt := Nat.lt_of_le_of_lt hbelow.nextEntryIndex h.nextEntryIndex_lt

variable (totals : ArchiveTotals)

theorem below_afterExtensions (records : List Extension) :
    totals.Below (totals.afterExtensions records) :=
  ⟨Nat.le_add_right _ _, Nat.le_add_right _ _, Nat.le_refl _, Nat.le_refl _, Nat.le_refl _⟩

theorem below_afterEntry (path : List UInt8) : totals.Below (totals.afterEntry path) :=
  ⟨Nat.le_add_right _ _, Nat.le_refl _, Nat.le_add_right _ _, Nat.le_add_right _ _,
    Nat.le_add_right _ _⟩

theorem afterExtensions_cons (record : Extension) (records : List Extension) :
    totals.afterExtensions (record :: records) =
      (totals.afterExtensions [record]).afterExtensions records := by
  simp only [afterExtensions, List.map_cons, List.sum_cons, List.map_nil, List.sum_nil,
    Nat.add_zero, Nat.add_assoc]

theorem below_afterMembers (members : List Member) (globals : List PaxRecord) :
    totals.Below (totals.afterMembers members globals) := by
  induction members generalizing totals globals with
  | nil => exact ⟨Nat.le_refl _, Nat.le_refl _, Nat.le_refl _, Nat.le_refl _, Nat.le_refl _⟩
  | cons member members ih =>
    exact ((below_afterExtensions totals member.extensions).trans (below_afterEntry _ _)).trans
      (ih _ _)

end ArchiveTotals

theorem addHeaderBytes_eq {count : Nat} (h : (totals.addHeader count).Within limits) :
    addHeaderBytes totals count limits = .ok (totals.addHeader count) := by
  have hlimit : totals.headerBytes + count ≤ limits.maxHeaderBytes := h.headerBytes
  rw [addHeaderBytes, checkedAdd_bind h.headerBytes_lt, checkLimit_of_le hlimit]
  rfl

def TarState.countHeader (state : TarState) (count : Nat) : TarState :=
  { state with totals := state.totals.addHeader count }

def recordBody (bytes : List UInt8) (block : TarBlock) (tarSection : DebSection)
    (limits : Limits) (state : TarState) (dataStart : Nat) : Metered TarState :=
  if isExtensionFlag block.typeFlag then
    parseExtension bytes limits state block.typeFlag block.size dataStart
  else parseMember bytes block.bytes tarSection limits state block.typeFlag block.size dataStart

theorem parseRecord_granted (bytes : List UInt8) (block : TarBlock) (tarSection : DebSection)
    (limits : Limits) (hlt : state.offset + blockBytes < 2 ^ 64) :
    (parseRecord bytes block.bytes tarSection limits state).granted =
      (recordBody bytes block tarSection limits state (state.offset + blockBytes)).granted := by
  rw [parseRecord, granted_bind, block.verifyHeaderChecksum_granted, ok_bind, granted_lift_bind,
    block.validateMagic_ok, ok_bind, granted_lift_bind, block.sizeField_eq, ok_bind,
    granted_lift_bind, block.typeFlag_eq, okOr_bind, granted_lift_bind, checkedAdd_bind hlt]
  rfl

theorem parseLoop_record {block : TarBlock} (hbytes : bytes = front ++ block.bytes ++ rest)
    (hlen : bytes.length < 2 ^ 64) (state : TarState) (hoffset : state.offset = front.length)
    (hwithin : (state.totals.addHeader blockBytes).Within limits) (tarSection : DebSection)
    (fuel : Nat) :
    (parseLoop bytes tarSection limits (fuel + 1) state).granted =
      (recordBody bytes block tarSection limits (state.countHeader blockBytes)
        (front.length + blockBytes)).granted >>= fun state =>
          (parseLoop bytes tarSection limits fuel state).granted := by
  have hblock : block.bytes.length = blockBytes := block.length_eq
  have hpos : 0 < blockBytes := by decide
  have hsum : bytes.length = front.length + blockBytes + rest.length := by
    rw [hbytes, length_append, length_append, hblock]
  have hheader : checkedRange bytes state.offset blockBytes "tar header range overflows"
      "tar header is truncated" = .ok block.bytes := by
    rw [hoffset, ← hblock, hbytes]
    exact checkedRange_middle _ _ _ (by rw [← hbytes]; exact hlen) _ _
  rw [parseLoop, if_pos (by omega), checkpoint_bind, granted_lift_bind, hheader, ok_bind,
    granted_lift_bind, addHeaderBytes_eq hwithin, ok_bind, if_neg block.not_all_zero, granted_bind,
    parseRecord_granted _ _ _ _ (by simp only [hoffset]; omega)]
  rw [← hoffset]
  rfl

/-! ## Extension records -/

def TarState.absorb (state : TarState) (record : Extension) : TarState where
  offset := state.offset + record.bytes.length
  entries := state.entries
  globalPax := state.globalPax.setAll record.payload.globalRecords
  localPax := (record.payload.localRecords?.map PaxValues.default.setAll).or state.localPax
  longName := record.payload.longName?.or state.longName
  longLink := record.payload.longLink?.or state.longLink
  totals := state.totals.afterExtensions [record]

theorem applyExtension_granted (payload : Payload) (state : TarState)
    (hlen : payload.bytes.length < 2 ^ 64) (hnames : payload.Within limits)
    (hcount : state.totals.properties + payload.properties ≤ limits.maxHeaderProperties)
    (hroom : state.totals.properties + payload.properties < 2 ^ 64) :
    (applyExtension payload.bytes limits state payload.typeFlag).granted =
      .ok { state with
        globalPax := state.globalPax.setAll payload.globalRecords
        localPax := (payload.localRecords?.map PaxValues.default.setAll).or state.localPax
        longName := payload.longName?.or state.longName
        longLink := payload.longLink?.or state.longLink
        totals := state.totals.addProperties payload.properties } := by
  cases payload with
  | globalPax records =>
    have hpax := parsePax_granted records hlen hnames hroom hcount state.globalPax
    show (applyExtension (paxBytes records) limits state 0x67).granted = _
    rw [applyExtension, if_pos rfl, granted_bind, hpax]
    rfl
  | localPax records =>
    have hpax := parsePax_granted records hlen hnames hroom hcount PaxValues.default
    show (applyExtension (paxBytes records) limits state 0x78).granted = _
    rw [applyExtension, if_neg (show (0x78 : UInt8) ≠ 0x67 by decide), if_pos rfl,
      granted_bind, hpax]
    rfl
  | longName name nuls =>
    have hname := parseLongValue_granted name nuls hnames
    show (applyExtension (name.bytes ++ List.replicate nuls 0) limits state 0x4c).granted = _
    rw [applyExtension, if_neg (show (0x4c : UInt8) ≠ 0x67 by decide),
      if_neg (show (0x4c : UInt8) ≠ 0x78 by decide), if_pos rfl, granted_bind, hname]
    rfl
  | longLink name nuls =>
    have hname := parseLongValue_granted name nuls hnames
    show (applyExtension (name.bytes ++ List.replicate nuls 0) limits state 0x4b).granted = _
    rw [applyExtension, if_neg (show (0x4b : UInt8) ≠ 0x67 by decide),
      if_neg (show (0x4b : UInt8) ≠ 0x78 by decide),
      if_neg (show (0x4b : UInt8) ≠ 0x4c by decide), if_pos rfl, granted_bind, hname]
    rfl

theorem Payload.isExtensionFlag_typeFlag (payload : Payload) :
    isExtensionFlag payload.typeFlag := by
  cases payload with
  | globalPax records => exact .inl rfl
  | localPax records => exact .inr (.inl rfl)
  | longName name nuls => exact .inr (.inr (.inl rfl))
  | longLink name nuls => exact .inr (.inr (.inr rfl))

theorem ArchiveTotals.afterExtensions_single (totals : ArchiveTotals) (record : Extension) :
    totals.afterExtensions [record] =
      ((totals.addHeader blockBytes).addHeader record.payload.bytes.length).addProperties
        record.payload.properties := by
  simp only [afterExtensions, addHeader, addProperties, List.map_cons, List.map_nil,
    List.sum_cons, List.sum_nil, Nat.add_zero, Extension.headerCost, Nat.add_assoc]

/-- A header, what it announces, and the zeros up to the next block. -/
def recordBytes (block : TarBlock) (data : List UInt8) : List UInt8 :=
  block.bytes ++ data ++ blockPadding data.length

theorem length_recordBytes (block : TarBlock) (data : List UInt8) :
    (recordBytes block data).length =
      blockBytes + data.length + (blockPadding data.length).length := by
  rw [recordBytes, length_append, length_append, block.length_eq]

theorem recordBytes_mod (block : TarBlock) (data : List UInt8) :
    (recordBytes block data).length % blockBytes = 0 := by
  rw [length_recordBytes, Nat.add_assoc, Nat.add_mod_left, padded_mod]

theorem Extension.bytes_eq (record : Extension) :
    record.bytes = recordBytes record.block record.payload.bytes := rfl

theorem parseExtension_granted {data : List UInt8} {typeFlag : UInt8}
    (hbytes : bytes = front ++ data ++ (blockPadding data.length ++ rest))
    (hlen : bytes.length < 2 ^ 64) (haligned : front.length % blockBytes = 0)
    (hwithin : (state.totals.addHeader data.length).Within limits) {next : TarState}
    (happly : (applyExtension data limits (state.countHeader data.length) typeFlag).granted =
      .ok next) :
    (parseExtension bytes limits state typeFlag data.length front.length).granted =
      .ok { next with offset := front.length + data.length +
        (blockPadding data.length).length } := by
  have hsum : bytes.length = front.length + data.length +
      ((blockPadding data.length).length + rest.length) := by
    rw [hbytes, length_append, length_append, length_append]
  have hlimit : state.totals.headerBytes + data.length ≤ limits.maxHeaderBytes :=
    hwithin.headerBytes
  have hdata : checkedRange bytes front.length data.length
      "tar extension data range overflows" "tar extension data is truncated" = .ok data := by
    rw [hbytes]
    exact checkedRange_middle _ _ _ (by rw [← hbytes]; exact hlen) _ _
  rw [TarState.countHeader] at happly
  rw [parseExtension, granted_lift_bind, checkLimit_of_le (by omega), ok_bind, granted_lift_bind,
    addHeaderBytes_eq hwithin, ok_bind, granted_lift_bind, hdata, ok_bind, granted_bind, happly,
    ok_bind, granted_lift_bind, nextRecordOffset_eq haligned (by omega), ok_bind]
  rfl

theorem parseLoop_extensionData {data : List UInt8} {block : TarBlock}
    (hflag : isExtensionFlag block.typeFlag) (hsize : block.size = data.length)
    (hbytes : bytes = front ++ recordBytes block data ++ rest) (hlen : bytes.length < 2 ^ 64)
    (haligned : front.length % blockBytes = 0) (hoffset : state.offset = front.length)
    (hwithin : ((state.totals.addHeader blockBytes).addHeader data.length).Within limits)
    {next : TarState} (happly : (applyExtension data limits
      ((state.countHeader blockBytes).countHeader data.length) block.typeFlag).granted = .ok next)
    (tarSection : DebSection) (fuel : Nat) :
    (parseLoop bytes tarSection limits (fuel + 1) state).granted =
      (parseLoop bytes tarSection limits fuel
        { next with offset := front.length + (recordBytes block data).length }).granted := by
  have hblock : (front ++ block.bytes).length = front.length + blockBytes := by
    rw [length_append, block.length_eq]
  have hblocked : (state.totals.addHeader blockBytes).Within limits :=
    hwithin.of_below ⟨Nat.le_add_right _ _, Nat.le_refl _, Nat.le_refl _, Nat.le_refl _,
      Nat.le_refl _⟩
  -- The block and the data of the record, each between what stands around it.
  have hfirst : bytes = front ++ block.bytes ++ (data ++ (blockPadding data.length ++ rest)) := by
    rw [hbytes, recordBytes]
    simp only [append_assoc]
  have hsecond : bytes = (front ++ block.bytes) ++ data ++ (blockPadding data.length ++ rest) := by
    rw [hfirst]
    simp only [append_assoc]
  have hdata := parseExtension_granted hsecond hlen
    (by rw [hblock, Nat.add_mod_right, haligned]) hwithin happly
  rw [hblock] at hdata
  rw [parseLoop_record hfirst hlen state hoffset hblocked, recordBody, if_pos hflag, hsize, hdata,
    ok_bind, length_recordBytes, ← Nat.add_assoc, ← Nat.add_assoc]

theorem parseLoop_extension {record : Extension} (hbytes : bytes = front ++ record.bytes ++ rest)
    (hlen : bytes.length < 2 ^ 64) (haligned : front.length % blockBytes = 0)
    (hoffset : state.offset = front.length)
    (hwithin : (state.totals.afterExtensions [record]).Within limits)
    (hnames : record.payload.Within limits) (tarSection : DebSection) (fuel : Nat) :
    (parseLoop bytes tarSection limits (fuel + 1) state).granted =
      (parseLoop bytes tarSection limits fuel (state.absorb record)).granted := by
  have hlength := length_recordBytes record.block record.payload.bytes
  have htotals := state.totals.afterExtensions_single record
  have hsum : bytes.length = front.length +
      (recordBytes record.block record.payload.bytes).length + rest.length := by
    rw [hbytes, length_append, length_append, record.bytes_eq]
  rw [htotals] at hwithin
  have happly := applyExtension_granted record.payload
    ((state.countHeader blockBytes).countHeader record.payload.bytes.length)
    (by omega) hnames hwithin.properties hwithin.properties_lt
  rw [← record.typeFlag_eq] at happly
  rw [parseLoop_extensionData (record.typeFlag_eq ▸ record.payload.isExtensionFlag_typeFlag)
    record.size_eq hbytes hlen haligned hoffset
    (hwithin.of_below ⟨Nat.le_refl _, Nat.le_add_right _ _, Nat.le_refl _, Nat.le_refl _,
      Nat.le_refl _⟩) happly, TarState.absorb, htotals, hoffset, record.bytes_eq]
  rfl

theorem getLast?_filterMap_cons {α β : Type} (f : α → Option β) (a : α) (l : List α)
    (o : Option β) :
    ((a :: l).filterMap f).getLast?.or o = (l.filterMap f).getLast?.or ((f a).or o) := by
  rw [List.filterMap_cons]
  cases f a with
  | none => rfl
  | some b =>
    rw [List.getLast?_cons]
    cases (l.filterMap f).getLast? <;> rfl

theorem foldl_absorb (records : List Extension) (state : TarState) :
    records.foldl TarState.absorb state =
      { offset := state.offset + (records.flatMap Extension.bytes).length
        entries := state.entries
        globalPax := state.globalPax.setAll
          (records.flatMap fun record => record.payload.globalRecords)
        localPax := ((records.filterMap fun record => record.payload.localRecords?).getLast?.map
          PaxValues.default.setAll).or state.localPax
        longName := (records.filterMap fun record => record.payload.longName?).getLast?.or
          state.longName
        longLink := (records.filterMap fun record => record.payload.longLink?).getLast?.or
          state.longLink
        totals := state.totals.afterExtensions records } := by
  induction records generalizing state with
  | nil => rfl
  | cons record records ih =>
    rw [List.foldl_cons, ih, getLast?_filterMap_cons, getLast?_filterMap_cons,
      List.flatMap_cons, List.flatMap_cons, length_append, ← Nat.add_assoc,
      PaxValues.setAll_append, ArchiveTotals.afterExtensions_cons state.totals]
    have hlocal := getLast?_filterMap_cons
      (fun record => record.payload.localRecords?.map PaxValues.default.setAll) record records
      state.localPax
    simp only [← List.map_filterMap, List.getLast?_map] at hlocal
    rw [hlocal]
    rfl

theorem parseLoop_extensions (records : List Extension)
    (hbytes : bytes = front ++ records.flatMap Extension.bytes ++ rest)
    (hlen : bytes.length < 2 ^ 64) (haligned : front.length % blockBytes = 0) (state : TarState)
    (hoffset : state.offset = front.length)
    (hwithin : (state.totals.afterExtensions records).Within limits)
    (hnames : ∀ record ∈ records, record.payload.Within limits) (tarSection : DebSection)
    (fuel : Nat) :
    (parseLoop bytes tarSection limits (records.length + fuel) state).granted =
      (parseLoop bytes tarSection limits fuel (records.foldl TarState.absorb state)).granted := by
  induction records generalizing front state with
  | nil => rw [List.length_nil, Nat.zero_add, List.foldl_nil]
  | cons record records ih =>
    obtain ⟨hname, hrest⟩ := List.forall_mem_cons.mp hnames
    rw [List.flatMap_cons, ← append_assoc] at hbytes
    rw [ArchiveTotals.afterExtensions_cons] at hwithin
    have hnext := ih hbytes (by rw [length_append, Nat.add_mod, haligned,
        record.bytes_eq, recordBytes_mod, Nat.zero_add, Nat.zero_mod]) (state.absorb record)
      (by rw [length_append, ← hoffset]; rfl) hwithin hrest
    rw [append_assoc] at hbytes
    rw [List.length_cons, Nat.add_right_comm,
      parseLoop_extension hbytes hlen haligned hoffset
        (hwithin.of_below (ArchiveTotals.below_afterExtensions _ _)) hname, hnext,
      List.foldl_cons]

end Deb
end Unpackio
