/-
The names of members that a GNU writer wrote, and what the parser makes of them.

A GNU header has no path prefix: the bytes from 345 on hold times, an offset and
a sparse map.  A long name stands in a record of its own, with one NUL behind it.
-/
import Unpackio.Deb.TarSources

namespace Unpackio
namespace Deb

/-- `ustar`, two spaces and a NUL. -/
def gnuMagic : List UInt8 := [0x75, 0x73, 0x74, 0x61, 0x72, 0x20, 0x20, 0]

/-- An `L` or `K` record: a name and the NUL behind it. -/
structure LongRecord where
  block : TarBlock
  name : List UInt8
  typeFlag_eq : block.typeFlag = 0x4c ∨ block.typeFlag = 0x4b
  size_eq : block.size = (name ++ [0]).length
  magic_eq : fieldAt block.bytes 257 8 = gnuMagic
  name_ne_nil : name ≠ []
  plain : 0 ∉ name

namespace LongRecord

def bytes (record : LongRecord) : List UInt8 := recordBytes record.block (record.name ++ [0])

def longName? (record : LongRecord) : Option (List UInt8) :=
  if record.block.typeFlag = 0x4c then some record.name else none

def longLink? (record : LongRecord) : Option (List UInt8) :=
  if record.block.typeFlag = 0x4c then none else some record.name

end LongRecord

/-- A member without pax records.  The format has no path prefix, so that of
`fields` is not written. -/
structure GnuMember where
  records : List LongRecord
  block : TarBlock
  fields : MemberFields
  data : List UInt8
  plain : ¬isExtensionFlag block.typeFlag
  size_eq : block.size = data.length
  magic_eq : fieldAt block.bytes 257 8 = gnuMagic
  name_eq : StringField (fieldAt block.bytes 0 100) fields.name
  restIn : fields.RestIn block.bytes block.typeFlag

namespace GnuMember

variable (member : GnuMember)

def recordsBytes : List UInt8 := member.records.flatMap LongRecord.bytes

def bytes : List UInt8 := member.recordsBytes ++ recordBytes member.block member.data

def longName : Option (List UInt8) := (member.records.filterMap LongRecord.longName?).getLast?

def longLink : Option (List UInt8) := (member.records.filterMap LongRecord.longLink?).getLast?

def storedName : List UInt8 := member.longName.getD member.fields.name

def storedLink : Option (List UInt8) := member.longLink.or (nonEmpty member.fields.linkName)

/-- The bytes that the parser takes for a path prefix. -/
def prefixField : List UInt8 := fieldAt member.block.bytes 345 155

def headerPrefix : List UInt8 := member.prefixField.takeWhile fun byte => byte ≠ 0

def headerPath : List UInt8 := joinedPath member.headerPrefix member.fields.name

def path : List UInt8 := (member.longName.map longValueEnd).getD member.headerPath

def linkTarget : Option (List UInt8) :=
  (member.longLink.map longValueEnd).or (nonEmpty member.fields.linkName)

/-- Behind its first NUL the supposed prefix holds nothing but NULs and spaces. -/
def PrefixPadded : Prop :=
  ∀ byte ∈ member.prefixField.drop member.headerPrefix.length, byte = 0 ∨ byte = 0x20

instance : Decidable member.PrefixPadded :=
  inferInstanceAs (Decidable (∀ byte ∈ _, byte = 0 ∨ byte = 0x20))

/-- The parser takes the member for one with a name. -/
structure Legible : Prop where
  padded : member.PrefixPadded
  path_ne_nil : member.path ≠ []

/-- The bytes from 345 on read as a padded string, as the empty one where no `L`
record names the member, the name is not empty, and no long name or link ends in
a newline. -/
structure Preserved : Prop where
  padded : member.PrefixPadded
  short : member.longName = none → member.headerPrefix = [] ∧ member.fields.name ≠ []
  longName : ∀ name, member.longName = some name → name.getLast? ≠ some 0x0a
  longLink : ∀ name, member.longLink = some name → name.getLast? ≠ some 0x0a

end GnuMember

def gnuArchiveBytes (members : List GnuMember) (tail : Nat) : List UInt8 :=
  members.flatMap GnuMember.bytes ++ List.replicate (2 * blockBytes + tail) 0

theorem longValueEnd_concat_nul (name : List UInt8) :
    longValueEnd (name ++ [0]) = longValueEnd name := by
  rw [longValueEnd, List.rdropWhile_concat]
  rfl

theorem longValueEnd_front (name : List UInt8) : longValueEnd name <+: name :=
  List.rdropWhile_prefix _ _

variable {name : List UInt8}

/-- A name without NULs is left as it is unless it ends in a newline. -/
theorem longValueEnd_eq_self (hplain : 0 ∉ name) :
    longValueEnd name = name ↔ name.getLast? ≠ some 0x0a := by
  rw [longValueEnd, List.rdropWhile_eq_self_iff]
  constructor
  · intro h hlast
    have hne : name ≠ [] := fun h => by rw [h] at hlast; cases hlast
    have hget := List.getLast?_eq_some_getLast hne
    have hnewline : name.getLast hne = 0x0a := Option.some.inj (hget.symm.trans hlast)
    exact h hne (by simp [hnewline])
  · intro h hne
    have hlast := List.getLast?_eq_some_getLast hne
    have hzero : name.getLast hne ≠ 0 := fun h => hplain (h ▸ List.getLast_mem hne)
    have hnewline : name.getLast hne ≠ 0x0a := fun heq => h (heq ▸ hlast)
    simp [hzero, hnewline]

namespace GnuMember

variable {member : GnuMember}

theorem mem_longName (h : member.longName = some name) :
    ∃ record ∈ member.records, record.name = name := by
  obtain ⟨record, hmem, hname⟩ := List.mem_filterMap.mp (List.mem_of_getLast? h)
  unfold LongRecord.longName? at hname
  split at hname
  · exact ⟨record, hmem, Option.some.inj hname⟩
  · nomatch hname

theorem mem_longLink (h : member.longLink = some name) :
    ∃ record ∈ member.records, record.name = name := by
  obtain ⟨record, hmem, hname⟩ := List.mem_filterMap.mp (List.mem_of_getLast? h)
  unfold LongRecord.longLink? at hname
  split at hname
  · nomatch hname
  · exact ⟨record, hmem, Option.some.inj hname⟩

theorem longName_plain (h : member.longName = some name) : 0 ∉ name := by
  obtain ⟨record, -, rfl⟩ := mem_longName h
  exact record.plain

theorem longName_ne_nil (h : member.longName = some name) : name ≠ [] := by
  obtain ⟨record, -, rfl⟩ := mem_longName h
  exact record.name_ne_nil

theorem longLink_plain (h : member.longLink = some name) : 0 ∉ name := by
  obtain ⟨record, -, rfl⟩ := mem_longLink h
  exact record.plain

/-- The parser reads what the writer stored exactly under the condition. -/
theorem preserved_iff (member : GnuMember) :
    member.Preserved ↔ member.Legible ∧ member.path = member.storedName ∧
      member.linkTarget = member.storedLink := by
  have hlink : (∀ name, member.longLink = some name → name.getLast? ≠ some 0x0a) ↔
      member.linkTarget = member.storedLink := by
    rw [linkTarget, storedLink]
    cases hlong : member.longLink with
    | none => simp
    | some name => simp [← longValueEnd_eq_self (longLink_plain hlong)]
  cases hlong : member.longName with
  | none =>
    have hpath : member.path = member.headerPath := by rw [path, hlong]; rfl
    have hstored : member.storedName = member.fields.name := by rw [storedName, hlong]; rfl
    have hheader : member.headerPath = member.fields.name ↔ member.headerPrefix = [] := by
      unfold headerPath joinedPath
      split
      · exact iff_of_true rfl ‹_›
      · refine iff_of_false (fun h => ?_) ‹_›
        have hlength := congrArg List.length h
        rw [List.length_append, List.length_cons] at hlength
        omega
    constructor
    · rintro ⟨hpadded, hshort, -, hlinks⟩
      obtain ⟨hempty, hname⟩ := hshort hlong
      have hequal := hheader.mpr hempty
      exact ⟨⟨hpadded, by rw [hpath, hequal]; exact hname⟩, by rw [hpath, hstored, hequal],
        hlink.mp hlinks⟩
    · rintro ⟨⟨hpadded, hne⟩, hequal, hlinks⟩
      rw [hpath, hstored] at hequal
      rw [hpath, hequal] at hne
      exact ⟨hpadded, fun _ => ⟨hheader.mp hequal, hne⟩, fun name h => (nomatch hlong.symm.trans h),
        hlink.mpr hlinks⟩
  | some name =>
    have hpath : member.path = longValueEnd name := by rw [path, hlong]; rfl
    have hstored : member.storedName = name := by rw [storedName, hlong]; rfl
    have hself := longValueEnd_eq_self (longName_plain hlong)
    constructor
    · rintro ⟨hpadded, -, hnames, hlinks⟩
      have hequal := hself.mpr (hnames name hlong)
      exact ⟨⟨hpadded, by rw [hpath, hequal]; exact longName_ne_nil hlong⟩,
        by rw [hpath, hstored, hequal], hlink.mp hlinks⟩
    · rintro ⟨⟨hpadded, -⟩, hequal, hlinks⟩
      rw [hpath, hstored] at hequal
      refine ⟨hpadded, fun h => (nomatch hlong.symm.trans h), fun other h => ?_, hlink.mpr hlinks⟩
      cases hlong.symm.trans h
      exact hself.mp hequal

end GnuMember

def ArchiveTotals.afterLong (totals : ArchiveTotals) (records : List LongRecord) : ArchiveTotals :=
  totals.addHeader ((records.map fun record => blockBytes + (record.name ++ [0]).length).sum)

theorem ArchiveTotals.afterLong_cons (totals : ArchiveTotals) (record : LongRecord)
    (records : List LongRecord) : totals.afterLong (record :: records) =
      ((totals.addHeader blockBytes).addHeader (record.name ++ [0]).length).afterLong records := by
  simp only [afterLong, addHeader, List.map_cons, List.sum_cons, Nat.add_assoc]

theorem ArchiveTotals.below_addHeader (totals : ArchiveTotals) (count : Nat) :
    totals.Below (totals.addHeader count) :=
  ⟨Nat.le_add_right _ _, Nat.le_refl _, Nat.le_refl _, Nat.le_refl _, Nat.le_refl _⟩

def TarState.absorbLong (state : TarState) (record : LongRecord) : TarState where
  offset := state.offset + record.bytes.length
  entries := state.entries
  globalPax := state.globalPax
  localPax := state.localPax
  longName := (record.longName?.map longValueEnd).or state.longName
  longLink := (record.longLink?.map longValueEnd).or state.longLink
  totals := (state.totals.addHeader blockBytes).addHeader (record.name ++ [0]).length

theorem parseLongValue_record (record : LongRecord) {limits : Limits}
    (hlimit : record.name.length ≤ limits.maxNameBytesPerEntry) :
    (parseLongValue (record.name ++ [0]) limits).granted = .ok (longValueEnd record.name) := by
  have hend := longValueEnd_front record.name
  rw [parseLongValue, longValueEnd_concat_nul]
  exact copyPaxName_granted (fun h => record.plain (hend.subset h))
    (Nat.le_trans hend.length_le hlimit)

theorem parseLoop_longRecord {bytes front rest : List UInt8} {record : LongRecord}
    (hbytes : bytes = front ++ record.bytes ++ rest) (hlen : bytes.length < 2 ^ 64)
    (haligned : front.length % blockBytes = 0) {state : TarState}
    (hoffset : state.offset = front.length) {limits : Limits}
    (hwithin : ((state.totals.addHeader blockBytes).addHeader
      (record.name ++ [0]).length).Within limits)
    (hlimit : record.name.length ≤ limits.maxNameBytesPerEntry) (tarSection : DebSection)
    (fuel : Nat) :
    (parseLoop bytes tarSection limits (fuel + 1) state).granted =
      (parseLoop bytes tarSection limits fuel (state.absorbLong record)).granted := by
  have hvalue := parseLongValue_record record hlimit
  have hflag : isExtensionFlag record.block.typeFlag :=
    record.typeFlag_eq.elim (fun h => .inr (.inr (.inl h))) fun h => .inr (.inr (.inr h))
  have happly : (applyExtension (record.name ++ [0]) limits
      ((state.countHeader blockBytes).countHeader (record.name ++ [0]).length)
      record.block.typeFlag).granted =
        .ok { state.absorbLong record with offset := state.offset } := by
    rcases record.typeFlag_eq with hname | hlink
    · rw [applyExtension, hname, if_neg (show (0x4c : UInt8) ≠ 0x67 by decide),
        if_neg (show (0x4c : UInt8) ≠ 0x78 by decide), if_pos rfl, Prog.granted_bind, hvalue,
        TarState.absorbLong, LongRecord.longName?, LongRecord.longLink?, if_pos hname,
        if_pos hname]
      rfl
    · have hother : record.block.typeFlag ≠ 0x4c := by rw [hlink]; decide
      rw [applyExtension, if_neg (by rw [hlink]; decide), if_neg (by rw [hlink]; decide),
        if_neg hother, if_pos hlink, Prog.granted_bind, hvalue, TarState.absorbLong,
        LongRecord.longName?, LongRecord.longLink?, if_neg hother, if_neg hother]
      rfl
  rw [parseLoop_extensionData hflag record.size_eq hbytes hlen haligned hoffset hwithin happly,
    TarState.absorbLong, hoffset]
  rfl

theorem foldl_absorbLong (records : List LongRecord) (state : TarState) :
    records.foldl TarState.absorbLong state =
      { offset := state.offset + (records.flatMap LongRecord.bytes).length
        entries := state.entries
        globalPax := state.globalPax
        localPax := state.localPax
        longName := ((records.filterMap LongRecord.longName?).getLast?.map longValueEnd).or
          state.longName
        longLink := ((records.filterMap LongRecord.longLink?).getLast?.map longValueEnd).or
          state.longLink
        totals := state.totals.afterLong records } := by
  induction records generalizing state with
  | nil => rfl
  | cons record records ih =>
    have hname := getLast?_filterMap_cons
      (fun record => (LongRecord.longName? record).map longValueEnd) record records state.longName
    have hlink := getLast?_filterMap_cons
      (fun record => (LongRecord.longLink? record).map longValueEnd) record records state.longLink
    simp only [← List.map_filterMap, List.getLast?_map] at hname hlink
    rw [List.foldl_cons, ih, hname, hlink, List.flatMap_cons, List.length_append, ← Nat.add_assoc,
      ArchiveTotals.afterLong_cons]
    rfl

theorem parseLoop_longRecords (records : List LongRecord) {bytes front rest : List UInt8}
    (hbytes : bytes = front ++ records.flatMap LongRecord.bytes ++ rest)
    (hlen : bytes.length < 2 ^ 64) (haligned : front.length % blockBytes = 0) (state : TarState)
    (hoffset : state.offset = front.length) {limits : Limits}
    (hwithin : (state.totals.afterLong records).Within limits)
    (hlimit : ∀ record ∈ records, record.name.length ≤ limits.maxNameBytesPerEntry)
    (tarSection : DebSection) (fuel : Nat) :
    (parseLoop bytes tarSection limits (records.length + fuel) state).granted =
      (parseLoop bytes tarSection limits fuel
        (records.foldl TarState.absorbLong state)).granted := by
  induction records generalizing front state with
  | nil => rw [List.length_nil, Nat.zero_add, List.foldl_nil]
  | cons record records ih =>
    obtain ⟨hname, hrest⟩ := List.forall_mem_cons.mp hlimit
    rw [List.flatMap_cons, ← List.append_assoc] at hbytes
    rw [ArchiveTotals.afterLong_cons] at hwithin
    have hboundary : (front ++ record.bytes).length % blockBytes = 0 := by
      rw [List.length_append, Nat.add_mod, haligned, LongRecord.bytes, recordBytes_mod]
      rfl
    have hnext := ih hbytes hboundary (state.absorbLong record)
      (by rw [List.length_append, ← hoffset]; rfl) hwithin hrest
    rw [List.append_assoc] at hbytes
    rw [List.length_cons, Nat.add_right_comm,
      parseLoop_longRecord hbytes hlen haligned hoffset
        (hwithin.of_below (ArchiveTotals.below_addHeader _ _)) hname, hnext,
      List.foldl_cons]

end Deb
end Unpackio
