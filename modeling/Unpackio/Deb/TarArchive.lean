/-
Tar archives as their writers lay them out, and what the checks of one header block
make of such a block.

A member is a run of extension records, one V7 or ustar header and its data.
Every attribute has up to four sources: the pax record of the member, the global
pax records seen so far, the GNU long value of the member, and its header.
-/
import Unpackio.Deb.Pax

namespace Unpackio
namespace Deb

def headerSum (header : List UInt8) (index : Nat) : Nat :=
  ((header.zipIdx index).map fun item => (checksumByte item.2 item.1).toNat).sum

def magicUstar : List UInt8 := [0x75, 0x73, 0x74, 0x61, 0x72, 0]

def magicGnu : List UInt8 := [0x75, 0x73, 0x74, 0x61, 0x72, 0x20]

/-- A header block, with what every record needs of it. -/
structure TarBlock where
  bytes : List UInt8
  typeFlag : UInt8
  size : Nat
  length_eq : bytes.length = blockBytes
  checksum_eq : NumberField (fieldAt bytes 148 8) (headerSum bytes 0)
  magic_eq : fieldAt bytes 257 6 = magicUstar ∨ fieldAt bytes 257 6 = magicGnu ∨
    ∀ byte ∈ fieldAt bytes 257 6, byte = 0
  size_eq : NumberField (fieldAt bytes 124 12) size
  size_lt : size < 2 ^ 64
  typeFlag_eq : bytes[156]? = some typeFlag

/-- The zeros that fill the last block of `count` bytes. -/
def blockPadding (count : Nat) : List UInt8 :=
  List.replicate ((blockBytes - count % blockBytes) % blockBytes) 0

/-- A GNU long value. -/
structure LongValue where
  bytes : List UInt8
  plain : 0 ∉ bytes
  last_ne : bytes.getLast? ≠ some 0x0a

inductive Payload where
  | globalPax (records : List PaxRecord)
  | localPax (records : List PaxRecord)
  | longName (name : LongValue) (nuls : Nat)
  | longLink (name : LongValue) (nuls : Nat)

namespace Payload

def typeFlag : Payload → UInt8
  | globalPax _ => 0x67
  | localPax _ => 0x78
  | longName _ _ => 0x4c
  | longLink _ _ => 0x4b

def bytes : Payload → List UInt8
  | globalPax records | localPax records => paxBytes records
  | longName name nuls | longLink name nuls => name.bytes ++ List.replicate nuls 0

def globalRecords : Payload → List PaxRecord
  | globalPax records => records
  | _ => []

def localRecords? : Payload → Option (List PaxRecord)
  | localPax records => some records
  | _ => none

def longName? : Payload → Option (List UInt8)
  | longName name _ => some name.bytes
  | _ => none

def longLink? : Payload → Option (List UInt8)
  | longLink name _ => some name.bytes
  | _ => none

def properties : Payload → Nat
  | globalPax records | localPax records => records.length
  | _ => 0

def Within (limits : Limits) : Payload → Prop
  | globalPax records | localPax records => NamesWithin limits records
  | longName name _ | longLink name _ => name.bytes.length ≤ limits.maxNameBytesPerEntry

instance (limits : Limits) : (payload : Payload) → Decidable (payload.Within limits)
  | globalPax records | localPax records =>
    inferInstanceAs (Decidable (∀ record ∈ records, record.key ∈ nameKeys → _ ≤ _))
  | longName _ _ | longLink _ _ => inferInstanceAs (Decidable (_ ≤ _))

end Payload

structure Extension where
  block : TarBlock
  payload : Payload
  typeFlag_eq : block.typeFlag = payload.typeFlag
  size_eq : block.size = payload.bytes.length

namespace Extension

def bytes (record : Extension) : List UInt8 :=
  record.block.bytes ++ record.payload.bytes ++ blockPadding record.payload.bytes.length

def headerCost (record : Extension) : Nat := blockBytes + record.payload.bytes.length

end Extension

/-! ## Members -/

/-- The fields of a V7 or ustar header. -/
structure MemberFields where
  name : List UInt8
  pathPrefix : List UInt8
  linkName : List UInt8
  mode : Nat
  uid : Nat
  gid : Nat
  modifiedTime : Int
  userName : List UInt8
  groupName : List UInt8
  deviceMajor : Nat
  deviceMinor : Nat

def isDevice (typeFlag : UInt8) : Prop := typeFlag = 0x33 ∨ typeFlag = 0x34

instance (typeFlag : UInt8) : Decidable (isDevice typeFlag) := inferInstanceAs (Decidable (_ ∨ _))

/-- The fields behind the name stand in a header of this type, the path prefix
apart. -/
structure MemberFields.RestIn (fields : MemberFields) (header : List UInt8) (typeFlag : UInt8) :
    Prop where
  linkName_eq : StringField (fieldAt header 157 100) fields.linkName
  userName_eq : StringField (fieldAt header 265 32) fields.userName
  groupName_eq : StringField (fieldAt header 297 32) fields.groupName
  mode_eq : NumberField (fieldAt header 100 8) fields.mode
  mode_lt : fields.mode < 2 ^ 32
  uid_eq : NumberField (fieldAt header 108 8) fields.uid
  uid_lt : fields.uid < 2 ^ 64
  gid_eq : NumberField (fieldAt header 116 8) fields.gid
  gid_lt : fields.gid < 2 ^ 64
  modifiedTime_eq : NumberField (fieldAt header 136 12) fields.modifiedTime
  modifiedTime_low : -2 ^ 63 ≤ fields.modifiedTime
  modifiedTime_high : fields.modifiedTime < 2 ^ 63
  deviceMajor_eq : isDevice typeFlag → NumberField (fieldAt header 329 8) fields.deviceMajor
  deviceMajor_lt : isDevice typeFlag → fields.deviceMajor < 2 ^ 32
  deviceMinor_eq : isDevice typeFlag → NumberField (fieldAt header 337 8) fields.deviceMinor
  deviceMinor_lt : isDevice typeFlag → fields.deviceMinor < 2 ^ 32

/-- The fields stand in a header of this type. -/
structure MemberFields.StandIn (fields : MemberFields) (header : List UInt8) (typeFlag : UInt8) :
    Prop extends fields.RestIn header typeFlag where
  name_eq : StringField (fieldAt header 0 100) fields.name
  pathPrefix_eq : StringField (fieldAt header 345 155) fields.pathPrefix

structure Member where
  extensions : List Extension
  block : TarBlock
  fields : MemberFields
  data : List UInt8
  plain : ¬isExtensionFlag block.typeFlag
  standIn : fields.StandIn block.bytes block.typeFlag

namespace Member

def extensionBytes (member : Member) : List UInt8 := member.extensions.flatMap Extension.bytes

def bytes (member : Member) : List UInt8 :=
  member.extensionBytes ++ (member.block.bytes ++ (member.data ++ blockPadding member.data.length))

def globalRecords (member : Member) : List PaxRecord :=
  member.extensions.flatMap fun record => record.payload.globalRecords

def localRecords (member : Member) : List PaxRecord :=
  ((member.extensions.filterMap fun record => record.payload.localRecords?).getLast?).getD []

def longName (member : Member) : Option (List UInt8) :=
  (member.extensions.filterMap fun record => record.payload.longName?).getLast?

def longLink (member : Member) : Option (List UInt8) :=
  (member.extensions.filterMap fun record => record.payload.longLink?).getLast?

/-! ### Attributes

`globals` are the global pax records seen so far, those of the member included. -/

variable (member : Member) (globals : List PaxRecord)

def paxValue (key : List UInt8) : Option (List UInt8) :=
  (lastValue key member.localRecords).or (lastValue key globals)

def headerPath : List UInt8 :=
  if member.fields.pathPrefix = [] then member.fields.name
  else member.fields.pathPrefix ++ 0x2f :: member.fields.name

def path : List UInt8 :=
  ((member.paxValue globals keyPath).or member.longName).getD member.headerPath

def linkTarget : Option (List UInt8) :=
  ((member.paxValue globals keyLinkPath).or member.longLink).or (nonEmpty member.fields.linkName)

def size : Nat := ((member.paxValue globals keySize).map decimalValue).getD member.block.size

def entry (tarSection : DebSection) (index dataStart : Nat) : DebEntry where
  index := index
  tarSection := tarSection
  rawName := member.path globals
  rawLinkName := member.linkTarget globals
  kind := DebEntryKind.fromTypeFlag member.block.typeFlag
  mode := member.fields.mode
  uid := ((member.paxValue globals keyUid).map decimalValue).getD member.fields.uid
  gid := ((member.paxValue globals keyGid).map decimalValue).getD member.fields.gid
  modifiedTime :=
    some (((member.paxValue globals keyMtime).map timeValue).getD member.fields.modifiedTime)
  size := member.data.length
  userName := (member.paxValue globals keyUname).or (nonEmpty member.fields.userName)
  groupName := (member.paxValue globals keyGname).or (nonEmpty member.fields.groupName)
  deviceMajor := if isDevice member.block.typeFlag then some member.fields.deviceMajor else none
  deviceMinor := if isDevice member.block.typeFlag then some member.fields.deviceMinor else none
  headerChecksum := headerSum member.block.bytes 0
  dataStart := dataStart
  dataEnd := dataStart + member.data.length

/-- The data has the size that the attributes give, and the path is not empty. -/
structure Proper : Prop where
  path_ne_nil : member.path globals ≠ []
  size_eq : member.data.length = member.size globals

end Member

def archiveBytes (members : List Member) (tail : Nat) : List UInt8 :=
  members.flatMap Member.bytes ++ List.replicate (2 * blockBytes + tail) 0

/-- The entries of the members, from `offset` on, after these global records. -/
def memberEntries (tarSection : DebSection) :
    List Member → List PaxRecord → Nat → Nat → List DebEntry
  | [], _, _, _ => []
  | member :: members, globals, index, offset =>
    member.entry (globals ++ member.globalRecords) tarSection index
        (offset + member.extensionBytes.length + blockBytes) ::
      memberEntries tarSection members (globals ++ member.globalRecords) (index + 1)
        (offset + member.bytes.length)

def AllMembers (property : Member → List PaxRecord → Prop) :
    List Member → List PaxRecord → Prop
  | [], _ => True
  | member :: members, globals =>
    property member (globals ++ member.globalRecords) ∧
      AllMembers property members (globals ++ member.globalRecords)

/-! ## Checksums -/

theorem headerSum_cons (byte : UInt8) (bytes : List UInt8) (index : Nat) :
    headerSum (byte :: bytes) index =
      (checksumByte index byte).toNat + headerSum bytes (index + 1) := by
  rw [headerSum, List.zipIdx_cons, List.map_cons, List.sum_cons]
  rfl

theorem headerSum_le (bytes : List UInt8) (index : Nat) :
    headerSum bytes index ≤ 255 * bytes.length := by
  induction bytes generalizing index with
  | nil => exact Nat.le_refl 0
  | cons byte bytes ih =>
    have hbyte := (checksumByte index byte).toNat_lt
    have hrest := ih (index + 1)
    rw [headerSum_cons, List.length_cons]
    omega

theorem checksumLoop_granted (bytes : List UInt8) (index unsigned : Nat) (signed : Int)
    (hunsigned : unsigned + 255 * bytes.length < 2 ^ 64)
    (hlow : -2 ^ 63 ≤ signed - 128 * bytes.length)
    (hhigh : signed + 127 * bytes.length < 2 ^ 63) :
    ∃ sum, (checksumLoop bytes index unsigned signed).granted =
      .ok (unsigned + headerSum bytes index, sum) := by
  induction bytes generalizing index unsigned signed with
  | nil => exact ⟨signed, rfl⟩
  | cons byte bytes ih =>
    rw [List.length_cons] at hunsigned hlow hhigh
    have hbyte := (checksumByte index byte).toNat_lt
    have hbelow := (checksumByte index byte).toInt8.le_toInt
    have habove := (checksumByte index byte).toInt8.toInt_lt
    obtain ⟨sum, hsum⟩ := ih (index + 1) (unsigned + (checksumByte index byte).toNat)
      (signed + (checksumByte index byte).toInt8.toInt) (by omega) (by push_cast at hlow; omega)
      (by push_cast at hhigh; omega)
    refine ⟨sum, ?_⟩
    rw [checksumLoop, checkpoint_bind, Prog.granted_lift_bind, checkedAdd_bind (by omega),
      Prog.granted_lift_bind,
      rejectIf_of_not (not_not.mpr ⟨by omega, by push_cast at hhigh; omega⟩), Except.ok_bind, hsum,
      headerSum_cons, Nat.add_assoc]

namespace TarBlock

variable (block : TarBlock)

theorem checksum_lt : headerSum block.bytes 0 < 2 ^ 32 := by
  have hle := headerSum_le block.bytes 0
  rw [block.length_eq, show blockBytes = 512 from rfl] at hle
  omega

theorem checksumField_eq (detail : String) :
    tarU64 block.bytes 148 8 detail = .ok (headerSum block.bytes 0) := by
  have hlt := block.checksum_lt
  exact tarU64_eq block.length_eq (by decide) (by decide) (by decide) block.checksum_eq
    (by omega) detail

theorem sizeField_eq (detail : String) :
    tarU64 block.bytes 124 12 detail = .ok block.size :=
  tarU64_eq block.length_eq (by decide) (by decide) (by decide) block.size_eq block.size_lt detail

theorem verifyHeaderChecksum_granted : (verifyHeaderChecksum block.bytes).granted = .ok () := by
  have hlen : block.bytes.length = 512 := block.length_eq
  obtain ⟨sum, hsum⟩ := checksumLoop_granted block.bytes 0 0 0 (by omega) (by omega) (by omega)
  rw [Nat.zero_add] at hsum
  rw [verifyHeaderChecksum, Prog.granted_lift_bind, block.checksumField_eq, Except.ok_bind,
    Prog.granted_bind, hsum, Except.ok_bind]
  exact rejectIf_of_not (fun h => h.1 rfl) _

theorem validateMagic_ok : validateMagic block.bytes = .ok () := by
  have hmagic : getRange block.bytes 257 263 = some (fieldAt block.bytes 257 6) :=
    getRange_eq_some.mpr ⟨by decide, by rw [block.length_eq]; decide, rfl⟩
  rw [validateMagic, hmagic, okOr_bind]
  exact rejectIf_of_not (not_not.mpr block.magic_eq) _

theorem not_all_zero : ¬∀ byte ∈ block.bytes, byte = 0 := by
  intro hzero
  have hbytes : block.bytes = List.replicate blockBytes 0 :=
    List.eq_replicate_iff.mpr ⟨block.length_eq, hzero⟩
  have hfield := block.checksumField_eq ""
  rw [hbytes, show tarU64 (List.replicate blockBytes 0) 148 8 "" = .ok 0 by decide +kernel,
    show headerSum (List.replicate blockBytes 0) 0 = 256 by decide +kernel] at hfield
  exact absurd hfield (by decide)

end TarBlock

theorem alignPadding_eq {remainder : Nat} (hlt : remainder < blockBytes) :
    alignPadding remainder blockBytes = .ok ((blockBytes - remainder) % blockBytes) := by
  rw [alignPadding]
  by_cases hzero : remainder = 0
  · rw [if_pos hzero, hzero]
    rfl
  · rw [if_neg hzero, checkedSub_of_le (Nat.le_of_lt hlt), okOr_some, Nat.mod_eq_of_lt (by omega)]

theorem nextRecordOffset_eq {dataStart size : Nat} (haligned : dataStart % blockBytes = 0)
    (hlt : dataStart + size + (blockPadding size).length < 2 ^ 64) :
    nextRecordOffset dataStart size = .ok (dataStart + size + (blockPadding size).length) := by
  rw [blockPadding, List.length_replicate] at hlt ⊢
  have hmod : (dataStart + size) % blockBytes = size % blockBytes := by
    rw [Nat.add_mod, haligned, Nat.zero_add, Nat.mod_mod]
  rw [nextRecordOffset, checkedAdd_bind (by omega), alignUp, hmod,
    alignPadding_eq (Nat.mod_lt _ (by decide)), Except.ok_bind, checkedAdd_of_lt hlt, okOr_some]

theorem padded_mod (count : Nat) : (count + (blockPadding count).length) % blockBytes = 0 := by
  have hblock : blockBytes = 512 := rfl
  rw [blockPadding, List.length_replicate, hblock]
  omega

theorem longValueEnd_eq (name : LongValue) (nuls : Nat) :
    longValueEnd (name.bytes ++ List.replicate nuls 0) = name.bytes := by
  induction nuls with
  | zero =>
    rw [List.replicate_zero, List.append_nil]
    refine List.rdropWhile_eq_self_iff.mpr fun hne => ?_
    have hlast := List.getLast?_eq_some_getLast hne
    have hmem := List.getLast_mem hne
    have hzero : name.bytes.getLast hne ≠ 0 := fun h => name.plain (h ▸ hmem)
    have hnewline : name.bytes.getLast hne ≠ 0x0a := fun h => name.last_ne (h ▸ hlast)
    simp [hzero, hnewline]
  | succ nuls ih =>
    rw [List.replicate_succ', ← List.append_assoc, longValueEnd, List.rdropWhile_concat]
    exact ih

theorem parseLongValue_granted (name : LongValue) (nuls : Nat) {limits : Limits}
    (hlimit : name.bytes.length ≤ limits.maxNameBytesPerEntry) :
    (parseLongValue (name.bytes ++ List.replicate nuls 0) limits).granted = .ok name.bytes := by
  rw [parseLongValue, longValueEnd_eq]
  exact copyPaxName_granted name.plain hlimit

end Deb
end Unpackio
