/-
The branch of a member, over whatever the records before its header left.

The attributes of the entry come from the pax records of the member, the global
ones, a long value, and the header, in this order.
-/
import Unpackio.Deb.TarRecords

namespace Unpackio
namespace Deb

open Prog (granted_bind granted_lift_bind)
open Except (ok_bind)

/-- What the records before a header leave for its member. -/
structure Sources where
  localPax : PaxValues
  globalPax : PaxValues
  longName : Option (List UInt8)
  longLink : Option (List UInt8)

def TarState.sources (state : TarState) : Sources where
  localPax := state.localPax.getD PaxValues.default
  globalPax := state.globalPax
  longName := state.longName
  longLink := state.longLink

namespace Sources

variable (sources : Sources)

def path (headerPath : List UInt8) : List UInt8 :=
  ((sources.localPax.path.or sources.globalPax.path).or sources.longName).getD headerPath

def linkTarget (headerLink : List UInt8) : Option (List UInt8) :=
  ((sources.localPax.linkPath.or sources.globalPax.linkPath).or sources.longLink).or
    (nonEmpty headerLink)

def size (headerSize : Nat) : Nat :=
  (sources.localPax.size.or sources.globalPax.size).getD headerSize

def entry (block : TarBlock) (fields : MemberFields) (headerPath : List UInt8)
    (tarSection : DebSection) (index dataStart size : Nat) : DebEntry where
  index := index
  tarSection := tarSection
  rawName := sources.path headerPath
  rawLinkName := sources.linkTarget fields.linkName
  kind := DebEntryKind.fromTypeFlag block.typeFlag
  mode := fields.mode
  uid := (sources.localPax.uid.or sources.globalPax.uid).getD fields.uid
  gid := (sources.localPax.gid.or sources.globalPax.gid).getD fields.gid
  modifiedTime := (sources.localPax.modifiedTime.or sources.globalPax.modifiedTime).or
    (some fields.modifiedTime)
  size := size
  userName := (sources.localPax.userName.or sources.globalPax.userName).or
    (nonEmpty fields.userName)
  groupName := (sources.localPax.groupName.or sources.globalPax.groupName).or
    (nonEmpty fields.groupName)
  deviceMajor := if isDevice block.typeFlag then some fields.deviceMajor else none
  deviceMinor := if isDevice block.typeFlag then some fields.deviceMinor else none
  headerChecksum := headerSum block.bytes 0
  dataStart := dataStart
  dataEnd := dataStart + size

end Sources

theorem kind_isDevice (typeFlag : UInt8) :
    DebEntryKind.fromTypeFlag typeFlag = .blockDevice ∨
      DebEntryKind.fromTypeFlag typeFlag = .characterDevice ↔ isDevice typeFlag := by
  unfold DebEntryKind.fromTypeFlag isDevice
  grind

theorem deviceNumber_eq {header : List UInt8} (hheader : header.length = blockBytes)
    {typeFlag : UInt8} {offset value : Nat} (hfits : offset + 8 ≤ blockBytes)
    (h : isDevice typeFlag → NumberField (fieldAt header offset 8) value)
    (hlt : isDevice typeFlag → value < 2 ^ 32) (invalidDetail largeDetail : String) :
    deviceNumber header (DebEntryKind.fromTypeFlag typeFlag) offset invalidDetail largeDetail =
      .ok (if isDevice typeFlag then some value else none) := by
  have hkind := kind_isDevice typeFlag
  by_cases hdevice : isDevice typeFlag
  · have hsmall := hlt hdevice
    rw [deviceNumber, if_pos (hkind.mpr hdevice), if_pos hdevice,
      tarU64_eq hheader hfits (by decide) (by decide) (h hdevice) (by omega), ok_bind,
      toU32, tryFrom_of_lt hsmall, okOr_some]
    rfl
  · rw [deviceNumber, if_neg fun h => hdevice (hkind.mp h), if_neg hdevice]

def joinedPath (pathPrefix name : List UInt8) : List UInt8 :=
  if pathPrefix = [] then name else pathPrefix ++ 0x2f :: name

theorem headerPath_granted {header name pathPrefix : List UInt8}
    (hname : tarString header 0 100 "tar name is truncated" = .ok name)
    (hpathPrefix : tarString header 345 155 "tar prefix is truncated" = .ok pathPrefix)
    {limits : Limits} (hlimit : (joinedPath pathPrefix name).length ≤ limits.maxNameBytesPerEntry)
    (hlt : (joinedPath pathPrefix name).length < 2 ^ 64) :
    (headerPath header limits).granted = .ok (joinedPath pathPrefix name) := by
  rw [headerPath, granted_lift_bind, hname, ok_bind, granted_lift_bind, hpathPrefix, ok_bind]
  unfold joinedPath at hlimit hlt ⊢
  by_cases hempty : pathPrefix = []
  · rw [if_pos hempty, if_pos hempty]
    exact copyBytes_granted _
  · rw [if_neg hempty, List.length_append, List.length_cons] at hlimit hlt
    rw [if_neg hempty, if_neg hempty, checkedAdd_of_lt (by omega), Option.bind_some,
      checkedAdd_of_lt (by omega), granted_lift_bind, okOr_bind, granted_lift_bind,
      checkLimit_of_le (by omega)]
    rfl

theorem copyOptional_granted (value : Option (List UInt8)) :
    (copyOptional value).granted = .ok value := by
  cases value with
  | none => rfl
  | some bytes => rw [copyOptional, Prog.granted_map, copyBytes_granted]; rfl

/-- A name that an entry may have. -/
structure NameAllowed (limits : Limits) (name : List UInt8) : Prop where
  plain : 0 ∉ name
  length_le : name.length ≤ limits.maxNameBytesPerEntry

theorem checkLink_ok {link : Option (List UInt8)} {limits : Limits}
    (h : ∀ value, link = some value → NameAllowed limits value) :
    checkLink link limits = .ok () := by
  cases link with
  | none => rfl
  | some value =>
    obtain ⟨hplain, hlength⟩ := h value rfl
    rw [checkLink, rejectIf_of_not hplain, ok_bind]
    exact checkLimit_of_le hlength _

theorem validateName_ok {path : List UInt8} {limits : Limits} (hne : path ≠ [])
    (h : NameAllowed limits path) {totals : ArchiveTotals}
    (hwithin : (totals.addEntry path).Within limits) :
    validateName path limits totals =
      .ok { totals with nameBytes := totals.nameBytes + path.length } := by
  have hlimit : totals.nameBytes + path.length ≤ limits.maxTotalNameBytes := hwithin.nameBytes
  rw [validateName, rejectIf_of_not hne, ok_bind, rejectIf_of_not h.plain, ok_bind,
    checkLimit_of_le h.length_le, ok_bind, checkedAdd_bind hwithin.nameBytes_lt,
    checkLimit_of_le hlimit]
  rfl

/-- The limits and the sources give the member a name, a link and a size. -/
structure Sources.Names (sources : Sources) (limits : Limits) (block : TarBlock)
    (fields : MemberFields) (headerPath data : List UInt8) : Prop where
  path_ne_nil : sources.path headerPath ≠ []
  path : NameAllowed limits (sources.path headerPath)
  linkTarget : ∀ value, sources.linkTarget fields.linkName = some value → NameAllowed limits value
  size_eq : sources.size block.size = data.length
  data_le : data.length ≤ limits.maxEntryOutputBytes

/-- The entry and the totals that a member gives, where `front` is all that
stands before its data. -/
theorem parseMember_granted {bytes front data rest headerPath : List UInt8} {block : TarBlock}
    {fields : MemberFields} (hfields : fields.RestIn block.bytes block.typeFlag)
    (hbytes : bytes = front ++ data ++ (blockPadding data.length ++ rest))
    (hlen : bytes.length < 2 ^ 64) (haligned : front.length % blockBytes = 0) (state : TarState)
    {limits : Limits} (hheader : (Deb.headerPath block.bytes limits).granted = .ok headerPath)
    (hnames : state.sources.Names limits block fields headerPath data)
    (hwithin : (state.totals.addEntry (state.sources.path headerPath)).Within limits)
    (tarSection : DebSection) :
    (parseMember bytes block.bytes tarSection limits state block.typeFlag block.size
        front.length).granted =
      .ok { offset := front.length + data.length + (blockPadding data.length).length
            entries := state.entries ++ [state.sources.entry block fields headerPath tarSection
              state.totals.nextEntryIndex front.length data.length]
            globalPax := state.globalPax
            localPax := none
            longName := none
            longLink := none
            totals := state.totals.addEntry (state.sources.path headerPath) } := by
  have hlength := block.length_eq
  have hsum : bytes.length = front.length + data.length +
      ((blockPadding data.length).length + rest.length) := by
    rw [hbytes, List.length_append, List.length_append, List.length_append]
  have hdata : checkedRange bytes front.length data.length
      "tar member data range overflows" "tar member data is truncated" = .ok data := by
    rw [hbytes]
    exact checkedRange_middle _ _ _ (by rw [← hbytes]; exact hlen) _ _
  have hpath : (((state.localPax.getD PaxValues.default).path.or state.globalPax.path).or
      state.longName).getD headerPath = state.sources.path headerPath := rfl
  have htarget : (((state.localPax.getD PaxValues.default).linkPath.or
      state.globalPax.linkPath).or state.longLink).or (nonEmpty fields.linkName) =
        state.sources.linkTarget fields.linkName := rfl
  have hsize : ((state.localPax.getD PaxValues.default).size.or state.globalPax.size).getD
      block.size = data.length := hnames.size_eq
  have hfiles : state.totals.files + 1 ≤ limits.maxFiles := hwithin.files
  have hmode := tarU64_eq hlength (by decide) (by decide) (by decide) hfields.mode_eq
    (Nat.lt_trans hfields.mode_lt (by decide)) "tar mode is invalid"
  have huid := tarU64_eq hlength (by decide) (by decide) (by decide) hfields.uid_eq hfields.uid_lt
    "tar uid is invalid"
  have hgid := tarU64_eq hlength (by decide) (by decide) (by decide) hfields.gid_eq hfields.gid_lt
    "tar gid is invalid"
  have htime := tarI64_eq hlength (by decide) (by decide) (by decide) hfields.modifiedTime_eq
    hfields.modifiedTime_low hfields.modifiedTime_high "tar mtime is invalid"
  have huser := tarString_eq hlength (by decide) hfields.userName_eq "tar user name is truncated"
  have hgroup := tarString_eq hlength (by decide) hfields.groupName_eq
    "tar group name is truncated"
  have hmajor := deviceNumber_eq hlength (by decide) hfields.deviceMajor_eq
    hfields.deviceMajor_lt "tar device major is invalid" "tar device major is too large"
  have hminor := deviceNumber_eq hlength (by decide) hfields.deviceMinor_eq
    hfields.deviceMinor_lt "tar device minor is invalid" "tar device minor is too large"
  rw [parseMember]
  simp only
  rw [granted_bind, hheader, ok_bind, hpath, granted_lift_bind,
    validateName_ok hnames.path_ne_nil hnames.path hwithin, ok_bind, granted_lift_bind,
    tarString_eq hlength (by decide) hfields.linkName_eq, ok_bind, htarget, granted_lift_bind,
    checkLink_ok hnames.linkTarget, ok_bind, hsize, granted_lift_bind,
    checkLimit_of_le hnames.data_le, ok_bind, granted_lift_bind, checkedAdd_bind (by omega),
    granted_lift_bind, hdata, ok_bind, granted_lift_bind, checkedAdd_bind hwithin.files_lt,
    granted_lift_bind, checkLimit_of_le hfiles, ok_bind, granted_lift_bind,
    checkedAdd_bind hwithin.nextEntryIndex_lt, granted_lift_bind, hmode, ok_bind, granted_lift_bind,
    toU32, tryFrom_of_lt hfields.mode_lt, okOr_bind, granted_lift_bind, huid, ok_bind,
    granted_lift_bind, hgid, ok_bind, granted_lift_bind, htime, ok_bind, granted_lift_bind, huser,
    ok_bind, granted_lift_bind, hgroup, ok_bind, granted_lift_bind, hmajor, ok_bind,
    granted_lift_bind, hminor, ok_bind, granted_lift_bind, block.checksumField_eq, ok_bind,
    granted_lift_bind, toU32, tryFrom_of_lt block.checksum_lt, okOr_bind, granted_bind,
    copyBytes_granted, ok_bind, granted_bind, copyOptional_granted, ok_bind, granted_bind,
    copyOptional_granted, ok_bind, granted_bind, copyOptional_granted, ok_bind, granted_lift_bind,
    nextRecordOffset_eq haligned (by omega), ok_bind]
  rfl

end Deb
end Unpackio
