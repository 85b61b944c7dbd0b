/-
System V ar members of a Debian package, from `deb/ar.rs`, and the order of package
members, from `validate_members` in `deb/mod.rs`.
-/
import Unpackio.Deb.Tar

namespace Unpackio
namespace Deb

namespace Ar

/-- `!<arch>` and a newline. -/
def globalHeader : List UInt8 := [0x21, 0x3c, 0x61, 0x72, 0x63, 0x68, 0x3e, 0x0a]

def memberHeaderBytes : Nat := 60

end Ar

structure ArMember where
  index : Nat
  rawName : List UInt8
  modifiedTime : Nat
  uid : Nat
  gid : Nat
  mode : Nat
  size : Nat
  dataStart : Nat
  dataEnd : Nat
  deriving DecidableEq, Repr

namespace Ar

def trimName (field : List UInt8) : List UInt8 :=
  let name := field.rdropWhile fun byte => byte = 0x20
  if name.getLast? = some 0x2f ∧ name ≠ [0x2f] ∧ name ≠ [0x2f, 0x2f] then name.dropLast else name

def parseName (field : List UInt8) : Except Error (List UInt8) := do
  let name := trimName field
  rejectIf (name = []) (debFormat "ar member name is empty")
  rejectIf (0 ∈ name) (debFormat "ar member name contains NUL")
  rejectIf ([0x23, 0x31, 0x2f] <+: name ∨ name = [0x2f, 0x2f] ∨ [0x2f] <+: name)
    (.unsupportedFeature "deb-non-system-v-ar-name")
  return name

def positionalLoop (radix : Nat) (detail : String) :
    List UInt8 → Nat → Bool → Bool → Except Error (Nat × Bool)
  | [], value, sawDigit, _ => .ok (value, sawDigit)
  | byte :: bytes, value, sawDigit, trailingSpace =>
    if byte = 0x20 then
      positionalLoop radix detail bytes value sawDigit (if sawDigit then true else trailingSpace)
    else do
      rejectIf trailingSpace (debFormat detail)
      let digit ← okOr (digitOf radix byte) (debFormat detail)
      let scaled ← okOr (tryFrom 64 (value * radix)) (debFormat detail)
      let value ← okOr (checkedAdd scaled digit) (debFormat detail)
      positionalLoop radix detail bytes value true trailingSpace

def positionalU64 (bytes : List UInt8) (offset length radix : Nat) (detail : String) :
    Except Error Nat := do
  let field ← checkedRange bytes offset length detail detail
  let (value, sawDigit) ← positionalLoop radix detail field 0 false false
  return if sawDigit then value else 0

def decimalU64 (bytes : List UInt8) (offset length : Nat) (detail : String) : Except Error Nat :=
  positionalU64 bytes offset length 10 detail

def octalU64 (bytes : List UInt8) (offset length : Nat) (detail : String) : Except Error Nat :=
  positionalU64 bytes offset length 8 detail

/-- What the loop of `parse` adds up. -/
structure Totals where
  nameBytes : Nat
  headerBytes : Nat
  deriving DecidableEq, Repr

/-- The header at `offset`. -/
def readHeader (bytes : List UInt8) (limits : Limits) (offset headerBytes : Nat) :
    Metered (List UInt8 × Nat) := do
  let headerBytes ← okOr (checkedAdd headerBytes memberHeaderBytes)
    (debFormat "total ar header bytes overflow")
  checkLimit headerBytes limits.maxHeaderBytes .headerBytes
  let header ← checkedRange bytes offset memberHeaderBytes "ar member header range overflows"
    "ar member header is truncated"
  consumeBytes header
  rejectIf (getRange header 58 60 ≠ some [0x60, 0x0a])
    (debFormat "ar member header terminator is invalid")
  return (header, headerBytes)

def readName (header : List UInt8) (limits : Limits) (nameBytes : Nat) :
    Except Error (List UInt8 × Nat) := do
  let nameField ← okOr (getRange header 0 16) (debFormat "ar member name is truncated")
  let rawName ← parseName nameField
  checkLimit rawName.length limits.maxNameBytesPerEntry .nameBytesPerEntry
  let nameBytes ← okOr (checkedAdd nameBytes rawName.length)
    (debFormat "total ar member name bytes overflow")
  checkLimit nameBytes limits.maxTotalNameBytes .totalNameBytes
  return (rawName, nameBytes)

/-- The member that a header describes, as number `index`. -/
def readMember (bytes header rawName : List UInt8) (offset index : Nat) :
    Except Error ArMember := do
  let modifiedTime ← decimalU64 header 16 12 "ar timestamp is invalid"
  let uidValue ← decimalU64 header 28 6 "ar uid is invalid"
  let gidValue ← decimalU64 header 34 6 "ar gid is invalid"
  let uid ← toU32 uidValue "ar uid is too large"
  let gid ← toU32 gidValue "ar gid is too large"
  let modeValue ← octalU64 header 40 8 "ar mode is invalid"
  let mode ← toU32 modeValue "ar mode is too large"
  let size ← decimalU64 header 48 10 "ar member size is invalid"
  let dataStart ← okOr (checkedAdd offset memberHeaderBytes)
    (debFormat "ar member data offset overflows")
  let dataEnd ← okOr (checkedAdd dataStart size) (debFormat "ar member data range overflows")
  let _ ← checkedRange bytes dataStart size "ar member data range overflows"
    "ar member data is truncated"
  return ⟨index, rawName, modifiedTime, uid, gid, mode, size, dataStart, dataEnd⟩

/-- Where the next member starts: behind a newline after data of an odd size. -/
def skipPadding (bytes : List UInt8) (member : ArMember) : Except Error Nat :=
  if member.size % 2 ≠ 0 then do
    let padding ← checkedRange bytes member.dataEnd 1 "ar padding range overflows"
      "ar member padding is truncated"
    rejectIf (padding ≠ [0x0a]) (debFormat "ar member padding is invalid")
    okOr (checkedAdd member.dataEnd 1) (debFormat "ar member padding offset overflows")
  else .ok member.dataEnd

/-- The loop of `parse`.  Every member takes a header, so `fuel` is the number of
bytes. -/
def parseLoop (bytes : List UInt8) (limits : Limits) :
    Nat → Nat → List ArMember → Totals → Metered (List ArMember)
  | 0, _, entries, _ => return entries
  | fuel + 1, offset, entries, totals =>
    if offset < bytes.length then do
      checkpoint 1
      let (header, headerBytes) ← readHeader bytes limits offset totals.headerBytes
      let (rawName, nameBytes) ← readName header limits totals.nameBytes
      let member ← readMember bytes header rawName offset entries.length
      let nextCount ← okOr (checkedAdd entries.length 1) (debFormat "ar member count overflows")
      checkLimit nextCount limits.maxFiles .files
      let rawName ← copyBytes member.rawName
      let next ← skipPadding bytes member
      parseLoop bytes limits fuel next (entries ++ [{ member with rawName := rawName }])
        ⟨nameBytes, headerBytes⟩
    else return entries

def parse (bytes : List UInt8) (limits : Limits) : Metered (List ArMember) := do
  let magic ← checkedRange bytes 0 globalHeader.length "ar magic range overflows"
    "ar global header is truncated"
  consumeBytes magic
  rejectIf (magic ≠ globalHeader) (debFormat "ar global header is invalid")
  parseLoop bytes limits bytes.length globalHeader.length [] ⟨0, 0⟩

end Ar

inductive DebMemberKind where
  | debianBinary
  | controlArchive
  | dataArchive
  | optional
  deriving DecidableEq, Repr

inductive DebCompression where
  | none
  | gzip
  | xz
  | zstandard
  | bzip2
  | lzma
  deriving DecidableEq, Repr

/-- `debian-binary`. -/
def nameDebianBinary : List UInt8 :=
  [0x64, 0x65, 0x62, 0x69, 0x61, 0x6e, 0x2d, 0x62, 0x69, 0x6e, 0x61, 0x72, 0x79]

/-- `control.tar` and `data.tar`. -/
def nameControlTar : List UInt8 :=
  [0x63, 0x6f, 0x6e, 0x74, 0x72, 0x6f, 0x6c, 0x2e, 0x74, 0x61, 0x72]

def nameDataTar : List UInt8 := [0x64, 0x61, 0x74, 0x61, 0x2e, 0x74, 0x61, 0x72]

/-- `.gz`, `.xz`, `.zst`, `.bz2` and `.lzma`. -/
def suffixGz : List UInt8 := [0x2e, 0x67, 0x7a]
def suffixXz : List UInt8 := [0x2e, 0x78, 0x7a]
def suffixZst : List UInt8 := [0x2e, 0x7a, 0x73, 0x74]
def suffixBz2 : List UInt8 := [0x2e, 0x62, 0x7a, 0x32]
def suffixLzma : List UInt8 := [0x2e, 0x6c, 0x7a, 0x6d, 0x61]

/-- The bytes `2.0` and a newline. -/
def formatVersion : List UInt8 := [0x32, 0x2e, 0x30, 0x0a]

def classifyMember (name : List UInt8) :
    Except Error (DebMemberKind × Option DebCompression) :=
  if name = nameDebianBinary then .ok (.debianBinary, none)
  else if name = nameControlTar then .ok (.controlArchive, some .none)
  else if name = nameControlTar ++ suffixGz then .ok (.controlArchive, some .gzip)
  else if name = nameControlTar ++ suffixXz then .ok (.controlArchive, some .xz)
  else if name = nameControlTar ++ suffixZst then .ok (.controlArchive, some .zstandard)
  else if name = nameDataTar then .ok (.dataArchive, some .none)
  else if name = nameDataTar ++ suffixGz then .ok (.dataArchive, some .gzip)
  else if name = nameDataTar ++ suffixXz then .ok (.dataArchive, some .xz)
  else if name = nameDataTar ++ suffixZst then .ok (.dataArchive, some .zstandard)
  else if name = nameDataTar ++ suffixBz2 then .ok (.dataArchive, some .bzip2)
  else if name = nameDataTar ++ suffixLzma then .ok (.dataArchive, some .lzma)
  else if [0x5f] <+: name then .ok (.optional, none)
  else .error (.unsupportedFeature "deb-outer-member")

/-- An ar member with its role in the package. -/
structure DebMember where
  member : ArMember
  kind : DebMemberKind
  compression : Option DebCompression
  deriving DecidableEq, Repr

/-- The members read so far, and where among them the two archives are. -/
structure Members where
  members : List DebMember
  controlIndex : Option Nat
  dataIndex : Option Nat
  deriving DecidableEq, Repr

def Members.place (state : Members) (member : ArMember) (kind : DebMemberKind) :
    Except Error (Option Nat × Option Nat) :=
  match kind with
  | .debianBinary => do
    rejectIf (member.index ≠ 0) (debFormat "debian-binary member is duplicated")
    return (state.controlIndex, state.dataIndex)
  | .optional => do
    rejectIf (state.controlIndex.isSome ∨ state.dataIndex.isSome)
      (debFormat "optional member is out of order")
    return (state.controlIndex, state.dataIndex)
  | .controlArchive => do
    rejectIf (state.controlIndex.isSome ∨ state.dataIndex.isSome)
      (debFormat "control archive is duplicated or out of order")
    return (some state.members.length, state.dataIndex)
  | .dataArchive => do
    rejectIf (state.controlIndex.isNone ∨ state.dataIndex.isSome)
      (debFormat "data archive is duplicated or out of order")
    return (state.controlIndex, some state.members.length)

/-- One member of the loop of `validate_members`. -/
def Members.add (state : Members) (member : ArMember) : Except Error Members := do
  let (kind, compression) ← classifyMember member.rawName
  let (controlIndex, dataIndex) ← state.place member kind
  rejectIf (dataIndex.isSome ∧ kind ≠ .dataArchive)
    (debFormat "member occurs after the data archive")
  return ⟨state.members ++ [⟨member, kind, compression⟩], controlIndex, dataIndex⟩

/-- The loop of `validate_members`. -/
def placeMembers (parsed : List ArMember) (state : Members) : Except Error Members :=
  parsed.foldlM Members.add state

def validateMembers (bytes : List UInt8) (parsed : List ArMember) (limits : Limits) :
    Metered (List DebMember × Nat × Nat) := do
  let first ← okOr parsed.head? (debFormat "package has no ar members")
  rejectIf (first.rawName ≠ nameDebianBinary) (debFormat "first member is not debian-binary")
  let version ← checkedRange bytes first.dataStart first.size "debian-binary range overflows"
    "debian-binary is truncated"
  consumeBytes version
  rejectIf (version ≠ formatVersion) (.unsupportedFeature "deb-format-version")
  let state ← placeMembers parsed ⟨[], none, none⟩
  checkLimit state.members.length limits.maxFiles .files
  let controlIndex ← okOr state.controlIndex (debFormat "control archive is missing")
  let dataIndex ← okOr state.dataIndex (debFormat "data archive is missing")
  return (state.members, controlIndex, dataIndex)

end Deb
end Unpackio
