/-
The five header layouts as their writers fill them.

A header is a run of pieces of fixed width.  Reading a field is taking a piece,
so each layout is checked against its parser piece by piece.
-/
import Unpackio.Cpio.Records
import Unpackio.Foundation.Numerals

namespace Unpackio
namespace Cpio

open Except (ok_bind)
open Numerals

/-- The digit of a character `0` to `9` or `a` to `f`. -/
def symbolOf (d : Nat) : UInt8 := UInt8.ofNat (if d < 10 then 0x30 + d else 0x57 + d)

/-- `{value:08x}`. -/
def hexText (value : Nat) : List UInt8 := digits 16 symbolOf 8 value

/-- `{value:0width$o}`. -/
def octalText (width value : Nat) : List UInt8 := digits 8 symbolOf width value

/-- `to_le_bytes` or `to_be_bytes` of a 16-bit word. -/
def wordBytes (littleEndian : Bool) (value : Nat) : List UInt8 :=
  if littleEndian then [UInt8.ofNat (value % 256), UInt8.ofNat (value / 256)]
  else [UInt8.ofNat (value / 256), UInt8.ofNat (value % 256)]

@[simp] theorem length_hexText (value : Nat) : (hexText value).length = 8 := length_digits 8 value

@[simp] theorem length_octalText (width value : Nat) : (octalText width value).length = width :=
  length_digits width value

@[simp] theorem length_wordBytes (littleEndian : Bool) (value : Nat) :
    (wordBytes littleEndian value).length = 2 := by
  cases littleEndian <;> rfl

theorem hexDigit_symbolOf : ∀ d < 16, hexDigit (symbolOf d) = some d := by decide

theorem octalDigit_symbolOf : ∀ d < 8, octalDigit (symbolOf d) = some d := by decide

theorem digitLoop_eq {size base : Nat} {digitOf : UInt8 → Option Nat} {digit : UInt8 → Nat}
    {bytes : List UInt8} (hdigits : ∀ byte ∈ bytes, digitOf byte = some (digit byte))
    (hbase : 0 < base) (detail : String) (value : Nat)
    (hlt : value * base ^ bytes.length + numeral base digit bytes < 2 ^ size) :
    digitLoop size base digitOf detail bytes value =
      .ok (value * base ^ bytes.length + numeral base digit bytes) := by
  induction bytes generalizing value with
  | nil => rw [digitLoop, numeral_nil, List.length_nil, Nat.pow_zero, Nat.mul_one, Nat.add_zero]
  | cons byte bytes ih =>
    obtain ⟨hbyte, hrest⟩ := List.forall_mem_cons.mp hdigits
    have hstep := numeral_step base digit value byte bytes
    have hle : value * base + digit byte ≤
        (value * base + digit byte) * base ^ bytes.length :=
      Nat.le_mul_of_pos_right _ (Nat.pow_pos hbase)
    rw [← hstep] at hlt ⊢
    rw [digitLoop, hbyte, okOr_bind, tryFrom_of_lt (by omega), Option.bind_some,
      tryFrom_of_lt (by omega), okOr_bind]
    exact ih hrest _ hlt

theorem digitLoop_digits {size base : Nat} {digitOf : UInt8 → Option Nat} {symbol : Nat → UInt8}
    (hbase : 0 < base) (hsymbol : ∀ d < base, digitOf (symbol d) = some d) {width value : Nat}
    (hfits : value < base ^ width) (hsize : value < 2 ^ size) (detail : String) :
    digitLoop size base digitOf detail (digits base symbol width value) 0 = .ok value := by
  have hnumeral : numeral base (fun byte => (digitOf byte).getD 0)
      (digits base symbol width value) = value := by
    rw [numeral_digits hbase (fun d hd => by rw [hsymbol d hd]; rfl), Nat.mod_eq_of_lt hfits]
  rw [@digitLoop_eq size base digitOf (fun byte => (digitOf byte).getD 0) _ ?_ hbase detail 0 ?_,
    hnumeral, Nat.zero_mul, Nat.zero_add]
  · intro byte hmem
    obtain ⟨d, hd, rfl⟩ := mem_digits hbase hmem
    rw [hsymbol d hd]
    rfl
  · rwa [hnumeral, Nat.zero_mul, Nat.zero_add]

theorem wordOf_wordBytes {value : Nat} (hlt : value < 2 ^ 16) :
    wordOf true (UInt8.ofNat (value % 256)) (UInt8.ofNat (value / 256)) = value ∧
      wordOf false (UInt8.ofNat (value / 256)) (UInt8.ofNat (value % 256)) = value := by
  have hlow : (UInt8.ofNat (value % 256)).toNat = value % 256 :=
    UInt8.toNat_ofNat_of_lt' (Nat.mod_lt _ (by decide))
  have hhigh : (UInt8.ofNat (value / 256)).toNat = value / 256 :=
    UInt8.toNat_ofNat_of_lt' (by show value / 256 < 256; omega)
  have hsplit := Nat.div_add_mod value 256
  constructor
  · rw [wordOf, if_pos rfl, hlow, hhigh]
    omega
  · rw [wordOf, if_neg Bool.false_ne_true, hlow, hhigh]
    omega

theorem checkedRange_piece {pieces : List (List UInt8)} {widths : List Nat}
    (hwidths : pieces.map List.length = widths) (hlen : widths.sum < 2 ^ 64) {k : Nat}
    {piece : List UInt8} (hpiece : pieces[k]? = some piece) (o t : String) :
    checkedRange pieces.flatten (widths.take k).sum piece.length o t = .ok piece := by
  obtain ⟨hk, hget⟩ := List.getElem?_eq_some_iff.mp hpiece
  have hsplit : pieces.flatten =
      (pieces.take k).flatten ++ (piece ++ (pieces.drop (k + 1)).flatten) := by
    rw [← hget, ← List.flatten_cons, List.getElem_cons_drop, ← List.flatten_append,
      List.take_append_drop]
  have htotal : pieces.flatten.length = widths.sum := by rw [List.length_flatten, hwidths]
  have hfront : (pieces.take k).flatten.length = (widths.take k).sum := by
    rw [List.length_flatten, List.map_take, hwidths]
  have hdrop : pieces.flatten.drop (widths.take k).sum =
      piece ++ (pieces.drop (k + 1)).flatten := by
    rw [← hfront, hsplit, List.drop_left]
  have hle := congrArg List.length hsplit
  rw [List.length_append] at hle
  exact checkedRange_of_drop (by omega) (by omega) hdrop o t

variable {littleEndian : Bool} {fields : Fields} {name data : List UInt8}

section

variable {pieces : List (List UInt8)} {widths : List Nat}
  (hwidths : pieces.map List.length = widths)
  (hlen : widths.sum < 2 ^ 64) {k value : Nat}
include hwidths hlen

theorem hexU32_piece (hpiece : pieces[k]? = some (hexText value)) (hlt : value < 2 ^ 32)
    (detail : String) : hexU32 pieces.flatten (widths.take k).sum detail = .ok value := by
  have hrange := checkedRange_piece hwidths hlen hpiece detail detail
  rw [length_hexText] at hrange
  rw [hexU32, hrange, ok_bind, hexText,
    digitLoop_digits (by decide) hexDigit_symbolOf (by omega) hlt]

section

variable {width : Nat} (hpiece : pieces[k]? = some (octalText width value))
  (hfits : value < 8 ^ width)
include hpiece hfits

theorem octalU64_piece (hlt : value < 2 ^ 64) (detail : String) :
    octalU64 pieces.flatten (widths.take k).sum width detail = .ok value := by
  have hrange := checkedRange_piece hwidths hlen hpiece detail detail
  rw [length_octalText] at hrange
  rw [octalU64, hrange, ok_bind, octalText,
    digitLoop_digits (by decide) octalDigit_symbolOf hfits hlt]

theorem octalU32_piece (hlt : value < 2 ^ 32) (detail : String) :
    octalU32 pieces.flatten (widths.take k).sum width detail = .ok value := by
  rw [octalU32, octalU64_piece hwidths hlen hpiece hfits (by omega), ok_bind,
    tryFrom_of_lt hlt]
  rfl

end

theorem word_piece (hpiece : pieces[k]? = some (wordBytes littleEndian value))
    (hlt : value < 2 ^ 16) {wordIndex : Nat} (hindex : wordIndex * 2 = (widths.take k).sum)
    (hsmall : wordIndex < 2 ^ 32) (detail : String) :
    word pieces.flatten littleEndian wordIndex detail = .ok value := by
  have hrange := checkedRange_piece hwidths hlen hpiece detail detail
  rw [length_wordBytes, ← hindex] at hrange
  obtain ⟨hlittle, hbig⟩ := wordOf_wordBytes hlt
  rw [word, tryFrom_of_lt (by omega), okOr_bind, hrange, ok_bind]
  cases littleEndian with
  | true => exact congrArg Except.ok hlittle
  | false => exact congrArg Except.ok hbig

end

/-! ## Layouts -/

inductive Layout where
  | newc
  | crcNewc
  | odc
  | binary (littleEndian : Bool)
  deriving DecidableEq, Repr

/-- The fields of a header that do not describe the name and the data. -/
structure Fields where
  inode : Nat
  mode : Nat
  uid : Nat
  gid : Nat
  linkCount : Nat
  modifiedTime : Nat
  deviceMajor : Nat
  deviceMinor : Nat
  rdevMajor : Nat
  rdevMinor : Nat

namespace Layout

def format : Layout → CpioFormat
  | newc => .newc
  | crcNewc => .crcNewc
  | odc => .odc
  | binary true => .binaryLittleEndian
  | binary false => .binaryBigEndian

def headerBytes : Layout → Nat
  | newc | crcNewc => newcHeaderBytes
  | odc => odcHeaderBytes
  | binary _ => binaryHeaderBytes

def alignment : Layout → Nat
  | newc | crcNewc => 4
  | odc => 1
  | binary _ => 2

def shortBound : Layout → Nat
  | newc | crcNewc => 2 ^ 32
  | odc => 8 ^ 6
  | binary _ => 2 ^ 16

def longBound : Layout → Nat
  | newc | crcNewc => 2 ^ 32
  | odc => 8 ^ 11
  | binary _ => 2 ^ 32

/-- The bound of the device numbers that only `newc` stores apart. -/
def majorBound : Layout → Nat
  | newc | crcNewc => 2 ^ 32
  | odc | binary _ => 1

def checksum (layout : Layout) (data : List UInt8) : Option Nat :=
  match layout with
  | crcNewc => some (byteTotal data)
  | _ => none

end Layout

/-- The layout can hold the fields. -/
structure Fields.HeldBy (fields : Fields) (layout : Layout) : Prop where
  inode_lt : fields.inode < layout.shortBound
  mode_lt : fields.mode < layout.shortBound
  uid_lt : fields.uid < layout.shortBound
  gid_lt : fields.gid < layout.shortBound
  linkCount_lt : fields.linkCount < layout.shortBound
  modifiedTime_lt : fields.modifiedTime < layout.longBound
  deviceMajor_lt : fields.deviceMajor < layout.majorBound
  deviceMinor_lt : fields.deviceMinor < layout.shortBound
  rdevMajor_lt : fields.rdevMajor < layout.majorBound
  rdevMinor_lt : fields.rdevMinor < layout.shortBound

namespace Layout

def newcPieces (magic : List UInt8) (fields : Fields) (nameSize fileSize check : Nat) :
    List (List UInt8) :=
  magic :: [fields.inode, fields.mode, fields.uid, fields.gid, fields.linkCount,
    fields.modifiedTime, fileSize, fields.deviceMajor, fields.deviceMinor, fields.rdevMajor,
    fields.rdevMinor, nameSize, check].map hexText

def odcPieces (fields : Fields) (nameSize fileSize : Nat) : List (List UInt8) :=
  [magicOdc, octalText 6 fields.deviceMinor, octalText 6 fields.inode, octalText 6 fields.mode,
    octalText 6 fields.uid, octalText 6 fields.gid, octalText 6 fields.linkCount,
    octalText 6 fields.rdevMinor, octalText 11 fields.modifiedTime, octalText 6 nameSize,
    octalText 11 fileSize]

def binaryPieces (littleEndian : Bool) (fields : Fields) (nameSize fileSize : Nat) :
    List (List UInt8) :=
  [binaryMagic, fields.deviceMinor, fields.inode, fields.mode, fields.uid, fields.gid,
    fields.linkCount, fields.rdevMinor, fields.modifiedTime / 2 ^ 16,
    fields.modifiedTime % 2 ^ 16, nameSize, fileSize / 2 ^ 16, fileSize % 2 ^ 16].map
      (wordBytes littleEndian)

def header (layout : Layout) (fields : Fields) (name data : List UInt8) : List UInt8 :=
  match layout with
  | newc => (newcPieces magicNewc fields (name.length + 1) data.length 0).flatten
  | crcNewc =>
    (newcPieces magicCrc fields (name.length + 1) data.length (byteTotal data)).flatten
  | odc => (odcPieces fields (name.length + 1) data.length).flatten
  | binary littleEndian =>
    (binaryPieces littleEndian fields (name.length + 1) data.length).flatten

def parsed (layout : Layout) (fields : Fields) (name data : List UInt8) : ParsedHeader where
  format := layout.format
  headerBytes := layout.headerBytes
  alignment := layout.alignment
  inode := fields.inode
  mode := fields.mode
  uid := fields.uid
  gid := fields.gid
  linkCount := fields.linkCount
  modifiedTime := fields.modifiedTime
  fileSize := data.length
  deviceMajor := fields.deviceMajor
  deviceMinor := fields.deviceMinor
  rdevMajor := fields.rdevMajor
  rdevMinor := fields.rdevMinor
  nameSize := name.length + 1
  checksum := layout.checksum data

def newcWidths : List Nat := [6, 8, 8, 8, 8, 8, 8, 8, 8, 8, 8, 8, 8, 8]

def odcWidths : List Nat := [6, 6, 6, 6, 6, 6, 6, 6, 11, 6, 11]

def binaryWidths : List Nat := [2, 2, 2, 2, 2, 2, 2, 2, 2, 2, 2, 2, 2]

theorem newcPieces_widths {magic : List UInt8} (hmagic : magic.length = 6) (fields : Fields)
    (nameSize fileSize check : Nat) :
    (newcPieces magic fields nameSize fileSize check).map List.length = newcWidths := by
  simp [newcPieces, newcWidths, hmagic]

theorem odcPieces_widths (fields : Fields) (nameSize fileSize : Nat) :
    (odcPieces fields nameSize fileSize).map List.length = odcWidths := by
  simp [odcPieces, odcWidths, magicOdc]

theorem binaryPieces_widths (littleEndian : Bool) (fields : Fields) (nameSize fileSize : Nat) :
    (binaryPieces littleEndian fields nameSize fileSize).map List.length = binaryWidths := by
  simp [binaryPieces, binaryWidths]

theorem length_header (layout : Layout) (fields : Fields) (name data : List UInt8) :
    (layout.header fields name data).length = layout.headerBytes := by
  cases layout with
  | newc => rw [header, List.length_flatten, newcPieces_widths rfl]; rfl
  | crcNewc => rw [header, List.length_flatten, newcPieces_widths rfl]; rfl
  | odc => rw [header, List.length_flatten, odcPieces_widths]; rfl
  | binary littleEndian => rw [header, List.length_flatten, binaryPieces_widths]; rfl

end Layout

/-! ## Reading the layouts -/

theorem combineWords_split (value : Nat) :
    combineWords (value / 2 ^ 16) (value % 2 ^ 16) = value := by
  rw [combineWords, ← Nat.shiftLeft_add_eq_or_of_lt (Nat.mod_lt _ (by decide)),
    Nat.shiftLeft_eq, Nat.div_add_mod']

theorem checkedRange_header {pieces : List (List UInt8)} {widths : List Nat}
    (hwidths : pieces.map List.length = widths) (hlen : widths.sum < 2 ^ 64) (o t : String) :
    checkedRange pieces.flatten 0 widths.sum o t = .ok pieces.flatten := by
  have htotal : pieces.flatten.length = widths.sum := by rw [List.length_flatten, hwidths]
  refine checkedRange_eq_ok.mpr ⟨by omega, by omega, ?_⟩
  rw [Nat.zero_add, ← htotal, List.take_length, List.drop_zero]

open Layout in
theorem parseNewcHeader_layout {magic : List UInt8} {hasChecksum : Bool} {check : Nat}
    (hfields : fields.HeldBy .newc) (hmagic : magic.length = 6) (hname : name.length + 1 < 2 ^ 32)
    (hdata : data.length < 2 ^ 32) (hcheck : check < 2 ^ 32)
    (hplain : hasChecksum = false → check = 0) :
    parseNewcHeader (newcPieces magic fields (name.length + 1) data.length check).flatten 0
        hasChecksum =
      .ok { Layout.newc.parsed fields name data with
        format := if hasChecksum then .crcNewc else .newc
        checksum := if hasChecksum then some check else none } := by
  have hwidths := newcPieces_widths hmagic fields (name.length + 1) data.length check
  have hlen : newcWidths.sum < 2 ^ 64 := by decide
  have field : ∀ k value, (newcPieces magic fields (name.length + 1) data.length check)[k]? =
      some (hexText value) → value < 2 ^ 32 → ∀ offset, (newcWidths.take k).sum = offset →
      ∀ detail, hexU32 (newcPieces magic fields (name.length + 1) data.length check).flatten
        offset detail = .ok value := by
    rintro k value hpiece hlt offset rfl detail
    exact hexU32_piece hwidths hlen hpiece hlt detail
  have hreject : ¬(hasChecksum = false ∧ check ≠ 0) := fun h => h.2 (hplain h.1)
  rw [parseNewcHeader, show newcHeaderBytes = newcWidths.sum from rfl,
    checkedRange_header hwidths hlen, ok_bind, field 13 check rfl hcheck 102 rfl,
    ok_bind, rejectIf_of_not hreject, ok_bind,
    field 1 _ rfl hfields.inode_lt 6 rfl, ok_bind,
    field 2 _ rfl hfields.mode_lt 14 rfl, ok_bind,
    field 3 _ rfl hfields.uid_lt 22 rfl, ok_bind,
    field 4 _ rfl hfields.gid_lt 30 rfl, ok_bind,
    field 5 _ rfl hfields.linkCount_lt 38 rfl, ok_bind,
    field 6 _ rfl hfields.modifiedTime_lt 46 rfl, ok_bind,
    field 7 _ rfl hdata 54 rfl, ok_bind,
    field 8 _ rfl hfields.deviceMajor_lt 62 rfl, ok_bind,
    field 9 _ rfl hfields.deviceMinor_lt 70 rfl, ok_bind,
    field 10 _ rfl hfields.rdevMajor_lt 78 rfl, ok_bind,
    field 11 _ rfl hfields.rdevMinor_lt 86 rfl, ok_bind,
    field 12 _ rfl hname 94 rfl, ok_bind]
  rfl

open Layout in
theorem parseOdcHeader_layout (hfields : fields.HeldBy .odc) (hname : name.length + 1 < 8 ^ 6)
    (hdata : data.length < 8 ^ 11) :
    parseOdcHeader (odcPieces fields (name.length + 1) data.length).flatten 0 =
      .ok (Layout.odc.parsed fields name data) := by
  have hwidths := odcPieces_widths fields (name.length + 1) data.length
  have hlen : odcWidths.sum < 2 ^ 64 := by decide
  have short : ∀ k value, (odcPieces fields (name.length + 1) data.length)[k]? =
      some (octalText 6 value) → value < 8 ^ 6 → ∀ offset, (odcWidths.take k).sum = offset →
      ∀ detail, octalU32 (odcPieces fields (name.length + 1) data.length).flatten offset 6 detail =
        .ok value := by
    rintro k value hpiece hlt offset rfl detail
    exact octalU32_piece hwidths hlen hpiece hlt (by omega) detail
  have long : ∀ k width value, (odcPieces fields (name.length + 1) data.length)[k]? =
      some (octalText width value) → value < 8 ^ width → value < 2 ^ 64 → ∀ offset,
      (odcWidths.take k).sum = offset → ∀ detail,
      octalU64 (odcPieces fields (name.length + 1) data.length).flatten offset width detail =
        .ok value := by
    rintro k width value hpiece hfits hlt offset rfl detail
    exact octalU64_piece hwidths hlen hpiece hfits hlt detail
  have hmajor : fields.deviceMajor = 0 := Nat.lt_one_iff.mp hfields.deviceMajor_lt
  have hrdevMajor : fields.rdevMajor = 0 := Nat.lt_one_iff.mp hfields.rdevMajor_lt
  have htime : fields.modifiedTime < 8 ^ 11 := hfields.modifiedTime_lt
  rw [parseOdcHeader, show odcHeaderBytes = odcWidths.sum from rfl,
    checkedRange_header hwidths hlen, ok_bind,
    short 1 _ rfl hfields.deviceMinor_lt 6 rfl, ok_bind,
    short 7 _ rfl hfields.rdevMinor_lt 42 rfl, ok_bind,
    short 2 _ rfl hfields.inode_lt 12 rfl, ok_bind,
    short 3 _ rfl hfields.mode_lt 18 rfl, ok_bind,
    short 4 _ rfl hfields.uid_lt 24 rfl, ok_bind,
    short 5 _ rfl hfields.gid_lt 30 rfl, ok_bind,
    short 6 _ rfl hfields.linkCount_lt 36 rfl, ok_bind,
    long 8 11 _ rfl htime (by omega) 48 rfl, ok_bind,
    long 9 6 _ rfl hname (by omega) 59 rfl, ok_bind,
    long 10 11 _ rfl hdata (by omega) 65 rfl, ok_bind, Layout.parsed, hmajor, hrdevMajor]
  rfl

open Layout in
theorem parseBinaryHeader_layout (hfields : fields.HeldBy (.binary littleEndian))
    (hname : name.length + 1 < 2 ^ 16) (hdata : data.length < 2 ^ 32) :
    parseBinaryHeader (binaryPieces littleEndian fields (name.length + 1) data.length).flatten 0
        littleEndian =
      .ok ((Layout.binary littleEndian).parsed fields name data) := by
  have hwidths := binaryPieces_widths littleEndian fields (name.length + 1) data.length
  have hlen : binaryWidths.sum < 2 ^ 64 := by decide
  have field : ∀ k value, (binaryPieces littleEndian fields (name.length + 1) data.length)[k]? =
      some (wordBytes littleEndian value) → value < 2 ^ 16 → k < 2 ^ 32 →
      k * 2 = (binaryWidths.take k).sum → ∀ detail,
      word (binaryPieces littleEndian fields (name.length + 1) data.length).flatten littleEndian k
        detail = .ok value := by
    intro k value hpiece hlt hsmall hindex detail
    exact word_piece hwidths hlen hpiece hlt hindex hsmall detail
  have hmajor : fields.deviceMajor = 0 := Nat.lt_one_iff.mp hfields.deviceMajor_lt
  have hrdevMajor : fields.rdevMajor = 0 := Nat.lt_one_iff.mp hfields.rdevMajor_lt
  have htime : fields.modifiedTime / 2 ^ 16 < 2 ^ 16 :=
    Nat.div_lt_of_lt_mul hfields.modifiedTime_lt
  have hsize : data.length / 2 ^ 16 < 2 ^ 16 := Nat.div_lt_of_lt_mul hdata
  rw [parseBinaryHeader, show binaryHeaderBytes = binaryWidths.sum from rfl,
    checkedRange_header hwidths hlen, ok_bind,
    field 0 binaryMagic rfl (by decide) (by decide) rfl, ok_bind,
    rejectIf_of_not (fun hne => hne rfl), ok_bind,
    field 1 _ rfl hfields.deviceMinor_lt (by decide) rfl, ok_bind,
    field 7 _ rfl hfields.rdevMinor_lt (by decide) rfl, ok_bind,
    field 8 _ rfl htime (by decide) rfl, ok_bind,
    field 9 _ rfl (Nat.mod_lt _ (by decide)) (by decide) rfl, ok_bind,
    field 11 _ rfl hsize (by decide) rfl, ok_bind,
    field 12 _ rfl (Nat.mod_lt _ (by decide)) (by decide) rfl, ok_bind,
    field 2 _ rfl hfields.inode_lt (by decide) rfl, ok_bind,
    field 3 _ rfl hfields.mode_lt (by decide) rfl, ok_bind,
    field 4 _ rfl hfields.uid_lt (by decide) rfl, ok_bind,
    field 5 _ rfl hfields.gid_lt (by decide) rfl, ok_bind,
    field 6 _ rfl hfields.linkCount_lt (by decide) rfl, ok_bind,
    field 10 _ rfl hname (by decide) rfl, ok_bind, combineWords_split, combineWords_split,
    Layout.parsed, hmajor, hrdevMajor]
  cases littleEndian <;> rfl

/-- Headers that begin with `0707` go by their whole magic. -/
theorem parseHeader_ascii {header rest : List UInt8} (hlen : header.length < 2 ^ 64)
    (last : UInt8) (hheader : header = [0x30, 0x37, 0x30, 0x37, 0x30, last] ++ rest)
    (hlarge : last ≠ 0x58) :
    parseHeader header 0 =
      let magic := [0x30, 0x37, 0x30, 0x37, 0x30, last]
      if magic = magicNewc ∨ magic = magicCrc then
        parseNewcHeader header 0 (decide (magic = magicCrc))
      else if magic = magicOdc then parseOdcHeader header 0
      else .error (cpioFormat "magic is invalid") := by
  have htwo : header.drop 0 = [0x30, 0x37] ++ ([0x30, 0x37, 0x30, last] ++ rest) := hheader
  have hsix : header.drop 0 = [0x30, 0x37, 0x30, 0x37, 0x30, last] ++ rest := hheader
  have hmagic : [0x30, 0x37, 0x30, 0x37, 0x30, last] ≠ magicLarge := by
    intro h
    simp only [magicLarge, List.cons.injEq, true_and, and_true] at h
    exact hlarge h
  have hrangeTwo := checkedRange_of_drop hlen (Nat.zero_le _) htwo "CPIO magic range overflows"
    "CPIO magic is truncated"
  have hrangeSix := checkedRange_of_drop hlen (Nat.zero_le _) hsix "CPIO magic range overflows"
    "CPIO magic is truncated"
  simp only [List.length_cons, List.length_nil, Nat.zero_add, Nat.reduceAdd] at hrangeTwo hrangeSix
  have hsecond : ([0x30, 0x37] : List UInt8)[1]? = some 0x37 := rfl
  rw [parseHeader, hrangeTwo, ok_bind, List.head?_cons, okOr_bind, hsecond, okOr_bind,
    if_neg (by decide), if_neg (by decide), hrangeSix, ok_bind, rejectIf_of_not hmagic, ok_bind]
  rfl

theorem parseHeader_binary {header rest : List UInt8} (hlen : header.length < 2 ^ 64)
    (hheader : header = wordBytes littleEndian binaryMagic ++ rest) :
    parseHeader header 0 = parseBinaryHeader header 0 littleEndian := by
  have htwo : header.drop 0 = wordBytes littleEndian binaryMagic ++ rest := hheader
  have hrange := checkedRange_of_drop hlen (Nat.zero_le _) htwo "CPIO magic range overflows"
    "CPIO magic is truncated"
  rw [length_wordBytes] at hrange
  cases littleEndian with
  | true =>
    have hbytes : wordBytes true binaryMagic = [0xc7, 0x71] := by decide
    have hsecond : ([0xc7, 0x71] : List UInt8)[1]? = some 0x71 := rfl
    rw [hbytes] at hrange
    rw [parseHeader, hrange, ok_bind, List.head?_cons, okOr_bind, hsecond, okOr_bind, if_pos rfl]
  | false =>
    have hbytes : wordBytes false binaryMagic = [0x71, 0xc7] := by decide
    have hsecond : ([0x71, 0xc7] : List UInt8)[1]? = some 0xc7 := rfl
    rw [hbytes] at hrange
    rw [parseHeader, hrange, ok_bind, List.head?_cons, okOr_bind, hsecond, okOr_bind,
      if_neg (by decide), if_pos rfl]

theorem byteTotal_lt (data : List UInt8) : byteTotal data < 2 ^ 32 := Nat.mod_lt _ (by decide)

theorem parseHeader_layout {layout : Layout} (hfields : fields.HeldBy layout)
    (hname : name.length + 1 < layout.shortBound) (hdata : data.length < layout.longBound) :
    parseHeader (layout.header fields name data) 0 = .ok (layout.parsed fields name data) := by
  have hlen : (layout.header fields name data).length < 2 ^ 64 := by
    rw [Layout.length_header]
    cases layout with
    | newc => decide
    | crcNewc => decide
    | odc => decide
    | binary _ => show binaryHeaderBytes < 2 ^ 64; decide
  cases layout with
  | newc =>
    rw [parseHeader_ascii hlen 0x31 rfl (by decide)]
    exact parseNewcHeader_layout hfields rfl hname hdata (by decide) fun _ => rfl
  | crcNewc =>
    have hcrc : fields.HeldBy .newc := ⟨hfields.1, hfields.2, hfields.3, hfields.4, hfields.5,
      hfields.6, hfields.7, hfields.8, hfields.9, hfields.10⟩
    rw [parseHeader_ascii hlen 0x32 rfl (by decide)]
    exact parseNewcHeader_layout hcrc rfl hname hdata (byteTotal_lt data)
      fun h => absurd h (by decide)
  | odc =>
    rw [parseHeader_ascii hlen 0x37 rfl (by decide)]
    exact parseOdcHeader_layout hfields hname hdata
  | binary littleEndian =>
    rw [parseHeader_binary hlen rfl]
    exact parseBinaryHeader_layout hfields hname hdata

end Cpio
end Unpackio
