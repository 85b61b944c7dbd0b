/-
Local records, central records and data descriptors, and what the parsers
accept of them.
-/
import Unpackio.Zip.Layout

namespace Unpackio
namespace Zip

open List (append_nil drop_zero length_append)
open Except (bind_eq_ok)

structure LocalFixed.Fits (fixed : LocalFixed) : Prop where
  flags_lt : fixed.flags < 256 ^ 2
  method_lt : fixed.method < 256 ^ 2
  crc32_lt : fixed.crc32 < 256 ^ 4
  compressedSize_lt : fixed.compressedSize < 256 ^ 4
  uncompressedSize_lt : fixed.uncompressedSize < 256 ^ 4
  nameLength_lt : fixed.nameLength < 256 ^ 2
  extraLength_lt : fixed.extraLength < 256 ^ 2

/-- A local header, with the fields that the parser skips. -/
structure LocalHeader where
  versionNeeded : Nat
  modifiedTime : Nat
  modifiedDate : Nat
  fixed : LocalFixed
  name : List UInt8
  extra : List UInt8
  fits : fixed.Fits
  nameLength_eq : fixed.nameLength = name.length
  extraLength_eq : fixed.extraLength = extra.length

def localFixedPart (versionNeeded modifiedTime modifiedDate : Nat) (fixed : LocalFixed) :
    List UInt8 :=
  toLeBytes 4 localSignature ++ (toLeBytes 2 versionNeeded ++ (toLeBytes 2 fixed.flags ++
    (toLeBytes 2 fixed.method ++ (toLeBytes 2 modifiedTime ++ (toLeBytes 2 modifiedDate ++
      (toLeBytes 4 fixed.crc32 ++ (toLeBytes 4 fixed.compressedSize ++
        (toLeBytes 4 fixed.uncompressedSize ++ (toLeBytes 2 fixed.nameLength ++
          toLeBytes 2 fixed.extraLength)))))))))

@[simp] theorem length_localFixedPart (versionNeeded modifiedTime modifiedDate : Nat)
    (fixed : LocalFixed) :
    (localFixedPart versionNeeded modifiedTime modifiedDate fixed).length = localFixedBytes := by
  simp only [localFixedPart, length_append, length_toLeBytes, localFixedBytes]

namespace LocalHeader

def bytes (header : LocalHeader) : List UInt8 :=
  localFixedPart header.versionNeeded header.modifiedTime header.modifiedDate header.fixed ++
    (header.name ++ header.extra)

theorem length_bytes (header : LocalHeader) :
    header.bytes.length = localFixedBytes + (header.name.length + header.extra.length) := by
  rw [bytes, length_append, length_localFixedPart, length_append]

end LocalHeader

theorem parseLocalFixed_ok {bytes : List UInt8} (hlen : bytes.length < 2 ^ 64) {offset : Nat}
    {fixed : LocalFixed} (h : parseLocalFixed bytes offset = .ok fixed) :
    fixed.Fits ∧ offset + localFixedBytes ≤ bytes.length ∧
      ∃ versionNeeded modifiedTime modifiedDate,
        bytes.drop offset = localFixedPart versionNeeded modifiedTime modifiedDate fixed ++
          bytes.drop (offset + localFixedBytes) := by
  simp only [parseLocalFixed, bind_eq_ok, checkedRange_iff_drop hlen, rejectIf_eq_ok,
    leU16, leU32] at h
  obtain ⟨part, ⟨hfits, hcount, hpart⟩, signature, hsignature, _, hmagic, flags, hflags, method,
    hmethod, crc32, hcrc32, compressedSize, hcompressed, uncompressedSize, huncompressed,
    nameLength, hname, extraLength, hextra, h⟩ := h
  cases h
  have hmagic := not_not.mp hmagic
  subst hmagic
  have hsmall : part.length < 2 ^ 64 := by
    rw [hcount]
    decide
  simp only [leUint_eq_ok hsmall, Nat.reduceAdd] at hsignature hflags hmethod hcrc32 hcompressed
  simp only [leUint_eq_ok hsmall, Nat.reduceAdd] at huncompressed hname hextra
  rw [localFixedBytes] at hcount
  obtain ⟨versionNeeded, -, hversion⟩ := exists_field (show 4 + 2 ≤ part.length by omega)
  obtain ⟨modifiedTime, -, htime⟩ := exists_field (show 10 + 2 ≤ part.length by omega)
  obtain ⟨modifiedDate, -, hdate⟩ := exists_field (show 12 + 2 ≤ part.length by omega)
  refine ⟨⟨hflags.2.1, hmethod.2.1, hcrc32.2.1, hcompressed.2.1, huncompressed.2.1, hname.2.1,
    hextra.2.1⟩, hfits, versionNeeded, modifiedTime, modifiedDate, ?_⟩
  have hwhole : part = localFixedPart versionNeeded modifiedTime modifiedDate
      ⟨flags, method, crc32, compressedSize, uncompressedSize, nameLength, extraLength⟩ := by
    have hend : part.drop 30 = [] := List.drop_eq_nil_of_le (by omega)
    rw [hend, append_nil] at hextra
    rw [localFixedPart, ← hextra.2.2, ← hname.2.2, ← huncompressed.2.2, ← hcompressed.2.2,
      ← hcrc32.2.2, ← hdate, ← htime, ← hmethod.2.2, ← hflags.2.2, ← hversion, ← hsignature.2.2,
      drop_zero]
  rw [← hwhole]
  exact hpart

structure CentralFixed.Fits (fixed : CentralFixed) : Prop where
  versionMadeBy_lt : fixed.versionMadeBy < 256 ^ 2
  versionNeeded_lt : fixed.versionNeeded < 256 ^ 2
  flags_lt : fixed.flags < 256 ^ 2
  method_lt : fixed.method < 256 ^ 2
  modifiedTime_lt : fixed.modifiedTime < 256 ^ 2
  modifiedDate_lt : fixed.modifiedDate < 256 ^ 2
  crc32_lt : fixed.crc32 < 256 ^ 4
  compressedSize_lt : fixed.compressedSize < 256 ^ 4
  uncompressedSize_lt : fixed.uncompressedSize < 256 ^ 4
  nameLength_lt : fixed.nameLength < 256 ^ 2
  extraLength_lt : fixed.extraLength < 256 ^ 2
  commentLength_lt : fixed.commentLength < 256 ^ 2
  diskStart_lt : fixed.diskStart < 256 ^ 2
  internalAttributes_lt : fixed.internalAttributes < 256 ^ 2
  externalAttributes_lt : fixed.externalAttributes < 256 ^ 4
  localHeaderOffset_lt : fixed.localHeaderOffset < 256 ^ 4

structure CentralHeader where
  fixed : CentralFixed
  name : List UInt8
  extra : List UInt8
  comment : List UInt8
  fits : fixed.Fits
  nameLength_eq : fixed.nameLength = name.length
  extraLength_eq : fixed.extraLength = extra.length
  commentLength_eq : fixed.commentLength = comment.length

def centralFixedPart (fixed : CentralFixed) : List UInt8 :=
  toLeBytes 4 centralSignature ++ (toLeBytes 2 fixed.versionMadeBy ++
    (toLeBytes 2 fixed.versionNeeded ++ (toLeBytes 2 fixed.flags ++ (toLeBytes 2 fixed.method ++
      (toLeBytes 2 fixed.modifiedTime ++ (toLeBytes 2 fixed.modifiedDate ++
        (toLeBytes 4 fixed.crc32 ++ (toLeBytes 4 fixed.compressedSize ++
          (toLeBytes 4 fixed.uncompressedSize ++ (toLeBytes 2 fixed.nameLength ++
            (toLeBytes 2 fixed.extraLength ++ (toLeBytes 2 fixed.commentLength ++
              (toLeBytes 2 fixed.diskStart ++ (toLeBytes 2 fixed.internalAttributes ++
                (toLeBytes 4 fixed.externalAttributes ++
                  toLeBytes 4 fixed.localHeaderOffset)))))))))))))))

namespace CentralHeader

def bytes (header : CentralHeader) : List UInt8 :=
  centralFixedPart header.fixed ++ (header.name ++ (header.extra ++ header.comment))

end CentralHeader

section

variable {bytes : List UInt8} {offset : Nat} (hlen : bytes.length < 2 ^ 64)
include hlen

theorem parseCentralFixed_ok {fixed : CentralFixed}
    (h : parseCentralFixed bytes offset = .ok fixed) :
    fixed.Fits ∧ offset + centralFixedBytes ≤ bytes.length ∧
      bytes.drop offset = centralFixedPart fixed ++ bytes.drop (offset + centralFixedBytes) := by
  simp only [parseCentralFixed, bind_eq_ok, checkedRange_iff_drop hlen, rejectIf_eq_ok,
    leU16, leU32] at h
  obtain ⟨part, ⟨hfits, hcount, hpart⟩, signature, hsignature, _, hmagic, versionMadeBy, hmadeBy,
    versionNeeded, hneeded, flags, hflags, method, hmethod, modifiedTime, htime, modifiedDate,
    hdate, crc32, hcrc32, compressedSize, hcompressed, uncompressedSize, huncompressed, nameLength,
    hname, extraLength, hextra, commentLength, hcomment, diskStart, hdisk, internalAttributes,
    hinternal, externalAttributes, hexternal, localHeaderOffset, hoffset, h⟩ := h
  cases h
  have hmagic := not_not.mp hmagic
  subst hmagic
  have hsmall : part.length < 2 ^ 64 := by
    rw [hcount]
    decide
  simp only [leUint_eq_ok hsmall, Nat.reduceAdd] at hsignature hmadeBy hneeded hflags hmethod htime
  simp only [leUint_eq_ok hsmall, Nat.reduceAdd] at hdate hcrc32 hcompressed huncompressed hname
  simp only [leUint_eq_ok hsmall, Nat.reduceAdd] at hextra hcomment hdisk hinternal hexternal
  simp only [leUint_eq_ok hsmall, Nat.reduceAdd] at hoffset
  rw [centralFixedBytes] at hcount
  refine ⟨⟨hmadeBy.2.1, hneeded.2.1, hflags.2.1, hmethod.2.1, htime.2.1, hdate.2.1, hcrc32.2.1,
    hcompressed.2.1, huncompressed.2.1, hname.2.1, hextra.2.1, hcomment.2.1, hdisk.2.1,
    hinternal.2.1, hexternal.2.1, hoffset.2.1⟩, hfits, ?_⟩
  have hend : part.drop 46 = [] := List.drop_eq_nil_of_le (by omega)
  rw [hend, append_nil] at hoffset
  rw [centralFixedPart, ← hoffset.2.2, ← hexternal.2.2, ← hinternal.2.2, ← hdisk.2.2,
    ← hcomment.2.2, ← hextra.2.2, ← hname.2.2, ← huncompressed.2.2, ← hcompressed.2.2,
    ← hcrc32.2.2, ← hdate.2.2, ← htime.2.2, ← hmethod.2.2, ← hflags.2.2, ← hneeded.2.2,
    ← hmadeBy.2.2, ← hsignature.2.2, drop_zero]
  exact hpart

theorem parseCentral_ok {record : CentralRecord} (h : parseCentral bytes offset = .ok record) :
    ∃ header : CentralHeader, header.fixed = record.fixed ∧ header.name = record.name ∧
      header.extra = record.extra ∧ header.comment = record.comment ∧
      header.bytes <+: bytes.drop offset := by
  simp only [parseCentral, bind_eq_ok, okOr_eq_ok, checkedAdd_eq_some, Option.bind_eq_some_iff,
    checkedRange_iff_drop hlen] at h
  obtain ⟨fixed, hfixed, _, ⟨-, rfl⟩, length, ⟨_, ⟨-, rfl⟩, -, rfl⟩, content,
    ⟨hcontentFits, hcontentCount, hcontent⟩, _, ⟨-, rfl⟩, name, hname, extra, hextra, comment,
    hcomment, h⟩ := h
  cases h
  obtain ⟨hfits, -, hpart⟩ := parseCentralFixed_ok hlen hfixed
  obtain ⟨hnameLength, hnameSplit⟩ := getRange_split hname
  have hcommentDrop := getRange_from hcomment
  obtain ⟨-, -, hextraPart⟩ := getRange_eq_some.mp hextra
  have hextraDrop : content.drop fixed.nameLength = extra ++ comment := by
    rw [← hextraPart, ← hcommentDrop, List.drop_take, Nat.add_sub_cancel_left, ← List.drop_drop,
      List.take_append_drop]
  have hcounts := congrArg List.length hnameSplit
  have hextraCount : extra.length = fixed.extraLength := by
    rw [← hextraPart, List.length_drop, List.length_take]
    omega
  have hcommentCount : comment.length = fixed.commentLength := by
    rw [← hcommentDrop, List.length_drop]
    omega
  refine ⟨⟨fixed, name, extra, comment, hfits, hnameLength.symm, hextraCount.symm,
    hcommentCount.symm⟩, rfl, rfl, rfl, rfl, ?_⟩
  rw [hpart, hcontent, hnameSplit, hextraDrop]
  exact (List.append_assoc _ _ _).symm ▸ List.prefix_append _ _

end

def zip64Part (width marker fixedValue value : Nat) : List UInt8 :=
  if fixedValue = marker then toLeBytes width value else []

/-- The value is the one of the fixed part, or of the ZIP64 field. -/
structure Stands (width marker fixedValue value : Nat) : Prop where
  direct : fixedValue ≠ marker → value = fixedValue
  wide : fixedValue = marker → value < 256 ^ width

theorem resolveNext_ok {field : List UInt8} (hlen : field.length < 2 ^ 64)
    {width marker fixedValue position value next : Nat} {truncated overflows : String}
    (hposition : position ≤ field.length)
    (h : resolveNext width marker fixedValue field position truncated overflows =
      .ok (value, next)) :
    Stands width marker fixedValue value ∧ next ≤ field.length ∧
      field.drop position = zip64Part width marker fixedValue value ++ field.drop next := by
  rw [resolveNext] at h
  by_cases hmarked : fixedValue = marker
  · rw [if_pos hmarked] at h
    simp only [bind_eq_ok, leUint_eq_ok hlen, advance, okOr_eq_ok, checkedAdd_eq_some] at h
    obtain ⟨_, ⟨hfits, hlt, hdrop⟩, _, ⟨-, rfl⟩, h⟩ := h
    cases h
    refine ⟨⟨fun hne => absurd hmarked hne, fun _ => hlt⟩, hfits, ?_⟩
    rw [zip64Part, if_pos hmarked]
    exact hdrop
  · rw [if_neg hmarked] at h
    cases h
    refine ⟨⟨fun _ => rfl, fun heq => absurd heq hmarked⟩, hposition, ?_⟩
    rw [zip64Part, if_neg hmarked, List.nil_append]

/-- The sizes that a local header declares. -/
structure LocalHeader.Declares (header : LocalHeader) (compressed uncompressed : Nat) : Prop where
  uncompressed_stands : Stands 8 u32Max header.fixed.uncompressedSize uncompressed
  compressed_stands : Stands 8 u32Max header.fixed.compressedSize compressed
  zip64 : header.fixed.uncompressedSize = u32Max ∨ header.fixed.compressedSize = u32Max →
    ∃ fields, header.extra = extraBytes fields ∧ (∀ field ∈ fields, field.Fits) ∧
      bodiesOf fields extraZip64 =
        [zip64Part 8 u32Max header.fixed.uncompressedSize uncompressed ++
          zip64Part 8 u32Max header.fixed.compressedSize compressed]

/-- The sizes, the offset and the disk that a central header declares. -/
structure CentralHeader.Declares (header : CentralHeader) (resolved : ResolvedCentral) :
    Prop where
  uncompressed_stands : Stands 8 u32Max header.fixed.uncompressedSize resolved.uncompressedSize
  compressed_stands : Stands 8 u32Max header.fixed.compressedSize resolved.compressedSize
  offset_stands : Stands 8 u32Max header.fixed.localHeaderOffset resolved.localHeaderOffset
  disk_stands : Stands 4 u16Max header.fixed.diskStart resolved.diskStart
  descriptor : resolved.descriptorUsesZip64 =
    decide (header.fixed.uncompressedSize = u32Max ∨ header.fixed.compressedSize = u32Max)
  zip64 : header.fixed.uncompressedSize = u32Max ∨ header.fixed.compressedSize = u32Max ∨
      header.fixed.localHeaderOffset = u32Max ∨ header.fixed.diskStart = u16Max →
    ∃ fields, header.extra = extraBytes fields ∧ (∀ field ∈ fields, field.Fits) ∧
      bodiesOf fields extraZip64 =
        [zip64Part 8 u32Max header.fixed.uncompressedSize resolved.uncompressedSize ++
          (zip64Part 8 u32Max header.fixed.compressedSize resolved.compressedSize ++
            (zip64Part 8 u32Max header.fixed.localHeaderOffset resolved.localHeaderOffset ++
              zip64Part 4 u16Max header.fixed.diskStart resolved.diskStart))]

theorem Stands.of_ne {width marker fixedValue : Nat} (h : fixedValue ≠ marker) :
    Stands width marker fixedValue fixedValue :=
  ⟨fun _ => rfl, fun heq => absurd heq h⟩

theorem resolveLocalSizes_ok {header : LocalHeader} {compressed uncompressed : Nat}
    (hvalid : validateExtraFields header.extra = .ok ())
    (h : resolveLocalSizes header.fixed header.extra = .ok (compressed, uncompressed)) :
    header.Declares compressed uncompressed := by
  have hlen : header.extra.length < 2 ^ 64 :=
    Nat.lt_trans (header.extraLength_eq ▸ header.fits.extraLength_lt) (by decide)
  rw [resolveLocalSizes] at h
  by_cases hplain : header.fixed.uncompressedSize ≠ u32Max ∧ header.fixed.compressedSize ≠ u32Max
  · rw [if_pos hplain] at h
    cases h
    refine ⟨.of_ne hplain.1, .of_ne hplain.2, fun hmarked => ?_⟩
    exact absurd hmarked (not_or.mpr hplain)
  · rw [if_neg hplain] at h
    simp only [bind_eq_ok, okOr_eq_ok, rejectIf_eq_ok] at h
    obtain ⟨_, hfound, field, rfl, ⟨first, middle⟩, hfirst, ⟨second, last⟩, hsecond, _, hend, h⟩ :=
      h
    cases h
    obtain ⟨fields, hfields, hfits⟩ := exists_extraFields hlen hvalid
    have hbodies := findUniqueExtra_fields hlen hfits hfields hfound
    have hfieldLen := (findUniqueExtra_body hlen hfits hfields hbodies).2
    obtain ⟨hfirstStands, hmiddle, hfirstDrop⟩ := resolveNext_ok hfieldLen (Nat.zero_le _) hfirst
    obtain ⟨hsecondStands, -, hsecondDrop⟩ := resolveNext_ok hfieldLen hmiddle hsecond
    refine ⟨hfirstStands, hsecondStands, fun _ => ⟨fields, hfields, hfits, ?_⟩⟩
    have hend := not_not.mp hend
    have hlast : field.drop last = [] := List.drop_eq_nil_of_le (by omega)
    rw [hsecondDrop, hlast, append_nil, drop_zero] at hfirstDrop
    rw [hbodies, Option.toList_some, ← hfirstDrop]

theorem resolveCentral_ok {header : CentralHeader} {resolved : ResolvedCentral}
    (hvalid : validateExtraFields header.extra = .ok ())
    (h : resolveCentral header.fixed header.extra = .ok resolved) : header.Declares resolved := by
  have hlen : header.extra.length < 2 ^ 64 :=
    Nat.lt_trans (header.extraLength_eq ▸ header.fits.extraLength_lt) (by decide)
  rw [resolveCentral] at h
  by_cases hplain : header.fixed.uncompressedSize ≠ u32Max ∧
      header.fixed.compressedSize ≠ u32Max ∧ header.fixed.localHeaderOffset ≠ u32Max ∧
        header.fixed.diskStart ≠ u16Max
  · rw [if_pos hplain] at h
    cases h
    refine ⟨.of_ne hplain.1, .of_ne hplain.2.1, .of_ne hplain.2.2.1, .of_ne hplain.2.2.2, ?_,
      fun hmarked => ?_⟩
    · exact (decide_eq_false (not_or.mpr ⟨hplain.1, hplain.2.1⟩)).symm
    · exact absurd hmarked (by simp only [not_or]; exact hplain)
  · rw [if_neg hplain] at h
    simp only [bind_eq_ok, okOr_eq_ok, rejectIf_eq_ok] at h
    obtain ⟨_, hfound, field, rfl, ⟨first, position₁⟩, hfirst, ⟨second, position₂⟩, hsecond,
      ⟨third, position₃⟩, hthird, ⟨fourth, position₄⟩, hfourth, _, hend, h⟩ := h
    cases h
    obtain ⟨fields, hfields, hfits⟩ := exists_extraFields hlen hvalid
    have hbodies := findUniqueExtra_fields hlen hfits hfields hfound
    have hfieldLen := (findUniqueExtra_body hlen hfits hfields hbodies).2
    obtain ⟨hfirstStands, hle₁, hdrop₁⟩ := resolveNext_ok hfieldLen (Nat.zero_le _) hfirst
    obtain ⟨hsecondStands, hle₂, hdrop₂⟩ := resolveNext_ok hfieldLen hle₁ hsecond
    obtain ⟨hthirdStands, hle₃, hdrop₃⟩ := resolveNext_ok hfieldLen hle₂ hthird
    obtain ⟨hfourthStands, -, hdrop₄⟩ := resolveNext_ok hfieldLen hle₃ hfourth
    refine ⟨hfirstStands, hsecondStands, hthirdStands, hfourthStands, rfl, fun _ =>
      ⟨fields, hfields, hfits, ?_⟩⟩
    have hend := not_not.mp hend
    have hlast : field.drop position₄ = [] := List.drop_eq_nil_of_le (by omega)
    rw [hdrop₂, hdrop₃, hdrop₄, hlast, append_nil, drop_zero] at hdrop₁
    rw [hbodies, Option.toList_some, ← hdrop₁]

/-- The values behind the data, in 32 or 64 bits, with or without a signature. -/
structure Descriptor where
  signed : Bool
  zip64 : Bool
  crc32 : Nat
  compressedSize : Nat
  uncompressedSize : Nat
  deriving DecidableEq, Repr

namespace Descriptor

def sizeWidth (descriptor : Descriptor) : Nat := if descriptor.zip64 then 8 else 4

def signature (descriptor : Descriptor) : List UInt8 :=
  if descriptor.signed then toLeBytes 4 dataDescriptorSignature else []

def values (descriptor : Descriptor) : List UInt8 :=
  toLeBytes 4 descriptor.crc32 ++ (toLeBytes descriptor.sizeWidth descriptor.compressedSize ++
    toLeBytes descriptor.sizeWidth descriptor.uncompressedSize)

def bytes (descriptor : Descriptor) : List UInt8 := descriptor.signature ++ descriptor.values

structure Fits (descriptor : Descriptor) : Prop where
  crc32_lt : descriptor.crc32 < 256 ^ 4
  compressedSize_lt : descriptor.compressedSize < 256 ^ descriptor.sizeWidth
  uncompressedSize_lt : descriptor.uncompressedSize < 256 ^ descriptor.sizeWidth

end Descriptor

theorem descriptorSizes_ok {bytes : List UInt8} (hlen : bytes.length < 2 ^ 64)
    {start compressed uncompressed sizeBytes width : Nat} {zip64 : Bool}
    (hwidth : (if zip64 then 8 else 4) = width)
    (h : descriptorSizes bytes start zip64 = .ok (compressed, uncompressed, sizeBytes)) :
    compressed < 256 ^ width ∧ uncompressed < 256 ^ width ∧ sizeBytes = 2 * width ∧
      start + sizeBytes ≤ bytes.length ∧
      bytes.drop start = toLeBytes width compressed ++ (toLeBytes width uncompressed ++
        bytes.drop (start + sizeBytes)) := by
  cases zip64 with
  | true =>
    simp only [descriptorSizes, if_true, leU64, bind_eq_ok, leUint_eq_ok hlen, okOr_eq_ok,
      checkedAdd_eq_some] at h
    obtain ⟨_, ⟨-, hfirst, hdrop⟩, _, ⟨-, rfl⟩, _, ⟨hfits, hsecond, hdrop'⟩, h⟩ := h
    cases h
    subst hwidth
    exact ⟨hfirst, hsecond, rfl, by omega, by rw [hdrop, hdrop', Nat.add_assoc]; rfl⟩
  | false =>
    simp only [descriptorSizes, Bool.false_eq_true, if_false, leU32, bind_eq_ok,
      leUint_eq_ok hlen, okOr_eq_ok, checkedAdd_eq_some] at h
    obtain ⟨_, ⟨-, hfirst, hdrop⟩, _, ⟨-, rfl⟩, _, ⟨hfits, hsecond, hdrop'⟩, h⟩ := h
    cases h
    subst hwidth
    exact ⟨hfirst, hsecond, rfl, by omega, by rw [hdrop, hdrop', Nat.add_assoc]; rfl⟩

theorem validateDescriptorValues_ok {bytes : List UInt8} (hlen : bytes.length < 2 ^ 64)
    {descriptor : Descriptor} {start directoryOffset finish : Nat}
    (h : validateDescriptorValues bytes start descriptor.crc32 descriptor.compressedSize
      descriptor.uncompressedSize descriptor.zip64 directoryOffset = .ok finish) :
    descriptor.Fits ∧ finish ≤ directoryOffset ∧
      bytes.drop start = descriptor.values ++ bytes.drop finish ∧
      finish = start + descriptor.values.length := by
  simp only [validateDescriptorValues, leU32, bind_eq_ok, leUint_eq_ok hlen, okOr_eq_ok,
    checkedAdd_eq_some, rejectIf_eq_ok] at h
  obtain ⟨crc, ⟨-, hcrc, hdrop⟩, _, ⟨-, rfl⟩, ⟨compressed, uncompressed, sizeBytes⟩, hsizes, _,
    hsame, _, ⟨-, rfl⟩, _, hbefore, h⟩ := h
  cases h
  simp only [not_or, ne_eq, Decidable.not_not] at hsame
  obtain ⟨rfl, rfl, rfl⟩ := hsame
  obtain ⟨hfirst, hsecond, hbytes, -, hdrop'⟩ := descriptorSizes_ok hlen rfl hsizes
  refine ⟨⟨hcrc, hfirst, hsecond⟩, Nat.le_of_not_lt hbefore, ?_, ?_⟩
  · rw [hdrop, hdrop', Descriptor.values, Descriptor.sizeWidth]
    simp only [List.append_assoc]
  · simp only [Descriptor.values, length_append, length_toLeBytes, Descriptor.sizeWidth,
      hbytes]
    omega

theorem validateDescriptor_ok {bytes : List UInt8} (hlen : bytes.length < 2 ^ 64)
    {offset crc compressed uncompressed directoryOffset finish : Nat} {zip64 : Bool}
    (h : validateDescriptor bytes offset crc compressed uncompressed zip64 directoryOffset =
      .ok finish) :
    ∃ signed, Descriptor.Fits ⟨signed, zip64, crc, compressed, uncompressed⟩ ∧
      finish ≤ directoryOffset ∧
      bytes.drop offset = Descriptor.bytes ⟨signed, zip64, crc, compressed, uncompressed⟩ ++
        bytes.drop finish ∧
      finish = offset + (Descriptor.bytes ⟨signed, zip64, crc, compressed,
        uncompressed⟩).length := by
  have hunsigned : validateDescriptorValues bytes offset crc compressed uncompressed zip64
      directoryOffset = .ok finish → ∃ signed,
        Descriptor.Fits ⟨signed, zip64, crc, compressed, uncompressed⟩ ∧
        finish ≤ directoryOffset ∧
        bytes.drop offset = Descriptor.bytes ⟨signed, zip64, crc, compressed, uncompressed⟩ ++
          bytes.drop finish ∧
        finish = offset +
          (Descriptor.bytes ⟨signed, zip64, crc, compressed, uncompressed⟩).length := by
    intro h
    exact ⟨false, @validateDescriptorValues_ok bytes hlen
      ⟨false, zip64, crc, compressed, uncompressed⟩ _ _ _ h⟩
  obtain ⟨first, hfirst, h⟩ := bind_eq_ok.mp h
  by_cases hsigned : first = dataDescriptorSignature
  · rw [if_pos hsigned] at h
    simp only [bind_eq_ok, okOr_eq_ok, checkedAdd_eq_some] at h
    obtain ⟨_, ⟨-, rfl⟩, h⟩ := h
    split at h
    · rename_i finish' hvalues
      cases h
      obtain ⟨hfits, hbefore, hdrop, hfinish⟩ := @validateDescriptorValues_ok bytes hlen
        ⟨true, zip64, crc, compressed, uncompressed⟩ _ _ _ hvalues
      obtain ⟨-, -, hsignature⟩ := (leUint_eq_ok hlen).mp hfirst
      refine ⟨true, hfits, hbefore, ?_, ?_⟩
      · rw [hsignature, hsigned, hdrop, Descriptor.bytes, Descriptor.signature, if_pos rfl,
          List.append_assoc]
      · rw [hfinish, Descriptor.bytes, Descriptor.signature, if_pos rfl, length_append,
          length_toLeBytes, Nat.add_assoc]
    · exact hunsigned h
  · rw [if_neg hsigned] at h
    exact hunsigned h

end Zip
end Unpackio
