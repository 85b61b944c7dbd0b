/-
Entries whose sizes follow the data: which descriptors the parser takes for what
they are.

The width of the sizes is a matter of the local header, but the parser asks the
central record.  A signature is told from a checksum by what stands behind it,
which fails where the same four bytes go on and on.
-/
import Unpackio.Zip.Records

namespace Unpackio
namespace Zip

open List (append_assoc drop_left length_append length_drop prefix_append)
open Except (bind_eq_ok ok_bind)

def copies {α : Type} (count : Nat) (unit : List α) : List α := (List.replicate count unit).flatten

section

variable {α : Type} (count : Nat) (unit : List α)

theorem copies_succ : copies (count + 1) unit = unit ++ copies count unit := by
  rw [copies, List.replicate_succ, List.flatten_cons]
  rfl

theorem copies_succ' : copies (count + 1) unit = copies count unit ++ unit := by
  rw [copies, List.replicate_succ', List.flatten_append, List.flatten_singleton]
  rfl

theorem length_copies : (copies count unit).length = count * unit.length := by
  induction count with
  | zero => rw [Nat.zero_mul]; rfl
  | succ count ih => rw [copies_succ, length_append, ih, Nat.succ_mul, Nat.add_comm]

end

/-- A list stands again behind its first part exactly when it is made of copies of
that part and one more follows. -/
theorem prefix_shifted_iff {α : Type} (unit tail rest : List α) {count : Nat}
    (hcount : (unit ++ tail).length = count * unit.length) :
    unit ++ tail <+: tail ++ rest ↔ unit ++ tail = copies count unit ∧ unit <+: rest := by
  constructor
  · intro h
    -- Each copy that is there makes the next one.
    have hcopies : ∀ n ≤ count, copies (n + 1) unit <+: (unit ++ tail) ++ rest := by
      intro n
      induction n with
      | zero =>
        intro _
        rw [copies_succ, append_assoc]
        exact (List.prefix_append_right_inj unit).mpr List.nil_prefix
      | succ n ih =>
        intro hle
        have hshort : (copies (n + 1) unit).length ≤ (unit ++ tail).length := by
          rw [length_copies, hcount]
          exact Nat.mul_le_mul_right _ hle
        have hwhole : copies (n + 1) unit <+: unit ++ tail :=
          List.prefix_of_prefix_length_le (ih (by omega)) (prefix_append _ _) hshort
        rw [copies_succ, append_assoc]
        exact (List.prefix_append_right_inj unit).mpr (hwhole.trans h)
    have hlast := hcopies count (Nat.le_refl _)
    rw [copies_succ'] at hlast
    have hsame : copies count unit = unit ++ tail := by
      refine List.IsPrefix.eq_of_length ?_ (by rw [length_copies, hcount])
      exact List.prefix_of_prefix_length_le ((prefix_append _ _).trans hlast)
        (prefix_append _ _) (Nat.le_of_eq (by rw [length_copies, hcount]))
    rw [hsame] at hlast
    exact ⟨hsame.symm, (List.prefix_append_right_inj _).mp hlast⟩
  · rintro ⟨hsame, hrest⟩
    cases count with
    | zero =>
      rw [Nat.zero_mul, List.length_eq_zero_iff] at hcount
      rw [hcount]
      exact List.nil_prefix
    | succ count =>
      have htail : tail = copies count unit := by
        rw [copies_succ] at hsame
        exact List.append_cancel_left hsame
      rw [hsame, copies_succ', htail]
      exact (List.prefix_append_right_inj _).mpr hrest

theorem Descriptor.length_values (descriptor : Descriptor) :
    descriptor.values.length = 4 + 2 * descriptor.sizeWidth := by
  simp only [values, length_append, length_toLeBytes]
  omega

variable {rest : List UInt8} {directoryOffset offset : Nat}

section

variable {bytes : List UInt8} {start : Nat} {descriptor : Descriptor} (hlen : bytes.length < 2 ^ 64)
  (hfits : descriptor.Fits) (hstart : start ≤ bytes.length)
include hlen hfits hstart

theorem descriptorSizes_eq
    (h : bytes.drop start = toLeBytes descriptor.sizeWidth descriptor.compressedSize ++
      (toLeBytes descriptor.sizeWidth descriptor.uncompressedSize ++ rest)) :
    descriptorSizes bytes start descriptor.zip64 =
      .ok (descriptor.compressedSize, descriptor.uncompressedSize, 2 * descriptor.sizeWidth) := by
  have hcount := congrArg List.length h
  have hnext := drop_of_append h
  have hlast := drop_of_append hnext
  obtain ⟨-, hcompressed, huncompressed⟩ := hfits
  simp only [length_drop, length_append, length_toLeBytes] at hcount hnext hlast
  unfold descriptorSizes
  have hwidth : descriptor.sizeWidth = if descriptor.zip64 then 8 else 4 := rfl
  cases hzip64 : descriptor.zip64 with
  | true =>
    rw [hzip64, if_pos rfl] at hwidth
    rw [hwidth] at h hcount hnext hlast hcompressed huncompressed ⊢
    rw [if_pos rfl, leU64, (leUint_eq_ok hlen).mpr ⟨by omega, hcompressed, by rw [hnext, h]⟩,
      ok_bind, checkedAdd_bind (by omega),
      (leUint_eq_ok hlen).mpr ⟨by omega, huncompressed, by rw [hlast, hnext]⟩]
    rfl
  | false =>
    rw [hzip64, if_neg Bool.false_ne_true] at hwidth
    rw [hwidth] at h hcount hnext hlast hcompressed huncompressed ⊢
    rw [if_neg Bool.false_ne_true, leU32,
      (leUint_eq_ok hlen).mpr ⟨by omega, hcompressed, by rw [hnext, h]⟩, ok_bind,
      checkedAdd_bind (by omega),
      (leUint_eq_ok hlen).mpr ⟨by omega, huncompressed, by rw [hlast, hnext]⟩]
    rfl

theorem validateDescriptorValues_eq (h : bytes.drop start = descriptor.values ++ rest)
    (hbefore : start + descriptor.values.length ≤ directoryOffset) :
    validateDescriptorValues bytes start descriptor.crc32 descriptor.compressedSize
      descriptor.uncompressedSize descriptor.zip64 directoryOffset =
        .ok (start + descriptor.values.length) := by
  have hcount := congrArg List.length h
  rw [length_drop, length_append] at hcount
  have hvalues := descriptor.length_values
  rw [Descriptor.values, append_assoc, append_assoc] at h
  have hnext := drop_of_append h
  rw [length_toLeBytes] at hnext
  have hcrc : leU32 bytes start "data descriptor CRC is truncated" = .ok descriptor.crc32 :=
    (leUint_eq_ok hlen).mpr ⟨by omega, hfits.crc32_lt, by rw [hnext, h]⟩
  have hsizes := descriptorSizes_eq hlen hfits (by omega) hnext
  unfold validateDescriptorValues
  rw [hcrc, ok_bind, checkedAdd_bind (by omega), hsizes, ok_bind]
  simp only
  rw [rejectIf_of_not (by simp), ok_bind, checkedAdd_bind (by omega), rejectIf_of_not (by omega),
    ok_bind, hvalues, Nat.add_assoc]
  rfl

end

/-- The four bytes that may stand before a descriptor. -/
def signatureBytes : List UInt8 := toLeBytes 4 dataDescriptorSignature

/-- A descriptor without a signature that reads the same four bytes later: it and the
four bytes behind it are signatures throughout. -/
def Descriptor.Ambiguous (descriptor : Descriptor) (rest : List UInt8)
    (finish directoryOffset : Nat) : Prop :=
  descriptor.signed = false ∧ (∃ count, descriptor.values = copies count signatureBytes) ∧
    signatureBytes <+: rest ∧ finish + 4 ≤ directoryOffset

theorem Descriptor.length_bytes (descriptor : Descriptor) : descriptor.bytes.length =
    (if descriptor.signed then 4 else 0) + (4 + 2 * descriptor.sizeWidth) := by
  rw [bytes, length_append, length_values, signature]
  split
  · rw [length_toLeBytes]
  · rfl

section

variable {bytes : List UInt8} {descriptor : Descriptor} (hlen : bytes.length < 2 ^ 64)
include hlen

/-- The parser finds the end of a descriptor of the width it expects, unless the
descriptor is ambiguous. -/
theorem validateDescriptor_iff (hfits : descriptor.Fits) (hoffset : offset ≤ bytes.length)
    (h : bytes.drop offset = descriptor.bytes ++ rest)
    (hbefore : offset + descriptor.bytes.length ≤ directoryOffset) :
    validateDescriptor bytes offset descriptor.crc32 descriptor.compressedSize
        descriptor.uncompressedSize descriptor.zip64 directoryOffset =
      .ok (offset + descriptor.bytes.length) ↔
    ¬descriptor.Ambiguous rest (offset + descriptor.bytes.length) directoryOffset := by
  have hcount := congrArg List.length h
  rw [length_drop, length_append] at hcount
  have hlength := descriptor.length_bytes
  have hvalues := descriptor.length_values
  unfold validateDescriptor
  cases hsigned : descriptor.signed with
  | true =>
    have hsignature : descriptor.signature = signatureBytes := by
      rw [Descriptor.signature, hsigned]
      rfl
    rw [hsigned, if_pos rfl] at hlength
    rw [Descriptor.bytes, hsignature, append_assoc] at h
    have hnext := drop_of_append h
    rw [signatureBytes, length_toLeBytes] at hnext
    have hfirst : leU32 bytes offset "data descriptor is truncated" = .ok dataDescriptorSignature :=
      (leUint_eq_ok hlen).mpr ⟨by omega, by decide, by rw [hnext, h]; rfl⟩
    have hread := validateDescriptorValues_eq hlen hfits (by omega) hnext
      (show offset + 4 + _ ≤ directoryOffset by omega)
    have hresult : offset + 4 + descriptor.values.length = offset + descriptor.bytes.length := by
      omega
    rw [hfirst, ok_bind, if_pos rfl, checkedAdd_bind (by omega), hread]
    simp only
    rw [hresult]
    refine ⟨fun _ hambiguous => ?_, fun _ => rfl⟩
    rw [hambiguous.1] at hsigned
    cases hsigned
  | false =>
    have hbytes : descriptor.bytes = descriptor.values := by
      rw [Descriptor.bytes, Descriptor.signature, hsigned, if_neg Bool.false_ne_true,
        List.nil_append]
    rw [hbytes] at h hbefore hcount ⊢
    have hdirect := validateDescriptorValues_eq hlen hfits hoffset h hbefore
    have hnext : bytes.drop (offset + 4) =
        toLeBytes descriptor.sizeWidth descriptor.compressedSize ++
          (toLeBytes descriptor.sizeWidth descriptor.uncompressedSize ++ rest) := by
      rw [Descriptor.values, append_assoc, append_assoc] at h
      have hdrop := drop_of_append h
      rwa [length_toLeBytes] at hdrop
    have hfirst : leU32 bytes offset "data descriptor is truncated" = .ok descriptor.crc32 := by
      refine (leUint_eq_ok hlen).mpr ⟨by omega, hfits.crc32_lt, ?_⟩
      rw [hnext, h, Descriptor.values]
      simp only [append_assoc]
    rw [hfirst, ok_bind]
    by_cases hcrc : descriptor.crc32 = dataDescriptorSignature
    · have hunit : descriptor.values = signatureBytes ++
          (toLeBytes descriptor.sizeWidth descriptor.compressedSize ++
            toLeBytes descriptor.sizeWidth descriptor.uncompressedSize) := by
        rw [Descriptor.values, hcrc]
        rfl
      have hfour : signatureBytes.length = 4 := length_toLeBytes _ _
      obtain ⟨count, hcopies⟩ : ∃ count, descriptor.values.length = count * 4 := by
        rw [hvalues, Descriptor.sizeWidth]
        cases descriptor.zip64 with
        | true => exact ⟨5, rfl⟩
        | false => exact ⟨3, rfl⟩
      have hshifted := prefix_shifted_iff signatureBytes
        (toLeBytes descriptor.sizeWidth descriptor.compressedSize ++
          toLeBytes descriptor.sizeWidth descriptor.uncompressedSize) rest
        (show _ = count * _ by rw [← hunit, hcopies, hfour])
      rw [← hunit, append_assoc, ← hnext] at hshifted
      rw [if_pos hcrc, checkedAdd_bind (by omega)]
      cases hlater : validateDescriptorValues bytes (offset + 4) descriptor.crc32
          descriptor.compressedSize descriptor.uncompressedSize descriptor.zip64
          directoryOffset with
      | ok finish =>
        obtain ⟨-, hroom, hdrop, hfinish⟩ := validateDescriptorValues_ok hlen hlater
        obtain ⟨hsame, hrest⟩ := hshifted.mp (hdrop ▸ prefix_append _ _)
        refine ⟨fun heq => ?_, fun hplain => ?_⟩
        · cases heq
          omega
        · exact absurd ⟨hsigned, ⟨count, hsame⟩, hrest, by omega⟩ hplain
      | error error =>
        refine ⟨fun _ hambiguous => ?_, fun _ => hdirect⟩
        obtain ⟨-, ⟨other, hsame⟩, hrest, hroom⟩ := hambiguous
        have hother : other = count := by
          have hlengths := congrArg List.length hsame
          rw [length_copies, hfour] at hlengths
          omega
        obtain ⟨tail, htail⟩ := hshifted.mpr ⟨hother ▸ hsame, hrest⟩
        have hread := validateDescriptorValues_eq hlen hfits (show offset + 4 ≤
          bytes.length by omega)
          htail.symm (show _ ≤ directoryOffset by omega)
        rw [hread] at hlater
        cases hlater
    · rw [if_neg hcrc, hdirect]
      refine ⟨fun _ hambiguous => ?_, fun _ => rfl⟩
      obtain ⟨-, ⟨count, hsame⟩, -, -⟩ := hambiguous
      cases count with
      | zero =>
        rw [hsame] at hvalues
        exact absurd hvalues.symm (by simp [copies])
      | succ count =>
        rw [copies_succ, Descriptor.values] at hsame
        have hunit := List.append_inj_left hsame (by simp [signatureBytes])
        have hnumber := congrArg fromLeBytes hunit
        rw [signatureBytes, fromLeBytes_toLeBytes, fromLeBytes_toLeBytes,
          Nat.mod_eq_of_lt hfits.crc32_lt] at hnumber
        exact hcrc hnumber

theorem validateDescriptor_width {crc compressed uncompressed : Nat} {zip64 : Bool}
    (hwidth : zip64 ≠ descriptor.zip64) :
    validateDescriptor bytes offset crc compressed uncompressed zip64 directoryOffset ≠
      .ok (offset + descriptor.bytes.length) := by
  intro h
  obtain ⟨signed, -, -, -, hfinish⟩ := validateDescriptor_ok hlen h
  rw [Descriptor.length_bytes, Descriptor.length_bytes, Descriptor.sizeWidth,
    Descriptor.sizeWidth] at hfinish
  revert hfinish hwidth
  cases zip64 <;> cases descriptor.zip64 <;> cases signed <;> cases descriptor.signed <;>
    simp only [Bool.false_eq_true, if_true, if_false, ne_eq, not_true_eq_false, false_implies,
      reduceCtorEq, not_false_eq_true, true_implies] <;> omega

end

theorem leUint_of_drop {bytes : List UInt8} (hlen : bytes.length < 2 ^ 64) {width value : Nat}
    (hlt : value < 256 ^ width) (h : bytes.drop offset = toLeBytes width value ++ rest)
    (hoffset : offset ≤ bytes.length) (detail : String) :
    leUint width bytes offset detail = .ok value := by
  have hnext := drop_of_append h
  have hcount := congrArg List.length h
  rw [length_drop, length_append, length_toLeBytes] at hcount
  rw [length_toLeBytes] at hnext
  exact (leUint_eq_ok hlen).mpr ⟨by omega, hlt, by rw [hnext, h]⟩

theorem parseLocalFixed_eq {bytes : List UInt8} (hlen : bytes.length < 2 ^ 64)
    {versionNeeded modifiedTime modifiedDate : Nat} {fixed : LocalFixed} (hfits : fixed.Fits)
    (hoffset : offset ≤ bytes.length) (h : bytes.drop offset =
      localFixedPart versionNeeded modifiedTime modifiedDate fixed ++ rest) :
    parseLocalFixed bytes offset = .ok fixed := by
  have hpart := checkedRange_of_drop hlen hoffset h "local-header fixed range overflows"
    "local-header fixed record is truncated"
  rw [length_localFixedPart] at hpart
  have hcount := length_localFixedPart versionNeeded modifiedTime modifiedDate fixed
  generalize hwhole : localFixedPart versionNeeded modifiedTime modifiedDate fixed = part
    at hpart hcount
  -- The fields, each behind the ones before it.
  have hsignature : part.drop 0 = localFixedPart versionNeeded modifiedTime modifiedDate fixed :=
    hwhole.symm
  rw [localFixedPart] at hsignature
  have hversion := drop_of_append hsignature
  have hflags := drop_of_append hversion
  have hmethod := drop_of_append hflags
  have htime := drop_of_append hmethod
  have hdate := drop_of_append htime
  have hcrc := drop_of_append hdate
  have hcompressed := drop_of_append hcrc
  have huncompressed := drop_of_append hcompressed
  have hname := drop_of_append huncompressed
  have hextra := drop_of_append hname
  simp only [length_toLeBytes, Nat.zero_add, Nat.reduceAdd] at hflags hmethod hcrc hcompressed
  simp only [length_toLeBytes, Nat.zero_add, Nat.reduceAdd] at huncompressed hname hextra
  rw [← List.append_nil (toLeBytes 2 fixed.extraLength)] at hextra
  rw [localFixedBytes] at hcount
  have hsmall : part.length < 2 ^ 64 := by omega
  unfold parseLocalFixed leU16 leU32
  rw [hpart, ok_bind, leUint_of_drop hsmall (by decide) hsignature (by omega),
    ok_bind, rejectIf_of_not (not_not.mpr rfl), ok_bind,
    leUint_of_drop hsmall hfits.flags_lt hflags (by omega), ok_bind,
    leUint_of_drop hsmall hfits.method_lt hmethod (by omega), ok_bind,
    leUint_of_drop hsmall hfits.crc32_lt hcrc (by omega), ok_bind,
    leUint_of_drop hsmall hfits.compressedSize_lt hcompressed (by omega), ok_bind,
    leUint_of_drop hsmall hfits.uncompressedSize_lt huncompressed (by omega), ok_bind,
    leUint_of_drop hsmall hfits.nameLength_lt hname (by omega), ok_bind,
    leUint_of_drop hsmall hfits.extraLength_lt hextra (by omega)]
  rfl

theorem resolveCentral_descriptor {fixed : CentralFixed} {extra : List UInt8}
    {resolved : ResolvedCentral} (h : resolveCentral fixed extra = .ok resolved) :
    resolved.descriptorUsesZip64 =
      decide (fixed.uncompressedSize = u32Max ∨ fixed.compressedSize = u32Max) := by
  unfold resolveCentral at h
  split at h
  · next hplain =>
    cases h
    exact (decide_eq_false (not_or.mpr ⟨hplain.1, hplain.2.1⟩)).symm
  · simp only [bind_eq_ok] at h
    obtain ⟨_, -, _, -, _, -, _, -, _, -, _, -, _, -, h⟩ := h
    cases h
    rfl

/-- An entry whose sizes follow its data, and its central record with the true ones. -/
structure StreamedEntry where
  header : LocalHeader
  fields : List ExtraField
  data : List UInt8
  uncompressedSize : Nat
  signed : Bool
  central : CentralFixed
  centralExtra : List UInt8
  resolved : ResolvedCentral
  aes : Option ParsedAes
  extra_eq : header.extra = extraBytes fields
  fields_fit : ∀ field ∈ fields, field.Fits
  flags_eq : header.fixed.flags = central.flags
  method_eq : header.fixed.method = central.method
  streamed : central.flags &&& flagDataDescriptor ≠ 0
  crc32_lt : central.crc32 < 256 ^ 4
  centralAes_eq : parseAes centralExtra central.method = .ok aes
  localAes_eq : parseAes header.extra central.method = .ok aes
  resolved_eq : resolveCentral central centralExtra = .ok resolved
  compressed_eq : resolved.compressedSize = data.length
  uncompressed_eq : resolved.uncompressedSize = uncompressedSize
  compressed_escaped : central.compressedSize = u32Max ↔ u32Max ≤ data.length
  uncompressed_escaped : central.uncompressedSize = u32Max ↔ u32Max ≤ uncompressedSize
  uncompressed_lt : uncompressedSize < 2 ^ 64

namespace StreamedEntry

variable (entry : StreamedEntry)

/-- The local header carries a ZIP64 field, or a size does not fit in 32 bits. -/
def Wide : Prop :=
  bodiesOf entry.fields extraZip64 ≠ [] ∨ 2 ^ 32 ≤ entry.data.length ∨
    2 ^ 32 ≤ entry.uncompressedSize

instance : Decidable entry.Wide := inferInstanceAs (Decidable (_ ∨ _))

/-- A size is left to the ZIP64 field of the central record. -/
def Escapes : Prop := u32Max ≤ entry.data.length ∨ u32Max ≤ entry.uncompressedSize

instance : Decidable entry.Escapes := inferInstanceAs (Decidable (_ ∨ _))

def descriptor : Descriptor where
  signed := entry.signed
  zip64 := decide entry.Wide
  crc32 := entry.central.crc32
  compressedSize := entry.data.length
  uncompressedSize := entry.uncompressedSize

def bytes : List UInt8 := entry.header.bytes ++ entry.data ++ entry.descriptor.bytes

theorem descriptor_fits (hdata : entry.data.length < 2 ^ 64) : entry.descriptor.Fits := by
  have huncompressed := entry.uncompressed_lt
  have hwidth : entry.descriptor.sizeWidth = if entry.Wide then 8 else 4 := by
    unfold Descriptor.sizeWidth descriptor
    by_cases h : entry.Wide
    · rw [if_pos h, decide_eq_true h]
      rfl
    · rw [if_neg h, decide_eq_false h]
      rfl
  by_cases hwide : entry.Wide
  · rw [if_pos hwide] at hwidth
    refine ⟨entry.crc32_lt, ?_, ?_⟩
    · rw [hwidth]
      exact hdata
    · rw [hwidth]
      exact huncompressed
  · rw [if_neg hwide] at hwidth
    have hsmall : entry.data.length < 2 ^ 32 ∧ entry.uncompressedSize < 2 ^ 32 := by
      unfold Wide at hwide
      omega
    refine ⟨entry.crc32_lt, ?_, ?_⟩
    · rw [hwidth]
      exact hsmall.1
    · rw [hwidth]
      exact hsmall.2

theorem validateLocal_descriptor {front : List UInt8}
    (hlen : (front ++ entry.bytes ++ rest).length < 2 ^ 64)
    (hbefore : (front ++ entry.bytes).length ≤ directoryOffset) :
    validateLocal (front ++ entry.bytes ++ rest) front.length entry.header.name entry.centralExtra
      entry.central entry.resolved directoryOffset = (do
        let finish ← validateDescriptor (front ++ entry.bytes ++ rest)
          (front ++ entry.header.bytes ++ entry.data).length entry.central.crc32
          entry.data.length entry.uncompressedSize entry.resolved.descriptorUsesZip64
          directoryOffset
        return ⟨(front ++ entry.header.bytes).length,
          (front ++ entry.header.bytes ++ entry.data).length, finish⟩) := by
  have hfits := entry.header.fits
  have hheader := entry.header.length_bytes
  have hnameLength := entry.header.nameLength_eq
  have hextraLength := entry.header.extraLength_eq
  have hnameLt := hfits.nameLength_lt
  have hextraLt := hfits.extraLength_lt
  generalize hbytes : front ++ entry.bytes ++ rest = whole at hlen ⊢
  have hcount := congrArg List.length hbytes
  simp only [StreamedEntry.bytes, length_append] at hcount hbefore
  -- The header, its variable part and the data, where they stand.
  have hdrop : whole.drop front.length = localFixedPart entry.header.versionNeeded
      entry.header.modifiedTime entry.header.modifiedDate entry.header.fixed ++
        ((entry.header.name ++ entry.header.extra) ++
          (entry.data ++ (entry.descriptor.bytes ++ rest))) := by
    rw [← hbytes, append_assoc, drop_left, StreamedEntry.bytes, LocalHeader.bytes]
    simp only [append_assoc]
  have hfixed := parseLocalFixed_eq hlen hfits (by omega) hdrop
  have hvariable := drop_of_append hdrop
  rw [length_localFixedPart] at hvariable
  have hcontent := checkedRange_of_drop hlen (by omega) hvariable
    "local-header variable range overflows" "local-header variable range is truncated"
  rw [length_append] at hcontent
  have hname : getRange (entry.header.name ++ entry.header.extra) 0 entry.header.name.length =
      some entry.header.name :=
    getRange_of_drop (Nat.zero_le _) List.drop_zero (Nat.zero_add _)
  have hextra : getRange (entry.header.name ++ entry.header.extra) entry.header.name.length
      (entry.header.name ++ entry.header.extra).length = some entry.header.extra := by
    have hrest : (entry.header.name ++ entry.header.extra).drop entry.header.name.length =
        entry.header.extra ++ [] := by rw [drop_left, List.append_nil]
    exact getRange_of_drop (by rw [length_append]; omega) hrest length_append.symm
  have hvalid : validateExtraFields entry.header.extra = .ok () :=
    validateExtraFields_eq (by omega) entry.fields_fit entry.extra_eq
  have hstart : front.length + localFixedBytes +
      (entry.header.name.length + entry.header.extra.length) =
        (front ++ entry.header.bytes).length := by
    rw [length_append, hheader]
    omega
  have hend : (front ++ entry.header.bytes).length + entry.data.length =
      (front ++ entry.header.bytes ++ entry.data).length := length_append.symm
  have hendLe : (front ++ entry.header.bytes ++ entry.data).length ≤ directoryOffset := by
    simp only [length_append]
    omega
  have hendLt : (front ++ entry.header.bytes ++ entry.data).length < 2 ^ 64 := by
    simp only [length_append]
    omega
  unfold validateLocal
  rw [hfixed, ok_bind,
    rejectIf_of_not (by rw [entry.flags_eq, entry.method_eq]; simp), ok_bind,
    checkedAdd_of_lt (by omega), okOr_some, ok_bind, checkedAdd_of_lt (by omega), okOr_some,
    ok_bind, hnameLength, hextraLength, hcontent, ok_bind, hname, okOr_some,
    ok_bind, hextra, okOr_some, ok_bind, rejectIf_of_not (not_not.mpr rfl),
    ok_bind, hvalid, ok_bind, entry.centralAes_eq, ok_bind, entry.method_eq,
    entry.localAes_eq, ok_bind, rejectIf_of_not (not_not.mpr rfl), ok_bind,
    checkedAdd_of_lt (by omega), okOr_some, ok_bind, hstart, entry.compressed_eq,
    checkedAdd_of_lt (by omega), okOr_some, ok_bind, hend,
    rejectIf_of_not (by omega), ok_bind, validateSizes, if_pos (by
      rw [entry.flags_eq]
      exact entry.streamed), entry.compressed_eq, entry.uncompressed_eq]

/-- A streamed entry is accepted with its own end exactly when both records agree on
the width of the descriptor and its signature can be told from its checksum. -/
theorem validateLocal_streamed_iff {front rest : List UInt8}
    (hlen : (front ++ entry.bytes ++ rest).length < 2 ^ 64) {directoryOffset : Nat}
    (hbefore : (front ++ entry.bytes).length ≤ directoryOffset) :
    (∃ range, validateLocal (front ++ entry.bytes ++ rest) front.length entry.header.name
        entry.centralExtra entry.central entry.resolved directoryOffset = .ok range ∧
      range.recordEnd = (front ++ entry.bytes).length) ↔
    (entry.Wide ↔ entry.Escapes) ∧
      ¬entry.descriptor.Ambiguous rest (front ++ entry.bytes).length directoryOffset := by
  have hshape : front ++ entry.bytes ++ rest =
      (front ++ entry.header.bytes ++ entry.data) ++ (entry.descriptor.bytes ++ rest) := by
    simp only [StreamedEntry.bytes, append_assoc]
  have hend : (front ++ entry.bytes).length =
      (front ++ entry.header.bytes ++ entry.data).length + entry.descriptor.bytes.length := by
    simp only [StreamedEntry.bytes, length_append]
    omega
  have hdrop : (front ++ entry.bytes ++ rest).drop
      (front ++ entry.header.bytes ++ entry.data).length = entry.descriptor.bytes ++ rest := by
    rw [hshape, drop_left]
  have hoffset : (front ++ entry.header.bytes ++ entry.data).length ≤
      (front ++ entry.bytes ++ rest).length := by
    have hall :
        (front ++ entry.bytes ++ rest).length = (front ++ entry.bytes).length + rest.length :=
      length_append
    omega
  have hdata : entry.data.length < 2 ^ 64 := by
    have hpart : (front ++ entry.header.bytes ++ entry.data).length =
        (front ++ entry.header.bytes).length + entry.data.length := length_append
    omega
  have hwidth : entry.resolved.descriptorUsesZip64 = decide entry.Escapes := by
    rw [resolveCentral_descriptor entry.resolved_eq]
    refine decide_eq_decide.mpr ?_
    rw [entry.uncompressed_escaped, entry.compressed_escaped]
    exact or_comm
  have hrun : ∀ finish, validateDescriptor (front ++ entry.bytes ++ rest)
      (front ++ entry.header.bytes ++ entry.data).length entry.central.crc32 entry.data.length
      entry.uncompressedSize entry.resolved.descriptorUsesZip64 directoryOffset = .ok finish ↔
        ∃ range, validateLocal (front ++ entry.bytes ++ rest) front.length entry.header.name
          entry.centralExtra entry.central entry.resolved directoryOffset = .ok range ∧
            range.recordEnd = finish := by
    intro finish
    rw [entry.validateLocal_descriptor hlen hbefore]
    constructor
    · intro h
      rw [h]
      exact ⟨_, rfl, rfl⟩
    · rintro ⟨range, h, rfl⟩
      obtain ⟨finish, hfinish, h⟩ := bind_eq_ok.mp h
      cases h
      exact hfinish
  rw [← hrun]
  by_cases hsame : entry.Wide ↔ entry.Escapes
  · have hzip64 : entry.resolved.descriptorUsesZip64 = entry.descriptor.zip64 := by
      rw [hwidth]
      exact decide_eq_decide.mpr hsame.symm
    have hiff := validateDescriptor_iff hlen (entry.descriptor_fits hdata) hoffset hdrop
      (hend ▸ hbefore)
    rw [hzip64, hend]
    exact hiff.trans ⟨fun h => ⟨hsame, h⟩, fun h => h.2⟩
  · have hzip64 : entry.resolved.descriptorUsesZip64 ≠ entry.descriptor.zip64 := by
      rw [hwidth]
      exact fun heq => hsame (decide_eq_decide.mp heq).symm
    rw [hend]
    exact ⟨fun h => absurd h (validateDescriptor_width hlen hzip64), fun h => absurd h.1 hsame⟩

end StreamedEntry

def streamedByte : StreamedEntry where
  header :=
    { versionNeeded := 45
      modifiedTime := 0
      modifiedDate := 0
      fixed := ⟨flagDataDescriptor, 0, 0, u32Max, u32Max, 1, 20⟩
      name := [0x61]
      extra := extraBytes [⟨extraZip64, List.replicate 16 0⟩]
      fits := by constructor <;> decide
      nameLength_eq := rfl
      extraLength_eq := rfl }
  fields := [⟨extraZip64, List.replicate 16 0⟩]
  data := [0x61]
  uncompressedSize := 1
  signed := true
  central :=
    { versionMadeBy := 45
      versionNeeded := 45
      flags := flagDataDescriptor
      method := 0
      modifiedTime := 0
      modifiedDate := 0
      crc32 := 0xe8b7be43
      compressedSize := 1
      uncompressedSize := 1
      nameLength := 1
      extraLength := 0
      commentLength := 0
      diskStart := 0
      internalAttributes := 0
      externalAttributes := 0
      localHeaderOffset := 0 }
  centralExtra := []
  resolved := ⟨1, 1, 0, 0, false⟩
  aes := none
  extra_eq := rfl
  fields_fit := List.forall_mem_singleton.mpr ⟨by decide, by decide⟩
  flags_eq := rfl
  method_eq := rfl
  streamed := by decide
  crc32_lt := by decide
  centralAes_eq := rfl
  localAes_eq := rfl
  resolved_eq := rfl
  compressed_eq := rfl
  uncompressed_eq := rfl
  compressed_escaped := by decide
  uncompressed_escaped := by decide
  uncompressed_lt := by decide

/-- It is refused. -/
theorem streamed_zip64_refused : ¬∀ (entry : StreamedEntry) (front rest : List UInt8)
    (directoryOffset : Nat), (front ++ entry.bytes ++ rest).length < 2 ^ 64 →
      (front ++ entry.bytes).length ≤ directoryOffset →
      ∃ range, validateLocal (front ++ entry.bytes ++ rest) front.length entry.header.name
        entry.centralExtra entry.central entry.resolved directoryOffset = .ok range ∧
          range.recordEnd = (front ++ entry.bytes).length := by
  intro h
  obtain ⟨range, haccepted, -⟩ := h streamedByte [] [] 76 (by decide) (by decide)
  have hrefused : validateLocal ([] ++ streamedByte.bytes ++ []) ([] : List UInt8).length
      streamedByte.header.name streamedByte.centralExtra streamedByte.central
      streamedByte.resolved 76 =
        .error (zipFormat "data descriptor disagrees with the central entry") := rfl
  cases hrefused.symm.trans haccepted

theorem validateLocal_streamed_iff_byte :
    (∃ range, validateLocal ([] ++ streamedByte.bytes ++ []) ([] : List UInt8).length
        streamedByte.header.name streamedByte.centralExtra streamedByte.central
        streamedByte.resolved 76 = .ok range ∧
      range.recordEnd = ([] ++ streamedByte.bytes).length) ↔
    (streamedByte.Wide ↔ streamedByte.Escapes) ∧
      ¬streamedByte.descriptor.Ambiguous [] ([] ++ streamedByte.bytes).length 76 :=
  streamedByte.validateLocal_streamed_iff (by decide) (by decide)

end Zip
end Unpackio
