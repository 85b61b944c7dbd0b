/-
ZIP64 fields: the values that a fixed record leaves to them, and what the parser
makes of the two together.

A value that fits its fixed field may be left to the ZIP64 field all the same, but
the value of all ones must be, since it is the mark of one that is.
-/
import Unpackio.Zip.Layout

namespace Unpackio
namespace Zip

open List (append_nil length_append nil_append)
open Except (bind_eq_ok ok_bind)

/-- A value of a record, and whether it stands in the ZIP64 field. -/
structure Escapable (width marker : Nat) where
  value : Nat
  escaped : Bool
  value_lt : value < 256 ^ width
  escaped_of_le : marker ≤ value → escaped = true

namespace Escapable

variable {width marker : Nat} (slot : Escapable width marker)

/-- What the fixed record holds. -/
def stored : Nat := if slot.escaped then marker else slot.value

def bytes : List UInt8 := if slot.escaped then toLeBytes width slot.value else []

theorem stored_eq_iff : slot.stored = marker ↔ slot.escaped = true := by
  unfold stored
  cases h : slot.escaped with
  | true => exact ⟨fun _ => rfl, fun _ => rfl⟩
  | false =>
    rw [if_neg Bool.false_ne_true]
    refine ⟨fun heq => ?_, fun heq => absurd heq Bool.false_ne_true⟩
    rw [← h]
    exact slot.escaped_of_le (Nat.le_of_eq heq.symm)

theorem stored_of_plain (h : ¬slot.escaped = true) : slot.stored = slot.value := by
  rw [stored, if_neg h]

theorem resolveNext_eq (front rest : List UInt8) {field : List UInt8}
    (hfield : field = front ++ slot.bytes ++ rest) (hlen : field.length < 2 ^ 64)
      (truncated overflows : String) :
    resolveNext width marker slot.stored field front.length truncated overflows =
      .ok (slot.value, (front ++ slot.bytes).length) := by
  unfold resolveNext
  cases h : slot.escaped with
  | false =>
    have hstored : slot.stored = slot.value := by
      rw [stored, h, if_neg Bool.false_ne_true]
    have hbytes : slot.bytes = [] := by
      rw [bytes, h, if_neg Bool.false_ne_true]
    have hplain : slot.stored ≠ marker := fun heq => by
      rw [slot.stored_eq_iff, h] at heq
      cases heq
    rw [if_neg hplain, hstored, hbytes, append_nil]
    rfl
  | true =>
    have hbytes : slot.bytes = toLeBytes width slot.value := by
      rw [bytes, h, if_pos rfl]
    have hcount : slot.bytes.length = width := by
      rw [hbytes, length_toLeBytes]
    have hfits : (front ++ slot.bytes).length ≤ field.length := by
      have hall : field.length = (front ++ slot.bytes).length + rest.length := by
        rw [hfield, ← length_append]
      omega
    have hread : leUint width field front.length truncated = .ok slot.value := by
      refine (leUint_eq_ok hlen).mpr ⟨?_, slot.value_lt, ?_⟩
      · rw [length_append, hcount] at hfits
        exact hfits
      · have hrest : field.drop (front.length + width) = rest := by
          rw [hfield]
          exact List.drop_left' (by rw [length_append, hcount])
        rw [hrest, hfield, ← hbytes, List.append_assoc, List.drop_left]
    rw [if_pos (slot.stored_eq_iff.mpr h), hread, ok_bind, advance,
      checkedAdd_bind (by rw [length_append, hcount] at hfits; omega), length_append,
      hcount]
    rfl

end Escapable

theorem resolveNext_position {width marker fixedValue position value next : Nat}
    {field : List UInt8}
    {truncated overflows : String}
    (h : resolveNext width marker fixedValue field position truncated overflows =
      .ok (value, next)) : next = position + if fixedValue = marker then width else 0 := by
  unfold resolveNext at h
  by_cases hmark : fixedValue = marker
  · rw [if_pos hmark] at h
    obtain ⟨read, -, h⟩ := bind_eq_ok.mp h
    obtain ⟨after, hafter, h⟩ := bind_eq_ok.mp h
    obtain ⟨-, rfl⟩ := checkedAdd_eq_ok.mp hafter
    cases h
    rw [if_pos hmark]
  · rw [if_neg hmark] at h
    cases h
    rw [if_neg hmark]
    rfl

structure CentralValues where
  uncompressed : Escapable 8 u32Max
  compressed : Escapable 8 u32Max
  localHeaderOffset : Escapable 8 u32Max
  diskStart : Escapable 4 u16Max

namespace CentralValues

variable (values : CentralValues)

def body : List UInt8 :=
  values.uncompressed.bytes ++ values.compressed.bytes ++ values.localHeaderOffset.bytes ++
    values.diskStart.bytes

structure StoredIn (fixed : CentralFixed) : Prop where
  uncompressed : fixed.uncompressedSize = values.uncompressed.stored
  compressed : fixed.compressedSize = values.compressed.stored
  localHeaderOffset : fixed.localHeaderOffset = values.localHeaderOffset.stored
  diskStart : fixed.diskStart = values.diskStart.stored

def resolved : ResolvedCentral where
  compressedSize := values.compressed.value
  uncompressedSize := values.uncompressed.value
  localHeaderOffset := values.localHeaderOffset.value
  diskStart := values.diskStart.value
  descriptorUsesZip64 := values.uncompressed.escaped || values.compressed.escaped

end CentralValues

def CentralFixed.Escapes (fixed : CentralFixed) : Prop :=
  fixed.uncompressedSize = u32Max ∨ fixed.compressedSize = u32Max ∨
    fixed.localHeaderOffset = u32Max ∨ fixed.diskStart = u16Max

def CentralFixed.escapedBytes (fixed : CentralFixed) : Nat :=
  (if fixed.uncompressedSize = u32Max then 8 else 0) +
    (if fixed.compressedSize = u32Max then 8 else 0) +
    (if fixed.localHeaderOffset = u32Max then 8 else 0) +
    if fixed.diskStart = u16Max then 4 else 0

section

variable {fields : List ExtraField} (hfits : ∀ field ∈ fields, field.Fits)
  (hlen : (extraBytes fields).length < 2 ^ 64)
include hfits hlen

theorem resolveCentral_stored {values : CentralValues} {fixed : CentralFixed}
    (hfixed : values.StoredIn fixed) (hbody : bodiesOf fields extraZip64 = [values.body]) :
    resolveCentral fixed (extraBytes fields) = .ok values.resolved := by
  have huses : (values.uncompressed.escaped || values.compressed.escaped) =
      decide (values.uncompressed.stored = u32Max ∨ values.compressed.stored = u32Max) := by
    rw [Bool.eq_iff_iff, Bool.or_eq_true, decide_eq_true_eq, Escapable.stored_eq_iff,
      Escapable.stored_eq_iff]
  unfold resolveCentral
  rw [hfixed.uncompressed, hfixed.compressed, hfixed.localHeaderOffset, hfixed.diskStart]
  by_cases hplain : values.uncompressed.stored ≠ u32Max ∧ values.compressed.stored ≠ u32Max ∧
      values.localHeaderOffset.stored ≠ u32Max ∧ values.diskStart.stored ≠ u16Max
  · obtain ⟨huncompressed, hcompressed, hoffset, hdisk⟩ := hplain
    rw [if_pos ⟨huncompressed, hcompressed, hoffset, hdisk⟩]
    rw [Ne, Escapable.stored_eq_iff] at huncompressed hcompressed hoffset hdisk
    rw [Escapable.stored_of_plain _ huncompressed, Escapable.stored_of_plain _ hcompressed,
      Escapable.stored_of_plain _ hoffset, Escapable.stored_of_plain _ hdisk,
      CentralValues.resolved, Bool.eq_false_iff.mpr huncompressed,
      Bool.eq_false_iff.mpr hcompressed]
    rfl
  · obtain ⟨hfound, hshort⟩ := findUniqueExtra_body hlen hfits rfl hbody
    -- The values stand one behind the other.
    have huncompressed := values.uncompressed.resolveNext_eq []
      (values.compressed.bytes ++ values.localHeaderOffset.bytes ++ values.diskStart.bytes)
      (by simp only [CentralValues.body, List.append_assoc, nil_append]) hshort
      "ZIP64 uncompressed size is truncated" "ZIP64 field offset overflows"
    have hcompressed := values.compressed.resolveNext_eq ([] ++ values.uncompressed.bytes)
      (values.localHeaderOffset.bytes ++ values.diskStart.bytes)
      (by simp only [CentralValues.body, List.append_assoc, nil_append]) hshort
      "ZIP64 compressed size is truncated" "ZIP64 field offset overflows"
    have hoffset := values.localHeaderOffset.resolveNext_eq
      ([] ++ values.uncompressed.bytes ++ values.compressed.bytes) values.diskStart.bytes
      (by simp only [CentralValues.body, nil_append]) hshort
      "ZIP64 local-header offset is truncated" "ZIP64 field offset overflows"
    have hdisk := values.diskStart.resolveNext_eq
      ([] ++ values.uncompressed.bytes ++ values.compressed.bytes ++ values.localHeaderOffset.bytes)
      [] (by simp only [CentralValues.body, nil_append, append_nil]) hshort
      "ZIP64 disk number is truncated" "ZIP64 field offset overflows"
    have hend : ([] ++ values.uncompressed.bytes ++ values.compressed.bytes ++
        values.localHeaderOffset.bytes ++ values.diskStart.bytes).length = values.body.length := rfl
    rw [if_neg hplain, hfound, ok_bind, okOr_bind]
    rw [List.length_nil] at huncompressed
    rw [huncompressed, ok_bind]
    simp only
    rw [hcompressed, ok_bind]
    simp only
    rw [hoffset, ok_bind]
    simp only
    rw [hdisk, ok_bind]
    simp only
    rw [rejectIf_of_not (not_not.mpr hend), ok_bind, CentralValues.resolved, huses]
    rfl

theorem resolveCentral_field {fixed : CentralFixed} (hescapes : fixed.Escapes)
    {resolved : ResolvedCentral} (h : resolveCentral fixed (extraBytes fields) = .ok resolved) :
    ∃ body, bodiesOf fields extraZip64 = [body] ∧ body.length = fixed.escapedBytes := by
  have hplain : ¬(fixed.uncompressedSize ≠ u32Max ∧ fixed.compressedSize ≠ u32Max ∧
      fixed.localHeaderOffset ≠ u32Max ∧ fixed.diskStart ≠ u16Max) := by
    rintro ⟨huncompressed, hcompressed, hoffset, hdisk⟩
    rcases hescapes with h | h | h | h
    · exact huncompressed h
    · exact hcompressed h
    · exact hoffset h
    · exact hdisk h
  unfold resolveCentral at h
  rw [if_neg hplain] at h
  obtain ⟨found, hfound, h⟩ := bind_eq_ok.mp h
  obtain ⟨field, hfield, h⟩ := bind_eq_ok.mp h
  obtain ⟨⟨uncompressed, position⟩, huncompressed, h⟩ := bind_eq_ok.mp h
  obtain ⟨⟨compressed, position'⟩, hcompressed, h⟩ := bind_eq_ok.mp h
  obtain ⟨⟨offset, position''⟩, hoffset, h⟩ := bind_eq_ok.mp h
  obtain ⟨⟨disk, finish⟩, hdisk, h⟩ := bind_eq_ok.mp h
  obtain ⟨_, hend, -⟩ := bind_eq_ok.mp h
  have hbodies := findUniqueExtra_fields hlen hfits rfl hfound
  rw [okOr_eq_ok.mp hfield] at hbodies
  refine ⟨field, hbodies, ?_⟩
  rw [← not_not.mp (rejectIf_eq_ok.mp hend), resolveNext_position hdisk,
    resolveNext_position hoffset,
    resolveNext_position hcompressed, resolveNext_position huncompressed, Nat.zero_add]
  rfl

end

structure LocalValues where
  uncompressed : Escapable 8 u32Max
  compressed : Escapable 8 u32Max

namespace LocalValues

variable (values : LocalValues)

def body : List UInt8 := values.uncompressed.bytes ++ values.compressed.bytes

structure StoredIn (fixed : LocalFixed) : Prop where
  uncompressed : fixed.uncompressedSize = values.uncompressed.stored
  compressed : fixed.compressedSize = values.compressed.stored

end LocalValues

def LocalFixed.Escapes (fixed : LocalFixed) : Prop :=
  fixed.uncompressedSize = u32Max ∨ fixed.compressedSize = u32Max

def LocalFixed.escapedBytes (fixed : LocalFixed) : Nat :=
  (if fixed.uncompressedSize = u32Max then 8 else 0) +
    if fixed.compressedSize = u32Max then 8 else 0

section

variable {fields : List ExtraField} (hfits : ∀ field ∈ fields, field.Fits)
  (hlen : (extraBytes fields).length < 2 ^ 64)
include hfits hlen

theorem resolveLocalSizes_stored {values : LocalValues} {fixed : LocalFixed}
    (hfixed : values.StoredIn fixed) (hbody : bodiesOf fields extraZip64 = [values.body]) :
    resolveLocalSizes fixed (extraBytes fields) =
      .ok (values.compressed.value, values.uncompressed.value) := by
  unfold resolveLocalSizes
  rw [hfixed.uncompressed, hfixed.compressed]
  by_cases hplain : values.uncompressed.stored ≠ u32Max ∧ values.compressed.stored ≠ u32Max
  · obtain ⟨huncompressed, hcompressed⟩ := hplain
    rw [if_pos ⟨huncompressed, hcompressed⟩]
    rw [Ne, Escapable.stored_eq_iff] at huncompressed hcompressed
    rw [Escapable.stored_of_plain _ huncompressed, Escapable.stored_of_plain _ hcompressed]
    rfl
  · obtain ⟨hfound, hshort⟩ := findUniqueExtra_body hlen hfits rfl hbody
    have huncompressed := values.uncompressed.resolveNext_eq [] values.compressed.bytes
      (by rw [LocalValues.body, nil_append]) hshort
      "local ZIP64 uncompressed size is truncated" "local ZIP64 offset overflows"
    have hcompressed := values.compressed.resolveNext_eq ([] ++ values.uncompressed.bytes) []
      (by rw [LocalValues.body, nil_append, append_nil]) hshort
      "local ZIP64 compressed size is truncated" "local ZIP64 offset overflows"
    have hend : ([] ++ values.uncompressed.bytes ++ values.compressed.bytes).length =
        values.body.length := rfl
    rw [if_neg hplain, hfound, ok_bind, okOr_bind]
    rw [List.length_nil] at huncompressed
    rw [huncompressed, ok_bind]
    simp only
    rw [hcompressed, ok_bind]
    simp only
    rw [rejectIf_of_not (not_not.mpr hend)]
    rfl

theorem resolveLocalSizes_field {fixed : LocalFixed} (hescapes : fixed.Escapes) {sizes : Nat × Nat}
    (h : resolveLocalSizes fixed (extraBytes fields) = .ok sizes) :
    ∃ body, bodiesOf fields extraZip64 = [body] ∧ body.length = fixed.escapedBytes := by
  have hplain : ¬(fixed.uncompressedSize ≠ u32Max ∧ fixed.compressedSize ≠ u32Max) := by
    rintro ⟨huncompressed, hcompressed⟩
    exact hescapes.elim huncompressed hcompressed
  unfold resolveLocalSizes at h
  rw [if_neg hplain] at h
  obtain ⟨found, hfound, h⟩ := bind_eq_ok.mp h
  obtain ⟨field, hfield, h⟩ := bind_eq_ok.mp h
  obtain ⟨⟨uncompressed, position⟩, huncompressed, h⟩ := bind_eq_ok.mp h
  obtain ⟨⟨compressed, finish⟩, hcompressed, h⟩ := bind_eq_ok.mp h
  obtain ⟨_, hend, -⟩ := bind_eq_ok.mp h
  have hbodies := findUniqueExtra_fields hlen hfits rfl hfound
  rw [okOr_eq_ok.mp hfield] at hbodies
  refine ⟨field, hbodies, ?_⟩
  rw [← not_not.mp (rejectIf_eq_ok.mp hend), resolveNext_position hcompressed,
    resolveNext_position huncompressed, Nat.zero_add]
  rfl

/-- The values of both records are resolved whichever of them the ZIP64 field holds,
and where it should hold some, only one field of the right length will do. -/
theorem zip64_exact :
    (∀ values fixed, CentralValues.StoredIn values fixed →
      bodiesOf fields extraZip64 = [values.body] →
      resolveCentral fixed (extraBytes fields) = .ok values.resolved) ∧
    (∀ values fixed, LocalValues.StoredIn values fixed →
      bodiesOf fields extraZip64 = [values.body] →
      resolveLocalSizes fixed (extraBytes fields) =
        .ok (values.compressed.value, values.uncompressed.value)) ∧
    (∀ fixed : CentralFixed, fixed.Escapes →
      (¬∃ body, bodiesOf fields extraZip64 = [body] ∧ body.length = fixed.escapedBytes) →
      ∃ error, resolveCentral fixed (extraBytes fields) = .error error) ∧
    ∀ fixed : LocalFixed, fixed.Escapes →
      (¬∃ body, bodiesOf fields extraZip64 = [body] ∧ body.length = fixed.escapedBytes) →
      ∃ error, resolveLocalSizes fixed (extraBytes fields) = .error error := by
  refine ⟨fun values fixed hfixed hbody => resolveCentral_stored hfits hlen hfixed hbody,
    fun values fixed hfixed hbody => resolveLocalSizes_stored hfits hlen hfixed hbody, ?_, ?_⟩
  · intro fixed hescapes hbody
    cases h : resolveCentral fixed (extraBytes fields) with
    | error error => exact ⟨error, rfl⟩
    | ok resolved => exact absurd (resolveCentral_field hfits hlen hescapes h) hbody
  · intro fixed hescapes hbody
    cases h : resolveLocalSizes fixed (extraBytes fields) with
    | error error => exact ⟨error, rfl⟩
    | ok sizes => exact absurd (resolveLocalSizes_field hfits hlen hescapes h) hbody

end

/-- A compressed size beyond 32 bits next to a small uncompressed one. -/
theorem zip64_exact_compressed :
    resolveLocalSizes ⟨0, 8, 0, u32Max, 5, 0, 0⟩
      (extraBytes [⟨0x5455, [1]⟩, ⟨extraZip64, toLeBytes 8 (2 ^ 33)⟩]) = .ok (2 ^ 33, 5) :=
  (zip64_exact (List.forall_mem_cons.mpr ⟨⟨by decide, by decide⟩,
      List.forall_mem_singleton.mpr ⟨by decide, by decide⟩⟩) (by decide)).2.1
    ⟨⟨5, false, by decide, by decide⟩, ⟨2 ^ 33, true, by decide, by decide⟩⟩ _ ⟨rfl, rfl⟩ rfl

end Zip
end Unpackio
