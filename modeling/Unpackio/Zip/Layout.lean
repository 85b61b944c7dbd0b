/-
The records of a ZIP file as they stand in its bytes.

Each record is a structure with the bytes that its writer puts down.  The
parsers are shown to accept only such bytes, so what they compare are fields of
records that are there.
-/
import Unpackio.Zip.Parse

namespace Unpackio
namespace Zip

open List (append_assoc append_nil flatMap_cons length_append length_drop)
open Except (bind_eq_ok ok_bind)

theorem leUint_eq_ok {bytes : List UInt8} (hlen : bytes.length < 2 ^ 64)
    {width offset value : Nat} {detail : String} :
    leUint width bytes offset detail = .ok value ↔
      offset + width ≤ bytes.length ∧ value < 256 ^ width ∧
        bytes.drop offset = toLeBytes width value ++ bytes.drop (offset + width) := by
  simp only [leUint, bind_eq_ok, checkedRange_iff_drop hlen]
  constructor
  · rintro ⟨out, ⟨hle, hcount, hdrop⟩, hvalue⟩
    cases hvalue
    refine ⟨hle, hcount ▸ fromLeBytes_lt out, ?_⟩
    rw [← hcount, toLeBytes_fromLeBytes, hcount]
    exact hdrop
  · rintro ⟨hle, hlt, hdrop⟩
    refine ⟨toLeBytes width value, ⟨hle, length_toLeBytes width value, hdrop⟩, ?_⟩
    rw [fromLeBytes_toLeBytes, Nat.mod_eq_of_lt hlt]
    rfl

theorem exists_field {bytes : List UInt8} {offset width : Nat}
    (h : offset + width ≤ bytes.length) :
    ∃ value < 256 ^ width,
      bytes.drop offset = toLeBytes width value ++ bytes.drop (offset + width) := by
  have hcount : ((bytes.drop offset).take width).length = width := by
    rw [List.length_take, length_drop]
    omega
  have hlt := fromLeBytes_lt ((bytes.drop offset).take width)
  have hbytes := toLeBytes_fromLeBytes ((bytes.drop offset).take width)
  rw [hcount] at hlt hbytes
  refine ⟨_, hlt, ?_⟩
  rw [hbytes, ← List.drop_drop, List.take_append_drop]

theorem getRange_split {α : Type} {content front : List α} {middle : Nat}
    (hfront : getRange content 0 middle = some front) :
    front.length = middle ∧ content = front ++ content.drop middle := by
  obtain ⟨-, hle, rfl⟩ := getRange_eq_some.mp hfront
  rw [List.drop_zero, List.length_take, List.take_append_drop]
  exact ⟨by omega, rfl⟩

theorem getRange_from {α : Type} {content rest : List α} {start : Nat}
    (h : getRange content start content.length = some rest) : content.drop start = rest := by
  obtain ⟨-, -, rfl⟩ := getRange_eq_some.mp h
  rw [List.take_length]

/-! ## Extra fields -/

structure ExtraField where
  identifier : Nat
  body : List UInt8
  deriving DecidableEq, Repr

namespace ExtraField

def bytes (field : ExtraField) : List UInt8 :=
  toLeBytes 2 field.identifier ++ (toLeBytes 2 field.body.length ++ field.body)

structure Fits (field : ExtraField) : Prop where
  identifier_lt : field.identifier < 256 ^ 2
  length_lt : field.body.length < 256 ^ 2

@[simp] theorem length_bytes (field : ExtraField) : field.bytes.length = 4 + field.body.length := by
  simp only [bytes, length_append, length_toLeBytes]
  omega

end ExtraField

def extraBytes (fields : List ExtraField) : List UInt8 := fields.flatMap ExtraField.bytes

def bodiesOf (fields : List ExtraField) (identifier : Nat) : List (List UInt8) :=
  (fields.filter fun field => field.identifier = identifier).map ExtraField.body

theorem bodiesOf_cons (field : ExtraField) (fields : List ExtraField) (identifier : Nat) :
    bodiesOf (field :: fields) identifier =
      (if field.identifier = identifier then [field.body] else []) ++
        bodiesOf fields identifier := by
  by_cases h : field.identifier = identifier <;> simp [bodiesOf, h]

variable {fields : List ExtraField} {identifier : Nat}

theorem length_of_bodiesOf {body : List UInt8} (hfits : ∀ field ∈ fields, field.Fits)
    (h : body ∈ bodiesOf fields identifier) : body.length < 2 ^ 64 := by
  obtain ⟨field, hmem, rfl⟩ := List.mem_map.mp h
  exact Nat.lt_trans (hfits field (List.mem_filter.mp hmem).1).length_lt (by decide)

/-- What a search makes of the bodies with its identifier. -/
def uniqueBody : List (List UInt8) → Except Error (Option (List UInt8))
  | [] => .ok none
  | [body] => .ok (some body)
  | _ :: _ :: _ => .error (zipFormat "critical ZIP extra field is duplicated")

theorem uniqueBody_eq_ok {bodies : List (List UInt8)} {result : Option (List UInt8)} :
    uniqueBody bodies = .ok result ↔ bodies = result.toList := by
  match bodies, result with
  | [], none => exact ⟨fun _ => rfl, fun _ => rfl⟩
  | [], some _ => exact ⟨fun h => (nomatch h), fun h => (nomatch h)⟩
  | [_], none => exact ⟨fun h => (nomatch h), fun h => (nomatch h)⟩
  | [_], some _ => exact ⟨fun h => by cases h; rfl, fun h => by cases h; rfl⟩
  | _ :: _ :: _, none => exact ⟨fun h => (nomatch h), fun h => (nomatch h)⟩
  | _ :: _ :: _, some _ => exact ⟨fun h => (nomatch h), fun h => (nomatch h)⟩

section

variable {bytes : List UInt8} (hlen : bytes.length < 2 ^ 64)
include hlen

theorem validateExtraLoop_fields {fuel position : Nat} (hfuel : bytes.length ≤ position + fuel)
    (h : validateExtraLoop bytes fuel position = .ok bytes.length)
    (hposition : position ≤ bytes.length) :
    ∃ fields, bytes.drop position = extraBytes fields ∧ ∀ field ∈ fields, field.Fits := by
  induction fuel generalizing position with
  | zero =>
    refine ⟨[], ?_, fun _ hmem => nomatch hmem⟩
    rw [List.drop_eq_nil_of_le (by omega)]
    rfl
  | succ fuel ih =>
    rw [validateExtraLoop] at h
    by_cases hmore : position < bytes.length
    · rw [if_pos hmore] at h
      simp only [advance, leU16, bind_eq_ok, okOr_eq_ok, checkedAdd_eq_some,
        checkedRange_iff_drop hlen] at h
      obtain ⟨header, ⟨hheaderFits, hheaderCount, hheader⟩, bodyLength, hbodyLength, _, ⟨-, rfl⟩,
        body, ⟨hbodyFits, hbodyCount, hbody⟩, _, ⟨-, rfl⟩, h⟩ := h
      obtain ⟨hlengthFits, hlengthLt, hlength⟩ := (leUint_eq_ok (by omega)).mp hbodyLength
      obtain ⟨identifier, hidentifier, hfield⟩ :=
        exists_field (show 0 + 2 ≤ header.length by omega)
      rw [List.drop_zero, hlength, List.drop_eq_nil_of_le (by omega : header.length ≤ 2 + 2),
        append_nil] at hfield
      obtain ⟨fields, hfields, hfits⟩ := ih (by omega) h (by omega)
      refine ⟨⟨identifier, body⟩ :: fields, ?_, List.forall_mem_cons.mpr
        ⟨⟨hidentifier, hbodyCount ▸ hlengthLt⟩, hfits⟩⟩
      rw [extraBytes, flatMap_cons, ← extraBytes, ExtraField.bytes, hheader, hbody, hfields,
        hfield, hbodyCount]
      simp only [append_assoc]
    · refine ⟨[], ?_, fun _ hmem => nomatch hmem⟩
      rw [List.drop_eq_nil_of_le (by omega)]
      rfl

theorem exists_extraFields (h : validateExtraFields bytes = .ok ()) :
    ∃ fields, bytes = extraBytes fields ∧ ∀ field ∈ fields, field.Fits := by
  obtain ⟨position, hloop, hend⟩ := bind_eq_ok.mp h
  have hend := not_not.mp (rejectIf_eq_ok.mp hend)
  subst hend
  exact validateExtraLoop_fields hlen (by omega) hloop (Nat.zero_le _)

variable (hfits : ∀ field ∈ fields, field.Fits)
include hfits

theorem validateExtraLoop_eq {fuel position : Nat} (hfuel : bytes.length ≤ position + fuel)
    (hposition : position ≤ bytes.length) (hdrop : bytes.drop position = extraBytes fields) :
    validateExtraLoop bytes fuel position = .ok bytes.length := by
  induction fields generalizing fuel position with
  | nil =>
    have hend : position = bytes.length := by
      have hcount := congrArg List.length hdrop
      rw [length_drop, extraBytes, List.flatMap_nil, List.length_nil] at hcount
      omega
    cases fuel with
    | zero => rw [hend]; rfl
    | succ fuel =>
      rw [validateExtraLoop, if_neg (by omega), hend]
      rfl
  | cons field fields ih =>
    obtain ⟨hfield, hfits⟩ := List.forall_mem_cons.mp hfits
    have hcount := congrArg List.length hdrop
    rw [extraBytes, flatMap_cons, ← extraBytes] at hdrop
    rw [length_drop, extraBytes, flatMap_cons, length_append,
      ExtraField.length_bytes] at hcount
    have hnext := drop_of_append hdrop
    rw [ExtraField.length_bytes, ← Nat.add_assoc] at hnext
    have hheaderCount :
        (toLeBytes 2 field.identifier ++ toLeBytes 2 field.body.length).length = 4 := by
      rw [length_append, length_toLeBytes, length_toLeBytes]
    have hshape : bytes.drop position = (toLeBytes 2 field.identifier ++
        toLeBytes 2 field.body.length) ++ (field.body ++ extraBytes fields) := by
      rw [hdrop, ExtraField.bytes]
      simp only [append_assoc]
    have hheader := checkedRange_of_drop hlen hposition hshape
      "ZIP extra-field header range overflows" "ZIP extra-field header is truncated"
    have hbodyDrop := drop_of_append hshape
    rw [hheaderCount] at hheader hbodyDrop
    have hbody := checkedRange_of_drop hlen (by omega) hbodyDrop
      "ZIP extra-field body range overflows" "ZIP extra-field body is truncated"
    have hlength : leU16 (toLeBytes 2 field.identifier ++ toLeBytes 2 field.body.length) 2
        "ZIP extra-field length is truncated" = .ok field.body.length := by
      refine (leUint_eq_ok (by omega)).mpr ⟨by omega, hfield.length_lt, ?_⟩
      rw [List.drop_left' (length_toLeBytes 2 _), List.drop_of_length_le
        (Nat.le_of_eq hheaderCount),
        append_nil]
    cases fuel with
    | zero => omega
    | succ fuel =>
      rw [validateExtraLoop, if_pos (by omega), hheader, ok_bind, hlength, ok_bind, advance,
        checkedAdd_bind (by omega), hbody, ok_bind, advance, checkedAdd_bind (by omega)]
      exact ih hfits (by omega) (by omega) hnext

theorem validateExtraFields_eq (hbytes : bytes = extraBytes fields) :
    validateExtraFields bytes = .ok () := by
  rw [validateExtraFields, validateExtraLoop_eq hlen hfits (by omega) (Nat.zero_le _) hbytes,
    ok_bind]
  exact rejectIf_of_not (not_not.mpr rfl) _

theorem findExtraLoop_fields {fuel position : Nat} {found : Option (List UInt8)}
    (hfuel : bytes.length ≤ position + fuel) (hposition : position ≤ bytes.length)
    (hdrop : bytes.drop position = extraBytes fields) :
    findExtraLoop bytes identifier fuel position found =
      uniqueBody (found.toList ++ bodiesOf fields identifier) := by
  induction fields generalizing fuel position found with
  | nil =>
    have hend : ¬position < bytes.length := by
      have hcount := congrArg List.length hdrop
      rw [length_drop, extraBytes, List.flatMap_nil, List.length_nil] at hcount
      omega
    have hresult : findExtraLoop bytes identifier fuel position found = .ok found := by
      cases fuel with
      | zero => rfl
      | succ fuel =>
        rw [findExtraLoop, if_neg hend]
        rfl
    rw [hresult, bodiesOf, List.filter_nil, List.map_nil, append_nil]
    cases found <;> rfl
  | cons field fields ih =>
    obtain ⟨hfield, hfits⟩ := List.forall_mem_cons.mp hfits
    have hcount := congrArg List.length hdrop
    rw [extraBytes, flatMap_cons, ← extraBytes] at hdrop
    rw [length_drop, extraBytes, flatMap_cons, length_append,
      ExtraField.length_bytes] at hcount
    have hnext := drop_of_append hdrop
    rw [ExtraField.length_bytes] at hnext
    rw [ExtraField.bytes, append_assoc, append_assoc] at hdrop
    have hlengthDrop := drop_of_append hdrop
    have hbodyDrop := drop_of_append hlengthDrop
    rw [length_toLeBytes] at hlengthDrop hbodyDrop
    rw [length_toLeBytes] at hbodyDrop
    have hidentifier : ∀ detail, leU16 bytes position detail = .ok field.identifier := fun detail =>
      (leUint_eq_ok hlen).mpr ⟨by omega, hfield.identifier_lt, by rw [hlengthDrop, hdrop]⟩
    have hlength : ∀ detail, leU16 bytes (position + 2) detail = .ok field.body.length :=
      fun detail => (leUint_eq_ok hlen).mpr ⟨by omega, hfield.length_lt, by
        rw [hbodyDrop, hlengthDrop]⟩
    have hbody := checkedRange_of_drop hlen (by omega) hbodyDrop "ZIP extra-field range overflows"
      "ZIP extra-field body is truncated"
    cases fuel with
    | zero => omega
    | succ fuel =>
      rw [findExtraLoop, if_pos (by omega), hidentifier, ok_bind, advance,
        checkedAdd_bind (by omega), hlength, ok_bind, advance, checkedAdd_bind (by omega), hbody,
        ok_bind, bodiesOf_cons]
      rw [← Nat.add_assoc] at hnext
      have hrest : ∀ found, findExtraLoop bytes identifier fuel (position + 4 + field.body.length)
          found = uniqueBody (found.toList ++ bodiesOf fields identifier) :=
        fun found => ih hfits (by omega) (by omega) hnext
      by_cases hsame : field.identifier = identifier
      · cases found with
        | none =>
          rw [rejectIf_of_not fun h => Bool.false_ne_true h.2, ok_bind, advance,
            checkedAdd_bind (by omega), if_pos hsame, if_pos hsame]
          exact hrest _
        | some body =>
          rw [rejectIf_of ⟨hsame, rfl⟩, Except.error_bind, if_pos hsame]
          rfl
      · rw [rejectIf_of_not fun h => hsame h.1, ok_bind, advance, checkedAdd_bind (by omega),
          if_neg hsame, if_neg hsame, List.nil_append]
        exact hrest _

variable (hbytes : bytes = extraBytes fields)
include hbytes

theorem findUniqueExtra_eq :
    findUniqueExtra bytes identifier = uniqueBody (bodiesOf fields identifier) :=
  findExtraLoop_fields hlen hfits (by omega) (Nat.zero_le _) hbytes

theorem findUniqueExtra_fields {result : Option (List UInt8)}
    (h : findUniqueExtra bytes identifier = .ok result) :
    bodiesOf fields identifier = result.toList :=
  uniqueBody_eq_ok.mp ((findUniqueExtra_eq hlen hfits hbytes).symm.trans h)

theorem findUniqueExtra_body {body : List UInt8} (hbody : bodiesOf fields identifier = [body]) :
    findUniqueExtra bytes identifier = .ok (some body) ∧ body.length < 2 ^ 64 := by
  refine ⟨?_, length_of_bodiesOf hfits (?_ : body ∈ bodiesOf fields identifier)⟩
  · rw [findUniqueExtra_eq hlen hfits hbytes, hbody]
    rfl
  · rw [hbody]
    exact List.mem_singleton_self body

end

end Zip
end Unpackio
