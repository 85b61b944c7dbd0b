/-
The member reader: what it passes, and what its checksum has seen after any
schedule of reads.
-/
import Unpackio.Archive.Members

namespace Unpackio

open Prog (granted_bind granted_lift granted_lift_bind)
open Except (bind_eq_ok ok_bind)

namespace MemberReader

def range (reader : MemberReader) : List UInt8 := (reader.data.take reader.finish).drop reader.start

structure InRange (reader : MemberReader) : Prop where
  ordered : reader.start ≤ reader.finish
  within : reader.finish ≤ reader.data.length
  representable : reader.data.length < 2 ^ 64

def passed (reader : MemberReader) (position : Nat) : MemberReader :=
  { reader with position := position, checksum := Crc32.new.update (reader.range.take position) }

variable {reader : MemberReader}

theorem InRange.length_range (h : reader.InRange) :
    reader.range.length = reader.finish - reader.start := by
  rw [range, List.length_drop, List.length_take, Nat.min_eq_left h.within]

theorem InRange.memberLength_eq (h : reader.InRange) :
    reader.memberLength = .ok reader.range.length := by
  rw [memberLength, checkedSub_of_le h.ordered, okOr_some, h.length_range]

theorem InRange.source_eq (h : reader.InRange) {count : Nat}
    (hcount : reader.position + count ≤ reader.range.length) :
    reader.source count = .ok ((reader.range.drop reader.position).take count) := by
  have hlen := h.length_range
  have hordered := h.ordered
  have hwithin := h.within
  have hrepresentable := h.representable
  have hslice : (reader.data.take (reader.start + reader.position + count)).drop
      (reader.start + reader.position) = (reader.range.drop reader.position).take count := by
    rw [range, List.drop_drop, List.take_drop, List.take_take, Nat.min_eq_left (by omega)]
  rw [source, checkedAdd_bind (by omega), checkedAdd_bind (by omega), getRange, if_pos (by omega),
    okOr_some, hslice]

/-! ## Granted reads -/

theorem consume_granted (pieces : List (List UInt8)) (checksum : Crc32) :
    (consume pieces checksum).granted = .ok (checksum.update pieces.flatten) := by
  induction pieces generalizing checksum with
  | nil => rfl
  | cons piece pieces ih =>
    rw [consume, checkpoint_bind, ih, List.flatten_cons, Crc32.update_append]

theorem take_add_drop {α : Type} (l : List α) (m n : Nat) :
    l.take m ++ (l.drop m).take n = l.take (m + n) := List.take_add.symm

theorem advance_granted (h : reader.InRange) {position count : Nat}
    (hcount : position + count ≤ reader.range.length) :
    ((reader.passed position).advance count).granted =
      .ok ((reader.range.drop position).take count, reader.passed (position + count)) := by
  have hpassed : (reader.passed position).InRange := ⟨h.ordered, h.within, h.representable⟩
  have hlen := h.length_range
  have hsource : (reader.passed position).source count =
      .ok ((reader.range.drop position).take count) := hpassed.source_eq hcount
  have hrepresentable := h.representable
  have hwithin := h.within
  rw [advance, granted_lift_bind, hsource, ok_bind, granted_bind, consume_granted, ok_bind,
    granted_lift_bind]
  rw [show (reader.passed position).position = position from rfl, checkedAdd_bind (by omega),
    flatten_chunks (by decide : 0 < controlChunkSize)]
  show Except.ok _ = _
  rw [passed, ← Crc32.update_append, take_add_drop]
  rfl

/-- `consume_remaining` passes over what is left. -/
theorem consumeRemainingLoop_granted (h : reader.InRange) (fuel position : Nat)
    (hposition : position ≤ reader.range.length) (hfuel : reader.range.length ≤ position + fuel) :
    (consumeRemainingLoop reader.range.length fuel (reader.passed position)).granted =
      .ok (reader.passed reader.range.length) := by
  induction fuel generalizing position with
  | zero =>
    have hend : position = reader.range.length := by omega
    rw [hend]
    rfl
  | succ fuel ih =>
    rw [consumeRemainingLoop]
    by_cases hlt : (reader.passed position).position < reader.range.length
    · have hlt' : position < reader.range.length := hlt
      have hchunk : 0 < ioChunkSize := by decide
      have hcount : position + min (reader.range.length - position) ioChunkSize ≤
          reader.range.length := by omega
      rw [if_pos hlt, granted_lift_bind, show (reader.passed position).position = position from rfl,
        checkedSub_of_le hposition, okOr_bind, granted_bind, advance_granted h hcount, ok_bind]
      exact ih _ hcount (by omega)
    · have hend : position = reader.range.length :=
        Nat.le_antisymm hposition (Nat.le_of_not_lt hlt)
      rw [if_neg hlt, hend]
      rfl

theorem consumeRemaining_granted (h : reader.InRange) {position : Nat}
    (hposition : position ≤ reader.range.length) :
    (reader.passed position).consumeRemaining.granted =
      .ok (reader.passed reader.range.length) := by
  have hpassed : (reader.passed position).InRange := ⟨h.ordered, h.within, h.representable⟩
  have hlength : (reader.passed position).memberLength = .ok reader.range.length :=
    hpassed.memberLength_eq
  rw [consumeRemaining, granted_lift_bind, hlength, ok_bind]
  exact consumeRemainingLoop_granted h _ position hposition (by omega)

/-- The digests that `verify_integrity` asks for at the end of a member. -/
def Intact (reader : MemberReader) : Prop :=
  (∀ expected, reader.expectedCrc = some expected → Crc32.checksum reader.range = expected) ∧
    reader.folderCrcMismatch = false

theorem verifyIntegrity_eq_ok :
    (reader.passed reader.range.length).verifyIntegrity = .ok () ↔ reader.Intact := by
  have hchecksum : (reader.passed reader.range.length).checksum.finalize =
      Crc32.checksum reader.range := by
    rw [passed, List.take_length]
    rfl
  simp only [verifyIntegrity, bind_eq_ok, rejectIf_eq_ok, hchecksum]
  constructor
  · rintro ⟨_, hcrc, hfolder⟩
    refine ⟨fun expected hexpected => ?_, Bool.not_eq_true _ ▸ hfolder⟩
    by_contra hne
    exact hcrc ⟨expected, hexpected, hne⟩
  · rintro ⟨hcrc, hfolder⟩
    refine ⟨(), ?_, ?_⟩
    · rintro ⟨expected, hexpected, hne⟩
      exact hne (hcrc expected hexpected)
    · rw [show (reader.passed reader.range.length).folderCrcMismatch = false from hfolder]
      exact Bool.false_ne_true

variable {position : Nat} (h : reader.InRange) (hposition : position ≤ reader.range.length)
include h hposition

theorem finishReading_granted :
    (reader.passed position).finishReading.granted = .ok () ↔ reader.Intact := by
  rw [finishReading, granted_bind, consumeRemaining_granted h hposition, ok_bind,
    granted_lift, verifyIntegrity_eq_ok]

/-- `into_bytes` gives the member when its digests match. -/
theorem intoBytes_granted {bytes : List UInt8} :
    (reader.passed position).intoBytes.granted = .ok bytes ↔
      reader.Intact ∧ bytes = reader.range := by
  have hbytes : (if (reader.passed reader.range.length).start = 0 ∧
      (reader.passed reader.range.length).finish =
        (reader.passed reader.range.length).data.length then
      pure (reader.passed reader.range.length).data
    else do
      let _ ← (reader.passed reader.range.length).memberLength
      okOr (getRange (reader.passed reader.range.length).data
        (reader.passed reader.range.length).start (reader.passed reader.range.length).finish)
        (formatError "member byte range is outside folder output") :
      Metered (List UInt8)).granted = .ok reader.range := by
    by_cases hall : reader.start = 0 ∧ reader.finish = reader.data.length
    · have hrange : reader.range = reader.data := by
        rw [range, hall.1, hall.2, List.take_length, List.drop_zero]
      rw [hrange]
      exact congrArg Prog.granted (if_pos hall)
    · refine (congrArg Prog.granted (if_neg hall)).trans ?_
      have hlength : (reader.passed reader.range.length).memberLength =
          .ok reader.range.length := h.memberLength_eq
      rw [granted_lift_bind, hlength, ok_bind, granted_lift]
      exact congrArg (okOr · _) (getRange_eq_some.mpr ⟨h.ordered, h.within, rfl⟩)
  rw [intoBytes, granted_bind, consumeRemaining_granted h hposition, ok_bind, granted_lift_bind,
    hbytes, bind_eq_ok]
  constructor
  · rintro ⟨_, hverify, hok⟩
    exact ⟨verifyIntegrity_eq_ok.mp hverify, (Except.ok.inj hok).symm⟩
  · rintro ⟨hintact, rfl⟩
    exact ⟨(), verifyIntegrity_eq_ok.mpr hintact, rfl⟩

end MemberReader

end Unpackio
