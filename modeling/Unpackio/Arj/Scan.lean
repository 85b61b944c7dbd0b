/-
What the scan for the main header of an ARJ archive finds.
-/
import Unpackio.Arj.Archive

namespace Unpackio
namespace Arj

open Prog (granted_bind granted_lift_bind)
open Except (ok_bind)

def headerSize (bytes : List UInt8) : Option Nat :=
  if bytes.take 2 = magic ∧ 4 ≤ bytes.length then some (fromLeBytes ((bytes.drop 2).take 2))
  else none

def beginsHeader (bytes : List UInt8) : Bool :=
  (headerSize bytes).any fun size =>
    size ≠ 0 ∧ size ≤ maxBasicHeaderBytes ∧ size + 8 ≤ bytes.length ∧
      (Crc32.checksum ((bytes.drop 4).take size)).toNat =
        fromLeBytes ((bytes.drop (4 + size)).take 4)

def beginsOversized (limits : Limits) (bytes : List UInt8) : Bool :=
  (headerSize bytes).any fun size => size ≤ maxBasicHeaderBytes ∧ limits.maxHeaderBytes < size

theorem checkedRange_eq {start length : Nat} (h : start + length < 2 ^ 64) (bytes : List UInt8)
    (o t : String) :
    checkedRange bytes start length o t =
      if start + length ≤ bytes.length then .ok ((bytes.drop start).take length)
      else .error (formatError t) := by
  rw [checkedRange, checkedAdd_bind h, getRange]
  by_cases hle : start + length ≤ bytes.length
  · rw [if_pos hle, if_pos ⟨Nat.le_add_right _ _, hle⟩, okOr_some, List.drop_take,
      Nat.add_sub_cancel_left]
  · rw [if_neg hle, if_neg fun h => hle h.2, okOr_none]

theorem leUint_eq {width offset : Nat} (h : offset + width < 2 ^ 64) (bytes : List UInt8)
    (detail : String) :
    leUint width bytes offset detail =
      if offset + width ≤ bytes.length then .ok (fromLeBytes ((bytes.drop offset).take width))
      else .error (formatError detail) := by
  rw [leUint, checkedRange_eq h]
  split <;> rfl

def verdict (bytes : List UInt8) (limits : Limits) (position : Nat) (totals : HeaderTotals) :
    Except Error Candidate :=
  match headerSize (bytes.drop position) with
  | none => .ok .missed
  | some size =>
    if size = 0 ∨ maxBasicHeaderBytes < size then .ok .missed
    else if limits.maxHeaderBytes < size then
      .error (.limitExceeded .headerBytes size limits.maxHeaderBytes)
    else if beginsHeader (bytes.drop position) then do
      let totals ← accountHeader size limits totals
      return .found ⟨(bytes.drop (position + 4)).take size, position + size + 8⟩ totals
    else if size + 8 ≤ bytes.length - position then .ok .checksumFailure
    else .ok .missed

theorem headerSize_drop (bytes : List UInt8) (position : Nat) :
    headerSize (bytes.drop position) =
      if (bytes.drop position).take 2 = magic ∧ 4 ≤ bytes.length - position then
        some (fromLeBytes ((bytes.drop (position + 2)).take 2))
      else none := by
  rw [headerSize, List.length_drop, List.drop_drop]

theorem beginsHeader_drop {bytes : List UInt8} {position size : Nat}
    (h : headerSize (bytes.drop position) = some size) :
    beginsHeader (bytes.drop position) = true ↔
      size ≠ 0 ∧ size ≤ maxBasicHeaderBytes ∧ size + 8 ≤ bytes.length - position ∧
        (Crc32.checksum ((bytes.drop (position + 4)).take size)).toNat =
          fromLeBytes ((bytes.drop (position + 4 + size)).take 4) := by
  rw [beginsHeader, h, Option.any_some, decide_eq_true_eq, List.length_drop, List.drop_drop,
    List.drop_drop, Nat.add_assoc]

theorem candidateAt_granted {bytes : List UInt8} (hlen : bytes.length < 2 ^ 63) (limits : Limits)
    {position : Nat} (hinside : position ≤ bytes.length) (totals : HeaderTotals) :
    (candidateAt bytes limits position totals).granted = verdict bytes limits position totals := by
  have hmax : maxBasicHeaderBytes = 2600 := rfl
  have hhead := headerSize_drop bytes position
  rw [candidateAt, verdict]
  by_cases hmagic : (bytes.drop position).take 2 = magic
  · rw [if_neg (not_not_intro hmagic), granted_lift_bind, checkedAdd_bind (by omega),
      show leU16 = leUint 2 from rfl, leUint_eq (by omega)]
    by_cases hsize : position + 2 + 2 ≤ bytes.length
    · rw [if_pos ⟨hmagic, by omega⟩] at hhead
      have hbegins := beginsHeader_drop hhead
      rw [if_pos hsize, hhead]
      generalize fromLeBytes ((bytes.drop (position + 2)).take 2) = size at hbegins
      simp only
      by_cases hrange : size = 0 ∨ maxBasicHeaderBytes < size
      · rw [if_pos hrange, if_pos hrange]
        rfl
      · rw [if_neg hrange, if_neg hrange, granted_lift_bind, checkLimit]
        by_cases hlimit : limits.maxHeaderBytes < size
        · rw [if_pos hlimit, rejectIf_of hlimit]
          rfl
        · rw [if_neg hlimit, rejectIf_of_not hlimit, ok_bind, granted_lift_bind,
            checkedAdd_bind (by omega), checkedRange_eq (by omega)]
          by_cases hbasic : position + 4 + size ≤ bytes.length
          · rw [if_pos hbasic]
            simp only
            rw [granted_lift_bind, checkedAdd_bind (by omega), show leU32 = leUint 4 from rfl,
              leUint_eq (by omega)]
            by_cases hcrc : position + 4 + size + 4 ≤ bytes.length
            · rw [if_pos hcrc]
              simp only
              rw [granted_bind, checksumWithControl_granted, ok_bind]
              by_cases hmatch : (Crc32.checksum ((bytes.drop (position + 4)).take size)).toNat =
                  fromLeBytes ((bytes.drop (position + 4 + size)).take 4)
              · rw [if_neg (not_not_intro hmatch),
                  if_pos (hbegins.mpr ⟨by omega, by omega, by omega, hmatch⟩), granted_lift_bind]
                congr 1
                funext counted
                rw [granted_lift_bind, checkedAdd_bind (by omega),
                  Nat.add_right_comm position 4 size]
                rfl
              · rw [if_pos hmatch, if_neg fun h => hmatch (hbegins.mp h).2.2.2, if_pos (by omega)]
                rfl
            · rw [if_neg hcrc, if_neg fun h => hcrc (by have h := (hbegins.mp h).2.2.1; omega),
                if_neg (by omega)]
              rfl
          · rw [if_neg hbasic, if_neg fun h => hbasic (by have h := (hbegins.mp h).2.2.1; omega),
              if_neg (by omega)]
            rfl
    · rw [if_neg fun h => hsize (by omega)] at hhead
      rw [if_neg hsize, hhead]
      rfl
  · rw [if_neg fun h => hmagic h.1] at hhead
    rw [if_pos hmagic, hhead]
    rfl

/-! ## The scan -/

variable {bytes : List UInt8} {limits : Limits} {position : Nat} (totals : HeaderTotals)

theorem verdict_pass (hheader : beginsHeader (bytes.drop position) = false)
    (hoversized : beginsOversized limits (bytes.drop position) = false) :
    verdict bytes limits position totals = .ok .missed ∨
      verdict bytes limits position totals = .ok .checksumFailure := by
  rw [verdict]
  cases hsize : headerSize (bytes.drop position) with
  | none => exact Or.inl rfl
  | some size =>
    rw [beginsOversized, hsize, Option.any_some, decide_eq_false_iff_not] at hoversized
    simp only
    by_cases hrange : size = 0 ∨ maxBasicHeaderBytes < size
    · rw [if_pos hrange]
      exact Or.inl rfl
    · rw [if_neg hrange, if_neg fun hlimit => hoversized ⟨by omega, hlimit⟩, hheader,
        if_neg Bool.false_ne_true]
      split
      · exact Or.inr rfl
      · exact Or.inl rfl

theorem verdict_oversized (h : beginsOversized limits (bytes.drop position) = true) :
    ∃ e, verdict bytes limits position totals = .error e := by
  rw [verdict]
  cases hsize : headerSize (bytes.drop position) with
  | none =>
    rw [beginsOversized, hsize] at h
    exact absurd h Bool.false_ne_true
  | some size =>
    rw [beginsOversized, hsize, Option.any_some, decide_eq_true_eq] at h
    simp only
    rw [if_neg (by omega), if_pos h.2]
    exact ⟨_, rfl⟩

variable {totals} in
theorem verdict_found {record : HeaderRecord} {counted : HeaderTotals}
    (h : verdict bytes limits position totals = .ok (.found record counted)) :
    beginsHeader (bytes.drop position) = true := by
  cases hbegins : beginsHeader (bytes.drop position) with
  | true => rfl
  | false =>
    cases hoversized : beginsOversized limits (bytes.drop position) with
    | true =>
      obtain ⟨e, he⟩ := verdict_oversized totals hoversized
      rw [h] at he
      exact nomatch he
    | false =>
      rcases verdict_pass totals hbegins hoversized with hpass | hpass
      · rw [h] at hpass
        exact nomatch hpass
      · rw [h] at hpass
        exact nomatch hpass

theorem findLoop_granted (hlen : bytes.length < 2 ^ 63) (hscan : position ≤ limits.sfxScanLimit)
    (hinside : position ≤ bytes.length) (windows : Nat) (sawChecksumFailure : Bool) :
    (findLoop bytes limits (windows + 1) position totals sawChecksumFailure).granted =
      match verdict bytes limits position totals with
      | .ok .missed =>
        (findLoop bytes limits windows (position + 1) totals sawChecksumFailure).granted
      | .ok .checksumFailure => (findLoop bytes limits windows (position + 1) totals true).granted
      | .ok (.found record counted) => .ok (position, record, counted)
      | .error e => .error e := by
  rw [findLoop, if_neg (Nat.not_lt.mpr hscan), checkpoint_bind, granted_bind,
    candidateAt_granted hlen limits hinside totals]
  cases verdict bytes limits position totals with
  | error e => rfl
  | ok candidate =>
    cases candidate with
    | missed => rfl
    | checksumFailure => rfl
    | found record counted => rfl

theorem findLoop_reaches (hlen : bytes.length < 2 ^ 63) {distance windows : Nat}
    (hscan : position + distance ≤ limits.sfxScanLimit)
    (hinside : position + distance ≤ bytes.length)
    (hpass : ∀ place, position ≤ place → place < position + distance →
      beginsHeader (bytes.drop place) = false ∧ beginsOversized limits (bytes.drop place) = false)
    (sawChecksumFailure : Bool) :
    ∃ saw, (findLoop bytes limits (distance + windows) position totals sawChecksumFailure).granted =
      (findLoop bytes limits windows (position + distance) totals saw).granted := by
  induction distance generalizing position sawChecksumFailure with
  | zero => exact ⟨sawChecksumFailure, by rw [Nat.zero_add, Nat.add_zero]⟩
  | succ distance ih =>
    obtain ⟨hheader, hoversized⟩ := hpass position (Nat.le_refl _) (by omega)
    have hrest := ih (show position + 1 + distance ≤ limits.sfxScanLimit by omega) (by omega)
      fun place hle hlt => hpass place (by omega) (by omega)
    rw [Nat.add_right_comm distance 1 windows,
      findLoop_granted totals hlen (by omega) (by omega)]
    rw [show position + (distance + 1) = position + 1 + distance by omega]
    rcases verdict_pass totals hheader hoversized with hmissed | hfailure
    · rw [hmissed]
      exact hrest sawChecksumFailure
    · rw [hfailure]
      exact hrest true

variable {totals} in
theorem findLoop_found (hlen : bytes.length < 2 ^ 63) {windows : Nat}
    (hinside : position + windows ≤ bytes.length) {sawChecksumFailure : Bool} {found : Nat}
    {record : HeaderRecord} {counted : HeaderTotals}
    (h : (findLoop bytes limits windows position totals sawChecksumFailure).granted =
      .ok (found, record, counted)) :
    position ≤ found ∧ beginsHeader (bytes.drop found) = true ∧
      ∀ place, position ≤ place → place < found →
        beginsOversized limits (bytes.drop place) = false := by
  induction windows generalizing position sawChecksumFailure with
  | zero => exact nomatch h
  | succ windows ih =>
    by_cases hscan : limits.sfxScanLimit < position
    · rw [findLoop, if_pos hscan] at h
      exact nomatch h
    · have hrest : ∀ saw, (findLoop bytes limits windows (position + 1) totals saw).granted =
          .ok (found, record, counted) → beginsOversized limits (bytes.drop position) = false →
            position ≤ found ∧ beginsHeader (bytes.drop found) = true ∧
              ∀ place, position ≤ place → place < found →
                beginsOversized limits (bytes.drop place) = false := by
        intro saw hrun hfirst
        obtain ⟨hle, hbegins, hothers⟩ := ih (by omega) hrun
        refine ⟨by omega, hbegins, fun place hplace hlt => ?_⟩
        rcases Nat.lt_or_eq_of_le hplace with hbehind | rfl
        · exact hothers place hbehind hlt
        · exact hfirst
      have hfirst : ∀ candidate, verdict bytes limits position totals = .ok candidate →
          beginsOversized limits (bytes.drop position) = false := by
        intro candidate hcandidate
        cases hoversized : beginsOversized limits (bytes.drop position) with
        | false => rfl
        | true =>
          obtain ⟨e, he⟩ := verdict_oversized totals hoversized
          rw [hcandidate] at he
          exact nomatch he
      rw [findLoop_granted totals hlen (Nat.not_lt.mp hscan) (by omega)] at h
      cases hverdict : verdict bytes limits position totals with
      | error e =>
        rw [hverdict] at h
        exact nomatch h
      | ok candidate =>
        rw [hverdict] at h
        cases candidate with
        | missed => exact hrest _ h (hfirst _ hverdict)
        | checksumFailure => exact hrest _ h (hfirst _ hverdict)
        | found record counted =>
          cases h
          exact ⟨Nat.le_refl _, verdict_found hverdict,
            fun place hle hlt => absurd hle (Nat.not_le.mpr hlt)⟩

end Arj
end Unpackio
