/-
What verification establishes of the substreams of a folder: each has its place
in the decoded bytes, within the limit of an entry, and the digest of its own.
-/
import Unpackio.Archive.OutputLimits

namespace Unpackio
namespace Archive

open Prog (granted_bind_eq_ok granted_lift_eq_ok granted_rest)

/-- Part of a decoded folder. -/
def span (data : List UInt8) (start finish : Nat) : List UInt8 := (data.take finish).drop start

def memberEnd (count index start folderSize : Nat) (size : Option Nat) : Except Error Nat :=
  substreamEnd count index start folderSize size "member byte range overflows"
    "unknown-nonfinal-substream-size"

/-- A substream that ends at a place. -/
structure Spans (limits : Limits) (data : List UInt8) (count index start finish : Nat)
    (substream : Substream) : Prop where
  ends : memberEnd count index start data.length substream.size = .ok finish
  ordered : start ≤ finish
  within : finish ≤ data.length
  limited : finish - start ≤ limits.maxEntryOutputBytes
  digest : ∀ expected, substream.crc = some expected →
    Crc32.checksum (span data start finish) = expected

def Spanned (limits : Limits) (data : List UInt8) (count : Nat) :
    List Substream → Nat → Nat → Prop
  | [], _, _ => True
  | substream :: substreams, index, start => ∃ finish,
    Spans limits data count index start finish substream ∧
      Spanned limits data count substreams (index + 1) finish

theorem checkSubstream_granted {bytes : List UInt8} {crc : Option UInt32} {error : Error}
    {u : Unit} (h : (checkSubstream bytes crc error).granted = .ok u) :
    ∀ expected, crc = some expected → Crc32.checksum bytes = expected := by
  intro expected hexpected
  subst hexpected
  obtain ⟨actual, hactual, h⟩ := granted_bind_eq_ok.mp h
  rw [checksumWithControl_granted] at hactual
  cases hactual
  exact not_not.mp (rejectIf_eq_ok.mp (granted_lift_eq_ok.mp h))

theorem memberEnd_some {count index start folderSize size finish : Nat}
    (h : memberEnd count index start folderSize (some size) = .ok finish) :
    finish = start + size ∧ finish < 2 ^ 64 := by
  obtain ⟨hlt, rfl⟩ := checkedAdd_eq_ok.mp h
  exact ⟨rfl, hlt⟩

theorem memberEnd_none {count index start folderSize finish : Nat}
    (h : memberEnd count index start folderSize none = .ok finish) :
    index + 1 = count ∧ finish = folderSize := by
  simp only [memberEnd, substreamEnd] at h
  split at h
  · cases h
    exact ⟨by assumption, rfl⟩
  · exact nomatch h

/-! ## Verification of a folder -/

theorem substreamContribution_some {limits : Limits} {isFinal unknown : Bool} {size : Nat}
    {outcome : Nat × Bool}
    (h : substreamContribution limits isFinal unknown (some size) = .ok outcome) :
    size ≤ limits.maxEntryOutputBytes ∧ outcome.1 = size := by
  obtain ⟨_, hlimit, h⟩ := Except.bind_eq_ok.mp h
  cases h
  exact ⟨checkLimit_eq_ok.mp hlimit, rfl⟩

theorem substreamContribution_none {limits : Limits} {isFinal unknown : Bool}
    {outcome : Nat × Bool}
    (h : substreamContribution limits isFinal unknown none = .ok outcome) :
    outcome.1 = limits.maxEntryOutputBytes := by
  simp only [substreamContribution] at h
  split at h
  · cases h
    rfl
  · exact nomatch h

/-- The loops of `folder_decode_maximum` and of `verify_folder_members` walk over
the same substreams.  What the first permits bounds the last member of the
second, whose size may be unknown. -/
theorem verifyMembers_spanned {limits : Limits} {folderIndex count : Nat} {decoded : DecodedFolder}
    (substreams : List Substream) {index start permitted : Nat} {unknown unknown' : Bool}
    {entries rest : List (FileEntry × Nat)} (hcount : index + substreams.length = count)
    (hpermitted : (permittedOutput limits count substreams index start unknown).granted =
      .ok (permitted, unknown'))
    (hlength : decoded.bytes.length ≤ permitted)
    (h : (verifyMembers folderIndex decoded count substreams index start entries).granted =
      .ok rest) :
    Spanned limits decoded.bytes count substreams index start := by
  induction substreams generalizing index start unknown entries with
  | nil => trivial
  | cons substream substreams ih =>
    cases entries with
    | nil =>
      obtain ⟨_, h⟩ := granted_rest h
      exact nomatch h
    | cons entry entries =>
      obtain ⟨_, h⟩ := granted_rest h
      obtain ⟨_, h⟩ := granted_rest h
      obtain ⟨_, h⟩ := granted_rest h
      obtain ⟨finish, hend, h⟩ := granted_bind_eq_ok.mp h
      obtain ⟨_, h⟩ := granted_rest h
      obtain ⟨range, hrange, hrest⟩ := granted_bind_eq_ok.mp h
      obtain ⟨hordered, hwithin, rfl⟩ :=
        getRange_eq_some.mp (okOr_eq_ok.mp (granted_lift_eq_ok.mp hrange))
      obtain ⟨_, hcheck, h⟩ := granted_bind_eq_ok.mp hrest
      have hend : memberEnd count index start decoded.bytes.length substream.size = .ok finish :=
        granted_lift_eq_ok.mp hend
      obtain ⟨⟨contribution, next⟩, hcontribution, hpermitted⟩ :=
        granted_bind_eq_ok.mp hpermitted
      obtain ⟨total, htotal, hpermitted⟩ := granted_bind_eq_ok.mp hpermitted
      obtain ⟨_, hpermitted⟩ := granted_rest hpermitted
      have hcontribution := granted_lift_eq_ok.mp hcontribution
      obtain ⟨-, rfl⟩ :=
        checkedAdd_eq_ok.mp (granted_lift_eq_ok.mp htotal)
      have hcount' : index + 1 + substreams.length = count := by
        rw [← hcount, List.length_cons]
        omega
      have hdigest := checkSubstream_granted hcheck
      cases hsize : substream.size with
      | some size =>
        rw [hsize] at hend hcontribution
        obtain ⟨hsmall, hsum⟩ := substreamContribution_some hcontribution
        obtain ⟨hfinish, -⟩ := memberEnd_some hend
        have hsum : start + contribution = finish := by
          rw [hfinish]
          exact congrArg (start + ·) hsum
        rw [hsum] at hpermitted
        refine ⟨finish, ⟨?_, hordered, hwithin, ?_, hdigest⟩, ih hcount' hpermitted h⟩
        · rw [hsize]
          exact hend
        · rw [hfinish, Nat.add_sub_cancel_left]
          exact hsmall
      | none =>
        rw [hsize] at hend hcontribution
        have hlimit : contribution = _ := substreamContribution_none hcontribution
        obtain ⟨hlast, hfinish⟩ := memberEnd_none hend
        -- Nothing follows the substream of unknown size.
        have hnil : substreams = [] := List.eq_nil_of_length_eq_zero (by omega)
        subst hnil
        cases Prog.granted_pure_eq_ok.mp hpermitted
        refine ⟨finish, ⟨?_, hordered, hwithin, ?_, hdigest⟩, trivial⟩
        · rw [hsize]
          exact hend
        · omega

theorem folderDecodeMaximum_eq_ok {folder : Folder} {limits : Limits} {remaining maximum : Nat}
    (h : (folderDecodeMaximum folder limits remaining).granted = .ok maximum)
    (hsome : folder.substreams ≠ []) :
    ∃ permitted unknown, (permittedOutput limits folder.substreams.length folder.substreams 0 0
      false).granted = .ok (permitted, unknown) ∧ maximum ≤ permitted := by
  obtain ⟨_, h⟩ := granted_rest h
  obtain ⟨_, h⟩ := granted_rest h
  rw [if_neg hsome] at h
  obtain ⟨⟨permitted, unknown⟩, hpermitted, h⟩ := granted_bind_eq_ok.mp h
  obtain ⟨_, h⟩ := granted_rest h
  cases Prog.granted_pure_eq_ok.mp h
  exact ⟨permitted, unknown, hpermitted, Nat.min_le_left _ _⟩

theorem folderDecodeMaximum_mono {folder : Folder} {limits : Limits}
    {remaining larger maximum : Nat} (hle : remaining ≤ larger)
    (h : (folderDecodeMaximum folder limits remaining).granted = .ok maximum) :
    ∃ maximum', (folderDecodeMaximum folder limits larger).granted = .ok maximum' ∧
      maximum ≤ maximum' := by
  obtain ⟨root, hroot, h⟩ := granted_bind_eq_ok.mp h
  obtain ⟨_, hdeclared, h⟩ := granted_bind_eq_ok.mp h
  have hdeclared : ¬∃ size ∈ root, larger < size := fun ⟨size, hmem, hlt⟩ =>
    rejectIf_eq_ok.mp (granted_lift_eq_ok.mp hdeclared)
      ⟨size, hmem, Nat.lt_of_le_of_lt hle hlt⟩
  by_cases hnil : folder.substreams = []
  · rw [if_pos hnil] at h
    cases Prog.granted_pure_eq_ok.mp h
    refine ⟨larger, ?_, hle⟩
    simp only [folderDecodeMaximum, if_pos hnil]
    exact granted_bind_eq_ok.mpr ⟨root, hroot,
      granted_bind_eq_ok.mpr ⟨(), rejectIf_of_not hdeclared _, rfl⟩⟩
  · rw [if_neg hnil] at h
    obtain ⟨⟨permitted, unknown⟩, hpermitted, h⟩ := granted_bind_eq_ok.mp h
    obtain ⟨_, hsum, h⟩ := granted_bind_eq_ok.mp h
    cases Prog.granted_pure_eq_ok.mp h
    refine ⟨min permitted larger, ?_, by omega⟩
    simp only [folderDecodeMaximum, if_neg hnil]
    exact granted_bind_eq_ok.mpr ⟨root, hroot,
      granted_bind_eq_ok.mpr ⟨(), rejectIf_of_not hdeclared _,
        granted_bind_eq_ok.mpr ⟨(permitted, unknown), hpermitted,
          granted_bind_eq_ok.mpr ⟨(), hsum, rfl⟩⟩⟩⟩

end Archive
end Unpackio
