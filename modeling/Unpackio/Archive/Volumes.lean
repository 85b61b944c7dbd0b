/-
Opening sequential volumes against opening their joined bytes.
-/
import Unpackio.Archive
import Unpackio.Parser.Scan

namespace Unpackio

open Prog (granted_bind granted_lift)
open Except (ok_bind)

theorem appendChunks_granted (pieces : List (List UInt8)) (output : List UInt8) :
    (appendChunks pieces output).granted = .ok (output ++ pieces.flatten) := by
  induction pieces generalizing output with
  | nil => rw [appendChunks, List.flatten_nil, List.append_nil, Prog.granted_pure]
  | cons chunk pieces ih =>
    rw [appendChunks, checkpoint_bind, granted_bind, consumeBytes_granted, ok_bind, ih,
      List.flatten_cons, List.append_assoc]

theorem appendVolume_granted {output volume : List UInt8} (limits : Limits)
    (hlen : output.length + volume.length < 2 ^ 64)
    (htotal : output.length + volume.length ≤ limits.maxTotalInputBytes) :
    (appendVolume output volume limits).granted = .ok (output ++ volume) := by
  simp only [appendVolume, granted_bind, granted_lift, checkpoint_granted,
    checkedAdd_of_lt hlen, okOr_some, checkLimit_of_le htotal, ok_bind,
    appendChunks_granted, flatten_chunks (by decide : 0 < ioChunkSize)]

theorem sequentialName_isOk {firstName : String} {index : Nat}
    (hname : ".001".toList <:+ firstName.toList) (hindex : index + 1 < 2 ^ 64) :
    ∃ name, sequentialName firstName index = .ok name := by
  unfold sequentialName
  by_cases hzero : index = 0
  · exact ⟨firstName, if_pos hzero⟩
  · rw [if_neg hzero, stripSuffix, if_pos hname, checkedAdd_of_lt hindex]
    exact ⟨_, rfl⟩

section

variable {volumes : List (List UInt8)} {firstName : String} {limits : Limits}
  (hname : ".001".toList <:+ firstName.toList) (hcount : volumes.length < 2 ^ 63)
include hname hcount

/-- All volumes of a provider are read and joined.  The induction is on those
that are left, behind the ones that are joined already. -/
theorem readVolumes_granted (hlen : volumes.flatten.length < 2 ^ 63)
    (htotal : volumes.flatten.length ≤ limits.maxTotalInputBytes) (hne : volumes.flatten ≠ [])
    (front rest : List (List UInt8)) (fuel : Nat) (hsplit : volumes = front ++ rest)
    (hfuel : rest.length ≤ fuel) :
    ∃ termination, (readVolumes (memoryVolumeProvider volumes) firstName limits fuel
      front.length front.flatten).granted = .ok ⟨volumes.flatten, termination⟩ := by
  have hnext : front.length + 1 < 2 ^ 64 := by
    rw [hsplit, List.length_append] at hcount
    omega
  obtain ⟨name, hsequential⟩ := sequentialName_isOk hname hnext
  induction rest generalizing front fuel name with
  | nil =>
    rw [List.append_nil] at hsplit
    subst hsplit
    cases fuel with
    | zero =>
      refine ⟨.limit (volumes.length + 1) limits.maxVolumes, ?_⟩
      rw [readVolumes]
      simp only [granted_bind, granted_lift, checkedAdd_of_lt hnext,
        okOr_some, ok_bind, if_neg hne, Prog.granted_pure]
    | succ fuel =>
      have hprovider : memoryVolumeProvider volumes ⟨volumes.length, name⟩ =
          .error (.missingVolume name) := by
        rw [memoryVolumeProvider, List.getElem?_eq_none (Nat.le_refl _)]
        rfl
      refine ⟨.missing (.missingVolume name), ?_⟩
      rw [readVolumes]
      simp only [granted_bind, granted_lift, checkedAdd_of_lt hnext,
        okOr_some, ok_bind, checkpoint_granted, hsequential, hprovider, Prog.granted_pure]
  | cons volume rest ih =>
    cases fuel with
    | zero => exact absurd hfuel (by simp)
    | succ fuel =>
      have hprovider : memoryVolumeProvider volumes ⟨front.length, name⟩ = .ok volume := by
        rw [memoryVolumeProvider, hsplit, List.getElem?_append_right (Nat.le_refl _),
          Nat.sub_self]
        rfl
      have hsum : front.flatten.length + volume.length ≤ volumes.flatten.length := by
        rw [hsplit, List.flatten_append, List.flatten_cons, List.length_append,
          List.length_append]
        omega
      have hjoin : front.flatten ++ volume = (front ++ [volume]).flatten := by
        rw [List.flatten_append, List.flatten_singleton]
      have hlength : front.length + 1 = (front ++ [volume]).length := by
        rw [List.length_append, List.length_singleton]
      have hrest : volumes = (front ++ [volume]) ++ rest := by
        rw [hsplit, List.append_assoc]
        rfl
      have hlater : (front ++ [volume]).length + 1 < 2 ^ 64 := by
        rw [hrest, List.length_append] at hcount
        omega
      obtain ⟨later, hlaterName⟩ := sequentialName_isOk hname hlater
      obtain ⟨termination, hread⟩ := ih (front ++ [volume]) fuel hrest
        (Nat.le_of_succ_le_succ hfuel) hlater later hlaterName
      refine ⟨termination, ?_⟩
      rw [readVolumes]
      simp only [granted_bind, granted_lift, checkedAdd_of_lt hnext,
        okOr_some, ok_bind, checkpoint_granted, hsequential, hprovider,
        appendVolume_granted limits
          (show front.flatten.length + volume.length < 2 ^ 64 by omega) (by omega)]
      rw [hjoin, hlength]
      exact hread

theorem readSequentialVolumes_granted (hvolumes : volumes.length ≤ limits.maxVolumes)
    (hlen : volumes.flatten.length < 2 ^ 63)
    (htotal : volumes.flatten.length ≤ limits.maxTotalInputBytes) (hne : volumes.flatten ≠ []) :
    ∃ termination, (readSequentialVolumes (memoryVolumeProvider volumes) firstName
      limits).granted = .ok ⟨volumes.flatten, termination⟩ :=
  readVolumes_granted hname hcount hlen htotal hne [] volumes limits.maxVolumes rfl hvolumes

end

namespace Archive

theorem openBytes_input {codecs : Codecs} {bytes : List UInt8} {limits : Limits}
    {archive : Archive} (h : (openBytes codecs bytes limits).granted = .ok archive) :
    bytes.length ≤ limits.maxTotalInputBytes ∧ bytes ≠ [] := by
  simp only [openBytes, Prog.granted_bind_eq_ok] at h
  obtain ⟨parsed, hparsed, -⟩ := h
  simp only [parseArchive, Prog.granted_bind_eq_ok, Prog.granted_lift_eq_ok, checkLimit_eq_ok]
    at hparsed
  obtain ⟨_, htotal, hparsed⟩ := hparsed
  refine ⟨htotal, ?_⟩
  rintro rfl
  simp [signature, sfxScanBytes, checkedSub] at hparsed

/-- Volumes whose joined bytes open are opened alike exactly when the
declaration that the look ahead finds first fits: the look ahead passes on the
limit and overflow errors of a candidate that `parse_archive` would skip. -/
theorem openVolumes_iff_declarationFits (codecs : Codecs) (volumes : List (List UInt8))
    (firstName : String) (limits : Limits) (archive : Archive)
    (hname : ".001".toList <:+ firstName.toList) (hcount : volumes.length < 2 ^ 63)
    (hvolumes : volumes.length ≤ limits.maxVolumes) (hlen : volumes.flatten.length < 2 ^ 63)
    (hopen : (openBytes codecs volumes.flatten limits).granted = .ok archive) :
    (openVolumes codecs (memoryVolumeProvider volumes) firstName limits).granted = .ok archive ↔
      DeclarationFits volumes.flatten limits := by
  obtain ⟨htotal, hne⟩ := openBytes_input hopen
  obtain ⟨termination, hread⟩ :=
    readSequentialVolumes_granted hname hcount hvolumes hlen htotal hne
  rw [← archiveDeclaresMoreBytes_isOk hlen htotal, openVolumes, granted_bind, hread,
    ok_bind, granted_bind, needsMore, if_neg hne]
  cases (archiveDeclaresMoreBytes volumes.flatten limits).granted with
  | error error => exact ⟨fun h => (nomatch h), fun ⟨_, h⟩ => (nomatch h)⟩
  | ok answer =>
    refine ⟨fun _ => ⟨answer, rfl⟩, fun _ => ?_⟩
    rw [ok_bind, granted_bind, Prog.granted_attempt, hopen]
    rfl

def emptyArchive : List UInt8 :=
  signature ++ [0, 4, 0x08, 0xa8, 0x34, 0xb8] ++ [0, 0, 0, 0, 0, 0, 0, 0] ++
    [2, 0, 0, 0, 0, 0, 0, 0] ++ [0xbe, 0x23, 0xc2, 0x58] ++ [1, 0]

/-- A start header with its digest that declares a header of three bytes. -/
def falseCandidate : List UInt8 :=
  0x90 :: signature ++ [0, 4, 0x7d, 0x49, 0x4b, 0x78] ++ [0, 0, 0, 0, 0, 0, 0, 0] ++
    [3, 0, 0, 0, 0, 0, 0, 0] ++ [0, 0, 0, 0]

def smallHeaders : Limits := { Limits.default with maxHeaderBytes := 2 }

theorem openBytes_emptyArchive :
    (openBytes .copyOnly ([emptyArchive.take 20, emptyArchive.drop 20] : List _).flatten
      Limits.default).granted =
      .ok ⟨emptyArchive, ⟨0, ⟨0, 4⟩, 32, 2, 0x58c223be, .header⟩, ⟨[], none, none, none⟩,
        Limits.default⟩ := by
  decide +kernel

theorem openVolumes_iff_declarationFits_emptyArchive :
    (openVolumes .copyOnly (memoryVolumeProvider [emptyArchive.take 20, emptyArchive.drop 20])
      "a.001" Limits.default).granted =
      .ok ⟨emptyArchive, ⟨0, ⟨0, 4⟩, 32, 2, 0x58c223be, .header⟩, ⟨[], none, none, none⟩,
        Limits.default⟩ ↔
      DeclarationFits ([emptyArchive.take 20, emptyArchive.drop 20] : List _).flatten
        Limits.default :=
  openVolumes_iff_declarationFits .copyOnly [emptyArchive.take 20, emptyArchive.drop 20] "a.001"
    Limits.default _ (by decide) (by decide) (by decide) (by decide) openBytes_emptyArchive

/-- One volume that opens as bytes does not open as a volume set. -/
theorem openVolumes_falseCandidate :
    (∃ archive, (openBytes .copyOnly [falseCandidate ++ emptyArchive].flatten
      smallHeaders).granted = .ok archive) ∧
    (openVolumes .copyOnly (memoryVolumeProvider [falseCandidate ++ emptyArchive]) "a.001"
      smallHeaders).granted = .error (.limitExceeded .headerBytes 3 2) := by
  refine ⟨?_, by decide +kernel⟩
  have hopens : ((openBytes .copyOnly [falseCandidate ++ emptyArchive].flatten
      smallHeaders).granted.toOption).isSome = true := by decide +kernel
  cases h : (openBytes .copyOnly [falseCandidate ++ emptyArchive].flatten
      smallHeaders).granted with
  | error error =>
    rw [h] at hopens
    exact (nomatch hopens)
  | ok archive => exact ⟨archive, rfl⟩

end Archive

end Unpackio
