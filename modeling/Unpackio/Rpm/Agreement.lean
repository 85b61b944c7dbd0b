/-
The read paths of a package agree.

The verification leaves out the limit of one entry, which opening the package has
checked for every entry.
-/
import Unpackio.Cpio.Tiling
import Unpackio.Rpm.Archive

namespace Unpackio
namespace Rpm

open Extraction
open Cpio (CpioEntry HasData Accepted)

namespace RpmArchive

variable (archive : RpmArchive)

def reader : Reader RpmEntry where
  entries := archive.entries
  index := CpioEntry.index
  Intact := HasData archive.payload archive.limits
  extractEntryTo := archive.extractEntryTo
  extractEntriesTo := archive.extractEntriesTo
  verify := archive.verify

variable {archive}

theorem opened_accepted {codecs : Codecs} {bytes : List UInt8} {limits : Limits}
    (hpayload : ∀ input compression maximum payload,
      (codecs.decodeContainerPayload input compression limits maximum).CanReturn payload →
        payload.length < 2 ^ 64)
    (h : (openBytes codecs bytes limits).CanReturn archive) :
    Accepted archive.payload archive.limits archive.entries := by
  simp only [openBytes, decodePayload, Prog.CanReturn.bind_iff, Prog.CanReturn.pure_iff] at h
  obtain ⟨_, -, parsed, -, _, -, _, -, compression, -, _, -, _, -, _, -, compressed, -, _, -,
    payload, ⟨container, -, hdecode⟩, _, -, ⟨format, entries⟩, hparse, rfl⟩ := h
  exact Cpio.accepted_of_parseEntries (hpayload _ _ _ _ hdecode) hparse

theorem verifiedData_granted {entry : RpmEntry} {data : List UInt8}
    (hlen : archive.payload.length < 2 ^ 64)
    (h : HasData archive.payload archive.limits entry data) :
    (archive.verifiedData entry).granted = .ok data := by
  simp only [verifiedData, Prog.granted_bind, Prog.granted_lift]
  rw [checkedSub_of_le h.ordered, okOr_bind, h.checkedRange_eq hlen, Except.ok_bind,
    (@Cpio.verifyChecksum_granted data entry ()).mpr h.checked]
  rfl

theorem account_eq_ok {before total : Nat} {entry : RpmEntry} :
    archive.account before entry = .ok total ↔ archive.addSize before entry = .ok total ∧
      entry.size ≤ archive.limits.maxEntryOutputBytes ∧
        total ≤ archive.limits.maxTotalOutputBytes := by
  simp only [account, Except.bind_eq_ok, checkLimit_eq_ok]
  constructor
  · rintro ⟨sum, hsum, _, hsize, _, htotal, h⟩
    cases h
    exact ⟨hsum, hsize, htotal⟩
  · rintro ⟨hsum, hsize, htotal⟩
    exact ⟨total, hsum, (), hsize, (), htotal, rfl⟩

theorem addSize_eq {before total : Nat} {entry : RpmEntry}
    (h : archive.addSize before entry = .ok total) : total = before + entry.size :=
  (checkedAdd_eq_ok.mp h).2.symm

theorem verifyEntry_granted {entry : RpmEntry}
    (h : entry.size ≤ archive.limits.maxEntryOutputBytes) (before : Nat) :
    (archive.verifyEntry before entry).granted =
      Prod.fst <$> (sizedFetch archive.account archive.verifiedData before entry).granted := by
  simp only [verifyEntry, sizedFetch, account, Prog.granted_bind, Prog.granted_lift,
    checkLimit_of_le h]
  cases archive.addSize before entry with
  | error e => rfl
  | ok total =>
    simp only [Except.ok_bind]
    cases checkLimit total archive.limits.maxTotalOutputBytes .totalOutputBytes with
    | error e => rfl
    | ok u =>
      simp only [Except.ok_bind]
      cases (archive.verifiedData entry).granted <;> rfl

theorem sized (h : Accepted archive.payload archive.limits archive.entries) :
    archive.reader.Sized CpioEntry.size archive.account archive.verifiedData where
  index_eq := fun i entry hentry => (h.index i entry hentry).trans (Nat.zero_add i).symm
  extract_eq := rfl
  verify_eq := by
    refine verifyLoop_granted (fun entry hentry before => ?_) 0
    obtain ⟨data, hdata⟩ := h.data entry hentry
    exact verifyEntry_granted hdata.output before
  account_eq := fun _ _ _ htotal => addSize_eq (account_eq_ok.mp htotal).1
  load_eq := fun entry hentry data hdata => by
    obtain ⟨own, hown⟩ := h.data entry hentry
    rw [verifiedData_granted h.length_lt hown] at hdata
    cases hdata
    exact ⟨hown.size.symm, hown⟩
  copies := fun i entry hentry before total data htotal hdata => by
    have hrequired : archive.requiredEntry i = .ok entry := by
      rw [requiredEntry, show archive.entries[i]? = some entry from hentry, okOr_some]
    exact .lift hrequired (.work hdata (.copied entry.size data))

end RpmArchive
end Rpm
end Unpackio
