/-
The ways to read a member of an ARJ archive, from `arj/mod.rs`, and that they agree.
-/
import Unpackio.Arj.Archive
import Unpackio.Arj.FastestExact
import Unpackio.Cpio.Tiling

namespace Unpackio
namespace Arj

open Except (bind_eq_ok ok_bind)
open Extraction
open Prog (CanReturn granted_bind granted_bind_eq_ok granted_rest)
open Prog.CanReturn (bind_iff lift_iff pure_iff)

variable (lzh : LzhDecoder)

/-- As for CPIO. -/
def checkedOutputTotal : Nat → Nat → Limits → Except Error Nat := Cpio.checkedOutputTotal

namespace ArjArchive

variable (archive : ArjArchive)

def requiredEntry (index : Nat) : Except Error ArjEntry :=
  okOr archive.entries[index]? (arjFormat "entry index is out of range")

def extractEntryTo (entryIndex : Nat) : Copying Nat := do
  let entry ← archive.requiredEntry entryIndex
  let output ← (archive.decodeVerified lzh entry).mapRequest CopyRequest.work
  copyChunks output
  return entry.originalSize

def fetch (total : Nat) (entry : ArjEntry) : Metered (Nat × List UInt8) := do
  let total ← checkedOutputTotal total entry.originalSize archive.limits
  let output ← archive.decodeVerified lzh entry
  return (total, output)

def extractEntriesTo : Extracting ArjEntry Nat :=
  extractLoop ArjEntry.index (archive.fetch lzh) archive.entries 0

def verify : Metered Unit :=
  verifyLoop (fun total entry => Prod.fst <$> archive.fetch lzh total entry) archive.entries 0

/-- The entry is not encrypted, and its bytes have its size and its checksum. -/
structure Intact (entry : ArjEntry) (data : List UInt8) : Prop where
  plain : entry.encrypted = false
  size : data.length = entry.originalSize
  checked : ∀ expected, entry.crc32 = some expected → (Crc32.checksum data).toNat = expected

def reader : Reader ArjEntry where
  entries := archive.entries
  index := ArjEntry.index
  Intact := Intact
  extractEntryTo := archive.extractEntryTo lzh
  extractEntriesTo := archive.extractEntriesTo lzh
  verify := archive.verify lzh

end ArjArchive

variable {limits : Limits} {compressed data : List UInt8} {originalSize : Nat}

theorem readEntry_index {bytes : List UInt8} {record : HeaderRecord} {totals : HeaderTotals}
    {count totalNameBytes : Nat} {result : ArjEntry × HeaderTotals × Nat}
    (h : (readEntry bytes limits record totals count totalNameBytes).CanReturn result) :
    result.1.index = count := by
  rw [readEntry, bind_iff] at h
  obtain ⟨header, -, h⟩ := h
  rw [bind_iff] at h
  obtain ⟨_, -, h⟩ := h
  rw [bind_iff] at h
  obtain ⟨⟨dataStart, counted⟩, -, h⟩ := h
  simp only [bind_iff, lift_iff, pure_iff, okOr_eq_ok,
    checkedAdd_eq_some, checkedSub_eq_some] at h
  obtain ⟨_, -, _, -, nextCount, ⟨-, hnext⟩, _, -, _, -, _, -, _, -, _, -, index,
    ⟨-, hindex⟩, rfl⟩ := h
  show index = count
  omega

theorem entryLoop_numbered {bytes : List UInt8} {fuel offset : Nat} {totals : HeaderTotals}
    {totalNameBytes : Nat} {entries : List ArjEntry} (hentries : Numbered ArjEntry.index 0 entries)
    {result : Nat × List ArjEntry}
    (h : (entryLoop bytes limits fuel offset totals totalNameBytes entries).CanReturn result) :
    Numbered ArjEntry.index 0 result.2 := by
  induction fuel generalizing offset totals totalNameBytes entries with
  | zero => exact nomatch lift_iff.mp h
  | succ fuel ih =>
    rw [entryLoop, bind_iff] at h
    obtain ⟨_, -, h⟩ := h
    rw [bind_iff] at h
    obtain ⟨found, -, h⟩ := h
    cases found with
    | none =>
      cases pure_iff.mp h
      exact hentries
    | some header =>
      simp only [bind_iff] at h
      obtain ⟨⟨entry, counted, nameBytes⟩, hentry, h⟩ := h
      refine ih (hentries.concat ?_) h
      rw [readEntry_index hentry, Nat.zero_add]

theorem opened_numbered {bytes : List UInt8} {archive : ArjArchive}
    (h : (openBytes bytes limits).CanReturn archive) :
    Numbered ArjEntry.index 0 archive.entries := by
  simp only [openBytes, bind_iff, pure_iff] at h
  obtain ⟨_, -, ⟨sfxOffset, record, totals⟩, -, fields, -, entries, hentries, rfl⟩ := h
  show Numbered ArjEntry.index 0 entries
  simp only [openEntries, bind_iff] at hentries
  obtain ⟨⟨offset, counted⟩, -, _, -, _, -, ⟨behind, found⟩, hloop, terminalEnd, -,
    trailingLength, -, hentries⟩ := hentries
  have hfound : found = entries := by
    by_cases htrailing : 0 < trailingLength
    · simp only [if_pos htrailing, bind_iff, pure_iff] at hentries
      obtain ⟨_, -, _, -, _, -, heq⟩ := hentries
      exact heq
    · rw [if_neg htrailing] at hentries
      exact pure_iff.mp hentries
  exact hfound ▸ entryLoop_numbered .nil hloop

theorem storedLoop_granted (pieces : List (List UInt8)) (output : List UInt8)
    {result : List UInt8} (h : (storedLoop pieces output).granted = .ok result) :
    result = output ++ pieces.flatten := by
  induction pieces generalizing output with
  | nil =>
    cases h
    exact (List.append_nil _).symm
  | cons chunk pieces ih =>
    rw [storedLoop, granted_bind] at h
    obtain ⟨units, -, h⟩ := bind_eq_ok.mp h
    rw [checkpoint_bind] at h
    rw [ih _ h, List.flatten_cons, List.append_assoc]

theorem decodeStored_length (h : (decodeStored compressed originalSize).granted = .ok data) :
    data.length = originalSize := by
  rw [decodeStored, granted_bind] at h
  obtain ⟨_, hsize, h⟩ := bind_eq_ok.mp h
  rw [storedLoop_granted _ _ h, List.nil_append, flatten_chunks (by decide : 0 < controlChunkSize)]
  exact not_not.mp (rejectIf_eq_ok.mp hsize)

theorem decodeFastest_length
    (h : (decodeFastest compressed originalSize limits).granted = .ok data) :
    data.length = originalSize := by
  rw [decodeFastest_granted] at h
  obtain ⟨_, -, h⟩ := bind_eq_ok.mp h
  obtain ⟨⟨output, bits⟩, hloop, h⟩ := bind_eq_ok.mp h
  cases h
  exact fastestLoop_length (Nat.zero_le _) (Nat.le_add_left _ _) hloop

variable {lzh}

theorem lzhLoop_length (pieces : List (List UInt8)) {decoder : lzh.State} {output : List UInt8}
    (h : (lzhLoop lzh pieces decoder output).granted = .ok data) :
    data.length = output.length + pieces.flatten.length := by
  induction pieces generalizing decoder output with
  | nil =>
    cases h
    rfl
  | cons chunk pieces ih =>
    obtain ⟨_, h⟩ := granted_rest h
    obtain ⟨_, -, h⟩ := granted_bind_eq_ok.mp h
    obtain ⟨⟨filled, _⟩, -, h⟩ := granted_bind_eq_ok.mp h
    rw [ih h, List.length_append, Vector.length_toList, List.flatten_cons, List.length_append,
      Nat.add_assoc]

theorem decodeStaticLzh_length
    (h : (decodeStaticLzh lzh compressed originalSize limits).granted = .ok data) :
    data.length = originalSize := by
  obtain ⟨_, h⟩ := granted_rest h
  obtain ⟨_, h⟩ := granted_rest h
  obtain ⟨_, -, h⟩ := granted_bind_eq_ok.mp h
  rw [lzhLoop_length _ h, flatten_chunks (by decide : 0 < controlChunkSize),
    List.length_replicate]
  exact Nat.zero_add _

theorem decode_length {method : ArjCompressionMethod}
    (h : (decode lzh compressed method originalSize limits).granted = .ok data) :
    data.length = originalSize := by
  have hnone : (if compressed.isEmpty ∧ originalSize = 0 then do
        checkpoint 0
        return []
      else throw (arjFormat "no-data method declares member bytes") :
      Metered (List UInt8)).granted = .ok data → data.length = originalSize := by
    intro h
    split at h
    · rename_i hempty
      cases h
      exact hempty.2.symm
    · exact nomatch h
  unfold decode at h
  rw [granted_bind] at h
  obtain ⟨_, -, h⟩ := bind_eq_ok.mp h
  cases method with
  | stored => exact decodeStored_length h
  | compressedMost => exact decodeStaticLzh_length h
  | compressed => exact decodeStaticLzh_length h
  | compressedFaster => exact decodeStaticLzh_length h
  | compressedFastest => exact decodeFastest_length h
  | noDataNoCrc => exact hnone h
  | noData => exact hnone h
  | unknown identifier => exact nomatch h

namespace ArjArchive

variable {archive : ArjArchive}

theorem decodeVerified_intact {entry : ArjEntry}
    (h : (archive.decodeVerified lzh entry).granted = .ok data) : Intact entry data := by
  simp only [decodeVerified, granted_bind, Prog.granted_lift] at h
  obtain ⟨_, hplain, h⟩ := bind_eq_ok.mp h
  obtain ⟨length, -, h⟩ := bind_eq_ok.mp h
  obtain ⟨compressed, -, h⟩ := bind_eq_ok.mp h
  obtain ⟨output, hdecode, h⟩ := bind_eq_ok.mp h
  have hsize := decode_length hdecode
  have hopen := eq_false_of_ne_true (rejectIf_eq_ok.mp hplain)
  cases hcrc : entry.crc32 with
  | none =>
    rw [hcrc] at h
    cases h
    exact ⟨hopen, hsize, fun expected h => by cases hcrc.symm.trans h⟩
  | some expected =>
    simp only [hcrc, granted_bind, Prog.granted_lift, checksumWithControl_granted,
      ok_bind] at h
    obtain ⟨_, hsum, h⟩ := bind_eq_ok.mp h
    cases h
    refine ⟨hopen, hsize, fun other hother => ?_⟩
    cases hcrc.symm.trans hother
    exact not_not.mp (rejectIf_eq_ok.mp hsum)

theorem sized (h : Numbered ArjEntry.index 0 archive.entries) :
    (archive.reader lzh).Sized ArjEntry.originalSize
      (fun total entry => checkedOutputTotal total entry.originalSize archive.limits)
      (archive.decodeVerified lzh) where
  index_eq := h
  extract_eq := rfl
  verify_eq := verifyLoop_granted (fun _ _ _ => Prog.granted_map _ _) 0
  account_eq := fun _ _ _ htotal => (Cpio.CpioArchive.checkedOutputTotal_eq_ok.mp htotal).2.2.2.symm
  load_eq := fun entry _ data hdata => by
    have hintact := decodeVerified_intact hdata
    exact ⟨hintact.size, hintact⟩
  copies := fun i entry hentry before total data htotal hdata => by
    have hrequired : archive.requiredEntry i = .ok entry := by
      rw [requiredEntry, show archive.entries[i]? = some entry from hentry, okOr_some]
    exact .lift hrequired (.work hdata (.copied entry.originalSize data))

end ArjArchive
end Arj
end Unpackio
