/-
`ZipArchive` of `zip/mod.rs`: opening an archive and the ways to read an entry, which
agree where decoders that succeed give the same bytes under a larger maximum.
-/
import Unpackio.Extraction
import Unpackio.Zip.Parse
import Unpackio.Extraction.Agreement
import Unpackio.Zip.Consistent

namespace Unpackio
namespace Zip

open Extraction

structure ZipArchive (Password : Type) where
  bytes : List UInt8
  entries : List ZipEntry
  comment : List UInt8
  limits : Limits
  password : Option Password
  deriving DecidableEq, Repr

/-- Run against `VerifySink`, which accepts every call. -/
def verifySink {α : Type} : Extracting ZipEntry α → Metered α
  | .done r => .done r
  | .ask (.work units) k => .ask units fun r => verifySink (k r)
  | .ask (.beginEntry _) k => verifySink (k (.ok ()))
  | .ask (.writeEntry _ _) k => verifySink (k (.ok ()))
  | .ask (.finishEntry _) k => verifySink (k (.ok ()))

namespace ZipArchive

variable {Password : Type}

def openBytesInner (locate : Locator) (bytes : List UInt8) (limits : Limits)
    (password : Option Password) : Metered (ZipArchive Password) := do
  checkLimit bytes.length limits.maxTotalInputBytes .totalInputBytes
  let parsed ← parse locate bytes limits
  return ⟨bytes, parsed.entries, parsed.comment, limits, password⟩

variable (codecs : Codecs Password) (archive : ZipArchive Password)

def requiredEntry (index : Nat) : Except Error ZipEntry :=
  okOr archive.entries[index]? (zipFormat "entry index is out of range")

def decoded (entry : ZipEntry) (maximum : Nat) : Metered (List UInt8) :=
  decodeEntry codecs archive.bytes entry archive.password archive.limits maximum

def extractEntryTo (entryIndex : Nat) : Copying Nat := do
  let entry ← archive.requiredEntry entryIndex
  let decoded ← (archive.decoded codecs entry
    (min archive.limits.maxEntryOutputBytes archive.limits.maxTotalOutputBytes)).mapRequest
      CopyRequest.work
  copyChunks decoded
  return decoded.length

/-- The output that is left for one entry. -/
def maximum (total : Nat) : Except Error Nat := do
  let remaining ← okOr (checkedSub archive.limits.maxTotalOutputBytes total)
    (.limitExceeded .totalOutputBytes total archive.limits.maxTotalOutputBytes)
  return min remaining archive.limits.maxEntryOutputBytes

/-- The output with that of one entry. -/
def addSize (total decodedSize : Nat) : Except Error Nat := do
  let total ← okOr (checkedAdd total decodedSize)
    (.limitExceeded .totalOutputBytes (2 ^ 64 - 1) archive.limits.maxTotalOutputBytes)
  checkLimit total archive.limits.maxTotalOutputBytes .totalOutputBytes
  return total

def fetch (total : Nat) (entry : ZipEntry) : Metered (Nat × List UInt8) := do
  let maximum ← archive.maximum total
  let decoded ← archive.decoded codecs entry maximum
  let total ← archive.addSize total decoded.length
  return (total, decoded)

def extractEntriesTo : Extracting ZipEntry Nat :=
  extractLoop ZipEntry.index (archive.fetch codecs) archive.entries 0

def verify : Metered Unit := do
  let _ ← verifySink (archive.extractEntriesTo codecs)
  return ()

end ZipArchive

/-! ## Agreement -/

open Except (bind_eq_ok ok_bind)
open Prog (CanReturn granted_bind granted_lift granted_lift_bind)

variable {Password : Type}

/-- What succeeds under a maximum gives the same under a larger one. -/
def Steady (decode : Nat → Metered (List UInt8)) : Prop :=
  ∀ maximum larger data, maximum ≤ larger → (decode maximum).granted = .ok data →
    (decode larger).granted = .ok data

/-- The decoders that take a maximum are steady in it. -/
structure Codecs.Steady (codecs : Codecs Password) : Prop where
  decodeDeflate : ∀ input expected limits,
    Zip.Steady fun maximum => codecs.decodeDeflate input expected maximum limits
  decodeDeflate64 : ∀ input expected limits,
    Zip.Steady fun maximum => codecs.decodeDeflate64 input expected maximum limits
  decodeBzip2 : ∀ input expected limits,
    Zip.Steady fun maximum => codecs.decodeBzip2 input expected maximum limits
  decodeLzma : ∀ input properties expected,
    Zip.Steady fun maximum => codecs.decodeLzma input properties expected maximum
  decodeZstd : ∀ input expected limits,
    Zip.Steady fun maximum => codecs.decodeZstd input expected maximum limits
  decodeXz : ∀ input expected limits index,
    Zip.Steady fun maximum => codecs.decodeXz input expected maximum limits index
  decodeZipPpmd : ∀ input size limits,
    Zip.Steady fun maximum => codecs.decodeZipPpmd input size maximum limits
  decodeZipWavpack : ∀ input size limits,
    Zip.Steady fun maximum => codecs.decodeZipWavpack input size maximum limits
  decodeZipJpeg : ∀ input size limits,
    Zip.Steady fun maximum => codecs.decodeZipJpeg input size maximum limits

namespace Steady

theorem bind {α : Type} {p : Metered α} {decode : α → Nat → Metered (List UInt8)}
    (h : ∀ a, p.granted = .ok a → Steady (decode a)) :
    Steady fun maximum => p >>= fun a => decode a maximum := by
  intro maximum larger data hle hdata
  simp only [granted_bind] at hdata ⊢
  obtain ⟨a, ha, hdata⟩ := bind_eq_ok.mp hdata
  rw [ha]
  exact h a ha maximum larger data hle hdata

theorem andThen {decode : Nat → Metered (List UInt8)}
    {f : List UInt8 → Metered (List UInt8)} (h : Steady decode) :
    Steady fun maximum => decode maximum >>= f := by
  intro maximum larger data hle hdata
  simp only [granted_bind] at hdata ⊢
  obtain ⟨decoded, hdecoded, hdata⟩ := bind_eq_ok.mp hdata
  rw [h maximum larger decoded hle hdecoded]
  exact hdata

theorem mapError {decode : Nat → Metered (List UInt8)} (g : Error → Error) (h : Steady decode) :
    Steady fun maximum => (decode maximum).mapError g := by
  intro maximum larger data hle hdata
  simp only [Prog.granted_mapError] at hdata ⊢
  rw [h maximum larger data hle (Except.mapError_eq_ok.mp hdata)]
  rfl

theorem const (p : Metered (List UInt8)) : Steady fun _ => p := fun _ _ _ _ h => h

end Steady

section Codecs

variable {codecs : Codecs Password} (h : codecs.Steady)
include h

section

variable (input : List UInt8) (entry : ZipEntry) (limits : Limits)

theorem decodeZipLzma_steady : Steady (decodeZipLzma codecs input entry limits) :=
  .bind fun _ _ => .bind fun _ _ => .bind fun _ _ => .bind fun _ _ => .bind fun _ _ =>
    .bind fun _ _ => .bind fun _ _ => .bind fun _ _ => h.decodeLzma _ _ _

theorem decodeCompressed_steady : Steady (decodeCompressed codecs input entry limits) := by
  unfold decodeCompressed
  cases entry.compression with
  | stored => exact .const _
  | deflate => exact h.decodeDeflate _ _ _
  | deflate64 => exact h.decodeDeflate64 _ _ _
  | bzip2 => exact h.decodeBzip2 _ _ _
  | lzma => exact decodeZipLzma_steady h input entry limits
  | zstandard => exact h.decodeZstd _ _ _
  | zstandardDeprecated => exact h.decodeZstd _ _ _
  | xz => exact .bind fun _ _ => h.decodeXz _ _ _ _
  | ppmd => exact .bind fun _ _ => h.decodeZipPpmd _ _ _
  | wavPack => exact .bind fun _ _ => h.decodeZipWavpack _ _ _
  | jpeg => exact .bind fun _ _ => h.decodeZipJpeg _ _ _
  | mp3 => exact .const _
  | unknown identifier => exact .const _

end

omit h in
theorem checkEntry_larger {entry : ZipEntry} {limits : Limits} {maximum larger : Nat}
    (hle : maximum ≤ larger) {u : Unit} (hcheck : checkEntry entry limits maximum = .ok u) :
    checkEntry entry limits larger = .ok u := by
  obtain ⟨_, hentry, hcheck⟩ := bind_eq_ok.mp hcheck
  obtain ⟨_, hmaximum, hcheck⟩ := bind_eq_ok.mp hcheck
  have hlarger := checkLimit_of_le (Nat.le_trans (checkLimit_eq_ok.mp hmaximum) hle)
    .totalOutputBytes
  rw [checkEntry, hentry, ok_bind, hlarger, ok_bind]
  exact hcheck

theorem decodeEntry_steady (bytes : List UInt8) (entry : ZipEntry) (password : Option Password)
    (limits : Limits) : Steady (decodeEntry codecs bytes entry password limits) := by
  intro maximum larger data hle hdata
  rw [decodeEntry, granted_lift_bind] at hdata ⊢
  obtain ⟨_, hcheck, hdata⟩ := bind_eq_ok.mp hdata
  have hrest : Steady fun maximum => do
      let encrypted ← entryRange bytes entry
      let compressed ← decrypt codecs encrypted entry password limits
      let decoded ← (decodeCompressed codecs compressed entry limits maximum).mapError
        (memberError entry)
      rejectIf (decoded.length ≠ entry.uncompressedSize)
        (memberError entry (zipFormat "decoded size differs from the central declaration"))
      verifyCrc32 entry decoded
      return decoded :=
    .bind fun _ _ => .bind fun compressed _ =>
      .andThen (.mapError _ (decodeCompressed_steady h compressed entry limits))
  rw [checkEntry_larger hle hcheck, ok_bind]
  exact hrest maximum larger data hle hdata

end Codecs

@[simp] theorem verifySink_granted {α : Type} (p : Extracting ZipEntry α) :
    (verifySink p).granted = p.granted := by
  induction p with
  | done r => rfl
  | ask q k ih => cases q <;> exact ih (.ok ())

namespace ZipArchive

variable (codecs : Codecs Password) (archive : ZipArchive Password)

/-- The bytes are decoded from the entry, and have its size and its checksum. -/
structure Intact (entry : ZipEntry) (data : List UInt8) : Prop where
  decodes : ∃ maximum, (archive.decoded codecs entry maximum).granted = .ok data
  size : data.length = entry.uncompressedSize
  checked : ∀ expected, entry.crc32 = some expected → (Crc32.checksum data).toNat = expected

def reader : Reader ZipEntry where
  entries := archive.entries
  index := ZipEntry.index
  Intact := archive.Intact codecs
  extractEntryTo := archive.extractEntryTo codecs
  extractEntriesTo := archive.extractEntriesTo codecs
  verify := archive.verify codecs

variable {codecs archive}

theorem opened_numbered {locate : Locator} {bytes : List UInt8} {limits : Limits}
    {password : Option Password} (hlen : bytes.length < 2 ^ 64)
    (h : (openBytesInner locate bytes limits password).CanReturn archive) :
    Numbered ZipEntry.index 0 archive.entries := by
  simp only [openBytesInner, CanReturn.bind_iff, CanReturn.pure_iff] at h
  obtain ⟨_, -, parsed, hparse, rfl⟩ := h
  obtain ⟨_, _, members, state, -, -, -, hentries, hgathered, -⟩ := parse_gathered hlen hparse
  intro i entry hentry
  have hmember : (members.map Member.entry)[i]? = some entry := by
    rw [← hgathered.entries_eq, ← hentries]
    exact hentry
  rw [List.getElem?_map] at hmember
  obtain ⟨member, hfound, rfl⟩ := Option.map_eq_some_iff.mp hmember
  rw [hgathered.index_eq i member hfound, Nat.zero_add]

theorem decoded_intact {entry : ZipEntry} {maximum : Nat} {data : List UInt8}
    (h : (archive.decoded codecs entry maximum).granted = .ok data) :
    archive.Intact codecs entry data := by
  have hdecodes := h
  simp only [decoded, decodeEntry, granted_bind, granted_lift] at h
  obtain ⟨_, -, h⟩ := bind_eq_ok.mp h
  obtain ⟨encrypted, -, h⟩ := bind_eq_ok.mp h
  obtain ⟨compressed, -, h⟩ := bind_eq_ok.mp h
  obtain ⟨output, -, h⟩ := bind_eq_ok.mp h
  obtain ⟨_, hsize, h⟩ := bind_eq_ok.mp h
  obtain ⟨_, hcrc, h⟩ := bind_eq_ok.mp h
  cases h
  refine ⟨⟨maximum, hdecodes⟩, not_not.mp (rejectIf_eq_ok.mp hsize), fun expected hexpected => ?_⟩
  simp only [verifyCrc32, hexpected, granted_bind, granted_lift,
    checksumWithControl_granted, ok_bind] at hcrc
  exact not_not.mp (rejectIf_eq_ok.mp hcrc)

theorem maximum_le {before maximum : Nat} (h : archive.maximum before = .ok maximum) :
    maximum ≤ min archive.limits.maxEntryOutputBytes archive.limits.maxTotalOutputBytes := by
  obtain ⟨remaining, hremaining, h⟩ := bind_eq_ok.mp h
  obtain ⟨-, hremaining⟩ := checkedSub_eq_ok.mp hremaining
  cases h
  omega

theorem addSize_eq {before size total : Nat} (h : archive.addSize before size = .ok total) :
    total = before + size := by
  obtain ⟨sum, hsum, h⟩ := bind_eq_ok.mp h
  obtain ⟨_, -, h⟩ := bind_eq_ok.mp h
  cases h
  exact (checkedAdd_eq_ok.mp hsum).2.symm

theorem fetches (hcodecs : codecs.Steady) (h : Numbered ZipEntry.index 0 archive.entries) :
    (archive.reader codecs).Fetches (archive.fetch codecs) where
  index_eq := fun i entry hentry => (h i entry hentry).trans (Nat.zero_add i)
  extract_eq := rfl
  verify_eq := by
    show (archive.verify codecs).granted = _
    rw [verify, granted_bind, verifySink_granted, extractEntriesTo, extractLoop_granted]
    rfl
  fetch_eq := fun i entry hentry before total data hfetch => by
    simp only [fetch, granted_bind, granted_lift] at hfetch
    obtain ⟨maximum, hmaximum, hfetch⟩ := bind_eq_ok.mp hfetch
    obtain ⟨decoded, hdecoded, hfetch⟩ := bind_eq_ok.mp hfetch
    obtain ⟨sum, hsum, hfetch⟩ := bind_eq_ok.mp hfetch
    cases hfetch
    have hrequired : archive.requiredEntry i = .ok entry := by
      rw [requiredEntry, show archive.entries[i]? = some entry from hentry, okOr_some]
    have hsingle := decodeEntry_steady hcodecs archive.bytes entry archive.password archive.limits
      _ _ data (maximum_le hmaximum) hdecoded
    have hcopies : Copies (archive.extractEntryTo codecs i) data.length data :=
      .lift hrequired (.work hsingle (.copied data.length data))
    exact ⟨addSize_eq hsum, hentry, decoded_intact hdecoded, hcopies.granted, hcopies.written_eq⟩

end ZipArchive
end Zip
end Unpackio
