/-
The single path, the batch path and the verification of every format agree.
-/
import Unpackio.Arj.Agreement
import Unpackio.Arj.Prefix
import Unpackio.Deb.Agreement
import Unpackio.Rpm.Agreement
import Unpackio.Zip.Agreement

namespace Unpackio

open Extraction

/-- In every archive that the readers of ZIP, ARJ, CPIO, Debian and RPM files open, the three
ways through the members agree. -/
theorem readPaths_agree {Password : Type} (codecs : Zip.Codecs Password) (locate : Zip.Locator)
    (lzh : Arj.LzhDecoder) (container : Rpm.DecodeContainer) (package : Rpm.Codecs)
    (hcodecs : codecs.Steady)
    (hpayload : ∀ input compression limits maximum payload,
      (package.decodeContainerPayload input compression limits maximum).CanReturn payload →
        payload.length < 2 ^ 64)
    (bytes : List UInt8) (hlen : bytes.length < 2 ^ 64) (limits : Limits) :
    (∀ password archive,
      (Zip.ZipArchive.openBytesInner locate bytes limits password).CanReturn archive →
        (archive.reader codecs).Agrees) ∧
    (∀ archive, (Arj.openBytes bytes limits).CanReturn archive → (archive.reader lzh).Agrees) ∧
    (∀ archive, (Cpio.CpioArchive.openBytes bytes limits).CanReturn archive →
      archive.reader.Agrees) ∧
    (∀ archive, (Deb.DebArchive.openBytes container bytes limits).CanReturn archive →
      archive.reader.Agrees) ∧
    (∀ archive, (Rpm.RpmArchive.openBytes package bytes limits).CanReturn archive →
      archive.reader.Agrees) := by
  refine ⟨?_, ?_, ?_, ?_, ?_⟩
  · intro password archive h
    exact (Zip.ZipArchive.fetches hcodecs (Zip.ZipArchive.opened_numbered hlen h)).agrees
  · intro archive h
    exact (Arj.ArjArchive.sized (Arj.opened_numbered h)).fetches.agrees
  · intro archive h
    exact (Cpio.CpioArchive.sized (Cpio.CpioArchive.opened_accepted hlen h)).fetches.agrees
  · intro archive h
    obtain ⟨hnumbered, hends⟩ := Deb.DebArchive.opened_counts h
    exact (Deb.DebArchive.sized hnumbered hends).fetches.agrees
  · intro archive h
    exact (Rpm.RpmArchive.sized
      (Rpm.RpmArchive.opened_accepted (fun input compression => hpayload input compression limits)
        h)).fetches.agrees

/-- A decoder that copies an input within the maximum. -/
def copyWithin (input : List UInt8) (maximum : Nat) : Metered (List UInt8) := do
  checkLimit input.length maximum .totalOutputBytes
  return input

theorem copyWithin_canReturn {input data : List UInt8} {maximum : Nat} :
    (copyWithin input maximum).CanReturn data ↔ input.length ≤ maximum ∧ input = data := by
  simp only [copyWithin, Prog.CanReturn.bind_iff, Prog.CanReturn.lift_iff,
    Prog.CanReturn.pure_iff, checkLimit_eq_ok, exists_const]

theorem copyWithin_steady (input : List UInt8) : Zip.Steady (copyWithin input) := by
  intro maximum larger data hle h
  obtain ⟨hlen, rfl⟩ := copyWithin_canReturn.mp (.of_granted h)
  rw [copyWithin, checkLimit_of_le (Nat.le_trans hlen hle)]
  rfl

def copyCodecs : Zip.Codecs Unit where
  decryptZipcrypto _ _ _ := throw .passwordRequired
  decryptWinzipAes _ _ _ _ := throw .passwordRequired
  decodeDeflate input _ maximum _ := copyWithin input maximum
  decodeDeflate64 input _ maximum _ := copyWithin input maximum
  decodeBzip2 input _ maximum _ := copyWithin input maximum
  decodeLzma input _ _ maximum := copyWithin input maximum
  decodeZstd input _ maximum _ := copyWithin input maximum
  decodeXz input _ maximum _ _ := copyWithin input maximum
  decodeZipPpmd input _ maximum _ := copyWithin input maximum
  decodeZipWavpack input _ maximum _ := copyWithin input maximum
  decodeZipJpeg input _ maximum _ := copyWithin input maximum

theorem copyCodecs_steady : copyCodecs.Steady := by
  constructor <;> intros <;> exact copyWithin_steady _

def copyContainer : Rpm.DecodeContainer := fun input _ _ maximum =>
  copyWithin input (min maximum (2 ^ 64 - 1))

def openedZip : Zip.ZipArchive Unit where
  bytes := Zip.sampleBytes
  entries := Zip.sampleParsed.entries
  comment := []
  limits := Limits.default
  password := none

/-- A ZIP archive, an ARJ archive and a CPIO archive of two formats. -/
theorem readPaths_agree_mixed :
    ((Zip.ZipArchive.openBytesInner Zip.sampleLocate Zip.sampleBytes Limits.default none).granted =
        .ok openedZip ∧ (openedZip.reader copyCodecs).Agrees) ∧
    ((Arj.openBytes Arj.sampleArchive Limits.default).granted =
        .ok (Arj.sampleOpened Limits.default) ∧
      ((Arj.sampleOpened Limits.default).reader Arj.copyLzh).Agrees) ∧
    (Cpio.CpioArchive.openBytes Cpio.mixedArchive.bytes Limits.default).granted =
        .ok Cpio.mixedArchive ∧ Cpio.mixedArchive.reader.Agrees := by
  have hagree := readPaths_agree copyCodecs Zip.sampleLocate Arj.copyLzh copyContainer
    ⟨fun _ => [], fun _ => [], copyContainer⟩ copyCodecs_steady (fun _ _ _ _ _ h => by
      obtain ⟨hlen, rfl⟩ := copyWithin_canReturn.mp h
      omega)
  have hzip := show (Zip.ZipArchive.openBytesInner Zip.sampleLocate Zip.sampleBytes Limits.default
      none).granted = .ok openedZip by decide +kernel
  have harj := show (Arj.openBytes Arj.sampleArchive Limits.default).granted =
      .ok (Arj.sampleOpened Limits.default) by decide +kernel
  have hcpio := show (Cpio.CpioArchive.openBytes Cpio.mixedArchive.bytes Limits.default).granted =
      .ok Cpio.mixedArchive by decide +kernel
  exact ⟨⟨hzip, (hagree _ (by decide +kernel) Limits.default).1 none _ (.of_granted hzip)⟩,
    ⟨harj, (hagree _ (by decide +kernel) Limits.default).2.1 _ (.of_granted harj)⟩, hcpio,
    (hagree _ (by decide +kernel) Limits.default).2.2.1 _ (.of_granted hcpio)⟩

end Unpackio
