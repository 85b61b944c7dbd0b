/-
Frame tables of concatenated streams.
-/
import Mathlib.Control.Monad.Basic
import Unpackio.Stream.Lz4Table
import Unpackio.Stream.ZstandardTable

namespace Unpackio

open FrameFormat (Tiles)

/-- One accepted stream behind another has the frames of both, the second shifted,
and what the tables say of all frames is put together.  It is refused only when the
content sizes, as far as they are known, do not fit 64 bits. -/
theorem frameTables_concatenate :
    (∀ (xxHash32 : List UInt8 → UInt64) (a b : List UInt8) (limits : Limits)
      (infoA infoB : Lz4.Lz4StreamInfo) (sizeA sizeB : Option Nat)
      (framesA framesB : List Lz4.Lz4Frame), (a ++ b).length < 2 ^ 64 →
      Lz4.parse xxHash32 a limits = .ok (infoA, sizeA, framesA) →
      Lz4.parse xxHash32 b limits = .ok (infoB, sizeB, framesB) →
      infoA.frameCount + infoA.skippableFrameCount +
        (infoB.frameCount + infoB.skippableFrameCount) ≤ limits.maxStreamFrames →
      (Lz4.parse xxHash32 (a ++ b) limits =
        if SizesFit sizeA (framesB.map Lz4.Lz4Frame.contentSize) then
          .ok (infoA.merge infoB, sumSize sizeA sizeB,
            framesA ++ framesB.map (Lz4.Lz4Frame.shift a.length))
        else .error (streamFormatError "lz4" "aggregate content size overflows")) ∧
      Tiles (a ++ b) 0
        ((framesA ++ framesB.map (Lz4.Lz4Frame.shift a.length)).map fun frame =>
          (frame.start, frame.finish))
        (infoA.merge infoB).skippableFrameCount) ∧
    (∀ (a b : List UInt8) (limits : Limits) (infoA infoB : Zstandard.ZstandardStreamInfo)
      (sizeA sizeB : Option Nat) (framesA framesB : List Zstandard.ZstandardFrame),
      (a ++ b).length < 2 ^ 64 →
      Zstandard.parse a limits = .ok (infoA, sizeA, framesA) →
      Zstandard.parse b limits = .ok (infoB, sizeB, framesB) →
      infoA.frameCount + infoA.skippableFrameCount +
        (infoB.frameCount + infoB.skippableFrameCount) ≤ limits.maxStreamFrames →
      (Zstandard.parse (a ++ b) limits =
        if SizesFit sizeA (framesB.map Zstandard.ZstandardFrame.contentSize) then
          .ok (infoA.merge infoB, sumSize sizeA sizeB,
            framesA ++ framesB.map (Zstandard.ZstandardFrame.shift a.length))
        else .error (streamFormatError "zstandard" "aggregate content size overflows")) ∧
      Tiles (a ++ b) 0
        ((framesA ++ framesB.map (Zstandard.ZstandardFrame.shift a.length)).map fun frame =>
          (frame.start, frame.finish))
        (infoA.merge infoB).skippableFrameCount) := by
  constructor
  · intro xxHash32 a b limits infoA infoB sizeA sizeB framesA framesB hlen ha hb hframes
    exact Lz4.parse_append hlen ha hb hframes
  · intro a b limits infoA infoB sizeA sizeB framesA framesB hlen ha hb hframes
    exact Zstandard.parse_append hlen ha hb hframes

/-- A legacy frame of three bytes without an end mark. -/
def legacySample : List UInt8 := [0x02, 0x21, 0x4c, 0x18, 3, 0, 0, 0, 1, 2, 3]

def framedSample : List UInt8 :=
  [0x50, 0x2a, 0x4d, 0x18, 1, 0, 0, 0, 7,
   0x04, 0x22, 0x4d, 0x18, 0x48, 0x40, 5, 0, 0, 0, 0, 0, 0, 0, 0x2c, 0, 0, 0, 0]

/-- `xxh32` on the descriptor of the frame. -/
def descriptorHash (bytes : List UInt8) : UInt64 :=
  if bytes = [0x48, 0x40, 5, 0, 0, 0, 0, 0, 0, 0] then 0xdf7b2c61 else 0

/-- An empty Zstandard frame that declares a content size. -/
def sizedSample (size : Nat) : List UInt8 :=
  [0x28, 0xb5, 0x2f, 0xfd, 0xc0, 0] ++ toLeBytes 8 size ++ [1, 0, 0]

theorem frameTables_concatenate_samples :
    Lz4.parse descriptorHash (legacySample ++ framedSample) .default =
      .ok (⟨2, 1, 1, 0, 0, 0, 8 * 1024 * 1024⟩, none,
        [⟨0, 11, none, false, false, 25231360⟩, ⟨20, 39, some 5, false, false, 262144⟩]) ∧
    Zstandard.parse (sizedSample 2 ++ sizedSample 3) .default =
      .ok (⟨2, 0, 0, 0, 1024⟩, some 5,
        [⟨0, 17, some 2, 1024, false, false⟩, ⟨17, 34, some 3, 1024, false, false⟩]) := by
  have hlz4 := (frameTables_concatenate.1 descriptorHash legacySample framedSample .default
    ⟨1, 0, 1, 0, 0, 0, 8 * 1024 * 1024⟩ ⟨1, 1, 0, 0, 0, 0, 64 * 1024⟩ none (some 5)
    [⟨0, 11, none, false, false, 25231360⟩] [⟨9, 28, some 5, false, false, 262144⟩]
    (by decide) (by decide +kernel) (by decide +kernel) (by decide)).1
  have hzstd := (frameTables_concatenate.2 (sizedSample 2) (sizedSample 3) .default
    ⟨1, 0, 0, 0, 1024⟩ ⟨1, 0, 0, 0, 1024⟩ (some 2) (some 3)
    [⟨0, 17, some 2, 1024, false, false⟩] [⟨0, 17, some 3, 1024, false, false⟩]
    (by decide) (by decide +kernel) (by decide +kernel) (by decide)).1
  exact ⟨hlz4.trans (if_pos (by decide)), hzstd.trans (if_pos (by decide))⟩

/-- Two accepted frames whose content sizes do not fit 64 bits together. -/
theorem concatenation_refused :
    ¬∀ (a b : List UInt8) (limits : Limits) (infoA infoB : Zstandard.ZstandardStreamInfo)
      (sizeA sizeB : Option Nat) (framesA framesB : List Zstandard.ZstandardFrame),
      (a ++ b).length < 2 ^ 64 →
      Zstandard.parse a limits = .ok (infoA, sizeA, framesA) →
      Zstandard.parse b limits = .ok (infoB, sizeB, framesB) →
      infoA.frameCount + infoA.skippableFrameCount +
        (infoB.frameCount + infoB.skippableFrameCount) ≤ limits.maxStreamFrames →
      ∃ table, Zstandard.parse (a ++ b) limits = .ok table := by
  intro h
  obtain ⟨table, htable⟩ := h (sizedSample (2 ^ 63)) (sizedSample (2 ^ 63)) .default
    ⟨1, 0, 0, 0, 1024⟩ ⟨1, 0, 0, 0, 1024⟩ (some (2 ^ 63)) (some (2 ^ 63))
    [⟨0, 17, some (2 ^ 63), 1024, false, false⟩] [⟨0, 17, some (2 ^ 63), 1024, false, false⟩]
    (by decide) (by decide +kernel) (by decide +kernel) (by decide)
  have hrefused : Zstandard.parse (sizedSample (2 ^ 63) ++ sizedSample (2 ^ 63)) .default =
      .error (streamFormatError "zstandard" "aggregate content size overflows") := by
    decide +kernel
  rw [hrefused] at htable
  exact (nomatch htable)

end Unpackio
