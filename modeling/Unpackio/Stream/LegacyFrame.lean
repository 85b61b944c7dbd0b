/-
Legacy LZ4 frames, made of the blocks of compressed chunks.

The format bounds a chunk by eight MiB, and `parse_legacy_frame` bounds its block.
The block of a chunk that does not compress is longer than the chunk.
-/
import Unpackio.Foundation.Lz77
import Unpackio.Stream.Lz4Table

namespace Unpackio
namespace Lz4

open List (append_assoc append_nil forall_mem_cons length_append length_cons)
open StreamCursor Delimited
open FrameFormat (Whole)

def CompressedChunk (block : List UInt8) : Prop :=
  ∃ chunk, chunk.length ≤ legacyBlockBytes ∧ Lz4Block.Expands [] block chunk ∧
    block.length ≤ Lz4Block.compressBound legacyBlockBytes

def legacyBlocks (blocks : List (List UInt8)) : List UInt8 :=
  blocks.flatMap fun block => le32 block.length ++ block

def endMark (marked : Bool) : List UInt8 := if marked then le32 0 else []

def legacyFrame (blocks : List (List UInt8)) (marked : Bool) : List UInt8 :=
  le32 lz4LegacyMagic ++ (legacyBlocks blocks ++ endMark marked)

theorem legacyBlocks_cons (block : List UInt8) (blocks : List (List UInt8)) :
    legacyBlocks (block :: blocks) = le32 block.length ++ block ++ legacyBlocks blocks := rfl

theorem CompressedChunk.size {block : List UInt8} (h : CompressedChunk block) :
    0 < block.length ∧ block.length < 2 ^ 32 ∧ ¬IsFrameMagic block.length := by
  obtain ⟨chunk, -, hexpands, hbound⟩ := h
  have hpos : 0 < block.length := List.length_pos_iff.mpr hexpands.ne_nil
  have hlt : block.length < 2 ^ 24 := Nat.lt_of_le_of_lt hbound (by decide)
  refine ⟨hpos, Nat.lt_trans hlt (by decide), ?_⟩
  simp only [IsFrameMagic, IsSkippable, lz4Magic, lz4LegacyMagic, skippableMagicStart,
    skippableMagicEnd]
  omega

theorem laterBlock_takes {block : List UInt8} (h : CompressedChunk block)
    (hfits : block.length ≤ legacyBlockBytes) :
    Takes (track "lz4") (fun _ => True) laterBlock (le32 block.length ++ block) false := by
  obtain ⟨hpos, hlt, hmagic⟩ := h.size
  have hpayload : Takes (track "lz4") (fun _ => True) (legacyPayload block.length)
      (block ++ []) false := by
    rw [legacyPayload, if_neg (Nat.ne_of_gt hpos)]
    exact Takes.seq (.lift (rejectIf_of_not (Nat.not_lt_of_le hfits) _) _)
      (Takes.bind (skip_takes block _) (.pure _ _))
  intro front rest _ hbound
  have hbound' : (front ++ le32 block.length ++ (block ++ rest)).length < 2 ^ 64 := by
    simpa only [track_bound, append_assoc] using hbound
  have hrun := hpayload (front ++ le32 block.length) rest trivial
    (by simpa only [track_bound, append_nil, append_assoc] using hbound)
  show laterBlock (split "lz4" front (le32 block.length ++ block ++ rest)) = _
  rw [append_assoc, laterBlock_payload hlt hmagic hbound']
  simpa only [track, append_nil, append_assoc] using hrun

/-- A longer block is refused, whatever its chunk. -/
theorem laterBlock_refuses {block : List UInt8} (h : CompressedChunk block)
    (hlong : legacyBlockBytes < block.length) {front rest : List UInt8}
    (hbound : (front ++ le32 block.length ++ rest).length < 2 ^ 64) :
    laterBlock (split "lz4" front (le32 block.length ++ rest)) =
      .error (lz4Error "legacy block exceeds eight MiB") := by
  obtain ⟨hpos, hlt, hmagic⟩ := h.size
  rw [laterBlock_payload hlt hmagic hbound, legacyPayload, if_neg (Nat.ne_of_gt hpos)]
  show (rejectIf _ _ >>= _ : Except Error _) >>= _ = _
  rw [rejectIf_of hlong]
  rfl

theorem laterBlock_endMark :
    Takes (track "lz4") (fun _ => True) laterBlock (le32 0) true := by
  intro front rest _ hbound
  exact laterBlock_payload (by decide) (by decide) hbound

variable {exhausted : Error} {blocks : List (List UInt8)}

theorem untilLast_endMark (marked : Bool) (fuel : Nat) :
    Takes (track "lz4") (Boundary IsFrameMagic) (untilLast exhausted laterBlock (fuel + 1))
      (endMark marked) () := by
  cases marked with
  | true => exact untilLast_last (laterBlock_endMark.imp fun _ _ => trivial) fuel
  | false =>
    refine untilLast_last (fun front rest hrest _ => ?_) fuel
    show laterBlock (split "lz4" front rest) = _
    rw [laterBlock_boundary hrest, endMark, if_neg Bool.false_ne_true, append_nil]
    rfl

section

variable (hblocks : ∀ block ∈ blocks, CompressedChunk block)
include hblocks

theorem untilLast_blocks (hfits : ∀ block ∈ blocks, block.length ≤ legacyBlockBytes) (marked : Bool)
    {fuel : Nat} (hfuel : blocks.length < fuel) :
    Takes (track "lz4") (Boundary IsFrameMagic) (untilLast exhausted laterBlock fuel)
      (legacyBlocks blocks ++ endMark marked) () := by
  induction blocks generalizing fuel with
  | nil =>
    obtain ⟨fuel, rfl⟩ : ∃ left, fuel = left + 1 := ⟨fuel - 1, by omega⟩
    exact untilLast_endMark marked fuel
  | cons block blocks ih =>
    obtain ⟨hblock, hrest⟩ := forall_mem_cons.mp hblocks
    obtain ⟨hfit, hfitRest⟩ := forall_mem_cons.mp hfits
    obtain ⟨fuel, rfl⟩ : ∃ left, fuel = left + 1 := ⟨fuel - 1, by omega⟩
    rw [length_cons] at hfuel
    rw [legacyBlocks_cons, append_assoc]
    exact untilLast_next (laterBlock_takes hblock hfit) (ih hrest hfitRest (by omega))

theorem untilLast_refuses (hlong : ∃ block ∈ blocks, legacyBlockBytes < block.length)
    {front rest : List UInt8} (hbound : (front ++ legacyBlocks blocks ++ rest).length < 2 ^ 64)
    {fuel : Nat} (hfuel : blocks.length < fuel) :
    untilLast exhausted laterBlock fuel (split "lz4" front (legacyBlocks blocks ++ rest)) =
      .error (lz4Error "legacy block exceeds eight MiB") := by
  induction blocks generalizing front fuel with
  | nil =>
    obtain ⟨block, hmem, -⟩ := hlong
    exact absurd hmem List.not_mem_nil
  | cons block blocks ih =>
    obtain ⟨hblock, hrest⟩ := forall_mem_cons.mp hblocks
    obtain ⟨fuel, rfl⟩ : ∃ left, fuel = left + 1 := ⟨fuel - 1, by omega⟩
    rw [length_cons] at hfuel
    have hassoc : legacyBlocks (block :: blocks) ++ rest =
        le32 block.length ++ block ++ (legacyBlocks blocks ++ rest) := by
      rw [legacyBlocks_cons, append_assoc]
    rw [append_assoc, hassoc] at hbound
    rw [hassoc, untilLast, run_bind]
    by_cases hfit : block.length ≤ legacyBlockBytes
    · have hfirst : laterBlock (split "lz4" front
          (le32 block.length ++ block ++ (legacyBlocks blocks ++ rest))) =
            .ok (false, split "lz4" (front ++ (le32 block.length ++ block))
              (legacyBlocks blocks ++ rest)) :=
        laterBlock_takes hblock hfit front (legacyBlocks blocks ++ rest) trivial
          (by simpa only [track_bound, append_assoc] using hbound)
      have hlater : ∃ block ∈ blocks, legacyBlockBytes < block.length := by
        obtain ⟨long, hmem, hlt⟩ := hlong
        rcases List.mem_cons.mp hmem with rfl | hmem
        · exact absurd hfit (Nat.not_le_of_lt hlt)
        · exact ⟨long, hmem, hlt⟩
      rw [hfirst]
      exact ih hrest hlater (by simpa only [append_assoc] using hbound) (by omega)
    · rw [append_assoc, laterBlock_refuses hblock (Nat.lt_of_not_le hfit)
        (by simpa only [append_assoc] using hbound)]
      rfl

theorem length_legacyBlocks : blocks.length ≤ (legacyBlocks blocks).length := by
  induction blocks with
  | nil => exact Nat.le_refl 0
  | cons block blocks ih =>
    obtain ⟨hblock, hrest⟩ := forall_mem_cons.mp hblocks
    have htail := ih hrest
    have hpos := hblock.size.1
    rw [legacyBlocks_cons, length_append, length_append, length_cons]
    omega

end

def legacyParsed : ParsedFrame where
  contentSize := none
  contentChecksum := false
  blockChecksums := false
  dictionary := false
  maximumBlockBytes := legacyBlockBytes
  workingBytes := legacyBlockBytes * 3 + lz4HistoryBytes

variable {xxHash32 : List UInt8 → UInt64}

section

variable (hblocks : ∀ block ∈ blocks, CompressedChunk block)
include hblocks

theorem legacyFrame_frame (hfits : ∀ block ∈ blocks, block.length ≤ legacyBlockBytes)
    (marked : Bool) : Frame xxHash32 (legacyFrame blocks marked) (true, legacyParsed) := by
  have hcount := length_legacyBlocks hblocks
  have hrounds : Takes (track "lz4") (Boundary IsFrameMagic)
      (rounds (lz4Error "legacy block header is truncated") laterBlock)
      (legacyBlocks blocks ++ endMark marked) () := by
    refine rounds_takes fun fuel hfuel => untilLast_blocks hblocks hfits marked ?_
    rw [length_append] at hfuel
    omega
  refine ⟨_, rfl, fun front rest hrest hbound => ?_⟩
  rw [legacyBody, run_bind, hrounds front rest hrest hbound]
  rfl

theorem parse_legacyFrame_refuses (hlong : ∃ block ∈ blocks, legacyBlockBytes < block.length)
    {rest : List UInt8} {limits : Limits} (hlimits : 1 ≤ limits.maxStreamFrames)
    (hlen : (le32 lz4LegacyMagic ++ (legacyBlocks blocks ++ rest)).length < 2 ^ 64) :
    parse xxHash32 (le32 lz4LegacyMagic ++ (legacyBlocks blocks ++ rest)) limits =
      .error (lz4Error "legacy block exceeds eight MiB") := by
  have hcount := length_legacyBlocks hblocks
  have henter : (frameFormat xxHash32 limits).enter Totals.empty =
      .ok { Totals.empty with totalFrames := 1 } := by
    show (checkFrameCount 1 limits >>= _ : Except Error _) = _
    rw [checkFrameCount, checkLimit_of_le hlimits]
    rfl
  have hbody : legacyBody (split "lz4" (le32 lz4LegacyMagic) (legacyBlocks blocks ++ rest)) =
      .error (lz4Error "legacy block exceeds eight MiB") := by
    rw [legacyBody, run_bind, rounds,
      untilLast_refuses hblocks hlong (by rwa [append_assoc])
        (by simp only [split, length_append]; omega)]
    rfl
  have hframe : (frameFormat xxHash32 limits).frame { Totals.empty with totalFrames := 1 }
      (split "lz4" [] (le32 lz4LegacyMagic ++ (legacyBlocks blocks ++ rest))) =
        .error (lz4Error "legacy block exceeds eight MiB") := by
    refine (FrameFormat.frame_split (by decide) hlen _).trans ?_
    rw [if_neg (by decide)]
    show dataFrame xxHash32 [].length lz4LegacyMagic _ (split "lz4" ([] ++ _) _) = _
    rw [dataFrame_legacy, List.nil_append, hbody]
    rfl
  have hne : le32 lz4LegacyMagic ++ (legacyBlocks blocks ++ rest) ≠ [] := List.cons_ne_nil _ _
  rw [parse, FrameFormat.scan_frame_error hne henter hframe]
  rfl

theorem parse_legacyFrame (hfits : ∀ block ∈ blocks, block.length ≤ legacyBlockBytes)
    (marked : Bool) {following : List (Piece DataFrame)}
    (hfollowing : ∀ piece ∈ following, Whole (Frame xxHash32) piece) {limits : Limits}
    (hlimits : following.length + 1 ≤ limits.maxStreamFrames)
    (hlen : (legacyFrame blocks marked ++ frameBytes following).length < 2 ^ 64) :
    ∃ info size frame frames,
      parse xxHash32 (legacyFrame blocks marked ++ frameBytes following) limits =
        .ok (info, size, frame :: frames) ∧
      frame.start = 0 ∧ frame.finish = (legacyFrame blocks marked).length := by
  have lawful : (frameFormat xxHash32 limits).Lawful IsFrameMagic (Frame xxHash32) add :=
    frameFormat_lawful limits
  have laws : (counting limits).Lawful (frameFormat xxHash32 limits) (Frame xxHash32) add limits :=
    counting_lawful limits
  obtain ⟨pieces, hpieces⟩ : ∃ pieces, pieces =
      (⟨legacyFrame blocks marked, some (true, legacyParsed)⟩ : Piece DataFrame) :: following :=
    ⟨_, rfl⟩
  have hwhole : ∀ piece ∈ pieces, Whole (Frame xxHash32) piece := by
    have hfirst : Frame xxHash32 (legacyFrame blocks marked) (true, legacyParsed) :=
      legacyFrame_frame hblocks hfits marked
    rw [hpieces]
    exact forall_mem_cons.mpr ⟨hfirst, hfollowing⟩
  have hbytes : frameBytes pieces = legacyFrame blocks marked ++ frameBytes following := by
    rw [hpieces, frameBytes_cons]
  have hlength : pieces.length = following.length + 1 := by rw [hpieces, length_cons]
  rw [← hbytes] at hlen ⊢
  have hcount := lawful.length_pieces hwhole
  have hroom : (counting limits).room Totals.empty pieces.length :=
    laws.room_empty _ (by omega) (by omega)
  have hfit : SizesFit ((counting limits).aggregate Totals.empty)
      ((counting limits).sizes pieces) := by
    rw [hpieces]
    exact sizesFit_some.mpr (show 0 + 0 < 2 ^ 64 by decide)
  have hscan := lawful.scan_run hwhole hlen Totals.empty
  rw [laws.tally_eq hwhole hroom (sizesFit_some.mpr (by decide)), if_pos hfit] at hscan
  obtain ⟨totals, htotals⟩ : ∃ totals, (counting limits).run Totals.empty 0 pieces = totals :=
    ⟨_, rfl⟩
  rw [htotals] at hscan
  have hdata : totals.dataFrames ≠ 0 := by
    have hframes := laws.frames_run Totals.empty 0 pieces
    have hskippable := laws.skippable_run Totals.empty 0 pieces
    have hfirst : Counting.skippables pieces ≤ following.length := by
      have hcons : Counting.skippables pieces = Counting.skippables following := by
        rw [hpieces]
        exact List.countP_cons_of_neg Bool.false_ne_true
      rw [hcons]
      exact List.countP_le_length
    rw [htotals] at hframes hskippable
    have hframes' : totals.dataFrames + totals.skippableFrames = 0 + pieces.length := hframes
    have hskippable' : totals.skippableFrames = 0 + Counting.skippables pieces := hskippable
    omega
  have hranges := laws.ranges_run Totals.empty 0 pieces
  rw [htotals, hpieces] at hranges
  obtain ⟨frame, frames, hframes, hframe, -⟩ := List.map_eq_cons_iff.mp hranges
  refine ⟨totals.info, totals.aggregateSize, frame, frames, ?_, congrArg Prod.fst hframe, ?_⟩
  · rw [parse, hscan, Except.ok_bind, rejectIf_of_not hdata, Except.ok_bind, hframes]
    rfl
  · exact (congrArg Prod.snd hframe).trans (Nat.zero_add _)

end

/-- A legacy frame of compressed chunks is accepted exactly when no block is longer
than the longest chunk. -/
theorem legacyFrame_accepted_iff (xxHash32 : List UInt8 → UInt64) (blocks : List (List UInt8))
    (hblocks : ∀ block ∈ blocks, CompressedChunk block) (marked : Bool)
    (following : List (Piece DataFrame))
    (hfollowing : ∀ piece ∈ following, Whole (Frame xxHash32) piece) (limits : Limits)
    (hlimits : following.length + 1 ≤ limits.maxStreamFrames)
    (hlen : (legacyFrame blocks marked ++ frameBytes following).length < 2 ^ 64) :
    (∃ info size frame frames,
      parse xxHash32 (legacyFrame blocks marked ++ frameBytes following) limits =
        .ok (info, size, frame :: frames) ∧
      frame.start = 0 ∧ frame.finish = (legacyFrame blocks marked).length) ↔
      ∀ block ∈ blocks, block.length ≤ legacyBlockBytes := by
  constructor
  · rintro ⟨info, size, frame, frames, hparse, -, -⟩ block hmem
    refine Nat.le_of_not_lt fun hlong => ?_
    rw [legacyFrame, append_assoc, append_assoc] at hparse hlen
    rw [parse_legacyFrame_refuses hblocks ⟨block, hmem, hlong⟩ (by omega) hlen] at hparse
    exact (nomatch hparse)
  · intro hfits
    exact parse_legacyFrame hblocks hfits marked hfollowing hlimits hlen

theorem compressedChunk_literalBlock {chunk : List UInt8} (hchunk : chunk.length ≤ legacyBlockBytes)
    (hlen : (Lz4Block.literalBlock chunk).length ≤ Lz4Block.compressBound legacyBlockBytes) :
    CompressedChunk (Lz4Block.literalBlock chunk) :=
  ⟨chunk, hchunk, Lz4Block.expands_literalBlock chunk, hlen⟩

def shortBlocks : List (List UInt8) :=
  [Lz4Block.literalBlock [1, 2, 3], Lz4Block.literalBlock [4]]

theorem shortBlocks_compressed : ∀ block ∈ shortBlocks, CompressedChunk block :=
  List.forall_mem_cons.mpr ⟨compressedChunk_literalBlock (by decide) (by decide),
    List.forall_mem_singleton.mpr (compressedChunk_literalBlock (by decide) (by decide))⟩

/-- Two blocks and an end mark, and another legacy frame behind them. -/
theorem legacyFrame_accepted_iff_short :
    ∃ info size frame frames,
      parse (fun _ => 0) (legacyFrame shortBlocks true ++ legacyFrame shortBlocks false) .default =
        .ok (info, size, frame :: frames) ∧
      frame.start = 0 ∧ frame.finish = (legacyFrame shortBlocks true).length := by
  have hfits : ∀ block ∈ shortBlocks, block.length ≤ legacyBlockBytes := by decide
  have hbehind : Frame (fun _ => 0) (legacyFrame shortBlocks false) (true, legacyParsed) :=
    legacyFrame_frame shortBlocks_compressed hfits false
  have h := (legacyFrame_accepted_iff (fun _ => 0) shortBlocks shortBlocks_compressed true
    [⟨legacyFrame shortBlocks false, some (true, legacyParsed)⟩]
    (List.forall_mem_singleton.mpr hbehind) .default (by decide) (by decide)).mpr hfits
  rwa [frameBytes_cons, frameBytes_nil, append_nil] at h

/-- The high bytes of a linear congruential generator, which have next to no matches. -/
def noise : Nat → Nat → List UInt8
  | 0, _ => []
  | count + 1, state =>
    UInt8.ofNat (state / 2 ^ 24) :: noise count ((1664525 * state + 1013904223) % 2 ^ 32)

theorem length_noise (count state : Nat) : (noise count state).length = count := by
  induction count generalizing state with
  | zero => rfl
  | succ count ih => rw [noise, length_cons, ih]

def noiseBlock : List UInt8 := Lz4Block.literalBlock (noise legacyBlockBytes 1)

theorem length_noiseBlock : noiseBlock.length = 8421506 := by
  rw [noiseBlock, Lz4Block.length_literalBlock, length_noise]
  rfl

theorem compressedChunk_noiseBlock : CompressedChunk noiseBlock := by
  refine compressedChunk_literalBlock (Nat.le_of_eq (length_noise _ _)) ?_
  rw [← noiseBlock, length_noiseBlock]
  decide

/-- A frame of one legal block that the parser does not accept. -/
theorem noiseBlock_refused :
    (∀ block ∈ [noiseBlock], CompressedChunk block) ∧
      parse (fun _ => 0) (legacyFrame [noiseBlock] true) .default =
        .error (lz4Error "legacy block exceeds eight MiB") := by
  have hblocks : ∀ block ∈ [noiseBlock], CompressedChunk block :=
    List.forall_mem_singleton.mpr compressedChunk_noiseBlock
  have hlong : ∃ block ∈ [noiseBlock], legacyBlockBytes < block.length :=
    ⟨noiseBlock, List.mem_singleton_self _, by rw [length_noiseBlock]; decide⟩
  have hlen : (le32 lz4LegacyMagic ++ (legacyBlocks [noiseBlock] ++ endMark true)).length <
      2 ^ 64 := by
    have hfour : ∀ value, (le32 value).length = 4 := length_toLeBytes 4
    have hnone : (legacyBlocks []).length = 0 := rfl
    have hmark : (endMark true).length = 4 := rfl
    rw [length_append, length_append, legacyBlocks_cons, length_append,
      length_append, length_noiseBlock, hfour, hfour, hnone, hmark]
    decide
  exact ⟨hblocks, parse_legacyFrame_refuses hblocks hlong (by decide) hlen⟩

end Lz4
end Unpackio
