/-
The frame tables of Zstandard streams are compositional.
-/
import Unpackio.Stream.Zstandard

namespace Unpackio
namespace Zstandard

open Except (bind_eq_ok ok_bind)
open StreamCursor Delimited FrameFormat

theorem readContentSize_delimits (length : Nat) :
    Delimits (track "zstandard") anything (readContentSize length) :=
  .ite (.pure _ _) (.bind (readLe_delimits _ _) fun _ =>
    .ite (.bind (.lift _ _) fun _ => .pure _ _) (.pure _ _))

theorem readWindowDescriptor_delimits (singleSegment : Bool) :
    Delimits (track "zstandard") anything (readWindowDescriptor singleSegment) :=
  .ite (.pure _ _) (.bind (readU8_delimits _) fun _ => .pure _ _)

theorem readChecksum_delimits (present : Bool) :
    Delimits (track "zstandard") anything (readChecksum present) :=
  .ite (.bind (readU32Le_delimits _) fun _ => .pure _ _) (.pure _ _)

theorem block_delimits (maximum : Nat) :
    Delimits (track "zstandard") anything (block maximum) :=
  .bind (readU24Le_delimits _) fun _ => .bind (.lift _ _) fun _ => .bind (.lift _ _) fun _ =>
    .bind (skip_delimits _ _) fun _ => .pure _ _

theorem blocks_delimits (maximum : Nat) :
    Delimits (track "zstandard") anything (blocks maximum) := by
  refine rounds_delimits ((block_delimits maximum).imp fun _ _ _ => trivial) fun front next h => ?_
  obtain ⟨⟨header, middle⟩, hheader, -⟩ := bind_eq_ok.mp h
  obtain ⟨⟨bytes, last⟩, hbytes, -⟩ := bind_eq_ok.mp hheader
  obtain ⟨hcount, rest, hempty, -⟩ := readBytes_ok hbytes
  rw [(List.nil_eq_append_iff.mp hempty).1] at hcount
  exact (nomatch hcount)

theorem parseFrame_delimits : Delimits (track "zstandard") anything parseFrame :=
  .bind (readU8_delimits _) fun _ => .bind (.lift _ _) fun _ =>
    .bind (readWindowDescriptor_delimits _) fun _ => .bind (.lift _ _) fun _ =>
    .bind (readLe_delimits _ _) fun _ => .bind (.lift _ _) fun _ =>
    .bind (readContentSize_delimits _) fun _ => .bind (.lift _ _) fun _ =>
    .bind (blocks_delimits _) fun _ => .bind (readChecksum_delimits _) fun _ => .pure _ _

/-! ## Frames and their totals -/

def Frame (limits : Limits) (bytes : List UInt8) (parsed : ParsedFrame) : Prop :=
  parsed.windowBytes ≤ limits.maxDictionaryBytes ∧ ∃ body, bytes = le32 zstandardMagic ++ body ∧
    Takes (track "zstandard") (fun _ => True) parseFrame body parsed

theorem dataFrame_run (limits : Limits) (start : Nat) (totals : Totals) (cursor : StreamCursor) :
    dataFrame limits start zstandardMagic totals cursor =
      parseFrame cursor >>= fun result =>
        (totals.addFrame limits start result.2.position result.1).map
          fun totals => (totals, result.2) := by
  rw [dataFrame, if_neg (not_not_intro rfl)]
  refine congrArg (Except.bind (parseFrame cursor)) (funext fun result => ?_)
  obtain ⟨parsed, next⟩ := result
  show (totals.addFrame limits start next.position parsed >>= fun totals => _) = _
  cases totals.addFrame limits start next.position parsed <;> rfl

theorem addFrame_window {limits : Limits} {start finish : Nat} {parsed : ParsedFrame}
    {totals totals' : Totals} (h : totals.addFrame limits start finish parsed = .ok totals') :
    parsed.windowBytes ≤ limits.maxDictionaryBytes := by
  unfold Totals.addFrame at h
  obtain ⟨_, hwindow, -⟩ := bind_eq_ok.mp h
  exact checkLimit_eq_ok.mp hwindow

theorem frameFormat_lawful (limits : Limits) :
    (frameFormat limits).Lawful (fun _ => True) (Frame limits) (Totals.addFrame limits) where
  skippable_starts := fun _ _ => trivial
  reads := by
    rintro bytes parsed ⟨-, body, rfl, htakes⟩
    refine ⟨zstandardMagic, body, rfl, by decide, trivial, by decide, ?_⟩
    intro front rest totals _ hlen
    have hparse := htakes (front ++ le32 zstandardMagic) rest trivial
      (by simpa only [track_bound, List.append_assoc] using hlen)
    show dataFrame limits front.length zstandardMagic totals
      ((track "zstandard").place (front ++ le32 zstandardMagic) (body ++ rest)) = _
    rw [dataFrame_run, hparse, ok_bind]
    simp only [track, split, frameFormat, List.append_assoc, List.length_append]
  delimits := by
    intro front magic tail totals totals' next hmagic _ hlen h
    by_cases hzstd : magic = zstandardMagic
    · subst hzstd
      have hrun : dataFrame limits front.length zstandardMagic totals
          (split "zstandard" (front ++ le32 zstandardMagic) tail) = .ok (totals', next) := h
      rw [dataFrame_run] at hrun
      obtain ⟨⟨parsed, last⟩, hparse, hmap⟩ := bind_eq_ok.mp hrun
      obtain ⟨body, rest, rfl, rfl, htakes⟩ := parseFrame_delimits _ _ _ _
        (by simpa only [track_bound] using hlen) hparse
      obtain ⟨added, hadd, heq⟩ := Except.map_eq_ok.mp hmap
      cases heq
      refine ⟨body, rest, parsed, rfl, rfl,
        ⟨addFrame_window hadd, body, rfl, htakes⟩, ?_⟩
      simpa only [track, split, List.append_assoc, List.length_append, Nat.add_assoc] using hadd
    · have hthrow : dataFrame limits front.length magic totals
          (split "zstandard" (front ++ le32 magic) tail) = .ok (totals', next) := h
      rw [dataFrame, if_pos hzstd] at hthrow
      cases hthrow

def ZstandardFrame.shift (offset : Nat) (frame : ZstandardFrame) : ZstandardFrame :=
  { frame with start := offset + frame.start, finish := offset + frame.finish }

namespace Totals

def step (totals : Totals) (start : Nat) (piece : Piece ParsedFrame) : Totals :=
  match piece.frame with
  | none => { totals with
      totalFrames := totals.totalFrames + 1
      skippableFrames := totals.skippableFrames + 1 }
  | some parsed => { totals with
      totalFrames := totals.totalFrames + 1
      dataFrames := totals.dataFrames + 1
      checksumFrames := totals.checksumFrames + parsed.checksum.toNat
      dictionaryFrames := totals.dictionaryFrames + parsed.dictionary.toNat
      maximumWindowBytes := max totals.maximumWindowBytes parsed.windowBytes
      aggregateSize := sumSize totals.aggregateSize parsed.contentSize
      frames := totals.frames ++
        [{ start := start, finish := start + piece.bytes.length,
           contentSize := parsed.contentSize, windowBytes := parsed.windowBytes,
           checksum := parsed.checksum, dictionary := parsed.dictionary }] }

/-- There is room for further frames in every counter. -/
structure Room (limits : Limits) (totals : Totals) (further : Nat) : Prop where
  limit : totals.totalFrames + further ≤ limits.maxStreamFrames
  total : totals.totalFrames + further < 2 ^ 64
  data : totals.dataFrames + further < 2 ^ 64
  skippable : totals.skippableFrames + further < 2 ^ 64
  checksum : totals.checksumFrames + further < 2 ^ 64
  dictionary : totals.dictionaryFrames + further < 2 ^ 64

def merge (totals : Totals) (offset : Nat) (next : Totals) : Totals where
  frames := totals.frames ++ next.frames.map (ZstandardFrame.shift offset)
  totalFrames := totals.totalFrames + next.totalFrames
  dataFrames := totals.dataFrames + next.dataFrames
  skippableFrames := totals.skippableFrames + next.skippableFrames
  checksumFrames := totals.checksumFrames + next.checksumFrames
  dictionaryFrames := totals.dictionaryFrames + next.dictionaryFrames
  maximumWindowBytes := max totals.maximumWindowBytes next.maximumWindowBytes
  aggregateSize := sumSize totals.aggregateSize next.aggregateSize

theorem merge_step (totals : Totals) (offset : Nat) (next : Totals) (start : Nat)
    (piece : Piece ParsedFrame) :
    totals.merge offset (next.step start piece) =
      (totals.merge offset next).step (offset + start) piece := by
  obtain ⟨bytes, frame | parsed⟩ := piece
  · simp only [step, merge, Nat.add_assoc]
  · simp only [step, merge, Nat.add_assoc, Nat.max_assoc, sumSize_assoc, List.map_append,
      List.append_assoc]
    rfl

end Totals

def counting (limits : Limits) : Counting Totals ParsedFrame where
  empty := .empty
  step := .step
  frames totals := totals.dataFrames + totals.skippableFrames
  skippable := Totals.skippableFrames
  ranges totals := totals.frames.map fun frame => (frame.start, frame.finish)
  contents totals := totals.frames.map ZstandardFrame.contentSize
  size := ParsedFrame.contentSize
  aggregate := Totals.aggregateSize
  room := Totals.Room limits
  merge := .merge

theorem count_ok {limits : Limits} {totals totals' : Totals} {start : Nat}
    {piece : Piece ParsedFrame}
    (h : (frameFormat limits).count (Totals.addFrame limits) totals start piece = .ok totals') :
    totals' = totals.step start piece := by
  obtain ⟨entered, henter, h⟩ := bind_eq_ok.mp h
  obtain ⟨total, htotal, henter⟩ := bind_eq_ok.mp henter
  obtain ⟨_, -, henter⟩ := bind_eq_ok.mp henter
  obtain ⟨-, rfl⟩ := checkedAdd_eq_ok.mp htotal
  cases henter
  obtain ⟨bytes, frame | parsed⟩ := piece
  · obtain ⟨skippable, hskippable, h⟩ := bind_eq_ok.mp h
    obtain ⟨-, rfl⟩ := checkedAdd_eq_ok.mp hskippable
    exact (Except.ok.inj h).symm
  · change Totals.addFrame limits start (start + bytes.length) parsed _ = _ at h
    unfold Totals.addFrame at h
    obtain ⟨_, -, h⟩ := bind_eq_ok.mp h
    obtain ⟨data, hdata, h⟩ := bind_eq_ok.mp h
    obtain ⟨checksum, hchecksum, h⟩ := bind_eq_ok.mp h
    obtain ⟨dictionary, hdictionary, h⟩ := bind_eq_ok.mp h
    obtain ⟨aggregate, haggregate, h⟩ := bind_eq_ok.mp h
    obtain ⟨-, rfl⟩ := checkedAdd_eq_ok.mp hdata
    obtain rfl := countIf_ok hchecksum
    obtain rfl := countIf_ok hdictionary
    obtain rfl := addContentSize_ok haggregate
    exact (Except.ok.inj h).symm

section

variable {limits : Limits} {totals : Totals} {n : Nat}

theorem enter_of_room (h : totals.Room limits (n + 1)) :
    totals.enter limits = .ok { totals with totalFrames := totals.totalFrames + 1 } := by
  have hlimit := h.limit
  have htotal := h.total
  rw [Totals.enter, checkedAdd_bind (by omega), checkFrameCount, checkLimit_of_le (by omega)]
  rfl

variable {start : Nat} {bytes : List UInt8} (h : totals.Room limits (n + 1))
include h

theorem count_skippable :
    (frameFormat limits).count (Totals.addFrame limits) totals start ⟨bytes, none⟩ =
      .ok (totals.step start ⟨bytes, none⟩) := by
  have hskippable := h.skippable
  show (totals.enter limits >>= fun totals => totals.skipped) = _
  rw [enter_of_room h, ok_bind, Totals.skipped, checkedAdd_of_lt (by simp only; omega)]
  rfl

theorem count_data {parsed : ParsedFrame} (hwindow : parsed.windowBytes ≤ limits.maxDictionaryBytes)
    (htotal : SizesFit totals.aggregateSize []) :
    (frameFormat limits).count (Totals.addFrame limits) totals start ⟨bytes, some parsed⟩ =
      if SizesFit totals.aggregateSize [parsed.contentSize] then
        .ok (totals.step start ⟨bytes, some parsed⟩)
      else .error (streamFormatError "zstandard" "aggregate content size overflows") := by
  have hdata := h.data
  have hchecksum := h.checksum
  have hdictionary := h.dictionary
  show (totals.enter limits >>= fun totals =>
    totals.addFrame limits start (start + bytes.length) parsed) = _
  rw [enter_of_room h, ok_bind, Totals.addFrame, checkLimit_of_le hwindow, ok_bind,
    checkedAdd_bind (by simp only; omega), countIf_of_room _ _ (by simp only; omega), ok_bind,
    countIf_of_room _ _ (by simp only; omega), ok_bind, addContentSize_eq _ htotal]
  split <;> rfl

end

theorem room_step {limits : Limits} {totals : Totals} {start n : Nat} {piece : Piece ParsedFrame}
    (h : totals.Room limits (n + 1)) : (totals.step start piece).Room limits n := by
  obtain ⟨hlimit, htotals, hdata, hskippable, hchecksum, hdictionary⟩ := h
  obtain ⟨bytes, frame | parsed⟩ := piece
  · constructor <;> simp only [Totals.step] <;> omega
  · have hsum := parsed.checksum.toNat_le
    have hdict := parsed.dictionary.toNat_le
    constructor <;> simp only [Totals.step] <;> omega

theorem counting_lawful (limits : Limits) :
    (counting limits).Lawful (frameFormat limits) (Frame limits) (Totals.addFrame limits)
      limits where
  count_ok := fun _ _ _ _ => count_ok
  count_eq := by
    intro totals start piece n hwhole hroom htotal
    obtain ⟨bytes, frame | parsed⟩ := piece
    · exact (count_skippable hroom).trans (if_pos htotal).symm
    · exact count_data hroom hwhole.1 htotal
  frames_step := by
    intro totals start piece
    obtain ⟨bytes, frame | parsed⟩ := piece <;> simp only [counting, Totals.step] <;> omega
  skippable_step := by
    intro totals start piece
    obtain ⟨bytes, frame | parsed⟩ := piece <;> rfl
  ranges_step := by
    intro totals start piece
    obtain ⟨bytes, frame | parsed⟩ := piece
    · exact (List.append_nil _).symm
    · exact List.map_append
  contents_step := by
    intro totals start piece
    obtain ⟨bytes, frame | parsed⟩ := piece
    · exact (List.append_nil _).symm
    · exact List.map_append
  aggregate_step := by
    intro totals start piece
    obtain ⟨bytes, frame | parsed⟩ := piece <;> rfl
  room_step := fun _ _ _ _ => room_step
  frames_empty := rfl
  skippable_empty := rfl
  ranges_empty := rfl
  contents_empty := rfl
  aggregate_empty := rfl
  room_empty := by
    intro n hlimit hlen
    constructor <;> simp only [counting, Totals.empty] <;> omega
  merge_empty := by
    intro totals offset
    simp only [counting, Totals.merge, Totals.empty, List.map_nil, List.append_nil, Nat.add_zero,
      Nat.max_zero, sumSize_zero]
  merge_step := fun totals offset next start piece => totals.merge_step offset next start piece

def ZstandardStreamInfo.merge (info next : ZstandardStreamInfo) : ZstandardStreamInfo where
  frameCount := info.frameCount + next.frameCount
  skippableFrameCount := info.skippableFrameCount + next.skippableFrameCount
  contentChecksumFrameCount := info.contentChecksumFrameCount + next.contentChecksumFrameCount
  dictionaryFrameCount := info.dictionaryFrameCount + next.dictionaryFrameCount
  maximumWindowBytes := max info.maximumWindowBytes next.maximumWindowBytes

theorem parse_ok {input : List UInt8} {limits : Limits} {info : ZstandardStreamInfo}
    {size : Option Nat} {frames : List ZstandardFrame}
    (h : parse input limits = .ok (info, size, frames)) :
    ∃ totals : Totals, (frameFormat limits).scan Totals.empty input = .ok totals ∧
      totals.dataFrames ≠ 0 ∧ totals.info = info ∧ totals.aggregateSize = size ∧
      totals.frames = frames := by
  obtain ⟨totals, hscan, h⟩ := bind_eq_ok.mp h
  obtain ⟨_, hdata, h⟩ := bind_eq_ok.mp h
  cases h
  exact ⟨totals, hscan, rejectIf_eq_ok.mp hdata, rfl, rfl, rfl⟩

theorem parse_append {a b : List UInt8} {limits : Limits} {infoA infoB : ZstandardStreamInfo}
    {sizeA sizeB : Option Nat} {framesA framesB : List ZstandardFrame}
    (hlen : (a ++ b).length < 2 ^ 64) (ha : parse a limits = .ok (infoA, sizeA, framesA))
    (hb : parse b limits = .ok (infoB, sizeB, framesB))
    (hframes : infoA.frameCount + infoA.skippableFrameCount +
      (infoB.frameCount + infoB.skippableFrameCount) ≤ limits.maxStreamFrames) :
    (parse (a ++ b) limits =
      if SizesFit sizeA (framesB.map ZstandardFrame.contentSize) then
        .ok (infoA.merge infoB, sumSize sizeA sizeB,
          framesA ++ framesB.map (ZstandardFrame.shift a.length))
      else .error (streamFormatError "zstandard" "aggregate content size overflows")) ∧
    Tiles (a ++ b) 0
      ((framesA ++ framesB.map (ZstandardFrame.shift a.length)).map fun frame =>
        (frame.start, frame.finish))
      (infoA.merge infoB).skippableFrameCount := by
  obtain ⟨ta, hscanA, hdata, rfl, rfl, rfl⟩ := parse_ok ha
  obtain ⟨tb, hscanB, -, rfl, rfl, rfl⟩ := parse_ok hb
  obtain ⟨hrun, htiles⟩ := (frameFormat_lawful limits).scan_append (counting_lawful limits) hlen
    hscanA hscanB hframes
  have hsome : ¬(ta.merge a.length tb).dataFrames = 0 := by
    simp only [Totals.merge]
    omega
  exact ⟨table_of_scan hrun hsome, htiles⟩

end Zstandard
end Unpackio
