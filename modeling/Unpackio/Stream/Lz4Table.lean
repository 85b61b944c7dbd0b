/-
The frame tables of LZ4 streams are compositional.

A frame with a descriptor finds its end by itself.  A legacy frame ends with the
input or before a magic number, so it takes the same bytes before any other frame.
-/
import Unpackio.Stream.Lz4

namespace Unpackio
namespace Lz4

open List (append_assoc append_nil length_append map_append)
open Except (bind_eq_ok map_eq_ok ok_bind)
open StreamCursor Delimited FrameFormat

theorem readContentSize_delimits (flags : UInt8) :
    Delimits (track "lz4") anything (readContentSize flags) :=
  .ite (.bind (readLe_delimits _ _) fun _ => .pure _ _) (.pure _ _)

theorem skipU32_delimits (present : Bool) (detail : String) :
    Delimits (track "lz4") anything (skipU32 present detail) :=
  .ite (.bind (readU32Le_delimits _) fun _ => .pure _ _) (.pure _ _)

theorem readDescriptor_delimits : Delimits (track "lz4") anything readDescriptor :=
  .bind (readU8_delimits _) fun _ => .bind (readU8_delimits _) fun _ => .bind (.lift _ _) fun _ =>
    .bind (.lift _ _) fun _ => .bind (.lift _ _) fun _ =>
      .bind (readContentSize_delimits _) fun _ =>
    .bind (skipU32_delimits _ _) fun _ => .pure _ _

theorem standardBlock_delimits (maximum : Nat) (blockChecksums : Bool) :
    Delimits (track "lz4") anything (standardBlock maximum blockChecksums) :=
  .bind (readU32Le_delimits _) fun _ => .ite (.pure _ _)
    (.bind (.lift _ _) fun _ => .bind (.lift _ _) fun _ => .bind (skip_delimits _ _) fun _ =>
      .bind (skipU32_delimits _ _) fun _ => .pure _ _)

theorem standardBlocks_delimits (descriptor : Descriptor) :
    Delimits (track "lz4") anything (standardBlocks descriptor) := by
  have hblock := standardBlock_delimits descriptor.maximumBlockBytes
    (descriptor.flags &&& 0x10 != 0)
  refine .bind (rounds_delimits (hblock.imp fun _ _ _ => trivial) fun front next h => ?_) fun _ =>
    .bind (skipU32_delimits _ _) fun _ => .bind (.lift _ _) fun _ => .pure _ _
  obtain ⟨⟨header, middle⟩, hheader, -⟩ := bind_eq_ok.mp h
  obtain ⟨rest, -, hempty, -⟩ := readU32Le_ok hheader
  exact (nomatch hempty)

variable {xxHash32 : List UInt8 → UInt64}

def standardBody (xxHash32 : List UInt8 → UInt64) (frameIndex : Nat) : Scanning ParsedFrame :=
  fun cursor => do
    let (descriptor, next) ← readDescriptor cursor
    let (_, next) ← verifyDescriptor xxHash32 cursor.position frameIndex next
    standardBlocks descriptor next

variable {cursor next : StreamCursor}

theorem parseStandardFrame_eq {start frameIndex : Nat} (hstart : cursor.position = start + 4)
    (hlen : start + 4 < 2 ^ 64) :
    parseStandardFrame xxHash32 start frameIndex cursor =
      standardBody xxHash32 frameIndex cursor := by
  show (okOr (checkedAdd start 4) (lz4Error "descriptor offset overflows") >>= fun start =>
    pure (start, cursor)) >>= _ = _
  rw [checkedAdd_of_lt hlen, standardBody, hstart]
  rfl

theorem verifyDescriptor_split (frameIndex : Nat) (front fields tail : List UInt8) :
    verifyDescriptor xxHash32 front.length frameIndex (split "lz4" (front ++ fields) tail) =
      StreamCursor.readU8 "header checksum is truncated"
          (split "lz4" (front ++ fields) tail) >>= fun result =>
        rejectIf (((xxHash32 fields >>> 8) &&& 0xff).toUInt8 ≠ result.1)
          (.streamChecksum "lz4" frameIndex) >>= fun _ => .ok ((), result.2) := by
  have hrange : getRange (front ++ fields ++ tail) front.length (front ++ fields).length =
      some fields := by
    refine getRange_eq_some.mpr ⟨?_, ?_, ?_⟩
    · simp only [length_append]
      omega
    · simp only [length_append]
      omega
    · rw [List.take_left, List.drop_left]
  show StreamCursor.readU8 "header checksum is truncated"
      (split "lz4" (front ++ fields) tail) >>= (fun result =>
    okOr (getRange (front ++ fields ++ tail) front.length (front ++ fields).length) _ >>= _) = _
  rw [hrange]
  rfl

theorem standardBody_ok {frameIndex : Nat} {front tail : List UInt8} {parsed : ParsedFrame}
    (hlen : (front ++ tail).length < 2 ^ 64)
    (h : standardBody xxHash32 frameIndex (split "lz4" front tail) = .ok (parsed, next)) :
    ∃ taken rest, tail = taken ++ rest ∧ next = split "lz4" (front ++ taken) rest ∧
      ∀ frameIndex, Takes (track "lz4") (fun _ => True) (standardBody xxHash32 frameIndex)
        taken parsed := by
  obtain ⟨⟨descriptor, middle⟩, hdescriptor, h⟩ := bind_eq_ok.mp h
  obtain ⟨⟨⟨⟩, checked⟩, hverify, hblocks⟩ := bind_eq_ok.mp h
  obtain ⟨fields, rest, rfl, rfl, hfields⟩ := readDescriptor_delimits front tail descriptor middle
    hlen hdescriptor
  rw [← append_assoc] at hlen
  change verifyDescriptor xxHash32 front.length frameIndex (split "lz4" (front ++ fields) rest) = _
    at hverify
  rw [verifyDescriptor_split] at hverify
  obtain ⟨⟨expected, last⟩, hread, hverify⟩ := bind_eq_ok.mp hverify
  obtain ⟨_, hmatch, hverify⟩ := bind_eq_ok.mp hverify
  cases hverify
  obtain ⟨byte, rest, rfl, rfl, hbyte⟩ := readU8_delimits _ _ _ _ _ hlen hread
  rw [← append_assoc] at hlen
  obtain ⟨body, rest, rfl, rfl, hbody⟩ := standardBlocks_delimits _ _ _ _ _ hlen hblocks
  refine ⟨fields ++ (byte ++ body), rest, by simp only [append_assoc],
    by simp only [track, append_assoc], fun frameIndex front rest _ hbound => ?_⟩
  simp only [track_bound, append_assoc] at hbound
  have hfirst := hfields front (byte ++ (body ++ rest)) trivial
    (by simpa only [track_bound, append_assoc] using hbound)
  have hsecond := hbyte (front ++ fields) (body ++ rest) trivial
    (by simpa only [track_bound, append_assoc] using hbound)
  have hthird := hbody (front ++ fields ++ byte) rest trivial
    (by simpa only [track_bound, append_assoc] using hbound)
  have hcheck : verifyDescriptor xxHash32 front.length frameIndex
      (split "lz4" (front ++ fields) (byte ++ (body ++ rest))) =
        .ok ((), split "lz4" (front ++ fields ++ byte) (body ++ rest)) := by
    rw [verifyDescriptor_split]
    change StreamCursor.readU8 _ (split "lz4" (front ++ fields) (byte ++ (body ++ rest))) =
      _ at hsecond
    rw [hsecond, ok_bind, rejectIf_of_not (rejectIf_eq_ok.mp hmatch)]
    rfl
  show (readDescriptor (split "lz4" front (fields ++ (byte ++ body) ++ rest)) >>= fun result =>
    verifyDescriptor xxHash32 front.length frameIndex result.2 >>= fun next =>
      standardBlocks result.1 next.2) = _
  change readDescriptor (split "lz4" front (fields ++ (byte ++ (body ++ rest)))) = _ at hfirst
  rw [append_assoc, append_assoc, hfirst, ok_bind]
  show (verifyDescriptor xxHash32 front.length frameIndex
    (split "lz4" (front ++ fields) (byte ++ (body ++ rest))) >>= _) = _
  rw [hcheck, ok_bind]
  simp only [append_assoc] at hthird ⊢
  exact hthird

/-! ## A legacy frame ends before another frame -/

/-- A round of the loop, when the cursor is behind the magic number. -/
def laterBlock : Scanning Bool := fun cursor => legacyBlock (cursor.position + 1) cursor

def legacyBody : Scanning ParsedFrame := do
  rounds (lz4Error "legacy block header is truncated") laterBlock
  let working ← workingBytes legacyBlockBytes "legacy working memory size overflows"
  return { contentSize := none, contentChecksum := false, blockChecksums := false,
           dictionary := false, maximumBlockBytes := legacyBlockBytes, workingBytes := working }

theorem legacyPayload_position {blockSize : Nat} {last : Bool}
    (h : legacyPayload blockSize cursor = .ok (last, next)) : cursor.position ≤ next.position := by
  unfold legacyPayload at h
  by_cases hzero : blockSize = 0
  · rw [if_pos hzero] at h
    cases h
    exact Nat.le_refl _
  · rw [if_neg hzero] at h
    obtain ⟨⟨_, first⟩, hreject, h⟩ := bind_eq_ok.mp h
    obtain ⟨_, -, heq⟩ := bind_eq_ok.mp hreject
    cases heq
    obtain ⟨⟨_, second⟩, hskip, h⟩ := bind_eq_ok.mp h
    cases h
    obtain ⟨⟨_, third⟩, hread, h⟩ := bind_eq_ok.mp hskip
    cases h
    rw [readBytes_position hread]
    exact Nat.le_add_right _ _

theorem legacyBlock_position {start : Nat} {last : Bool}
    (h : legacyBlock start cursor = .ok (last, next)) : cursor.position ≤ next.position := by
  obtain ⟨remaining, -, h⟩ := bind_eq_ok.mp h
  split at h
  · cases h
    exact Nat.le_refl _
  · obtain ⟨nextBytes, -, h⟩ := bind_eq_ok.mp h
    split at h
    · cases h
      exact Nat.le_refl _
    · obtain ⟨⟨blockSize, middle⟩, hsize, h⟩ := bind_eq_ok.mp h
      obtain ⟨⟨_, read⟩, hread, heq⟩ := bind_eq_ok.mp hsize
      cases heq
      have hle := legacyPayload_position h
      rw [readBytes_position hread] at hle
      omega

theorem parseLegacyFrame_eq {start : Nat} (hstart : start < cursor.position) :
    parseLegacyFrame start cursor = legacyBody cursor := by
  have hrounds : rounds (lz4Error "legacy block header is truncated") (legacyBlock start) cursor =
      rounds (lz4Error "legacy block header is truncated") laterBlock cursor := by
    refine untilLast_congr (I := fun cursor => start < cursor.position) ?_ ?_ _ hstart
    · intro cursor hlt
      have hleft : cursor.position ≠ start := by omega
      have hright : cursor.position ≠ cursor.position + 1 := by omega
      simp only [laterBlock, legacyBlock, ne_eq, hleft, hright, not_false_eq_true, true_and]
    · intro cursor next hlt h
      have hle := legacyBlock_position h
      omega
  rw [parseLegacyFrame, legacyBody, run_bind, run_bind, hrounds]

theorem laterBlock_word {front tail : List UInt8} {word : Nat} (hlt : word < 2 ^ 32) :
    laterBlock (split "lz4" front (le32 word ++ tail)) =
      if IsFrameMagic word then .ok (true, split "lz4" front (le32 word ++ tail))
      else StreamCursor.readU32Le "legacy block header is truncated"
          (split "lz4" front (le32 word ++ tail)) >>=
        fun result => legacyPayload result.1 result.2 := by
  have hne : le32 word ++ tail ≠ [] := List.cons_ne_nil _ _
  have hnext : getRange (le32 word ++ tail) 0 4 = some (le32 word) :=
    getRange_eq_some.mpr ⟨by omega, Nat.le_add_left 4 _, rfl⟩
  have hvalue : fromLeBytes (le32 word) = word := by
    rw [le32, fromLeBytes_toLeBytes, bytePow_four, Nat.mod_eq_of_lt hlt]
  have hposition : (split "lz4" front (le32 word ++ tail)).position ≠
      (split "lz4" front (le32 word ++ tail)).position + 1 := by omega
  rw [laterBlock, legacyBlock, remaining_split, ok_bind, if_neg hne, hnext, okOr_bind, hvalue]
  exact if_congr ⟨fun h => h.2, fun h => ⟨hposition, h⟩⟩ rfl rfl

theorem laterBlock_boundary {front rest : List UInt8} (h : Boundary IsFrameMagic rest) :
    laterBlock (split "lz4" front rest) = .ok (true, split "lz4" front rest) := by
  rcases h with rfl | ⟨magic, body, hmagic, hlt, rfl⟩
  · rw [laterBlock, legacyBlock, remaining_split]
    rfl
  · rw [laterBlock_word hlt, if_pos hmagic]

theorem laterBlock_payload {front tail : List UInt8} {size : Nat} (hlt : size < 2 ^ 32)
    (hmagic : ¬IsFrameMagic size) (hlen : (front ++ le32 size ++ tail).length < 2 ^ 64) :
    laterBlock (split "lz4" front (le32 size ++ tail)) =
      legacyPayload size (split "lz4" (front ++ le32 size) tail) := by
  have hread : StreamCursor.readU32Le "legacy block header is truncated"
      (split "lz4" front (le32 size ++ tail)) =
      .ok (size, split "lz4" (front ++ le32 size) tail) :=
    readU32Le_takes hlt _ front tail trivial hlen
  rw [laterBlock_word hlt, if_neg hmagic, hread]
  rfl

theorem legacyPayload_delimits (blockSize : Nat) :
    Delimits (track "lz4") anything (legacyPayload blockSize) :=
  .ite (.pure _ _) (.bind (.lift _ _) fun _ => .bind (skip_delimits _ _) fun _ => .pure _ _)

theorem laterBlock_sees {front tail : List UInt8} {last : Bool} (hne : tail ≠ [])
    (h : laterBlock (split "lz4" front tail) = .ok (last, next)) :
    ∃ word rest, word < 2 ^ 32 ∧ tail = le32 word ++ rest := by
  rw [laterBlock, legacyBlock, remaining_split, ok_bind, if_neg hne] at h
  obtain ⟨nextBytes, hnext, -⟩ := bind_eq_ok.mp h
  obtain ⟨-, hle, hnext⟩ := getRange_eq_some.mp (okOr_eq_ok.mp hnext)
  rw [List.drop_zero] at hnext
  have hcount : nextBytes.length = 4 := by
    rw [← hnext, List.length_take]
    omega
  have hlt := fromLeBytes_lt nextBytes
  rw [hcount] at hlt
  have hword : le32 (fromLeBytes nextBytes) = nextBytes := by
    rw [le32, ← hcount, toLeBytes_fromLeBytes]
  refine ⟨fromLeBytes nextBytes, tail.drop 4, hlt, ?_⟩
  rw [hword, ← hnext, List.take_append_drop]

theorem laterBlock_delimits :
    Delimits (track "lz4") (fun last rest => last = true → Boundary IsFrameMagic rest)
      laterBlock := by
  intro front tail last next hlen h
  change laterBlock (split "lz4" front tail) = _ at h
  by_cases hboundary : Boundary IsFrameMagic tail
  · rw [laterBlock_boundary hboundary] at h
    cases h
    refine ⟨[], tail, rfl, by rw [append_nil]; rfl, fun front rest hrest _ => ?_⟩
    rw [append_nil]
    exact laterBlock_boundary (hrest rfl)
  · obtain ⟨size, rest, hlt, rfl⟩ := laterBlock_sees (fun hempty => hboundary (.inl hempty)) h
    have hsize : ¬IsFrameMagic size := fun hmagic => hboundary (.inr ⟨size, rest, hmagic, hlt, rfl⟩)
    rw [← append_assoc] at hlen
    rw [laterBlock_payload hlt hsize hlen] at h
    obtain ⟨payload, rest, rfl, rfl, htakes⟩ := legacyPayload_delimits size _ _ _ _ hlen h
    refine ⟨le32 size ++ payload, rest, by rw [append_assoc],
      by simp only [track, append_assoc], fun front rest _ hbound => ?_⟩
    rw [track_bound, append_assoc, append_assoc, ← append_assoc front] at hbound
    have hrun := htakes (front ++ le32 size) rest trivial
      (by simpa only [track_bound, append_assoc] using hbound)
    show laterBlock (split "lz4" front (le32 size ++ payload ++ rest)) = _
    rw [append_assoc, laterBlock_payload hlt hsize hbound]
    simpa only [track, append_assoc] using hrun

theorem legacyBody_delimits :
    Delimits (track "lz4") (fun _ => Boundary IsFrameMagic) legacyBody := by
  have hrounds : Delimits (track "lz4") (fun _ => Boundary IsFrameMagic)
      (rounds (lz4Error "legacy block header is truncated") laterBlock) := by
    refine rounds_delimits laterBlock_delimits fun front next h => ?_
    rw [laterBlock_boundary (.inl rfl)] at h
    exact (nomatch h)
  intro front tail parsed next hlen h
  obtain ⟨⟨⟨⟩, middle⟩, hblocks, h⟩ := bind_eq_ok.mp h
  obtain ⟨taken, rest, rfl, rfl, htakes⟩ := hrounds front tail () middle hlen hblocks
  cases h
  refine ⟨taken, rest, rfl, rfl, fun front rest hrest hbound => ?_⟩
  rw [legacyBody, run_bind]
  show (rounds (lz4Error "legacy block header is truncated") laterBlock
    ((track "lz4").place front (taken ++ rest)) >>= _) = _
  rw [htakes front rest hrest hbound]
  rfl

/-! ## Frames and their totals -/

abbrev DataFrame : Type := Bool × ParsedFrame

def Frame (xxHash32 : List UInt8 → UInt64) (bytes : List UInt8) : DataFrame → Prop
  | (false, parsed) => ∃ body, bytes = le32 lz4Magic ++ body ∧
      ∀ frameIndex, Takes (track "lz4") (fun _ => True) (standardBody xxHash32 frameIndex)
        body parsed
  | (true, parsed) => ∃ body, bytes = le32 lz4LegacyMagic ++ body ∧
      Takes (track "lz4") (Boundary IsFrameMagic) legacyBody body parsed

def add (start finish : Nat) (frame : DataFrame) (totals : Totals) : Except Error Totals := do
  let totals ← totals.addLegacy frame.1
  totals.addFrame start finish frame.2

theorem countFrame_run (start : Nat) (totals : Totals) (parseFrame : Scanning ParsedFrame)
    (cursor : StreamCursor) :
    countFrame start totals parseFrame cursor = parseFrame cursor >>= fun result =>
      (totals.addFrame start result.2.position result.1).map fun totals => (totals, result.2) := by
  refine congrArg (Except.bind (parseFrame cursor)) (funext fun result => ?_)
  obtain ⟨parsed, next⟩ := result
  show (totals.addFrame start next.position parsed >>= fun totals => _) = _
  cases totals.addFrame start next.position parsed <;> rfl

section

variable {front tail : List UInt8} {totals : Totals}

theorem dataFrame_standard (hlen : (front ++ le32 lz4Magic ++ tail).length < 2 ^ 64) :
    dataFrame xxHash32 front.length lz4Magic totals
        (split "lz4" (front ++ le32 lz4Magic) tail) =
      standardBody xxHash32 totals.dataFrames (split "lz4" (front ++ le32 lz4Magic) tail) >>=
        fun result => (totals.addFrame front.length result.2.position result.1).map
          fun totals => (totals, result.2) := by
  have hposition : (split "lz4" (front ++ le32 lz4Magic) tail).position = front.length + 4 := by
    simp only [split, length_append]
    rfl
  have hstart : front.length + 4 < 2 ^ 64 := by
    have hcount : (le32 lz4Magic).length = 4 := rfl
    simp only [length_append, hcount] at hlen
    omega
  rw [dataFrame, if_pos rfl, countFrame_run, parseStandardFrame_eq hposition hstart]

theorem dataFrame_legacy :
    dataFrame xxHash32 front.length lz4LegacyMagic totals
        (split "lz4" (front ++ le32 lz4LegacyMagic) tail) =
      totals.addLegacy true >>= fun totals =>
        legacyBody (split "lz4" (front ++ le32 lz4LegacyMagic) tail) >>=
          fun result => (totals.addFrame front.length result.2.position result.1).map
            fun totals => (totals, result.2) := by
  have hstart : front.length < (split "lz4" (front ++ le32 lz4LegacyMagic) tail).position := by
    simp only [split, length_append]
    exact Nat.lt_add_of_pos_right (by decide)
  have hlegacy : ¬lz4LegacyMagic = lz4Magic := by decide
  rw [dataFrame, if_neg hlegacy, if_pos rfl]
  show ((totals.addLegacy true >>= fun totals => pure (totals, _)) >>= _) = _
  cases totals.addLegacy true with
  | error e => rfl
  | ok totals =>
    show countFrame front.length totals (parseLegacyFrame front.length) _ = _
    rw [countFrame_run, parseLegacyFrame_eq hstart]
    rfl

end

theorem frameFormat_lawful (limits : Limits) :
    (frameFormat xxHash32 limits).Lawful IsFrameMagic (Frame xxHash32) add where
  skippable_starts := fun _ h => .inr (.inr h)
  reads := by
    rintro bytes ⟨_ | _, parsed⟩ ⟨body, rfl, htakes⟩
    · refine ⟨lz4Magic, body, rfl, by decide, .inl rfl, by decide, ?_⟩
      intro front rest totals _ hlen
      rw [← append_assoc, append_assoc] at hlen
      have hparse := htakes totals.dataFrames (front ++ le32 lz4Magic) rest trivial
        (by simpa only [track_bound, append_assoc] using hlen)
      show dataFrame xxHash32 front.length lz4Magic totals
        (split "lz4" (front ++ le32 lz4Magic) (body ++ rest)) = _
      change standardBody xxHash32 totals.dataFrames
        (split "lz4" (front ++ le32 lz4Magic) (body ++ rest)) = _ at hparse
      rw [dataFrame_standard hlen, hparse, ok_bind]
      simp only [track, split, frameFormat, append_assoc, length_append]
      rfl
    · refine ⟨lz4LegacyMagic, body, rfl, by decide, .inr (.inl rfl), by decide, ?_⟩
      intro front rest totals hrest hlen
      rw [← append_assoc, append_assoc] at hlen
      have hparse := htakes (front ++ le32 lz4LegacyMagic) rest hrest
        (by simpa only [track_bound, append_assoc] using hlen)
      show dataFrame xxHash32 front.length lz4LegacyMagic totals
        (split "lz4" (front ++ le32 lz4LegacyMagic) (body ++ rest)) = _
      change legacyBody (split "lz4" (front ++ le32 lz4LegacyMagic) (body ++ rest)) = _ at hparse
      rw [dataFrame_legacy, hparse]
      show _ = (totals.addLegacy true >>= fun totals => totals.addFrame _ _ parsed).map _
      cases totals.addLegacy true with
      | error e => rfl
      | ok totals =>
        simp only [ok_bind, track, split, frameFormat, append_assoc,
          length_append]
  delimits := by
    intro front magic tail totals totals' next hmagic _ hlen h
    change dataFrame xxHash32 front.length magic totals
      (split "lz4" (front ++ le32 magic) tail) = .ok (totals', next) at h
    by_cases hstandard : magic = lz4Magic
    · subst hstandard
      rw [dataFrame_standard hlen] at h
      obtain ⟨⟨parsed, last⟩, hparse, hmap⟩ := bind_eq_ok.mp h
      obtain ⟨body, rest, rfl, rfl, htakes⟩ := standardBody_ok hlen hparse
      obtain ⟨added, hadd, heq⟩ := map_eq_ok.mp hmap
      cases heq
      refine ⟨body, rest, (false, parsed), rfl, rfl, ⟨body, rfl, htakes⟩, ?_⟩
      show totals.addFrame front.length (front.length + (le32 lz4Magic ++ body).length) parsed = _
      simpa only [split, append_assoc, length_append] using hadd
    · by_cases hlegacy : magic = lz4LegacyMagic
      · subst hlegacy
        rw [dataFrame_legacy] at h
        obtain ⟨counted, hcounted, h⟩ := bind_eq_ok.mp h
        obtain ⟨⟨parsed, last⟩, hparse, hmap⟩ := bind_eq_ok.mp h
        obtain ⟨body, rest, rfl, rfl, htakes⟩ := legacyBody_delimits _ _ _ _ hlen hparse
        obtain ⟨added, hadd, heq⟩ := map_eq_ok.mp hmap
        cases heq
        refine ⟨body, rest, (true, parsed), rfl, rfl, ⟨body, rfl, htakes⟩, ?_⟩
        rw [add, hcounted, ok_bind]
        simpa only [track, split, append_assoc, length_append] using hadd
      · rw [dataFrame, if_neg hstandard, if_neg hlegacy] at h
        cases h

def Lz4Frame.shift (offset : Nat) (frame : Lz4Frame) : Lz4Frame :=
  { frame with start := offset + frame.start, finish := offset + frame.finish }

namespace Totals

def step (totals : Totals) (start : Nat) (piece : Piece DataFrame) : Totals :=
  match piece.frame with
  | none => { totals with
      totalFrames := totals.totalFrames + 1
      skippableFrames := totals.skippableFrames + 1 }
  | some (legacy, parsed) => { totals with
      totalFrames := totals.totalFrames + 1
      dataFrames := totals.dataFrames + 1
      legacyFrames := totals.legacyFrames + legacy.toNat
      contentChecksumFrames := totals.contentChecksumFrames + parsed.contentChecksum.toNat
      blockChecksumFrames := totals.blockChecksumFrames + parsed.blockChecksums.toNat
      dictionaryFrames := totals.dictionaryFrames + parsed.dictionary.toNat
      maximumBlockBytes := max totals.maximumBlockBytes parsed.maximumBlockBytes
      aggregateSize := sumSize totals.aggregateSize parsed.contentSize
      frames := totals.frames ++
        [{ start := start, finish := start + piece.bytes.length,
           contentSize := parsed.contentSize,
           checksum := parsed.contentChecksum || parsed.blockChecksums,
           dictionary := parsed.dictionary, workingBytes := parsed.workingBytes }] }

/-- There is room for further frames in every counter. -/
structure Room (limits : Limits) (totals : Totals) (further : Nat) : Prop where
  limit : totals.totalFrames + further ≤ limits.maxStreamFrames
  total : totals.totalFrames + further < 2 ^ 64
  data : totals.dataFrames + further < 2 ^ 64
  skippable : totals.skippableFrames + further < 2 ^ 64
  legacy : totals.legacyFrames + further < 2 ^ 64
  contentChecksum : totals.contentChecksumFrames + further < 2 ^ 64
  blockChecksum : totals.blockChecksumFrames + further < 2 ^ 64
  dictionary : totals.dictionaryFrames + further < 2 ^ 64

def merge (totals : Totals) (offset : Nat) (next : Totals) : Totals where
  frames := totals.frames ++ next.frames.map (Lz4Frame.shift offset)
  totalFrames := totals.totalFrames + next.totalFrames
  dataFrames := totals.dataFrames + next.dataFrames
  skippableFrames := totals.skippableFrames + next.skippableFrames
  legacyFrames := totals.legacyFrames + next.legacyFrames
  contentChecksumFrames := totals.contentChecksumFrames + next.contentChecksumFrames
  blockChecksumFrames := totals.blockChecksumFrames + next.blockChecksumFrames
  dictionaryFrames := totals.dictionaryFrames + next.dictionaryFrames
  maximumBlockBytes := max totals.maximumBlockBytes next.maximumBlockBytes
  aggregateSize := sumSize totals.aggregateSize next.aggregateSize

theorem merge_step (totals : Totals) (offset : Nat) (next : Totals) (start : Nat)
    (piece : Piece DataFrame) :
    totals.merge offset (next.step start piece) =
      (totals.merge offset next).step (offset + start) piece := by
  obtain ⟨bytes, frame | ⟨legacy, parsed⟩⟩ := piece
  · simp only [step, merge, Nat.add_assoc]
  · simp only [step, merge, Nat.add_assoc, Nat.max_assoc, sumSize_assoc, map_append,
      append_assoc]
    rfl

end Totals

def counting (limits : Limits) : Counting Totals DataFrame where
  empty := .empty
  step := .step
  frames totals := totals.dataFrames + totals.skippableFrames
  skippable := Totals.skippableFrames
  ranges totals := totals.frames.map fun frame => (frame.start, frame.finish)
  contents totals := totals.frames.map Lz4Frame.contentSize
  size frame := frame.2.contentSize
  aggregate := Totals.aggregateSize
  room := Totals.Room limits
  merge := .merge

section

variable {limits : Limits} {totals : Totals} {start n : Nat}

theorem count_ok {totals' : Totals} {piece : Piece DataFrame}
    (h : (frameFormat xxHash32 limits).count add totals start piece = .ok totals') :
    totals' = totals.step start piece := by
  obtain ⟨entered, henter, h⟩ := bind_eq_ok.mp h
  obtain ⟨total, htotal, henter⟩ := bind_eq_ok.mp henter
  obtain ⟨_, -, henter⟩ := bind_eq_ok.mp henter
  obtain ⟨-, rfl⟩ := checkedAdd_eq_ok.mp htotal
  cases henter
  obtain ⟨bytes, frame | ⟨legacy, parsed⟩⟩ := piece
  · obtain ⟨skippable, hskippable, h⟩ := bind_eq_ok.mp h
    obtain ⟨-, rfl⟩ := checkedAdd_eq_ok.mp hskippable
    exact (Except.ok.inj h).symm
  · obtain ⟨counted, hadded, h⟩ := bind_eq_ok.mp h
    obtain ⟨legacyFrames, hlegacy, hcounted⟩ := bind_eq_ok.mp hadded
    cases hcounted
    change Totals.addFrame start (start + bytes.length) parsed _ = _ at h
    unfold Totals.addFrame at h
    obtain ⟨data, hdata, h⟩ := bind_eq_ok.mp h
    obtain ⟨contentChecksum, hcontent, h⟩ := bind_eq_ok.mp h
    obtain ⟨blockChecksum, hblock, h⟩ := bind_eq_ok.mp h
    obtain ⟨dictionary, hdictionary, h⟩ := bind_eq_ok.mp h
    obtain ⟨aggregate, haggregate, h⟩ := bind_eq_ok.mp h
    obtain ⟨-, rfl⟩ := checkedAdd_eq_ok.mp hdata
    obtain rfl := countIf_ok hlegacy
    obtain rfl := countIf_ok hcontent
    obtain rfl := countIf_ok hblock
    obtain rfl := countIf_ok hdictionary
    obtain rfl := addContentSize_ok haggregate
    exact (Except.ok.inj h).symm

theorem enter_of_room (h : totals.Room limits (n + 1)) :
    totals.enter limits = .ok { totals with totalFrames := totals.totalFrames + 1 } := by
  have hlimit := h.limit
  have htotal := h.total
  rw [Totals.enter, checkedAdd_bind (by omega), checkFrameCount, checkLimit_of_le (by omega)]
  rfl

theorem count_skippable {bytes : List UInt8} (h : totals.Room limits (n + 1)) :
    (frameFormat xxHash32 limits).count add totals start ⟨bytes, none⟩ =
      .ok (totals.step start ⟨bytes, none⟩) := by
  have hskippable := h.skippable
  show (totals.enter limits >>= fun totals => totals.skipped) = _
  rw [enter_of_room h, ok_bind, Totals.skipped, checkedAdd_of_lt (by simp only; omega)]
  rfl

theorem count_data {bytes : List UInt8} {frame : DataFrame} (h : totals.Room limits (n + 1))
    (htotal : SizesFit totals.aggregateSize []) :
    (frameFormat xxHash32 limits).count add totals start ⟨bytes, some frame⟩ =
      if SizesFit totals.aggregateSize [frame.2.contentSize] then
        .ok (totals.step start ⟨bytes, some frame⟩)
      else .error (streamFormatError "lz4" "aggregate content size overflows") := by
  have hdata := h.data
  have hlegacy := h.legacy
  have hcontent := h.contentChecksum
  have hblock := h.blockChecksum
  have hdictionary := h.dictionary
  obtain ⟨legacy, parsed⟩ := frame
  show (totals.enter limits >>= fun totals => totals.addLegacy legacy >>= fun totals =>
    totals.addFrame start (start + bytes.length) parsed) = _
  rw [enter_of_room h, ok_bind, Totals.addLegacy,
    countIf_of_room _ _ (by simp only; omega), ok_bind]
  show Totals.addFrame start (start + bytes.length) parsed _ = _
  rw [Totals.addFrame, checkedAdd_bind (by simp only; omega),
    countIf_of_room _ _ (by simp only; omega), ok_bind, countIf_of_room _ _ (by simp only; omega),
    ok_bind, countIf_of_room _ _ (by simp only; omega), ok_bind, addContentSize_eq _ htotal]
  split <;> rfl

theorem room_step {piece : Piece DataFrame} (h : totals.Room limits (n + 1)) :
    (totals.step start piece).Room limits n := by
  obtain ⟨hlimit, htotals, hdata, hskippable, hlegacy, hcontent, hblock, hdictionary⟩ := h
  obtain ⟨bytes, frame | ⟨legacy, parsed⟩⟩ := piece
  · constructor <;> simp only [Totals.step] <;> omega
  · have hlegacy := legacy.toNat_le
    have hcontent := parsed.contentChecksum.toNat_le
    have hblock := parsed.blockChecksums.toNat_le
    have hdict := parsed.dictionary.toNat_le
    constructor <;> simp only [Totals.step] <;> omega

end

theorem counting_lawful (limits : Limits) :
    (counting limits).Lawful (frameFormat xxHash32 limits) (Frame xxHash32) add limits where
  count_ok := fun _ _ _ _ => count_ok
  count_eq := by
    intro totals start piece n _ hroom htotal
    obtain ⟨bytes, frame | frame⟩ := piece
    · exact (count_skippable hroom).trans (if_pos htotal).symm
    · exact count_data hroom htotal
  frames_step := by
    intro totals start piece
    obtain ⟨bytes, frame | frame⟩ := piece <;> simp only [counting, Totals.step] <;> omega
  skippable_step := by
    intro totals start piece
    obtain ⟨bytes, frame | frame⟩ := piece <;> rfl
  ranges_step := by
    intro totals start piece
    obtain ⟨bytes, frame | frame⟩ := piece
    · exact (append_nil _).symm
    · exact map_append
  contents_step := by
    intro totals start piece
    obtain ⟨bytes, frame | frame⟩ := piece
    · exact (append_nil _).symm
    · exact map_append
  aggregate_step := by
    intro totals start piece
    obtain ⟨bytes, frame | frame⟩ := piece <;> rfl
  room_step := fun _ _ _ _ => room_step
  frames_empty := rfl
  skippable_empty := rfl
  ranges_empty := rfl
  contents_empty := rfl
  aggregate_empty := rfl
  room_empty := by
    intro n hlimit hlen
    constructor <;> simp only [counting, Totals.empty] <;> omega
  merge_empty := by
    intro totals offset
    simp only [counting, Totals.merge, Totals.empty, List.map_nil, append_nil, Nat.add_zero,
      Nat.max_zero, sumSize_zero]
  merge_step := fun totals offset next start piece => totals.merge_step offset next start piece

/-- Counts are added and the block size is the larger one. -/
def Lz4StreamInfo.merge (info next : Lz4StreamInfo) : Lz4StreamInfo where
  frameCount := info.frameCount + next.frameCount
  skippableFrameCount := info.skippableFrameCount + next.skippableFrameCount
  legacyFrameCount := info.legacyFrameCount + next.legacyFrameCount
  contentChecksumFrameCount := info.contentChecksumFrameCount + next.contentChecksumFrameCount
  blockChecksumFrameCount := info.blockChecksumFrameCount + next.blockChecksumFrameCount
  dictionaryFrameCount := info.dictionaryFrameCount + next.dictionaryFrameCount
  maximumBlockBytes := max info.maximumBlockBytes next.maximumBlockBytes

theorem parse_ok {input : List UInt8} {limits : Limits} {info : Lz4StreamInfo}
    {size : Option Nat} {frames : List Lz4Frame}
    (h : parse xxHash32 input limits = .ok (info, size, frames)) :
    ∃ totals : Totals, (frameFormat xxHash32 limits).scan Totals.empty input = .ok totals ∧
      totals.dataFrames ≠ 0 ∧ totals.info = info ∧ totals.aggregateSize = size ∧
      totals.frames = frames := by
  obtain ⟨totals, hscan, h⟩ := bind_eq_ok.mp h
  obtain ⟨_, hdata, h⟩ := bind_eq_ok.mp h
  cases h
  exact ⟨totals, hscan, rejectIf_eq_ok.mp hdata, rfl, rfl, rfl⟩

theorem parse_append {a b : List UInt8} {limits : Limits} {infoA infoB : Lz4StreamInfo}
    {sizeA sizeB : Option Nat} {framesA framesB : List Lz4Frame}
    (hlen : (a ++ b).length < 2 ^ 64) (ha : parse xxHash32 a limits = .ok (infoA, sizeA, framesA))
    (hb : parse xxHash32 b limits = .ok (infoB, sizeB, framesB))
    (hframes : infoA.frameCount + infoA.skippableFrameCount +
      (infoB.frameCount + infoB.skippableFrameCount) ≤ limits.maxStreamFrames) :
    (parse xxHash32 (a ++ b) limits =
      if SizesFit sizeA (framesB.map Lz4Frame.contentSize) then
        .ok (infoA.merge infoB, sumSize sizeA sizeB,
          framesA ++ framesB.map (Lz4Frame.shift a.length))
      else .error (streamFormatError "lz4" "aggregate content size overflows")) ∧
    Tiles (a ++ b) 0
      ((framesA ++ framesB.map (Lz4Frame.shift a.length)).map fun frame =>
        (frame.start, frame.finish))
      (infoA.merge infoB).skippableFrameCount := by
  obtain ⟨ta, hscanA, hdata, rfl, rfl, rfl⟩ := parse_ok ha
  obtain ⟨tb, hscanB, -, rfl, rfl, rfl⟩ := parse_ok hb
  obtain ⟨hrun, htiles⟩ := (frameFormat_lawful limits).scan_append (counting_lawful limits) hlen
    hscanA hscanB hframes
  have hsome : ¬(ta.merge a.length tb).dataFrames = 0 := by
    simp only [Totals.merge]
    omega
  exact ⟨table_of_scan hrun hsome, htiles⟩

end Lz4
end Unpackio
