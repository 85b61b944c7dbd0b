/-
What the XZ preflight accepts, as a tiling of the input.

The stream header, the blocks, the index, the footer and the stream padding stand
one behind the other and fill the input.  The index is read forward from its
start, which the footer gives, and the blocks are read forward from the header:
the tiling says that both directions meet.
-/
import Unpackio.Decode.XzNumber

namespace Unpackio
namespace Xz

open Prog.CanReturn (bind_iff lift_iff pure_iff)

variable {input : List UInt8} {limits : Limits} {profile : Profile}

theorem skipStreamPadding_returns (fuel : Nat) {streamEnd finish : Nat}
    (hle : streamEnd ≤ input.length)
    (h : (skipStreamPadding input profile fuel streamEnd).CanReturn finish) :
    ∃ quads, StandsAt input finish streamEnd (List.replicate (4 * quads) 0) := by
  induction fuel generalizing streamEnd with
  | zero =>
    obtain rfl := pure_iff.mp h
    exact ⟨0, .nil hle⟩
  | succ fuel ih =>
    rw [skipStreamPadding] at h
    split at h
    · obtain rfl := pure_iff.mp h
      exact ⟨0, .nil hle⟩
    · simp only [bind_iff, lift_iff, okOr_eq_ok, range_eq_ok] at h
      obtain ⟨paddingStart, hstart, tail, ⟨-, hlength, hstands⟩, -, -, h⟩ := h
      obtain ⟨hfour, rfl⟩ := checkedSub_eq_some.mp hstart
      split at h
      · next hzero =>
        obtain ⟨quads, hquads⟩ := ih (by omega) h
        have htail : tail = List.replicate 4 0 := by
          rw [List.eq_replicate_iff]
          exact ⟨hlength, fun byte hbyte => of_decide_eq_true
            (List.all_eq_true.mp hzero byte hbyte)⟩
        refine ⟨quads + 1, ?_⟩
        rw [htail, Nat.sub_add_cancel hfour] at hstands
        rw [Nat.mul_succ, List.replicate_add]
        exact hquads.append hstands
      · obtain rfl := pure_iff.mp h
        exact ⟨0, .nil hle⟩

/-- A stream header has the magic, the flags and a checksum. -/
structure StreamHeader (header flags : List UInt8) (check : Check) : Prop where
  pieces : ∃ crc : List UInt8, crc.length = 4 ∧ header = magic ++ flags ++ crc
  size : flags.length = 2
  namesCheck : ∃ identifier, flags[1]? = some identifier ∧ Check.fromId identifier = some check

theorem readStreamHeader_returns {flags : List UInt8} {check : Check}
    (h : (readStreamHeader input profile).CanReturn (flags, check)) :
    ∃ header, StandsAt input 0 headerBytes header ∧ StreamHeader header flags check := by
  simp only [readStreamHeader, bind_iff, lift_iff, okOr_eq_ok,
    range_eq_ok, rejectIf_eq_ok, getRange_iff, leU32_eq_ok, pure_iff,
    Prod.mk.injEq] at h
  obtain ⟨header, ⟨-, hlength, hstands⟩, -, hmagic, flags', hflags, -, ⟨crc, -, hcrcLength,
    hcrc, -⟩,
    -, -, -, -, identifier, hidentifier, -, -, check', hcheck, rfl, rfl⟩ := h
  have hmagic := getRange_iff.mp (Decidable.not_not.mp hmagic)
  have hwhole := (hmagic.append hflags).append hcrc
  rw [Nat.zero_add] at hstands
  exact ⟨header, hstands, ⟨crc, hcrcLength, hwhole.eq_of_whole hlength.symm⟩,
    Nat.add_left_cancel hflags.next.symm, identifier, hidentifier, hcheck⟩

def StreamFooter (footer flags : List UInt8) (indexSize : Nat) : Prop :=
  ∃ crc backward : List UInt8, crc.length = 4 ∧ backward.length = 4 ∧
    footer = crc ++ backward ++ flags ++ [0x59, 0x5a] ∧
    indexSize = (fromLeBytes backward + 1) * 4

theorem readStreamFooter_returns {streamEnd footerStart indexSize : Nat} {flags : List UInt8}
    (h : (readStreamFooter input streamEnd flags profile).CanReturn (footerStart, indexSize)) :
    ∃ footer, StandsAt input footerStart streamEnd footer ∧ footer.length = footerBytes ∧
      StreamFooter footer flags indexSize := by
  simp only [readStreamFooter, bind_iff, lift_iff, okOr_eq_ok,
    range_eq_ok, rejectIf_eq_ok, leU32_eq_ok, pure_iff, Prod.mk.injEq] at h
  obtain ⟨start, hstart, footer, ⟨-, hlength, hstands⟩, -, hmagic, -, -, -,
    ⟨crc, -, hcrcLength, hcrc, -⟩, -, -, -, ⟨backward, -, hbackwardLength, hbackward, rfl⟩, rfl,
    rfl⟩ := h
  obtain ⟨hle, rfl⟩ := checkedSub_eq_some.mp hstart
  obtain ⟨hmagic, hflags⟩ := not_or.mp hmagic
  have hmagic := getRange_iff.mp (Decidable.not_not.mp hmagic)
  have hflags := getRange_iff.mp (Decidable.not_not.mp hflags)
  have hwhole := ((hcrc.append hbackward).append hflags).append hmagic
  rw [Nat.sub_add_cancel hle] at hstands
  exact ⟨footer, hstands, hlength, crc, backward, hcrcLength, hbackwardLength,
    hwhole.eq_of_whole hlength.symm, rfl⟩

theorem readIndexBody_returns {footerStart indexSize indexStart : Nat} {body : List UInt8}
    (h : (readIndexBody input footerStart indexSize limits profile).CanReturn (indexStart, body)) :
    ∃ crc : List UInt8, crc.length = 4 ∧ StandsAt input indexStart footerStart (body ++ crc) ∧
      (body ++ crc).length = indexSize ∧ StandsAt body 0 1 [0] := by
  simp only [readIndexBody, bind_iff, lift_iff, okOr_eq_ok,
    range_eq_ok, rejectIf_eq_ok, leU32_eq_ok, pure_iff, Prod.mk.injEq] at h
  obtain ⟨-, -, start, hstart, index, ⟨-, hlength, hstands⟩, -, hindicator, -, -, crcStart,
    hcrcStart,
    body', ⟨-, hbodyLength, hbody⟩, -, ⟨crc, -, hcrcLength, hcrc, -⟩, -, -, rfl, rfl⟩ := h
  obtain ⟨hle, rfl⟩ := checkedSub_eq_some.mp hstart
  obtain ⟨hfour, rfl⟩ := checkedSub_eq_some.mp hcrcStart
  obtain ⟨hlong, hhead⟩ := not_or.mp hindicator
  rw [Nat.zero_add] at hbody
  have hwhole := (hbody.append hcrc).eq_of_whole (by omega)
  rw [Nat.sub_add_cancel hle] at hstands
  refine ⟨crc, hcrcLength, hwhole ▸ hstands, hwhole ▸ hlength, ?_⟩
  obtain ⟨tail, htail⟩ := List.head?_eq_some_iff.mp (Decidable.not_not.mp hhead)
  obtain ⟨first, rest, rfl⟩ : ∃ first rest, body' = first :: rest :=
    List.exists_cons_of_length_pos (by omega)
  rw [hwhole] at htail
  obtain rfl := (List.cons.inj htail).1
  exact ⟨Nat.zero_le _, rfl, rest, rfl⟩

structure BlockTile where
  header : List UInt8
  compressed : List UInt8
  padding : List UInt8
  check : List UInt8
  deriving DecidableEq, Repr

namespace BlockTile

def bytes (tile : BlockTile) : List UInt8 :=
  tile.header ++ tile.compressed ++ tile.padding ++ tile.check

/-- The tile is the block at the offset that the index record and the plan
describe.  The record has the unpadded and the uncompressed size. -/
structure Holds (input : List UInt8) (limits : Limits) (profile : Profile) (check : Check)
    (offset : Nat) (tile : BlockTile) (record : Nat × Nat) (block : BlockPlan) : Prop where
  compressedStart : block.compressedStart = offset + tile.header.length
  compressedSize : block.compressedSize = tile.compressed.length
  checkStart : block.checkStart =
    offset + tile.header.length + tile.compressed.length + tile.padding.length
  checkSize : tile.check.length = check.size
  unpadded : record.1 = tile.header.length + tile.compressed.length + tile.check.length
  uncompressed : record.2 = block.uncompressedSize
  padding : ∃ count, tile.padding = List.replicate count 0 ∧ count < 4 ∧
    4 ∣ tile.compressed.length + count
  declared : ∃ header, (readBlockHeader input offset record.1 limits profile).CanReturn header ∧
    header.headerSize = tile.header.length ∧
    (∀ size ∈ header.declaredCompressed, size = tile.compressed.length) ∧
    ∀ size ∈ header.declaredUncompressed, size = record.2

end BlockTile

theorem paddingFor_eq_ok {value padding : Nat} :
    paddingFor value profile = .ok padding ↔ padding < 4 ∧ 4 ∣ value + padding := by
  rw [paddingFor]
  split
  · rw [Except.ok.injEq]
    omega
  · rw [okOr_eq_ok, checkedSub_eq_some]
    omega

theorem readBlockHeader_returns {offset unpaddedSize : Nat} {header : BlockHeader}
    (h : (readBlockHeader input offset unpaddedSize limits profile).CanReturn header) :
    ∃ bytes, StandsAt input offset (offset + header.headerSize) bytes ∧
      bytes.length = header.headerSize := by
  rw [readBlockHeader] at h
  obtain ⟨⟨headerSize, body⟩, hbody, h⟩ := bind_iff.mp h
  have hsize : header.headerSize = headerSize := by
    simp only [bind_iff, pure_iff] at h
    obtain ⟨-, -, -, -, -, -, -, -, -, -, -, -, -, -, -, -, -, -, -, -, -, -, -, -, -, -, -, rfl⟩ :=
      h
    rfl
  simp only [blockHeaderBody, bind_iff, lift_iff, range_eq_ok,
    pure_iff, Prod.mk.injEq] at hbody
  obtain ⟨-, -, encodedSize, -, -, -, -, -, -, -, -, -, bytes, ⟨-, hlength, hstands⟩, -, -, -, -, -,
    -, -, -, rfl, -⟩ := hbody
  rw [hsize]
  exact ⟨bytes, hstands, hlength⟩

theorem preflightBlock_returns {offset unpaddedSize uncompressedSize physicalEnd headerSize : Nat}
    {check : Check} {block : BlockPlan}
    (h : (preflightBlock input offset unpaddedSize uncompressedSize check limits profile).CanReturn
      (block, physicalEnd, headerSize)) :
    ∃ tile : BlockTile, StandsAt input offset physicalEnd tile.bytes ∧
      tile.Holds input limits profile check offset (unpaddedSize, uncompressedSize) block := by
  rw [preflightBlock] at h
  obtain ⟨header, hheader, h⟩ := bind_iff.mp h
  obtain ⟨headerBytes, hheaderStands, hheaderLength⟩ := readBlockHeader_returns hheader
  simp only [bind_iff, lift_iff, okOr_eq_ok, range_eq_ok,
    rejectIf_eq_ok, paddingFor_eq_ok, pure_iff, Prod.mk.injEq] at h
  obtain ⟨fixed, hfixed, compressedSize, hcompressedSize, -, -, -, hdeclaredCompressed, -,
    hdeclaredUncompressed, compressedStart, hcompressedStart, compressed,
    ⟨-, hcompressedLength, hcompressed⟩, paddingSize, hpaddingSize, paddingStart, hpaddingStart,
    padding, ⟨-, hpaddingLength, hpadding⟩, -, -, -, hzero, checkStart, hcheckStart, physicalEnd',
    hphysicalEnd, checkBytes, ⟨-, hcheckLength, hcheck⟩, -, -, -, -, -, -, rfl, rfl, rfl⟩ := h
  obtain ⟨-, rfl⟩ := checkedAdd_eq_some.mp hfixed
  obtain ⟨hfixedLe, rfl⟩ := checkedSub_eq_some.mp hcompressedSize
  obtain ⟨-, rfl⟩ := checkedAdd_eq_some.mp hcompressedStart
  obtain ⟨-, rfl⟩ := checkedAdd_eq_some.mp hpaddingStart
  obtain ⟨-, rfl⟩ := checkedAdd_eq_some.mp hcheckStart
  obtain ⟨-, rfl⟩ := checkedAdd_eq_some.mp hphysicalEnd
  have hzeros : padding = List.replicate paddingSize 0 := by
    rw [List.eq_replicate_iff]
    refine ⟨hpaddingLength, fun byte hbyte => ?_⟩
    by_contra hne
    exact hzero (List.any_eq_true.mpr ⟨byte, hbyte, decide_eq_true hne⟩)
  refine ⟨⟨headerBytes, compressed, padding, checkBytes⟩,
    ((hheaderStands.append hcompressed).append hpadding).append hcheck, ?_⟩
  exact {
    compressedStart := by rw [hheaderLength]
    compressedSize := hcompressedLength.symm
    checkStart := by rw [hheaderLength, hcompressedLength, hpaddingLength]
    checkSize := hcheckLength
    unpadded := by
      rw [hheaderLength, hcompressedLength, hcheckLength]
      omega
    uncompressed := rfl
    padding := ⟨paddingSize, hzeros, hpaddingSize.1, hcompressedLength ▸ hpaddingSize.2⟩
    declared := by
      refine ⟨header, hheader, hheaderLength.symm, fun size hsize => ?_, fun size hsize => ?_⟩
      · rw [hcompressedLength]
        by_contra hne
        exact hdeclaredCompressed ⟨size, hsize, hne⟩
      · by_contra hne
        exact hdeclaredUncompressed ⟨size, hsize, hne⟩ }

/-- The tiles of the blocks from the offset on, with their records and plans. -/
inductive BlocksHold (input : List UInt8) (limits : Limits) (profile : Profile) (check : Check) :
    Nat → List BlockTile → List (Nat × Nat) → List BlockPlan → Prop
  | nil (offset : Nat) : BlocksHold input limits profile check offset [] [] []
  | cons {offset : Nat} {tile : BlockTile} {record : Nat × Nat} {block : BlockPlan}
      {tiles : List BlockTile} {records : List (Nat × Nat)} {blocks : List BlockPlan}
      (head : tile.Holds input limits profile check offset record block)
      (tail : BlocksHold input limits profile check (offset + tile.bytes.length) tiles records
        blocks) :
      BlocksHold input limits profile check offset (tile :: tiles) (record :: records)
        (block :: blocks)

def recordBytes (record : Nat × Nat) : List UInt8 := writeVli record.1 ++ writeVli record.2

variable {indexBody : List UInt8} {maximum : Nat} {check : Check}

theorem preflightRecord_returns {state next : RecordState} {block : BlockPlan}
    (h : (preflightRecord input indexBody maximum check limits profile state).CanReturn
      (block, next)) :
    ∃ (tile : BlockTile) (record : Nat × Nat), StandsAt input state.blockOffset next.blockOffset
      tile.bytes ∧
      tile.Holds input limits profile check state.blockOffset record block ∧
      StandsAt indexBody state.position next.position (recordBytes record) ∧
      next.totalOutput = state.totalOutput + record.2 := by
  rw [preflightRecord] at h
  simp only [bind_iff, lift_iff, okOr_eq_ok, rejectIf_eq_ok,
    pure_iff, Prod.mk.injEq] at h
  obtain ⟨⟨unpaddedSize, between⟩, hunpadded, ⟨uncompressedSize, after⟩, huncompressed, -, -,
    ⟨block', physicalEnd, headerSize⟩, hblock, -, -, -, -, -, -, -, -, totalOutput, htotal, -, -,
    rfl, rfl⟩ := h
  obtain ⟨tile, hstands, hholds⟩ := preflightBlock_returns hblock
  have hfirst := (readVli_canReturn.mp hunpadded).2.1
  have hsecond := (readVli_canReturn.mp huncompressed).2.1
  exact ⟨tile, (unpaddedSize, uncompressedSize), hstands, hholds, hfirst.append hsecond,
    (checkedAdd_eq_some.mp htotal).2.symm⟩

theorem preflightRecords_returns (count : Nat) {state last : RecordState} {blocks : List BlockPlan}
    (hoffset : state.blockOffset ≤ input.length) (hposition : state.position ≤ indexBody.length)
    (h : (preflightRecords input indexBody maximum check limits profile count state).CanReturn
      (blocks, last)) :
    ∃ (tiles : List BlockTile) (records : List (Nat × Nat)), records.length = count ∧
      StandsAt input state.blockOffset last.blockOffset (tiles.flatMap BlockTile.bytes) ∧
      BlocksHold input limits profile check state.blockOffset tiles records blocks ∧
      StandsAt indexBody state.position last.position (records.flatMap recordBytes) ∧
      last.totalOutput = state.totalOutput + (records.map Prod.snd).sum := by
  induction count generalizing state blocks with
  | zero =>
    obtain ⟨rfl, rfl⟩ := Prod.mk.inj (pure_iff.mp h)
    exact ⟨[], [], rfl, .nil hoffset, .nil _, .nil hposition, rfl⟩
  | succ count ih =>
    simp only [preflightRecords, bind_iff, pure_iff,
      Prod.mk.injEq] at h
    obtain ⟨⟨block, next⟩, hrecord, ⟨rest, last'⟩, hrest, rfl, rfl⟩ := h
    obtain ⟨tile, record, htile, hholds, hbytes, htotal⟩ := preflightRecord_returns hrecord
    obtain ⟨tiles, records, hcount, htiles, hblocks, hrecords, hsum⟩ := ih htile.le hbytes.le hrest
    refine ⟨tile :: tiles, record :: records, congrArg (· + 1) hcount, htile.append htiles,
      .cons hholds (htile.next ▸ hblocks), hbytes.append hrecords, ?_⟩
    rw [hsum, htotal, List.map_cons, List.sum_cons, Nat.add_assoc]

theorem validateIndexPadding_returns {position : Nat} {u : Unit}
    (h : (validateIndexPadding indexBody position profile).CanReturn u) :
    ∃ count, count < 4 ∧ 4 ∣ position + count ∧
      StandsAt indexBody position indexBody.length (List.replicate count 0) := by
  simp only [validateIndexPadding, bind_iff, lift_iff, okOr_eq_ok,
    range_eq_ok, rejectIf_eq_ok, paddingFor_eq_ok] at h
  obtain ⟨size, hsize, expected, hexpected, -, heq, padding, ⟨-, hlength, hstands⟩, -, -, hzero⟩ :=
    h
  obtain ⟨hle, rfl⟩ := checkedSub_eq_some.mp hsize
  obtain rfl := Decidable.not_not.mp heq
  have hzeros : padding = List.replicate (indexBody.length - position) 0 := by
    rw [List.eq_replicate_iff]
    refine ⟨hlength, fun byte hbyte => ?_⟩
    by_contra hne
    exact hzero (List.any_eq_true.mpr ⟨byte, hbyte, decide_eq_true hne⟩)
  rw [Nat.add_sub_cancel' hle, hzeros] at hstands
  exact ⟨_, hexpected.1, hexpected.2, hstands⟩

structure Tiling where
  header : List UInt8
  blocks : List BlockTile
  records : List (Nat × Nat)
  indexPadding : Nat
  indexCrc : List UInt8
  footer : List UInt8
  streamPadding : Nat
  deriving DecidableEq, Repr

namespace Tiling

/-- The indicator, the number of records, the records, the padding and the
checksum. -/
def index (tiling : Tiling) : List UInt8 :=
  [0] ++ writeVli tiling.records.length ++ tiling.records.flatMap recordBytes ++
    List.replicate tiling.indexPadding 0 ++ tiling.indexCrc

def bytes (tiling : Tiling) : List UInt8 :=
  tiling.header ++ tiling.blocks.flatMap BlockTile.bytes ++ tiling.index ++ tiling.footer ++
    List.replicate (4 * tiling.streamPadding) 0

/-- The tiling is that of the plan. -/
structure Fits (tiling : Tiling) (input : List UInt8) (limits : Limits) (profile : Profile)
    (plan : Plan) : Prop where
  tiles : tiling.bytes = input
  header : tiling.header.length = 12
  footer : tiling.footer.length = 12
  flags : ∃ flags, StreamHeader tiling.header flags plan.check ∧
    StreamFooter tiling.footer flags tiling.index.length
  blocks : BlocksHold input limits profile plan.check 12 tiling.blocks tiling.records plan.blocks
  indexPadding : tiling.indexPadding < 4
  indexAligned : 4 ∣ tiling.index.length
  indexCrc : tiling.indexCrc.length = 4
  total : plan.totalOutput = (tiling.records.map Prod.snd).sum

end Tiling

theorem preflight_returns {expected : Option Nat} {plan : Plan}
    (h : (preflight input expected maximum limits profile).CanReturn plan) :
    ∃ tiling : Tiling, tiling.Fits input limits profile plan := by
  simp only [preflight, bind_iff, lift_iff, okOr_eq_ok,
    rejectIf_eq_ok, pure_iff] at h
  obtain ⟨-, -, streamEnd, hpadding, -, -, ⟨flags, check⟩, hheader, ⟨footerStart, indexSize⟩,
    hfooter, ⟨indexStart, body⟩, hindex, ⟨count, position⟩, hcount, -, -, headerTotal,
    -, -, -, ⟨blocks, last⟩, hrecords, u, hindexPadding, -, hreach, -, -, rfl⟩ := h
  obtain ⟨quads, hpadding⟩ := skipStreamPadding_returns _ (Nat.le_refl _) hpadding
  obtain ⟨header, hheaderStands, hheader⟩ := readStreamHeader_returns hheader
  obtain ⟨footer, hfooterStands, hfooterLength, hfooter⟩ := readStreamFooter_returns hfooter
  obtain ⟨crc, hcrc, hindexStands, hindexLength, hindicator⟩ := readIndexBody_returns hindex
  have hnumber := (readVli_canReturn.mp hcount).2.1
  obtain ⟨tiles, records, rfl, htiles, hblocks, hrecordBytes, htotal⟩ :=
    preflightRecords_returns _ hheaderStands.le hnumber.le hrecords
  obtain ⟨zeros, hzeros, -, hzerosStands⟩ := validateIndexPadding_returns hindexPadding
  have hbody := (((hindicator.append hnumber).append hrecordBytes).append
    hzerosStands).eq_of_whole rfl
  rw [Decidable.not_not.mp hreach] at htiles
  rw [hbody] at hindexStands hindexLength
  have hbytes := ((((hheaderStands.append htiles).append hindexStands).append hfooterStands).append
    hpadding).eq_of_whole rfl
  refine ⟨⟨header, tiles, records, zeros, crc, footer, quads⟩, ?_⟩
  exact {
    tiles := hbytes.symm
    header := (Nat.zero_add _).symm.trans hheaderStands.next.symm
    footer := hfooterLength
    flags := ⟨flags, hheader, hindexLength ▸ hfooter⟩
    blocks := hblocks
    indexPadding := hzeros
    indexAligned := by
      obtain ⟨-, backward, -, -, -, hsize⟩ := hfooter
      exact ⟨_, (hindexLength.trans hsize).trans (Nat.mul_comm _ _)⟩
    indexCrc := hcrc
    total := htotal.trans (Nat.zero_add _) }

/-- The preflight accepts tilings only, and a decoded stream has the size that the
index declares. -/
theorem preflight_tiling (codecs : Codecs) (input : List UInt8) (expected : Option Nat)
    (maximum : Nat) (limits : Limits) (profile : Profile) :
    (∀ plan, (preflight input expected maximum limits profile).CanReturn plan →
      ∃ tiling : Tiling, tiling.Fits input limits profile plan) ∧
    ∀ output, (decode codecs input expected maximum limits profile).CanReturn output →
      ∃ plan, (preflight input expected maximum limits profile).CanReturn plan ∧
        ∃ tiling : Tiling, tiling.Fits input limits profile plan ∧
          output.length = (tiling.records.map Prod.snd).sum := by
  refine ⟨fun plan h => preflight_returns h, fun output h => ?_⟩
  simp only [decode, bind_iff, lift_iff, rejectIf_eq_ok,
    pure_iff] at h
  obtain ⟨-, -, plan, hplan, output', -, -, hlength, rfl⟩ := h
  obtain ⟨tiling, hfits⟩ := preflight_returns hplan
  exact ⟨plan, hplan, tiling, hfits, (Decidable.not_not.mp hlength).trans hfits.total⟩

def abcStream : List UInt8 :=
  [0xfd, 0x37, 0x7a, 0x58, 0x5a, 0x00, 0x00, 0x01, 0x69, 0x22, 0xde, 0x36, 0x02, 0x00, 0x21, 0x01,
    0x16, 0x00, 0x00, 0x00, 0x74, 0x2f, 0xe5, 0xa3, 0x01, 0x00, 0x02, 0x61, 0x62, 0x63, 0x00, 0x00,
    0xc2, 0x41, 0x24, 0x35, 0x00, 0x01, 0x17, 0x03, 0x07, 0x60, 0x0c, 0xbc, 0x90, 0x42, 0x99, 0x0d,
    0x01, 0x00, 0x00, 0x00, 0x00, 0x01, 0x59, 0x5a]

def abcPlan : Plan where
  blocks := [{
    compressedStart := 24
    compressedSize := 7
    checkStart := 32
    uncompressedSize := 3
    dictionaryProperty := 22
    filters := [⟨0x21, 16, 1⟩]
    filterCount := 1 }]
  check := .crc32
  totalOutput := 3

def abcCodecs : Codecs where
  lzma2 _ _ _ _ := pure [97, 98, 99]
  filter _ _ bytes := pure bytes
  sha256 bytes := bytes

theorem preflight_tiling_abc :
    (∃ tiling : Tiling, tiling.Fits abcStream .default .packagePayload abcPlan) ∧
      ∃ plan, (preflight abcStream none 3 .default .packagePayload).CanReturn plan ∧
        ∃ tiling : Tiling, tiling.Fits abcStream .default .packagePayload plan ∧
          [97, 98, 99].length = (tiling.records.map Prod.snd).sum :=
  have h := preflight_tiling abcCodecs abcStream none 3 .default .packagePayload
  ⟨h.1 abcPlan (.of_granted (by decide +kernel)),
    h.2 [97, 98, 99] (.of_granted (by decide +kernel))⟩

end Xz
end Unpackio
