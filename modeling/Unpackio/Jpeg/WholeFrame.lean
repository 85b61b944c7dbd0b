/-
Slices and the whole frame: what is decoded and written slice by slice is what one
buffer with all rows of the frame has.
-/
import Unpackio.Foundation.JpegLayout
import Unpackio.Jpeg.Slices

namespace Unpackio
namespace Jpeg

open Prog

def emptyBuffers (metadata : Metadata) (rows : Nat) : List (List Block) :=
  (List.range metadata.numScanComponents).map fun scanIndex =>
    List.replicate (blocksAt metadata scanIndex rows) Block.zero

theorem blocksAt_zero (metadata : Metadata) (scanIndex : Nat) :
    blocksAt metadata scanIndex 0 = 0 := by
  rw [blocksAt]
  cases scanParts metadata scanIndex with
  | error e => rfl
  | ok parts => exact (congrArg (· * _) (Nat.zero_mul _)).trans (Nat.zero_mul _)

theorem eq_of_checkedMul {a b product : Nat} (h : checkedMul a b = some product) :
    product = a * b := by
  rw [checkedMul] at h
  split at h
  · exact (Option.some.inj h).symm
  · cases h

theorem sliceBlockCount_ensures {metadata : Metadata} {height scanIndex : Nat} :
    (sliceBlockCount metadata height scanIndex).Ensures fun count =>
      count = blocksAt metadata scanIndex height := by
  refine .bind (.self _) fun parts hparts => ?_
  refine .bind okOr_ensures fun count hcount => .skip fun _ => .pure ?_
  obtain ⟨value, hvalue, hcount⟩ := Option.bind_eq_some_iff.mp hcount
  obtain ⟨rows, hrows, hvalue⟩ := Option.bind_eq_some_iff.mp hvalue
  rw [blocksAt, hparts, eq_of_checkedMul hcount, eq_of_checkedMul hvalue, eq_of_checkedMul hrows]
  dsimp only [blocksIn]
  ac_rfl

theorem allocateBlocks_ensures {metadata : Metadata} {height bytes maximum : Nat} :
    (allocateBlocks metadata height bytes maximum).Ensures fun blocks =>
      blocks = emptyBuffers metadata height := by
  refine .bind (.mapM fun scanIndex _ => sliceBlockCount_ensures) fun counts hcounts => ?_
  refine .skip fun _ => .skip fun _ => .skip fun _ => .skip fun _ => .pure ?_
  rw [hcounts, List.map_map]
  rfl

theorem mcuBlockIndex_eq {component : Component} {blocksPerRow mcuRow mcuColumn blockY blockX : Nat}
    (hindex : (mcuRow * component.verticalFactor + blockY) * blocksPerRow +
      (mcuColumn * component.horizontalFactor + blockX) < 2 ^ 64) (hpos : 1 ≤ blocksPerRow) :
    mcuBlockIndex component blocksPerRow mcuRow mcuColumn blockY blockX =
      .ok ((mcuRow * component.verticalFactor + blockY) * blocksPerRow +
        (mcuColumn * component.horizontalFactor + blockX)) := by
  have hrow : (mcuRow * component.verticalFactor + blockY) * 1 ≤
      (mcuRow * component.verticalFactor + blockY) * blocksPerRow := Nat.mul_le_mul_left _ hpos
  rw [mcuBlockIndex, checkedMul_of_lt (by omega), Option.bind_some, checkedAdd_bind (by omega),
    checkedMul_of_lt (by omega), Option.bind_some, checkedAdd_bind (by omega),
    checkedMul_of_lt (by omega), Option.bind_some, checkedAdd_of_lt hindex]
  rfl

theorem mcuBlock_lt {metadata : Metadata} {component : Component}
    {rows mcuRow mcuColumn blockY blockX : Nat} (hrow : mcuRow < rows)
    (hcolumn : mcuColumn < metadata.horizontalMcus) (hy : blockY < component.verticalFactor)
    (hx : blockX < component.horizontalFactor) :
    (mcuRow * component.verticalFactor + blockY) *
        (metadata.horizontalMcus * component.horizontalFactor) +
      (mcuColumn * component.horizontalFactor + blockX) < blocksIn metadata component rows :=
  Interleave.group_lt (Interleave.group_lt hrow hy) (Interleave.group_lt hcolumn hx)

theorem sliceRows_get {metadata : Metadata} {buffers : List (List Block)} {currentHeight : Nat}
    {scanIndex index : Nat} (hindex : scanIndex < metadata.numScanComponents)
    (hlt : index < blocksAt metadata scanIndex currentHeight) :
    ((sliceRows metadata currentHeight buffers)[scanIndex]?.bind fun items => items[index]?) =
      buffers[scanIndex]?.bind fun items => items[index]? := by
  rw [sliceRows, List.getElem?_map, List.getElem?_range hindex, Option.map_some, Option.bind_some,
    List.getElem?_take, if_pos hlt]
  cases buffers[scanIndex]? <;> rfl

section

variable {metadata : Metadata} (hscan : metadata.Scan) {currentHeight : Nat}
  (hheight : currentHeight ≤ metadata.verticalMcus) (buffers : List (List Block))

include hscan hheight

theorem encodeMcuComponent_rows {mcuRow mcuColumn scanIndex : Nat} (hrow : mcuRow < currentHeight)
    (hcolumn : mcuColumn < metadata.horizontalMcus)
    (hindex : scanIndex < metadata.numScanComponents) (writer : ScanWriter) :
    encodeMcuComponent metadata (sliceRows metadata currentHeight buffers) mcuRow mcuColumn writer
        scanIndex =
      encodeMcuComponent metadata buffers mcuRow mcuColumn writer scanIndex := by
  obtain ⟨scan, component, quant, hpart⟩ := hscan.partOf hindex
  have hsmall := blocksIn_lt hscan.frame hpart.fits hheight
  obtain ⟨hwidth, hbound⟩ := rowBlocks_bounds hscan.frame hpart.fits
  simp only [encodeMcuComponent, hpart.parts, checkedMul_of_lt hbound, okOr_some, lift_ok_bind]
  refine bind_congr fun dcTable => bind_congr fun acTable => ?_
  refine foldlM_congr (fun blockY hy writer => ?_) writer
  refine foldlM_congr (fun blockX hx writer => ?_) writer
  have hlt := @mcuBlock_lt metadata component _ _ _ _ _ hrow hcolumn (List.mem_range.mp hy)
    (List.mem_range.mp hx)
  rw [mcuBlockIndex_eq (by omega) hwidth, lift_ok_bind, lift_ok_bind,
    sliceRows_get hindex (hpart.blocksAt_eq currentHeight ▸ hlt)]

theorem encodeSlice_rows (writer : ScanWriter) (isLast : Bool) :
    encodeSlice metadata writer (sliceRows metadata currentHeight buffers) currentHeight isLast =
      encodeSlice metadata writer buffers currentHeight isLast := by
  rw [encodeSlice, encodeSlice]
  refine congrArg (· >>= _) ?_
  refine foldlM_congr (fun mcuRow hrow writer => ?_) writer
  refine foldlM_congr (fun mcuColumn hcolumn writer => ?_) writer
  refine bind_congr fun writer => congrArg (· >>= _) ?_
  refine foldlM_congr (fun scanIndex hindex writer => ?_) writer
  exact encodeMcuComponent_rows hscan hheight buffers (List.mem_range.mp hrow)
    (List.mem_range.mp hcolumn) (List.mem_range.mp hindex) writer

end

/-! ## Both loops -/

def ScanLoop.outcome {W : Type} (state : ScanLoop W) : W × Input × List Bin × Bin × Nat :=
  (state.written, state.slice.input, state.slice.models, state.slice.fixed, state.frameCount)

def ScanLoop.start {W : Type} (slice : SliceState) (written : W) (frameCount : Nat) :
    ScanLoop W where
  slice := slice
  written := written
  frameCount := frameCount
  finishedRows := 0

def writeFromFrame (metadata : Metadata) (writer : ScanWriter) (frame : List (List Block))
    (start currentHeight : Nat) (isLast : Bool) : Metered ScanWriter :=
  encodeSlice metadata writer (frameRows metadata start currentHeight frame) currentHeight isLast

def collectSlice (metadata : Metadata) (collected : List (List Block)) (buffers : List (List Block))
    (_start currentHeight : Nat) (_isLast : Bool) : Metered (List (List Block)) :=
  return List.zipWith (· ++ ·) collected (sliceRows metadata currentHeight buffers)

theorem frameRows_append {metadata : Metadata} (hscan : metadata.Scan)
    {height start currentHeight : Nat} {old left right : List (List Block)}
    (h : Buffers metadata.numScanComponents
      (Done metadata height start currentHeight old) left right) :
    List.zipWith (· ++ ·) (frameRows metadata 0 start old) (sliceRows metadata currentHeight left) =
      frameRows metadata 0 (start + currentHeight) right := by
  rw [sliceRows_eq hscan h, frameRows, frameRows, frameRows, List.zipWith_map, List.zipWith_self]
  refine List.map_congr_left fun scanIndex hmem => ?_
  have hindex := List.mem_range.mp hmem
  obtain ⟨slice, frame, -, hframe, before, hbefore, hdone⟩ := h.related scanIndex hindex
  obtain ⟨scan, component, quant, hpart⟩ := hscan.partOf hindex
  have hafter := hdone scan component quant hpart
  have hold : before.take (blocksAt metadata scanIndex start) =
      frame.take (blocksAt metadata scanIndex start) := by
    refine List.ext_getElem? fun index => ?_
    rw [List.getElem?_take, List.getElem?_take]
    split
    · rename_i hlt
      exact (hafter.before index (hpart.blocksAt_eq start ▸ hlt)).symm
    · rfl
  rw [hframe, hbefore, Option.getD_some, Option.getD_some, blocksAt_zero, List.drop_zero,
    List.drop_zero,
    hold, blocksAt_add, List.take_add]

theorem frameRows_whole {metadata : Metadata} (hscan : metadata.Scan) {height finishedRows : Nat}
    {left right : List (List Block)}
    (h : Buffers metadata.numScanComponents (fun scanIndex slice frame =>
      ∀ scan component quant, PartOf metadata scanIndex scan component quant →
        Carried metadata height finishedRows component slice frame) left right) :
    frameRows metadata 0 metadata.verticalMcus right = right := by
  refine List.ext_getElem? fun scanIndex => ?_
  rw [frameRows, List.getElem?_map]
  by_cases hindex : scanIndex < metadata.numScanComponents
  · obtain ⟨slice, frame, -, hframe, hcarried⟩ := h.related scanIndex hindex
    obtain ⟨scan, component, quant, hpart⟩ := hscan.partOf hindex
    have hlength := (hcarried scan component quant hpart).frame_length
    rw [List.getElem?_range hindex, Option.map_some, hframe, Option.getD_some, blocksAt_zero,
      List.drop_zero, hpart.blocksAt_eq, ← hlength, List.take_length]
  · have hright := h.right_length
    rw [List.getElem?_eq_none (by rw [List.length_range]; omega),
      List.getElem?_eq_none (by omega)]
    rfl

section

variable {metadata : Metadata} {height : Nat} {W V : Type}

theorem start_inStep {R : Nat → W → V → List (List Block) → Prop} {input : Input}
    {models : List Bin} {fixed : Bin} {w : W} {v : V} {frameCount : Nat}
    (hwritten : R 0 w v (emptyBuffers metadata metadata.verticalMcus)) :
    InStep metadata height R
      (.start ⟨input, emptyBuffers metadata height, models, fixed⟩ w frameCount)
      (.start ⟨input, emptyBuffers metadata metadata.verticalMcus, models, fixed⟩ v
        frameCount) := by
  have hlength : ∀ rows, (emptyBuffers metadata rows).length = metadata.numScanComponents :=
    fun rows => by rw [emptyBuffers, List.length_map, List.length_range]
  have hget : ∀ rows, ∀ index < metadata.numScanComponents, (emptyBuffers metadata rows)[index]? =
      some (List.replicate (blocksAt metadata index rows) Block.zero) := fun rows index hlt => by
    rw [emptyBuffers, List.getElem?_map, List.getElem?_range hlt, Option.map_some]
  refine ⟨rfl, rfl, Nat.zero_le _, hwritten, rfl, rfl, rfl, hlength _, hlength _, ?_⟩
  intro index hindex
  refine ⟨_, _, hget height index hindex, hget _ index hindex, ?_⟩
  intro scan component quant hpart
  have hcount : ∀ rows, (List.replicate (blocksAt metadata index rows) Block.zero).length =
      blocksIn metadata component rows := fun rows => by
    rw [List.length_replicate, hpart.blocksAt_eq]
  exact ⟨hcount _, hcount _, fun _ => ⟨hcount _, hcount _, fun hlt => absurd hlt (Nat.lt_irrefl 0)⟩⟩

variable (hscan : metadata.Scan) (hheight : 1 ≤ height ∧ height ≤ metadata.verticalMcus)
  (tables : LogTables) (contexts : Vector Nat 64) (maxFrames : Nat) (input : Input)
    (models : List Bin) (fixed : Bin)
  (frameCount : Nat)

include hscan hheight

theorem scanLoop_outcome (writer : ScanWriter) :
    ScanLoop.outcome <$> scanLoop tables contexts metadata height maxFrames metadata.verticalMcus
        (.start ⟨input, emptyBuffers metadata height, models, fixed⟩ writer frameCount) =
      ScanLoop.outcome <$> scanLoopWith (decodeInFrame tables contexts metadata)
        (writeFromFrame metadata) metadata height maxFrames metadata.verticalMcus
        (.start ⟨input, emptyBuffers metadata metadata.verticalMcus, models, fixed⟩ writer
          frameCount) := by
  refine (scanLoop_coupled tables contexts hscan hheight (R := fun _ w v _ => w = v) ?_
    (start_inStep rfl) (Nat.le_add_left _ _)).map_eq ?_
  · rintro start current w _ old left right last hcurrent hrest rfl hdone
    rw [writeFromFrame, ← sliceRows_eq hscan hdone,
      encodeSlice_rows hscan (Nat.le_trans (Nat.le_add_left _ _) hrest)]
    exact .refl (fun _ => rfl) _
  · rintro left right ⟨h, -⟩
    rw [ScanLoop.outcome, ScanLoop.outcome, h.written, h.slice.input, h.slice.models,
      h.slice.fixed, h.frameCount]

theorem scanLoop_blocks :
    ScanLoop.outcome <$> scanLoopWith (decodeSlice tables contexts metadata height)
        (collectSlice metadata) metadata height maxFrames metadata.verticalMcus
        (.start ⟨input, emptyBuffers metadata height, models, fixed⟩
          (List.replicate metadata.numScanComponents []) frameCount) =
      (fun state => (state.slice.blocks, state.outcome.2)) <$>
        scanLoopWith (decodeInFrame tables contexts metadata) (fun _ _ _ _ _ => return ())
          metadata height maxFrames metadata.verticalMcus
          (.start ⟨input, emptyBuffers metadata metadata.verticalMcus, models, fixed⟩ ()
            frameCount) := by
  refine (scanLoop_coupled tables contexts hscan hheight
    (R := fun start collected _ frame => collected = frameRows metadata 0 start frame) ?_
    (start_inStep ?_) (Nat.le_add_left _ _)).map_eq ?_
  · rintro start current collected _ old left right last hcurrent hrest rfl hdone
    exact .pure (frameRows_append hscan hdone)
  · simp only [frameRows, blocksAt_zero, List.take_zero, List.map_const', List.length_range]
  · rintro left right ⟨h, hfinished⟩
    have hwritten := h.written
    rw [hfinished] at hwritten
    rw [ScanLoop.outcome, ScanLoop.outcome, hwritten, frameRows_whole hscan h.slice.buffers,
      h.slice.input, h.slice.models, h.slice.fixed, h.frameCount]

end

/-! ## The slices of a scan -/

theorem slicesFrom_before {height vertical rounds first start currentHeight : Nat}
    (hslice : (start, currentHeight) ∈ slicesFrom height vertical rounds first) :
    first ≤ start ∧ start < vertical ∧ (start ≠ first →
      height ≤ start ∧ (start - height, height) ∈ slicesFrom height vertical rounds first) := by
  induction rounds generalizing first with
  | zero => cases hslice
  | succ rounds ih =>
    rw [slicesFrom] at hslice ⊢
    by_cases hlt : first < vertical
    · rw [if_pos hlt] at hslice ⊢
      obtain heq | htail := List.mem_cons.mp hslice
      · cases heq
        exact ⟨Nat.le_refl _, hlt, fun hne => absurd rfl hne⟩
      · obtain ⟨hle, hstart, hbefore⟩ := ih htail
        refine ⟨by omega, hstart, fun _ => ?_⟩
        by_cases hnext : start = first + min height (vertical - first)
        · have hheight : min height (vertical - first) = height := by omega
          rw [hheight] at hnext
          refine ⟨by omega, List.mem_cons.mpr (.inl ?_)⟩
          rw [hheight, hnext, Nat.add_sub_cancel]
        · obtain ⟨hheight, hmem⟩ := hbefore hnext
          exact ⟨hheight, List.mem_cons_of_mem _ hmem⟩
    · rw [if_neg hlt] at hslice
      cases hslice

theorem north_first {metadata : Metadata} (hscan : metadata.Scan) {height : Nat}
    (hheight : 1 ≤ height ∧ height ≤ metadata.verticalMcus) {scanIndex start : Nat}
    (hindex : scanIndex < metadata.numScanComponents) (hstart : 0 < start) {scan : ScanComponent}
    {component : Component} (hparts : scanParts metadata scanIndex = .ok (scan, component))
    {column : Nat} (hcolumn : column < metadata.horizontalMcus * component.horizontalFactor) :
    ∃ addresses address, sliceAddresses height start component
        (metadata.horizontalMcus * component.horizontalFactor) = .ok addresses ∧
      addresses 0 column = .ok address ∧ address.index = column ∧
      address.north = some ((height * component.verticalFactor - 1) *
        (metadata.horizontalMcus * component.horizontalFactor) + column) := by
  obtain ⟨scan', component', quant, hpart⟩ := hscan.partOf hindex
  cases hpart.parts.symm.trans hparts
  have hbeside : Beside metadata height 0 component
      (List.replicate (blocksIn metadata component height) Block.zero)
      (List.replicate (blocksIn metadata component metadata.verticalMcus) Block.zero) :=
    ⟨List.length_replicate, List.length_replicate, fun hlt => absurd hlt (Nat.lt_irrefl 0)⟩
  have hfits := rows_fits hscan hheight (Nat.le_refl height)
    (Nat.le_trans (Nat.le_of_eq (Nat.zero_add height)) hheight.2) hpart.fits hbeside
  have hrow := Nat.mul_pos hheight.1 hpart.fits.vertical_pos
  refine ⟨_, _, sliceAddresses_eq hscan.frame hpart.fits hheight start,
    sliceAddress_eq hfits hrow hcolumn, ?_, ?_⟩
  · exact (congrArg (· + column) (Nat.zero_mul _)).trans (Nat.zero_add column)
  · dsimp only
    rw [if_neg (Nat.lt_irrefl 0), if_pos hstart]
    rfl

/-- Whatever the header of a scan and the slice value: the height of a slice is there,
with no divisor of zero, its slices have every row of MCUs once, each above the next,
and what they decode and write is what a buffer of the whole frame has. -/
theorem slices_whole {metadata : Metadata} (hscanned : metadata.Scanned) {sliceValue : Nat}
    (hvalue : sliceValue < 32) :
    ∃ height, sliceHeight metadata sliceValue = .ok height ∧ 1 ≤ height ∧
      metadata.horizontalMcus ≠ 0 ∧
      (sliceValue ≠ 0 → ∃ first second, first ≠ 0 ∧ second ≠ 0 ∧
        first = firstDivisor (2 ^ (sliceValue + 6)) metadata.horizontalMcus ∧
        second = secondDivisor metadata.verticalMcus first ∧
        height = (metadata.verticalMcus + (second - 1)) / second) ∧
      (slicesFrom height metadata.verticalMcus metadata.verticalMcus 0).flatMap
          (fun slice => List.range' slice.1 slice.2) = List.range' 0 metadata.verticalMcus ∧
      (∀ start currentHeight,
        (start, currentHeight) ∈ slicesFrom height metadata.verticalMcus metadata.verticalMcus 0 →
        0 < start →
        height ≤ start ∧
        (start - height, height) ∈
          slicesFrom height metadata.verticalMcus metadata.verticalMcus 0 ∧
        ∀ scanIndex < metadata.numScanComponents, ∀ scan component,
          scanParts metadata scanIndex = .ok (scan, component) →
          ∀ column < metadata.horizontalMcus * component.horizontalFactor,
          ∃ addresses address, sliceAddresses height start component
              (metadata.horizontalMcus * component.horizontalFactor) = .ok addresses ∧
            addresses 0 column = .ok address ∧ address.index = column ∧
            address.north = some ((height * component.verticalFactor - 1) *
              (metadata.horizontalMcus * component.horizontalFactor) + column)) ∧
      ∀ tables contexts maxMemory maxFrames blocks,
        allocateBlocks metadata height modelBytes maxMemory = .ok blocks →
        ∀ input models fixed frameCount,
        (∀ writer,
          scanLoop tables contexts metadata height maxFrames metadata.verticalMcus
              (.start ⟨input, blocks, models, fixed⟩ writer frameCount) =
            (slicesFrom height metadata.verticalMcus metadata.verticalMcus 0).foldlM
              (sliceWith (decodeSlice tables contexts metadata height)
                (fun writer blocks _ currentHeight isLast =>
                  encodeSlice metadata writer blocks currentHeight isLast)
                metadata.verticalMcus maxFrames)
              (.start ⟨input, blocks, models, fixed⟩ writer frameCount) ∧
          ScanLoop.outcome <$> scanLoop tables contexts metadata height maxFrames
              metadata.verticalMcus (.start ⟨input, blocks, models, fixed⟩ writer frameCount) =
            ScanLoop.outcome <$> scanLoopWith (decodeInFrame tables contexts metadata)
              (writeFromFrame metadata) metadata height maxFrames metadata.verticalMcus
              (.start ⟨input, emptyBuffers metadata metadata.verticalMcus, models, fixed⟩ writer
                frameCount)) ∧
        ScanLoop.outcome <$> scanLoopWith (decodeSlice tables contexts metadata height)
            (collectSlice metadata) metadata height maxFrames metadata.verticalMcus
            (.start ⟨input, blocks, models, fixed⟩
              (List.replicate metadata.numScanComponents []) frameCount) =
          (fun state => (state.slice.blocks, state.outcome.2)) <$>
            scanLoopWith (decodeInFrame tables contexts metadata) (fun _ _ _ _ _ => return ())
              metadata height maxFrames metadata.verticalMcus
              (.start ⟨input, emptyBuffers metadata metadata.verticalMcus, models, fixed⟩ ()
                frameCount) := by
  have hscan := hscanned.valid.2
  have hsmall := hscan.frame.verticalMcus_lt
  obtain ⟨height, hheight, hpos, hle, hdivisors⟩ := hscan.frame.sliceHeight_eq hvalue
  refine ⟨height, hheight, hpos, Nat.pos_iff_ne_zero.mp hscan.frame.horizontalMcus_pos, hdivisors,
    ?_, fun start currentHeight hslice hstart => ?_, ?_⟩
  · exact slicesFrom_rows hpos (Nat.le_add_left _ _)
  · obtain ⟨-, -, hbefore⟩ := slicesFrom_before hslice
    obtain ⟨habove, hmem⟩ := hbefore (Nat.pos_iff_ne_zero.mp hstart)
    refine ⟨habove, hmem, fun scanIndex hindex scan component hparts column hcolumn => ?_⟩
    exact north_first hscan ⟨hpos, hle⟩ hindex hstart hparts hcolumn
  · intro tables contexts maxMemory maxFrames blocks hblocks input models fixed frameCount
    obtain rfl := allocateBlocks_ensures blocks hblocks
    refine ⟨fun writer => ⟨?_, ?_⟩, ?_⟩
    · exact scanLoopWith_eq _ _ hsmall
    · exact scanLoop_outcome hscan ⟨hpos, hle⟩ tables contexts maxFrames input models fixed
        frameCount writer
    · exact scanLoop_blocks hscan ⟨hpos, hle⟩ tables contexts maxFrames input models fixed
        frameCount

def wideHeader : List UInt8 :=
  [0xff, 0xd8, 0xff, 0xdb, 0, 67, 0] ++ List.replicate 64 1 ++
  [0xff, 0xc0, 0, 11, 8, 0, 24, 8, 0, 1, 1, 0x11, 0] ++
  [0xff, 0xc4, 0, 20, 0x00, 1] ++ List.replicate 16 0 ++
  [0xff, 0xc4, 0, 20, 0x10, 1] ++ List.replicate 16 0 ++
  [0xff, 0xda, 0, 8, 1, 1, 0x00, 0, 63, 0]

set_option maxRecDepth 100000 in
/-- A slice value of one has three slices of one row. -/
theorem slices_whole_wide :
    ∃ metadata, parseMetadata wideHeader Metadata.default = .ok (metadata, .scan) ∧
      sliceHeight metadata 1 = .ok 1 ∧
      ((slicesFrom 1 metadata.verticalMcus metadata.verticalMcus 0).flatMap
        fun slice => List.range' slice.1 slice.2) = [0, 1, 2] := by
  obtain ⟨metadata, hparse, hvertical, hheight⟩ : ∃ metadata,
      parseMetadata wideHeader Metadata.default = .ok (metadata, .scan) ∧
        metadata.verticalMcus = 3 ∧ sliceHeight metadata 1 = .ok 1 :=
    ⟨_, rfl, rfl, rfl⟩
  have hscanned : metadata.Scanned := ⟨_, _, .default, hparse⟩
  obtain ⟨height, hthis, -, -, -, htiles, -⟩ := slices_whole hscanned (by decide : 1 < 32)
  cases hheight.symm.trans hthis
  refine ⟨metadata, hparse, hheight, htiles.trans ?_⟩
  rw [hvertical]
  rfl

end Jpeg
end Unpackio
