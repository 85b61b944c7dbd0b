/-
The order in which the blocks of a scan are written.

Whatever the slices are, the writer goes through the units of the frame row by row.
-/
import Unpackio.Jpeg.WholeFrame
import Unpackio.Jpeg.WriterExact

namespace Unpackio
namespace Jpeg

open JpegLayout (Place Due)
open Prog (Ends lift_ok_bind foldlM_congr foldlM_flatMap)

def factorsOf (metadata : Metadata) (scanIndex : Nat) : Nat × Nat :=
  match scanParts metadata scanIndex with
  | .ok (_, component) => (component.horizontalFactor, component.verticalFactor)
  | .error _ => (0, 0)

def scanFactors (metadata : Metadata) : List (Nat × Nat) :=
  (List.range metadata.numScanComponents).map (factorsOf metadata)

/-- The units that are written, in their order. -/
def mcus (metadata : Metadata) : List (List Place) :=
  JpegLayout.interleaved metadata.horizontalMcus metadata.verticalMcus (scanFactors metadata)

def sliceMcus (metadata : Metadata) (start currentHeight : Nat) : List (List Place) :=
  (List.range currentHeight).flatMap fun row =>
    (List.range metadata.horizontalMcus).map (JpegLayout.unit (scanFactors metadata) (start + row))

section

variable (metadata : Metadata)

theorem zipIdx_scanFactors :
    (scanFactors metadata).zipIdx =
      (List.range metadata.numScanComponents).map fun scanIndex =>
        (factorsOf metadata scanIndex, scanIndex) := by
  refine List.ext_getElem ?_ fun index hleft hright => ?_
  · simp only [scanFactors, List.length_zipIdx, List.length_map, List.length_range]
  · simp only [scanFactors, List.getElem_zipIdx, List.getElem_map, List.getElem_range,
      Nat.zero_add]

theorem unit_scanFactors (row column : Nat) :
    JpegLayout.unit (scanFactors metadata) row column =
      (List.range metadata.numScanComponents).flatMap fun scanIndex =>
        JpegLayout.unitBlocks row column scanIndex (factorsOf metadata scanIndex).1
          (factorsOf metadata scanIndex).2 := by
  rw [JpegLayout.unit, zipIdx_scanFactors, List.flatMap_map]

theorem sliceMcus_add (start first second : Nat) :
    sliceMcus metadata start (first + second) =
      sliceMcus metadata start first ++ sliceMcus metadata (start + first) second := by
  rw [sliceMcus, List.range_add, List.flatMap_append, List.flatMap_map]
  refine congrArg _ (List.flatMap_congr fun row _ => ?_)
  rw [Nat.add_assoc]

theorem sliceMcus_whole : sliceMcus metadata 0 metadata.verticalMcus = mcus metadata := by
  rw [sliceMcus, mcus, JpegLayout.interleaved]
  exact List.flatMap_congr fun row _ => by rw [Nat.zero_add]

end

/-! ## The blocks of a unit -/

def writePlace (metadata : Metadata) (frame : Place → Block) (writer : ScanWriter) (place : Place) :
    Metered ScanWriter := do
  let (scan, _) ← scanParts metadata place.component
  let dcTable ← huffTable metadata 0 scan.dcTable "WinZip JPEG DC Huffman table is missing"
  let acTable ← huffTable metadata 1 scan.acTable "WinZip JPEG AC Huffman table is missing"
  encodeBlock dcTable acTable place.component (frame place) writer

def writeMcu (metadata : Metadata) (frame : Place → Block) (writer : ScanWriter)
    (unit : List Place) : Metered ScanWriter := do
  let writer ← encodeRestart metadata writer
  let writer ← unit.foldlM (writePlace metadata frame) writer
  let counter ← okOr (checkedAdd writer.mcuCounter 1)
    (formatError "WinZip JPEG MCU counter overflows")
  return { writer with mcuCounter := counter }

def HoldsRows (metadata : Metadata) (frame : Place → Block) (start currentHeight : Nat)
    (buffers : List (List Block)) : Prop :=
  ∀ scanIndex < metadata.numScanComponents,
    ∀ row < currentHeight * (factorsOf metadata scanIndex).2,
    ∀ column < metadata.horizontalMcus * (factorsOf metadata scanIndex).1,
      (buffers[scanIndex]?.bind fun items =>
        items[row * (metadata.horizontalMcus * (factorsOf metadata scanIndex).1) + column]?) =
          some (frame ⟨scanIndex, start * (factorsOf metadata scanIndex).2 + row, column⟩)

/-- The tables of codes that a component of a scan names. -/
structure TablesOf (metadata : Metadata) (scan : ScanComponent) (dcTable acTable : HuffTable) :
    Prop where
  dc : huffTable metadata 0 scan.dcTable "WinZip JPEG DC Huffman table is missing" = .ok dcTable
  ac : huffTable metadata 1 scan.acTable "WinZip JPEG AC Huffman table is missing" = .ok acTable

theorem huffTable_of_present {metadata : Metadata} {classIndex index : Nat} {detail : String}
    (hclass : classIndex < 2)
    (h : (metadata.huffPresent[classIndex]?.bind fun tables => tables[index]?) = some true) :
    ∃ table, huffTable metadata classIndex index detail = .ok table := by
  obtain ⟨present, -, hindex⟩ := Option.bind_eq_some_iff.mp h
  obtain ⟨hindex, -⟩ := Vector.getElem?_eq_some_iff.mp hindex
  refine ⟨(metadata.huffCodes[classIndex])[index], ?_⟩
  rw [huffTable, Vector.getElem?_eq_getElem hclass, Option.bind_some,
    Vector.getElem?_eq_getElem hindex]
  rfl

variable {scanIndex : Nat} {slices : List (List (List Block) × Nat)}

theorem Metadata.Scan.tablesOf {metadata : Metadata} (h : metadata.Scan)
    (hindex : scanIndex < metadata.numScanComponents) {scan : ScanComponent} {component : Component}
    (hparts : scanParts metadata scanIndex = .ok (scan, component)) :
    ∃ dcTable acTable, TablesOf metadata scan dcTable acTable := by
  obtain ⟨_, hget, hrest⟩ := Except.bind_eq_ok.mp hparts
  obtain ⟨_, -, hpure⟩ := Except.bind_eq_ok.mp hrest
  cases hpure
  have hselects := h.selects scan (mem_take hindex (okOr_eq_ok.mp hget))
  obtain ⟨dcTable, hdc⟩ := huffTable_of_present (by decide) hselects.dcTable
  obtain ⟨acTable, hac⟩ := huffTable_of_present (by decide) hselects.acTable
  exact ⟨dcTable, acTable, hdc, hac⟩

section

variable {metadata : Metadata} (hscan : metadata.Scan) {frame : Place → Block}
  {start currentHeight : Nat} (hheight : currentHeight ≤ metadata.verticalMcus)
  {buffers : List (List Block)} (hrows : HoldsRows metadata frame start currentHeight buffers)

include hscan hheight hrows

section

variable {mcuRow mcuColumn : Nat} (hrow : mcuRow < currentHeight)
  (hcolumn : mcuColumn < metadata.horizontalMcus)
include hrow hcolumn

theorem encodeMcuComponent_eq (hindex : scanIndex < metadata.numScanComponents)
    (writer : ScanWriter) :
    encodeMcuComponent metadata buffers mcuRow mcuColumn writer scanIndex =
      (JpegLayout.unitBlocks (start + mcuRow) mcuColumn scanIndex (factorsOf metadata scanIndex).1
        (factorsOf metadata scanIndex).2).foldlM (writePlace metadata frame) writer := by
  obtain ⟨scan, component, quant, hpart⟩ := hscan.partOf hindex
  obtain ⟨dcTable, acTable, htables⟩ := hscan.tablesOf hindex hpart.parts
  have hfactors : factorsOf metadata scanIndex =
      (component.horizontalFactor, component.verticalFactor) := by
    rw [factorsOf, hpart.parts]
  have hthis := hrows scanIndex hindex
  rw [hfactors] at hthis ⊢
  have hsmall := blocksIn_lt hscan.frame hpart.fits hheight
  obtain ⟨hwidth, hbound⟩ := rowBlocks_bounds hscan.frame hpart.fits
  simp only [encodeMcuComponent, hpart.parts, htables.dc, htables.ac, checkedMul_of_lt hbound,
    okOr_some, lift_ok_bind]
  rw [JpegLayout.unitBlocks, foldlM_flatMap]
  refine foldlM_congr (fun blockY hy writer => ?_) writer
  rw [List.foldlM_map]
  refine foldlM_congr (fun blockX hx writer => ?_) writer
  have hlt := @mcuBlock_lt metadata component _ _ _ _ _ hrow hcolumn (List.mem_range.mp hy)
    (List.mem_range.mp hx)
  have hplace := hthis _ (Interleave.group_lt hrow (List.mem_range.mp hy)) _
    (Interleave.group_lt hcolumn (List.mem_range.mp hx))
  rw [mcuBlockIndex_eq (by omega) hwidth, lift_ok_bind, hplace]
  simp only [writePlace, hpart.parts, htables.dc, htables.ac, okOr_some, lift_ok_bind,
    Nat.add_mul, Nat.add_assoc]

theorem encodeMcu_eq (writer : ScanWriter) :
    encodeMcu metadata buffers mcuRow writer mcuColumn =
      writeMcu metadata frame writer
        (JpegLayout.unit (scanFactors metadata) (start + mcuRow) mcuColumn) := by
  rw [encodeMcu, writeMcu, unit_scanFactors]
  refine bind_congr fun writer => congrArg (· >>= _) ?_
  rw [foldlM_flatMap]
  refine foldlM_congr (fun scanIndex hindex writer => ?_) writer
  exact encodeMcuComponent_eq hscan hheight hrows hrow hcolumn (List.mem_range.mp hindex) writer

end

theorem encodeSlice_eq (writer : ScanWriter) (isLast : Bool) :
    encodeSlice metadata writer buffers currentHeight isLast = (do
      let writer ← (sliceMcus metadata start currentHeight).foldlM (writeMcu metadata frame) writer
      if isLast then writer.padWithOnes else return writer) := by
  rw [encodeSlice, sliceMcus, foldlM_flatMap]
  refine congrArg (· >>= _) (foldlM_congr (fun mcuRow hrow writer => ?_) writer)
  rw [List.foldlM_map]
  refine foldlM_congr (fun mcuColumn hcolumn writer => ?_) writer
  exact encodeMcu_eq hscan hheight hrows (List.mem_range.mp hrow) (List.mem_range.mp hcolumn) writer

end

def writeSlices (metadata : Metadata) : Nat → List (List (List Block) × Nat) → ScanWriter →
    Metered ScanWriter
  | _, [], writer => return writer
  | start, (buffers, currentHeight) :: slices, writer => do
    let writer ← encodeSlice metadata writer buffers currentHeight
      (start + currentHeight = metadata.verticalMcus)
    writeSlices metadata (start + currentHeight) slices writer

def Divides (metadata : Metadata) (frame : Place → Block) :
    Nat → List (List (List Block) × Nat) → Prop
  | start, [] => start = metadata.verticalMcus
  | start, (buffers, currentHeight) :: slices =>
    1 ≤ currentHeight ∧ HoldsRows metadata frame start currentHeight buffers ∧
      Divides metadata frame (start + currentHeight) slices

theorem Divides.le {metadata : Metadata} {frame : Place → Block} {start : Nat}
    (h : Divides metadata frame start slices) : start ≤ metadata.verticalMcus := by
  induction slices generalizing start with
  | nil => exact Nat.le_of_eq h
  | cons slice slices ih => exact Nat.le_trans (Nat.le_add_right _ _) (ih h.2.2)

theorem writeSlices_eq {metadata : Metadata} (hscan : metadata.Scan) {frame : Place → Block}
    {start : Nat} (h : Divides metadata frame start slices) (hstart : start < metadata.verticalMcus)
    (writer : ScanWriter) :
    writeSlices metadata start slices writer = (do
      let writer ← (sliceMcus metadata start (metadata.verticalMcus - start)).foldlM
        (writeMcu metadata frame) writer
      writer.padWithOnes) := by
  induction slices generalizing start writer with
  | nil => exact absurd h (Nat.ne_of_lt hstart)
  | cons slice slices ih =>
    obtain ⟨hpos, hrows, hrest⟩ := h
    have hle := hrest.le
    rw [writeSlices, encodeSlice_eq hscan (by omega) hrows, bind_assoc]
    by_cases hlast : start + slice.2 = metadata.verticalMcus
    · have hnil : slices = [] := by
        cases slices with
        | nil => rfl
        | cons next slices =>
          have hmore := hrest.2.2.le
          have hone := hrest.1
          omega
      subst hnil
      have hheight : metadata.verticalMcus - start = slice.2 := by omega
      rw [hheight]
      refine bind_congr fun writer => ?_
      rw [decide_eq_true hlast, if_pos rfl]
      exact bind_pure _
    · have hheight : metadata.verticalMcus - start =
          slice.2 + (metadata.verticalMcus - (start + slice.2)) := by omega
      rw [hheight, sliceMcus_add, List.foldlM_append, bind_assoc]
      refine bind_congr fun writer => ?_
      rw [decide_eq_false hlast, if_neg Bool.false_ne_true, pure_bind]
      exact ih hrest (by omega) writer

/-! ## Restarts -/

def countBefore (interval : Nat) : Nat → Nat
  | 0 => 0
  | number + 1 => if interval = 0 then number + 1 else number % interval + 1

def restartIfDue (interval number : Nat) (writer : ScanWriter) : Metered ScanWriter :=
  if Due interval number then writer.restart else return writer

def writeUnit (metadata : Metadata) (frame : Place → Block) (writer : ScanWriter)
    (entry : List Place × Nat) : Metered ScanWriter := do
  let writer ← restartIfDue metadata.restartInterval entry.2 writer
  let writer ← entry.1.foldlM (writePlace metadata frame) writer
  return { writer with mcuCounter := countBefore metadata.restartInterval (entry.2 + 1) }

theorem countBefore_le (interval number : Nat) : countBefore interval number ≤ number := by
  cases number with
  | zero => exact Nat.le_refl _
  | succ number =>
    rw [countBefore]
    split
    · exact Nat.le_refl _
    · exact Nat.succ_le_succ (Nat.mod_le _ _)

theorem succ_mod {interval : Nat} (hinterval : interval ≠ 0) (number : Nat) :
    (number + 1) % interval =
      if number % interval + 1 = interval then 0 else number % interval + 1 := by
  have hlt := Nat.mod_lt number (Nat.pos_of_ne_zero hinterval)
  rw [← Nat.mod_add_mod]
  split
  · rename_i heq
    rw [heq, Nat.mod_self]
  · exact Nat.mod_eq_of_lt (by omega)

theorem due_iff (interval number : Nat) :
    Due interval number ↔ interval ≠ 0 ∧ countBefore interval number = interval := by
  cases number with
  | zero => exact ⟨fun h => absurd rfl h.2.1, fun h => absurd h.2.symm h.1⟩
  | succ number =>
    refine and_congr_right fun hinterval => ?_
    rw [succ_mod hinterval, countBefore, if_neg hinterval]
    constructor
    · rintro ⟨-, hmod⟩
      by_contra hne
      rw [if_neg hne] at hmod
      exact absurd hmod (Nat.succ_ne_zero _)
    · intro heq
      exact ⟨Nat.succ_ne_zero _, if_pos heq⟩

theorem countBefore_succ (interval number : Nat) :
    countBefore interval (number + 1) =
      (if Due interval number then 0 else countBefore interval number) + 1 := by
  rw [countBefore]
  by_cases hinterval : interval = 0
  · rw [if_pos hinterval, if_neg fun hdue => hdue.1 hinterval]
    cases number with
    | zero => rfl
    | succ number => rw [countBefore, if_pos hinterval]
  rw [if_neg hinterval]
  by_cases hdue : Due interval number
  · rw [if_pos hdue, hdue.2.2]
  rw [if_neg hdue]
  cases number with
  | zero => rw [Nat.zero_mod, countBefore]
  | succ number =>
    have hcount : ¬countBefore interval (number + 1) = interval := fun heq =>
      hdue ((due_iff _ _).mpr ⟨hinterval, heq⟩)
    rw [countBefore, if_neg hinterval] at hcount ⊢
    rw [succ_mod hinterval, if_neg hcount]

theorem foldlM_writePlace_counter (metadata : Metadata) (frame : Place → Block)
    (places : List Place) (writer : ScanWriter) :
    Ends (fun _ => True) (fun next => next.mcuCounter = writer.mcuCounter)
      (places.foldlM (writePlace metadata frame) writer) := by
  induction places generalizing writer with
  | nil => exact .pure rfl
  | cons place places ih =>
    rw [List.foldlM_cons]
    have hplace : Ends (fun _ => True) (fun next => next.mcuCounter = writer.mcuCounter)
        (writePlace metadata frame writer place) :=
      .skip fun _ => .skip fun _ => .skip fun _ => encodeBlock_counter writer _ _ _ _
    exact .bind hplace fun next hnext => (ih next).mono fun _ h => h.trans hnext

theorem writeMcu_eq {metadata : Metadata} {frame : Place → Block} {writer : ScanWriter}
    {number : Nat} (hnumber : number + 1 < 2 ^ 64)
    (hcount : writer.mcuCounter = countBefore metadata.restartInterval number) (unit : List Place) :
    writeMcu metadata frame writer unit = writeUnit metadata frame writer (unit, number) := by
  have hrestart : encodeRestart metadata writer =
      restartIfDue metadata.restartInterval number writer := by
    rw [encodeRestart, hcount]
    exact if_congr (due_iff _ _).symm rfl rfl
  have hcounted : Ends (fun _ => True)
      (fun next => next.mcuCounter = if Due metadata.restartInterval number then 0 else
        countBefore metadata.restartInterval number)
      (restartIfDue metadata.restartInterval number writer) := by
    rw [restartIfDue]
    by_cases hdue : Due metadata.restartInterval number
    · rw [if_pos hdue, if_pos hdue]
      exact writer.restart_counter
    · rw [if_neg hdue, if_neg hdue]
      exact .pure hcount
  rw [writeMcu, writeUnit, hrestart]
  refine hcounted.bind_congr fun next hnext => ?_
  refine (foldlM_writePlace_counter metadata frame unit next).bind_congr fun last hlast => ?_
  have hsucc := countBefore_succ metadata.restartInterval number
  have hle := countBefore_le metadata.restartInterval (number + 1)
  rw [hlast, hnext, checkedAdd_of_lt (by omega), hsucc]
  rfl

theorem writeUnit_counter (metadata : Metadata) (frame : Place → Block) (writer : ScanWriter)
    (entry : List Place × Nat) :
    Ends (fun _ => True)
      (fun next => next.mcuCounter = countBefore metadata.restartInterval (entry.2 + 1))
      (writeUnit metadata frame writer entry) := by
  have hrestart : Ends (fun _ => True) (fun _ => True)
      (restartIfDue metadata.restartInterval entry.2 writer) :=
    .ite (fun _ => writer.restart_counter.mono fun _ _ => trivial) fun _ => .pure trivial
  refine .bind hrestart fun next _ => ?_
  exact .bind (foldlM_writePlace_counter metadata frame entry.1 next) fun last _ => .pure rfl

theorem foldlM_writeMcu {metadata : Metadata} {frame : Place → Block} {units : List (List Place)}
    {writer : ScanWriter} {number : Nat} (hnumber : number + units.length < 2 ^ 64)
    (hcount : writer.mcuCounter = countBefore metadata.restartInterval number) :
    units.foldlM (writeMcu metadata frame) writer =
      (units.zipIdx number).foldlM (writeUnit metadata frame) writer := by
  induction units generalizing writer number with
  | nil => rfl
  | cons unit units ih =>
    rw [List.length_cons] at hnumber
    rw [List.zipIdx_cons, List.foldlM_cons, List.foldlM_cons, writeMcu_eq (by omega) hcount]
    exact (writeUnit_counter metadata frame writer (unit, number)).bind_congr fun next hnext =>
      ih (by omega) hnext

theorem writeSlices_units {metadata : Metadata} (hscan : metadata.Scan) {frame : Place → Block}
    (h : Divides metadata frame 0 slices) {writer : ScanWriter} (hwriter : writer.mcuCounter = 0) :
    writeSlices metadata 0 slices writer = (do
      let writer ← (mcus metadata).zipIdx.foldlM (writeUnit metadata frame) writer
      writer.padWithOnes) := by
  have hvertical := hscan.frame.verticalMcus_lt
  have hmany : (mcus metadata).length ≤ 2 ^ 16 * 2 ^ 16 := by
    rw [mcus, JpegLayout.length_interleaved]
    exact Nat.mul_le_mul (Nat.le_of_lt hscan.frame.horizontalMcus_lt) (Nat.le_of_lt hvertical)
  have hnumber : 0 + (mcus metadata).length < 2 ^ 64 := by omega
  rw [writeSlices_eq hscan h hscan.frame.verticalMcus_pos, Nat.sub_zero, sliceMcus_whole,
    foldlM_writeMcu hnumber hwriter]

/-! ## The standard -/

open JpegLayout (ceilDiv)

def standardUnits (metadata : Metadata) : List (List Place) :=
  JpegLayout.units metadata.width metadata.height metadata.maxHorizontal metadata.maxVertical
    (scanFactors metadata)

/-- The block columns and rows of a component that is scanned alone. -/
def standardSize (metadata : Metadata) (scanIndex : Nat) : Nat × Nat :=
  (ceilDiv (ceilDiv (metadata.width * (factorsOf metadata scanIndex).1) metadata.maxHorizontal) 8,
    ceilDiv (ceilDiv (metadata.height * (factorsOf metadata scanIndex).2) metadata.maxVertical) 8)

def standardBlocks (metadata : Metadata) (scanIndex : Nat) : Nat :=
  if metadata.numScanComponents = 1 then
    (standardSize metadata scanIndex).1 * (standardSize metadata scanIndex).2
  else
    ceilDiv metadata.width (8 * metadata.maxHorizontal) *
        ceilDiv metadata.height (8 * metadata.maxVertical) *
      ((factorsOf metadata scanIndex).1 * (factorsOf metadata scanIndex).2)

/-- The blocks of each component, and all blocks and restarts in their order, are those
of the standard. -/
def FollowsStandard (metadata : Metadata) : Prop :=
  (∀ scanIndex < metadata.numScanComponents,
    blocksAt metadata scanIndex metadata.verticalMcus = standardBlocks metadata scanIndex) ∧
  JpegLayout.events metadata.restartInterval (mcus metadata) =
    JpegLayout.events metadata.restartInterval (standardUnits metadata)

def FillsUnits (metadata : Metadata) : Prop :=
  metadata.numScanComponents ≠ 1 ∨
    (standardSize metadata 0).1 =
        ceilDiv metadata.width (8 * metadata.maxHorizontal) * (factorsOf metadata 0).1 ∧
      (standardSize metadata 0).2 =
        ceilDiv metadata.height (8 * metadata.maxVertical) * (factorsOf metadata 0).2 ∧
      ((factorsOf metadata 0).2 = 1 ∨ metadata.width ≤ 8 * metadata.maxHorizontal) ∧
      (metadata.restartInterval = 0 ∨
        (factorsOf metadata 0).1 * (factorsOf metadata 0).2 = 1 ∨
        (standardSize metadata 0).1 * (standardSize metadata 0).2 ≤ metadata.restartInterval)

section

variable {metadata : Metadata}

theorem Metadata.Frame.horizontalMcus_eq (h : metadata.Frame) :
    metadata.horizontalMcus = ceilDiv metadata.width (8 * metadata.maxHorizontal) := by
  have hpos := h.maxHorizontal_pos
  rw [h.horizontal, unitsOver, ceilDiv, Nat.add_sub_assoc (by omega)]

theorem Metadata.Frame.verticalMcus_eq (h : metadata.Frame) :
    metadata.verticalMcus = ceilDiv metadata.height (8 * metadata.maxVertical) := by
  have hpos := h.maxVertical_pos
  rw [h.vertical, unitsOver, ceilDiv, Nat.add_sub_assoc (by omega)]

theorem ceilDiv_eq_one {size unit : Nat} (hsize : 1 ≤ size) :
    ceilDiv size unit = 1 ↔ size ≤ unit := by
  rw [ceilDiv]
  constructor
  · intro h
    have hunit : 0 < unit := Nat.pos_of_ne_zero fun hzero => by
      rw [hzero, Nat.div_zero] at h
      cases h
    have hlt := Nat.lt_mul_of_div_lt (by omega : (size + unit - 1) / unit < 2) hunit
    omega
  · intro h
    exact Nat.div_eq_of_lt_le (by omega) (by omega)

variable (hscan : metadata.Scan)

include hscan

theorem blocksAt_eq_factors (hindex : scanIndex < metadata.numScanComponents) (rows : Nat) :
    blocksAt metadata scanIndex rows =
      rows * (factorsOf metadata scanIndex).2 *
        (metadata.horizontalMcus * (factorsOf metadata scanIndex).1) := by
  obtain ⟨scan, component, quant, hpart⟩ := hscan.partOf hindex
  rw [hpart.blocksAt_eq, blocksIn, factorsOf, hpart.parts]

theorem factorsOf_pos (hindex : scanIndex < metadata.numScanComponents) :
    1 ≤ (factorsOf metadata scanIndex).1 ∧ 1 ≤ (factorsOf metadata scanIndex).2 := by
  obtain ⟨scan, component, quant, hpart⟩ := hscan.partOf hindex
  rw [factorsOf, hpart.parts]
  exact ⟨hpart.fits.horizontal_pos, hpart.fits.vertical_pos⟩

theorem mcus_eq_of_ne (hcount : metadata.numScanComponents ≠ 1) :
    mcus metadata = standardUnits metadata := by
  have hlength : (scanFactors metadata).length ≠ 1 := by
    rw [scanFactors, List.length_map, List.length_range]
    exact hcount
  rw [standardUnits, JpegLayout.units_of_length_ne hlength, mcus, hscan.frame.horizontalMcus_eq,
    hscan.frame.verticalMcus_eq]

theorem followsStandard_of_ne (hcount : metadata.numScanComponents ≠ 1) :
    FollowsStandard metadata := by
  refine ⟨fun scanIndex hindex => ?_, congrArg _ (mcus_eq_of_ne hscan hcount)⟩
  rw [blocksAt_eq_factors hscan hindex, standardBlocks, if_neg hcount,
    ← hscan.frame.horizontalMcus_eq, ← hscan.frame.verticalMcus_eq]
  ac_rfl

theorem followsStandard_single (hcount : metadata.numScanComponents = 1) :
    FollowsStandard metadata ↔
      (standardSize metadata 0).1 = metadata.horizontalMcus * (factorsOf metadata 0).1 ∧
        (standardSize metadata 0).2 = metadata.verticalMcus * (factorsOf metadata 0).2 ∧
        ((factorsOf metadata 0).2 = 1 ∨ metadata.horizontalMcus = 1) ∧
        (metadata.restartInterval = 0 ∨
          (factorsOf metadata 0).1 * (factorsOf metadata 0).2 = 1 ∨
          (standardSize metadata 0).1 * (standardSize metadata 0).2 ≤
            metadata.restartInterval) := by
  have hindex : 0 < metadata.numScanComponents := hscan.count_pos
  obtain ⟨hhorizontal, hvertical⟩ := factorsOf_pos hscan hindex
  have hfactors : scanFactors metadata =
      [((factorsOf metadata 0).1, (factorsOf metadata 0).2)] := by
    rw [scanFactors, hcount]
    rfl
  have hevents := JpegLayout.events_eq_iff metadata.restartInterval (standardSize metadata 0).1
    (standardSize metadata 0).2 hscan.frame.horizontalMcus_pos hscan.frame.verticalMcus_pos
      hhorizontal hvertical
  rw [FollowsStandard, standardUnits, mcus, hfactors]
  change _ ∧ JpegLayout.events _ _ = JpegLayout.events _
    (JpegLayout.raster (standardSize metadata 0).1 (standardSize metadata 0).2) ↔ _
  rw [hevents]
  refine and_iff_right_of_imp ?_
  rintro ⟨hcolumns, hrows, -⟩ scanIndex hlt
  obtain rfl : scanIndex = 0 := by omega
  rw [blocksAt_eq_factors hscan hindex, standardBlocks, if_pos hcount, hcolumns, hrows]
  exact Nat.mul_comm _ _

theorem followsStandard_iff : FollowsStandard metadata ↔ FillsUnits metadata := by
  by_cases hcount : metadata.numScanComponents = 1
  · have hone : metadata.horizontalMcus = 1 ↔ metadata.width ≤ 8 * metadata.maxHorizontal := by
      rw [hscan.frame.horizontalMcus_eq, ceilDiv_eq_one hscan.frame.width_pos]
    rw [followsStandard_single hscan hcount, FillsUnits, hone, ← hscan.frame.horizontalMcus_eq,
      ← hscan.frame.verticalMcus_eq]
    exact ⟨.inr, fun h => h.resolve_left (absurd hcount)⟩
  · exact ⟨fun _ => .inl hcount, fun _ => followsStandard_of_ne hscan hcount⟩

end

/-- A component of a slice is decoded row by row, as many as its factor has for the rows
of the slice, and a slice is written unit by unit; both are those of the standard just
for the scans that fill their units. -/
theorem layout_iff {metadata : Metadata} (h : metadata.Scanned) :
    (∀ height, 1 ≤ height → height ≤ metadata.verticalMcus → ∀ tables contexts finishedRows,
      ∀ currentHeight ≤ height, ∀ scanIndex < metadata.numScanComponents, ∀ state buffer,
      state.blocks[scanIndex]? = some buffer →
      ∃ quant, decodeComponentWith tables contexts metadata currentHeight
          (sliceAddresses height finishedRows) state scanIndex = (do
        let decoder ← ArithmeticDecoder.new tables state.input
        let (buffer, coder) ← (List.range
            (currentHeight * (factorsOf metadata scanIndex).2)).foldlM
          (decodeRow tables contexts scanIndex quant
            (sliceAddress (metadata.horizontalMcus * (factorsOf metadata scanIndex).1)
              (height * (factorsOf metadata scanIndex).2 - 1) finishedRows)
            (metadata.horizontalMcus * (factorsOf metadata scanIndex).1))
          (buffer, { decoder := decoder, models := state.models, fixed := state.fixed })
        let decoder ← coder.decoder.flush tables
        return { input := decoder.input, blocks := state.blocks.set scanIndex buffer,
                 models := coder.models, fixed := coder.fixed })) ∧
    (∀ frame slices, Divides metadata frame 0 slices → ∀ writer, writer.mcuCounter = 0 →
      writeSlices metadata 0 slices writer = (do
        let writer ← (mcus metadata).zipIdx.foldlM (writeUnit metadata frame) writer
        writer.padWithOnes)) ∧
    (FollowsStandard metadata ↔ FillsUnits metadata) := by
  have hscan := h.valid.2
  refine ⟨fun height hpos hle tables contexts finishedRows currentHeight hcurrent scanIndex hindex
    state buffer hbuffer => ?_, fun frame slices hslices writer hwriter => ?_, ?_⟩
  · obtain ⟨scan, component, quant, hpart⟩ := hscan.partOf hindex
    have hwidth := hscan.frame.horizontalMcus_lt
    have hvertical := hscan.frame.verticalMcus_lt
    have hcolumns : metadata.horizontalMcus * component.horizontalFactor < 2 ^ 64 :=
      Nat.lt_of_le_of_lt (Nat.mul_le_mul (Nat.le_of_lt hwidth) hpart.fits.horizontal_le) (by decide)
    have hrows : currentHeight * component.verticalFactor < 2 ^ 64 :=
      Nat.lt_of_le_of_lt (Nat.mul_le_mul (by omega : currentHeight ≤ 2 ^ 16)
        hpart.fits.vertical_le) (by decide)
    have hfactors : factorsOf metadata scanIndex =
        (component.horizontalFactor, component.verticalFactor) := by
      rw [factorsOf, hpart.parts]
    rw [hfactors]
    exact ⟨quant, decodeComponentWith_eq tables contexts hpart hcolumns hrows
      (sliceAddresses_eq hscan.frame hpart.fits ⟨hpos, hle⟩ finishedRows) hbuffer⟩
  · exact writeSlices_units hscan hslices hwriter
  · exact followsStandard_iff hscan

/-- A header of 8 times 8 samples of two components, the first of them with twice as
many columns, and a scan of the first. -/
def pairHeader : List UInt8 :=
  [0xff, 0xd8, 0xff, 0xdb, 0, 67, 0] ++ List.replicate 64 1 ++
  [0xff, 0xc0, 0, 14, 8, 0, 8, 0, 8, 2, 1, 0x21, 0, 2, 0x11, 0] ++
  [0xff, 0xc4, 0, 20, 0x00, 1] ++ List.replicate 16 0 ++
  [0xff, 0xc4, 0, 20, 0x10, 1] ++ List.replicate 16 0 ++
  [0xff, 0xda, 0, 8, 1, 1, 0x00, 0, 63, 0]

set_option maxRecDepth 100000 in
/-- The scan has one block, and two are written. -/
theorem pair_not_followsStandard :
    ∃ metadata, parseMetadata pairHeader Metadata.default = .ok (metadata, .scan) ∧
      blocksAt metadata 0 metadata.verticalMcus = 2 ∧ standardBlocks metadata 0 = 1 ∧
      ¬FollowsStandard metadata := by
  obtain ⟨metadata, hparse, hcount, hwritten, hstandard⟩ : ∃ metadata,
      parseMetadata pairHeader Metadata.default = .ok (metadata, .scan) ∧
        metadata.numScanComponents = 1 ∧ blocksAt metadata 0 metadata.verticalMcus = 2 ∧
        standardBlocks metadata 0 = 1 :=
    ⟨_, rfl, rfl, rfl, rfl⟩
  refine ⟨metadata, hparse, hwritten, hstandard, fun h => ?_⟩
  have hequal := h.1 0 (by omega)
  omega

set_option maxRecDepth 100000 in
/-- A scan of one component with 256 times 3 blocks. -/
theorem layout_iff_wide :
    ∃ metadata, parseMetadata wideHeader Metadata.default = .ok (metadata, .scan) ∧
      FillsUnits metadata ∧ FollowsStandard metadata := by
  obtain ⟨metadata, hparse, hfills⟩ : ∃ metadata,
      parseMetadata wideHeader Metadata.default = .ok (metadata, .scan) ∧ FillsUnits metadata :=
    ⟨_, rfl, .inr ⟨rfl, rfl, .inl rfl, .inl rfl⟩⟩
  exact ⟨metadata, hparse, hfills, (layout_iff ⟨_, _, .default, hparse⟩).2.2.mpr hfills⟩

end Jpeg
end Unpackio
