/-
What the writer of JPEG scans makes is read back by the decoder of the standard.
-/
import Unpackio.Jpeg.HuffmanTables
import Unpackio.Jpeg.Layout

namespace Unpackio
namespace Jpeg

open JpegLayout (Place Due)
open JpegEntropy (Tables blockBits encodeScan entropyBytes placesBits predict restartNumber
  scanFrom)
open Prog (Ends FailsWith CanReturn)

/-- The symbol that has a code. -/
def HuffTable.lookup (table : HuffTable) (bits : List Bool) : Option Nat :=
  (List.range 256).find? fun symbol => decide (table.codeOf symbol = some bits)

theorem HuffTable.codeOf_of_lookup {table : HuffTable} {bits : List Bool} {symbol : Nat}
    (h : table.lookup bits = some symbol) : table.codeOf symbol = some bits := by
  rw [HuffTable.lookup] at h
  exact of_decide_eq_true
    (List.find?_some (p := fun symbol => decide (table.codeOf symbol = some bits)) h)

theorem HuffTable.Good.decodes {table : HuffTable} (h : table.Good) :
    JpegEntropy.Decodes table.lookup table.codeOf := by
  refine ⟨fun bits symbol => ⟨fun hlookup => ?_, fun hcode => ?_⟩, fun symbol bits hcode => ?_,
    fun symbol bits hcode => ?_, h.prefixFree⟩
  · exact codeOf_of_lookup hlookup
  · obtain ⟨code, hget, -, -⟩ := codeOf_eq_some.mp hcode
    obtain ⟨hlt, -⟩ := Vector.getElem?_eq_some_iff.mp hget
    cases hlookup : table.lookup bits with
    | none =>
      have hnone := List.find?_eq_none.mp hlookup symbol (List.mem_range.mpr hlt)
      exact absurd (decide_eq_true hcode) hnone
    | some other =>
      rw [h.prefixFree _ _ _ _ (codeOf_of_lookup hlookup) hcode (List.prefix_refl bits)]
  · obtain ⟨code, -, hzero, rfl⟩ := codeOf_eq_some.mp hcode
    rw [List.length_reverse, BitPack.length_bitsOf]
    exact Nat.pos_of_ne_zero hzero
  · obtain ⟨code, hget, -, rfl⟩ := codeOf_eq_some.mp hcode
    rw [List.length_reverse, BitPack.length_bitsOf]
    exact h.short symbol code hget

def tablesAt (metadata : Metadata) (scanIndex : Nat) : HuffTable × HuffTable :=
  match scanParts metadata scanIndex with
  | .error _ => (HuffTable.empty, HuffTable.empty)
  | .ok (scan, _) =>
    match huffTable metadata 0 scan.dcTable "WinZip JPEG DC Huffman table is missing",
      huffTable metadata 1 scan.acTable "WinZip JPEG AC Huffman table is missing" with
    | .ok dcTable, .ok acTable => (dcTable, acTable)
    | _, _ => (HuffTable.empty, HuffTable.empty)

def scanTables (metadata : Metadata) (scanIndex : Nat) : Tables where
  dc := (tablesAt metadata scanIndex).1.lookup
  ac := (tablesAt metadata scanIndex).2.lookup

def scanCodes (metadata : Metadata) (scanIndex : Nat) : JpegEntropy.Codes where
  dc := (tablesAt metadata scanIndex).1.codeOf
  ac := (tablesAt metadata scanIndex).2.codeOf

def frameValues (frame : Place → Block) (place : Place) : Vector Int 64 × Nat :=
  ((frame place).values, (frame place).eob)

theorem huffTable_good {metadata : Metadata} (h : metadata.Coded) {classIndex index : Nat}
    {detail : String} {table : HuffTable} (htable : huffTable metadata classIndex index detail =
      .ok table) :
    table.Good := by
  obtain ⟨tables, htables, hindex⟩ := Option.bind_eq_some_iff.mp (okOr_eq_ok.mp htable)
  exact h classIndex index tables table htables hindex

theorem tablesAt_good {metadata : Metadata} (h : metadata.Coded) (scanIndex : Nat) :
    (tablesAt metadata scanIndex).1.Good ∧ (tablesAt metadata scanIndex).2.Good := by
  rw [tablesAt]
  split
  · exact ⟨HuffTable.empty_good, HuffTable.empty_good⟩
  · split
    · rename_i hdc hac
      exact ⟨huffTable_good h hdc, huffTable_good h hac⟩
    · exact ⟨HuffTable.empty_good, HuffTable.empty_good⟩

section

variable {metadata : Metadata} (hscan : metadata.Scan) (hcoded : metadata.Coded)
  {frame : Place → Block} {writer : ScanWriter} {base : List UInt8} {bits : List Bool}
  {predicted : Nat → Int}

include hscan hcoded

theorem writePlace_ends (h : writer.Has base bits) (hpredicted : writer.Predicts predicted)
    {place : Place} (hplace : place.component < metadata.numScanComponents)
    (hlast : (frame place).eob ≤ 63) {code : List Bool}
    (hcode : blockBits (scanCodes metadata place.component)
      (predicted place.component) (frameValues frame place).1 (frameValues frame place).2 =
        some code) :
    Ends (OutputFull writer.limits (written base (bits ++ code)).length)
      (fun next => next.Has base (bits ++ code) ∧
        next.Predicts (predict predicted place.component
          (frameValues frame place).1[0]) ∧
        next.restartMarkerIndex = writer.restartMarkerIndex ∧ next.limits = writer.limits)
      (writePlace metadata frame writer place) := by
  obtain ⟨scan, component, quant, hpart⟩ := hscan.partOf hplace
  obtain ⟨dcTable, acTable, htables⟩ := hscan.tablesOf hplace hpart.parts
  have htablesAt : tablesAt metadata place.component = (dcTable, acTable) := by
    rw [tablesAt, hpart.parts]
    dsimp only
    rw [htables.dc, htables.ac]
  obtain ⟨hdc, hac⟩ := tablesAt_good hcoded place.component
  rw [scanCodes, htablesAt] at hcode
  rw [htablesAt] at hdc hac
  have hfour : place.component < 4 := by
    have hcount := hscan.count_le
    have hcomponents := hscan.frame.count_le
    omega
  rw [writePlace, hpart.parts, Prog.lift_ok_bind]
  dsimp only
  rw [htables.dc, Prog.lift_ok_bind, htables.ac, Prog.lift_ok_bind]
  exact encodeBlock_ends h hpredicted hdc.short hfour hac.short hlast hcode

theorem writePlaces_ends {places : List Place}
    (hplaces : ∀ place ∈ places, place.component < metadata.numScanComponents ∧
      (frame place).eob ≤ 63)
    (h : writer.Has base bits) (hpredicted : writer.Predicts predicted)
    {result : List Bool × (Nat → Int)}
    (hcode : placesBits (scanCodes metadata) (frameValues frame) places predicted =
      some result) :
    Ends (OutputFull writer.limits (written base (bits ++ result.1)).length)
      (fun next => next.Has base (bits ++ result.1) ∧ next.Predicts result.2 ∧
        next.restartMarkerIndex = writer.restartMarkerIndex ∧ next.limits = writer.limits)
      (places.foldlM (writePlace metadata frame) writer) := by
  induction places generalizing writer bits predicted result with
  | nil =>
    cases hcode
    refine .pure ⟨?_, hpredicted, rfl, rfl⟩
    rwa [List.append_nil]
  | cons place places ih =>
    obtain ⟨first, hfirst, hcode⟩ := Option.bind_eq_some_iff.mp hcode
    obtain ⟨⟨rest, after⟩, hrest, hcode⟩ := Option.bind_eq_some_iff.mp hcode
    cases hcode
    obtain ⟨hcomponent, hlast⟩ := hplaces place List.mem_cons_self
    rw [List.foldlM_cons, ← List.append_assoc]
    refine .bind (upTo (writePlace_ends hscan hcoded h hpredicted hcomponent hlast hfirst)
      (written_append _ _ _)) ?_
    rintro next ⟨hnext, hpredicts, hmarker, hlimits⟩
    rw [← hlimits]
    refine (ih (fun other hmem => hplaces other (List.mem_cons_of_mem _ hmem)) hnext hpredicts
      hrest).mono ?_
    rintro final ⟨hfinal, hpredicts, hmarker', hlimits'⟩
    exact ⟨hfinal, hpredicts, hmarker'.trans hmarker, hlimits'⟩

end

/-- The number of the restart that comes next in front of a unit or behind it. -/
def markerBefore (interval number : Nat) : Nat := (number - 1) / interval % 8

theorem markerBefore_of_due {interval number : Nat} (h : Due interval number) :
    restartNumber interval number = markerBefore interval number ∧
      markerBefore interval (number + 1) = (markerBefore interval number + 1) % 8 := by
  obtain ⟨hinterval, hnumber, hmod⟩ := h
  obtain ⟨number, rfl⟩ := Nat.exists_eq_succ_of_ne_zero hnumber
  have hdiv : (number + 1) / interval = number / interval + 1 := by
    rw [Nat.succ_div, if_pos (Nat.dvd_of_mod_eq_zero hmod)]
  rw [restartNumber, markerBefore, markerBefore, Nat.add_sub_cancel,
    Nat.succ_eq_add_one, Nat.add_sub_cancel, hdiv, Nat.mod_add_mod]
  exact ⟨rfl, rfl⟩

theorem markerBefore_of_not_due {interval number : Nat} (h : ¬Due interval number) :
    markerBefore interval (number + 1) = markerBefore interval number := by
  rw [markerBefore, markerBefore, Nat.add_sub_cancel]
  by_cases hinterval : interval = 0
  · rw [hinterval, Nat.div_zero, Nat.div_zero]
  cases number with
  | zero => rfl
  | succ number =>
    have hdvd : ¬interval ∣ number + 1 := fun hdvd =>
      h ⟨hinterval, Nat.succ_ne_zero _, Nat.mod_eq_zero_of_dvd hdvd⟩
    rw [Nat.succ_div, if_neg hdvd, Nat.add_sub_cancel, Nat.add_zero]

section

variable {metadata : Metadata} (hscan : metadata.Scan) (hcoded : metadata.Coded)
  {frame : Place → Block} {writer : ScanWriter} {base : List UInt8} {bits : List Bool}
  {predicted : Nat → Int}

include hscan hcoded

theorem writeUnit_ends {unit : List Place}
    (hunit : ∀ place ∈ unit, place.component < metadata.numScanComponents ∧ (frame place).eob ≤ 63)
    {number : Nat} (h : writer.Has base bits) (hpredicted : writer.Predicts predicted)
    (hmarker : writer.restartMarkerIndex = markerBefore metadata.restartInterval number)
    {result : List Bool × (Nat → Int)}
    (hcode : placesBits (scanCodes metadata) (frameValues frame) unit
      (if Due metadata.restartInterval number then fun _ => 0 else predicted) = some result)
    {front : List UInt8} {front' : List Bool}
    (hfront : front = if Due metadata.restartInterval number then base ++ entropyBytes bits ++
      [0xff, UInt8.ofNat (0xd0 + restartNumber metadata.restartInterval number)] else base)
    (hfront' : front' = if Due metadata.restartInterval number then result.1
      else bits ++ result.1) :
    Ends (OutputFull writer.limits (written front front').length)
      (fun next => next.Has front front' ∧ next.Predicts result.2 ∧
        next.restartMarkerIndex = markerBefore metadata.restartInterval (number + 1) ∧
        next.limits = writer.limits)
      (writeUnit metadata frame writer (unit, number)) := by
  subst hfront hfront'
  rw [writeUnit, restartIfDue]
  by_cases hdue : Due metadata.restartInterval number
  · obtain ⟨hnumber, hnext⟩ := markerBefore_of_due hdue
    have hless : markerBefore metadata.restartInterval number < 8 := Nat.mod_lt _ (by decide)
    rw [if_pos hdue] at hcode
    simp only [if_pos hdue]
    rw [hnumber]
    refine .bind (upTo (ScanWriter.restart_ends h hless hmarker)
      (List.prefix_append _ _).length_le) fun started hstarted => ?_
    obtain ⟨hhas, hzeros, hindex, hlimits⟩ := hstarted
    have hpredicts : started.Predicts fun _ => 0 := fun component hcomponent => by
      rw [hzeros, Vector.getElem_replicate]
      rfl
    rw [← hlimits]
    refine .bind (writePlaces_ends hscan hcoded hunit hhas hpredicts hcode) fun last hlast => ?_
    obtain ⟨hhas, hpredicts, hkept, hlimits⟩ := hlast
    exact .pure ⟨hhas, hpredicts, hkept.trans (hindex.trans hnext.symm), hlimits⟩
  · rw [if_neg hdue] at hcode
    simp only [if_neg hdue]
    rw [pure_bind]
    refine .bind (writePlaces_ends hscan hcoded hunit h hpredicted hcode) fun last hlast => ?_
    obtain ⟨hhas, hpredicts, hkept, hlimits⟩ := hlast
    exact .pure ⟨hhas, hpredicts,
      hkept.trans (hmarker.trans (markerBefore_of_not_due hdue).symm), hlimits⟩

theorem writeUnits_ends {units : List (List Place)}
    (hunits : ∀ unit ∈ units, ∀ place ∈ unit, place.component < metadata.numScanComponents ∧
      (frame place).eob ≤ 63)
    {number : Nat} (h : writer.Has base bits) (hpredicted : writer.Predicts predicted)
    (hmarker : writer.restartMarkerIndex = markerBefore metadata.restartInterval number)
    {result : List Bool × List UInt8}
    (hcode : scanFrom (scanCodes metadata) (frameValues frame)
      metadata.restartInterval number units predicted = some result) :
    Ends (OutputFull writer.limits (base ++ entropyBytes (bits ++ result.1) ++ result.2).length)
      (fun next => next.output = base ++ entropyBytes (bits ++ result.1) ++ result.2)
      ((units.zipIdx number).foldlM (writeUnit metadata frame) writer >>=
        ScanWriter.padWithOnes) := by
  induction units generalizing writer base bits predicted number result with
  | nil =>
    cases hcode
    rw [List.append_nil, List.append_nil]
    exact (ScanWriter.padWithOnes_ends h).mono fun next hnext => hnext.1
  | cons unit units ih =>
    obtain ⟨⟨first, after⟩, hfirst, hcode⟩ := Option.bind_eq_some_iff.mp hcode
    obtain ⟨⟨rest, tail⟩, hrest, hcode⟩ := Option.bind_eq_some_iff.mp hcode
    dsimp only at hrest hcode
    have hunit := writeUnit_ends hscan hcoded (hunits unit List.mem_cons_self) h hpredicted hmarker
      hfirst rfl rfl
    have hmore := fun other hmem => hunits other (List.mem_cons_of_mem unit hmem)
    rw [List.zipIdx_cons, List.foldlM_cons, bind_assoc]
    by_cases hdue : Due metadata.restartInterval number
    · simp only [if_pos hdue] at hunit hcode
      cases hcode
      dsimp only
      rw [List.append_nil, List.append_cons, List.append_cons, ← List.append_assoc,
        List.append_assoc (base ++ entropyBytes bits), List.singleton_append]
      refine .bind (upTo hunit (written_le_entropyBytes _ first rest tail)) fun next hnext => ?_
      obtain ⟨hhas, hpredicts, hindex, hlimits⟩ := hnext
      have hends := ih hmore hhas hpredicts hindex hrest
      rw [hlimits] at hends
      exact hends
    · simp only [if_neg hdue] at hunit hcode
      cases hcode
      dsimp only
      rw [← List.append_assoc bits]
      refine .bind (upTo hunit (written_le_entropyBytes _ _ rest tail)) fun next hnext => ?_
      obtain ⟨hhas, hpredicts, hindex, hlimits⟩ := hnext
      have hends := ih hmore hhas hpredicts hindex hrest
      rw [hlimits] at hends
      exact hends

end

def SingleBlocks (metadata : Metadata) : Prop :=
  2 ≤ metadata.numScanComponents ∨ factorsOf metadata 0 = (1, 1)

theorem mcus_eq_standardUnits {metadata : Metadata} (hscan : metadata.Scan)
    (h : SingleBlocks metadata) : mcus metadata = standardUnits metadata := by
  by_cases hcount : metadata.numScanComponents = 1
  · have hone : factorsOf metadata 0 = (1, 1) := h.resolve_left (by omega)
    have hfactors : scanFactors metadata = [(1, 1)] := by
      rw [scanFactors, hcount, List.range_one, List.map_singleton, hone]
    rw [mcus, standardUnits, hfactors, JpegLayout.units, JpegLayout.interleaved_one, Nat.mul_one,
      Nat.mul_one, JpegLayout.ceilDiv_ceilDiv _ hscan.frame.maxHorizontal_pos (by decide),
      JpegLayout.ceilDiv_ceilDiv _ hscan.frame.maxVertical_pos (by decide),
      hscan.frame.horizontalMcus_eq, hscan.frame.verticalMcus_eq]
  · exact mcus_eq_of_ne hscan hcount

theorem component_lt {metadata : Metadata} {unit : List Place} (hunit : unit ∈ mcus metadata)
    {place : Place} (hplace : place ∈ unit) : place.component < metadata.numScanComponents := by
  rw [mcus, JpegLayout.interleaved] at hunit
  obtain ⟨row, -, hunit⟩ := List.mem_flatMap.mp hunit
  obtain ⟨column, -, rfl⟩ := List.mem_map.mp hunit
  rw [unit_scanFactors] at hplace
  obtain ⟨scanIndex, hindex, hplace⟩ := List.mem_flatMap.mp hplace
  obtain ⟨y, -, hplace⟩ := List.mem_flatMap.mp hplace
  obtain ⟨x, -, rfl⟩ := List.mem_map.mp hplace
  exact List.mem_range.mp hindex

theorem writeSlices_ends {metadata : Metadata} (hscan : metadata.Scan) (hcoded : metadata.Coded)
    {frame : Place → Block} {slices : List (List (List Block) × Nat)}
    (hslices : Divides metadata frame 0 slices)
    (hunits : ∀ unit ∈ mcus metadata, ∀ place ∈ unit,
      place.component < metadata.numScanComponents ∧ (frame place).eob ≤ 63)
    {result : List Bool × List UInt8}
    (hresult : scanFrom (scanCodes metadata) (frameValues frame) metadata.restartInterval 0
      (mcus metadata) (fun _ => 0) = some result) (output : List UInt8) (expected maximum : Nat) :
    Ends (OutputFull (expected, maximum)
        (output.length + (entropyBytes result.1 ++ result.2).length))
      (fun next => next.output = output ++ (entropyBytes result.1 ++ result.2))
      (writeSlices metadata 0 slices (ScanWriter.new output expected maximum)) := by
  have hpredicts : (ScanWriter.new output expected maximum).Predicts fun _ => 0 :=
    fun component hcomponent => by
      rw [ScanWriter.new, Vector.getElem_replicate]
      rfl
  have hmarker : (ScanWriter.new output expected maximum).restartMarkerIndex =
      markerBefore metadata.restartInterval 0 := by
    rw [markerBefore, Nat.zero_sub, Nat.zero_div]
    rfl
  have hends := writeUnits_ends hscan hcoded hunits (ScanWriter.has_nil rfl rfl) hpredicts hmarker
    hresult
  rw [writeSlices_units hscan hslices rfl, ← List.length_append, ← List.append_assoc]
  exact hends

/-- The last coefficient of each block that is not zero is known, and all symbols have
codes. -/
structure Writable (metadata : Metadata) (frame : Place → Block) : Prop where
  last : ∀ unit ∈ mcus metadata, ∀ place ∈ unit,
    JpegEntropy.LastAt (frame place).values (frame place).eob
  coded : (encodeScan (scanCodes metadata) (frameValues frame) metadata.restartInterval
    (mcus metadata)).isSome

/-- What is written for a frame is read back by the decoder of the standard; the writer
returns where there is room for it, and fails only where its output may not grow; and the
codes of a table that is accepted are those of the standard, none of which is the
beginning of another. -/
theorem scan_roundTrip :
    (∀ metadata, metadata.Scanned → SingleBlocks metadata → ∀ frame, Writable metadata frame →
      ∃ scan, encodeScan (scanCodes metadata) (frameValues frame) metadata.restartInterval
          (mcus metadata) = some scan ∧
        JpegEntropy.decodeScan (scanTables metadata) metadata.restartInterval
            (standardUnits metadata) scan =
          some ((standardUnits metadata).flatten.map fun place => (place, (frame place).values)) ∧
        ∀ slices, Divides metadata frame 0 slices → ∀ output expected maximum,
          FailsWith (OutputFull (expected, maximum) (output.length + scan.length))
            (writeSlices metadata 0 slices (ScanWriter.new output expected maximum)) ∧
          (∀ next, CanReturn
              (writeSlices metadata 0 slices (ScanWriter.new output expected maximum)) next →
            next.output = output ++ scan) ∧
          (Room (expected, maximum) (output.length + scan.length) →
            ∃ next, (writeSlices metadata 0 slices
              (ScanWriter.new output expected maximum)).granted = .ok next)) ∧
    (∀ metadata bytes offset next finish, metadata.Parsed →
      parseDht bytes metadata offset = .ok (next, finish) →
      ∀ (classIndex index : Nat) tables table, next.huffCodes[classIndex]? = some tables →
        tables[index]? = some table → JpegEntropy.PrefixFree (HuffTable.codeOf table)) ∧
    ∀ counts symbols table, counts.length ≤ 16 → buildCodes counts symbols = .ok table →
      ∀ symbol bits, table.codeOf symbol = some bits ↔
        (symbol, bits) ∈ JpegEntropy.canonical counts symbols := by
  refine ⟨fun metadata h hsingle frame hframe => ?_,
    fun metadata bytes offset next finish hmetadata hparse classIndex index tables table htables
      htable => ?_,
    fun counts symbols table hcounts hbuild => buildCodes_canonical symbols hcounts table hbuild⟩
  · have hscan := h.valid.2
    have hcoded := h.coded
    obtain ⟨scan, hencoded⟩ := Option.isSome_iff_exists.mp hframe.coded
    have hunits : ∀ unit ∈ mcus metadata, ∀ place ∈ unit,
        place.component < metadata.numScanComponents ∧ (frame place).eob ≤ 63 :=
      fun unit hunit place hplace =>
        ⟨component_lt hunit hplace, (hframe.last unit hunit place hplace).le⟩
    have hreadable : ∀ unit ∈ mcus metadata, ∀ place ∈ unit,
        JpegEntropy.Readable (scanTables metadata) (scanCodes metadata) (frameValues frame) place :=
      fun unit hunit place hplace =>
        { dc := (tablesAt_good hcoded place.component).1.decodes
          ac := (tablesAt_good hcoded place.component).2.decodes
          last := hframe.last unit hunit place hplace }
    have hdecoded := JpegEntropy.decodeScan_eq hreadable hencoded
    rw [mcus_eq_standardUnits hscan hsingle] at hdecoded
    refine ⟨scan, hencoded, hdecoded, fun slices hslices output expected maximum => ?_⟩
    obtain ⟨result, hresult, rfl⟩ := Option.map_eq_some_iff.mp hencoded
    have hends := writeSlices_ends hscan hcoded hslices hunits hresult output expected maximum
    refine ⟨hends.yields.failsWith hends.passes,
      fun next hnext => hends.yields.1 next (hends.passes.granted_of_canReturn hnext),
      fun hroom => ?_⟩
    cases hgranted : (writeSlices metadata 0 slices
        (ScanWriter.new output expected maximum)).granted with
    | ok next => exact ⟨next, rfl⟩
    | error e => exact absurd (hends.yields.2 e hgranted) hroom.not_outputFull
  · have hnext := parseDht_coded bytes hmetadata.coded (next, finish) hparse
    exact (hnext classIndex index tables table htables htable).prefixFree

def cornerHeader : List UInt8 :=
  [0xff, 0xd8, 0xff, 0xdb, 0, 67, 0] ++ List.replicate 64 1 ++
  [0xff, 0xc0, 0, 14, 8, 0, 16, 0, 16, 2, 1, 0x21, 0, 2, 0x11, 0] ++
  [0xff, 0xc4, 0, 40, 0x00, 2] ++ List.replicate 15 0 ++ [0, 1, 0x10, 2] ++
  List.replicate 15 0 ++ [0, 1] ++ [0xff, 0xdd, 0, 4, 0, 1] ++
  [0xff, 0xda, 0, 10, 2, 1, 0x00, 2, 0x00, 0, 63, 0]

/-- Ones in the first four places, and zeros behind them. -/
def cornerBlock : Block where
  coefficients := Vector.ofFn fun index => if index.val < 4 then 1 else 0
  eob := 3

def cornerFrame (place : Place) : Block :=
  if place = ⟨0, 0, 0⟩ then cornerBlock else Block.zero

def cornerSlices : List (List (List Block) × Nat) :=
  [([[cornerBlock, Block.zero], [Block.zero]], 1),
    ([[Block.zero, Block.zero], [Block.zero]], 1)]

theorem cornerFrame_last (place : Place) :
    JpegEntropy.LastAt (cornerFrame place).values (cornerFrame place).eob := by
  have hbehind : ∀ block : Block,
      (∀ index < 64, block.eob < index → block.values[index]?.getD 0 = 0) →
      ∀ index, block.eob < index → block.values[index]?.getD 0 = 0 := by
    intro block h index hindex
    by_cases hlt : index < 64
    · exact h index hlt hindex
    · rw [Vector.getElem?_eq_none (Nat.le_of_not_lt hlt)]
      rfl
  rw [cornerFrame]
  split
  · exact ⟨by decide, fun _ => by decide +kernel, hbehind _ (by decide +kernel)⟩
  · exact ⟨by decide, fun h => absurd rfl h, hbehind _ (by decide +kernel)⟩

set_option maxRecDepth 100000 in
/-- Two slices are written with a restart between them and a zero behind a byte of ones,
and read back. -/
theorem scan_roundTrip_corner :
    ∃ metadata next, parseMetadata cornerHeader Metadata.default = .ok (metadata, .scan) ∧
      metadata.restartInterval = 1 ∧
      (writeSlices metadata 0 cornerSlices (ScanWriter.new [] 6 6)).granted = .ok next ∧
      next.output = [0xff, 0, 0x43, 0xff, 0xd0, 3] ∧
      JpegEntropy.decodeScan (scanTables metadata) 1 (standardUnits metadata) next.output =
        some ([⟨0, 0, 0⟩, ⟨0, 0, 1⟩, ⟨1, 0, 0⟩, ⟨0, 1, 0⟩, ⟨0, 1, 1⟩, ⟨1, 1, 0⟩].map fun place =>
          (place, (cornerFrame place).values)) := by
  obtain ⟨metadata, hparse, hcount, hinterval, hunits, hencoded, hdivides⟩ :
      ∃ metadata, parseMetadata cornerHeader Metadata.default = .ok (metadata, .scan) ∧
        metadata.numScanComponents = 2 ∧ metadata.restartInterval = 1 ∧
        standardUnits metadata =
          [[⟨0, 0, 0⟩, ⟨0, 0, 1⟩, ⟨1, 0, 0⟩], [⟨0, 1, 0⟩, ⟨0, 1, 1⟩, ⟨1, 1, 0⟩]] ∧
        encodeScan (scanCodes metadata) (frameValues cornerFrame) metadata.restartInterval
          (mcus metadata) = some [0xff, 0, 0x43, 0xff, 0xd0, 3] ∧
        Divides metadata cornerFrame 0 cornerSlices :=
    ⟨_, rfl, rfl, rfl, rfl, by decide +kernel, Nat.le_refl 1, by unfold HoldsRows; decide +kernel,
      Nat.le_refl 1, by unfold HoldsRows; decide +kernel, rfl⟩
  obtain ⟨scan, hscan, hdecoded, hwrite⟩ := scan_roundTrip.1 metadata ⟨_, _, .default, hparse⟩
    (.inl (Nat.le_of_eq hcount.symm)) cornerFrame
    ⟨fun _ _ place _ => cornerFrame_last place, Option.isSome_iff_exists.mpr ⟨_, hencoded⟩⟩
  obtain rfl := Option.some.inj (hencoded.symm.trans hscan)
  obtain ⟨-, houtput, hreturns⟩ := hwrite cornerSlices hdivides [] 6 6
  obtain ⟨next, hnext⟩ := hreturns ⟨Nat.le_refl 6, Nat.le_refl 6, by decide⟩
  have hwritten := houtput next (CanReturn.of_granted hnext)
  rw [hinterval, hunits] at hdecoded
  refine ⟨metadata, next, hparse, hinterval, hnext, hwritten, ?_⟩
  rw [hwritten, hunits]
  exact hdecoded

end Jpeg
end Unpackio
