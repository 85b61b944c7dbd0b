/-
The canonical encoding of a header model, and which models are well formed.

The writers follow the 7z grammar, production by production.  `WellFormed`
predicates collect what the format needs of a record, and `ParseState` totals
what the whole header declares, so that the limits are one comparison.

A NumUnpackStream record that only says one substream per folder may be left
out.  The writers take that choice as `brief`.
-/
import Unpackio.Raw

namespace Unpackio

/-! ## Writers -/

/-- Eight definition bits, the first in the highest place. -/
def packByte (bits : List Bool) : UInt8 :=
  UInt8.ofNat (((List.range 8).map fun i => if bits.getD i false then 0x80 >>> i else 0).sum)

def writeBits (bits : List Bool) : List UInt8 := (chunks 8 bits).map packByte

def writeDefinedDigests (digests : List (Option UInt32)) : List UInt8 :=
  digests.flatMap fun digest =>
    match digest with
    | none => []
    | some value => toLeBytes 4 value.toNat

def writeDigests (digests : List (Option UInt32)) : List UInt8 :=
  if digests = [] then []
  else if digests.all Option.isSome then 1 :: writeDefinedDigests digests
  else 0 :: (writeBits (digests.map Option.isSome) ++ writeDefinedDigests digests)

def writeSizes (sizes : List Nat) : List UInt8 := sizes.flatMap write7zUint

/-- A section behind its identifier, or nothing. -/
def writeOptional {α : Type} (tag : UInt8) (write : α → List UInt8) : Option α → List UInt8
  | none => []
  | some a => tag :: write a

def writePackInfo (pack : RawPackInfo) : List UInt8 :=
  write7zUint pack.position ++ (write7zUint pack.streams ++
    (writeOptional idSize writeSizes pack.sizes ++
      (writeOptional idCrc writeDigests pack.crcs ++ [idEnd])))

/-- A coder with one input and one output leaves its counts out, and one
without properties its property record. -/
def coderFlags (coder : RawCoder) : UInt8 :=
  UInt8.ofNat (coder.methodId.length +
    (if coder.inputStreams = 1 ∧ coder.outputStreams = 1 then 0 else 0x10) +
    (if coder.properties = [] then 0 else 0x20))

def writeCoder (coder : RawCoder) : List UInt8 :=
  coderFlags coder :: (coder.methodId ++
    ((if coder.inputStreams = 1 ∧ coder.outputStreams = 1 then []
      else write7zUint coder.inputStreams ++ write7zUint coder.outputStreams) ++
    (if coder.properties = [] then []
      else write7zUint coder.properties.length ++ coder.properties)))

def writeBindPair (pair : RawBindPair) : List UInt8 :=
  write7zUint pair.input ++ write7zUint pair.output

def writeFolder (folder : RawFolder) : List UInt8 :=
  write7zUint folder.coders.length ++ (folder.coders.flatMap writeCoder ++
    (folder.bindPairs.flatMap writeBindPair ++ writeSizes (folder.packedIndices.getD [])))

def writeUnpackInfo (unpack : RawUnpackInfo) : List UInt8 :=
  idFolder :: (write7zUint unpack.folders.length ++
    (0 :: (unpack.folders.flatMap writeFolder ++
      (idCodersUnpackSize :: (unpack.folders.flatMap (fun folder =>
        writeSizes folder.unpackSizes) ++
        (writeOptional idCrc writeDigests unpack.crcs ++ [idEnd]))))))

def writeSubstreamCounts (brief : Bool) (counts : List Nat) : List UInt8 :=
  if brief && counts.all (· == 1) then [] else idNumUnpackStream :: writeSizes counts

def writeSubstreamsInfo (brief : Bool) (substreams : RawSubstreamsInfo) : List UInt8 :=
  writeSubstreamCounts brief substreams.counts ++
    (writeOptional idSize writeSizes substreams.explicitSizes ++
      (writeOptional idCrc writeDigests substreams.crcs ++ [idEnd]))

def writeStreamsInfo (brief : Bool) (streams : RawStreamsInfo) : List UInt8 :=
  writeOptional idPackInfo writePackInfo streams.pack ++
    (writeOptional idUnpackInfo writeUnpackInfo streams.unpack ++
      (writeOptional idSubstreamsInfo (writeSubstreamsInfo brief) streams.substreams ++ [idEnd]))

def writeProperty (property : RawProperty) : List UInt8 :=
  property.id :: (write7zUint property.data.length ++ property.data)

def writeProperties (properties : List RawProperty) : List UInt8 :=
  properties.flatMap writeProperty ++ [idEnd]

def writeFilesInfo (files : RawFilesInfo) : List UInt8 :=
  write7zUint files.count ++ writeProperties files.properties

def writeHeader (brief : Bool) (header : RawHeader) : List UInt8 :=
  (if header.archiveProperties = [] then []
    else idArchiveProperties :: writeProperties header.archiveProperties) ++
    (writeOptional idAdditionalStreamsInfo (writeStreamsInfo brief) header.additionalStreams ++
      (writeOptional idMainStreamsInfo (writeStreamsInfo brief) header.mainStreams ++
        (writeOptional idFilesInfo writeFilesInfo header.files ++ [idEnd])))

/-- The header models of the format: a plain header, or the streams of an
encoded one. -/
inductive HeaderModel where
  | header (plain : RawHeader)
  | encoded (streams : RawStreamsInfo)

namespace HeaderModel

def toRaw : HeaderModel → RawNextHeader
  | .header plain => .header plain
  | .encoded streams => .encoded streams

def write (brief : Bool) : HeaderModel → List UInt8
  | .header plain => idHeader :: writeHeader brief plain
  | .encoded streams => idEncodedHeader :: writeStreamsInfo brief streams

end HeaderModel

namespace ParseState

instance : Add ParseState where
  add a b :=
    { totalFolders := a.totalFolders + b.totalFolders
      totalCoders := a.totalCoders + b.totalCoders
      totalStreams := a.totalStreams + b.totalStreams
      totalPackedStreams := a.totalPackedStreams + b.totalPackedStreams
      totalSubstreams := a.totalSubstreams + b.totalSubstreams
      totalProperties := a.totalProperties + b.totalProperties }

theorem add_def (a b : ParseState) :
    a + b =
      ⟨a.totalFolders + b.totalFolders, a.totalCoders + b.totalCoders,
        a.totalStreams + b.totalStreams, a.totalPackedStreams + b.totalPackedStreams,
        a.totalSubstreams + b.totalSubstreams, a.totalProperties + b.totalProperties⟩ := rfl

/-- Every total is a 64-bit number within its limit. -/
structure Within (state : ParseState) (limits : Limits) : Prop where
  folders : state.totalFolders ≤ limits.maxFolders ∧ state.totalFolders < 2 ^ 64
  coders : state.totalCoders ≤ limits.maxTotalCoders ∧ state.totalCoders < 2 ^ 64
  streams : state.totalStreams ≤ limits.maxTotalStreams ∧ state.totalStreams < 2 ^ 64
  packedStreams :
    state.totalPackedStreams ≤ limits.maxTotalStreams ∧ state.totalPackedStreams < 2 ^ 64
  substreams : state.totalSubstreams ≤ limits.maxSubstreams ∧ state.totalSubstreams < 2 ^ 64
  properties :
    state.totalProperties ≤ limits.maxHeaderProperties ∧ state.totalProperties < 2 ^ 64

theorem add_assoc (a b c : ParseState) : a + b + c = a + (b + c) := by
  simp only [add_def, Nat.add_assoc]

theorem Within.of_add {a b : ParseState} {limits : Limits} (h : (a + b).Within limits) :
    a.Within limits := by
  obtain ⟨hf, hc, hs, hp, hsub, hprop⟩ := h
  simp only [add_def] at hf hc hs hp hsub hprop
  constructor <;> omega

end ParseState

open ParseState

def RawPackInfo.totals (pack : RawPackInfo) : ParseState :=
  { ParseState.default with totalPackedStreams := pack.streams }

def RawFolder.totals (folder : RawFolder) : ParseState :=
  { ParseState.default with
    totalCoders := folder.coders.length
    totalStreams := folder.inputStreams + folder.outputStreams }

def folderTotals : List RawFolder → ParseState
  | [] => ParseState.default
  | folder :: folders => folder.totals + folderTotals folders

def RawUnpackInfo.totals (unpack : RawUnpackInfo) : ParseState :=
  { ParseState.default with totalFolders := unpack.folders.length } + folderTotals unpack.folders

def substreamTotal (unpack : Option RawUnpackInfo) (substreams : Option RawSubstreamsInfo) :
    ParseState :=
  { ParseState.default with
    totalSubstreams :=
      match unpack, substreams with
      | none, _ => 0
      | some unpack, none => unpack.folders.length
      | some _, some substreams => substreams.counts.sum }

def RawStreamsInfo.totals (streams : RawStreamsInfo) : ParseState :=
  (streams.pack.elim ParseState.default RawPackInfo.totals +
    streams.unpack.elim ParseState.default RawUnpackInfo.totals) +
    substreamTotal streams.unpack streams.substreams

def propertyTotals (properties : List RawProperty) : ParseState :=
  { ParseState.default with totalProperties := properties.length }

def RawHeader.totals (header : RawHeader) : ParseState :=
  ((propertyTotals header.archiveProperties +
    header.additionalStreams.elim ParseState.default RawStreamsInfo.totals) +
    header.mainStreams.elim ParseState.default RawStreamsInfo.totals) +
    header.files.elim ParseState.default fun files => propertyTotals files.properties

def HeaderModel.totals : HeaderModel → ParseState
  | .header plain => plain.totals
  | .encoded streams => streams.totals

def AllU64 (values : List Nat) : Prop := ∀ value ∈ values, value < 2 ^ 64

structure RawPackInfo.WellFormed (pack : RawPackInfo) : Prop where
  position_lt : pack.position < 2 ^ 64
  streams_ne : pack.streams ≠ 0
  sizes_wf : ∀ sizes, pack.sizes = some sizes → sizes.length = pack.streams ∧ AllU64 sizes
  crcs_wf : ∀ crcs, pack.crcs = some crcs → crcs.length = pack.streams

structure RawCoder.WellFormed (limits : Limits) (coder : RawCoder) : Prop where
  methodId_ne : coder.methodId ≠ []
  methodId_le : coder.methodId.length ≤ 15
  inputs_wf : coder.inputStreams ≠ 0 ∧ coder.inputStreams < 2 ^ 64
  outputs_wf : coder.outputStreams ≠ 0 ∧ coder.outputStreams < 2 ^ 64
  properties_le : coder.properties.length ≤ limits.maxCoderPropertyBytes

structure RawFolder.WellFormed (limits : Limits) (folder : RawFolder) : Prop where
  coders_ne : folder.coders ≠ []
  coders_le : folder.coders.length ≤ limits.maxCodersPerFolder
  coders_wf : ∀ coder ∈ folder.coders, coder.WellFormed limits
  inputs_eq : (folder.coders.map RawCoder.inputStreams).sum = folder.inputStreams
  outputs_eq : (folder.coders.map RawCoder.outputStreams).sum = folder.outputStreams
  ports_le : folder.inputStreams + folder.outputStreams ≤ limits.maxStreamsPerFolder
  outputs_le : folder.outputStreams ≤ folder.inputStreams
  bindPairs_length : folder.bindPairs.length + 1 = folder.outputStreams
  bindPairs_wf : ∀ pair ∈ folder.bindPairs, pair.input < 2 ^ 64 ∧ pair.output < 2 ^ 64
  packed_eq : folder.packedStreams + folder.bindPairs.length = folder.inputStreams
  packedIndices_one : folder.packedStreams = 1 → folder.packedIndices = none
  packedIndices_many : folder.packedStreams ≠ 1 → ∃ indices,
    folder.packedIndices = some indices ∧ indices.length = folder.packedStreams ∧ AllU64 indices
  unpackSizes_wf : folder.unpackSizes.length = folder.outputStreams ∧ AllU64 folder.unpackSizes

structure RawUnpackInfo.WellFormed (limits : Limits) (unpack : RawUnpackInfo) : Prop where
  folders_ne : unpack.folders ≠ []
  folders_wf : ∀ folder ∈ unpack.folders, folder.WellFormed limits
  crcs_wf : ∀ crcs, unpack.crcs = some crcs → crcs.length = unpack.folders.length

def digestsWithoutFolder (folderCrcs : Option (List (Option UInt32))) : Nat → List Nat → Nat
  | _, [] => 0
  | folderIndex, count :: counts =>
    (if count = 1 ∧ inheritedDigest folderCrcs folderIndex ≠ none then 0 else count) +
      digestsWithoutFolder folderCrcs (folderIndex + 1) counts

structure RawSubstreamsInfo.WellFormed (unpack : RawUnpackInfo)
    (substreams : RawSubstreamsInfo) : Prop where
  counts_wf : substreams.counts.length = unpack.folders.length ∧ AllU64 substreams.counts
  sizes_wf : ∀ sizes, substreams.explicitSizes = some sizes →
    sizes.length = (substreams.counts.map (· - 1)).sum ∧ AllU64 sizes
  crcs_wf : ∀ crcs, substreams.crcs = some crcs →
    crcs.length = digestsWithoutFolder unpack.crcs 0 substreams.counts

structure RawStreamsInfo.WellFormed (limits : Limits) (streams : RawStreamsInfo) : Prop where
  pack_wf : ∀ pack, streams.pack = some pack → pack.WellFormed
  unpack_wf : ∀ unpack, streams.unpack = some unpack → unpack.WellFormed limits
  substreams_wf : ∀ substreams, streams.substreams = some substreams →
    ∃ unpack, streams.unpack = some unpack ∧ substreams.WellFormed unpack

structure RawProperty.WellFormed (limits : Limits) (property : RawProperty) : Prop where
  id_ne : property.id ≠ idEnd
  data_le : property.data.length ≤ limits.maxHeaderBytes

structure RawFilesInfo.WellFormed (limits : Limits) (files : RawFilesInfo) : Prop where
  count_wf : files.count ≤ limits.maxFiles ∧ files.count < 2 ^ 64
  properties_wf : ∀ property ∈ files.properties, property.WellFormed limits

structure RawHeader.WellFormed (limits : Limits) (header : RawHeader) : Prop where
  properties_wf : ∀ property ∈ header.archiveProperties, property.WellFormed limits
  additional_wf : ∀ streams, header.additionalStreams = some streams → streams.WellFormed limits
  main_wf : ∀ streams, header.mainStreams = some streams → streams.WellFormed limits
  files_wf : ∀ files, header.files = some files → files.WellFormed limits

def HeaderModel.WellFormed (limits : Limits) : HeaderModel → Prop
  | .header plain => plain.WellFormed limits
  | .encoded streams => streams.WellFormed limits

end Unpackio
