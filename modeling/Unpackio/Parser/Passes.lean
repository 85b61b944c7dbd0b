/-
The header pipeline passes refusals on.

There is one lemma for each function of `raw.rs`, `graph.rs`, `validate.rs` and
`parser.rs`.  Only the signature scan handles errors, and the fatal ones pass.
-/
import Unpackio.Checkpoints
import Unpackio.Parser

namespace Unpackio

open Prog (Passes)

variable {fatal : Error → Prop} {α : Type}

theorem passes_readU8 : ReadingPasses fatal readU8 :=
  .bind (.checkpoint _) fun _ => .reading _

theorem passes_readU32Le : ReadingPasses fatal readU32Le :=
  .bind (.checkpoint _) fun _ => .reading _

theorem passes_readU64 : ReadingPasses fatal readU64 :=
  .bind (.checkpoint _) fun _ => .reading _

theorem passes_readUint : ReadingPasses fatal readUint :=
  .bind (.checkpoint _) fun _ => .reading _

theorem passes_readBytes (length : Nat) : ReadingPasses fatal (readBytes length) :=
  .bind (.reading _) fun bytes =>
    fun _ => .bind (.bind (passes_consumeBytes _ bytes) fun _ => .pure _) fun _ => .pure _

theorem passes_repeatReading {p : Reading α} (hp : ReadingPasses fatal p) (count : Nat) :
    ReadingPasses fatal (repeatReading p count) := by
  induction count with
  | zero => exact .pure _
  | succ count ih => exact .bind hp fun _ => .bind ih fun _ => .pure _

theorem passes_parseBitsLoop (count byte mask : Nat) :
    ReadingPasses fatal (parseBitsLoop count byte mask) := by
  induction count generalizing byte mask with
  | zero => exact .pure _
  | succ count ih =>
    exact .ite (.bind passes_readU8 fun _ => .bind (ih _ _) fun _ => .pure _)
      (.bind (ih _ _) fun _ => .pure _)

theorem passes_parseBits (count : Nat) : ReadingPasses fatal (parseBits count) :=
  .bind (.checkpoint _) fun _ => passes_parseBitsLoop _ _ _

theorem passes_readDigests (defined : List Bool) : ReadingPasses fatal (readDigests defined) := by
  induction defined with
  | nil => exact .pure _
  | cons isDefined defined ih =>
    cases isDefined with
    | true => exact .bind passes_readU32Le fun _ => .bind ih fun _ => .pure _
    | false => exact .bind ih fun _ => .pure _

theorem passes_parseDigests (count : Nat) : ReadingPasses fatal (parseDigests count) :=
  .ite (.pure _) (.bind (.checkpoint _) fun _ => .bind passes_readU8 fun _ =>
    .ite (.bind (passes_parseBits _) fun _ => passes_readDigests _)
      (.bind (.pure _) fun _ => passes_readDigests _))

theorem passes_parseSizes (count : Nat) : ReadingPasses fatal (parseSizes count) :=
  .bind (.checkpoint _) fun _ => passes_repeatReading passes_readUint _

theorem passes_optionalSection {expected id : UInt8} {p : Reading α}
    (hp : ReadingPasses fatal p) : ReadingPasses fatal (optionalSection expected id p) :=
  .ite (.bind hp fun _ => .bind passes_readU8 fun _ => .pure _) (.pure _)

/-! ## Streams -/

section

variable (count : Nat) (limits : Limits)

theorem passes_addFolders : ParsingPasses fatal (ParseState.addFolders count limits) :=
  .bind .get fun _ => .step fun _ => .set _

theorem passes_addCoders : ParsingPasses fatal (ParseState.addCoders count limits) :=
  .bind .get fun _ => .step fun _ => .set _

theorem passes_addStreams : ParsingPasses fatal (ParseState.addStreams count limits) :=
  .bind .get fun _ => .step fun _ => .set _

theorem passes_addPackedStreams : ParsingPasses fatal (ParseState.addPackedStreams count limits) :=
  .bind .get fun _ => .step fun _ => .set _

theorem passes_addSubstreams : ParsingPasses fatal (ParseState.addSubstreams count limits) :=
  .bind .get fun _ => .step fun _ => .set _

end

theorem passes_addProperty (limits : Limits) :
    ParsingPasses fatal (ParseState.addProperty limits) :=
  .bind .get fun _ => .step fun _ => .set _

theorem passes_parsePackInfo (limits : Limits) : ParsingPasses fatal (parsePackInfo limits) :=
  .bind (.reading passes_readUint) fun _ => .bind (.reading passes_readUint) fun _ => .step fun _ =>
    .bind (passes_addPackedStreams _ _) fun _ =>
    .bind (.reading passes_readU8) fun _ =>
    .bind (.reading (passes_optionalSection (passes_parseSizes _))) fun _ =>
    .bind (.reading (passes_optionalSection (passes_parseDigests _))) fun _ => .step fun _ =>
    .pure _

theorem passes_parseCoderStreams (flags : UInt8) :
    ReadingPasses fatal (parseCoderStreams flags) :=
  .ite (.bind passes_readUint fun _ => .bind passes_readUint fun _ => .step fun _ =>
    .pure _) (.pure _)

theorem passes_parseCoderProperties (flags : UInt8) (limits : Limits) :
    ReadingPasses fatal (parseCoderProperties flags limits) :=
  .ite (.bind passes_readUint fun _ => .step fun _ => passes_readBytes _) (.pure _)

theorem passes_parseCoder (limits : Limits) : ReadingPasses fatal (parseCoder limits) :=
  .bind passes_readU8 fun _ => .step fun _ => .step fun _ => .step fun _ =>
    .bind (passes_readBytes _) fun _ =>
    .bind (passes_parseCoderStreams _) fun _ => .bind (passes_parseCoderProperties _ _) fun _ =>
    .pure _

theorem passes_parseCoders (limits : Limits) (count inputs outputs : Nat) :
    ReadingPasses fatal (parseCoders limits count inputs outputs) := by
  induction count generalizing inputs outputs with
  | zero => exact .pure _
  | succ count ih =>
    exact .bind (passes_parseCoder _) fun _ => .step fun _ => .step fun _ => .bind (ih _ _) fun _ =>
      .pure _

theorem passes_parseBindPair : ReadingPasses fatal parseBindPair :=
  .bind passes_readUint fun _ => .bind passes_readUint fun _ => .pure _

theorem passes_parsePackedIndices (packedStreams : Nat) :
    ReadingPasses fatal (parsePackedIndices packedStreams) :=
  .ite (.pure _) (.bind (passes_repeatReading passes_readUint _) fun _ => .pure _)

theorem passes_parseFolder (limits : Limits) : ParsingPasses fatal (parseFolder limits) :=
  .bind (.reading passes_readUint) fun _ => .step fun _ => .step fun _ =>
    .bind (passes_addCoders _ _) fun _ => .bind (.reading (passes_parseCoders _ _ _ _)) fun _ =>
    .step fun _ => .step fun _ => .bind (passes_addStreams _ _) fun _ => .step fun _ =>
    .step fun _ => .bind (.reading (passes_repeatReading passes_parseBindPair _)) fun _ =>
    .step fun _ => .step fun _ => .bind (.reading (passes_parsePackedIndices _)) fun _ => .pure _

theorem passes_parseFolders (limits : Limits) (count : Nat) :
    ParsingPasses fatal (parseFolders limits count) := by
  induction count with
  | zero => exact .pure _
  | succ count ih => exact .bind (passes_parseFolder _) fun _ => .bind ih fun _ => .pure _

theorem passes_onReader {other : BoundedReader} {p : Parsing α} (hp : ParsingPasses fatal p) :
    ParsingPasses fatal (onReader other p) :=
  fun state _ => .bind (hp state other) fun _ => .pure _

theorem passes_parseExternalFolders (limits : Limits) (folderCount : Nat)
    (source : ExternalFolderData) (dataIndex : Nat) :
    ParsingPasses fatal (parseExternalFolders limits folderCount source dataIndex) :=
  .step fun _ => .bind (passes_onReader (passes_parseFolders _ _)) fun _ => .step fun _ => .pure _

theorem passes_parseUnpackSizes (folders : List RawFolder) :
    ReadingPasses fatal (parseUnpackSizes folders) := by
  induction folders with
  | nil => exact .pure _
  | cons folder folders ih =>
    exact .bind (passes_parseSizes _) fun _ => .bind ih fun _ => .pure _

theorem passes_parseUnpackTail (folderCount : Nat) (folders : List RawFolder) :
    ReadingPasses fatal (parseUnpackTail folderCount folders) :=
  .bind passes_readU8 fun _ => .step fun _ => .bind (passes_parseUnpackSizes _) fun _ =>
    .bind passes_readU8 fun _ => .bind (passes_optionalSection (passes_parseDigests _)) fun _ =>
    .step fun _ => .pure _

theorem passes_parseUnpackInfo (limits : Limits) (externalFolders : Option ExternalFolderData) :
    ParsingPasses fatal (parseUnpackInfo limits externalFolders) := by
  refine .bind (.reading passes_readU8) fun _ => .step fun _ =>
    .bind (.reading passes_readUint) fun _ => .step fun _ => .bind (passes_addFolders _ _) fun _ =>
    .bind (.checkpoint _) fun _ =>
    .bind (.reading passes_readU8) fun _ => .ite ?_ (.bind (.reading passes_readUint) fun _ => ?_)
  · exact .bind (passes_parseFolders _ _) fun _ =>
      .bind (.reading (passes_parseUnpackTail _ _)) fun _ => .pure _
  · cases externalFolders with
    | none => exact .pure _
    | some source =>
      exact .bind (passes_parseExternalFolders _ _ _ _) fun _ =>
        .bind (.reading (passes_parseUnpackTail _ _)) fun _ => .pure _

theorem passes_parseSubstreamCounts (id : UInt8) (folderCount : Nat) :
    ReadingPasses fatal (parseSubstreamCounts id folderCount) :=
  .ite (.bind (passes_repeatReading passes_readUint _) fun _ => .bind passes_readU8 fun _ =>
    .pure _) (.pure _)

section

variable (limits : Limits)

theorem passes_parseSubstreamsInfo (unpack : RawUnpackInfo) :
    ParsingPasses fatal (parseSubstreamsInfo limits unpack) :=
  .bind (.reading passes_readU8) fun _ =>
    .bind (.reading (passes_parseSubstreamCounts _ _)) fun _ => .step fun _ =>
    .bind (passes_addSubstreams _ _) fun _ =>
    .bind (.reading (passes_optionalSection (passes_parseSizes _))) fun _ => .step fun _ =>
    .bind (.reading (passes_optionalSection (passes_parseDigests _))) fun _ => .step fun _ =>
    .pure _

theorem passes_parsePackSection (id : UInt8) : ParsingPasses fatal (parsePackSection limits id) :=
  .ite (.bind (passes_parsePackInfo _) fun _ => .bind (.reading passes_readU8) fun _ => .pure _)
    (.pure _)

theorem passes_parseSubstreamsSection (unpack : Option RawUnpackInfo) (id : UInt8) :
    ParsingPasses fatal (parseSubstreamsSection limits unpack id) := by
  cases unpack with
  | none => exact .ite (.throw _) (.pure _)
  | some unpackInfo =>
    exact .ite (.bind (passes_parseSubstreamsInfo _ _) fun _ =>
      .bind (.reading passes_readU8) fun _ => .pure _)
      (.bind (passes_addSubstreams _ _) fun _ => .pure _)

theorem passes_parseStreamsTail (pack : Option RawPackInfo) (unpack : Option RawUnpackInfo)
    (id : UInt8) : ParsingPasses fatal (parseStreamsTail limits pack unpack id) :=
  .bind (passes_parseSubstreamsSection _ _ _) fun _ => .step fun _ => .pure _

theorem passes_parseStreamsInfo (externalFolders : Option ExternalFolderData) :
    ParsingPasses fatal (parseStreamsInfo limits externalFolders) := by
  refine .bind (.reading passes_readU8) fun _ => .bind (passes_parsePackSection _ _) fun _ =>
    .ite (.bind (passes_parseUnpackInfo _ _) fun parsed => ?_) (passes_parseStreamsTail _ _ _ _)
  cases parsed with
  | complete value => exact .bind (.reading passes_readU8) fun _ => passes_parseStreamsTail _ _ _ _
  | external dataIndex => exact .pure _

end

/-! ## Properties and the header -/

section

variable (limits : Limits)

theorem passes_parsePropertyLoop (fuel : Nat) :
    ParsingPasses fatal (parsePropertyLoop limits fuel) := by
  induction fuel with
  | zero => exact .throw _
  | succ fuel ih =>
    exact .bind (.reading passes_readU8) fun _ => .ite (.pure _)
      (.bind (passes_addProperty _) fun _ => .bind (.reading passes_readUint) fun _ =>
        .step fun _ => .bind (.reading (passes_readBytes _)) fun _ => .bind ih fun _ => .pure _)

theorem passes_parsePropertyList : ParsingPasses fatal (parsePropertyList limits) :=
  fun state reader => passes_parsePropertyLoop limits _ state reader

theorem passes_parseFilesInfo : ParsingPasses fatal (parseFilesInfo limits) :=
  .bind (.reading passes_readUint) fun _ => .step fun _ =>
    .bind (passes_parsePropertyList _) fun _ => .pure _

theorem passes_parseArchiveProperties (id : UInt8) :
    ParsingPasses fatal (parseArchiveProperties limits id) :=
  .ite (.bind (passes_parsePropertyList _) fun _ => .bind (.reading passes_readU8) fun _ =>
    .pure _) (.pure _)

end

theorem passes_acceptAdditional (parsed : ParsedStreamsInfo) :
    ParsingPasses fatal (acceptAdditional parsed) := by
  cases parsed with
  | complete streams => exact .bind (.reading passes_readU8) fun _ => .pure _
  | external pack dataIndex => exact .throw _

section

variable (limits : Limits)

theorem passes_parseAdditionalStreams (id : UInt8) :
    ParsingPasses fatal (parseAdditionalStreams limits id) :=
  .ite (.bind (passes_parseStreamsInfo _ _) passes_acceptAdditional) (.pure _)

theorem passes_parseFilesSection (id : UInt8) : ParsingPasses fatal (parseFilesSection limits id) :=
  .ite (.bind (passes_parseFilesInfo _) fun _ => .bind (.reading passes_readU8) fun _ => .pure _)
    (.pure _)

theorem passes_parseHeaderTail (archiveProperties : List RawProperty)
    (additionalStreams mainStreams : Option RawStreamsInfo) (id : UInt8) :
    ParsingPasses fatal
      (parseHeaderTail limits archiveProperties additionalStreams mainStreams id) :=
  .bind (passes_parseFilesSection _ _) fun _ => .step fun _ => .pure _

theorem passes_parseHeaderBody (headerBytes : List UInt8)
    (externalFolders : Option ExternalFolderData) :
    ParsingPasses fatal (parseHeaderBody limits headerBytes externalFolders) := by
  refine .bind (.reading passes_readU8) fun _ => .bind (passes_parseArchiveProperties _ _) fun _ =>
    .bind (passes_parseAdditionalStreams _ _) fun _ =>
    .ite (.bind (passes_parseStreamsInfo _ _) fun parsed => ?_) (passes_parseHeaderTail _ _ _ _ _)
  cases parsed with
  | complete streams =>
    exact .bind (.reading passes_readU8) fun _ => passes_parseHeaderTail _ _ _ _ _
  | external pack dataIndex => exact .step fun _ => .pure _

theorem passes_parseNextHeaderKind (bytes : List UInt8)
    (externalFolders : Option ExternalFolderData) :
    ParsingPasses fatal (parseNextHeaderKind limits bytes externalFolders) := by
  refine .bind (.reading passes_readU8) fun _ => .ite (passes_parseHeaderBody _ _ _)
    (.ite (.bind (passes_parseStreamsInfo _ _) fun parsed => ?_) (.throw _))
  cases parsed with
  | complete streams => exact .pure _
  | external pack dataIndex => exact .throw _

end

section

variable (limits : Limits) (bytes : List UInt8) (state : ParseState)

theorem passes_parseNextHeaderInner (externalFolders : Option ExternalFolderData) :
    Passes fatal (parseNextHeaderInner limits bytes state externalFolders) := by
  refine .step fun _ => .bind (passes_parseNextHeaderKind _ _ _ state _) fun result => ?_
  obtain ⟨⟨header, state⟩, reader⟩ := result
  cases header with
  | externalFolders pending => exact .pure _
  | header header => exact .step fun _ => .pure _
  | encoded streams => exact .step fun _ => .pure _

theorem passes_parseNextHeader : Passes fatal (parseNextHeader limits bytes state) :=
  passes_parseNextHeaderInner _ _ _ _

end

theorem passes_streamOwners (coders : List RawCoder) (coderIndex : Nat) :
    Passes fatal (streamOwners coders coderIndex) := by
  induction coders generalizing coderIndex with
  | nil => exact .pure _
  | cons coder coders ih =>
    exact .step fun _ => .bind (.request _) fun _ => .bind (ih _) fun _ => .pure _

theorem passes_releaseEdges (coder : Nat) (edges : List (Nat × Nat)) (indegree : List Nat) :
    Passes fatal (releaseEdges coder edges indegree) := by
  induction edges generalizing indegree with
  | nil => exact .pure _
  | cons edge edges ih =>
    exact .bind (.request _) fun _ => .ite (ih _) (.step fun _ => .step fun _ =>
      .bind (ih _) fun _ => .pure _)

theorem passes_orderReady (edges : List (Nat × Nat)) (fuel : Nat)
    (ready indegree order : List Nat) :
    Passes fatal (orderReady edges fuel ready indegree order) := by
  induction fuel generalizing ready indegree order with
  | zero =>
    cases ready with
    | nil => exact .pure _
    | cons coder ready => exact .throw _
  | succ fuel ih =>
    cases ready with
    | nil => exact .pure _
    | cons coder ready =>
      exact .bind (.request _) fun _ => .bind (passes_releaseEdges _ _ _) fun _ => ih _ _ _

theorem passes_topologicalOrder (coderCount : Nat) (inputOwners outputOwners : List Nat)
    (bindPairs : List RawBindPair) :
    Passes fatal (topologicalOrder coderCount inputOwners outputOwners bindPairs) :=
  .step fun _ => .bind (passes_orderReady _ _ _ _ _) fun _ => .step fun _ => .pure _

theorem passes_validateFolderGraph (raw : RawFolder) : Passes fatal (validateFolderGraph raw) :=
  .step fun _ => .bind (.request _) fun _ => .bind (passes_streamOwners _ _) fun _ => .step fun _ =>
    .step fun _ => .step fun _ => .step fun _ => .step fun _ => .step fun _ => .step fun _ =>
    .step fun _ => .bind (passes_topologicalOrder _ _ _ _) fun _ => .pure _

theorem passes_validateCoders (limits : Limits) (raws : List RawCoder)
    (inputStart outputStart dictionaryBytes : Nat) :
    Passes fatal (validateCoders limits raws inputStart outputStart dictionaryBytes) := by
  induction raws generalizing inputStart outputStart dictionaryBytes with
  | nil => exact .pure _
  | cons raw raws ih =>
    exact .bind (.request _) fun _ => .step fun _ => .step fun _ =>
      .bind (passes_copyBytes _ _) fun _ => .bind (passes_copyBytes _ _) fun _ => .step fun _ =>
      .step fun _ => .bind (ih _ _ _) fun _ => .pure _

theorem passes_validateFolder (raw : RawFolder) (folderCrc : Option UInt32)
    (firstPackStream : Nat) (limits : Limits) :
    Passes fatal (validateFolder raw folderCrc firstPackStream limits) :=
  .bind (.request _) fun _ => .bind (passes_validateCoders _ _ _ _ _) fun _ => .step fun _ =>
    .bind (passes_validateFolderGraph _) fun _ => .step fun _ => .step fun _ => .pure _

theorem passes_explicitSizeLoop (explicitSizes : Option (List Nat)) (count cursor total : Nat)
    (allKnown : Bool) :
    Passes fatal (explicitSizeLoop explicitSizes count cursor total allKnown) := by
  induction count generalizing cursor total allKnown with
  | zero => exact .pure _
  | succ count ih =>
    cases explicitSizes with
    | none => exact .bind (.request _) fun _ => .bind (ih _ _ _) fun _ => .pure _
    | some values =>
      refine .bind (.request _) fun _ => .step fun value => .step fun _ => ?_
      cases optionalSize value with
      | none => exact .bind (ih _ _ _) fun _ => .pure _
      | some knownSize => exact .step fun _ => .bind (ih _ _ _) fun _ => .pure _

theorem passes_substreamSizes (rootSize : Option Nat) (count : Nat)
    (explicitSizes : Option (List Nat)) (cursor : Nat) :
    Passes fatal (substreamSizes rootSize count explicitSizes cursor) :=
  .ite (.pure _) (.ite (.pure _) (.bind (passes_explicitSizeLoop _ _ _ _ _) fun _ => .step fun _ =>
    .pure _))

theorem passes_attachCrcs (inherited : Option UInt32)
    (explicitCrcs : Option (List (Option UInt32))) (sizes : List (Option Nat)) (cursor : Nat) :
    Passes fatal (attachCrcs inherited explicitCrcs sizes cursor) := by
  induction sizes generalizing cursor with
  | nil => exact .pure _
  | cons size sizes ih =>
    refine .bind (.request _) fun _ => ?_
    cases inherited with
    | some crc => exact .bind (ih _) fun _ => .pure _
    | none =>
      cases explicitCrcs with
      | none => exact .bind (ih _) fun _ => .pure _
      | some values =>
        exact .step fun _ => .step fun _ => .bind (ih _) fun _ => .pure _

theorem passes_buildSubstreams (draft : FolderDraft) (count : Nat)
    (explicitSizes : Option (List Nat)) (sizeCursor : Nat)
    (explicitCrcs : Option (List (Option UInt32))) (crcCursor : Nat) :
    Passes fatal
      (buildSubstreams draft count explicitSizes sizeCursor explicitCrcs crcCursor) :=
  .bind (.request _) fun _ => .bind (passes_substreamSizes _ _ _ _) fun _ =>
    .bind (passes_attachCrcs _ _ _ _) fun _ => .pure _

theorem passes_packStreamLoop (envelope : HeaderEnvelope) (archiveBytes : List UInt8)
    (crcs : Option (List (Option UInt32))) (sizes : List Nat) (index offset : Nat) :
    Passes fatal (packStreamLoop envelope archiveBytes crcs sizes index offset) := by
  induction sizes generalizing index offset with
  | nil => exact .pure _
  | cons size sizes ih =>
    exact .bind (.request _) fun _ => .step fun _ => .step fun _ => .step fun _ => .step fun _ =>
      .step fun _ => .bind (ih _ _) fun _ => .pure _

theorem passes_validatePackRanges (pack : Option RawPackInfo) (envelope : HeaderEnvelope)
    (archiveBytes : List UInt8) (ranges : List (Nat × Nat)) :
    Passes fatal (validatePackRanges pack envelope archiveBytes ranges) := by
  cases pack with
  | none => exact .pure _
  | some pack =>
    exact .step fun _ => .bind (.request _) fun _ => .step fun _ => .step fun _ => .step fun _ =>
      .step fun _ => .bind (passes_packStreamLoop _ _ _ _ _ _) fun _ => .pure _

theorem passes_validateFolders (crcs : Option (List (Option UInt32))) (limits : Limits)
    (folders : List RawFolder) (folderIndex assigned : Nat) :
    Passes fatal (validateFolders crcs limits folders folderIndex assigned) := by
  induction folders generalizing folderIndex assigned with
  | nil => exact .pure _
  | cons folder folders ih =>
    exact .step fun _ => .bind (passes_validateFolder _ _ _ _) fun _ => .step fun _ =>
      .bind (ih _ _) fun _ => .pure _

theorem passes_buildFolders (counts : List Nat) (explicitSizes : Option (List Nat))
    (explicitCrcs : Option (List (Option UInt32))) (limits : Limits) (drafts : List FolderDraft)
    (index : Nat) (cursors : SubstreamCursors) :
    Passes fatal
      (buildFolders counts explicitSizes explicitCrcs limits drafts index cursors) := by
  induction drafts generalizing index cursors with
  | nil => exact .pure _
  | cons draft drafts ih =>
    exact .step fun _ => .step fun _ => .step fun _ =>
      .bind (passes_buildSubstreams _ _ _ _ _ _) fun _ => .bind (ih _ _) fun _ => .pure _

theorem passes_validateUnpack (pack : RawPackInfo) (unpack : RawUnpackInfo)
    (substreams : Option RawSubstreamsInfo) (envelope : HeaderEnvelope)
    (archiveBytes : List UInt8) (limits : Limits) (ranges : List (Nat × Nat)) :
    Passes fatal (validateUnpack pack unpack substreams envelope archiveBytes limits ranges) :=
  .bind (passes_validatePackRanges _ _ _ _) fun _ => .step fun _ => .bind (.request _) fun _ =>
    .bind (passes_validateFolders _ _ _ _ _) fun _ => .step fun _ => .step fun _ =>
    .bind (passes_buildFolders _ _ _ _ _ _ _) fun _ => .step fun _ => .step fun _ => .pure _

theorem passes_validateStreams (raw : RawStreamsInfo) (envelope : HeaderEnvelope)
    (archiveBytes : List UInt8) (limits : Limits) (ranges : List (Nat × Nat)) :
    Passes fatal (validateStreams raw envelope archiveBytes limits ranges) := by
  unfold validateStreams
  split
  · exact .step fun _ => .pure _
  · exact passes_validateUnpack _ _ _ _ _ _ _
  · exact .throw _

theorem passes_collectStreamMappings (streams : Option StreamsInfo) :
    Passes fatal (collectStreamMappings streams) :=
  .bind (.request _) fun _ => .bind (.forM fun _ _ => .request _) fun _ => .step fun _ => .pure _

theorem passes_copyProperties (properties : List RawProperty) :
    Passes fatal (copyProperties properties) :=
  .bind (.request _) fun _ => .mapM fun _ _ => .bind (passes_copyBytes _ _) fun _ => .pure _

theorem passes_parseOptionalBits (count : Nat) : ReadingPasses fatal (parseOptionalBits count) :=
  .bind passes_readU8 fun _ => .ite (passes_parseBits _) (.pure _)

section

variable {readValue : Reading α} (h : ReadingPasses fatal readValue)
include h

theorem passes_readDefinedValues (defined : List Bool) :
    ReadingPasses fatal (readDefinedValues readValue defined) := by
  induction defined with
  | nil => exact .pure _
  | cons isDefined defined ih =>
    exact .bind (.checkpoint _) fun _ => .bind (.ite (.map h) (.pure _)) fun _ =>
      .bind ih fun _ => .pure _

theorem passes_parseDefinedValues (data : List UInt8) (count : Nat) :
    Passes fatal (parseDefinedValues data count readValue) :=
  .bind (passes_parseOptionalBits _ _) fun _ => .bind (passes_readU8 _) fun _ =>
    .ite (.bind (passes_readUint _) fun _ => .step fun _ => .pure _)
      (.bind (passes_readDefinedValues h _ _) fun _ => .step fun _ => .pure _)

end

theorem passes_parsePlainBits (property : RawProperty) (count : Nat) :
    Passes fatal (parsePlainBits property count) :=
  .bind (passes_parseBits _ _) fun _ => .step fun _ => .pure _

theorem passes_readCodeUnit : ReadingPasses fatal readCodeUnit :=
  .bind (.reading _) fun _ => .bind (.checkpoint _) fun _ => .pure _

theorem passes_scanNames (limits : Limits) (fuel names currentBytes totalBytes : Nat) :
    ReadingPasses fatal (scanNames limits fuel names currentBytes totalBytes) := by
  induction fuel generalizing names currentBytes totalBytes with
  | zero =>
    cases names with
    | zero => exact .pure _
    | succ names => exact .throw _
  | succ fuel ih =>
    cases names with
    | zero => exact .pure _
    | succ names =>
      exact .bind passes_readCodeUnit fun _ => .ite
        (.step fun _ => .step fun _ => .step fun _ => ih _ _ _)
        (.step fun _ => .step fun _ => ih _ _ _)

theorem passes_readName (fuel : Nat) : ReadingPasses fatal (readName fuel) := by
  induction fuel with
  | zero => exact .throw _
  | succ fuel ih =>
    exact .bind passes_readCodeUnit fun _ => .ite (.pure _) (.bind ih fun _ => .pure _)

theorem passes_parseNames (data : List UInt8) (count : Nat) (limits : Limits) :
    Passes fatal (parseNames data count limits) :=
  .bind (passes_readU8 _) fun _ => .ite (.bind (passes_readUint _) fun _ => .step fun _ => .pure _)
      (.bind (passes_scanNames _ _ _ _ _ _) fun _ => .step fun _ => .bind (passes_readU8 _) fun _ =>
        .step fun _ => .bind (passes_repeatReading (.map (passes_readName _)) _ _) fun _ =>
        .step fun _ => .pure _)

theorem passes_placeProperty (slots : FilePropertySlots) (property : RawProperty) :
    Passes fatal (placeProperty slots property) := by
  unfold placeProperty
  iterate 9 refine .ite (.step fun _ => .pure _) ?_
  exact .ite (.step fun _ => .pure _) (.bind (passes_copyBytes _ _) fun _ => .pure _)

theorem passes_optionalPlainBits (property : Option RawProperty) (count : Nat) :
    Passes fatal (optionalPlainBits property count) := by
  cases property with
  | none => exact .pure _
  | some property => exact passes_parsePlainBits _ _

theorem passes_optionalValues {propertyId : UInt8} {property : Option RawProperty}
    {parse : List UInt8 → Metered (PropertyValues α)} {additionalCount : Nat}
    {external : List ExternalProperty} (h : ∀ data, Passes fatal (parse data)) :
    Passes fatal (optionalValues propertyId property parse additionalCount external) := by
  cases property with
  | none => exact .pure _
  | some property => exact .bind (h _) fun _ => .lift _

theorem passes_fileEntries (vectors : FileVectors)
    (remaining fileIndex emptyCursor streamCursor : Nat) :
    Passes fatal (fileEntries vectors remaining fileIndex emptyCursor streamCursor) := by
  induction remaining generalizing fileIndex emptyCursor streamCursor with
  | zero => exact .pure _
  | succ remaining ih =>
    exact .bind (.request _) fun _ => .step fun _ => .step fun _ => .step fun _ => .step fun _ =>
      .step fun _ => .step fun _ => .step fun _ => .step fun _ => .step fun _ =>
      .bind (ih _ _ _) fun _ => .pure _

theorem passes_validateFiles (raw : RawFilesInfo)
    (mainStreams additionalStreams : Option StreamsInfo) (limits : Limits) :
    Passes fatal (validateFiles raw mainStreams additionalStreams limits) := by
  refine .bind (.request _) fun _ => .bind (.foldlM fun _ _ _ => passes_placeProperty _ _) fun _ =>
    .bind (passes_optionalPlainBits _ _) fun _ => .bind (passes_optionalPlainBits _ _) fun _ =>
    .bind (passes_optionalPlainBits _ _) fun _ =>
    .bind (passes_optionalValues fun _ => passes_parseNames _ _ _) fun _ => ?_
  iterate 3
    refine .bind (passes_optionalValues fun _ => passes_parseDefinedValues passes_readU64 _ _)
      fun _ => ?_
  refine .bind (passes_optionalValues fun _ => passes_parseDefinedValues passes_readU32Le _ _)
    fun _ => .bind (passes_optionalValues fun _ => passes_parseDefinedValues passes_readU64 _ _)
    fun _ => ?_
  exact .bind (passes_collectStreamMappings _) fun _ => .step fun _ =>
    .bind (passes_fileEntries _ _ _ _ _) fun _ => .step fun _ => .pure _

theorem passes_validateOptionalStreams (raw : Option RawStreamsInfo) (envelope : HeaderEnvelope)
    (archiveBytes : List UInt8) (limits : Limits) (ranges : List (Nat × Nat)) :
    Passes fatal (validateOptionalStreams raw envelope archiveBytes limits ranges) := by
  cases raw with
  | none => exact .pure _
  | some streams => exact .bind (passes_validateStreams _ _ _ _ _) fun _ => .pure _

theorem passes_validateOptionalFiles (raw : Option RawFilesInfo)
    (mainStreams additionalStreams : Option StreamsInfo) (limits : Limits) :
    Passes fatal (validateOptionalFiles raw mainStreams additionalStreams limits) := by
  cases raw with
  | none => exact .pure _
  | some files => exact .map (passes_validateFiles _ _ _ _)

theorem passes_validatePlainHeader (raw : RawHeader) (envelope : HeaderEnvelope)
    (archiveBytes : List UInt8) (limits : Limits) :
    Passes fatal (validatePlainHeader raw envelope archiveBytes limits) :=
  .bind (passes_validateOptionalStreams _ _ _ _ _) fun _ =>
    .bind (passes_validateOptionalStreams _ _ _ _ _) fun _ => .step fun _ =>
    .bind (passes_validateOptionalFiles _ _ _ _) fun _ =>
    .bind (passes_copyProperties _) fun _ => .pure _

theorem passes_validateNextHeader (raw : RawNextHeader) (envelope : HeaderEnvelope)
    (archiveBytes : List UInt8) (limits : Limits) :
    Passes fatal (validateNextHeader raw envelope archiveBytes limits) := by
  cases raw with
  | header header => exact .map (passes_validatePlainHeader _ _ _ _)
  | externalFolders pending =>
    exact .bind (passes_validateStreams _ _ _ _ _) fun _ => .step fun _ =>
      .bind (passes_validatePackRanges _ _ _ _) fun _ => .step fun _ => .step fun _ =>
      .bind (passes_copyBytes _ _) fun _ => .pure _
  | encoded streams =>
    exact .bind (passes_validateStreams _ _ _ _ _) fun _ => .step fun _ => .pure _

theorem passes_parseCandidate (bytes : List UInt8) (signatureOffset : Nat) (limits : Limits) :
    Passes fatal (parseCandidate bytes signatureOffset limits) :=
  .bind (.request _) fun _ => .step fun _ => .step fun _ => .step fun _ =>
    .bind (passes_checksumWithControl _ _) fun _ => .step fun _ => .step fun _ => .step fun _ =>
    .step fun _ => .step fun _ => .step fun _ => .bind (passes_checksumWithControl _ _) fun _ =>
    .step fun _ => .step fun _ => .pure _

theorem passes_validatedCandidate (bytes : List UInt8) (limits : Limits) (signatureOffset : Nat) :
    Passes fatal (validatedCandidate bytes limits signatureOffset) :=
  .bind (passes_parseCandidate _ _ _) fun _ => .step fun _ =>
    .bind (passes_parseNextHeader _ _ _) fun _ => .bind (passes_validateNextHeader _ _ _ _) fun _ =>
    .pure _

theorem passes_scanCandidates {candidate : Nat → Metered α}
    (hcandidate : ∀ offset, Passes (fun e => candidateErrorIsFatal e = true) (candidate offset))
    (rest : List (List UInt8 × Nat)) (firstError : Option Error) :
    Passes (fun e => candidateErrorIsFatal e = true)
      (scanCandidates candidate rest firstError) := by
  induction rest generalizing firstError with
  | nil =>
    cases firstError with
    | none => exact .throw _
    | some e => exact .throw _
  | cons window rest ih =>
    refine .bind (.request _) fun _ => .ite (ih _) (.attempt_bind (hcandidate _) (fun r => ?_) ?_)
    · cases r with
      | ok value => exact .pure _
      | error e => exact .ite (.throw _) (ih _)
    · intro e he
      exact if_pos he

theorem passes_parseArchive (bytes : List UInt8) (limits : Limits) :
    Passes (fun e => candidateErrorIsFatal e = true) (parseArchive bytes limits) := by
  refine .step fun _ => .ite (passes_validatedCandidate _ _ _)
    (.step fun scan => ?_)
  cases scan with
  | none => exact .throw _
  | some scanBytes => exact passes_scanCandidates (fun _ => passes_validatedCandidate _ _ _) _ _

end Unpackio
