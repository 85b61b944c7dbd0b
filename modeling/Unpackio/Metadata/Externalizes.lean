/-
External file properties mean the same as inline ones.

`readFiles` reads the file list of a header as `parser.rs` does, with
`validate_files` and then `resolve_external_properties`.  Its entries are a
function of the payloads alone, so moving payloads into additional streams
changes nothing.
-/
import Unpackio.Metadata.Slots
import Unpackio.Execute.Evaluation

namespace Unpackio

open Prog (granted_bind_eq_ok granted_lift_bind granted_pure_eq_ok granted_rest)

def readFiles (decodeCoder : CoderDecoder) (archiveBytes : List UInt8) (raw : RawFilesInfo)
    (mainStreams : Option StreamsInfo) (additionalStreams : StreamsInfo) (limits : Limits)
    (maximumOutput : Nat) : Metered (List FileEntry) := do
  let files ← validateFiles raw mainStreams (some additionalStreams) limits
  let header : ArchiveHeader :=
    { archiveProperties := [], additionalStreams := some additionalStreams,
      mainStreams := mainStreams, files := some files }
  let (header, _) ← resolveExternalProperties decodeCoder header archiveBytes limits maximumOutput
  return header.files.elim [] FilesInfo.entries

theorem processAdditionalFolders_short {decodeCoder : CoderDecoder} {archiveBytes : List UInt8}
    {streams : StreamsInfo} {limits : Limits} {maximumOutput : Nat} {folders : List Folder}
    {folderIndex totalOutput : Nat} {outputs : List DecodedAdditionalStream} {finalOutput : Nat}
    (h : (processAdditionalFolders decodeCoder archiveBytes streams limits maximumOutput folders
      folderIndex totalOutput).granted = .ok (outputs, finalOutput)) :
    ∀ stream ∈ outputs, stream.bytes.length < 2 ^ 64 := by
  induction folders generalizing folderIndex totalOutput outputs with
  | nil =>
    cases granted_pure_eq_ok.mp h
    exact fun _ h => (nomatch h)
  | cons folder folders ih =>
    obtain ⟨_, h⟩ := granted_rest h
    obtain ⟨_, h⟩ := granted_rest h
    obtain ⟨_, h⟩ := granted_rest h
    obtain ⟨decodedFolder, -, h⟩ := granted_bind_eq_ok.mp h
    obtain ⟨total, htotal, h⟩ := granted_bind_eq_ok.mp h
    obtain ⟨_, h⟩ := granted_rest h
    obtain ⟨_, h⟩ := granted_rest h
    obtain ⟨_, h⟩ := granted_rest h
    obtain ⟨⟨rest, _⟩, hrest, h⟩ := granted_bind_eq_ok.mp h
    cases granted_pure_eq_ok.mp h
    obtain ⟨hlt, -⟩ := checkedAdd_eq_ok.mp htotal
    refine List.forall_mem_cons.mpr ⟨?_, ih hrest⟩
    simp only
    omega

theorem decodeAdditionalStreams_streams {decodeCoder : CoderDecoder} {archiveBytes : List UInt8}
    {streams : StreamsInfo} {limits : Limits} {maximumOutput : Nat}
    {decoded : DecodedAdditionalStreams}
    (h : (decodeAdditionalStreams decodeCoder archiveBytes streams limits maximumOutput).granted =
      .ok decoded) :
    decoded.streams.length = streams.folders.length ∧
      ∀ stream ∈ decoded.streams, stream.bytes.length < 2 ^ 64 := by
  obtain ⟨⟨outputs, total⟩, houtputs, h⟩ := granted_bind_eq_ok.mp h
  obtain ⟨_, hcount, h⟩ := granted_bind_eq_ok.mp h
  cases granted_pure_eq_ok.mp h
  exact ⟨Decidable.not_not.mp (rejectIf_eq_ok.mp hcount), processAdditionalFolders_short houtputs⟩

theorem initialNameBytes_of_allowed {limits : Limits} {values : FieldValues}
    {names : List (List UInt16)} (hnames : values .name = some (names.map some))
    (base : List FileEntry) (start : Nat) {total : Nat}
    (hlength : names.length = start + base.length)
    (hallowed : NamesAllowed limits 0 total (names.drop start)) :
    ∃ sum, initialNameBytes (values.entries base start) total = .ok sum := by
  induction base generalizing start total with
  | nil => exact ⟨total, rfl⟩
  | cons entry base ih =>
    rw [List.length_cons] at hlength
    have hlt : start < names.length := by omega
    rw [List.drop_eq_getElem_cons hlt] at hallowed
    obtain ⟨hshort, -, hsum, -, hrest⟩ := hallowed
    rw [Nat.zero_add] at hshort hsum hrest
    obtain ⟨sum, hok⟩ := ih (start + 1) (by omega) hrest
    have hname : (values.entry entry start).rawName = some names[start] := by
      show ((values .name).bind fun items => items[start]?).join = _
      rw [hnames, Option.bind_some, List.getElem?_map, List.getElem?_eq_getElem hlt]
      rfl
    refine ⟨sum, ?_⟩
    rw [FieldValues.entries, initialNameBytes]
    simp only [hname, Option.getD_some]
    rw [rejectIf_of_not (Nat.not_le_of_lt hshort), Except.ok_bind, checkedAdd_bind hsum]
    exact hok

theorem initialNameBytes_of_none {values : FieldValues} (hnames : values .name = none)
    (base : List FileEntry) (start total : Nat) (htotal : total < 2 ^ 64) :
    initialNameBytes (values.entries base start) total = .ok total := by
  induction base generalizing start with
  | nil => rfl
  | cons entry base ih =>
    have hname : (values.entry entry start).rawName = none :=
      FieldValues.valueAt_of_none hnames start
    rw [FieldValues.entries, initialNameBytes]
    simp only [hname, Option.getD_none, List.length_nil, Nat.mul_zero]
    rw [rejectIf_of_not (by decide), Except.ok_bind, checkedAdd_bind (by omega), Nat.add_zero]
    exact ih (start + 1)

theorem readU8_new {data : List UInt8} {byte : UInt8} {reader : BoundedReader}
    (hlen : data.length < 2 ^ 64) (h : (readU8 (.new data)).granted = .ok (byte, reader)) :
    ∃ rest, data = byte :: rest := by
  cases data with
  | nil => exact (nomatch h)
  | cons first rest =>
    have hread := reads_readU8 first [] rest hlen
    cases h.symm.trans hread
    exact ⟨rest, rfl⟩

theorem parseNames_inline {limits : Limits} {count : Nat} {data : List UInt8}
    {items : List (Option (List UInt16))} (hlen : data.length < 2 ^ 64)
    (h : (parseNames data count limits).granted = .ok (.inline items)) :
    ∃ payload names, data = 0 :: payload ∧ NamePayload limits count payload names ∧
      items = names.map some := by
  obtain ⟨⟨flag, scan⟩, hflag, hrest⟩ := granted_bind_eq_ok.mp h
  obtain ⟨payload, rfl⟩ := readU8_new hlen hflag
  by_cases hzero : flag ≠ 0
  · simp only [if_pos hzero] at hrest
    obtain ⟨_, hrest⟩ := granted_rest hrest
    obtain ⟨_, hrest⟩ := granted_rest hrest
    cases granted_pure_eq_ok.mp hrest
  · obtain rfl : flag = 0 := Decidable.not_not.mp hzero
    obtain ⟨names, hnames, heq⟩ := (parseNames_inline_iff hlen).mp h
    cases heq
    exact ⟨payload, names, rfl, hnames, rfl⟩

theorem drafted_initialNameBytes {limits : Limits} {count additionalCount : Nat}
    {slot : Option RawProperty} {values : FieldValues} {external : List ExternalProperty}
    (hdraft : Field.name.Drafted limits count additionalCount slot (values .name) external)
    (hdata : ∀ property, slot = some property → property.data.length < 2 ^ 64)
    {base : List FileEntry} (hbase : base.length = count) :
    ∃ total, initialNameBytes (values.entries base 0) 0 = .ok total ∧
      (external ≠ [] → total = 0) := by
  cases hvalues : values .name with
  | none => exact ⟨0, initialNameBytes_of_none hvalues base 0 0 (by decide), fun _ => rfl⟩
  | some items =>
    rw [hvalues] at hdraft
    cases slot with
    | none => exact (nomatch hdraft.1)
    | some property =>
      obtain ⟨items', hparsed, hsome, rfl⟩ | ⟨_, _, -, -, hnone, -⟩ := hdraft
      · cases hsome
        obtain ⟨payload, names, -, hnames, rfl⟩ := parseNames_inline (hdata property rfl) hparsed
        obtain ⟨total, htotal⟩ := initialNameBytes_of_allowed hvalues base 0
          (by rw [hnames.count_eq, hbase, Nat.zero_add]) hnames.allowed
        exact ⟨total, htotal, fun h => absurd rfl h⟩
      · exact (nomatch hnone)

theorem placed_data_short {properties : List RawProperty} {slots : FilePropertySlots}
    (hdata : ∀ property ∈ properties, property.data.length < 2 ^ 64)
    (h : (properties.foldlM placeProperty FilePropertySlots.empty).granted = .ok slots)
    (field : Field) (property : RawProperty) (hproperty : slots.property field = some property) :
    property.data.length < 2 ^ 64 := by
  have hself : List.Forall₂ (fun property property' : RawProperty => property = property' ∧
      property.data.length < 2 ^ 64) properties properties :=
    List.forall₂_same.mpr fun property hmem => ⟨rfl, hdata property hmem⟩
  obtain ⟨slots', hslots', hrelated⟩ := foldlM_placeProperty_related
    (fun property property' h => ⟨congrArg RawProperty.id h.1, fun _ => h.1⟩) hself
    (FilePropertySlots.empty_related _) h
  cases h.symm.trans hslots'
  have hrel := hrelated.property_rel field
  rw [hproperty] at hrel
  cases hrel with
  | some h => exact h.2.2.2

theorem Field.Resolves.drafted {limits : Limits} {count additionalCount : Nat}
    {streams : List DecodedAdditionalStream} {field : Field} {slot : Option RawProperty}
    {resolved : Option (List (Option field.Value))}
    (h : field.Resolves limits count streams slot resolved)
    (hcount : streams.length = additionalCount) :
    ∃ values external, field.Drafted limits count additionalCount slot values external := by
  cases slot with
  | none => exact ⟨none, [], rfl, rfl⟩
  | some property =>
    obtain ⟨items, hparsed, -⟩ | ⟨index, defined, stream, _, hparsed, hstream, -⟩ := h
    · exact ⟨_, _, .inl ⟨items, hparsed, rfl, rfl⟩⟩
    · obtain ⟨hlt, -⟩ := List.getElem?_eq_some_iff.mp hstream
      exact ⟨_, _, .inr ⟨index, defined, hparsed, hcount ▸ hlt, rfl, rfl⟩⟩

variable {entries : List FileEntry} {property : RawProperty}

section

variable {decodeCoder : CoderDecoder} {archiveBytes : List UInt8} {raw : RawFilesInfo}
  {mainStreams : Option StreamsInfo} {additionalStreams : StreamsInfo} {limits : Limits}
  {maximumOutput : Nat} {decoded : DecodedAdditionalStreams}

variable
  (hdecoded : (decodeAdditionalStreams decodeCoder archiveBytes additionalStreams limits
    maximumOutput).granted = .ok decoded)
include hdecoded

theorem resolveExternalProperties_iff (header : ArchiveHeader)
    (hadditional : header.additionalStreams = some additionalStreams) (files : FilesInfo)
    (hfiles : header.files = some files) {total : Nat}
    (htotal : initialNameBytes files.entries 0 = .ok total) :
    (∃ resolved size, (resolveExternalProperties decodeCoder header archiveBytes limits
        maximumOutput).granted = .ok (resolved, size) ∧
          resolved.files.elim [] FilesInfo.entries = entries) ↔
      (applyExternalLoop decoded limits files.externalProperties files.entries total).granted =
        .ok entries := by
  unfold resolveExternalProperties
  simp only [hfiles]
  by_cases hnil : files.externalProperties = []
  · rw [if_pos hnil, hnil]
    constructor
    · rintro ⟨resolved, size, h, rfl⟩
      cases granted_pure_eq_ok.mp h
      rw [hfiles]
      rfl
    · intro h
      refine ⟨header, 0, rfl, ?_⟩
      rw [hfiles]
      exact granted_pure_eq_ok.mp h
  · rw [if_neg hnil, hadditional]
    unfold applyExternalProperties
    simp only [hfiles, if_neg hnil]
    constructor
    · rintro ⟨resolved, size, h, rfl⟩
      obtain ⟨_, hstreams, h⟩ := granted_bind_eq_ok.mp h
      cases hstreams
      obtain ⟨_, hdecoded', h⟩ := granted_bind_eq_ok.mp h
      cases hdecoded.symm.trans hdecoded'
      obtain ⟨_, happlied, h⟩ := granted_bind_eq_ok.mp h
      cases granted_pure_eq_ok.mp h
      obtain ⟨_, htotal', happlied⟩ := granted_bind_eq_ok.mp happlied
      cases htotal.symm.trans htotal'
      obtain ⟨_, hloop, happlied⟩ := granted_bind_eq_ok.mp happlied
      cases granted_pure_eq_ok.mp happlied
      exact hloop
    · intro h
      refine ⟨{ header with files := some { files with entries := entries } }, decoded.totalBytes,
        ?_, rfl⟩
      refine granted_bind_eq_ok.mpr ⟨additionalStreams, rfl, ?_⟩
      refine granted_bind_eq_ok.mpr ⟨decoded, hdecoded, ?_⟩
      refine granted_bind_eq_ok.mpr
        ⟨{ header with files := some { files with entries := entries } }, ?_, rfl⟩
      refine granted_bind_eq_ok.mpr ⟨total, htotal, ?_⟩
      exact granted_bind_eq_ok.mpr ⟨entries, h, rfl⟩

theorem readFiles_iff (hdata : ∀ property ∈ raw.properties, property.data.length < 2 ^ 64) :
    (readFiles decodeCoder archiveBytes raw mainStreams additionalStreams limits
        maximumOutput).granted = .ok entries ↔
      ∃ (slots : FilePropertySlots) (base : List FileEntry) (resolved : FieldValues),
        (raw.properties.foldlM placeProperty FilePropertySlots.empty).granted = .ok slots ∧
        FilesBase raw.count mainStreams slots base ∧
        (∀ field : Field, field.Resolves limits raw.count decoded.streams (slots.property field)
          (resolved field)) ∧
        entries = resolved.entries base 0 := by
  obtain ⟨hcount, hshort⟩ := decodeAdditionalStreams_streams hdecoded
  have hall : ∀ field : Field, field ∈ Field.all := fun field => by cases field <;> decide
  constructor
  · intro h
    obtain ⟨files, hfiles, h⟩ := granted_bind_eq_ok.mp h
    obtain ⟨⟨header, size⟩, hheader, hentries⟩ := granted_bind_eq_ok.mp h
    obtain ⟨slots, values, external, base, hslots, hdraft, hbase, rfl⟩ :=
      validateFiles_iff.mp hfiles
    obtain ⟨total, htotal, hzero⟩ := drafted_initialNameBytes (hdraft .name)
      (placed_data_short hdata hslots .name) hbase.length_eq
    have hloop := (resolveExternalProperties_iff hdecoded _ rfl _ rfl htotal).mp
      ⟨header, size, hheader, granted_pure_eq_ok.mp hentries⟩
    obtain ⟨resolved, hresolves, -, rfl⟩ := (applyExternalLoop_iff hshort Field.all (by decide)
      (by decide) (fun field _ => hdraft field) hbase.length_eq fun _ => hzero).mp hloop
    exact ⟨slots, base, resolved, hslots, hbase, fun field => hresolves field (hall field), rfl⟩
  · rintro ⟨slots, base, resolved, hslots, hbase, hresolves, rfl⟩
    choose values external hdraft using fun field => (hresolves field).drafted hcount
    obtain ⟨total, htotal, hzero⟩ := drafted_initialNameBytes (hdraft .name)
      (placed_data_short hdata hslots .name) hbase.length_eq
    have hloop := (applyExternalLoop_iff hshort Field.all (by decide) (by decide)
      (fun field _ => hdraft field) hbase.length_eq fun _ => hzero).mpr
      ⟨resolved, fun field _ => hresolves field, fun field h => absurd (hall field) h, rfl⟩
    have hfiles := validateFiles_iff.mpr
      ⟨slots, values, external, base, hslots, hdraft, hbase, rfl⟩
    let files : FilesInfo :=
      { entries := FieldValues.entries values base 0,
        externalProperties := Field.all.flatMap external, unknownProperties := slots.unknown }
    obtain ⟨header, size, hheader, hentries⟩ := (resolveExternalProperties_iff hdecoded
      { archiveProperties := [], additionalStreams := some additionalStreams,
        mainStreams := mainStreams, files := some files } rfl files rfl htotal).mpr hloop
    refine granted_bind_eq_ok.mpr ⟨_, hfiles, ?_⟩
    refine granted_bind_eq_ok.mpr ⟨(header, size), hheader, ?_⟩
    exact granted_pure_eq_ok.mpr hentries

end

/-- The second property is the first, or holds in an additional stream what the
first holds behind its external flag.  `bits` spells out which files have a
value. -/
inductive Externalizes (count : Nat) (streams : List DecodedAdditionalStream) :
    RawProperty → RawProperty → Prop where
  | same (property : RawProperty) : Externalizes count streams property property
  | name {payload indexBytes : List UInt8} {flag : UInt8} {index : Nat} {encrypted : Bool}
      (flag_ne : flag ≠ 0) (index_reads : Reads readUint indexBytes index)
      (stream_eq : streams[index]? = some ⟨payload, encrypted⟩) :
      Externalizes count streams ⟨idName, 0 :: payload⟩ ⟨idName, flag :: indexBytes⟩
  | values {id : UInt8} {bits payload indexBytes : List UInt8} {defined : List Bool}
      {flag : UInt8} {index : Nat} {encrypted : Bool}
      (id_mem : id ∈ [idCtime, idAtime, idMtime, idWinAttributes, idStartPos])
      (bits_reads : Reads (parseOptionalBits count) bits defined)
      (flag_ne : flag ≠ 0) (index_reads : Reads readUint indexBytes index)
      (stream_eq : streams[index]? = some ⟨payload, encrypted⟩) :
      Externalizes count streams ⟨id, bits ++ 0 :: payload⟩ ⟨id, bits ++ flag :: indexBytes⟩

theorem reads_parseOptionalBits (defined : List Bool) :
    Reads (parseOptionalBits defined.length) (0 :: writeBits defined) defined := by
  refine reads_readU8_bind ?_
  rw [if_pos rfl]
  exact reads_parseBits defined

theorem parseNames_external {limits : Limits} {count index : Nat} {indexBytes : List UInt8}
    {flag : UInt8} (hflag : flag ≠ 0) (hindex : Reads readUint indexBytes index)
    (hlen : (flag :: indexBytes).length < 2 ^ 64) :
    (parseNames (flag :: indexBytes) count limits).granted =
      .ok (.external index (List.replicate count true)) := by
  have hread := reads_readU8 flag [] indexBytes hlen
  have hreads := hindex [flag] [] (by simpa using hlen)
  rw [List.append_nil] at hreads
  unfold parseNames
  rw [Prog.granted_bind, show (readU8 (.new (flag :: indexBytes))).granted = _ from hread,
    Except.ok_bind]
  simp only [if_pos hflag, List.nil_append]
  rw [Prog.granted_bind, hreads, Except.ok_bind, granted_lift_bind, BoundedReader.finish_split,
    if_pos rfl]
  rfl

namespace Field

variable {limits : Limits} {count : Nat} {streams : List DecodedAdditionalStream} {field : Field}
  {defined : List Bool} {payload : List UInt8} {resolved : Option (List (Option field.Value))}

theorem resolves_of_inline
    (hparse : ∀ values, (field.parse limits count property.data).granted = .ok values ↔
      ∃ items, field.Payload limits count defined payload items ∧ values = .inline items) :
    field.Resolves limits count streams (some property) resolved ↔
      ∃ items, field.Payload limits count defined payload items ∧ resolved = some items := by
  constructor
  · rintro (⟨items, hparsed, rfl⟩ | ⟨index, defined', stream, items, hparsed, -⟩)
    · obtain ⟨_, hitems, heq⟩ := (hparse _).mp hparsed
      cases heq
      exact ⟨items, hitems, rfl⟩
    · obtain ⟨_, -, heq⟩ := (hparse _).mp hparsed
      exact (nomatch heq)
  · rintro ⟨items, hitems, rfl⟩
    exact .inl ⟨items, (hparse _).mpr ⟨items, hitems, rfl⟩, rfl⟩

theorem resolves_of_external {index : Nat} {encrypted : Bool}
    (hparse : (field.parse limits count property.data).granted = .ok (.external index defined))
    (hstream : streams[index]? = some ⟨payload, encrypted⟩) :
    field.Resolves limits count streams (some property) resolved ↔
      ∃ items, field.Payload limits count defined payload items ∧ resolved = some items := by
  constructor
  · rintro (⟨items, hparsed, -⟩ | ⟨index', defined', stream, items, hparsed, hstream', h⟩)
    · exact (nomatch hparse.symm.trans hparsed)
    · cases hparse.symm.trans hparsed
      cases hstream.symm.trans hstream'
      exact ⟨items, h⟩
  · rintro ⟨items, h⟩
    exact .inr ⟨index, defined, _, items, hparse, hstream, h⟩

theorem resolves_moved {id id' : UInt8} {data data' : List UInt8} {index : Nat} {encrypted : Bool}
    (hinline : ∀ values, (field.parse limits count data).granted = .ok values ↔
      ∃ items, field.Payload limits count defined payload items ∧ values = .inline items)
    (hexternal : (field.parse limits count data').granted = .ok (.external index defined))
    (hstream : streams[index]? = some ⟨payload, encrypted⟩) :
    field.Resolves limits count streams (some ⟨id, data⟩) resolved ↔
      field.Resolves limits count streams (some ⟨id', data'⟩) resolved :=
  (resolves_of_inline hinline).trans (resolves_of_external hexternal hstream).symm

end Field

section

variable {count : Nat} {streams : List DecodedAdditionalStream} {property' : RawProperty}
  (h : Externalizes count streams property property')
include h

theorem Externalizes.resolves_iff {limits : Limits} {field : Field} (hid : property.id = field.id)
    (hlen : property.data.length < 2 ^ 64) (hlen' : property'.data.length < 2 ^ 64)
    (resolved : Option (List (Option field.Value))) :
    field.Resolves limits count streams (some property) resolved ↔
      field.Resolves limits count streams (some property') resolved := by
  cases h with
  | same => exact Iff.rfl
  | name flag_ne index_reads stream_eq =>
    obtain rfl : Field.name = field := Field.id_injective hid
    refine Field.resolves_moved (fun values => ?_)
      (parseNames_external flag_ne index_reads hlen') stream_eq
    refine (parseNames_inline_iff hlen).trans ?_
    constructor
    · rintro ⟨names, hnames, rfl⟩
      exact ⟨names.map some, ⟨rfl, names, hnames, rfl⟩, rfl⟩
    · rintro ⟨_, ⟨-, names, hnames, rfl⟩, rfl⟩
      exact ⟨names, hnames, rfl⟩
  | values id_mem bits_reads flag_ne index_reads stream_eq =>
    obtain rfl := hid
    cases field with
    | name => exact absurd id_mem (by decide)
    | attributes =>
      exact Field.resolves_moved
        (fun values => parseDefinedValues_inline_iff consumes_readU32Le bits_reads hlen)
        (parseDefinedValues_external bits_reads flag_ne index_reads hlen') stream_eq
    | creation | access | modification | startPosition =>
      exact Field.resolves_moved
        (fun values => parseDefinedValues_inline_iff consumes_readU64 bits_reads hlen)
        (parseDefinedValues_external bits_reads flag_ne index_reads hlen') stream_eq

theorem Externalizes.id_eq :
    property.id = property'.id ∧
      ((∀ field : Field, property.id ≠ field.id) → property = property') := by
  cases h with
  | same => exact ⟨rfl, fun _ => rfl⟩
  | name => exact ⟨rfl, fun hother => absurd rfl (hother .name)⟩
  | values id_mem =>
    refine ⟨rfl, fun hother => ?_⟩
    simp only [List.mem_cons, List.not_mem_nil, or_false] at id_mem
    rcases id_mem with h | h | h | h | h
    · exact absurd h (hother .creation)
    · exact absurd h (hother .access)
    · exact absurd h (hother .modification)
    · exact absurd h (hother .attributes)
    · exact absurd h (hother .startPosition)

end

theorem readFiles_of_related (Rel : RawProperty → RawProperty → Prop) {decodeCoder : CoderDecoder}
    {archiveBytes : List UInt8} {raw raw' : RawFilesInfo} {mainStreams : Option StreamsInfo}
    {additionalStreams : StreamsInfo} {limits : Limits} {maximumOutput : Nat}
    {decoded : DecodedAdditionalStreams}
    (hdecoded : (decodeAdditionalStreams decodeCoder archiveBytes additionalStreams limits
      maximumOutput).granted = .ok decoded)
    (hdata : ∀ property ∈ raw.properties, property.data.length < 2 ^ 64)
    (hdata' : ∀ property ∈ raw'.properties, property.data.length < 2 ^ 64)
    (hcount : raw.count = raw'.count) (hRel : KeepsOthers Rel)
    (hproperties : List.Forall₂ Rel raw.properties raw'.properties)
    (hresolves : ∀ property property' (field : Field) resolved, Rel property property' →
      property.id = field.id → property.data.length < 2 ^ 64 → property'.data.length < 2 ^ 64 →
      field.Resolves limits raw.count decoded.streams (some property) resolved →
      field.Resolves limits raw.count decoded.streams (some property') resolved)
    (h : (readFiles decodeCoder archiveBytes raw mainStreams additionalStreams limits
      maximumOutput).granted = .ok entries) :
    (readFiles decodeCoder archiveBytes raw' mainStreams additionalStreams limits
      maximumOutput).granted = .ok entries := by
  obtain ⟨slots, base, resolved, hslots, hbase, hvalues, rfl⟩ := (readFiles_iff hdecoded hdata).mp h
  obtain ⟨slots', hslots', hrelated⟩ :=
    foldlM_placeProperty_related hRel hproperties (FilePropertySlots.empty_related Rel) hslots
  refine (readFiles_iff hdecoded hdata').mpr
    ⟨slots', base, resolved, hslots', hcount ▸ hrelated.base hbase, fun field => ?_, rfl⟩
  have hshort := placed_data_short hdata hslots field
  have hshort' := placed_data_short hdata' hslots' field
  have hfield := hvalues field
  have hrel := hrelated.property_rel field
  rw [← hcount]
  cases hslot : slots.property field with
  | none =>
    cases hslot' : slots'.property field with
    | none => rwa [hslot] at hfield
    | some property' => rw [hslot, hslot'] at hrel; exact (nomatch hrel)
  | some property =>
    cases hslot' : slots'.property field with
    | none => rw [hslot, hslot'] at hrel; exact (nomatch hrel)
    | some property' =>
      rw [hslot, hslot'] at hrel
      rw [hslot] at hfield
      cases hrel with
      | some hrel =>
        obtain ⟨hid, -, hproperty⟩ := hrel
        exact hresolves property property' field _ hproperty hid (hshort _ hslot)
          (hshort' _ hslot') hfield

/-- Reading a header with any of the six properties external is reading it with
them inline, when the additional streams hold what was inline. -/
theorem readFiles_externalizes (decodeCoder : CoderDecoder) (archiveBytes : List UInt8)
    (raw raw' : RawFilesInfo) (mainStreams : Option StreamsInfo) (additionalStreams : StreamsInfo)
    (limits : Limits) (maximumOutput : Nat) (decoded : DecodedAdditionalStreams)
    (hdecoded : (decodeAdditionalStreams decodeCoder archiveBytes additionalStreams limits
      maximumOutput).granted = .ok decoded)
    (hdata : ∀ property ∈ raw.properties, property.data.length < 2 ^ 64)
    (hdata' : ∀ property ∈ raw'.properties, property.data.length < 2 ^ 64)
    (hcount : raw.count = raw'.count)
    (hproperties : List.Forall₂ (Externalizes raw.count decoded.streams) raw.properties
      raw'.properties)
    (entries : List FileEntry) :
    (readFiles decodeCoder archiveBytes raw' mainStreams additionalStreams limits
        maximumOutput).granted = .ok entries ↔
      (readFiles decodeCoder archiveBytes raw mainStreams additionalStreams limits
        maximumOutput).granted = .ok entries := by
  constructor
  · refine readFiles_of_related (fun property property' =>
      Externalizes raw.count decoded.streams property' property) hdecoded hdata' hdata hcount.symm
      ?_ hproperties.flip ?_
    · intro property property' h
      obtain ⟨hid, hsame⟩ := h.id_eq
      exact ⟨hid.symm, fun hother => (hsame fun field => hid ▸ hother field).symm⟩
    · intro property property' field resolved h hid hlen hlen' hfield
      rw [← hcount] at hfield ⊢
      exact (h.resolves_iff (h.id_eq.1.trans hid) hlen' hlen resolved).mpr hfield
  · refine readFiles_of_related _ hdecoded hdata hdata' hcount
      (fun property property' h => h.id_eq) hproperties ?_
    intro property property' field resolved h hid hlen hlen' hfield
    exact (h.resolves_iff hid hlen hlen' resolved).mp hfield

/-- Two empty files with names, and a modification time for the second. -/
def inlineFiles : RawFilesInfo where
  count := 2
  properties :=
    [⟨idEmptyStream, [0xc0]⟩, ⟨idName, 0 :: [0x61, 0, 0, 0, 0x62, 0, 0, 0]⟩,
      ⟨idMtime, [0, 0x40] ++ 0 :: [1, 0, 0, 0, 0, 0, 0, 0]⟩]

def externalFiles : RawFilesInfo where
  count := 2
  properties :=
    [⟨idEmptyStream, [0xc0]⟩, ⟨idName, 1 :: [0]⟩, ⟨idMtime, [0, 0x40] ++ 1 :: [1]⟩]

/-- Two Copy folders of eight bytes, behind one another. -/
def externalStreams : StreamsInfo where
  packPosition := 0
  packStreams := [⟨0, some 8, none⟩, ⟨8, some 8, none⟩]
  folders :=
    [⟨[⟨methodCopy, 0, 1, 0, 1, [], none⟩], [], [0], [some 8], 0, [0],
      none, [⟨some 8, none⟩], 0, 0⟩,
      ⟨[⟨methodCopy, 0, 1, 0, 1, [], none⟩], [], [0], [some 8], 0, [0],
        none, [⟨some 8, none⟩], 0, 1⟩]
  substreamCount := 2

def externalBytes : List UInt8 :=
  [0x61, 0, 0, 0, 0x62, 0, 0, 0] ++ [1, 0, 0, 0, 0, 0, 0, 0]

theorem decodeAdditionalStreams_externalBytes :
    (decodeAdditionalStreams copyCoder externalBytes externalStreams Limits.default 100).granted =
      .ok ⟨[⟨[0x61, 0, 0, 0, 0x62, 0, 0, 0], false⟩, ⟨[1, 0, 0, 0, 0, 0, 0, 0], false⟩], 16⟩ := by
  rfl

theorem readFiles_externalizes_two_files :
    (readFiles copyCoder externalBytes externalFiles none externalStreams Limits.default
        100).granted =
      .ok [⟨some [0x61], false, false, false, none, none, none, none, none, none⟩,
        ⟨some [0x62], false, false, false, none, none, some 1, none, none, none⟩] := by
  refine (readFiles_externalizes copyCoder externalBytes inlineFiles externalFiles none
    externalStreams Limits.default 100 _ decodeAdditionalStreams_externalBytes (by decide)
    (by decide) rfl ?_ _).mpr (by rfl)
  have hname := reads_readUint (show 0 < 2 ^ 64 by decide)
  have htime := reads_readUint (show 1 < 2 ^ 64 by decide)
  have hbits : Reads (parseOptionalBits 2) [0, 0x40] [false, true] :=
    reads_parseOptionalBits [false, true]
  exact .cons (.same _) (.cons (.name (by decide) hname rfl)
    (.cons (.values (by decide) hbits (by decide) htime rfl) .nil))

end Unpackio
