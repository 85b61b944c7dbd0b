/-
The file list behind both forms of the properties: every field has at most one
vector of values, and the entries are those vectors read across.  The loop of
`apply_external_properties` brings the external ones in.
-/
import Unpackio.Metadata.Fields

namespace Unpackio

abbrev FieldValues : Type := (field : Field) → Option (List (Option field.Value))

namespace FieldValues

def valueAt (values : FieldValues) (index : Nat) (field : Field) : Option field.Value :=
  ((values field).bind fun items => items[index]?).join

def entry (values : FieldValues) (base : FileEntry) (index : Nat) : FileEntry :=
  { base with
    rawName := values.valueAt index .name
    creationTime := values.valueAt index .creation
    accessTime := values.valueAt index .access
    modificationTime := values.valueAt index .modification
    windowsAttributes := values.valueAt index .attributes
    startPosition := values.valueAt index .startPosition }

/-- The entries from the file at `start` on. -/
def entries (values : FieldValues) : List FileEntry → Nat → List FileEntry
  | [], _ => []
  | base :: rest, start => values.entry base start :: values.entries rest (start + 1)

theorem length_entries (values : FieldValues) (base : List FileEntry) (start : Nat) :
    (values.entries base start).length = base.length := by
  induction base generalizing start with
  | nil => rfl
  | cons entry base ih => rw [entries, List.length_cons, ih, List.length_cons]

def set (values : FieldValues) (field : Field) (items : List (Option field.Value)) : FieldValues :=
  Function.update values field (some items)

theorem set_self (values : FieldValues) (field : Field) (items : List (Option field.Value)) :
    values.set field items field = some items := Function.update_self ..

theorem set_of_ne (values : FieldValues) {field other : Field} (items : List (Option field.Value))
    (h : other ≠ field) : values.set field items other = values other :=
  Function.update_of_ne h ..

theorem valueAt_set_self (values : FieldValues) {field : Field} {items : List (Option field.Value)}
    {index : Nat} {item : Option field.Value} (hitem : items[index]? = some item) :
    (values.set field items).valueAt index field = item := by
  rw [FieldValues.valueAt, set_self, Option.bind_some, hitem, Option.join_some]

theorem valueAt_set_of_ne (values : FieldValues) {field other : Field}
    (items : List (Option field.Value)) (index : Nat) (h : other ≠ field) :
    (values.set field items).valueAt index other = values.valueAt index other := by
  rw [FieldValues.valueAt, set_of_ne values items h, FieldValues.valueAt]

theorem valueAt_of_none {values : FieldValues} {field : Field} (h : values field = none)
    (index : Nat) : values.valueAt index field = none := by
  rw [FieldValues.valueAt, h]
  rfl

theorem entry_set (values : FieldValues) {field : Field} {items : List (Option field.Value)}
    (hnone : values field = none) (base : FileEntry) {index : Nat} {item : Option field.Value}
    (hitem : items[index]? = some item) :
    item.elim (values.entry base index) (field.assign (values.entry base index)) =
      (values.set field items).entry base index := by
  have hself := values.valueAt_set_self hitem
  have hother := fun other => @valueAt_set_of_ne values field other items index
  have hbefore := valueAt_of_none hnone index
  cases field <;> cases item <;>
    simp [entry, Field.assign, hself, hother, hbefore]

theorem fill_entries (values : FieldValues) {field : Field}
    (items : List (Option field.Value)) (hnone : values field = none) (base : List FileEntry)
    (start : Nat) (hlength : items.length = start + base.length) :
    field.fill (values.entries base start) (items.drop start) =
      (values.set field items).entries base start := by
  induction base generalizing start with
  | nil =>
    rw [entries, entries]
    rfl
  | cons entry base ih =>
    rw [List.length_cons] at hlength
    have hlt : start < items.length := by omega
    rw [List.drop_eq_getElem_cons hlt, entries, entries, ← ih (start + 1) (by omega),
      ← values.entry_set hnone entry (List.getElem?_eq_getElem hlt)]
    rfl

end FieldValues

namespace FileVectors

def values (vectors : FileVectors) : FieldValues
  | .name => vectors.names
  | .creation => vectors.creationTimes
  | .access => vectors.accessTimes
  | .modification => vectors.modificationTimes
  | .attributes => vectors.attributeValues
  | .startPosition => vectors.startPositions

def bare (vectors : FileVectors) : FileVectors :=
  { vectors with
    names := none, creationTimes := none, accessTimes := none, modificationTimes := none,
    attributeValues := none, startPositions := none }

end FileVectors

theorem valueAt_join {α : Type} {values : Option (List (Option α))} {index : Nat}
    (h : ∀ items, values = some items → index < items.length) (detail : String) :
    ∃ value, valueAt values index detail = .ok value ∧
      value.join = (values.bind fun items => items[index]?).join := by
  cases values with
  | none => exact ⟨none, rfl, rfl⟩
  | some items =>
    have hitem : items[index]? = some (items.get ⟨index, h items rfl⟩) :=
      List.getElem?_eq_getElem (h items rfl)
    refine ⟨some (items.get ⟨index, h items rfl⟩), ?_, ?_⟩
    · rw [valueAt, hitem]
      rfl
    · rw [Option.bind_some, hitem]

theorem fileEntries_values (vectors : FileVectors) (count start emptyCursor streamCursor : Nat)
    (hlength : ∀ field items, vectors.values field = some items → start + count ≤ items.length) :
    (fileEntries vectors count start emptyCursor streamCursor).granted =
      (fileEntries vectors.bare count start emptyCursor streamCursor).granted >>= fun y =>
        .ok (vectors.values.entries y.1 start, y.2) := by
  induction count generalizing start emptyCursor streamCursor with
  | zero => rfl
  | succ count ih =>
    have hlt : ∀ field items, vectors.values field = some items → start < items.length :=
      fun field items h => by have := hlength field items h; omega
    have hnext : ∀ field items, vectors.values field = some items →
        start + 1 + count ≤ items.length :=
      fun field items h => by have := hlength field items h; omega
    obtain ⟨name, hname, hnameJoin⟩ := valueAt_join (hlt .name) "Name vector is too short"
    obtain ⟨creation, hcreation, hcreationJoin⟩ :=
      valueAt_join (hlt .creation) "creation-time vector is too short"
    obtain ⟨access, haccess, haccessJoin⟩ :=
      valueAt_join (hlt .access) "access-time vector is too short"
    obtain ⟨modification, hmodification, hmodificationJoin⟩ :=
      valueAt_join (hlt .modification) "modification-time vector is too short"
    obtain ⟨attributes, hattributes, hattributesJoin⟩ :=
      valueAt_join (hlt .attributes) "attribute vector is too short"
    obtain ⟨position, hposition, hpositionJoin⟩ :=
      valueAt_join (hlt .startPosition) "StartPos vector is too short"
    have hbits : emptyBitsAt vectors.bare = emptyBitsAt vectors := rfl
    have hstream : streamAt vectors.bare = streamAt vectors := rfl
    have hbare : vectors.bare.emptyStreams = vectors.emptyStreams := rfl
    rw [fileEntries, fileEntries]
    simp only [Prog.granted_bind, checkpoint_granted, Except.ok_bind, Prog.granted_lift,
      Prog.granted_pure, hbits, hstream, hbare]
    cases okOr vectors.emptyStreams[start]? (formatError "EmptyStream vector is too short") with
    | error e => rfl
    | ok isEmptyStream =>
      simp only [Except.ok_bind]
      cases emptyBitsAt vectors isEmptyStream emptyCursor with
      | error e => rfl
      | ok bits =>
        simp only [Except.ok_bind]
        cases streamAt vectors isEmptyStream streamCursor with
        | error e => rfl
        | ok stream =>
          simp only [FileVectors.values] at hname hcreation haccess
          simp only [FileVectors.values] at hmodification hattributes hposition
          simp only [Except.ok_bind, hname, hcreation, haccess, hmodification, hattributes,
            hposition, ih _ _ _ hnext]
          generalize (fileEntries vectors.bare count (start + 1) bits.2 stream.2).granted = later
          simp only [FileVectors.bare, valueAt, Except.ok_bind]
          cases later with
          | error e => rfl
          | ok y =>
            simp only [Except.ok_bind, FieldValues.entries, FieldValues.entry,
              FieldValues.valueAt, hnameJoin, hcreationJoin, haccessJoin, hmodificationJoin,
              hattributesJoin, hpositionJoin]

/-! ## Resolved properties -/

open Prog (granted_bind_eq_ok granted_pure_eq_ok granted_rest)

variable {field : Field} {result : List FileEntry}

namespace Field

variable {limits : Limits} {count additionalCount : Nat} {streams : List DecodedAdditionalStream}

def Resolves (limits : Limits) (count : Nat) (streams : List DecodedAdditionalStream)
    (field : Field) (slot : Option RawProperty) (values : Option (List (Option field.Value))) :
    Prop :=
  match slot with
  | none => values = none
  | some property =>
    (∃ items, (field.parse limits count property.data).granted = .ok (.inline items) ∧
      values = some items) ∨
    ∃ index defined stream items,
      (field.parse limits count property.data).granted = .ok (.external index defined) ∧
        streams[index]? = some stream ∧
        field.Payload limits count defined stream.bytes items ∧ values = some items

/-- What `validate_files` makes of a property: its inline values, or a record of
where they are. -/
def Drafted (limits : Limits) (count additionalCount : Nat) (field : Field)
    (slot : Option RawProperty) (values : Option (List (Option field.Value)))
    (external : List ExternalProperty) : Prop :=
  match slot with
  | none => values = none ∧ external = []
  | some property =>
    (∃ items, (field.parse limits count property.data).granted = .ok (.inline items) ∧
      values = some items ∧ external = []) ∨
    ∃ index defined,
      (field.parse limits count property.data).granted = .ok (.external index defined) ∧
        index < additionalCount ∧ values = none ∧
        external = [{ propertyId := field.id, dataIndex := index, definedEntries := defined }]

variable {slot : Option RawProperty}

theorem optionalValues_iff (limits : Limits) (field : Field)
    {external external' : List ExternalProperty} {values : Option (List (Option field.Value))} :
    (optionalValues field.id slot (field.parse limits count) additionalCount external).granted =
        .ok (values, external') ↔
      ∃ added, external' = external ++ added ∧
        field.Drafted limits count additionalCount slot values added := by
  cases slot with
  | none =>
    constructor
    · intro h
      cases granted_pure_eq_ok.mp h
      exact ⟨[], (List.append_nil _).symm, rfl, rfl⟩
    · rintro ⟨_, rfl, rfl, rfl⟩
      rw [List.append_nil]
      rfl
  | some property =>
    constructor
    · intro h
      obtain ⟨parsed, hparsed, h⟩ := granted_bind_eq_ok.mp h
      cases parsed with
      | inline items =>
        cases Prog.granted_lift_eq_ok.mp h
        exact ⟨[], (List.append_nil _).symm, .inl ⟨items, hparsed, rfl, rfl⟩⟩
      | «external» index defined =>
        obtain ⟨_, hindex, h⟩ := Except.bind_eq_ok.mp (Prog.granted_lift_eq_ok.mp h)
        cases h
        refine ⟨_, rfl, .inr ⟨index, defined, hparsed, ?_, rfl, rfl⟩⟩
        exact Nat.lt_of_not_le (rejectIf_eq_ok.mp hindex)
    · rintro ⟨_, rfl, ⟨items, hparsed, rfl, rfl⟩ | ⟨index, defined, hparsed, hindex, rfl, rfl⟩⟩
      · refine granted_bind_eq_ok.mpr ⟨_, hparsed, ?_⟩
        rw [List.append_nil]
        rfl
      · refine granted_bind_eq_ok.mpr ⟨_, hparsed, ?_⟩
        refine Except.bind_eq_ok.mpr ⟨(), rejectIf_of_not (Nat.not_le_of_lt hindex) _, rfl⟩

theorem length_parseOptionalBits {reader reader' : BoundedReader} {bits : List Bool}
    (h : (parseOptionalBits count reader).granted = .ok (bits, reader')) : bits.length = count := by
  obtain ⟨allDefined, _, -, h⟩ := Reading.bind_eq_ok.mp h
  by_cases hall : allDefined = 0
  · rw [if_pos hall] at h
    exact length_parseBits h
  · rw [if_neg hall] at h
    cases Reading.pure_eq_ok.mp h
    exact List.length_replicate

def ParsedLength {α : Type} (count : Nat) : PropertyValues α → Prop
  | .inline items => items.length = count
  | .external _ defined => defined.length = count

theorem parseDefinedValues_length {α : Type} {readValue : Reading α} {data : List UInt8}
    {values : PropertyValues α}
    (h : (parseDefinedValues data count readValue).granted = .ok values) :
    ParsedLength count values := by
  obtain ⟨⟨defined, _⟩, hdefined, h⟩ := granted_bind_eq_ok.mp h
  obtain ⟨⟨flag, _⟩, -, h⟩ := granted_bind_eq_ok.mp h
  have hlength := length_parseOptionalBits hdefined
  by_cases hflag : flag ≠ 0
  · simp only [if_pos hflag] at h
    obtain ⟨⟨index, _⟩, -, h⟩ := granted_bind_eq_ok.mp h
    obtain ⟨_, h⟩ := granted_rest h
    cases granted_pure_eq_ok.mp h
    exact hlength
  · simp only [if_neg hflag] at h
    obtain ⟨⟨items, _⟩, hitems, h⟩ := granted_bind_eq_ok.mp h
    obtain ⟨_, h⟩ := granted_rest h
    cases granted_pure_eq_ok.mp h
    exact (length_readDefinedValues hitems).trans hlength

theorem parseNames_length {data : List UInt8} {values : PropertyValues (List UInt16)}
    (h : (parseNames data count limits).granted = .ok values) :
    ParsedLength count values ∧
      ∀ index defined, values = .external index defined → defined = List.replicate count true := by
  obtain ⟨⟨flag, _⟩, -, h⟩ := granted_bind_eq_ok.mp h
  by_cases hflag : flag ≠ 0
  · simp only [if_pos hflag] at h
    obtain ⟨⟨index, _⟩, -, h⟩ := granted_bind_eq_ok.mp h
    obtain ⟨_, h⟩ := granted_rest h
    cases granted_pure_eq_ok.mp h
    exact ⟨List.length_replicate, fun _ _ h => by cases h; rfl⟩
  · simp only [if_neg hflag] at h
    obtain ⟨_, h⟩ := granted_rest h
    obtain ⟨_, h⟩ := granted_rest h
    obtain ⟨_, h⟩ := granted_rest h
    obtain ⟨_, h⟩ := granted_rest h
    obtain ⟨⟨names, _⟩, hnames, h⟩ := granted_bind_eq_ok.mp h
    obtain ⟨_, h⟩ := granted_rest h
    cases granted_pure_eq_ok.mp h
    exact ⟨length_repeatReading _ hnames, fun _ _ h => (by cases h)⟩

theorem parse_length {data : List UInt8} {values : PropertyValues field.Value}
    (h : (field.parse limits count data).granted = .ok values) : ParsedLength count values := by
  cases field with
  | name => exact (parseNames_length h).1
  | attributes => exact parseDefinedValues_length h
  | creation | access | modification | startPosition => exact parseDefinedValues_length h

theorem Payload.length_eq {defined : List Bool} {payload : List UInt8}
    {items : List (Option field.Value)} (h : field.Payload limits count defined payload items)
    (hlen : payload.length < 2 ^ 64) (hdefined : defined.length = count) :
    items.length = count := by
  have hvalues : ∀ {α : Type} {readValue : Reading α} {items : List (Option α)},
      Reads (readDefinedValues readValue defined) payload items → items.length = count :=
    fun h => (length_readDefinedValues (h [] [] (by simpa using hlen))).trans hdefined
  cases field with
  | name =>
    obtain ⟨-, names, hnames, rfl⟩ := h
    rw [List.length_map, hnames.count_eq]
  | attributes => exact hvalues h
  | creation | access | modification | startPosition => exact hvalues h

theorem Drafted.length_eq {values : Option (List (Option field.Value))}
    {external : List ExternalProperty}
    (h : field.Drafted limits count additionalCount slot values external)
    {items : List (Option field.Value)} (hitems : values = some items) : items.length = count := by
  subst hitems
  cases slot with
  | none => exact (nomatch h.1)
  | some property =>
    obtain ⟨_, hparsed, hsome, -⟩ | ⟨_, _, -, -, hnone, -⟩ := h
    · cases hsome
      exact parse_length hparsed
    · exact (nomatch hnone)

variable (streams) in
theorem Drafted.resolves {values : Option (List (Option field.Value))}
    {external : List ExternalProperty}
    (h : field.Drafted limits count additionalCount slot values external) :
    (external = [] ∧ ∀ resolved, field.Resolves limits count streams slot resolved ↔
      resolved = values) ∨
    ∃ index defined, defined.length = count ∧
      (field = .name → defined = List.replicate count true) ∧ values = none ∧
      external = [{ propertyId := field.id, dataIndex := index, definedEntries := defined }] ∧
      ∀ resolved, field.Resolves limits count streams slot resolved ↔
        ∃ stream items, streams[index]? = some stream ∧
          field.Payload limits count defined stream.bytes items ∧ resolved = some items := by
  cases slot with
  | none =>
    obtain ⟨rfl, rfl⟩ := h
    exact .inl ⟨rfl, fun resolved => Iff.rfl⟩
  | some property =>
    obtain ⟨items, hparsed, rfl, rfl⟩ | ⟨index, defined, hparsed, -, rfl, rfl⟩ := h
    · refine .inl ⟨rfl, fun resolved => ⟨?_, fun h => .inl ⟨items, hparsed, h⟩⟩⟩
      rintro (⟨items', hparsed', rfl⟩ | ⟨index, defined, _, _, hparsed', -⟩)
      · cases hparsed.symm.trans hparsed'
        rfl
      · exact (nomatch hparsed.symm.trans hparsed')
    · refine .inr ⟨index, defined, parse_length hparsed, ?_, rfl, rfl, fun resolved => ⟨?_, ?_⟩⟩
      · rintro rfl
        exact (parseNames_length hparsed).2 _ _ rfl
      · rintro (⟨items', hparsed', -⟩ | ⟨index', defined', stream, items, hparsed', h⟩)
        · exact (nomatch hparsed.symm.trans hparsed')
        · cases hparsed.symm.trans hparsed'
          exact ⟨stream, items, h⟩
      · rintro ⟨stream, items, h⟩
        exact .inr ⟨index, defined, stream, items, hparsed, h⟩

end Field

/-! ## The loop over the external properties -/

theorem applyExternalLoop_cons_iff {decoded : DecodedAdditionalStreams} {limits : Limits}
    {property : ExternalProperty} {properties : List ExternalProperty} {entries : List FileEntry}
    {total : Nat} :
    (applyExternalLoop decoded limits (property :: properties) entries total).granted =
        .ok result ↔
      ∃ stream changed total', decoded.streams[property.dataIndex]? = some stream ∧
        (applyExternalProperty limits entries property stream.bytes total).granted =
          .ok (changed, total') ∧
        (applyExternalLoop decoded limits properties changed total').granted = .ok result := by
  rw [applyExternalLoop]
  constructor
  · intro h
    obtain ⟨_, h⟩ := granted_rest h
    obtain ⟨stream, hstream, h⟩ := granted_bind_eq_ok.mp h
    obtain ⟨⟨changed, total'⟩, hchanged, h⟩ := granted_bind_eq_ok.mp h
    rw [Prog.granted_mapError] at hchanged
    exact ⟨stream, changed, total', okOr_eq_ok.mp hstream, Except.mapError_eq_ok.mp hchanged, h⟩
  · rintro ⟨stream, changed, total', hstream, hchanged, h⟩
    refine granted_bind_eq_ok.mpr ⟨(), rfl, ?_⟩
    refine granted_bind_eq_ok.mpr ⟨stream, okOr_eq_ok.mpr hstream, ?_⟩
    refine granted_bind_eq_ok.mpr ⟨(changed, total'), ?_, h⟩
    rw [Prog.granted_mapError]
    exact Except.mapError_eq_ok.mpr hchanged

section

variable {decoded : DecodedAdditionalStreams} {limits : Limits} {count additionalCount : Nat}

theorem applyExternalLoop_field_iff
    (hshort : ∀ stream ∈ decoded.streams, stream.bytes.length < 2 ^ 64) {values : FieldValues}
    (hnone : values field = none) {index : Nat} {defined : List Bool}
    (hdefined : defined.length = count)
    (hname : field = .name → defined = List.replicate count true) {base : List FileEntry}
    (hbase : base.length = count) {total : Nat} (htotal : field = .name → total = 0)
    {rest : List ExternalProperty} {Rest : List (Option field.Value) → Prop}
    (hrest : ∀ items total', (applyExternalLoop decoded limits rest
      ((values.set field items).entries base 0) total').granted = .ok result ↔ Rest items) :
    (applyExternalLoop decoded limits
        ({ propertyId := field.id, dataIndex := index, definedEntries := defined } :: rest)
        (values.entries base 0) total).granted = .ok result ↔
      ∃ stream items, decoded.streams[index]? = some stream ∧
        field.Payload limits count defined stream.bytes items ∧ Rest items := by
  have hlength := (values.length_entries base 0).trans hbase
  have happly : ∀ stream ∈ decoded.streams, ∀ changed, _ := fun stream hstream changed =>
    @applyExternalProperty_iff field limits index total _ changed _ _ (hlength.trans hdefined.symm)
      (fun h => ⟨htotal h, hlength.symm ▸ hname h⟩) (hshort stream hstream)
  have hfill : ∀ stream ∈ decoded.streams, ∀ items,
      field.Payload limits count defined stream.bytes items →
        field.fill (values.entries base 0) items = (values.set field items).entries base 0 := by
    intro stream hstream items hitems
    have h := values.fill_entries items hnone base 0
      (by rw [hitems.length_eq (hshort stream hstream) hdefined, hbase, Nat.zero_add])
    rwa [List.drop_zero] at h
  rw [applyExternalLoop_cons_iff]
  constructor
  · rintro ⟨stream, changed, total', hstream, hchanged, h⟩
    have hmem := List.mem_of_getElem? hstream
    obtain ⟨items, hitems, rfl⟩ := (happly stream hmem changed).mp ⟨total', hchanged⟩
    rw [hlength] at hitems
    rw [hfill stream hmem items hitems] at h
    exact ⟨stream, items, hstream, hitems, (hrest items total').mp h⟩
  · rintro ⟨stream, items, hstream, hitems, h⟩
    have hmem := List.mem_of_getElem? hstream
    obtain ⟨total', hchanged⟩ :=
      (happly stream hmem _).mpr ⟨items, by rwa [hlength], (hfill stream hmem items hitems).symm⟩
    exact ⟨stream, _, total', hstream, hchanged, (hrest items total').mpr h⟩

variable {slots : Field → Option RawProperty} {external : Field → List ExternalProperty}

/-- The loop over the records of `fields` resolves these fields and no others.
The induction is on the fields, with the values so far. -/
theorem applyExternalLoop_iff (hshort : ∀ stream ∈ decoded.streams, stream.bytes.length < 2 ^ 64)
    (fields : List Field) (hnodup : fields.Nodup) (hfirst : Field.name ∉ fields.tail)
    {values : FieldValues}
    (hdraft : ∀ field ∈ fields, field.Drafted limits count additionalCount (slots field)
      (values field) (external field)) {base : List FileEntry} (hbase : base.length = count)
    {total : Nat} (htotal : Field.name ∈ fields → external .name ≠ [] → total = 0) :
    (applyExternalLoop decoded limits (fields.flatMap external) (values.entries base 0)
        total).granted = .ok result ↔
      ∃ resolved : FieldValues,
        (∀ field ∈ fields,
          field.Resolves limits count decoded.streams (slots field) (resolved field)) ∧
        (∀ field, field ∉ fields → resolved field = values field) ∧
        result = resolved.entries base 0 := by
  induction fields generalizing values total with
  | nil =>
    constructor
    · intro h
      exact ⟨values, fun _ h => (nomatch h), fun _ _ => rfl, (granted_pure_eq_ok.mp h).symm⟩
    · rintro ⟨resolved, -, hsame, rfl⟩
      obtain rfl : resolved = values := funext fun field => hsame field List.not_mem_nil
      rfl
  | cons field fields ih =>
    obtain ⟨hfield, hnodup⟩ := List.nodup_cons.mp hnodup
    have hrestFirst : Field.name ∉ fields.tail := fun h => hfirst (List.mem_of_mem_tail h)
    have hrestDraft := fun other h => hdraft other (List.mem_cons_of_mem field h)
    rw [List.flatMap_cons]
    rcases (hdraft field List.mem_cons_self).resolves decoded.streams with
      ⟨hnil, hresolves⟩ | ⟨index, defined, hdefined, hname, hnone, hone, hresolves⟩
    · rw [hnil, List.nil_append,
        ih hnodup hrestFirst hrestDraft fun h => htotal (List.mem_cons_of_mem _ h)]
      constructor
      · rintro ⟨resolved, hall, hsame, rfl⟩
        refine ⟨resolved, List.forall_mem_cons.mpr ⟨?_, hall⟩, fun other h => hsame other ?_, rfl⟩
        · exact (hresolves _).mpr (hsame field hfield)
        · exact fun hmem => h (List.mem_cons_of_mem field hmem)
      · rintro ⟨resolved, hall, hsame, rfl⟩
        obtain ⟨hone, hall⟩ := List.forall_mem_cons.mp hall
        refine ⟨resolved, hall, fun other h => ?_, rfl⟩
        by_cases heq : other = field
        · subst heq
          exact (hresolves _).mp hone
        · exact hsame other fun hmem => h ((List.mem_cons.mp hmem).resolve_left heq)
    · rw [hone, List.singleton_append,
        applyExternalLoop_field_iff hshort hnone hdefined hname hbase
          (fun h => htotal (h ▸ List.mem_cons_self) (h ▸ hone ▸ List.cons_ne_nil _ _))
          fun items total' =>
            ih hnodup hrestFirst (fun other h => ?_) fun h => absurd h hfirst]
      · constructor
        · rintro ⟨stream, items, hstream, hitems, resolved, hall, hsame, rfl⟩
          refine ⟨resolved, List.forall_mem_cons.mpr ⟨?_, hall⟩, fun other h => ?_, rfl⟩
          · refine (hresolves _).mpr ⟨stream, items, hstream, hitems, ?_⟩
            rw [hsame field hfield, values.set_self]
          · obtain ⟨hne, hmem⟩ := not_or.mp (List.mem_cons.not.mp h)
            rw [hsame other hmem, values.set_of_ne items hne]
        · rintro ⟨resolved, hall, hsame, rfl⟩
          obtain ⟨hhead, hall⟩ := List.forall_mem_cons.mp hall
          obtain ⟨stream, items, hstream, hitems, hsome⟩ := (hresolves _).mp hhead
          refine ⟨stream, items, hstream, hitems, resolved, hall, fun other h => ?_, rfl⟩
          by_cases heq : other = field
          · subst heq
            rw [hsome, values.set_self]
          · rw [values.set_of_ne items heq]
            exact hsame other fun hmem => h ((List.mem_cons.mp hmem).resolve_left heq)
      · rw [values.set_of_ne items fun heq => hfield (heq ▸ h)]
        exact hrestDraft other h

end

end Unpackio
