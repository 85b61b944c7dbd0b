/-
What `validate_files` accepts: a draft of every field, and the entries behind them.
Its property loop on two lists that agree but for the data of the six fields.
-/
import Unpackio.Metadata.ExternalLoop
import Unpackio.Validate.Mapping

namespace Unpackio

open Prog (granted_bind_eq_ok granted_pure_eq_ok)

/-- The fields in the order in which `validate_files` reads them. -/
def Field.all : List Field :=
  [.name, .creation, .access, .modification, .attributes, .startPosition]

def FilePropertySlots.property (slots : FilePropertySlots) : Field → Option RawProperty
  | .name => slots.name
  | .creation => slots.creation
  | .access => slots.access
  | .modification => slots.modification
  | .attributes => slots.attributes
  | .startPosition => slots.startPosition

def FilesBase (count : Nat) (mainStreams : Option StreamsInfo) (slots : FilePropertySlots)
    (base : List FileEntry) : Prop :=
  ∃ vectors : FileVectors,
    (optionalPlainBits slots.emptyStream count).granted = .ok vectors.emptyStreams ∧
    (optionalPlainBits slots.emptyFile (vectors.emptyStreams.count true)).granted =
      .ok vectors.emptyFileBits ∧
    (optionalPlainBits slots.anti (vectors.emptyStreams.count true)).granted =
      .ok vectors.antiBits ∧
    (collectStreamMappings mainStreams).granted = .ok vectors.mappings ∧
    vectors.mappings.length = vectors.emptyStreams.count false ∧
    ∃ emptyCursor streamCursor,
      (fileEntries vectors.bare count 0 0 0).granted = .ok (base, emptyCursor, streamCursor) ∧
      ¬(emptyCursor ≠ vectors.emptyFileBits.length ∨ emptyCursor ≠ vectors.antiBits.length ∨
        streamCursor ≠ vectors.mappings.length)

theorem FilesBase.length_eq {count : Nat} {mainStreams : Option StreamsInfo}
    {slots : FilePropertySlots} {base : List FileEntry}
    (h : FilesBase count mainStreams slots base) : base.length = count := by
  obtain ⟨_, -, -, -, -, -, _, _, hbase, -⟩ := h
  exact (fileEntries_spec _ _ _ _ hbase).length_eq

theorem validateFiles_iff {raw : RawFilesInfo} {mainStreams : Option StreamsInfo}
    {additional : StreamsInfo} {limits : Limits} {info : FilesInfo} :
    (validateFiles raw mainStreams (some additional) limits).granted = .ok info ↔
      ∃ (slots : FilePropertySlots) (values : FieldValues)
        (external : Field → List ExternalProperty) (base : List FileEntry),
        (raw.properties.foldlM placeProperty FilePropertySlots.empty).granted = .ok slots ∧
        (∀ field : Field, field.Drafted limits raw.count additional.folders.length
          (slots.property field) (values field) (external field)) ∧
        FilesBase raw.count mainStreams slots base ∧
        info = { entries := values.entries base 0, externalProperties := Field.all.flatMap external,
                 unknownProperties := slots.unknown } := by
  unfold validateFiles
  constructor
  · intro h
    obtain ⟨_, h⟩ := Prog.granted_rest h
    obtain ⟨slots, hslots, h⟩ := granted_bind_eq_ok.mp h
    obtain ⟨emptyStreams, hempty, h⟩ := granted_bind_eq_ok.mp h
    obtain ⟨emptyFileBits, hemptyFile, h⟩ := granted_bind_eq_ok.mp h
    obtain ⟨antiBits, hanti, h⟩ := granted_bind_eq_ok.mp h
    obtain ⟨⟨names, nameAdded⟩, hname, h⟩ := granted_bind_eq_ok.mp h
    obtain ⟨⟨creations, _⟩, hcreation, h⟩ := granted_bind_eq_ok.mp h
    obtain ⟨⟨accesses, _⟩, haccess, h⟩ := granted_bind_eq_ok.mp h
    obtain ⟨⟨modifications, _⟩, hmodification, h⟩ := granted_bind_eq_ok.mp h
    obtain ⟨⟨attributes, _⟩, hattributes, h⟩ := granted_bind_eq_ok.mp h
    obtain ⟨⟨positions, _⟩, hposition, h⟩ := granted_bind_eq_ok.mp h
    obtain ⟨mappings, hmappings, h⟩ := granted_bind_eq_ok.mp h
    obtain ⟨_, hcount, h⟩ := granted_bind_eq_ok.mp h
    obtain ⟨⟨files, emptyCursor, streamCursor⟩, hfiles, h⟩ := granted_bind_eq_ok.mp h
    obtain ⟨_, hcursors, h⟩ := granted_bind_eq_ok.mp h
    cases granted_pure_eq_ok.mp h
    obtain ⟨_, rfl, hname⟩ := (Field.optionalValues_iff limits .name).mp hname
    obtain ⟨creationAdded, rfl, hcreation⟩ := (Field.optionalValues_iff limits .creation).mp
      hcreation
    obtain ⟨accessAdded, rfl, haccess⟩ := (Field.optionalValues_iff limits .access).mp haccess
    obtain ⟨modificationAdded, rfl, hmodification⟩ :=
      (Field.optionalValues_iff limits .modification).mp hmodification
    obtain ⟨attributesAdded, rfl, hattributes⟩ :=
      (Field.optionalValues_iff limits .attributes).mp hattributes
    obtain ⟨positionAdded, rfl, hposition⟩ :=
      (Field.optionalValues_iff limits .startPosition).mp hposition
    let vectors : FileVectors :=
      { emptyStreams := emptyStreams, emptyFileBits := emptyFileBits, antiBits := antiBits,
        names := names, creationTimes := creations, accessTimes := accesses,
        modificationTimes := modifications, attributeValues := attributes,
        startPositions := positions, mappings := mappings }
    let added : Field → List ExternalProperty
      | .name => nameAdded
      | .creation => creationAdded
      | .access => accessAdded
      | .modification => modificationAdded
      | .attributes => attributesAdded
      | .startPosition => positionAdded
    have hdraft : ∀ field : Field, field.Drafted limits raw.count additional.folders.length
        (slots.property field) (vectors.values field) (added field) := by
      intro field
      cases field <;> assumption
    have hlength : ∀ field items, vectors.values field = some items →
        0 + raw.count ≤ items.length := by
      intro field items hitems
      rw [(hdraft field).length_eq hitems, Nat.zero_add]
    have hvalues := fileEntries_values vectors raw.count 0 0 0 hlength
    rw [hfiles] at hvalues
    obtain ⟨⟨base, _, _⟩, hbase, hpair⟩ := Except.bind_eq_ok.mp hvalues.symm
    cases hpair
    refine ⟨slots, vectors.values, added, base, hslots, hdraft, ⟨vectors, hempty, hemptyFile,
      hanti, hmappings, Decidable.not_not.mp (rejectIf_eq_ok.mp hcount), emptyCursor,
      streamCursor, hbase, rejectIf_eq_ok.mp hcursors⟩, ?_⟩
    simp only [Field.all, List.flatMap_cons, List.flatMap_nil, List.append_assoc, added,
      List.append_nil]
  · rintro ⟨slots, values, added, base, hslots, hdraft, ⟨vectors, hempty, hemptyFile, hanti,
      hmappings, hcount, emptyCursor, streamCursor, hbase, hcursors⟩, rfl⟩
    have hvalue : ∀ (field : Field) (external : List ExternalProperty),
        (optionalValues field.id (slots.property field) (field.parse limits raw.count)
          additional.folders.length external).granted =
            .ok (values field, external ++ added field) := fun field external =>
      (Field.optionalValues_iff limits field).mpr ⟨added field, rfl, hdraft field⟩
    have hlength : ∀ field items, values field = some items → 0 + raw.count ≤ items.length := by
      intro field items hitems
      rw [(hdraft field).length_eq hitems, Nat.zero_add]
    let filled : FileVectors :=
      { vectors with
        names := values .name, creationTimes := values .creation, accessTimes := values .access,
        modificationTimes := values .modification, attributeValues := values .attributes,
        startPositions := values .startPosition }
    have hfilled : filled.values = values := funext fun field => by cases field <;> rfl
    have hfiles := fileEntries_values filled raw.count 0 0 0 (by rwa [hfilled])
    rw [show filled.bare = vectors.bare from rfl, hbase, Except.ok_bind, hfilled] at hfiles
    refine granted_bind_eq_ok.mpr ⟨(), rfl, ?_⟩
    refine granted_bind_eq_ok.mpr ⟨slots, hslots, ?_⟩
    refine granted_bind_eq_ok.mpr ⟨vectors.emptyStreams, hempty, ?_⟩
    refine granted_bind_eq_ok.mpr ⟨vectors.emptyFileBits, hemptyFile, ?_⟩
    refine granted_bind_eq_ok.mpr ⟨vectors.antiBits, hanti, ?_⟩
    refine granted_bind_eq_ok.mpr ⟨_, hvalue .name _, ?_⟩
    refine granted_bind_eq_ok.mpr ⟨_, hvalue .creation _, ?_⟩
    refine granted_bind_eq_ok.mpr ⟨_, hvalue .access _, ?_⟩
    refine granted_bind_eq_ok.mpr ⟨_, hvalue .modification _, ?_⟩
    refine granted_bind_eq_ok.mpr ⟨_, hvalue .attributes _, ?_⟩
    refine granted_bind_eq_ok.mpr ⟨_, hvalue .startPosition _, ?_⟩
    refine granted_bind_eq_ok.mpr ⟨vectors.mappings, hmappings, ?_⟩
    refine granted_bind_eq_ok.mpr
      ⟨(), rejectIf_of_not (Decidable.not_not.mpr hcount) _, ?_⟩
    refine granted_bind_eq_ok.mpr ⟨_, hfiles, ?_⟩
    refine granted_bind_eq_ok.mpr ⟨(), rejectIf_of_not hcursors _, ?_⟩
    refine granted_pure_eq_ok.mpr ?_
    simp only [Field.all, List.flatMap_cons, List.flatMap_nil, List.append_assoc,
      List.nil_append, List.append_nil]

theorem Field.id_injective {field other : Field} (h : field.id = other.id) : field = other := by
  revert h
  cases field <;> cases other <;> decide

namespace FilePropertySlots

def setField (slots : FilePropertySlots) (slot : Option RawProperty) : Field → FilePropertySlots
  | .name => { slots with name := slot }
  | .creation => { slots with creation := slot }
  | .access => { slots with access := slot }
  | .modification => { slots with modification := slot }
  | .attributes => { slots with attributes := slot }
  | .startPosition => { slots with startPosition := slot }

section

variable (slots : FilePropertySlots) (slot : Option RawProperty)

theorem property_setField_self (field : Field) :
    (slots.setField slot field).property field = slot := by
  cases field <;> rfl

theorem property_setField_of_ne {field other : Field} (h : other ≠ field) :
    (slots.setField slot field).property other = slots.property other := by
  cases field <;> cases other <;> first | rfl | exact absurd rfl h

theorem emptyStream_setField (field : Field) :
    (slots.setField slot field).emptyStream = slots.emptyStream ∧
      (slots.setField slot field).emptyFile = slots.emptyFile ∧
      (slots.setField slot field).anti = slots.anti := by
  cases field <;> exact ⟨rfl, rfl, rfl⟩

end

/-- Slots with the same bit vectors, and related properties in the six fields. -/
structure Related (Rel : RawProperty → RawProperty → Prop) (slots slots' : FilePropertySlots) :
    Prop where
  emptyStream_eq : slots.emptyStream = slots'.emptyStream
  emptyFile_eq : slots.emptyFile = slots'.emptyFile
  anti_eq : slots.anti = slots'.anti
  property_rel : ∀ field : Field, Option.Rel
    (fun property property' => property.id = field.id ∧ property'.id = field.id ∧
      Rel property property') (slots.property field) (slots'.property field)

end FilePropertySlots

variable {property : RawProperty} {slots' result : FilePropertySlots}
  {Rel : RawProperty → RawProperty → Prop}

theorem knownPropertySlot_iff {slot slot' : Option RawProperty} :
    knownPropertySlot slot property = .ok slot' ↔ slot = none ∧ slot' = some property := by
  cases slot with
  | none => exact ⟨fun h => ⟨rfl, (Except.ok.inj h).symm⟩, fun h => h.2 ▸ rfl⟩
  | some old => exact ⟨fun h => (nomatch h), fun h => (nomatch h.1)⟩

theorem placeProperty_field_iff {slots : FilePropertySlots} {field : Field}
    (hid : property.id = field.id) :
    (placeProperty slots property).granted = .ok slots' ↔
      slots.property field = none ∧ slots' = slots.setField (some property) field := by
  have hplace : placeProperty slots property = (do
      let slot ← knownPropertySlot (slots.property field) property
      return slots.setField slot field) := by
    unfold placeProperty
    rw [hid]
    cases field <;> rfl
  rw [hplace]
  constructor
  · intro h
    obtain ⟨slot, hslot, h⟩ := granted_bind_eq_ok.mp h
    cases granted_pure_eq_ok.mp h
    obtain ⟨hnone, rfl⟩ := knownPropertySlot_iff.mp hslot
    exact ⟨hnone, rfl⟩
  · rintro ⟨hnone, rfl⟩
    exact granted_bind_eq_ok.mpr ⟨some property, knownPropertySlot_iff.mpr ⟨hnone, rfl⟩, rfl⟩

theorem placeProperty_other {slots : FilePropertySlots} (hslots : slots.Related Rel slots')
    (hid : ∀ field : Field, property.id ≠ field.id)
    (h : (placeProperty slots property).granted = .ok result) :
    ∃ result', (placeProperty slots' property).granted = .ok result' ∧
      result.Related Rel result' := by
  obtain ⟨hempty, hemptyFile, hanti, hfields⟩ := hslots
  have hname : property.id ≠ idName := hid .name
  have hcreation : property.id ≠ idCtime := hid .creation
  have haccess : property.id ≠ idAtime := hid .access
  have hmodification : property.id ≠ idMtime := hid .modification
  have hattributes : property.id ≠ idWinAttributes := hid .attributes
  have hposition : property.id ≠ idStartPos := hid .startPosition
  unfold placeProperty at h ⊢
  rw [if_neg hname, if_neg hcreation, if_neg haccess, if_neg hmodification, if_neg hattributes,
    if_neg hposition] at h ⊢
  rw [← hempty, ← hemptyFile, ← hanti]
  by_cases hstream : property.id = idEmptyStream
  · rw [if_pos hstream] at h ⊢
    obtain ⟨slot, hslot, h⟩ := granted_bind_eq_ok.mp h
    cases granted_pure_eq_ok.mp h
    exact ⟨_, granted_bind_eq_ok.mpr ⟨slot, hslot, rfl⟩, rfl, rfl, rfl,
      fun field => by cases field <;> exact hfields _⟩
  by_cases hfile : property.id = idEmptyFile
  · rw [if_neg hstream, if_pos hfile] at h ⊢
    obtain ⟨slot, hslot, h⟩ := granted_bind_eq_ok.mp h
    cases granted_pure_eq_ok.mp h
    exact ⟨_, granted_bind_eq_ok.mpr ⟨slot, hslot, rfl⟩, rfl, rfl, rfl,
      fun field => by cases field <;> exact hfields _⟩
  by_cases hitem : property.id = idAnti
  · rw [if_neg hstream, if_neg hfile, if_pos hitem] at h ⊢
    obtain ⟨slot, hslot, h⟩ := granted_bind_eq_ok.mp h
    cases granted_pure_eq_ok.mp h
    exact ⟨_, granted_bind_eq_ok.mpr ⟨slot, hslot, rfl⟩, rfl, rfl, rfl,
      fun field => by cases field <;> exact hfields _⟩
  rw [if_neg hstream, if_neg hfile, if_neg hitem] at h ⊢
  by_cases hdummy : property.id = idDummy
  · rw [if_pos hdummy] at h ⊢
    obtain ⟨_, hzero, h⟩ := granted_bind_eq_ok.mp h
    cases granted_pure_eq_ok.mp h
    exact ⟨_, granted_bind_eq_ok.mpr ⟨(), hzero, rfl⟩, hempty, hemptyFile, hanti, hfields⟩
  · rw [if_neg hdummy] at h ⊢
    obtain ⟨data, hdata, h⟩ := granted_bind_eq_ok.mp h
    cases granted_pure_eq_ok.mp h
    exact ⟨_, granted_bind_eq_ok.mpr ⟨data, hdata, rfl⟩, rfl, rfl, rfl,
      fun field => by cases field <;> exact hfields _⟩

def KeepsOthers (Rel : RawProperty → RawProperty → Prop) : Prop :=
  ∀ property property', Rel property property' → property.id = property'.id ∧
    ((∀ field : Field, property.id ≠ field.id) → property = property')

theorem placeProperty_related (hRel : KeepsOthers Rel) {slots : FilePropertySlots}
    (hslots : slots.Related Rel slots') {property' : RawProperty}
    (hproperty : Rel property property') (h : (placeProperty slots property).granted = .ok result) :
    ∃ result', (placeProperty slots' property').granted = .ok result' ∧
      result.Related Rel result' := by
  obtain ⟨hid, hother⟩ := hRel property property' hproperty
  by_cases hfield : ∃ field : Field, property.id = field.id
  · obtain ⟨field, hfield⟩ := hfield
    obtain ⟨hnone, rfl⟩ := (placeProperty_field_iff hfield).mp h
    have hnone' : slots'.property field = none := by
      have hrel := hslots.property_rel field
      rw [hnone] at hrel
      cases hslot : slots'.property field with
      | none => rfl
      | some _ => rw [hslot] at hrel; exact (nomatch hrel)
    refine ⟨_, (placeProperty_field_iff (hid ▸ hfield)).mpr ⟨hnone', rfl⟩, ?_⟩
    obtain ⟨hstream, hfile, hanti⟩ := slots.emptyStream_setField (some property) field
    obtain ⟨hstream', hfile', hanti'⟩ := slots'.emptyStream_setField (some property') field
    refine ⟨by rw [hstream, hstream', hslots.emptyStream_eq],
      by rw [hfile, hfile', hslots.emptyFile_eq], by rw [hanti, hanti', hslots.anti_eq],
      fun other => ?_⟩
    by_cases heq : other = field
    · subst heq
      rw [FilePropertySlots.property_setField_self, FilePropertySlots.property_setField_self]
      exact .some ⟨hfield, hid ▸ hfield, hproperty⟩
    · rw [FilePropertySlots.property_setField_of_ne _ _ heq,
        FilePropertySlots.property_setField_of_ne _ _ heq]
      exact hslots.property_rel other
  · have hnone : ∀ field : Field, property.id ≠ field.id := fun field h => hfield ⟨field, h⟩
    rw [← hother hnone]
    exact placeProperty_other hslots hnone h

theorem foldlM_placeProperty_related (hRel : KeepsOthers Rel)
    {properties properties' : List RawProperty}
    (hproperties : List.Forall₂ Rel properties properties') {slots : FilePropertySlots}
    (hslots : slots.Related Rel slots')
    (h : (properties.foldlM placeProperty slots).granted = .ok result) :
    ∃ result', (properties'.foldlM placeProperty slots').granted = .ok result' ∧
      result.Related Rel result' := by
  induction hproperties generalizing slots slots' with
  | nil =>
    cases granted_pure_eq_ok.mp h
    exact ⟨slots', rfl, hslots⟩
  | cons hproperty _ ih =>
    rw [List.foldlM_cons] at h
    obtain ⟨middle, hplace, h⟩ := granted_bind_eq_ok.mp h
    obtain ⟨middle', hplace', hmiddle⟩ := placeProperty_related hRel hslots hproperty hplace
    obtain ⟨result', hrest, hresult⟩ := ih hmiddle h
    rw [List.foldlM_cons]
    exact ⟨result', granted_bind_eq_ok.mpr ⟨middle', hplace', hrest⟩, hresult⟩

theorem FilePropertySlots.empty_related (Rel : RawProperty → RawProperty → Prop) :
    FilePropertySlots.empty.Related Rel FilePropertySlots.empty :=
  ⟨rfl, rfl, rfl, fun field => by cases field <;> exact .none⟩

theorem FilePropertySlots.Related.base {slots : FilePropertySlots} (h : slots.Related Rel slots')
    {count : Nat} {mainStreams : Option StreamsInfo} {base : List FileEntry}
    (hbase : FilesBase count mainStreams slots base) : FilesBase count mainStreams slots' base := by
  unfold FilesBase at hbase ⊢
  rwa [← h.emptyStream_eq, ← h.emptyFile_eq, ← h.anti_eq]

end Unpackio
