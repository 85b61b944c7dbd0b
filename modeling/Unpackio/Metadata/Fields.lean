/-
The file properties that may be external, one definition for all six, and what
one of them does to the entries.
-/
import Unpackio.Metadata.Values

namespace Unpackio

/-- The file properties that `validate_files` accepts as external. -/
inductive Field where
  | name
  | creation
  | access
  | modification
  | attributes
  | startPosition
  deriving DecidableEq, Repr

namespace Field

abbrev Value : Field → Type
  | name => List UInt16
  | attributes => UInt32
  | creation | access | modification | startPosition => Nat

def id : Field → UInt8
  | name => idName
  | creation => idCtime
  | access => idAtime
  | modification => idMtime
  | attributes => idWinAttributes
  | startPosition => idStartPos

def assign : (field : Field) → FileEntry → field.Value → FileEntry
  | name, entry, value => { entry with rawName := some value }
  | creation, entry, value => { entry with creationTime := some value }
  | access, entry, value => { entry with accessTime := some value }
  | modification, entry, value => { entry with modificationTime := some value }
  | attributes, entry, value => { entry with windowsAttributes := some value }
  | startPosition, entry, value => { entry with startPosition := some value }

def parse (limits : Limits) (count : Nat) :
    (field : Field) → List UInt8 → Metered (PropertyValues field.Value)
  | name, data => parseNames data count limits
  | attributes, data => parseDefinedValues data count readU32Le
  | creation, data | access, data | modification, data | startPosition, data =>
    parseDefinedValues data count readU64

/-- The bytes behind the external flag hold these values. -/
def Payload (limits : Limits) (count : Nat) (defined : List Bool) (payload : List UInt8) :
    (field : Field) → List (Option field.Value) → Prop
  | name, values => defined = List.replicate count true ∧
      ∃ names, NamePayload limits count payload names ∧ values = names.map some
  | attributes, values => Reads (readDefinedValues readU32Le defined) payload values
  | creation, values | access, values | modification, values | startPosition, values =>
    Reads (readDefinedValues readU64 defined) payload values

end Field

theorem consumes_readU64 : Consumes readU64 :=
  .bind (.checkpoint 8) fun _ => consumes_readBytes_map 8 fromLeBytes

theorem consumes_readU32Le : Consumes readU32Le :=
  .bind (.checkpoint 4) fun _ =>
    consumes_readBytes_map 4 fun bytes => UInt32.ofNat (fromLeBytes bytes)

theorem readExternalU64_granted (reader : BoundedReader) :
    (readExternalU64 reader).granted = (readU64 reader).granted := by
  show ((readExternalU64 reader : Prog Nat Error _)).granted = reader.readU64Le
  unfold BoundedReader.readU64Le
  show (Prog.granted (Prog.bind (Prog.bind (.done (reader.readBytes 8)) _) _)) = _
  cases reader.readBytes 8 <;> rfl

theorem readExternalU32_granted (reader : BoundedReader) :
    (readExternalU32 reader).granted = (readU32Le reader).granted := by
  show ((readExternalU32 reader : Prog Nat Error _)).granted = reader.readU32Le
  unfold BoundedReader.readU32Le
  show (Prog.granted (Prog.bind (Prog.bind (.done (reader.readBytes 4)) _) _)) = _
  cases reader.readBytes 4 <;> rfl

theorem applyExternalAttributes_granted (entry : FileEntry) (reader : BoundedReader) :
    (applyExternalAttributes entry reader).granted =
      (readU32Le reader).granted >>= fun y => .ok (Field.attributes.assign entry y.1, y.2) := by
  rw [← readExternalU32_granted, applyExternalAttributes]
  show ((readExternalU32 reader >>= fun y => _ : Prog Nat Error _)).granted = _
  rw [Prog.granted_bind]
  rfl

/-- The choice of `apply_external_u64` among the four fields. -/
theorem applyExternalU64_granted {propertyId : UInt8} {assign : FileEntry → Nat → FileEntry}
    (hchoice : ∀ entry, applyExternalU64 propertyId entry =
      readExternalU64 >>= fun value => pure (assign entry value))
    (entry : FileEntry) (reader : BoundedReader) :
    (applyExternalU64 propertyId entry reader).granted =
      (readU64 reader).granted >>= fun y => .ok (assign entry y.1, y.2) := by
  rw [← readExternalU64_granted, hchoice]
  show ((readExternalU64 reader >>= fun y => _ : Prog Nat Error _)).granted = _
  rw [Prog.granted_bind]
  rfl

def Field.fill (field : Field) (entries : List FileEntry) (values : List (Option field.Value)) :
    List FileEntry :=
  withValues field.assign entries values

theorem withNames_eq_fill (entries : List FileEntry) (names : List (List UInt16)) :
    withNames entries names = Field.name.fill entries (names.map some) := by
  unfold withNames Field.fill withValues
  rw [List.zipWith_map_right]
  rfl

variable {entries result : List FileEntry} {property : ExternalProperty}

theorem applyExternalStream_iff {σ : Type} {apply : FileEntry → σ → Reading (FileEntry × σ)}
    {data : List UInt8} {total finalTotal : σ} {detail : String} :
    (applyExternalStream apply entries property data total detail).granted =
        .ok (result, finalTotal) ↔
      entries.length = property.definedEntries.length ∧ ∃ reader,
        (applyDefined apply (entries.zip property.definedEntries) total (.new data)).granted =
          .ok ((result, finalTotal), reader) ∧ reader.finish detail = .ok () := by
  unfold applyExternalStream
  constructor
  · intro h
    obtain ⟨_, hcount, h⟩ := Prog.granted_bind_eq_ok.mp h
    obtain ⟨⟨_, reader⟩, happly, h⟩ := Prog.granted_bind_eq_ok.mp h
    obtain ⟨_, hfinish, h⟩ := Prog.granted_bind_eq_ok.mp h
    cases Prog.granted_pure_eq_ok.mp h
    exact ⟨Decidable.not_not.mp (rejectIf_eq_ok.mp hcount), reader, happly, hfinish⟩
  · rintro ⟨hcount, reader, happly, hfinish⟩
    refine Prog.granted_bind_eq_ok.mpr ⟨(), rejectIf_of_not (not_not.mpr hcount) _, ?_⟩
    refine Prog.granted_bind_eq_ok.mpr ⟨((result, finalTotal), reader), happly, ?_⟩
    exact Prog.granted_bind_eq_ok.mpr ⟨(), hfinish, rfl⟩

/-- The values of a property with a bitmap, whatever its accumulator. -/
theorem applyExternalStream_values_iff {α σ : Type} {readValue : Reading α}
    (hread : Consumes readValue) {assign : FileEntry → α → FileEntry}
    {apply : FileEntry → Reading FileEntry} (happly : ∀ entry reader, (apply entry reader).granted =
      (readValue reader).granted >>= fun y => .ok (assign entry y.1, y.2)) {data : List UInt8}
    (hcount : entries.length = property.definedEntries.length) (hlen : data.length < 2 ^ 64)
    {total : σ} {detail : String} :
    (∃ finalTotal, (applyExternalStream (keeping apply) entries property data total
        detail).granted = .ok (result, finalTotal)) ↔
      ∃ values, Reads (readDefinedValues readValue property.definedEntries) data values ∧
        result = withValues assign entries values := by
  simp only [applyExternalStream_iff, applyValues_iff happly hcount]
  constructor
  · rintro ⟨finalTotal, -, reader, ⟨-, values, hvalues, rfl⟩, hfinish⟩
    exact ⟨values, ((consumes_readDefinedValues hread _).finish_iff hlen).mp
      ⟨reader, hvalues, hfinish⟩, rfl⟩
  · rintro ⟨values, hvalues, rfl⟩
    obtain ⟨reader, hvalues, hfinish⟩ :=
      ((consumes_readDefinedValues hread _).finish_iff hlen).mpr hvalues
    exact ⟨total, hcount, reader, ⟨rfl, values, hvalues, rfl⟩, hfinish⟩

theorem applyExternalStream_names_iff {limits : Limits} {data : List UInt8}
    (hdefined : property.definedEntries = List.replicate entries.length true)
    (hlen : data.length < 2 ^ 64) {detail : String} :
    (∃ finalTotal, (applyExternalStream (applyExternalName limits (data.length + 1)) entries
        property data 0 detail).granted = .ok (result, finalTotal)) ↔
      ∃ names, NamePayload limits entries.length data names ∧
        result = withNames entries names := by
  simp only [applyExternalStream_iff, hdefined, List.length_replicate, true_and]
  constructor
  · rintro ⟨finalTotal, reader, happly, hfinish⟩
    obtain ⟨names, hcount, hnames, hallowed, rfl, left, rfl, rfl⟩ :=
      @applyNames_inv [] _ _ _ _ _ _ _ hlen _ happly
    rw [BoundedReader.finish_split] at hfinish
    obtain rfl : left = [] := Decidable.byContradiction fun hleft => by
      rw [if_neg hleft] at hfinish
      exact (nomatch hfinish)
    exact ⟨names, ⟨hcount, hnames, hallowed, List.append_nil _⟩, rfl⟩
  · rintro ⟨names, ⟨hcount, hnames, hallowed, rfl⟩, rfl⟩
    obtain ⟨finalTotal, hreads⟩ := applyNames_reads hcount hnames hallowed
      ((names.flatMap nameBytes).length + 1) (by omega)
    have hhere := hreads [] [] (by simpa using hlen)
    rw [List.append_nil] at hhere
    exact ⟨finalTotal, _, hhere, BoundedReader.finish_split _ _ _⟩

theorem applyExternalProperty_iff (field : Field) (limits : Limits) (dataIndex total : Nat)
    {entries result : List FileEntry} {defined : List Bool}
    {data : List UInt8} (hcount : entries.length = defined.length)
    (hname : field = .name → total = 0 ∧ defined = List.replicate entries.length true)
    (hlen : data.length < 2 ^ 64) :
    (∃ finalTotal, (applyExternalProperty limits entries
        { propertyId := field.id, dataIndex := dataIndex, definedEntries := defined } data
        total).granted = .ok (result, finalTotal)) ↔
      ∃ values, field.Payload limits entries.length defined data values ∧
        result = field.fill entries values := by
  generalize hproperty : ExternalProperty.mk field.id dataIndex defined = property
  have hid : property.propertyId = field.id := by rw [← hproperty]
  have hbits : property.definedEntries = defined := by rw [← hproperty]
  subst hbits
  unfold applyExternalProperty
  rw [hid]
  cases field with
  | name =>
    obtain ⟨rfl, hdefined⟩ := hname rfl
    rw [if_pos (show Field.name.id = idName from rfl), applyExternalStream_names_iff hdefined hlen]
    constructor
    · rintro ⟨names, hnames, rfl⟩
      exact ⟨names.map some, ⟨hdefined, names, hnames, rfl⟩, withNames_eq_fill entries names⟩
    · rintro ⟨values, ⟨-, names, hnames, rfl⟩, rfl⟩
      exact ⟨names, hnames, (withNames_eq_fill entries names).symm⟩
  | attributes =>
    rw [if_neg (by decide), if_neg (by decide), if_pos (show Field.attributes.id =
      idWinAttributes from rfl)]
    exact applyExternalStream_values_iff consumes_readU32Le applyExternalAttributes_granted
      hcount hlen
  | creation | access | modification | startPosition =>
    rw [if_neg (by decide), if_pos (by decide)]
    exact applyExternalStream_values_iff consumes_readU64
      (applyExternalU64_granted fun _ => rfl) hcount hlen

end Unpackio
