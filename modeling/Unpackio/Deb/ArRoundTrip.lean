/-
Members in System V form, and what the ar parser makes of them.
-/
import Unpackio.Deb.Ar
import Unpackio.Deb.TarField

namespace Unpackio
namespace Deb
namespace Ar

open List (append_assoc append_nil length_append length_cons length_nil length_singleton)
open Prog (granted_bind granted_lift_bind)
open Except (ok_bind)
open Numerals

/-! ## Numbers -/

/-- The digits of a number, with spaces to fill its field. -/
structure SpacedNumber (radix width : Nat) where
  lead : Nat
  digits : List UInt8
  trail : Nat
  isDigit : ∀ byte ∈ digits, IsDigit radix byte
  width_eq : lead + digits.length + trail = width

namespace SpacedNumber

variable {radix width : Nat} (number : SpacedNumber radix width)

def bytes : List UInt8 :=
  List.replicate number.lead 0x20 ++ number.digits ++ List.replicate number.trail 0x20

def value : Nat := numeral radix asciiDigit number.digits

theorem length_bytes : number.bytes.length = width := by
  rw [bytes, length_append, length_append, List.length_replicate, List.length_replicate]
  exact number.width_eq

theorem value_lt (hradix : 1 < radix) : number.value < radix ^ width := by
  have hdigits : number.value < radix ^ number.digits.length :=
    numeral_lt hradix number.digits fun byte hmem => (number.isDigit byte hmem).2
  have hwidth := number.width_eq
  exact Nat.lt_of_lt_of_le hdigits (Nat.pow_le_pow_right (by omega) (by omega))

end SpacedNumber

theorem positionalLoop_spaces (radix : Nat) (detail : String) (count value : Nat)
    (sawDigit trailing : Bool) :
    positionalLoop radix detail (List.replicate count 0x20) value sawDigit trailing =
      .ok (value, sawDigit) := by
  induction count generalizing trailing with
  | zero => rfl
  | succ count ih =>
    rw [List.replicate_succ, positionalLoop, if_pos rfl]
    exact ih _

theorem positionalLoop_lead (radix : Nat) (detail : String) (count : Nat) (rest : List UInt8)
    (value : Nat) :
    positionalLoop radix detail (List.replicate count 0x20 ++ rest) value false false =
      positionalLoop radix detail rest value false false := by
  induction count with
  | zero => rfl
  | succ count ih =>
    rw [List.replicate_succ, List.cons_append, positionalLoop, if_pos rfl,
      if_neg Bool.false_ne_true]
    exact ih

theorem positionalLoop_digits {radix : Nat} (hradix : 0 < radix) {digits : List UInt8}
    (hdigits : ∀ byte ∈ digits, IsDigit radix byte) (detail : String) (trail value : Nat)
    (sawDigit : Bool)
    (hlt : value * radix ^ digits.length + numeral radix asciiDigit digits < 2 ^ 64) :
    positionalLoop radix detail (digits ++ List.replicate trail 0x20) value sawDigit false =
      .ok (value * radix ^ digits.length + numeral radix asciiDigit digits,
        sawDigit || !digits.isEmpty) := by
  induction digits generalizing value sawDigit with
  | nil =>
    rw [List.nil_append, positionalLoop_spaces, length_nil, Nat.pow_zero, Nat.mul_one,
      numeral_nil, Nat.add_zero, List.isEmpty_nil, Bool.not_true, Bool.or_false]
  | cons byte digits ih =>
    obtain ⟨hbyte, hrest⟩ := List.forall_mem_cons.mp hdigits
    have hstep := numeral_step radix asciiDigit value byte digits
    have hle : value * radix + asciiDigit byte ≤
        (value * radix + asciiDigit byte) * radix ^ digits.length :=
      Nat.le_mul_of_pos_right _ (Nat.pow_pos hradix)
    have hspace : byte ≠ 0x20 := by
      rintro rfl
      exact absurd hbyte.1 (by decide)
    rw [← hstep] at hlt ⊢
    rw [List.cons_append, positionalLoop, if_neg hspace, rejectIf_of_not Bool.false_ne_true,
      ok_bind, digitOf_of_isDigit hbyte, okOr_bind, tryFrom_of_lt (by omega), okOr_bind,
      checkedAdd_bind (by omega), ih hrest _ true hlt, List.isEmpty_cons, Bool.not_false,
      Bool.or_true, Bool.true_or]

theorem positionalU64_middle {radix width : Nat} (number : SpacedNumber radix width)
    (hradix : 1 < radix) (hwidth : radix ^ width ≤ 2 ^ 64) (front rest : List UInt8)
      {header : List UInt8}
    (hheader : header = front ++ number.bytes ++ rest) (hlen : header.length < 2 ^ 64)
    {offset : Nat} (hoffset : front.length = offset) (detail : String) :
    positionalU64 header offset width radix detail = .ok number.value := by
  subst hheader
  subst hoffset
  have hvalue : numeral radix asciiDigit number.digits < 2 ^ 64 :=
    Nat.lt_of_lt_of_le (number.value_lt hradix) hwidth
  have hrange := checkedRange_middle front number.bytes rest hlen detail detail
  rw [number.length_bytes] at hrange
  rw [positionalU64, hrange, ok_bind, SpacedNumber.bytes, append_assoc,
    positionalLoop_lead, positionalLoop_digits (by omega) number.isDigit _ _ _ _ (by omega),
    ok_bind, Nat.zero_mul, Nat.zero_add, Bool.false_or]
  cases hdigits : number.digits with
  | nil =>
    rw [SpacedNumber.value, hdigits]
    rfl
  | cons byte digits =>
    rw [SpacedNumber.value, hdigits]
    rfl

/-- A name that a field of its own can hold. -/
structure PlainName (name : List UInt8) : Prop where
  ne_nil : name ≠ []
  length_le : name.length ≤ 15
  plain : 0 ∉ name
  not_slash : ¬[0x2f] <+: name
  not_bsd : ¬[0x23, 0x31, 0x2f] <+: name
  last_space : name.getLast? ≠ some 0x20
  last_slash : name.getLast? ≠ some 0x2f

theorem rdropWhile_spaces (bytes : List UInt8) (hlast : bytes.getLast? ≠ some 0x20) (count : Nat) :
    (bytes ++ List.replicate count 0x20).rdropWhile (fun byte => byte = 0x20) = bytes := by
  induction count with
  | zero =>
    rw [List.replicate_zero, append_nil, List.rdropWhile_eq_self_iff]
    intro hne hspace
    refine hlast ?_
    rw [List.getLast?_eq_some_getLast hne, of_decide_eq_true hspace]
  | succ count ih =>
    rw [List.replicate_succ', ← append_assoc, List.rdropWhile_concat, if_pos (by decide)]
    exact ih

theorem parseName_plain {name : List UInt8} (h : PlainName name) {terminator : List UInt8}
    (hterminator : terminator = [] ∨ terminator = [0x2f]) (count : Nat) :
    parseName (name ++ terminator ++ List.replicate count 0x20) = .ok name := by
  have htrim : trimName (name ++ terminator ++ List.replicate count 0x20) = name := by
    unfold trimName
    rcases hterminator with rfl | rfl
    · rw [append_nil, rdropWhile_spaces name h.last_space]
      exact if_neg fun hslash => h.last_slash hslash.1
    · have hname : (name ++ [0x2f] ++ List.replicate count 0x20).rdropWhile
          (fun byte => byte = 0x20) = name ++ [0x2f] :=
        rdropWhile_spaces _ (by rw [List.getLast?_concat]; decide) count
      have hone : name ++ [0x2f] ≠ [0x2f] := by
        intro heq
        have hempty : name ++ [0x2f] = [] ++ [0x2f] := heq
        exact h.ne_nil (List.append_cancel_right hempty)
      have htwo : name ++ [0x2f] ≠ [0x2f, 0x2f] := by
        intro heq
        have hslash : name ++ [0x2f] = [0x2f] ++ [0x2f] := heq
        exact h.not_slash (List.append_cancel_right hslash ▸ List.prefix_refl _)
      simp only [hname]
      rw [if_pos ⟨List.getLast?_concat, hone, htwo⟩, List.dropLast_concat]
  have hsystem : ¬([0x23, 0x31, 0x2f] <+: name ∨ name = [0x2f, 0x2f] ∨ [0x2f] <+: name) := by
    rintro (hbsd | htable | hslash)
    · exact h.not_bsd hbsd
    · exact h.not_slash (htable ▸ ⟨[0x2f], rfl⟩)
    · exact h.not_slash hslash
  unfold parseName
  simp only [htrim]
  rw [rejectIf_of_not h.ne_nil, ok_bind, rejectIf_of_not h.plain, ok_bind,
    rejectIf_of_not hsystem]
  rfl

/-! ## Members -/

/-- A member as it is written. -/
structure Record where
  name : List UInt8
  terminator : List UInt8
  modifiedTime : SpacedNumber 10 12
  uid : SpacedNumber 10 6
  gid : SpacedNumber 10 6
  mode : SpacedNumber 8 8
  size : SpacedNumber 10 10
  data : List UInt8
  name_plain : PlainName name
  terminator_eq : terminator = [] ∨ terminator = [0x2f]
  size_eq : size.value = data.length

namespace Record

variable (record : Record)

def nameField : List UInt8 :=
  record.name ++ record.terminator ++
    List.replicate (16 - (record.name ++ record.terminator).length) 0x20

def fields : List UInt8 :=
  record.nameField ++ record.modifiedTime.bytes ++ record.uid.bytes ++ record.gid.bytes ++
    record.mode.bytes

def header : List UInt8 := record.fields ++ record.size.bytes ++ [0x60, 0x0a]

/-- A newline after data of an odd size. -/
def padding : List UInt8 := if record.data.length % 2 ≠ 0 then [0x0a] else []

def bytes : List UInt8 := record.header ++ record.data ++ record.padding

/-- What the parser returns for the record at `offset`. -/
def member (index offset : Nat) : ArMember where
  index := index
  rawName := record.name
  modifiedTime := record.modifiedTime.value
  uid := record.uid.value
  gid := record.gid.value
  mode := record.mode.value
  size := record.data.length
  dataStart := offset + memberHeaderBytes
  dataEnd := offset + memberHeaderBytes + record.data.length

theorem length_nameField : record.nameField.length = 16 := by
  have hname := record.name_plain.length_le
  have hterminator : record.terminator.length ≤ 1 := by
    rcases record.terminator_eq with h | h <;> rw [h] <;> decide
  rw [nameField, length_append, List.length_replicate, length_append]
  omega

theorem length_fields : record.fields.length = 48 := by
  simp only [fields, length_append, record.length_nameField, SpacedNumber.length_bytes]

theorem length_header : record.header.length = memberHeaderBytes := by
  rw [header, length_append, length_append, length_fields, SpacedNumber.length_bytes]
  rfl

theorem length_padding : record.padding.length = record.data.length % 2 := by
  unfold padding
  split
  · rw [length_singleton]
    omega
  · rw [length_nil]
    omega

theorem length_bytes :
    record.bytes.length = memberHeaderBytes + record.data.length + record.data.length % 2 := by
  rw [bytes, length_append, length_append, length_header, length_padding]

theorem data_lt : record.data.length < 2 ^ 34 := by
  have hsize := record.size.value_lt (by decide)
  rw [record.size_eq] at hsize
  omega

end Record

theorem readHeader_granted (record : Record) {front rest : List UInt8}
    (hlen : (front ++ record.bytes ++ rest).length < 2 ^ 64) {limits : Limits} {headerBytes : Nat}
    (hlt : headerBytes + memberHeaderBytes < 2 ^ 64)
    (hlimit : headerBytes + memberHeaderBytes ≤ limits.maxHeaderBytes) :
    (readHeader (front ++ record.bytes ++ rest) limits front.length headerBytes).granted =
      .ok (record.header, headerBytes + memberHeaderBytes) := by
  have hshape : front ++ record.bytes ++ rest =
      front ++ record.header ++ (record.data ++ record.padding ++ rest) := by
    simp only [Record.bytes, append_assoc]
  have hrange := checkedRange_middle front record.header (record.data ++ record.padding ++ rest)
    (hshape ▸ hlen) "ar member header range overflows" "ar member header is truncated"
  rw [record.length_header, ← hshape] at hrange
  have hend : (record.fields ++ record.size.bytes).length = 58 := by
    rw [length_append, record.length_fields, SpacedNumber.length_bytes]
  have hterminator : getRange record.header 58 60 = some [0x60, 0x0a] := by
    refine getRange_eq_some.mpr ⟨by decide, Nat.le_of_eq record.length_header.symm, ?_⟩
    have htake : record.header.take 60 = record.header :=
      List.take_of_length_le (Nat.le_of_eq record.length_header)
    rw [htake, Record.header, ← hend, List.drop_left]
  unfold readHeader
  rw [checkedAdd_of_lt hlt, granted_lift_bind, okOr_bind, granted_lift_bind,
    checkLimit_of_le hlimit, ok_bind, granted_lift_bind, hrange, ok_bind, granted_bind,
    consumeBytes_granted, ok_bind, rejectIf_of_not (not_not.mpr hterminator)]
  rfl

theorem readName_eq (record : Record) {limits : Limits} {nameBytes : Nat}
    (hname : record.name.length ≤ limits.maxNameBytesPerEntry)
    (hlt : nameBytes + record.name.length < 2 ^ 64)
    (hlimit : nameBytes + record.name.length ≤ limits.maxTotalNameBytes) :
    readName record.header limits nameBytes =
      .ok (record.name, nameBytes + record.name.length) := by
  have hfield : getRange record.header 0 16 = some record.nameField := by
    refine getRange_eq_some.mpr ⟨by decide, ?_, ?_⟩
    · rw [record.length_header]
      decide
    · simp only [Record.header, Record.fields, append_assoc, List.drop_zero]
      exact List.take_left' record.length_nameField
  rw [readName, hfield, okOr_bind, Record.nameField,
    parseName_plain record.name_plain record.terminator_eq, ok_bind, checkLimit_of_le hname,
    ok_bind, checkedAdd_bind hlt, checkLimit_of_le hlimit]
  rfl

section

variable {front rest : List UInt8} (record : Record)
  (hlen : (front ++ record.bytes ++ rest).length < 2 ^ 64) (index : Nat)
include hlen

theorem readMember_eq :
    readMember (front ++ record.bytes ++ rest) record.header record.name front.length index =
      .ok (record.member index front.length) := by
  have hheader : record.header.length < 2 ^ 64 := by
    rw [record.length_header]
    decide
  have hname := record.length_nameField
  have hdata := record.data_lt
  have hshort : front.length + memberHeaderBytes + record.data.length < 2 ^ 64 := by
    simp only [length_append, record.length_bytes] at hlen
    omega
  -- The number fields, each behind those before it.
  have hmodified : decimalU64 record.header 16 12 "ar timestamp is invalid" =
      .ok record.modifiedTime.value :=
    positionalU64_middle _ (by decide) (by decide) record.nameField
      (record.uid.bytes ++ record.gid.bytes ++ record.mode.bytes ++ record.size.bytes ++
        [0x60, 0x0a])
      (by simp only [Record.header, Record.fields, append_assoc]) hheader hname _
  have huid : decimalU64 record.header 28 6 "ar uid is invalid" = .ok record.uid.value :=
    positionalU64_middle _ (by decide) (by decide) (record.nameField ++ record.modifiedTime.bytes)
      (record.gid.bytes ++ record.mode.bytes ++ record.size.bytes ++ [0x60, 0x0a])
      (by simp only [Record.header, Record.fields, append_assoc]) hheader
      (by simp only [length_append, hname, SpacedNumber.length_bytes]) _
  have hgid : decimalU64 record.header 34 6 "ar gid is invalid" = .ok record.gid.value :=
    positionalU64_middle _ (by decide) (by decide)
      (record.nameField ++ record.modifiedTime.bytes ++ record.uid.bytes)
      (record.mode.bytes ++ record.size.bytes ++ [0x60, 0x0a])
      (by simp only [Record.header, Record.fields, append_assoc]) hheader
      (by simp only [length_append, hname, SpacedNumber.length_bytes]) _
  have hmode : octalU64 record.header 40 8 "ar mode is invalid" = .ok record.mode.value :=
    positionalU64_middle _ (by decide) (by decide)
      (record.nameField ++ record.modifiedTime.bytes ++ record.uid.bytes ++ record.gid.bytes)
      (record.size.bytes ++ [0x60, 0x0a])
      (by simp only [Record.header, Record.fields, append_assoc]) hheader
      (by simp only [length_append, hname, SpacedNumber.length_bytes]) _
  have hsize : decimalU64 record.header 48 10 "ar member size is invalid" =
      .ok record.data.length := by
    rw [← record.size_eq]
    exact positionalU64_middle _ (by decide) (by decide) record.fields [0x60, 0x0a] rfl hheader
      record.length_fields _
  have huidLt := record.uid.value_lt (by decide)
  have hgidLt := record.gid.value_lt (by decide)
  have hmodeLt := record.mode.value_lt (by decide)
  have hdataRange : checkedRange (front ++ record.bytes ++ rest)
      (front.length + memberHeaderBytes) record.data.length "ar member data range overflows"
      "ar member data is truncated" = .ok record.data := by
    have hshape : front ++ record.bytes ++ rest =
        (front ++ record.header) ++ record.data ++ (record.padding ++ rest) := by
      simp only [Record.bytes, append_assoc]
    have h := checkedRange_middle (front ++ record.header) record.data (record.padding ++ rest)
      (hshape ▸ hlen) "ar member data range overflows" "ar member data is truncated"
    rwa [← hshape, length_append, record.length_header] at h
  rw [readMember, hmodified, ok_bind, huid, ok_bind, hgid, ok_bind, toU32, tryFrom_of_lt (by omega),
    okOr_bind, toU32, tryFrom_of_lt (by omega), okOr_bind, hmode, ok_bind, toU32,
    tryFrom_of_lt (by omega), okOr_bind, hsize, ok_bind, checkedAdd_bind (by omega),
    checkedAdd_bind hshort, hdataRange]
  rfl

theorem skipPadding_eq :
    skipPadding (front ++ record.bytes ++ rest) (record.member index front.length) =
      .ok (front ++ record.bytes).length := by
  have hcount : (front ++ record.bytes).length =
      front.length + memberHeaderBytes + record.data.length + record.data.length % 2 := by
    rw [length_append, record.length_bytes]
    omega
  have hfits : (front ++ record.bytes).length < 2 ^ 64 := by
    rw [length_append] at hlen
    omega
  unfold skipPadding
  by_cases hodd : (record.member index front.length).size % 2 ≠ 0
  · have hpadding : record.padding = [0x0a] := if_pos hodd
    have hshape : front ++ record.bytes ++ rest =
        (front ++ record.header ++ record.data) ++ [0x0a] ++ rest := by
      simp only [Record.bytes, hpadding, append_assoc]
    have hend : (front ++ record.header ++ record.data).length =
        (record.member index front.length).dataEnd := by
      rw [length_append, length_append, record.length_header]
      rfl
    have hrange := checkedRange_middle _ _ rest (hshape ▸ hlen) "ar padding range overflows"
      "ar member padding is truncated"
    rw [← hshape, hend, length_singleton] at hrange
    have hnext :
        (record.member index front.length).dataEnd + 1 = (front ++ record.bytes).length := by
      simp only [Record.member] at hodd ⊢
      omega
    rw [if_pos hodd, hrange, ok_bind, rejectIf_of_not (not_not.mpr rfl), ok_bind,
      checkedAdd_of_lt (by omega), okOr_some, hnext]
  · have hnext : (record.member index front.length).dataEnd = (front ++ record.bytes).length := by
      simp only [Record.member] at hodd ⊢
      omega
    rw [if_neg hodd, hnext]

end

/-! ## The whole file -/

def recordBytes (records : List Record) : List UInt8 := records.flatMap Record.bytes

theorem recordBytes_cons (record : Record) (records : List Record) :
    recordBytes (record :: records) = record.bytes ++ recordBytes records := List.flatMap_cons

/-- The members of some records, the first of them number `index` at `offset`. -/
def membersOf : List Record → Nat → Nat → List ArMember
  | [], _, _ => []
  | record :: records, index, offset =>
    record.member index offset :: membersOf records (index + 1) (offset + record.bytes.length)

def nameTotal (records : List Record) : Nat := (records.map fun record => record.name.length).sum

/-- The limits leave room for the records. -/
structure Fits (limits : Limits) (records : List Record) : Prop where
  headers : records.length * memberHeaderBytes ≤ limits.maxHeaderBytes
  files : records.length ≤ limits.maxFiles
  name : ∀ record ∈ records, record.name.length ≤ limits.maxNameBytesPerEntry
  names : nameTotal records ≤ limits.maxTotalNameBytes

/-- The loop of `parse`, with what it has read in front. -/
theorem parseLoop_granted (records : List Record) (front : List UInt8) {limits : Limits}
    (hlen : (front ++ recordBytes records).length < 2 ^ 64) (entries : List ArMember)
    (totals : Totals) (hentries : entries.length + records.length < 2 ^ 64)
    (hfiles : entries.length + records.length ≤ limits.maxFiles)
    (hheaders : totals.headerBytes + records.length * memberHeaderBytes ≤ limits.maxHeaderBytes)
    (hheadersLt : totals.headerBytes + records.length * memberHeaderBytes < 2 ^ 64)
    (hname : ∀ record ∈ records, record.name.length ≤ limits.maxNameBytesPerEntry)
    (hnames : totals.nameBytes + nameTotal records ≤ limits.maxTotalNameBytes)
    (hnamesLt : totals.nameBytes + nameTotal records < 2 ^ 64)
    (fuel : Nat) (hfuel : (recordBytes records).length ≤ fuel) :
    (parseLoop (front ++ recordBytes records) limits fuel front.length entries totals).granted =
      .ok (entries ++ membersOf records entries.length front.length) := by
  induction records generalizing front entries totals fuel with
  | nil =>
    rw [recordBytes, List.flatMap_nil, append_nil, membersOf, append_nil]
    cases fuel with
    | zero => rfl
    | succ fuel =>
      rw [parseLoop, if_neg (Nat.lt_irrefl _)]
      rfl
  | cons record records ih =>
    have hheader : memberHeaderBytes = 60 := rfl
    have hcount := record.length_bytes
    have htotal : nameTotal (record :: records) = record.name.length + nameTotal records := by
      rw [nameTotal, List.map_cons, List.sum_cons]
      rfl
    rw [recordBytes_cons, length_append] at hfuel
    rw [recordBytes_cons, ← append_assoc] at hlen
    rw [length_cons] at hentries hfiles
    rw [length_cons, Nat.succ_mul] at hheaders hheadersLt
    rw [htotal] at hnames hnamesLt
    obtain ⟨hfirst, hrest⟩ := List.forall_mem_cons.mp hname
    cases fuel with
    | zero => omega
    | succ fuel =>
      have hlt : front.length < (front ++ record.bytes ++ recordBytes records).length := by
        rw [length_append, length_append]
        omega
      have hnext := ih (front ++ record.bytes) hlen
        (entries ++ [record.member entries.length front.length])
        ⟨totals.nameBytes + record.name.length, totals.headerBytes + memberHeaderBytes⟩
        (by rw [length_append, length_singleton]; omega)
        (by rw [length_append, length_singleton]; omega)
        (by simp only; omega) (by simp only; omega) hrest (by simp only; omega)
        (by simp only; omega) fuel (by omega)
      rw [recordBytes_cons, ← append_assoc, parseLoop, if_pos hlt, checkpoint_bind,
        granted_bind, readHeader_granted record hlen (by omega) (by omega), ok_bind]
      simp only
      rw [granted_lift_bind, readName_eq record hfirst (by omega) (by omega), ok_bind]
      simp only
      rw [granted_lift_bind, readMember_eq record hlen, ok_bind, granted_lift_bind,
        checkedAdd_bind (by omega), granted_lift_bind, checkLimit_of_le (by omega), ok_bind,
        granted_bind, copyBytes_granted, ok_bind, granted_lift_bind, skipPadding_eq record hlen,
        ok_bind]
      have hsame : { record.member entries.length front.length with
          rawName := (record.member entries.length front.length).rawName } =
            record.member entries.length front.length := rfl
      rw [hsame, hnext, append_assoc, membersOf, length_append, length_append,
        length_singleton]
      rfl

def fileBytes (records : List Record) : List UInt8 := globalHeader ++ recordBytes records

theorem parse_granted (records : List Record) {limits : Limits}
    (hlen : (fileBytes records).length < 2 ^ 64) (h : Fits limits records) :
    (parse (fileBytes records) limits).granted =
      .ok (membersOf records 0 globalHeader.length) := by
  have hheader : memberHeaderBytes = 60 := rfl
  -- A file of this size holds no more records and no longer names.
  have hcount : ∀ records : List Record, records.length * memberHeaderBytes ≤
      (recordBytes records).length ∧ nameTotal records ≤ (recordBytes records).length := by
    intro records
    induction records with
    | nil => exact ⟨Nat.le_refl _, Nat.le_refl _⟩
    | cons record records ih =>
      have hbytes := record.length_bytes
      have hname := record.name_plain.length_le
      rw [recordBytes_cons, length_append, length_cons, Nat.succ_mul, nameTotal,
        List.map_cons, List.sum_cons]
      unfold nameTotal at ih
      omega
  obtain ⟨hrecords, hnames⟩ := hcount records
  have hsize : (recordBytes records).length < 2 ^ 64 := by
    rw [fileBytes, length_append] at hlen
    omega
  have hfew : records.length < 2 ^ 64 := by
    rw [hheader] at hrecords
    omega
  have hmagic : checkedRange (fileBytes records) 0 globalHeader.length "ar magic range overflows"
      "ar global header is truncated" = .ok globalHeader :=
    checkedRange_middle [] globalHeader (recordBytes records) hlen _ _
  have hloop := parseLoop_granted records globalHeader hlen [] ⟨0, 0⟩
    (by rw [length_nil]; omega) (by rw [length_nil]; have := h.files; omega)
    (by have := h.headers; simp only; omega) (by simp only; omega) h.name
    (by have := h.names; simp only; omega) (by simp only; omega) (fileBytes records).length
    (by rw [fileBytes, length_append]; omega)
  unfold parse
  rw [granted_lift_bind, hmagic, ok_bind, granted_bind, consumeBytes_granted, ok_bind,
    rejectIf_of_not (not_not.mpr rfl)]
  exact hloop

/-- Each member lies behind the one before it, from `start` to `finish`. -/
def Tiles : List ArMember → Nat → Nat → Prop
  | [], start, finish => start = finish
  | member :: members, start, finish =>
    member.dataStart = start + memberHeaderBytes ∧
      member.dataEnd = member.dataStart + member.size ∧
        Tiles members (member.dataEnd + member.size % 2) finish

theorem membersOf_tiles (records : List Record) (index offset : Nat) :
    Tiles (membersOf records index offset) offset (offset + (recordBytes records).length) := by
  induction records generalizing index offset with
  | nil => exact (Nat.add_zero _).symm
  | cons record records ih =>
    refine ⟨rfl, rfl, ?_⟩
    have hcount := record.length_bytes
    have hnext := ih (index + 1) (offset + record.bytes.length)
    rw [recordBytes_cons, length_append, ← Nat.add_assoc]
    have hoffset : (record.member index offset).dataEnd +
        (record.member index offset).size % 2 = offset + record.bytes.length := by
      rw [hcount]
      simp only [Record.member]
      omega
    rw [hoffset]
    exact hnext

end Ar
end Deb
end Unpackio
