/-
Pax records: what is written and what `parse_pax` makes of it.

Of the records with one key the last counts, and a record list extends the
values that earlier lists left behind.
-/
import Unpackio.Deb.TarField

namespace Unpackio
namespace Deb

open List (append_assoc append_nil cons_append length_append length_cons)
open Prog (granted_bind granted_lift_bind)
open Except (ok_bind)

theorem positionOf_append {byte : UInt8} {front : List UInt8} (hfront : byte ∉ front)
    (rest : List UInt8) : positionOf byte (front ++ byte :: rest) = some front.length := by
  induction front with
  | nil => simp [positionOf, List.findIdx?_cons]
  | cons first front ih =>
    obtain ⟨hne, hrest⟩ := not_or.mp (List.mem_cons.not.mp hfront)
    have hstep := ih hrest
    rw [positionOf] at hstep ⊢
    rw [cons_append, List.findIdx?_cons, if_neg (by simpa using Ne.symm hne), hstep]
    rfl

def timeDigits (value : List UInt8) : List UInt8 :=
  splitFirst 0x2e (if value.head? = some 0x2d then value.drop 1 else value)

def timeValue (value : List UInt8) : Int :=
  if value.head? = some 0x2d then -(decimalValue (timeDigits value) : Int)
  else decimalValue (timeDigits value)

def DecimalText (bound : Nat) (bytes : List UInt8) : Prop :=
  bytes ≠ [] ∧ (∀ byte ∈ bytes, IsDigit 10 byte) ∧ decimalValue bytes < bound

def nameKeys : List (List UInt8) := [keyPath, keyLinkPath, keyUname, keyGname]

def numberKeys : List (List UInt8) := [keySize, keyUid, keyGid]

/-- A value that its key allows. -/
structure ValueAllowed (key value : List UInt8) : Prop where
  name : key ∈ nameKeys → 0 ∉ value
  number : key ∈ numberKeys → DecimalText (2 ^ 64) value
  time : key = keyMtime → DecimalText (2 ^ 63) (timeDigits value)

/-- A record as the parser finds it: the decimal digits of its own length, a space,
a key without `=`, an `=`, a value and a newline. -/
structure PaxShape where
  digits : List UInt8
  key : List UInt8
  value : List UInt8
  digits_decimal : DecimalText (2 ^ 64) digits
  length_eq : decimalValue digits =
    (digits ++ 0x20 :: (key ++ 0x3d :: (value ++ [0x0a]))).length
  key_plain : 0x3d ∉ key

def PaxShape.bytes (record : PaxShape) : List UInt8 :=
  record.digits ++ 0x20 :: (record.key ++ 0x3d :: (record.value ++ [0x0a]))

/-- A record with a value that its key allows. -/
structure PaxRecord extends PaxShape where
  value_ne_nil : value ≠ []
  allowed : ValueAllowed key value

def PaxValues.set (values : PaxValues) (key value : List UInt8) : PaxValues :=
  if key = keyPath then { values with path := some value }
  else if key = keyLinkPath then { values with linkPath := some value }
  else if key = keySize then { values with size := some (decimalValue value) }
  else if key = keyUid then { values with uid := some (decimalValue value) }
  else if key = keyGid then { values with gid := some (decimalValue value) }
  else if key = keyMtime then { values with modifiedTime := some (timeValue value) }
  else if key = keyUname then { values with userName := some value }
  else if key = keyGname then { values with groupName := some value }
  else values

def PaxValues.setAll (values : PaxValues) (records : List PaxRecord) : PaxValues :=
  records.foldl (fun values record => values.set record.key record.value) values

/-! ## Parsing -/

theorem copyPaxName_granted {value : List UInt8} (hplain : 0 ∉ value) {limits : Limits}
    (hlimit : value.length ≤ limits.maxNameBytesPerEntry) :
    (copyPaxName value limits).granted = .ok value := by
  rw [copyPaxName, rejectIf_of_not hplain, checkLimit_of_le hlimit]
  exact copyBytes_granted value

theorem decimalBytes_of_text {bytes : List UInt8} (h : DecimalText (2 ^ 64) bytes)
    (detail : String) : decimalBytes bytes detail = .ok (decimalValue bytes) :=
  decimalBytes_eq h.1 h.2.1 h.2.2 detail

theorem paxTime_eq {value : List UInt8} (h : DecimalText (2 ^ 63) (timeDigits value)) :
    paxTime value = .ok (timeValue value) := by
  obtain ⟨hne, hdigits, hlt⟩ := h
  have hdecimal := decimalBytes_eq hne hdigits (by omega) "pax mtime is invalid"
  unfold timeDigits at hdecimal hlt
  unfold paxTime timeValue timeDigits
  simp only [hdecimal, ok_bind]
  rw [tryFrom_of_lt hlt, okOr_bind]
  rfl

theorem applyPaxValue_granted {key value : List UInt8} (h : ValueAllowed key value)
    {limits : Limits} (hlimit : key ∈ nameKeys → value.length ≤ limits.maxNameBytesPerEntry)
    (values : PaxValues) :
    (applyPaxValue key value values limits).granted = .ok (values.set key value) := by
  have hname : key ∈ nameKeys → (copyPaxName value limits).granted = .ok value :=
    fun hkey => copyPaxName_granted (h.name hkey) (hlimit hkey)
  have hnumber :
      key ∈ numberKeys → ∀ detail, decimalBytes value detail = .ok (decimalValue value) :=
    fun hkey => decimalBytes_of_text (h.number hkey)
  unfold applyPaxValue PaxValues.set
  by_cases hpath : key = keyPath
  · rw [if_pos hpath, if_pos hpath, granted_bind, hname (by rw [hpath]; decide)]
    rfl
  rw [if_neg hpath, if_neg hpath]
  by_cases hlink : key = keyLinkPath
  · rw [if_pos hlink, if_pos hlink, granted_bind, hname (by rw [hlink]; decide)]
    rfl
  rw [if_neg hlink, if_neg hlink]
  by_cases hsize : key = keySize
  · rw [if_pos hsize, if_pos hsize, hnumber (by rw [hsize]; decide)]
    rfl
  rw [if_neg hsize, if_neg hsize]
  by_cases huid : key = keyUid
  · rw [if_pos huid, if_pos huid, hnumber (by rw [huid]; decide)]
    rfl
  rw [if_neg huid, if_neg huid]
  by_cases hgid : key = keyGid
  · rw [if_pos hgid, if_pos hgid, hnumber (by rw [hgid]; decide)]
    rfl
  rw [if_neg hgid, if_neg hgid]
  by_cases htime : key = keyMtime
  · rw [if_pos htime, if_pos htime, paxTime_eq (h.time htime)]
    rfl
  rw [if_neg htime, if_neg htime]
  by_cases huname : key = keyUname
  · rw [if_pos huname, if_pos huname, granted_bind, hname (by rw [huname]; decide)]
    rfl
  rw [if_neg huname, if_neg huname]
  by_cases hgname : key = keyGname
  · rw [if_pos hgname, if_pos hgname, granted_bind, hname (by rw [hgname]; decide)]
    rfl
  rw [if_neg hgname, if_neg hgname, granted_bind, consumeBytes_granted]
  rfl

theorem IsDigit.ne {base : Nat} {byte other : UInt8} (h : IsDigit base byte)
    (hother : other.toNat < 0x30) : byte ≠ other := by
  rintro rfl
  exact absurd h.1 (by omega)

theorem paxRecord_middle (record : PaxShape) {front rest : List UInt8}
    (hlen : (front ++ record.bytes ++ rest).length < 2 ^ 64) :
    paxRecord (front ++ record.bytes ++ rest) front.length =
      .ok (record.key, record.value, record.bytes.length) := by
  obtain ⟨hne, hdigits, hdecimal⟩ := record.digits_decimal
  have hlength : decimalValue record.digits = record.bytes.length := record.length_eq
  have hsum : record.bytes.length =
      record.digits.length + 1 + (record.key.length + 1 + record.value.length) + 1 := by
    simp only [PaxShape.bytes, length_append, length_cons, List.length_nil]
    omega
  -- What is left of the data, and the record in front of it.
  have hremaining : checkedRange (front ++ record.bytes ++ rest) front.length
      (record.bytes ++ rest).length "pax record range overflows" "pax record is truncated" =
        .ok (record.bytes ++ rest) := by
    have h := checkedRange_middle front (record.bytes ++ rest) []
      (by simpa using hlen) "pax record range overflows" "pax record is truncated"
    rwa [append_nil, ← append_assoc] at h
  have hrecord := checkedRange_middle _ _ _ hlen "pax record range overflows"
    "pax record is truncated"
  have hspace : (0x20 : UInt8) ∉ record.digits :=
    fun hmem => (hdigits _ hmem).ne (by decide) rfl
  have hseparator : positionOf 0x20 (record.bytes ++ rest) = some record.digits.length := by
    rw [PaxShape.bytes, append_assoc, cons_append]
    exact positionOf_append hspace _
  have htake : (record.bytes ++ rest).take record.digits.length = record.digits := by
    rw [PaxShape.bytes, append_assoc]
    exact List.take_left
  have hshape : record.bytes =
      (record.digits ++ [0x20]) ++ (record.key ++ 0x3d :: record.value) ++ [0x0a] := by
    simp only [PaxShape.bytes, append_assoc, cons_append, List.nil_append]
  have hlast : record.bytes.getLast? = some 0x0a := by
    rw [hshape]
    exact List.getLast?_concat
  have hbody : checkedRange record.bytes (record.digits.length + 1)
      (record.key.length + 1 + record.value.length) "pax record body range overflows"
      "pax record body is truncated" = .ok (record.key ++ 0x3d :: record.value) := by
    have h := checkedRange_middle (record.digits ++ [0x20]) (record.key ++ 0x3d :: record.value)
      [0x0a]
      (by rw [← hshape]; omega) "pax record body range overflows" "pax record body is truncated"
    rw [← hshape] at h
    rw [← h]
    congr 1
    · rw [length_append]
      rfl
    · rw [length_append, length_cons]
      omega
  have hprefixLt : record.digits.length + 1 < 2 ^ 64 := by omega
  have hequalsLt : record.key.length + 1 < 2 ^ 64 := by omega
  unfold paxRecord
  rw [checkedSub_of_le (by simp only [length_append]; omega), okOr_some, ok_bind,
    show (front ++ record.bytes ++ rest).length - front.length = (record.bytes ++ rest).length by
      simp only [length_append]; omega,
    hremaining, ok_bind, hseparator, okOr_some, ok_bind, htake,
    decimalBytes_of_text record.digits_decimal, ok_bind, hlength,
    rejectIf_of_not (by omega), ok_bind, hrecord, ok_bind,
    rejectIf_of_not (not_not.mpr hlast), ok_bind, checkedAdd_of_lt hprefixLt, okOr_some,
    ok_bind, checkedSub_of_le (by omega), Option.bind_some, checkedSub_of_le (by omega),
    okOr_some, ok_bind,
    show record.bytes.length - (record.digits.length + 1) - 1 =
      record.key.length + 1 + record.value.length by omega,
    hbody, ok_bind, positionOf_append record.key_plain, okOr_some, ok_bind,
    checkedAdd_of_lt hequalsLt, okOr_some, ok_bind, List.take_left' rfl]
  rw [show record.key.length + 1 = (record.key ++ [0x3d]).length by simp,
    show record.key ++ 0x3d :: record.value = (record.key ++ [0x3d]) ++ record.value by simp,
    List.drop_left]
  rfl

def shapeBytes (records : List PaxShape) : List UInt8 := records.flatMap PaxShape.bytes

theorem shapeBytes_cons (record : PaxShape) (records : List PaxShape) :
    shapeBytes (record :: records) = record.bytes ++ shapeBytes records := List.flatMap_cons

theorem PaxShape.bytes_pos (record : PaxShape) : 0 < record.bytes.length := by
  simp only [PaxShape.bytes, length_append, length_cons]
  omega

def PaxShape.pair (record : PaxShape) : List UInt8 × List UInt8 := (record.key, record.value)

def PaxValues.setPairs (values : PaxValues) (pairs : List (List UInt8 × List UInt8)) : PaxValues :=
  pairs.foldl (fun values pair => values.set pair.1 pair.2) values

def PairsAllowed (pairs : List (List UInt8 × List UInt8)) : Prop :=
  ∀ pair ∈ pairs, ValueAllowed pair.1 pair.2

def PairsWithin (limits : Limits) (pairs : List (List UInt8 × List UInt8)) : Prop :=
  ∀ pair ∈ pairs, pair.1 ∈ nameKeys → pair.2.length ≤ limits.maxNameBytesPerEntry

def ArchiveTotals.addProperties (totals : ArchiveTotals) (count : Nat) : ArchiveTotals :=
  { totals with properties := totals.properties + count }

/-- The loop of `parse_pax`, with the records before `front` behind it. -/
theorem parsePaxLoop_granted (records : List PaxShape) (front : List UInt8) {limits : Limits}
    (hlen : (front ++ shapeBytes records).length < 2 ^ 64)
    (hallowed : PairsAllowed (records.map PaxShape.pair))
    (hnames : PairsWithin limits (records.map PaxShape.pair))
    (totals : ArchiveTotals) (hroom : totals.properties + records.length < 2 ^ 64)
    (hcount : totals.properties + records.length ≤ limits.maxHeaderProperties)
    (values : PaxValues) (fuel : Nat) (hfuel : (shapeBytes records).length ≤ fuel) :
    (parsePaxLoop (front ++ shapeBytes records) limits fuel front.length values totals).granted =
      .ok (values.setPairs (records.map PaxShape.pair), totals.addProperties records.length) := by
  induction records generalizing front totals values fuel with
  | nil =>
    have hend : front.length = (front ++ shapeBytes []).length := by
      rw [shapeBytes, List.flatMap_nil, append_nil]
    cases fuel with
    | zero =>
      rw [parsePaxLoop, rejectIf_of_not (not_not.mpr hend)]
      rfl
    | succ fuel =>
      rw [parsePaxLoop, if_neg (by omega), rejectIf_of_not (not_not.mpr hend)]
      rfl
  | cons record records ih =>
    have hpos := record.bytes_pos
    rw [shapeBytes_cons, length_append] at hfuel
    rw [shapeBytes_cons, ← append_assoc] at hlen
    rw [length_cons] at hroom hcount
    obtain ⟨hvalue, hvalues⟩ := List.forall_mem_cons.mp hallowed
    obtain ⟨hname, hrest⟩ := List.forall_mem_cons.mp hnames
    simp only [PaxShape.pair] at hvalue hname
    cases fuel with
    | zero => omega
    | succ fuel =>
      have hlt : front.length < (front ++ shapeBytes (record :: records)).length := by
        rw [shapeBytes_cons, length_append, length_append]
        omega
      have hsum : (front ++ record.bytes).length = front.length + record.bytes.length :=
        length_append
      have hshort : front.length + record.bytes.length < 2 ^ 64 := by
        simp only [length_append] at hlen
        omega
      have hnext := ih _ hlen hvalues hrest { totals with properties := totals.properties + 1 }
        (by simp only; omega) (by simp only; omega) (values.set record.key record.value) fuel
        (by omega)
      rw [parsePaxLoop, if_pos hlt, shapeBytes_cons, ← append_assoc, checkpoint_bind,
        checkedAdd_of_lt (by omega), granted_lift_bind, okOr_bind, granted_lift_bind,
        checkLimit_of_le (by omega), ok_bind, granted_lift_bind, paxRecord_middle record hlen,
        ok_bind]
      simp only
      rw [granted_bind, applyPaxValue_granted hvalue hname, ok_bind, checkedAdd_of_lt hshort,
        granted_lift_bind, okOr_bind, ← hsum, hnext]
      simp only [PaxValues.setPairs, PaxShape.pair, List.map_cons, List.foldl_cons,
        ArchiveTotals.addProperties, length_cons, Nat.add_assoc, Nat.add_comm 1]

theorem parsePax_shapes (records : List PaxShape) {limits : Limits}
    (hlen : (shapeBytes records).length < 2 ^ 64)
    (hallowed : PairsAllowed (records.map PaxShape.pair))
    (hnames : PairsWithin limits (records.map PaxShape.pair))
    {totals : ArchiveTotals} (hroom : totals.properties + records.length < 2 ^ 64)
    (hcount : totals.properties + records.length ≤ limits.maxHeaderProperties)
    (values : PaxValues) :
    (parsePax (shapeBytes records) values limits totals).granted =
      .ok (values.setPairs (records.map PaxShape.pair), totals.addProperties records.length) :=
  parsePaxLoop_granted records [] hlen hallowed hnames totals hroom hcount values _ (Nat.le_refl _)

def paxBytes (records : List PaxRecord) : List UInt8 := records.flatMap fun record => record.bytes

theorem paxBytes_eq (records : List PaxRecord) :
    paxBytes records = shapeBytes (records.map PaxRecord.toPaxShape) := by
  rw [shapeBytes, List.flatMap_map]
  rfl

def NamesWithin (limits : Limits) (records : List PaxRecord) : Prop :=
  ∀ record ∈ records, record.key ∈ nameKeys →
    record.value.length ≤ limits.maxNameBytesPerEntry

theorem PaxValues.setAll_eq (values : PaxValues) (records : List PaxRecord) :
    values.setAll records = values.setPairs (records.map fun record => record.pair) := by
  rw [setPairs, List.foldl_map]
  rfl

theorem parsePax_granted (records : List PaxRecord) {limits : Limits}
    (hlen : (paxBytes records).length < 2 ^ 64) (hnames : NamesWithin limits records)
    {totals : ArchiveTotals} (hroom : totals.properties + records.length < 2 ^ 64)
    (hcount : totals.properties + records.length ≤ limits.maxHeaderProperties)
    (values : PaxValues) :
    (parsePax (paxBytes records) values limits totals).granted =
      .ok (values.setAll records, totals.addProperties records.length) := by
  have hpairs : (records.map PaxRecord.toPaxShape).map PaxShape.pair =
      records.map fun record => record.pair := List.map_map
  have hcount' : (records.map PaxRecord.toPaxShape).length = records.length := List.length_map _
  have h := parsePax_shapes (records.map PaxRecord.toPaxShape) (paxBytes_eq records ▸ hlen)
    (hpairs ▸ List.forall_mem_map.mpr fun record _ => record.allowed)
    (hpairs ▸ List.forall_mem_map.mpr hnames) (hcount'.symm ▸ hroom) (hcount'.symm ▸ hcount) values
  rwa [← paxBytes_eq, hpairs, hcount', ← PaxValues.setAll_eq] at h

def lastPair (key : List UInt8) (pairs : List (List UInt8 × List UInt8)) : Option (List UInt8) :=
  ((pairs.filter fun pair => pair.1 = key).getLast?).map Prod.snd

theorem lastPair_concat (key : List UInt8) (pairs : List (List UInt8 × List UInt8))
    (pair : List UInt8 × List UInt8) : lastPair key (pairs ++ [pair]) =
      if pair.1 = key then some pair.2 else lastPair key pairs := by
  unfold lastPair
  rw [List.filter_append]
  by_cases hkey : pair.1 = key
  · rw [if_pos hkey, List.filter_cons_of_pos (by simpa using hkey), List.filter_nil,
      List.getLast?_concat]
    rfl
  · rw [if_neg hkey, List.filter_cons_of_neg (by simpa using hkey), List.filter_nil,
      append_nil]

def PaxValues.updated (values : PaxValues) (pairs : List (List UInt8 × List UInt8)) :
    PaxValues where
  path := (lastPair keyPath pairs).or values.path
  linkPath := (lastPair keyLinkPath pairs).or values.linkPath
  size := ((lastPair keySize pairs).map decimalValue).or values.size
  uid := ((lastPair keyUid pairs).map decimalValue).or values.uid
  gid := ((lastPair keyGid pairs).map decimalValue).or values.gid
  modifiedTime := ((lastPair keyMtime pairs).map timeValue).or values.modifiedTime
  userName := (lastPair keyUname pairs).or values.userName
  groupName := (lastPair keyGname pairs).or values.groupName

theorem PaxValues.setPairs_eq (values : PaxValues) (pairs : List (List UInt8 × List UInt8)) :
    values.setPairs pairs = values.updated pairs := by
  induction pairs using List.reverseRecOn with
  | nil => rfl
  | append_singleton pairs pair ih =>
    have hset : values.setPairs (pairs ++ [pair]) = (values.setPairs pairs).set pair.1 pair.2 := by
      rw [setPairs, List.foldl_append]
      rfl
    rw [hset, ih]
    simp only [updated, lastPair_concat]
    unfold PaxValues.set
    generalize pair.1 = key
    by_cases hpath : key = keyPath
    · subst hpath
      rfl
    by_cases hlink : key = keyLinkPath
    · subst hlink
      rfl
    by_cases hsize : key = keySize
    · subst hsize
      rfl
    by_cases huid : key = keyUid
    · subst huid
      rfl
    by_cases hgid : key = keyGid
    · subst hgid
      rfl
    by_cases htime : key = keyMtime
    · subst htime
      rfl
    by_cases huname : key = keyUname
    · subst huname
      rfl
    by_cases hgname : key = keyGname
    · subst hgname
      rfl
    simp only [if_neg hpath, if_neg hlink, if_neg hsize, if_neg huid, if_neg hgid, if_neg htime,
      if_neg huname, if_neg hgname]

def lastValue (key : List UInt8) (records : List PaxRecord) : Option (List UInt8) :=
  ((records.filter fun record => record.key = key).getLast?).map fun record => record.value

theorem lastPair_map (key : List UInt8) (records : List PaxRecord) :
    lastPair key (records.map fun record => record.pair) = lastValue key records := by
  rw [lastPair, lastValue, List.filter_map, List.getLast?_map, Option.map_map]
  rfl

theorem PaxValues.setAll_default (records : List PaxRecord) :
    PaxValues.default.setAll records =
      { path := lastValue keyPath records
        linkPath := lastValue keyLinkPath records
        size := (lastValue keySize records).map decimalValue
        uid := (lastValue keyUid records).map decimalValue
        gid := (lastValue keyGid records).map decimalValue
        modifiedTime := (lastValue keyMtime records).map timeValue
        userName := lastValue keyUname records
        groupName := lastValue keyGname records } := by
  simp only [setAll_eq, setPairs_eq, updated, lastPair_map, default, Option.or_none]

theorem PaxValues.setAll_append (values : PaxValues) (records others : List PaxRecord) :
    values.setAll (records ++ others) = (values.setAll records).setAll others :=
  List.foldl_append

end Deb
end Unpackio
