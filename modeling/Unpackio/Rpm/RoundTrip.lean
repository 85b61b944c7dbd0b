/-
RPM packages as a writer puts them together, and how the parser reads them.

The index of a header names values of one store.  Its records stand in the
order of the entries, whatever the order of the values in the store.
-/
import Unpackio.Rpm.Store

namespace Unpackio
namespace Rpm

open Except (ok_bind)

/-- An entry with the offset of its value in the store. -/
structure Placed where
  tag : Nat
  offset : Nat
  value : RpmValue

namespace Placed

variable (placed : Placed)

def entry : RpmHeaderEntry := { tag := placed.tag, value := placed.value }

def record : List UInt8 :=
  beBytes 4 placed.tag ++ (beBytes 4 placed.value.typeCode ++
    (beBytes 4 placed.offset ++ beBytes 4 placed.value.count))

@[simp] theorem length_record : placed.record.length = indexBytes := by
  simp [record, indexBytes]

/-- The store has the value where the record says, and the numbers of the record
have its width. -/
structure StoredIn (store : List UInt8) : Prop where
  tag_lt : placed.tag < 2 ^ 32
  offset_lt : placed.offset < 2 ^ 32
  stored : placed.value.StoredAt store placed.offset

variable {placed}

theorem StoredIn.count_lt {store : List UInt8} (h : placed.StoredIn store)
    (hstore : store.length < 2 ^ 32) : placed.value.count < 2 ^ 32 := by
  have hcount := placed.value.count_le_bytes
  have hbytes := h.stored.present.length_le
  rw [List.length_drop] at hbytes
  omega

end Placed

theorem parseEntry_placed {placed : Placed} {bytes store rest : List UInt8} {start ordinal : Nat}
    {model : ModelAccount} (hlen : bytes.length < 2 ^ 64) (hstore : store.length < 2 ^ 32)
    (hstored : placed.StoredIn store)
    (hstart : start + headerFixedBytes + ordinal * indexBytes ≤ bytes.length)
    (hdrop : bytes.drop (start + headerFixedBytes + ordinal * indexBytes) = placed.record ++ rest)
    (hroom : model.Room placed.value.cost) :
    (parseEntry bytes start store ordinal model).granted =
      .ok (placed.entry, model.add placed.value.cost) := by
  have hindex := checkedRange_of_drop hlen hstart hdrop "RPM header index range overflows"
    "RPM header index is truncated"
  have hposition : ((checkedAdd start headerFixedBytes).bind fun offset =>
      (tryFrom 64 (ordinal * indexBytes)).bind fun relative => checkedAdd offset relative) =
        some (start + headerFixedBytes + ordinal * indexBytes) := by
    rw [checkedAdd_of_lt (by omega), Option.bind_some, tryFrom_of_lt (by omega), Option.bind_some,
      checkedAdd_of_lt (by omega)]
  have hsmall : placed.record.length < 2 ^ 64 := by rw [Placed.length_record]; decide
  have hzero : placed.record.drop 0 = beBytes 4 placed.tag ++ _ := rfl
  have hfour := drop_of_append hzero
  have height := drop_of_append hfour
  have htwelve := drop_of_append height
  simp only [length_beBytes, Nat.reduceAdd] at hfour height htwelve
  rw [← List.append_nil (beBytes 4 placed.value.count)] at htwelve
  have htype : placed.value.typeCode < 256 ^ 4 :=
    Nat.lt_trans placed.value.typeCode_lt (by decide)
  have htag := beUint_of_drop hsmall (Nat.zero_le _) hzero hstored.tag_lt "header tag is truncated"
  have hvalueType := beUint_of_drop hsmall (by rw [Placed.length_record]; decide) hfour htype
    "header value type is truncated"
  have hoffset := beUint_of_drop hsmall (by rw [Placed.length_record]; decide) height
    hstored.offset_lt "header value offset is truncated"
  have hcount := beUint_of_drop hsmall (by rw [Placed.length_record]; decide) htwelve
    (hstored.count_lt hstore) "header value count is truncated"
  have hvalue := parseValue_storedAt (Nat.lt_trans hstore (by decide)) hstored.stored hroom
  rw [Placed.length_record] at hindex
  simp only [parseEntry, Prog.granted_bind, Prog.granted_lift, checkpoint_granted, ok_bind,
    hposition, okOr_some, hindex, beU32, htag, hvalueType, hoffset, hcount, hvalue,
    Prog.granted_pure]
  rfl

def indexRecords (entries : List Placed) : List UInt8 := entries.flatMap Placed.record

def indexCost (entries : List Placed) : Nat := (entries.map fun placed => placed.value.cost).sum

@[simp] theorem length_indexRecords (entries : List Placed) :
    (indexRecords entries).length = entries.length * indexBytes := by
  induction entries with
  | nil => rfl
  | cons placed entries ih =>
    rw [indexRecords, List.flatMap_cons, List.length_append, ← indexRecords, ih,
      Placed.length_record, List.length_cons, Nat.succ_mul, Nat.add_comm]

theorem indexLoop_placed {entries : List Placed} {bytes store rest : List UInt8}
    {start ordinal : Nat} {model : ModelAccount} (hlen : bytes.length < 2 ^ 64)
    (hstore : store.length < 2 ^ 32) (hstored : ∀ placed ∈ entries, placed.StoredIn store)
    (hstart : start + headerFixedBytes + ordinal * indexBytes ≤ bytes.length)
    (hdrop : bytes.drop (start + headerFixedBytes + ordinal * indexBytes) =
      indexRecords entries ++ rest)
    (hroom : model.Room (indexCost entries)) :
    (indexLoop bytes start store ordinal entries.length model).granted =
      .ok (entries.map Placed.entry, model.add (indexCost entries)) := by
  induction entries generalizing ordinal model with
  | nil => rfl
  | cons placed entries ih =>
    obtain ⟨hplaced, hstored⟩ := List.forall_mem_cons.mp hstored
    have hcost : indexCost (placed :: entries) = placed.value.cost + indexCost entries :=
      List.sum_cons
    rw [hcost] at hroom ⊢
    rw [indexRecords, List.flatMap_cons, List.append_assoc, ← indexRecords] at hdrop
    have hcount := congrArg List.length hdrop
    rw [List.length_drop, List.length_append, Placed.length_record] at hcount
    have hrest := drop_of_append hdrop
    have hnext : start + headerFixedBytes + ordinal * indexBytes + placed.record.length =
        start + headerFixedBytes + (ordinal + 1) * indexBytes := by
      rw [Placed.length_record, Nat.succ_mul, Nat.add_assoc _ _ indexBytes]
    rw [hnext] at hrest
    have hfits : start + headerFixedBytes + (ordinal + 1) * indexBytes ≤ bytes.length := by
      rw [← hnext, Placed.length_record]
      omega
    rw [List.length_cons, indexLoop]
    simp only [Prog.granted_bind,
      parseEntry_placed hlen hstore hplaced hstart hdrop hroom.left, ok_bind,
      ih hstored hfits hrest hroom.right, Prog.granted_pure, ModelAccount.add_add, List.map_cons]

/-- A header whose store has the value of every entry. -/
structure StoredHeader where
  entries : List Placed
  store : List UInt8
  count_lt : entries.length < 2 ^ 32
  store_lt : store.length < 2 ^ 32
  stored : ∀ placed ∈ entries, placed.StoredIn store

namespace StoredHeader

variable (header : StoredHeader)

def pairs : List (Nat × RpmValue) := header.entries.map fun placed => (placed.tag, placed.value)

def fixed : List UInt8 :=
  headerMagic ++ ([1] ++ (List.replicate 4 0 ++
    (beBytes 4 header.entries.length ++ beBytes 4 header.store.length)))

def bytes : List UInt8 := header.fixed ++ (indexRecords header.entries ++ header.store)

/-- The bytes that the account is charged. -/
def cost : Nat := header.entries.length * headerEntrySize + indexCost header.entries

def parsed : RpmHeader :=
  { entries := header.entries.map Placed.entry, rawSize := header.bytes.length }

@[simp] theorem length_fixed : header.fixed.length = headerFixedBytes := by
  simp [fixed, headerMagic, headerFixedBytes]

theorem length_bytes : header.bytes.length =
    headerFixedBytes + (header.entries.length * indexBytes + header.store.length) := by
  rw [bytes, List.length_append, List.length_append, length_fixed, length_indexRecords]

/-- The limits let the header through. -/
structure Admitted (limits : Limits) : Prop where
  count : header.entries.length ≤ limits.maxHeaderProperties
  size : header.bytes.length ≤ limits.maxHeaderBytes

end StoredHeader

variable {header : StoredHeader} {bytes rest : List UInt8} {start : Nat} {limits : Limits}
  (hlen : bytes.length < 2 ^ 64) (hstart : start ≤ bytes.length)
  (hdrop : bytes.drop start = header.bytes ++ rest) (hlimits : header.Admitted limits)
include hlen hstart hdrop hlimits

theorem parseExtent_bytes :
    parseExtent bytes start limits =
      .ok ⟨header.entries.length, start + headerFixedBytes + header.entries.length * indexBytes,
        header.store.length, start + header.bytes.length, header.bytes.length⟩ := by
  have hcount := congrArg List.length hdrop
  rw [List.length_drop, List.length_append] at hcount
  have hlength := header.length_bytes
  rw [StoredHeader.bytes, List.append_assoc] at hdrop
  have hfixed := checkedRange_of_drop hlen hstart hdrop "RPM header fixed range overflows"
    "RPM header fixed record is truncated"
  rw [StoredHeader.length_fixed] at hfixed
  have hsmall : header.fixed.length < 2 ^ 64 := by rw [StoredHeader.length_fixed]; decide
  have hzero : header.fixed.drop 0 = headerMagic ++ _ := rfl
  have hthree := drop_of_append hzero
  have hfour := drop_of_append hthree
  have height := drop_of_append hfour
  have htwelve := drop_of_append height
  rw [length_beBytes, ← List.append_nil (beBytes 4 header.store.length)] at htwelve
  have hmagic : getRange header.fixed 0 3 = some headerMagic :=
    getRange_of_drop (Nat.zero_le _) hzero rfl
  have hversion : header.fixed[3]? = some 1 := rfl
  have hreserved : getRange header.fixed 4 8 = some (List.replicate 4 0) :=
    getRange_of_drop (by rw [StoredHeader.length_fixed]; decide) hfour rfl
  have hzeros : ¬∃ byte ∈ List.replicate 4 (0 : UInt8), byte ≠ 0 := by decide
  have hentries : beUint 4 header.fixed 8 "header index count is truncated" =
      .ok header.entries.length :=
    beUint_of_drop hsmall (by rw [StoredHeader.length_fixed]; decide) height header.count_lt _
  have hstore : beUint 4 header.fixed 12 "header store size is truncated" =
      .ok header.store.length :=
    beUint_of_drop hsmall (by rw [StoredHeader.length_fixed]; decide) htwelve header.store_lt _
  have hstoreStart : ((checkedAdd start headerFixedBytes).bind fun offset =>
      checkedAdd offset (header.entries.length * indexBytes)) =
        some (start + headerFixedBytes + header.entries.length * indexBytes) := by
    rw [checkedAdd_of_lt (by omega), Option.bind_some, checkedAdd_of_lt (by omega)]
  have hfinish : start + headerFixedBytes + header.entries.length * indexBytes +
      header.store.length = start + header.bytes.length := by omega
  have hsize : start + header.bytes.length - start = header.bytes.length := by omega
  rw [parseExtent, hfixed, ok_bind, rejectIf_of_not (fun hne => hne hmagic), ok_bind,
    rejectIf_of_not (fun hne => hne hversion), ok_bind, hreserved, okOr_bind,
    rejectIf_of_not hzeros, ok_bind]
  simp only [beU32]
  rw [hentries, ok_bind, hstore, ok_bind, checkLimit_of_le hlimits.count, ok_bind,
    tryFrom_of_lt (by omega), okOr_bind, hstoreStart, okOr_bind, checkedAdd_bind (by omega),
    checkedSub_of_le (by omega), okOr_bind, hfinish, hsize, checkLimit_of_le hlimits.size]
  rfl

theorem parseHeader_bytes {model : ModelAccount} (hroom : model.Room header.cost) :
    (parseHeader bytes start limits model).granted =
      .ok ((header.parsed, start + header.bytes.length), model.add header.cost) := by
  have hextent := parseExtent_bytes hlen hstart hdrop hlimits
  have hcomplete := checkedRange_of_drop hlen hstart hdrop "RPM header range overflows"
    "RPM header is truncated"
  have hcount := congrArg List.length hdrop
  rw [List.length_drop, List.length_append, header.length_bytes] at hcount
  rw [StoredHeader.bytes, List.append_assoc, List.append_assoc] at hdrop
  have hindex := drop_of_append hdrop
  have hstoreDrop := drop_of_append hindex
  rw [StoredHeader.length_fixed] at hindex hstoreDrop
  rw [length_indexRecords] at hstoreDrop
  have hstore := checkedRange_of_drop hlen (by omega) hstoreDrop "RPM header store range overflows"
    "RPM header store is truncated"
  have hfirst : start + headerFixedBytes + 0 * indexBytes = start + headerFixedBytes := by
    rw [Nat.zero_mul, Nat.add_zero]
  rw [← hfirst] at hindex
  have hloop := indexLoop_placed hlen header.store_lt header.stored (by omega) hindex hroom.right
  simp only [parseHeader, Prog.granted_bind, Prog.granted_lift, hextent, ok_bind, hcomplete,
    consumeBytes_granted, hstore, ModelAccount.chargeElements_of_room hroom.left, hloop,
    Prog.granted_pure, ModelAccount.add_add]
  rfl

end Rpm
end Unpackio
