/-
A Huffman decoder returns the symbol whose canonical code stands at its place.
-/
import Unpackio.Deflate64.Huffman
import Unpackio.Foundation.CanonicalCode
import Mathlib.Tactic.Ring

namespace Unpackio
namespace Deflate64
namespace Huffman

open List (length_cons length_drop length_map map_cons)
open Except (bind_eq_ok ok_bind)
open BitPack CanonicalCode Cursor

/-- The array with these entries for the lengths up to the longest. -/
def table (entries : Nat → Nat) : List Nat := (List.range (maxCodeBits + 1)).map entries

theorem length_table (entries : Nat → Nat) : (table entries).length = maxCodeBits + 1 := by
  rw [table, length_map, List.length_range]

variable {length count symbol : Nat} {bytes : List UInt8}

theorem table_get (h : length ≤ maxCodeBits) (entries : Nat → Nat) :
    (table entries)[length]? = some (entries length) := by
  rw [table, List.getElem?_map, List.getElem?_range (Nat.lt_succ_of_le h), Option.map_some]

theorem table_set (length entry : Nat) (entries : Nat → Nat) :
    (table entries).set length entry = table (Function.update entries length entry) := by
  refine List.ext_getElem? fun i => ?_
  rw [List.getElem?_set, table, table, List.getElem?_map, List.getElem?_map, length_map,
    List.length_range]
  by_cases hrange : i < maxCodeBits + 1
  · rw [List.getElem?_range hrange, Option.map_some, Option.map_some]
    by_cases heq : length = i
    · rw [if_pos heq, heq, if_pos hrange, Function.update_self]
    · rw [if_neg heq, Function.update_of_ne (Ne.symm heq)]
  · rw [List.getElem?_eq_none (by rw [List.length_range]; omega), Option.map_none,
      Option.map_none]
    by_cases heq : length = i
    · rw [if_pos heq, if_neg (heq ▸ hrange)]
    · rw [if_neg heq]

theorem table_congr {entries others : Nat → Nat}
    (h : ∀ length ≤ maxCodeBits, entries length = others length) :
    table entries = table others :=
  List.map_congr_left fun length hlength =>
    h length (Nat.le_of_lt_succ (List.mem_range.mp hlength))

/-! ## Counting -/

theorem countLoop_spec {lengths : List UInt8}
    (hlengths : ∀ length ∈ lengths, length.toNat ≤ maxCodeBits) {entries : Nat → Nat}
    (hbound : ∀ length, entries length + lengths.length < 2 ^ 16) :
    countLoop lengths (table entries) =
      .ok (table fun length => entries length + codeCount (lengths.map UInt8.toNat) length) := by
  induction lengths generalizing entries with
  | nil => rfl
  | cons first lengths ih =>
    have hfirst := hlengths first List.mem_cons_self
    have hrest : ∀ length ∈ lengths, length.toNat ≤ maxCodeBits :=
      fun length hlength => hlengths length (List.mem_cons_of_mem _ hlength)
    rw [countLoop, rejectIf_of_not (Nat.not_lt.mpr hfirst), ok_bind]
    by_cases hzero : first.toNat = 0
    · rw [if_neg (not_not_intro hzero), ih hrest fun length => by
        have hlength := hbound length
        rw [length_cons] at hlength
        omega]
      refine congrArg _ (table_congr fun length _ => ?_)
      rw [map_cons, codeCount_cons, if_neg fun h => h.2 (h.1 ▸ hzero), Nat.add_zero]
    · have hentry := hbound first.toNat
      rw [length_cons] at hentry
      rw [if_pos hzero, table_get hfirst, okOr_some, ok_bind, tryFrom_of_lt (by omega),
        okOr_some, ok_bind, table_set, ih hrest fun length => by
          have hlength := hbound length
          rw [length_cons] at hlength
          by_cases heq : length = first.toNat
          · rw [heq, Function.update_self]
            omega
          · rw [Function.update_of_ne heq]
            omega]
      refine congrArg _ (table_congr fun length _ => ?_)
      rw [map_cons, codeCount_cons]
      by_cases heq : length = first.toNat
      · rw [heq, Function.update_self, if_pos ⟨rfl, hzero⟩]
        omega
      · rw [Function.update_of_ne heq, if_neg fun h => heq h.1.symm, Nat.add_zero]

theorem table_drop (entries : Nat → Nat) :
    (table entries).drop 1 = (List.range' 1 maxCodeBits).map entries := rfl

variable {lengths : List Nat}

theorem checkedAdd_firstIndex (hcount : lengths.length ≤ maxHuffmanSymbols) (length : Nat) :
    checkedAdd (firstIndex lengths length) (codeCount lengths length) =
      some (firstIndex lengths (length + 1)) := by
  have hle := firstIndex_le_length lengths (length + 1)
  have hmax : maxHuffmanSymbols = 320 := rfl
  exact checkedAdd_of_lt (show firstIndex lengths (length + 1) < 2 ^ 64 by omega)

theorem sumLoop_spec (hcount : lengths.length ≤ maxHuffmanSymbols) (length count : Nat) :
    sumLoop ((List.range' length count).map (codeCount lengths)) (firstIndex lengths length) =
      .ok (firstIndex lengths (length + count)) := by
  induction count generalizing length with
  | zero => rfl
  | succ count ih =>
    rw [List.range'_succ, map_cons, sumLoop, checkedAdd_firstIndex hcount, okOr_bind, ih,
      Nat.add_right_comm, Nat.add_assoc]

theorem codeCount_le (lengths : List Nat) (length : Nat) :
    codeCount lengths length ≤ lengths.length := by
  rw [codeCount]
  split_ifs
  · exact Nat.zero_le _
  · exact List.count_le_length

def available (lengths : List Nat) (length : Nat) : Int :=
  2 ^ length - (firstCode lengths length + codeCount lengths length : Nat)

theorem available_succ (lengths : List Nat) (length : Nat) :
    available lengths (length + 1) =
      available lengths length * 2 - codeCount lengths (length + 1) := by
  rw [available, available, firstCode, pow_succ]
  push_cast
  ring

theorem available_nonneg :
    0 ≤ available lengths length ↔
      firstCode lengths length + codeCount lengths length ≤ 2 ^ length := by
  rw [available, Int.sub_nonneg]
  exact_mod_cast Iff.rfl

theorem availableLoop_spec (hcount : lengths.length ≤ maxHuffmanSymbols)
    (hlength : length + count ≤ maxCodeBits) (hroom : 0 ≤ available lengths length) :
    availableLoop ((List.range' (length + 1) count).map (codeCount lengths))
        (available lengths length) = .ok () ↔
      ∀ longer, length < longer → longer ≤ length + count → 0 ≤ available lengths longer := by
  induction count generalizing length with
  | zero => exact ⟨fun _ longer hlt hle => absurd hle (by omega), fun _ => rfl⟩
  | succ count ih =>
    have hmax : maxHuffmanSymbols = 320 := rfl
    have hbits : maxCodeBits = 15 := rfl
    have hcodes := codeCount_le lengths (length + 1)
    have hle : available lengths length ≤ 2 ^ 15 := by
      have hpower : (2 : Int) ^ length ≤ 2 ^ 15 := by
        exact_mod_cast Nat.pow_le_pow_right Nat.two_pos (show length ≤ 15 by omega)
      rw [available]
      omega
    have hdouble : int32? (available lengths length * 2) = some (available lengths length * 2) :=
      if_pos (by omega)
    have hnext : int32? (available lengths length * 2 - codeCount lengths (length + 1)) =
        some (available lengths (length + 1)) := by
      rw [available_succ]
      exact if_pos (by omega)
    rw [List.range'_succ, map_cons, availableLoop, hdouble, Option.bind_some, hnext, okOr_bind]
    by_cases hfits : 0 ≤ available lengths (length + 1)
    · rw [rejectIf_of_not (Int.not_lt.mpr hfits), ok_bind, ih (by omega) hfits]
      refine ⟨fun h longer hlt hle => ?_, fun h longer hlt hle => h longer (by omega) (by omega)⟩
      by_cases heq : longer = length + 1
      · rw [heq]
        exact hfits
      · exact h longer (by omega) (by omega)
    · rw [rejectIf_of (Int.not_le.mp hfits)]
      refine ⟨fun h => (nomatch h), fun h => ?_⟩
      exact absurd (h (length + 1) (by omega) (by omega)) hfits

theorem availableLoop_iff (hcount : lengths.length ≤ maxHuffmanSymbols) :
    availableLoop ((table (codeCount lengths)).drop 1) 1 = .ok () ↔
      NotOversubscribed lengths maxCodeBits := by
  have hone : available lengths 0 = 1 := rfl
  have hspec := availableLoop_spec hcount (show 0 + maxCodeBits ≤ maxCodeBits by decide)
    (hone ▸ by decide)
  rw [hone] at hspec
  rw [table_drop, hspec]
  refine ⟨fun h length hle => available_nonneg.mp ?_,
    fun h length _ hle => available_nonneg.mpr (h length (by omega))⟩
  rcases Nat.eq_zero_or_pos length with rfl | hpos
  · rw [hone]
    decide
  · exact h length hpos (by omega)

theorem offsetLoop_spec (hcount : lengths.length ≤ maxHuffmanSymbols) (remaining : Nat)
    (hlength : length + remaining ≤ maxCodeBits + 1) (offsets : Nat → Nat) :
    offsetLoop (table (codeCount lengths)) remaining length (table offsets)
        (firstIndex lengths length) =
      .ok (table fun other =>
        if length ≤ other ∧ other < length + remaining then firstIndex lengths other
        else offsets other) := by
  induction remaining generalizing length offsets with
  | zero =>
    refine congrArg _ (table_congr fun other _ => ?_)
    rw [if_neg (by omega)]
  | succ remaining ih =>
    rw [offsetLoop, rejectIf_of_not (by rw [length_table]; omega), ok_bind, table_get (by omega),
      okOr_bind, checkedAdd_firstIndex hcount, okOr_bind, table_set, ih (by omega)]
    refine congrArg _ (table_congr fun other _ => ?_)
    by_cases heq : other = length
    · rw [if_neg (by omega), if_pos (by omega), heq, Function.update_self]
    · rw [Function.update_of_ne heq]
      by_cases hinside : length + 1 ≤ other ∧ other < length + 1 + remaining
      · rw [if_pos hinside, if_pos (by omega)]
      · rw [if_neg hinside, if_neg (by omega)]

theorem offsetLoop_offsets (hcount : lengths.length ≤ maxHuffmanSymbols) :
    offsetLoop (table (codeCount lengths)) maxCodeBits 1
        (List.replicate (maxCodeBits + 1) 0) 0 = .ok (table (firstIndex lengths)) := by
  have hspec := offsetLoop_spec hcount maxCodeBits (show 1 + maxCodeBits ≤
    maxCodeBits + 1 by decide)
    (fun _ => 0)
  have hzero : table (fun _ => 0) = List.replicate (maxCodeBits + 1) 0 := rfl
  rw [hzero, show firstIndex lengths 1 = 0 from rfl] at hspec
  rw [hspec]
  refine congrArg _ (table_congr fun length hlength => ?_)
  by_cases hpos : 1 ≤ length
  · rw [if_pos (by omega)]
  · rw [if_neg (by omega), show length = 0 by omega]
    rfl

/-- Every symbol with a code stands at its index. -/
def Ordered (lengths symbols : List Nat) (count : Nat) : Prop :=
  ∀ symbol < count, lengthOf lengths symbol ≠ 0 →
    symbols[index lengths symbol]? = some symbol

theorem Ordered.set {symbols : List Nat} (h : Ordered lengths symbols symbol)
    (hcode : lengthOf lengths symbol ≠ 0) (hroom : index lengths symbol < symbols.length) :
    Ordered lengths (symbols.set (index lengths symbol) symbol) (symbol + 1) := by
  intro other hother hothercode
  by_cases heq : other = symbol
  · rw [heq, List.getElem?_set_self hroom]
  · rw [List.getElem?_set_ne fun hindex => heq (index_injective hcode hothercode hindex).symm]
    exact h other (by omega) hothercode

theorem symbolLoop_spec {rest : List UInt8} (hcount : bytes.length ≤ maxHuffmanSymbols)
    (hlengths : ∀ length ∈ bytes, length.toNat ≤ maxCodeBits) (hrest : bytes.drop symbol = rest)
    {symbols : List Nat} (hsymbols : symbols.length = maxHuffmanSymbols)
    (hordered : Ordered (bytes.map UInt8.toNat) symbols symbol) :
    ∃ result, symbolLoop rest symbol (table fun length =>
        firstIndex (bytes.map UInt8.toNat) length +
          codeCount ((bytes.map UInt8.toNat).take symbol) length) symbols = .ok result ∧
      Ordered (bytes.map UInt8.toNat) result bytes.length := by
  induction rest generalizing symbol symbols with
  | nil =>
    have hend : bytes.length ≤ symbol := List.drop_eq_nil_iff.mp hrest
    exact ⟨symbols, rfl, fun other hother => hordered other (by omega)⟩
  | cons first rest ih =>
    have hinside : symbol < bytes.length := by
      refine Nat.lt_of_not_le fun hle => ?_
      rw [List.drop_eq_nil_of_le hle] at hrest
      exact absurd hrest (List.cons_ne_nil _ _).symm
    obtain ⟨hfirst, hdrop⟩ : bytes[symbol] = first ∧ bytes.drop (symbol + 1) = rest := by
      rw [List.drop_eq_getElem_cons hinside] at hrest
      exact List.cons.inj hrest
    have hmem : first.toNat ≤ maxCodeBits := hlengths first (hfirst ▸ List.getElem_mem hinside)
    have hget : (bytes.map UInt8.toNat)[symbol]? = some first.toNat := by
      rw [List.getElem?_map, List.getElem?_eq_getElem hinside, hfirst, Option.map_some]
    have hlength : lengthOf (bytes.map UInt8.toNat) symbol = first.toNat := by
      rw [lengthOf, hget, Option.getD_some]
    have htake : (bytes.map UInt8.toNat).take (symbol + 1) =
        (bytes.map UInt8.toNat).take symbol ++ [first.toNat] := by
      rw [List.take_add_one, hget]
      rfl
    rw [symbolLoop]
    by_cases hzero : first.toNat = 0
    · obtain ⟨result, hrun, hresult⟩ := ih hdrop hsymbols fun other hother hcode => by
        by_cases heq : other = symbol
        · exact absurd (hlength.trans hzero) (heq ▸ hcode)
        · exact hordered other (by omega) hcode
      refine ⟨result, ?_, hresult⟩
      rw [if_pos hzero, ← hrun]
      congr 1
      refine table_congr fun length _ => ?_
      rw [htake, codeCount_concat, if_neg fun h => h.2 (h.1 ▸ hzero), Nat.add_zero]
    · have hcode : lengthOf (bytes.map UInt8.toNat) symbol ≠ 0 := hlength ▸ hzero
      have hindex : firstIndex (bytes.map UInt8.toNat) first.toNat +
          codeCount ((bytes.map UInt8.toNat).take symbol) first.toNat =
            index (bytes.map UInt8.toNat) symbol := by
        rw [index, rank_eq_codeCount hcode, hlength]
      have hmax : maxHuffmanSymbols = 320 := rfl
      have hroom : index (bytes.map UInt8.toNat) symbol < symbols.length := by
        have hlt := index_lt hcode (hlength.trans_le hmem)
        have hle := firstIndex_le_length (bytes.map UInt8.toNat) (maxCodeBits + 1)
        rw [length_map] at hle
        omega
      obtain ⟨result, hrun, hresult⟩ := ih hdrop (by rw [List.length_set]; exact hsymbols)
        (hordered.set hcode hroom)
      refine ⟨result, ?_, hresult⟩
      rw [if_neg hzero, table_get hmem, okOr_bind, hindex, rejectIf_of_not (Nat.not_le.mpr hroom),
        ok_bind, tryFrom_of_lt (by omega), okOr_bind, checkedAdd_bind (by omega), table_set, ← hrun]
      congr 1
      refine table_congr fun length _ => ?_
      rw [htake, codeCount_concat]
      by_cases heq : length = first.toNat
      · rw [heq, Function.update_self, if_pos ⟨rfl, hzero⟩, ← hindex, Nat.add_assoc]
      · rw [Function.update_of_ne heq, if_neg fun h => heq h.1.symm, Nat.add_zero]

/-- The tables are those of a canonical code. -/
structure Decodes (huffman : Huffman) (lengths : List Nat) : Prop where
  counts : huffman.counts = table (codeCount lengths)
  symbolCount : huffman.symbolCount = firstIndex lengths (maxCodeBits + 1)
  symbols : ∀ symbol, lengthOf lengths symbol ≠ 0 →
    huffman.symbols[index lengths symbol]? = some symbol

section

variable (hcount : bytes.length ≤ maxHuffmanSymbols)
  (hlengths : ∀ length ∈ bytes, length.toNat ≤ maxCodeBits)
include hcount hlengths

theorem fromLengths_eq (allowEmpty : Bool) :
    ∃ symbols, Ordered (bytes.map UInt8.toNat) symbols bytes.length ∧
      fromLengths bytes allowEmpty = (do
        rejectIf (firstIndex (bytes.map UInt8.toNat) (maxCodeBits + 1) = 0 ∧ ¬allowEmpty)
          (formatError "Deflate64 Huffman tree is empty")
        availableLoop ((table (codeCount (bytes.map UInt8.toNat))).drop 1) 1
        return ⟨table (codeCount (bytes.map UInt8.toNat)), symbols,
          firstIndex (bytes.map UInt8.toNat) (maxCodeBits + 1)⟩) := by
  have hmax : maxHuffmanSymbols = 320 := rfl
  have hmapped : (bytes.map UInt8.toNat).length ≤ maxHuffmanSymbols := by
    rwa [length_map]
  obtain ⟨symbols, hsymbols, hordered⟩ := symbolLoop_spec hcount hlengths
    (show bytes.drop 0 = bytes from rfl)
    (show (List.replicate maxHuffmanSymbols 0).length = maxHuffmanSymbols from
      List.length_replicate)
    fun symbol hsymbol => absurd hsymbol (Nat.not_lt_zero _)
  refine ⟨symbols, hordered, ?_⟩
  have hcounts : countLoop bytes (List.replicate (maxCodeBits + 1) 0) =
      .ok (table (codeCount (bytes.map UInt8.toNat))) := by
    have hspec : countLoop bytes (table fun _ => 0) = .ok (table fun length =>
        0 + codeCount (bytes.map UInt8.toNat) length) :=
      countLoop_spec hlengths fun _ => by omega
    rw [show table (fun _ => 0) = List.replicate (maxCodeBits + 1) 0 from rfl] at hspec
    rw [hspec]
    exact congrArg _ (table_congr fun length _ => Nat.zero_add _)
  have hsum := sumLoop_spec hmapped 1 maxCodeBits
  have hoffsets : table (fun length => firstIndex (bytes.map UInt8.toNat) length +
      codeCount ((bytes.map UInt8.toNat).take 0) length) =
        table (firstIndex (bytes.map UInt8.toNat)) :=
    table_congr fun length _ => by rw [List.take_zero, codeCount_nil, Nat.add_zero]
  rw [hoffsets] at hsymbols
  rw [← table_drop, show firstIndex (bytes.map UInt8.toNat) 1 = 0 from rfl] at hsum
  rw [fromLengths, rejectIf_of_not (Nat.not_lt.mpr hcount), ok_bind, hcounts,
    ok_bind, hsum, ok_bind, offsetLoop_offsets hmapped, ok_bind, hsymbols,
    Nat.add_comm 1 maxCodeBits]
  rfl

theorem fromLengths_ok {allowEmpty : Bool}
    (hsome : allowEmpty = true ∨ ∃ length ∈ bytes, length ≠ 0)
    (hfits : NotOversubscribed (bytes.map UInt8.toNat) maxCodeBits) :
    ∃ huffman, fromLengths bytes allowEmpty = .ok huffman ∧
      huffman.Decodes (bytes.map UInt8.toNat) := by
  obtain ⟨symbols, hordered, hrun⟩ := fromLengths_eq hcount hlengths allowEmpty
  have hmapped : (bytes.map UInt8.toNat).length ≤ maxHuffmanSymbols := by
    rwa [length_map]
  have hnonempty :
      ¬(firstIndex (bytes.map UInt8.toNat) (maxCodeBits + 1) = 0 ∧ ¬allowEmpty = true) := by
    rintro ⟨hzero, hallow⟩
    obtain ⟨length, hmem, hne⟩ := hsome.resolve_left hallow
    obtain ⟨symbol, hsymbol, heq⟩ := List.getElem_of_mem hmem
    have hlength : lengthOf (bytes.map UInt8.toNat) symbol = length.toNat := by
      rw [lengthOf, List.getElem?_map, List.getElem?_eq_getElem hsymbol, heq]
      rfl
    have hpos : length.toNat ≠ 0 := fun h => hne (UInt8.toNat_inj.mp h)
    have hlt := index_lt (hlength ▸ hpos : lengthOf (bytes.map UInt8.toNat) symbol ≠ 0)
      (hlength.trans_le (hlengths length hmem))
    omega
  refine ⟨⟨table (codeCount (bytes.map UInt8.toNat)), symbols,
    firstIndex (bytes.map UInt8.toNat) (maxCodeBits + 1)⟩, ?_, rfl, rfl, fun symbol hcode => ?_⟩
  · rw [hrun, rejectIf_of_not hnonempty, ok_bind, (availableLoop_iff hmapped).mpr hfits]
    rfl
  · have hlt := symbol_lt hcode
    rw [length_map] at hlt
    exact hordered symbol hlt hcode

theorem fromLengths_oversubscribed (allowEmpty : Bool)
    (hfits : ¬NotOversubscribed (bytes.map UInt8.toNat) maxCodeBits) :
    ∃ e, fromLengths bytes allowEmpty = .error e := by
  obtain ⟨symbols, -, hrun⟩ := fromLengths_eq hcount hlengths allowEmpty
  have hmapped : (bytes.map UInt8.toNat).length ≤ maxHuffmanSymbols := by
    rwa [length_map]
  cases hresult : fromLengths bytes allowEmpty with
  | error e => exact ⟨e, rfl⟩
  | ok huffman =>
    rw [hrun] at hresult
    obtain ⟨_, _, hresult⟩ := bind_eq_ok.mp hresult
    obtain ⟨_, havailable, _⟩ := bind_eq_ok.mp hresult
    exact absurd ((availableLoop_iff hmapped).mp havailable) hfits

end

/-! ## Decoding -/

/-- The number that the first bits behind a place write, the first of them weighing most. -/
def front (input : List UInt8) (start count : Nat) : Nat :=
  ofBits (((bytesToBits input).drop start).take count).reverse

theorem front_lt (input : List UInt8) (start count : Nat) :
    front input start count < 2 ^ count := by
  refine (ofBits_lt _).trans_le (Nat.pow_le_pow_right Nat.two_pos ?_)
  rw [List.length_reverse]
  exact List.length_take_le _ _

theorem front_succ {input : List UInt8} {start : Nat} (hinside : start + count < 8 * input.length) :
    front input start (count + 1) = 2 * front input start count +
      ofBits (((bytesToBits input).drop (start + count)).take 1) := by
  have hlength : count < ((bytesToBits input).drop start).length := by
    rw [length_drop, length_bytesToBits]
    omega
  have hone : ((bytesToBits input).drop (start + count)).take 1 =
      [((bytesToBits input).drop start)[count]] := by
    rw [← List.drop_drop, List.drop_eq_getElem_cons hlength]
    rfl
  rw [front, List.take_add_one, List.getElem?_eq_getElem hlength, List.reverse_append, hone]
  exact Nat.add_comm _ _

/-- A round of the loop, behind `count` bits that are no code. -/
theorem decodeLoop_step {huffman : Huffman} (h : huffman.Decodes lengths)
    (hfits : NotOversubscribed lengths maxCodeBits) (hlengths : lengths.length < 2 ^ 63)
    {input : List UInt8} (hinput : input.length < 2 ^ 64) {start : Nat} (remaining : Nat)
    (hcount : count + 1 ≤ maxCodeBits)
    (hfirst : firstCode lengths count + codeCount lengths count ≤ front input start count)
    (hinside : start + count < 8 * input.length) :
    (decodeLoop huffman (remaining + 1) (count + 1) (2 * front input start count)
        (firstCode lengths (count + 1)) (firstIndex lengths (count + 1))
        (BitReader.medium.place input (start + count))).granted =
      if front input start (count + 1) <
          firstCode lengths (count + 1) + codeCount lengths (count + 1) then
        okOr huffman.symbols[firstIndex lengths (count + 1) +
          (front input start (count + 1) - firstCode lengths (count + 1))]?
          (formatError "Deflate64 Huffman symbol is missing") >>= fun symbol =>
            .ok (symbol, BitReader.medium.place input (start + (count + 1)))
      else (decodeLoop huffman remaining (count + 2) (2 * front input start (count + 1))
        (firstCode lengths (count + 2)) (firstIndex lengths (count + 2))
        (BitReader.medium.place input (start + (count + 1)))).granted := by
  have hread := BitReader.readBits_place hinput hinside.le (show 1 ≤ 24 by decide)
  rw [if_pos (Nat.succ_le_of_lt hinside), Nat.add_assoc] at hread
  have hbit : ofBits (((bytesToBits input).drop (start + count)).take 1) < 2 ^ 1 :=
    (ofBits_lt _).trans_le (Nat.pow_le_pow_right Nat.two_pos (List.length_take_le _ _))
  have hcode : 2 * front input start count |||
      ofBits (((bytesToBits input).drop (start + count)).take 1) =
        front input start (count + 1) := by
    have hor := Nat.shiftLeft_add_eq_or_of_lt hbit (front input start count)
    rw [Nat.shiftLeft_eq, Nat.pow_one, Nat.mul_comm] at hor
    rw [← hor, front_succ hinside]
  have hroom := hfits (count + 1) hcount
  have hpower : 2 ^ (count + 1) ≤ 2 ^ 15 := Nat.pow_le_pow_right Nat.two_pos hcount
  have hlt := front_lt input start (count + 1)
  have hget : huffman.counts[count + 1]? = some (codeCount lengths (count + 1)) := by
    rw [h.counts, table_get hcount]
  have hindices := firstIndex_le_length lengths (count + 2)
  have hindex : firstIndex lengths (count + 2) =
      firstIndex lengths (count + 1) + codeCount lengths (count + 1) := rfl
  rw [decodeLoop, granted_bind, hread, ok_bind, granted_bind, granted_except, hget, okOr_bind,
    ok_bind, granted_bind, granted_except, tryFrom_of_lt (by omega), okOr_bind, ok_bind, hcode]
  by_cases hfound : front input start (count + 1) <
      firstCode lengths (count + 1) + codeCount lengths (count + 1)
  · -- The code is at or behind the first of its length, which all shorter ones are in front of.
    have hbehind : firstCode lengths (count + 1) ≤ front input start (count + 1) := by
      rw [firstCode, front_succ hinside]
      omega
    have hplace : firstIndex lengths (count + 1) +
        (front input start (count + 1) - firstCode lengths (count + 1)) < huffman.symbolCount := by
      have hle : firstIndex lengths (count + 1) + codeCount lengths (count + 1) ≤
          firstIndex lengths (maxCodeBits + 1) := firstIndex_le (by omega)
      rw [h.symbolCount]
      omega
    rw [if_pos hfound, if_pos hfound, granted_bind, granted_except, checkedSub_of_le hbehind,
      okOr_bind, ok_bind, granted_bind, granted_except, checkedAdd_bind (by omega), ok_bind,
      granted_bind, granted_except, rejectIf_of_not (Nat.not_le.mpr hplace), ok_bind, ok_bind,
      granted_except]
  · rw [if_neg hfound, if_neg hfound, granted_bind, granted_except, checkedAdd_bind (by omega),
      ok_bind, Nat.shiftLeft_eq, Nat.shiftLeft_eq, Nat.mod_eq_of_lt (by omega),
      Nat.mod_eq_of_lt (by omega), Nat.pow_one, Nat.mul_comm, Nat.mul_comm _ 2]
    rfl

theorem front_of_code (hcode : lengthOf lengths symbol ≠ 0)
    (hfits : NotOversubscribed lengths maxCodeBits)
    (hlength : lengthOf lengths symbol ≤ maxCodeBits) {input : List UInt8} {start : Nat}
    (hbits : codeBits lengths symbol <+: (bytesToBits input).drop start)
    (hcount : count ≤ lengthOf lengths symbol) :
    front input start count = code lengths symbol >>> (lengthOf lengths symbol - count) := by
  obtain ⟨rest, hrest⟩ := hbits
  have hle : count ≤ (codeBits lengths symbol).length := by rwa [length_codeBits]
  rw [front, ← hrest, List.take_append_of_le_length hle, codeBits, List.take_reverse,
    List.reverse_reverse, length_bitsOf, ofBits_drop, ofBits_bitsOf,
    Nat.mod_eq_of_lt (code_lt hcode hfits hlength)]

variable {huffman : Huffman} {input : List UInt8} {start : Nat}

section

variable {remaining : Nat} (h : huffman.Decodes lengths)
  (hfits : NotOversubscribed lengths maxCodeBits) (hlengths : lengths.length < 2 ^ 63)
  (hinput : input.length < 2 ^ 64)
include h hfits hlengths hinput

theorem decodeLoop_code (hcode : lengthOf lengths symbol ≠ 0)
    (hlength : lengthOf lengths symbol ≤ maxCodeBits)
    (hbits : codeBits lengths symbol <+: (bytesToBits input).drop start)
    (hremaining : remaining + count = maxCodeBits) (hcount : count < lengthOf lengths symbol) :
    (decodeLoop huffman remaining (count + 1) (2 * front input start count)
        (firstCode lengths (count + 1)) (firstIndex lengths (count + 1))
        (BitReader.medium.place input (start + count))).granted =
      .ok (symbol, BitReader.medium.place input (start + lengthOf lengths symbol)) := by
  have hinside := hbits.length_le
  rw [length_codeBits, length_drop, length_bytesToBits] at hinside
  have hfront : ∀ {count : Nat}, count ≤ lengthOf lengths symbol → front input start count =
      code lengths symbol >>> (lengthOf lengths symbol - count) :=
    front_of_code hcode hfits hlength hbits
  induction remaining generalizing count with
  | zero => omega
  | succ remaining ih =>
    have hfirst : firstCode lengths count + codeCount lengths count ≤ front input start count := by
      rw [hfront hcount.le]
      exact front_ge hcount
    rw [decodeLoop_step h hfits hlengths hinput remaining (by omega) hfirst (by omega)]
    rcases Nat.lt_or_eq_of_le (show count + 1 ≤ lengthOf lengths symbol from hcount) with
      hmore | hlast
    · have hnot : ¬front input start (count + 1) <
          firstCode lengths (count + 1) + codeCount lengths (count + 1) := by
        rw [hfront hcount]
        exact Nat.not_lt.mpr (front_ge hmore)
      rw [if_neg hnot]
      exact ih (by omega) hmore
    · have hwhole : front input start (count + 1) = code lengths symbol := by
        rw [hfront hcount, ← hlast, Nat.sub_self]
        rfl
      have hrank := rank_lt hcode
      have hvalue : code lengths symbol = firstCode lengths (count + 1) + rank lengths symbol := by
        rw [code, ← hlast]
      have hindex : firstIndex lengths (count + 1) +
          (code lengths symbol - firstCode lengths (count + 1)) = index lengths symbol := by
        rw [hvalue, Nat.add_sub_cancel_left, index, ← hlast]
      rw [← hlast] at hrank
      rw [hwhole, if_pos (by omega), hindex, h.symbols symbol hcode, hlast]
      rfl

theorem decodeLoop_invalid (hnone : ∀ symbol, lengthOf lengths symbol ≠ 0 →
      ¬codeBits lengths symbol <+: (bytesToBits input).drop start)
    (hremaining : remaining + count = maxCodeBits) (hinside : start + count ≤ 8 * input.length)
    (hfirst : firstCode lengths count + codeCount lengths count ≤ front input start count) :
    (decodeLoop huffman remaining (count + 1) (2 * front input start count)
        (firstCode lengths (count + 1)) (firstIndex lengths (count + 1))
        (BitReader.medium.place input (start + count))).granted =
      .error (if start + maxCodeBits ≤ 8 * input.length then
        formatError "invalid Deflate64 Huffman code" else BitReader.medium.cut) := by
  induction remaining generalizing count with
  | zero =>
    rw [if_pos (by omega)]
    rfl
  | succ remaining ih =>
    by_cases hmore : start + count < 8 * input.length
    · rw [decodeLoop_step h hfits hlengths hinput remaining (by omega) hfirst hmore]
      have hnot : ¬front input start (count + 1) <
          firstCode lengths (count + 1) + codeCount lengths (count + 1) := by
        intro hfound
        have hbehind : firstCode lengths (count + 1) ≤ front input start (count + 1) := by
          rw [firstCode, front_succ hmore]
          omega
        have hplace : front input start (count + 1) - firstCode lengths (count + 1) <
            codeCount lengths (count + 1) := by omega
        obtain ⟨symbol, hlength, hrank⟩ := exists_rank hplace
        have hcode : code lengths symbol = front input start (count + 1) := by
          rw [code, hlength, hrank]
          omega
        have htake : (((bytesToBits input).drop start).take (count + 1)).reverse.length =
            count + 1 := by
          rw [List.length_reverse, List.length_take, length_drop, length_bytesToBits]
          omega
        have hbits :
            codeBits lengths symbol = ((bytesToBits input).drop start).take (count + 1) := by
          have hwhole := bitsOf_ofBits (((bytesToBits input).drop start).take (count + 1)).reverse
          rw [htake] at hwhole
          rw [codeBits, hlength, hcode, front, hwhole, List.reverse_reverse]
        exact hnone symbol (by omega) (hbits ▸ List.take_prefix _ _)
      rw [if_neg hnot]
      exact ih (by omega) hmore (Nat.not_lt.mp hnot)
    · have hread := BitReader.readBits_place hinput hinside (show 1 ≤ 24 by decide)
      rw [if_neg (by omega)] at hread
      rw [decodeLoop, granted_bind, hread, if_neg (by omega)]
      rfl

end

/-- Code lengths whose codes fit, and not all zero unless this is allowed, give a
decoder of their canonical code: it returns the symbol whose code stands at a place, and goes
on behind the code; and it fails where no code stands.  Oversubscribed lengths are refused. -/
theorem fromLengths_exact (bytes : List UInt8) (allowEmpty : Bool)
    (hcount : bytes.length ≤ maxHuffmanSymbols)
    (hlengths : ∀ length ∈ bytes, length.toNat ≤ maxCodeBits) :
    (kraftSum (bytes.map UInt8.toNat) maxCodeBits ≤ 2 ^ maxCodeBits →
      (allowEmpty = true ∨ ∃ length ∈ bytes, length ≠ 0) →
        ∃ huffman, fromLengths bytes allowEmpty = .ok huffman ∧
          ∀ (input : List UInt8) (start : Nat), input.length < 2 ^ 64 →
            start ≤ 8 * input.length →
              (∀ symbol, lengthOf (bytes.map UInt8.toNat) symbol ≠ 0 →
                codeBits (bytes.map UInt8.toNat) symbol <+: (bytesToBits input).drop start →
                  (huffman.decode (BitReader.medium.place input start)).granted =
                    .ok (symbol, BitReader.medium.place input
                      (start + lengthOf (bytes.map UInt8.toNat) symbol))) ∧
              ((∀ symbol, lengthOf (bytes.map UInt8.toNat) symbol ≠ 0 →
                ¬codeBits (bytes.map UInt8.toNat) symbol <+: (bytesToBits input).drop start) →
                  (huffman.decode (BitReader.medium.place input start)).granted =
                    .error (if start + maxCodeBits ≤ 8 * input.length then
                        formatError "invalid Deflate64 Huffman code"
                      else formatError "truncated Deflate64 bitstream"))) ∧
    (2 ^ maxCodeBits < kraftSum (bytes.map UInt8.toNat) maxCodeBits →
      ∃ e, fromLengths bytes allowEmpty = .error e) := by
  have hmax : maxHuffmanSymbols = 320 := rfl
  have hsmall : (bytes.map UInt8.toNat).length < 2 ^ 63 := by
    rw [length_map]
    omega
  have hmapped : ∀ length ∈ bytes.map UInt8.toNat, length ≤ maxCodeBits := by
    intro length hmem
    obtain ⟨byte, hbyte, rfl⟩ := List.mem_map.mp hmem
    exact hlengths byte hbyte
  rw [← Nat.not_le, ← notOversubscribed_iff hmapped]
  refine ⟨fun hfits hsome => ?_, fromLengths_oversubscribed hcount hlengths allowEmpty⟩
  obtain ⟨huffman, hrun, hdecodes⟩ := fromLengths_ok hcount hlengths hsome hfits
  refine ⟨huffman, hrun, fun input start hinput hstart => ⟨?_, ?_⟩⟩
  · intro symbol hcode hbits
    have hle : lengthOf (bytes.map UInt8.toNat) symbol ≤ maxCodeBits :=
      hmapped _ (List.mem_of_getElem? (lengthOf_eq hcode))
    exact decodeLoop_code hdecodes hfits hsmall hinput hcode hle hbits
      (Nat.add_zero maxCodeBits) (Nat.pos_of_ne_zero hcode)
  · intro hnone
    exact decodeLoop_invalid hdecodes hfits hsmall hinput hnone (Nat.add_zero maxCodeBits)
      hstart (Nat.zero_le _)

/-- Two codes of one bit, and an input that begins with the second. -/
theorem fromLengths_exact_pair :
    ∃ huffman, fromLengths [1, 1] false = .ok huffman ∧
      (huffman.decode (BitReader.medium.place [255] 0)).granted =
        .ok (1, BitReader.medium.place [255] 1) := by
  obtain ⟨huffman, hrun, hdecode⟩ := (fromLengths_exact [1, 1] false (by decide)
    (by simp [maxCodeBits])).1 (by decide) (Or.inr ⟨1, by simp⟩)
  exact ⟨huffman, hrun, (hdecode [255] 0 (by decide) (by decide)).1 1 (by decide) (by decide)⟩

end Huffman
end Deflate64
end Unpackio
