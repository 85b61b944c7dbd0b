/-
The decoder of Deflate64 takes the bits of blocks, and adds what they stand for.
-/
import Unpackio.Deflate64.Decode
import Unpackio.Deflate64.HuffmanExact
import Unpackio.Foundation.DeflateFormat

namespace Unpackio
namespace Deflate64

open List (append_assoc append_nil flatMap_cons length_append length_cons length_map length_nil
  length_replicate length_singleton map_append mem_of_getElem?)
open Except (ok_bind)
open BitPack CanonicalCode Cursor Lz77
open DeflateFormat (Block BlockCode DistanceChoice Item LengthChoice Tables Token ValidTokens
  expandItems expandTokens fixedCode headerCode sentOrder tokenBits)
open BitReader (medium readBits)

variable {start : Nat}

theorem readBits_zero (reader : BitReader) : (readBits 0 reader).granted = .ok (0, reader) := by
  have hmask : reader.buffer &&& 0 = 0 := Nat.and_zero _
  have hfit : tryFrom 32 0 = some 0 := rfl
  simp only [readBits, BitReader.fillLoop, granted_bind, granted_except, granted_get, granted_set,
    granted_pure, rejectIf_of_not (show ¬24 < 0 by decide), ok_bind, if_pos, hmask, hfit,
    okOr_some, checkedSub_of_le (Nat.zero_le _), Nat.shiftRight_zero, Nat.sub_zero]

theorem readBits_reads {count value : Nat} (hcount : count ≤ 24) (hvalue : value < 2 ^ count)
    (start : Nat) : Cursor.Reads medium (readBits count) start (bitsOf count value) value := by
  intro input hinput hbits
  rcases Nat.eq_zero_or_pos count with rfl | hpos
  · rw [Nat.lt_one_iff.mp hvalue]
    exact readBits_zero _
  · have hlength := hbits.length_le
    have htake := List.prefix_iff_eq_take.mp hbits
    rw [length_bitsOf, List.length_drop] at hlength
    rw [length_bitsOf] at htake
    have hinside : start + count ≤ 8 * input.length := by
      have hbytes := length_bytesToBits input
      change count ≤ (bytesToBits input).length - start at hlength
      omega
    rw [BitReader.readBits_place hinput (by omega) hcount, if_pos hinside, length_bitsOf]
    change bitsOf count value = ((bytesToBits input).drop start).take count at htake
    rw [← htake, ofBits_bitsOf, Nat.mod_eq_of_lt hvalue]

theorem alignToByte_reads (start : Nat) :
    Cursor.Reads medium (modify BitReader.alignToByte : BitReader.Reading Unit) start
      (padding start) () := by
  intro input _ _
  have hlength : start + (padding start).length = 8 * ((start + 7) / 8) := by
    rw [padding, length_replicate]
    omega
  rw [hlength, ← BitReader.alignToByte_place]
  rfl

theorem reads_of_short {α : Type} {p : BitReader.Reading α} {bits : List Bool} {a : α}
    (h : bits.length < maxRounds → Cursor.Reads medium p start bits a) :
    Cursor.Reads medium p start bits a := by
  intro input hinput hbits
  have hlength := hbits.length_le
  have hbytes := length_bytesToBits input
  have hbound : input.length < 2 ^ 64 := hinput
  have hrounds : maxRounds = 2 ^ 67 := rfl
  rw [List.length_drop] at hlength
  change bits.length ≤ (bytesToBits input).length - start at hlength
  exact h (by omega) input hinput hbits

/-- A decoder of a canonical code. -/
structure Serves (huffman : Huffman) (lengths : List Nat) : Prop where
  decodes : huffman.Decodes lengths
  fits : NotOversubscribed lengths maxCodeBits
  short : lengths.length ≤ maxHuffmanSymbols
  le : ∀ symbol, lengthOf lengths symbol ≤ maxCodeBits

variable {lengths row : List Nat} {output : List UInt8}

theorem lengthOf_le (h : ∀ length ∈ lengths, length ≤ maxCodeBits) (symbol : Nat) :
    lengthOf lengths symbol ≤ maxCodeBits := by
  rcases Nat.eq_zero_or_pos (lengthOf lengths symbol) with hzero | hpos
  · rw [hzero]
    exact Nat.zero_le _
  · exact h _ (mem_of_getElem? (lengthOf_eq (Nat.ne_of_gt hpos)))

theorem toNat_ofNat_of_le (h : ∀ length ∈ lengths, length ≤ maxCodeBits) :
    (lengths.map UInt8.ofNat).map UInt8.toNat = lengths := by
  rw [List.map_map]
  refine (List.map_congr_left fun length hlength => ?_).trans (List.map_id lengths)
  have hle : length ≤ 15 := h length hlength
  rw [Function.comp_apply, UInt8.toNat_ofNat', Nat.mod_eq_of_lt (by omega), id_eq]

theorem ofNat_ne_zero {length : Nat} (h : length ≠ 0) (hle : length ≤ maxCodeBits) :
    UInt8.ofNat length ≠ 0 := by
  intro hzero
  have hvalue := congrArg UInt8.toNat hzero
  have hbound : length ≤ 15 := hle
  rw [UInt8.toNat_ofNat', Nat.mod_eq_of_lt (by omega)] at hvalue
  exact h hvalue

theorem fromLengths_serves (allowEmpty : Bool) (hshort : lengths.length ≤ maxHuffmanSymbols)
    (hle : ∀ length ∈ lengths, length ≤ maxCodeBits)
    (hsome : allowEmpty = true ∨ ∃ symbol, lengthOf lengths symbol ≠ 0)
    (hfits : NotOversubscribed lengths maxCodeBits) :
    ∃ huffman, Huffman.fromLengths (lengths.map UInt8.ofNat) allowEmpty = .ok huffman ∧
      Serves huffman lengths := by
  have hmapped := toNat_ofNat_of_le hle
  have hbytes : ∀ length ∈ lengths.map UInt8.ofNat, length.toNat ≤ maxCodeBits := by
    intro length hlength
    refine hle _ ?_
    rw [← hmapped]
    exact List.mem_map_of_mem hlength
  have hcode : allowEmpty = true ∨ ∃ length ∈ lengths.map UInt8.ofNat, length ≠ 0 := by
    refine hsome.imp_right fun ⟨symbol, hsymbol⟩ => ?_
    have hmem := mem_of_getElem? (lengthOf_eq hsymbol)
    exact ⟨UInt8.ofNat (lengthOf lengths symbol), List.mem_map_of_mem hmem,
      ofNat_ne_zero hsymbol (hle _ hmem)⟩
  obtain ⟨huffman, hrun, hdecodes⟩ := Huffman.fromLengths_ok
    (by rwa [length_map]) hbytes hcode (by rwa [hmapped])
  rw [hmapped] at hdecodes
  exact ⟨huffman, hrun, hdecodes, hfits, hshort, lengthOf_le hle⟩

theorem Serves.reads {huffman : Huffman} (h : Serves huffman lengths) {symbol : Nat}
    (hcode : lengthOf lengths symbol ≠ 0) (start : Nat) :
    Cursor.Reads medium huffman.decode start (codeBits lengths symbol) symbol := by
  intro input hinput hbits
  have hmax : maxHuffmanSymbols = 320 := rfl
  have hshort := h.short
  rw [length_codeBits]
  exact Huffman.decodeLoop_code h.decodes h.fits (by omega) hinput hcode (h.le symbol) hbits
    (Nat.add_zero maxCodeBits) (Nat.pos_of_ne_zero hcode)

/-- An output of this size is within what is declared and allowed. -/
structure Room (expected : Option Nat) (maximum size : Nat) : Prop where
  small : size < 2 ^ 64
  declared : ∀ declared ∈ expected, size ≤ declared
  le : size ≤ maximum

section Output

variable {expected : Option Nat} {maximum : Nat}

theorem Room.mono {size more : Nat} (h : Room expected maximum more) (hle : size ≤ more) :
    Room expected maximum size :=
  ⟨hle.trans_lt h.small, fun declared hdeclared => hle.trans (h.declared declared hdeclared),
    hle.trans h.le⟩

theorem reserveOutput_of_room {current additional : Nat}
    (h : Room expected maximum (current + additional)) :
    reserveOutput expected maximum current additional = .ok () := by
  have hdeclared : ¬(expected.any fun declared => declared < current + additional) = true := by
    cases expected with
    | none => exact Bool.false_ne_true
    | some declared =>
      have hle := h.declared declared rfl
      rw [Option.any_some, decide_eq_true_eq]
      omega
  rw [reserveOutput, checkedAdd_bind h.small, rejectIf_of_not hdeclared, ok_bind,
    checkLimit_of_le h.le]

theorem appendLiteral_granted (h : Room expected maximum (output.length + 1)) (byte : UInt8) :
    (appendLiteral expected maximum output byte).granted = .ok (output ++ [byte]) := by
  rw [appendLiteral, Prog.granted_lift_bind, reserveOutput_of_room h, ok_bind, checkpoint_bind,
    Prog.granted_pure]

theorem copyLoop_copied {distance : Nat} (hpos : 1 ≤ distance) (hle : distance ≤ output.length)
    (count : Nat) :
    (copyLoop distance count output).granted = .ok (output ++ copied output distance count) := by
  refine loop_copied (f := fun count output => (copyLoop distance count output).granted)
    (g := .ok) (fun _ => rfl) (fun count output byte hdistance hbyte => ?_) hpos hle count
  simp only [copyLoop, Prog.granted_bind, checkpoint_granted, ok_bind, Prog.granted_lift,
    checkedSub_of_le hdistance, okOr_some, hbyte]

theorem copyMatch_granted {distance length : Nat} (hpos : 1 ≤ distance)
    (hfar : distance ≤ deflate64DictionaryBytes) (hinside : distance ≤ output.length)
    (h : Room expected maximum (output.length + length)) :
    (copyMatch expected maximum output distance length).granted =
      .ok (output ++ copied output distance length) := by
  rw [copyMatch, Prog.granted_lift_bind, rejectIf_of_not (by omega), ok_bind,
    Prog.granted_lift_bind, rejectIf_of_not (by omega), ok_bind, Prog.granted_lift_bind,
    reserveOutput_of_room h, ok_bind, copyLoop_copied hpos hinside]

/-! ## Tokens -/

theorem lengthTables_get {index : Nat} (h : index < 29) :
    lengthBase[index]? = some (DeflateFormat.lengthBase index) ∧
      lengthExtra[index]? = some (DeflateFormat.lengthExtra index) ∧
      DeflateFormat.lengthExtra index ≤ 16 ∧
      DeflateFormat.lengthBase index + 2 ^ DeflateFormat.lengthExtra index ≤ 2 ^ 17 := by
  revert index
  decide

theorem distanceTables_get {index : Nat} (h : index < 32) :
    distanceBase[index]? = some (DeflateFormat.distanceBase index) ∧
      distanceExtra[index]? = some (DeflateFormat.distanceExtra index) ∧
      DeflateFormat.distanceExtra index ≤ 14 ∧ 1 ≤ DeflateFormat.distanceBase index ∧
      DeflateFormat.distanceBase index + 2 ^ DeflateFormat.distanceExtra index ≤
        deflate64DictionaryBytes + 1 := by
  revert index
  decide

theorem decodeMatch_reads {distanceTree : Huffman} {distances : List Nat}
    (hdistances : Serves distanceTree distances) {length : LengthChoice} {distance : DistanceChoice}
    (hcode : lengthOf distances distance.index ≠ 0) (hinside : distance.distance ≤ output.length)
    (hroom : Room expected maximum (output.length + length.length)) (start : Nat) :
    Cursor.Reads medium (decodeMatch expected maximum distanceTree (257 + length.index) output)
      start (bitsOf (DeflateFormat.lengthExtra length.index) length.offset ++
        (codeBits distances distance.index ++
          bitsOf (DeflateFormat.distanceExtra distance.index) distance.offset))
      (output ++ copied output distance.distance length.length) := by
  obtain ⟨hlengthBase, hlengthExtra, hlengthBits, hlengthBound⟩ := lengthTables_get length.index_lt
  obtain ⟨hdistanceBase, hdistanceExtra, hdistanceBits, hpos, hdistanceBound⟩ :=
    distanceTables_get distance.index_lt
  have hlengthOffset := length.offset_lt
  have hdistanceOffset := distance.offset_lt
  have hfar : distance.distance ≤ deflate64DictionaryBytes := by
    rw [DistanceChoice.distance]
    omega
  have hdictionary : deflate64DictionaryBytes = 65536 := rfl
  refine .bind_left (.except (a := length.index) ?_ _) ?_
  · rw [checkedSub_of_le (Nat.le_add_right _ _), Nat.add_sub_cancel_left]
    rfl
  refine .bind_left (.except (a := DeflateFormat.lengthBase length.index) ?_ _) ?_
  · rw [hlengthBase]
    rfl
  refine .bind_left (.except (a := DeflateFormat.lengthExtra length.index) ?_ _) ?_
  · rw [hlengthExtra]
    rfl
  refine .bind (readBits_reads (by omega) hlengthOffset start) ?_
  refine .bind_left (.except (a := length.length) ?_ _) ?_
  · rw [tryFrom_of_lt (by omega)]
    rfl
  refine .bind (hdistances.reads hcode _) ?_
  refine .bind_left (.except (a := DeflateFormat.distanceBase distance.index) ?_ _) ?_
  · rw [hdistanceBase]
    rfl
  refine .bind_left (.except (a := DeflateFormat.distanceExtra distance.index) ?_ _) ?_
  · rw [hdistanceExtra]
    rfl
  refine .bind_right (readBits_reads (by omega) hdistanceOffset _) ?_
  refine .bind_left (.except (a := distance.distance) ?_ _) ?_
  · rw [tryFrom_of_lt (by omega)]
    rfl
  exact .lift (copyMatch_granted (by rw [DistanceChoice.distance]; omega) hfar hinside hroom) _

theorem length_le_expandTokens (output : List UInt8) (tokens : List Token) :
    output.length ≤ (expandTokens output tokens).length := by
  induction tokens generalizing output with
  | nil => exact Nat.le_refl _
  | cons token tokens ih =>
    refine Nat.le_trans ?_ (ih (output ++ token.bytes output))
    rw [length_append]
    exact Nat.le_add_right _ _

theorem length_le_tokenBits {code : BlockCode} {tokens : List Token}
    (h : ValidTokens code output tokens) :
    tokens.length ≤ (tokens.flatMap (Token.bits code)).length := by
  induction tokens generalizing output with
  | nil => exact Nat.le_refl _
  | cons token tokens ih =>
    obtain ⟨hcode, -, hvalid⟩ := h
    have hrest := ih hvalid
    have htoken : 0 < (token.bits code).length := by
      cases token with
      | literal value =>
        rw [Token.bits, length_codeBits]
        exact Nat.pos_of_ne_zero hcode
      | copy length distance =>
        rw [Token.bits, length_append, length_codeBits]
        exact Nat.add_pos_left (Nat.pos_of_ne_zero hcode.1) _
    rw [flatMap_cons, length_append, length_cons]
    omega

section Codes

variable {literalTree distanceTree : Huffman} {code : BlockCode}
  (hliterals : Serves literalTree code.literals) (hdistances : Serves distanceTree code.distances)
  (hend : lengthOf code.literals 256 ≠ 0)

include hliterals hdistances hend

theorem compressedLoop_reads {tokens : List Token} {rounds : Nat} (hrounds : tokens.length < rounds)
    (hvalid : ValidTokens code output tokens)
    (hroom : Room expected maximum (expandTokens output tokens).length) (start : Nat) :
    Cursor.Reads medium (compressedLoop expected maximum literalTree distanceTree rounds output)
      start (tokenBits code tokens) (expandTokens output tokens) := by
  induction tokens generalizing output rounds start with
  | nil =>
    obtain ⟨rounds, rfl⟩ : ∃ fewer, rounds = fewer + 1 := ⟨rounds - 1, by
      rw [length_nil] at hrounds
      omega⟩
    rw [compressedLoop]
    refine .bind_left (.lift (checkpoint_granted 1) _) (.bind_right (hliterals.reads hend start) ?_)
    rw [if_neg (by decide), if_pos rfl]
    exact .pure _ _
  | cons token tokens ih =>
    obtain ⟨rounds, rfl⟩ : ∃ fewer, rounds = fewer + 1 := ⟨rounds - 1, by
      rw [length_cons] at hrounds
      omega⟩
    obtain ⟨hcode, hfits, hvalid⟩ := hvalid
    have hrest := fun place => ih (Nat.lt_of_succ_lt_succ hrounds) hvalid hroom place
    have hgrows := length_le_expandTokens (output ++ token.bytes output) tokens
    have hmore : Room expected maximum (output ++ token.bytes output).length := hroom.mono hgrows
    rw [compressedLoop, tokenBits, flatMap_cons, append_assoc]
    refine .bind_left (.lift (checkpoint_granted 1) _) ?_
    cases token with
    | literal value =>
      have hlt := value.toNat_lt
      refine .bind (hliterals.reads hcode start) ?_
      rw [if_pos (by omega)]
      refine .bind_left (.except (a := value.toNat) ?_ _) ?_
      · rw [tryFrom_of_lt hlt]
        rfl
      rw [UInt8.ofNat_toNat]
      rw [Token.bytes, length_append] at hmore
      exact .bind_left (.lift (appendLiteral_granted hmore value) _) (hrest _)
    | copy length distance =>
      have hindex := length.index_lt
      rw [Token.bytes, length_append, length_copied] at hmore
      rw [Token.bits, append_assoc]
      refine .bind (hliterals.reads hcode.1 start) ?_
      rw [if_neg (by omega), if_neg (by omega), if_pos (by omega)]
      exact .bind (decodeMatch_reads hdistances hcode.2 hfits hmore _) (hrest _)

theorem decodeCompressedBlock_reads {tokens : List Token}
    (hvalid : ValidTokens code output tokens)
    (hroom : Room expected maximum (expandTokens output tokens).length) (start : Nat) :
    Cursor.Reads medium (decodeCompressedBlock expected maximum literalTree distanceTree output)
      start (tokenBits code tokens) (expandTokens output tokens) := by
  refine reads_of_short fun hshort => ?_
  have hcount := length_le_tokenBits hvalid
  rw [tokenBits, length_append] at hshort
  exact compressedLoop_reads hliterals hdistances hend (by omega) hvalid hroom start

end Codes

end Output

/-! ## Tables -/

theorem codeLengthOrder_eq : codeLengthOrder = sentOrder := rfl

theorem idxOf_sentOrder {symbol ordinal : Nat} (hsymbol : symbol < 19) (hordinal : ordinal < 19) :
    sentOrder.idxOf symbol = ordinal ↔
      sentOrder[ordinal]? = some symbol := by
  revert ordinal
  revert symbol
  decide

theorem length_headerCode (sent : List (Fin 8)) : (headerCode sent).length = 19 := by
  rw [headerCode, length_map, List.length_range]

theorem headerCode_le {sent : List (Fin 8)} :
    ∀ length ∈ headerCode sent, length ≤ maxCodeBits := by
  intro length hlength
  obtain ⟨symbol, -, rfl⟩ := List.mem_map.mp hlength
  have hmax : maxCodeBits = 15 := rfl
  cases hsent : sent[sentOrder.idxOf symbol]? with
  | none => exact Nat.zero_le _
  | some value =>
    have hlt := value.isLt
    rw [Option.map_some, Option.getD_some]
    omega

theorem headerCode_concat {sent : List (Fin 8)} {length : Fin 8} {symbol : Nat}
    (hsent : sent.length < 19) (hsymbol : sentOrder[sent.length]? = some symbol) :
    headerCode (sent ++ [length]) =
      (headerCode sent).set symbol length := by
  refine List.ext_getElem? fun other => ?_
  rw [List.getElem?_set, length_headerCode, headerCode, headerCode,
    List.getElem?_map, List.getElem?_map]
  by_cases hother : other < 19
  · have hidx := idxOf_sentOrder hother hsent
    rw [List.getElem?_range hother, Option.map_some, Option.map_some]
    by_cases heq : symbol = other
    · rw [if_pos heq, if_pos (heq ▸ hother), hidx.mpr (heq ▸ hsymbol), List.getElem?_concat_length]
      rfl
    · have hne : sentOrder.idxOf other ≠ sent.length := fun h =>
        heq (Option.some.inj (hsymbol.symm.trans (hidx.mp h)))
      rw [if_neg heq]
      rcases Nat.lt_or_gt_of_ne hne with hlt | hgt
      · rw [List.getElem?_append_left hlt]
      · rw [List.getElem?_eq_none (by rw [length_append, length_singleton]; omega),
          List.getElem?_eq_none hgt.le]
  · rw [List.getElem?_eq_none (by rw [List.length_range]; omega), Option.map_none, Option.map_none]
    by_cases heq : symbol = other
    · rw [if_pos heq, if_neg (heq ▸ hother)]
    · rw [if_neg heq]

theorem codeLengthLoop_reads (rest done : List (Fin 8))
    (hcount : done.length + rest.length ≤ 19) (start : Nat) :
    Cursor.Reads medium (codeLengthLoop rest.length done.length
        ((headerCode done).map UInt8.ofNat)) start
      (rest.flatMap fun length : Fin 8 => bitsOf 3 length.val)
      ((headerCode (done ++ rest)).map UInt8.ofNat) := by
  induction rest generalizing done start with
  | nil =>
    rw [append_nil]
    exact .pure _ _
  | cons length rest ih =>
    rw [length_cons] at hcount
    have hlength := length.isLt
    have hinside : done.length < sentOrder.length :=
      show done.length < 19 by omega
    obtain ⟨symbol, hsymbol⟩ : ∃ symbol, sentOrder[done.length]? = some symbol :=
      ⟨_, List.getElem?_eq_getElem hinside⟩
    have hsmall : symbol < 19 := by
      have hall : ∀ symbol ∈ sentOrder, symbol < 19 := by decide
      exact hall symbol (mem_of_getElem? hsymbol)
    have hset : ((headerCode done).map UInt8.ofNat).set symbol (UInt8.ofNat length) =
        (headerCode (done ++ [length])).map UInt8.ofNat := by
      rw [headerCode_concat hinside hsymbol, List.map_set]
    have hrest := fun place => ih (done ++ [length])
      (by rw [length_append, length_singleton]; omega) place
    rw [length_append, length_singleton, append_assoc] at hrest
    rw [length_cons, codeLengthLoop, flatMap_cons]
    refine .bind_left (.except (a := symbol) ?_ _) ?_
    · rw [codeLengthOrder_eq, hsymbol]
      rfl
    refine .bind (readBits_reads (by decide) length.isLt start) ?_
    refine .bind_left (.except (a := length.val) ?_ _) ?_
    · rw [tryFrom_of_lt (by omega)]
      rfl
    refine .bind_left (.except (rejectIf_of_not (by rw [length_map, length_headerCode]; omega) _) _)
      ?_
    rw [hset]
    exact hrest _

def slots (row : List Nat) : List UInt8 :=
  row.map UInt8.ofNat ++ List.replicate (318 - row.length) 0

theorem slots_get {index : Nat} (h : index < row.length) :
    (slots row)[index]? = some (UInt8.ofNat (row.get ⟨index, h⟩)) := by
  rw [slots, List.getElem?_append_left (by rwa [length_map]), List.getElem?_map,
    List.getElem?_eq_getElem h]
  rfl

theorem length_slots (h : row.length ≤ 318) : (slots row).length = 318 := by
  rw [slots, length_append, length_map, length_replicate]
  omega

theorem fillSlots_slots {count : Nat} (h : row.length + count ≤ 318) (value : Nat) :
    fillSlots (slots row) row.length (row.length + count) (UInt8.ofNat value) =
      some (slots (row ++ List.replicate count value)) := by
  have hfront : (slots row).take row.length = row.map UInt8.ofNat :=
    List.take_left' (length_map _)
  have hrest : (slots row).drop (row.length + count) =
      List.replicate (318 - (row.length + count)) 0 := by
    rw [slots, ← List.drop_drop, List.drop_left' (length_map _), List.drop_replicate,
      Nat.sub_sub]
  rw [fillSlots, if_pos ⟨Nat.le_add_right _ _, by rw [length_slots (by omega)]; exact h⟩, hfront,
    hrest, Nat.add_sub_cancel_left, slots, map_append, List.map_replicate, length_append,
    length_replicate]

theorem set_slots (h : row.length < 318) (value : Nat) :
    (slots row).set row.length (UInt8.ofNat value) = slots (row ++ [value]) := by
  have hzeros : List.replicate (318 - row.length) (0 : UInt8) =
      0 :: List.replicate (318 - (row.length + 1)) 0 := by
    rw [← List.replicate_succ]
    congr 1
    omega
  rw [slots, hzeros, List.set_append_right _ _ (length_map _).le, length_map,
    Nat.sub_self, List.set_cons_zero, slots, map_append, length_append,
    append_assoc]
  rfl

theorem slots_zeros {count : Nat} (h : row.length + count ≤ 318) :
    slots (row ++ List.replicate count 0) = slots row := by
  have hzeros : List.replicate (318 - row.length) (0 : UInt8) =
      List.replicate count 0 ++ List.replicate (318 - (row.length + count)) 0 := by
    rw [List.replicate_append_replicate]
    congr 1
    omega
  rw [slots, slots, hzeros, map_append, List.map_replicate, length_append,
    length_replicate, append_assoc]
  rfl

theorem getRange_slots (front middle rest : List Nat) :
    getRange (slots (front ++ middle ++ rest)) front.length (front.length + middle.length) =
      some (middle.map UInt8.ofNat) := by
  have hslots : slots (front ++ middle ++ rest) = front.map UInt8.ofNat ++
      (middle.map UInt8.ofNat ++ (rest.map UInt8.ofNat ++
        List.replicate (318 - (front ++ middle ++ rest).length) 0)) := by
    rw [slots, map_append, map_append, append_assoc, append_assoc]
  rw [hslots]
  refine getRange_of_drop ?_ (List.drop_left' (length_map _)) (by rw [length_map])
  rw [length_append, length_map]
  exact Nat.le_add_right _ _

theorem slots_endOfBlock {literals : List Nat} (hcode : lengthOf literals 256 ≠ 0)
    (hle : lengthOf literals 256 ≤ maxCodeBits) (distances : List Nat) :
    ¬(slots (literals ++ distances))[256]?.getD 0 = 0 := by
  have hliterals := symbol_lt hcode
  have hinside : 256 < (literals ++ distances).length := by
    rw [length_append]
    omega
  have hvalue : (literals ++ distances).get ⟨256, hinside⟩ = lengthOf literals 256 := by
    rw [List.get_eq_getElem, List.getElem_append_left hliterals, lengthOf,
      List.getElem?_eq_getElem hliterals, Option.getD_some]
  rw [slots_get hinside, Option.getD_some, hvalue]
  exact ofNat_ne_zero hcode hle

theorem lengthRound_reads {item : Item} {total : Nat} (hfits : item.Fits row)
    (hinside : (row ++ item.lengths row).length ≤ total) (htotal : total ≤ 318) (start : Nat) :
    Cursor.Reads medium (lengthRound total item.symbol (slots row) row.length) start item.extraBits
      (slots (row ++ item.lengths row), (row ++ item.lengths row).length) := by
  rw [length_append] at hinside ⊢
  cases item with
  | length value =>
    have hvalue := value.isLt
    rw [Item.lengths, length_singleton] at hinside ⊢
    rw [lengthRound, Item.symbol, if_pos (by omega), ← set_slots (by omega)]
    refine .bind_left (.except (rejectIf_of_not (by rw [length_slots (by omega)]; omega) _) _) ?_
    refine .bind_left (.except (a := value.val) ?_ _) ?_
    · rw [tryFrom_of_lt (by omega)]
      rfl
    refine .bind_left (.except (a := row.length + 1) ?_ _) (.pure _ _)
    rw [checkedAdd_of_lt (by omega)]
    rfl
  | again count =>
    have hcount := count.isLt
    have hpos : 1 ≤ row.length := List.length_pos_iff.mpr hfits
    have hlast : row.getLast?.getD 0 = row.get ⟨row.length - 1, by omega⟩ := by
      rw [List.getLast?_eq_getElem?, List.getElem?_eq_getElem (by omega)]
      rfl
    rw [Item.lengths, length_replicate] at hinside ⊢
    rw [lengthRound, Item.symbol, if_neg (by decide), if_pos rfl]
    refine .bind_left (.except (a := row.length - 1) ?_ _) ?_
    · rw [checkedSub_of_le hpos]
      rfl
    refine .bind_left (.except (a := UInt8.ofNat (row.getLast?.getD 0)) ?_ _) ?_
    · rw [slots_get (by omega), hlast]
      rfl
    refine .bind_right (readBits_reads (by decide) count.isLt start) ?_
    refine .bind_left (.except (checkedAdd_eq_ok.mpr ⟨by omega, rfl⟩) _) ?_
    refine .bind_left (.except (checkedAdd_eq_ok.mpr ⟨by omega, rfl⟩) _) ?_
    refine .bind_left (.except (rejectIf_of_not (by omega) _) _) ?_
    refine .bind_left (.except ?_ _) (.pure _ _)
    rw [fillSlots_slots (by omega)]
    rfl
  | zeros count =>
    have hcount := count.isLt
    rw [Item.lengths, length_replicate] at hinside ⊢
    rw [lengthRound, Item.symbol, if_neg (by decide), if_neg (by decide), if_pos (by decide),
      slots_zeros (by omega)]
    refine .bind_right (readBits_reads (by decide) count.isLt start) ?_
    refine .bind_left (.except (checkedAdd_eq_ok.mpr ⟨by omega, rfl⟩) _) ?_
    refine .bind_left (.except (checkedAdd_eq_ok.mpr ⟨by omega, rfl⟩) _) ?_
    exact .bind_left (.except (rejectIf_of_not (by omega) _) _) (.pure _ _)
  | manyZeros count =>
    have hcount := count.isLt
    rw [Item.lengths, length_replicate] at hinside ⊢
    rw [lengthRound, Item.symbol, if_neg (by decide), if_neg (by decide), if_pos (by decide),
      slots_zeros (by omega)]
    refine .bind_right (readBits_reads (by decide) count.isLt start) ?_
    refine .bind_left (.except (checkedAdd_eq_ok.mpr ⟨by omega, rfl⟩) _) ?_
    refine .bind_left (.except (checkedAdd_eq_ok.mpr ⟨by omega, rfl⟩) _) ?_
    exact .bind_left (.except (rejectIf_of_not (by omega) _) _) (.pure _ _)

theorem Item.length_pos (row : List Nat) (item : Item) : 0 < (item.lengths row).length := by
  cases item <;> simp [Item.lengths]

theorem length_le_expandItems (row : List Nat) (items : List Item) :
    row.length ≤ (expandItems row items).length := by
  induction items generalizing row with
  | nil => exact Nat.le_refl _
  | cons item items ih =>
    refine Nat.le_trans ?_ (ih (row ++ item.lengths row))
    rw [length_append]
    exact Nat.le_add_right _ _

theorem lengthLoop_reads {codeTree : Huffman} {code : List Nat} (hcode : Serves codeTree code)
    {items : List Item} {total fuel : Nat} (hvalid : DeflateFormat.ValidItems code row items)
    (htotal : (expandItems row items).length = total) (hsize : total ≤ 318)
    (hfuel : total ≤ row.length + fuel) (start : Nat) :
    Cursor.Reads medium (lengthLoop codeTree total fuel (slots row) row.length) start
      (items.flatMap (Item.bits code)) (slots (expandItems row items)) := by
  induction items generalizing row fuel start with
  | nil =>
    have hend : ¬row.length < total := by
      rw [← htotal]
      exact Nat.lt_irrefl _
    cases fuel with
    | zero => exact .pure _ _
    | succ fuel =>
      rw [lengthLoop, if_neg hend]
      exact .pure _ _
  | cons item items ih =>
    obtain ⟨hsymbol, hfits, hvalid⟩ := hvalid
    have hpos := Item.length_pos row item
    have hinside : (row ++ item.lengths row).length ≤ total :=
      (length_le_expandItems (row ++ item.lengths row) items).trans htotal.le
    have hgrows : row.length < (row ++ item.lengths row).length := by
      rw [length_append]
      omega
    obtain ⟨fuel, rfl⟩ : ∃ fewer, fuel = fewer + 1 := ⟨fuel - 1, by omega⟩
    have hrest : ∀ place, Cursor.Reads medium (lengthLoop codeTree total fuel
        (slots (row ++ item.lengths row)) (row ++ item.lengths row).length) place
        (items.flatMap (Item.bits code))
        (slots (expandItems row (item :: items))) :=
      fun place => ih hvalid htotal (by omega) place
    rw [lengthLoop, if_pos (hgrows.trans_le hinside), flatMap_cons, Item.bits,
      append_assoc]
    exact .bind (hcode.reads hsymbol start)
      (.bind (lengthRound_reads hfits hinside hsize _) (hrest _))

theorem expandItems_le (hrow : ∀ length ∈ row, length ≤ maxCodeBits) (items : List Item) :
    ∀ length ∈ expandItems row items, length ≤ maxCodeBits := by
  induction items generalizing row with
  | nil => exact hrow
  | cons item items ih =>
    refine ih fun length hlength => ?_
    rcases List.mem_append.mp hlength with hold | hnew
    · exact hrow length hold
    · cases item with
      | length value =>
        rw [List.eq_of_mem_singleton hnew]
        exact Nat.le_of_lt_succ value.isLt
      | again count =>
        rw [List.eq_of_mem_replicate hnew]
        cases hlast : row.getLast? with
        | none => exact Nat.zero_le _
        | some last => exact hrow last (List.mem_of_getLast? hlast)
      | zeros count =>
        rw [List.eq_of_mem_replicate hnew]
        exact Nat.zero_le _
      | manyZeros count =>
        rw [List.eq_of_mem_replicate hnew]
        exact Nat.zero_le _

theorem dynamicTrees_reads (tables : Tables) :
    ∃ trees, Serves trees.1 tables.code.literals ∧ Serves trees.2 tables.code.distances ∧
      ∀ start, Cursor.Reads medium dynamicTrees start tables.bits trees := by
  obtain ⟨hfewLiterals, hmanyLiterals⟩ := tables.literals_length
  obtain ⟨hfewDistances, hmanyDistances⟩ := tables.distances_length
  obtain ⟨hfewSent, hmanySent⟩ := tables.sent_length
  have hmax : maxHuffmanSymbols = 320 := rfl
  have hempty : ∀ length ∈ ([] : List Nat), length ≤ maxCodeBits := fun length h => by cases h
  have hlengths := expandItems_le hempty tables.items
  rw [tables.items_eq] at hlengths
  have htotal := congrArg List.length tables.items_eq
  rw [length_append] at htotal
  have hsome : ∃ symbol, lengthOf (headerCode tables.sent) symbol ≠ 0 := by
    cases hitems : tables.items with
    | nil =>
      rw [hitems] at htotal
      exact absurd htotal (by rw [show expandItems [] [] = [] from rfl, length_nil]; omega)
    | cons item items =>
      have hvalid := tables.items_valid
      rw [hitems] at hvalid
      exact ⟨item.symbol, hvalid.1⟩
  obtain ⟨codeTree, hcodeTree, hcode⟩ := fromLengths_serves false
    (by rw [length_headerCode]; omega) headerCode_le (Or.inr hsome) tables.header_fits
  obtain ⟨literalTree, hliteralTree, hliterals⟩ := fromLengths_serves false (by omega)
    (fun length h => hlengths length (List.mem_append_left _ h))
    (Or.inr ⟨256, tables.endOfBlock⟩) tables.literals_fit
  obtain ⟨distanceTree, hdistanceTree, hdistances⟩ := fromLengths_serves true (by omega)
    (fun length h => hlengths length (List.mem_append_right _ h)) (Or.inl rfl)
    tables.distances_fit
  refine ⟨(literalTree, distanceTree), hliterals, hdistances, fun start => ?_⟩
  have hrow := fun place => lengthLoop_reads hcode tables.items_valid htotal (by omega)
    (Nat.le_add_left (tables.code.literals.length + tables.code.distances.length) _) place
  rw [tables.items_eq] at hrow
  have hliteralRange := getRange_slots [] tables.code.literals tables.code.distances
  have hdistanceRange := getRange_slots tables.code.literals tables.code.distances []
  rw [List.nil_append, length_nil, Nat.zero_add] at hliteralRange
  rw [append_nil] at hdistanceRange
  have hendOfBlock := slots_endOfBlock tables.endOfBlock (hlengths _ (List.mem_append_left _
    (mem_of_getElem? (lengthOf_eq tables.endOfBlock)))) tables.code.distances
  rw [dynamicTrees, Tables.bits]
  refine .bind (readBits_reads (by decide) (by omega) start) ?_
  refine .bind_left (.except (a := tables.code.literals.length) ?_ _) ?_
  · rw [checkedAdd_of_lt (by omega), Nat.sub_add_cancel hfewLiterals]
    rfl
  refine .bind (readBits_reads (by decide) (by omega) _) ?_
  refine .bind_left (.except (a := tables.code.distances.length) ?_ _) ?_
  · rw [checkedAdd_of_lt (by omega), Nat.sub_add_cancel hfewDistances]
    rfl
  refine .bind (readBits_reads (by decide) (by omega) _) ?_
  refine .bind_left (.except (a := tables.sent.length) ?_ _) ?_
  · rw [checkedAdd_of_lt (by omega), Nat.sub_add_cancel hfewSent]
    rfl
  refine .bind_left (.except (rejectIf_of_not (by omega) _) _) ?_
  refine .bind (codeLengthLoop_reads tables.sent [] (by rw [length_nil]; omega) _) ?_
  rw [List.nil_append]
  refine .bind_left (.except hcodeTree _) ?_
  refine .bind_left (.except (a := tables.code.literals.length + tables.code.distances.length) ?_ _)
    ?_
  · rw [checkedAdd_of_lt (by omega)]
    rfl
  refine .bind_right (hrow _) ?_
  refine .bind_left (.except (rejectIf_of_not hendOfBlock _) _) ?_
  refine .bind_left (.except (a := tables.code.literals.map UInt8.ofNat) ?_ _) ?_
  · rw [hliteralRange]
    rfl
  refine .bind_left (.except (a := tables.code.distances.map UInt8.ofNat) ?_ _) ?_
  · rw [hdistanceRange]
    rfl
  refine .bind_left (.except hliteralTree _) ?_
  exact .bind_left (.except hdistanceTree _) (.pure _ _)

section Blocks

variable {expected : Option Nat} {maximum : Nat}

theorem storedLoop_reads (bytes : List UInt8) (start : Nat) :
    Cursor.Reads medium (storedLoop bytes.length output) start (bytesToBits bytes)
      (output ++ bytes) := by
  induction bytes generalizing output start with
  | nil =>
    rw [append_nil]
    exact .pure _ _
  | cons byte bytes ih =>
    have hrest : ∀ place, Cursor.Reads medium (storedLoop bytes.length (output ++ [byte])) place
        (bytesToBits bytes) (output ++ byte :: bytes) := by
      intro place
      rw [List.append_cons output byte bytes]
      exact ih place
    rw [length_cons, storedLoop, bytesToBits_cons]
    refine .bind (readBits_reads (by decide) byte.toNat_lt start) ?_
    refine .bind_left (.except (a := byte.toNat) ?_ _) ?_
    · rw [tryFrom_of_lt byte.toNat_lt]
      rfl
    refine .bind_left (.lift (checkpoint_granted 1) _) ?_
    rw [UInt8.ofNat_toNat]
    exact hrest _

theorem decodeStoredBlock_reads {bytes : List UInt8} (hshort : bytes.length < 2 ^ 16)
    (hroom : Room expected maximum (output ++ bytes).length) (start : Nat) :
    Cursor.Reads medium (decodeStoredBlock expected maximum output) start
      (padding start ++ (bitsOf 16 bytes.length ++ (bitsOf 16 (bytes.length ^^^ 0xffff) ++
        bytesToBits bytes))) (output ++ bytes) := by
  have hcomplement : bytes.length ^^^ 0xffff < 2 ^ 16 := Nat.xor_lt_two_pow hshort (by decide)
  rw [length_append] at hroom
  refine .bind (alignToByte_reads start) ?_
  refine .bind (readBits_reads (by decide) hshort _) ?_
  refine .bind (readBits_reads (by decide) hcomplement _) ?_
  refine .bind_left (.except (rejectIf_of_not (not_not_intro rfl) _) _) ?_
  exact .bind_left (.except (reserveOutput_of_room hroom) _) (storedLoop_reads bytes _)

theorem fixedTrees_serve : ∃ trees, fixedTrees = .ok trees ∧
    Serves trees.1 fixedCode.literals ∧
    Serves trees.2 fixedCode.distances := by
  have hliteralsLe : ∀ length ∈ fixedCode.literals, length ≤ maxCodeBits := by decide +kernel
  have hdistancesLe : ∀ length ∈ fixedCode.distances, length ≤ maxCodeBits := by
    decide +kernel
  obtain ⟨literalTree, hliteralTree, hliterals⟩ := fromLengths_serves false (by decide +kernel)
    hliteralsLe (Or.inr ⟨0, by decide +kernel⟩) (by decide +kernel)
  obtain ⟨distanceTree, hdistanceTree, hdistances⟩ := fromLengths_serves false (by decide +kernel)
    hdistancesLe (Or.inr ⟨0, by decide +kernel⟩) (by decide +kernel)
  refine ⟨(literalTree, distanceTree), ?_, hliterals, hdistances⟩
  have hliteralBytes : fixedLiteralLengths =
      fixedCode.literals.map UInt8.ofNat := by decide +kernel
  have hdistanceBytes : fixedDistanceLengths =
      fixedCode.distances.map UInt8.ofNat := by decide +kernel
  rw [fixedTrees, hliteralBytes, hliteralTree, ok_bind, hdistanceBytes, hdistanceTree]
  rfl

theorem decodeBlock_reads {block : Block} (hvalid : block.Valid output)
    (hroom : Room expected maximum (block.expand output).length) (start : Nat) :
    Cursor.Reads medium (decodeBlock expected maximum block.type output) start (block.body start)
      (block.expand output) := by
  cases block with
  | stored bytes short =>
    have htype : (Block.stored bytes short).type = 0 := rfl
    rw [decodeBlock, htype, if_pos rfl]
    exact decodeStoredBlock_reads short hroom start
  | fixed tokens =>
    obtain ⟨trees, hrun, hliterals, hdistances⟩ := fixedTrees_serve
    have htype : (Block.fixed tokens).type = 1 := rfl
    rw [decodeBlock, htype, if_neg (by decide), if_pos rfl]
    refine .bind_left (.except hrun _) ?_
    exact decodeCompressedBlock_reads hliterals hdistances (by decide +kernel) hvalid hroom start
  | dynamic tables tokens =>
    obtain ⟨trees, hliterals, hdistances, hreads⟩ := dynamicTrees_reads tables
    have htype : (Block.dynamic tables tokens).type = 2 := rfl
    rw [decodeBlock, htype, if_neg (by decide), if_neg (by decide), if_pos rfl]
    exact .bind (hreads start) (decodeCompressedBlock_reads hliterals hdistances
      tables.endOfBlock hvalid hroom _)

end Blocks

end Deflate64
end Unpackio
