/-
A stream of Deflate64 blocks is decoded to what it stands for, and to nothing with bytes
missing or added at its end.
-/
import Unpackio.Deflate64.DecodeExact

namespace Unpackio
namespace Deflate64

open List (cons_ne_nil length_append)
open DeflateFormat (Block ValidBlocks blockBits encode expand expandBlocks)
open BitPack CanonicalCode Cursor
open BitReader (medium readBits)

variable {expected : Option Nat} {maximum start : Nat}

theorem length_le_expand (block : Block) (output : List UInt8) :
    output.length ≤ (block.expand output).length := by
  cases block with
  | stored bytes short =>
    rw [Block.expand, length_append]
    exact Nat.le_add_right _ _
  | fixed tokens => exact length_le_expandTokens output tokens
  | dynamic tables tokens => exact length_le_expandTokens output tokens

theorem length_le_expandBlocks (blocks : List Block) (output : List UInt8) :
    output.length ≤ (expandBlocks output blocks).length := by
  induction blocks generalizing output with
  | nil => exact Nat.le_refl _
  | cons block blocks ih => exact (length_le_expand block output).trans (ih _)

theorem length_le_blockBits (blocks : List Block) (start : Nat) :
    blocks.length ≤ (blockBits start blocks).length := by
  induction blocks generalizing start with
  | nil => exact Nat.le_refl _
  | cons block blocks ih =>
    have hrest := ih (start + (block.bits blocks.isEmpty start).length)
    have hblock : 1 ≤ (block.bits blocks.isEmpty start).length := by
      rw [Block.bits, length_append, length_bitsOf]
      exact Nat.le_add_right _ _
    rw [blockBits, length_append, List.length_cons]
    omega

theorem blockLoop_reads {blocks : List Block} (hne : blocks ≠ [])
    {output : List UInt8} {rounds : Nat} (hrounds : blocks.length ≤ rounds)
    (hvalid : ValidBlocks output blocks)
    (hroom : Room expected maximum (expandBlocks output blocks).length)
    (start : Nat) :
    Cursor.Reads medium (blockLoop expected maximum rounds output) start
      (blockBits start blocks) (expandBlocks output blocks) := by
  induction blocks generalizing output rounds start with
  | nil => exact absurd rfl hne
  | cons block blocks ih =>
    rw [List.length_cons] at hrounds
    obtain ⟨rounds, rfl⟩ : ∃ fewer, rounds = fewer + 1 := ⟨rounds - 1, by omega⟩
    obtain ⟨hblock, hvalid⟩ := hvalid
    have hmore := hroom.mono (length_le_expandBlocks blocks (block.expand output))
    have htype : block.type < 2 ^ 2 := by
      cases block with
      | stored bytes short => exact Nat.zero_lt_succ _
      | fixed tokens => exact (by decide : 1 < 4)
      | dynamic tables tokens => exact (by decide : 2 < 4)
    have hfinal : blocks.isEmpty.toNat < 2 ^ 1 := Bool.toNat_lt _
    have hbody := decodeBlock_reads hblock hmore (start + 3)
    have hlength : (block.bits blocks.isEmpty start).length =
        3 + (block.body (start + 3)).length := by
      rw [Block.bits, length_append, length_append, length_bitsOf,
        length_bitsOf]
      omega
    rw [blockLoop, blockBits, hlength, Block.bits, List.append_assoc,
      List.append_assoc]
    refine .bind_left (.lift (checkpoint_granted 1) _) ?_
    refine .bind (readBits_reads (by decide) hfinal start) ?_
    refine .bind (readBits_reads (by decide) htype _) ?_
    rw [length_bitsOf, length_bitsOf]
    refine .bind hbody ?_
    cases hblocks : blocks with
    | nil =>
      rw [if_pos (by decide)]
      exact .pure _ _
    | cons next others =>
      have hmore : ¬(next :: others).isEmpty.toNat ≠ 0 := not_not_intro rfl
      rw [if_neg hmore, ← hblocks, ← Nat.add_assoc]
      exact ih (hblocks ▸ cons_ne_nil next others) (by omega) hvalid hroom _

theorem readBits_cuts {count : Nat} (hcount : count ≤ 24) :
    Cuts medium count (readBits count) := by
  intro front rest start value state hbound hstart h
  have hwhole : start ≤ 8 * (front ++ rest).length := by
    rw [length_append]
    omega
  have hfront : front.length < 2 ^ 64 := by
    have hlength : (front ++ rest).length < 2 ^ 64 := hbound
    rw [length_append] at hlength
    omega
  rw [BitReader.readBits_place hbound hwhole hcount] at h
  by_cases hinside : start + count ≤ 8 * (front ++ rest).length
  · rw [if_pos hinside] at h
    cases h
    refine ⟨start + count, rfl, Nat.le_refl _, hinside, ?_⟩
    rw [BitReader.readBits_place hfront hstart hcount]
    by_cases hcut : start + count ≤ 8 * front.length
    · have hbits : (((bytesToBits (front ++ rest)).drop start).take count) =
          ((bytesToBits front).drop start).take count := by
        rw [bytesToBits_append, List.drop_append_of_le_length (by rwa [length_bytesToBits]),
          List.take_append_of_le_length (by rw [List.length_drop, length_bytesToBits]; omega)]
      rw [if_pos hcut, if_pos hcut, hbits]
    · rw [if_neg hcut, if_neg hcut]
  · rw [if_neg hinside] at h
    cases h

/-- Whatever the count, which `read_bits` refuses where it is too large. -/
theorem readBits_cuts_any (count : Nat) : Cuts medium 0 (readBits count) := by
  by_cases hcount : count ≤ 24
  · exact (readBits_cuts hcount).mono (Nat.zero_le _)
  · intro front rest start value state _ _ h
    rw [readBits, granted_bind, granted_except, rejectIf_of (Nat.not_le.mp hcount)] at h
    cases h

theorem alignToByte_cuts :
    Cuts medium 0 (modify BitReader.alignToByte : BitReader.Reading Unit) := by
  have hrun : ∀ (input : List UInt8) (start : Nat),
      ((modify BitReader.alignToByte : BitReader.Reading Unit) (medium.place input start)).granted =
        .ok ((), medium.place input (8 * ((start + 7) / 8))) := by
    intro input start
    rw [← BitReader.alignToByte_place]
    rfl
  intro front rest start value state _ hstart h
  rw [hrun] at h
  cases h
  have hlength : (front ++ rest).length = front.length + rest.length := length_append
  exact ⟨8 * ((start + 7) / 8), rfl, by omega, by omega, by rw [hrun, if_pos (by omega)]⟩

theorem decodeLoop_cuts (huffman : Huffman) (remaining length code first index : Nat) :
    Cuts medium 1 (huffman.decodeLoop remaining length code first index) := by
  induction remaining generalizing length code first index with
  | zero => exact .throw _ _
  | succ remaining ih =>
    refine .andThen (readBits_cuts (by decide)) fun bit => .seq (.lift _) fun count => ?_
    refine .seq (.lift _) fun finish => .ite ?_ ?_
    · exact .seq (.lift _) fun _ => .seq (.lift _) fun _ => .seq (.lift _) fun _ => .lift _
    · exact .seq (.lift _) fun index => (ih _ _ _ _).mono (Nat.zero_le _)

theorem decode_cuts (huffman : Huffman) : Cuts medium 1 huffman.decode :=
  decodeLoop_cuts huffman _ _ _ _ _

theorem decodeMatch_cuts (distanceTree : Huffman) (symbol : Nat) (output : List UInt8) :
    Cuts medium 0 (decodeMatch expected maximum distanceTree symbol output) := by
  refine .seq (.lift _) fun lengthIndex => .seq (.lift _) fun base => .seq (.lift _) fun extra => ?_
  refine .seq (readBits_cuts_any extra) fun value => .seq (.lift _) fun length => ?_
  refine .seq ((decode_cuts distanceTree).mono (Nat.zero_le _)) fun distanceSymbol => ?_
  refine .seq (.lift _) fun base => .seq (.lift _) fun extra => ?_
  exact .seq (readBits_cuts_any extra) fun value => .seq (.lift _) fun distance => .lift _

theorem compressedLoop_cuts (literalTree distanceTree : Huffman) (rounds : Nat)
    (output : List UInt8) :
    Cuts medium 1 (compressedLoop expected maximum literalTree distanceTree rounds output) := by
  induction rounds generalizing output with
  | zero => exact .throw _ _
  | succ rounds ih =>
    have hrest : ∀ output, Cuts medium 0
        (compressedLoop expected maximum literalTree distanceTree rounds output) :=
      fun output => (ih output).mono (Nat.zero_le _)
    refine .seq (.lift _) fun _ => .andThen (decode_cuts literalTree) fun symbol => ?_
    refine .ite (.seq (.lift _) fun byte => .seq (.lift _) hrest) (.ite (.pure _) (.ite ?_ ?_))
    · exact .seq (decodeMatch_cuts distanceTree symbol output) hrest
    · exact .throw _ _

theorem codeLengthLoop_cuts (remaining ordinal : Nat) (codeLengths : List UInt8) :
    Cuts medium 0 (codeLengthLoop remaining ordinal codeLengths) := by
  induction remaining generalizing ordinal codeLengths with
  | zero => exact .pure _
  | succ remaining ih =>
    refine .seq (.lift _) fun destination => .seq (readBits_cuts_any 3) fun value => ?_
    exact .seq (.lift _) fun length => .seq (.lift _) fun _ => ih _ _

theorem lengthRound_cuts (total symbol : Nat) (lengths : List UInt8) (position : Nat) :
    Cuts medium 0 (lengthRound total symbol lengths position) := by
  refine .ite ?_ (.ite ?_ (.ite ?_ (.throw _ _)))
  · exact .seq (.lift _) fun _ => .seq (.lift _) fun length => .seq (.lift _) fun next => .pure _
  · refine .seq (.lift _) fun _ => .seq (.lift _) fun previous => ?_
    refine .seq (readBits_cuts_any 2) fun value => .seq (.lift _) fun count => ?_
    exact .seq (.lift _) fun finish => .seq (.lift _) fun _ => .seq (.lift _) fun _ => .pure _
  · refine .seq (readBits_cuts_any _) fun value => .seq (.lift _) fun count => ?_
    exact .seq (.lift _) fun finish => .seq (.lift _) fun _ => .pure _

theorem lengthLoop_cuts (codeTree : Huffman) (total fuel : Nat) (lengths : List UInt8)
    (position : Nat) : Cuts medium 0 (lengthLoop codeTree total fuel lengths position) := by
  induction fuel generalizing lengths position with
  | zero => exact .pure _
  | succ fuel ih =>
    refine .ite (.seq ((decode_cuts codeTree).mono (Nat.zero_le _)) fun symbol => ?_) (.pure _)
    exact .seq (lengthRound_cuts total symbol lengths position) fun next => ih next.1 next.2

theorem dynamicTrees_cuts : Cuts medium 0 dynamicTrees := by
  refine .seq (readBits_cuts_any 5) fun value => ?_
  refine .seq (.except _) fun literalCount => ?_
  refine .seq (readBits_cuts_any 5) fun value => .seq (.except _) fun distanceCount => ?_
  refine .seq (readBits_cuts_any 4) fun value => .seq (.except _) fun codeLengthCount => ?_
  refine .seq (.except _) fun _ => .seq (codeLengthLoop_cuts codeLengthCount 0 _)
    fun codeLengths => ?_
  refine .seq (.except _) fun codeTree => .seq (.except _) fun total => ?_
  refine .seq (lengthLoop_cuts codeTree total total _ 0) fun lengths => .seq (.except _) fun _ => ?_
  refine .seq (.except _) fun literals => .seq (.except _) fun distances => ?_
  exact .seq (.except _) fun literalTree => .seq (.except _) fun distanceTree => .pure _

theorem storedLoop_cuts (count : Nat) (output : List UInt8) :
    Cuts medium 0 (storedLoop count output) := by
  induction count generalizing output with
  | zero => exact .pure _
  | succ count ih =>
    refine .seq (readBits_cuts_any 8) fun value => .seq (.lift _) fun byte => ?_
    exact .seq (.lift _) fun _ => ih _

theorem decodeBlock_cuts (blockType : Nat) (output : List UInt8) :
    Cuts medium 0 (decodeBlock expected maximum blockType output) := by
  have hcompressed : ∀ literalTree distanceTree, Cuts medium 0
      (decodeCompressedBlock expected maximum literalTree distanceTree output) :=
    fun literalTree distanceTree =>
      (compressedLoop_cuts literalTree distanceTree maxRounds output).mono (Nat.zero_le _)
  refine .ite ?_ (.ite ?_ (.ite ?_ (.throw _ _)))
  · refine .seq alignToByte_cuts fun _ => .seq (readBits_cuts_any 16) fun length => ?_
    refine .seq (readBits_cuts_any 16) fun complement => .seq (.lift _) fun _ => ?_
    exact .seq (.lift _) fun _ => storedLoop_cuts length output
  · exact .seq (.except _) fun trees => hcompressed trees.1 trees.2
  · exact .seq dynamicTrees_cuts fun trees => hcompressed trees.1 trees.2

theorem blockLoop_cuts (rounds : Nat) (output : List UInt8) :
    Cuts medium 1 (blockLoop expected maximum rounds output) := by
  induction rounds generalizing output with
  | zero => exact .throw _ _
  | succ rounds ih =>
    refine .seq (.lift _) fun _ => .andThen (readBits_cuts (by decide)) fun finalBlock => ?_
    refine .seq (readBits_cuts_any 2) fun blockType => ?_
    refine .seq (decodeBlock_cuts blockType output) fun output => .ite (.pure _) ?_
    exact (ih output).mono (Nat.zero_le _)

variable {blocks : List Block}

theorem checkExpected_of_le (h : ∀ size ∈ expected, size ≤ maximum) :
    checkExpected expected maximum = .ok () := by
  cases expected with
  | none => rfl
  | some size => exact checkLimit_of_le (h size rfl) _

theorem decodeDeflate64_granted {input : List UInt8} {limits : Limits}
    (hdictionary : deflate64DictionaryBytes ≤ limits.maxDictionaryBytes)
    (hexpected : ∀ size ∈ expected, size ≤ maximum) :
    (decodeDeflate64 input expected maximum limits).granted =
      (blockLoop expected maximum maxRounds [] (medium.place input 0)).granted >>= fun result =>
        rejectIf (result.2.hasTrailingBytes = true)
            (formatError "Deflate64 stream has trailing input") >>= fun _ =>
          rejectIf ((expected.any fun size => size ≠ result.1.length) = true)
              (formatError "decoded coder output size does not match its declaration") >>= fun _ =>
            .ok result.1 := by
  rw [decodeDeflate64, Prog.granted_lift_bind, checkLimit_of_le hdictionary, Except.ok_bind,
    Prog.granted_lift_bind, checkExpected_of_le hexpected, Except.ok_bind, Prog.granted_bind,
    BitReader.new_place]
  refine bind_congr fun result => ?_
  rw [Prog.granted_lift_bind]
  refine bind_congr fun _ => ?_
  rw [Prog.granted_lift_bind]
  rfl

theorem decodeDeflate64_exact (blocks : List Block) (hne : blocks ≠ [])
    (hvalid : ValidBlocks [] blocks) (limits : Limits)
    (hdictionary : deflate64DictionaryBytes ≤ limits.maxDictionaryBytes) (maximum : Nat)
    (hmaximum : maximum < 2 ^ 64) (hsize : (expand blocks).length ≤ maximum)
    (expected : Option Nat)
    (hexpected : ∀ size ∈ expected, size = (expand blocks).length)
    (hlength : (encode blocks).length < 2 ^ 64) :
    (decodeDeflate64 (encode blocks) expected maximum limits).granted =
        .ok (expand blocks) ∧
      (∀ extra, extra ≠ [] → (encode blocks ++ extra).length < 2 ^ 64 →
        (decodeDeflate64 (encode blocks ++ extra) expected maximum limits).granted =
          .error (formatError "Deflate64 stream has trailing input")) ∧
      ∀ front rest, encode blocks = front ++ rest → rest ≠ [] →
        (decodeDeflate64 front expected maximum limits).granted =
          .error (formatError "truncated Deflate64 bitstream") := by
  have hroom : Room expected maximum (expand blocks).length :=
    ⟨hsize.trans_lt hmaximum, fun size h => (hexpected size h).ge, hsize⟩
  have hbelow : ∀ size ∈ expected, size ≤ maximum := fun size h => (hexpected size h).trans_le hsize
  have hreads : Cursor.Reads medium (blockLoop expected maximum maxRounds []) 0
      (blockBits 0 blocks) (expand blocks) := by
    refine reads_of_short fun hshort => ?_
    exact blockLoop_reads hne ((length_le_blockBits blocks 0).trans hshort.le) hvalid hroom 0
  have hrun : ∀ extra, (encode blocks ++ extra).length < 2 ^ 64 →
      (blockLoop expected maximum maxRounds []
          (medium.place (encode blocks ++ extra) 0)).granted =
        .ok (expand blocks, medium.place (encode blocks ++ extra)
          (0 + (blockBits 0 blocks).length)) := by
    intro extra hextra
    refine hreads _ hextra ⟨padding (blockBits 0 blocks).length ++
      bytesToBits extra, ?_⟩
    rw [List.drop_zero, ← List.append_assoc, ← bytesToBits_packBits]
    exact (bytesToBits_append _ _).symm
  have hbytes : (encode blocks).length =
      ((blockBits 0 blocks).length + 7) / 8 := length_packBits _
  have htrailing : ∀ input, (medium.place input (0 + (blockBits 0 blocks).length)
      ).hasTrailingBytes = true ↔ (encode blocks).length ≠ input.length := by
    intro input
    rw [hbytes, Nat.zero_add]
    exact decide_eq_true_iff
  have hwhole := hrun [] (by rwa [List.append_nil])
  rw [List.append_nil] at hwhole
  refine ⟨?_, fun extra hne hextra => ?_, fun front rest hsplit hne => ?_⟩
  · have hmatches : ¬(expected.any fun size => size ≠ (expand blocks).length) =
        true := by
      cases expected with
      | none => exact Bool.false_ne_true
      | some size =>
        rw [Option.any_some, decide_eq_true_eq]
        exact not_not_intro (hexpected size rfl)
    rw [decodeDeflate64_granted hdictionary hbelow, hwhole, Except.ok_bind,
      rejectIf_of_not fun h => (htrailing _).mp h rfl, Except.ok_bind, rejectIf_of_not hmatches]
    rfl
  · have hmore : 0 < extra.length := List.length_pos_iff.mpr hne
    have hlonger : (encode blocks).length ≠
        (encode blocks ++ extra).length := by
      rw [length_append]
      omega
    rw [decodeDeflate64_granted hdictionary hbelow, hrun extra hextra, Except.ok_bind,
      rejectIf_of ((htrailing _).mpr hlonger)]
    rfl
  · -- The run goes on to the last byte, which is not there.
    rw [hsplit] at hwhole hlength hbytes
    obtain ⟨finish, hstate, -, -, hcut⟩ :=
      blockLoop_cuts maxRounds [] front rest 0 _ _ hlength (Nat.zero_le _) hwhole
    have hposition : (0 + (blockBits 0 blocks).length + 7) / 8 = (finish + 7) / 8 :=
      congrArg BitReader.position hstate
    have hmore : 0 < rest.length := List.length_pos_iff.mpr hne
    rw [length_append] at hbytes
    rw [decodeDeflate64_granted hdictionary hbelow, hcut, if_neg (by omega)]
    rfl

def sampleTables : DeflateFormat.Tables where
  code :=
    { literals := List.replicate 97 0 ++ [1] ++ List.replicate 158 0 ++ [1], distances := [0] }
  sent := [0, 0, 1, 2, 0, 0, 0, 0, 0, 0, 0, 0, 0, 0, 0, 0, 0, 2]
  items := [.manyZeros 86, .length 1, .manyZeros 127, .manyZeros 9, .length 1, .length 0]
  literals_length := by decide +kernel
  distances_length := by decide
  sent_length := by decide
  header_fits := by decide +kernel
  literals_fit := by decide +kernel
  distances_fit := by decide
  endOfBlock := by decide +kernel
  items_valid := ⟨by decide, trivial, by decide, trivial, by decide, trivial, by decide, trivial,
    by decide, trivial, by decide, trivial, trivial⟩
  items_eq := by decide +kernel

def sampleBlocks : List Block :=
  [.stored [97, 98] (by decide),
    .fixed [.copy ⟨0, 0, by decide, by decide⟩ ⟨1, 0, by decide, by decide⟩],
    .dynamic sampleTables [.literal 97]]

theorem decodeDeflate64_exact_sample :
    (decodeDeflate64 (encode sampleBlocks) (some 6) 6 Limits.default).granted =
        .ok [97, 98, 97, 98, 97, 97] ∧
      (decodeDeflate64 (encode sampleBlocks ++ [0]) (some 6) 6
          Limits.default).granted = .error (formatError "Deflate64 stream has trailing input") := by
  have hexpand : expand sampleBlocks = [97, 98, 97, 98, 97, 97] := by decide +kernel
  have hvalid : ValidBlocks [] sampleBlocks :=
    ⟨trivial, ⟨⟨by decide +kernel, by decide +kernel⟩, by decide +kernel, trivial⟩,
      ⟨by decide +kernel, trivial, trivial⟩, trivial⟩
  obtain ⟨hrun, htrailing, -⟩ := decodeDeflate64_exact sampleBlocks (cons_ne_nil _ _) hvalid
    Limits.default (by decide) 6 (by decide) (by rw [hexpand]; decide) (some 6)
    (fun size h => by rw [hexpand]; exact (Option.some.inj h).symm) (by decide +kernel)
  rw [hexpand] at hrun
  exact ⟨hrun, htrailing [0] (cons_ne_nil _ _) (by decide +kernel)⟩

end Deflate64
end Unpackio
