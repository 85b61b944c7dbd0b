/-
What `decode_lzma` makes of the stream of an encoder.

A packet is what an encoder sends with one round of the decoder: a literal, or a copy
from the bytes in front of it.  The encoder keeps the state of the decoder.  From any
packets that reach no further back than the dictionary, the decoder makes the bytes
they expand to, with the size declared or with an end marker.
-/
import Unpackio.Foundation.Lz77
import Unpackio.Lzma.Encode

namespace Unpackio
namespace Lzma

open Except (bind_eq_ok ok_bind)
open Lz77 (copied copied_source length_copied loop_copied)
open Numerals (numeral_cons numeral_step)
open RangeCoder (Carries Decision Interval encodeDecisions number)
open Unpackio.Filter (wrappingShl)

/-- The distance that a repetition uses comes first. -/
def Repetitions.front : Repetitions → Fin 4 → Repetitions
  | repetitions, 0 => repetitions
  | ⟨rep0, rep1, rep2, rep3⟩, 1 => ⟨rep1, rep0, rep2, rep3⟩
  | ⟨rep0, rep1, rep2, rep3⟩, 2 => ⟨rep2, rep0, rep1, rep3⟩
  | ⟨rep0, rep1, rep2, rep3⟩, 3 => ⟨rep3, rep0, rep1, rep2⟩

/-- Distances count from one and lengths from two. -/
inductive Packet where
  | literal (byte : UInt8)
  | fresh (distance length : Nat)
  | short
  | repeated (index : Fin 4) (length : Nat)
  deriving DecidableEq, Repr

namespace Packet

def operation (repetitions : Repetitions) : Packet → StreamOperation
  | literal byte => .literal byte
  | fresh distance length => .copy (distance + 1) (length + minMatchLength)
  | short => .copy (repetitions.rep0 + 1) 1
  | repeated index length =>
    .copy ((repetitions.front index).rep0 + 1) (length + minMatchLength)

def next (repetitions : Repetitions) : Packet → Repetitions
  | literal _ => repetitions
  | fresh distance _ => ⟨distance, repetitions.rep0, repetitions.rep1, repetitions.rep2⟩
  | short => repetitions
  | repeated index _ => repetitions.front index

def Fits (limit : Nat) (repetitions : Repetitions) : Packet → Prop
  | literal _ => True
  | fresh distance length => distance < limit ∧ length < 272
  | short => repetitions.rep0 < limit
  | repeated index length => (repetitions.front index).rep0 < limit ∧ length < 272

def expand (repetitions : Repetitions) (bytes : List UInt8) (packet : Packet) : List UInt8 :=
  match packet.operation repetitions with
  | .literal byte => bytes ++ [byte]
  | .copy distance length => bytes ++ copied bytes distance length
  | .done => bytes

end Packet

def expandPackets : Repetitions → List UInt8 → List Packet → List UInt8
  | _, bytes, [] => bytes
  | repetitions, bytes, packet :: packets =>
    expandPackets (packet.next repetitions) (packet.expand repetitions bytes) packets

def ValidPackets (dictionary : Nat) : Repetitions → List UInt8 → List Packet → Prop
  | _, _, [] => True
  | repetitions, bytes, packet :: packets =>
    packet.Fits (min dictionary bytes.length) repetitions ∧
      ValidPackets dictionary (packet.next repetitions) (packet.expand repetitions bytes) packets

namespace LzmaState

def encodeLiteral (state : LzmaState) (bytes : List UInt8) (byte : UInt8) :
    List Decision × LzmaState :=
  let output := Output.mk bytes 0 0 0
  let literal := state.literal.encode state.state (output.matchByte state.repetitions.rep0)
    output.previousByte output.position byte
  (literal.1, { state with literal := literal.2, state := updateLiteral state.state })

def encodeMatch (state : LzmaState) (positionState distance length : Nat) :
    List Decision × LzmaState :=
  let first := state.length.encode positionState length
  let rest := state.distance.encode length distance
  let repetitions := ⟨distance, state.repetitions.rep0, state.repetitions.rep1,
    state.repetitions.rep2⟩
  (first.1 ++ rest.1, { state with
    length := first.2, distance := rest.2, repetitions, state := updateMatch state.state })

def encodeRepeated (state : LzmaState) (positionState length : Nat) : List Decision × LzmaState :=
  let repetitionLength := state.repetitionLength.encode positionState length
  (repetitionLength.1, { state with
    repetitionLength := repetitionLength.2, state := updateRepetition state.state })

def encodeShort (state : LzmaState) (combined : Nat) : List Decision × LzmaState :=
  let zero := encodeAt state.isRepZero state.state false
  let long := encodeAt state.isRepZeroLong combined false
  (zero.1 ++ long.1, { state with
    isRepZero := zero.2, isRepZeroLong := long.2, state := updateShortRepetition state.state })

def encodeRepetition (state : LzmaState) (positionState combined : Nat) (index : Fin 4)
    (length : Nat) : List Decision × LzmaState :=
  let zero := encodeAt state.isRepZero state.state (index ≠ 0)
  let repetitions := state.repetitions.front index
  let state := { state with isRepZero := zero.2, repetitions }
  if index = 0 then
    let long := encodeAt state.isRepZeroLong combined true
    let rest := encodeRepeated { state with isRepZeroLong := long.2 } positionState length
    (zero.1 ++ (long.1 ++ rest.1), rest.2)
  else
    let one := encodeAt state.isRepOne state.state (index ≠ 1)
    let state := { state with isRepOne := one.2 }
    if index = 1 then
      let rest := state.encodeRepeated positionState length
      (zero.1 ++ (one.1 ++ rest.1), rest.2)
    else
      let two := encodeAt state.isRepTwo state.state (index ≠ 2)
      let rest := encodeRepeated { state with isRepTwo := two.2 } positionState length
      (zero.1 ++ (one.1 ++ (two.1 ++ rest.1)), rest.2)

/-- Code a match or a repetition, behind the bits that say so. -/
def encodeCopy (state : LzmaState) (combined : Nat) (repetition : Bool)
    (encode : LzmaState → List Decision × LzmaState) : List Decision × LzmaState :=
  let first := encodeAt state.isMatch combined true
  let second := encodeAt state.isRep state.state repetition
  let rest := encode { state with isMatch := first.2, isRep := second.2 }
  (first.1 ++ (second.1 ++ rest.1), rest.2)

def encodeOperation (state : LzmaState) (bytes : List UInt8) (packet : Packet) :
    List Decision × LzmaState :=
  let positionState := bytes.length &&& state.positionMask
  let combined := state.state * positionStates + positionState
  match packet with
  | .literal byte =>
    let first := encodeAt state.isMatch combined false
    let rest := encodeLiteral { state with isMatch := first.2 } bytes byte
    (first.1 ++ rest.1, rest.2)
  | .fresh distance length =>
    state.encodeCopy combined false (encodeMatch · positionState distance length)
  | .short => state.encodeCopy combined true (encodeShort · combined)
  | .repeated index length =>
    state.encodeCopy combined true (encodeRepetition · positionState combined index length)

/-- Code the end marker, which is a match with a distance that no copy has. -/
def encodeEnd (state : LzmaState) (bytes : List UInt8) : List Decision × LzmaState :=
  let positionState := bytes.length &&& state.positionMask
  state.encodeCopy (state.state * positionStates + positionState) false
    (encodeMatch · positionState eosDistance 0)

structure Sound (lp : Nat) (state : LzmaState) : Prop where
  isMatch : Table (stateCount * positionStates) state.isMatch
  isRepZeroLong : Table (stateCount * positionStates) state.isRepZeroLong
  isRep : Table stateCount state.isRep
  isRepZero : Table stateCount state.isRepZero
  isRepOne : Table stateCount state.isRepOne
  isRepTwo : Table stateCount state.isRepTwo
  literal : state.literal.Sound lp
  length : state.length.Sound
  repetitionLength : state.repetitionLength.Sound
  distance : state.distance.Sound
  state_lt : state.state < stateCount
  mask_lt : state.positionMask < positionStates

theorem update_lt (state : Nat) (h : state < stateCount) :
    updateLiteral state < stateCount ∧ updateMatch state < stateCount ∧
      updateRepetition state < stateCount ∧ updateShortRepetition state < stateCount := by
  unfold updateLiteral updateMatch updateRepetition updateShortRepetition
  unfold stateCount at *
  refine ⟨?_, ?_, ?_, ?_⟩ <;> split_ifs <;> omega

variable {lp positionState combined distance length : Nat} {state : LzmaState}

theorem coded_decodeLiteral (h : state.Sound lp) (output : Output) (byte : UInt8) :
    Coded (state.encodeLiteral output.bytes byte) (state.decodeLiteral · output) (.literal byte)
      (Sound lp) := by
  obtain ⟨hcodes, hliteral⟩ := LiteralDecoder.coded_decode h.literal state.state
    (output.matchByte state.repetitions.rep0) output.previousByte output.position byte
  exact ⟨.andThen hcodes (.pure _),
    { h with literal := hliteral, state_lt := (update_lt _ h.state_lt).1 }⟩

theorem Sound.tables (h : state.Sound lp) {isRepZero isRepZeroLong isRepOne isRepTwo : List Nat}
    (hzero : Table stateCount isRepZero)
    (hlong : Table (stateCount * positionStates) isRepZeroLong)
    (hone : Table stateCount isRepOne) (htwo : Table stateCount isRepTwo)
    (repetitions : Repetitions) : Sound lp { state with
      repetitions, isRepZero, isRepZeroLong, isRepOne, isRepTwo } :=
  { h with isRepZero := hzero, isRepZeroLong := hlong, isRepOne := hone, isRepTwo := htwo }

section Lengths

variable (h : state.Sound lp) (hstate : positionState < positionStates) (hlength : length < 272)
include h hstate hlength

theorem coded_decodeMatch (hdistance : distance < 2 ^ 32) :
    Coded (state.encodeMatch positionState distance length) (state.decodeMatch · positionState)
      (if distance = eosDistance then .done else .copy (distance + 1) (length + minMatchLength))
      (Sound lp) := by
  obtain ⟨hfirst, hlengths⟩ := LengthDecoder.coded_decode h.length hstate hlength
  obtain ⟨hrest, hdistances⟩ := DistanceDecoder.coded_decode h.distance length hdistance
  refine ⟨.bind hfirst (.andThen hrest ?_), { h with
    length := hlengths, distance := hdistances, state_lt := (update_lt _ h.state_lt).2.1 }⟩
  by_cases hend : distance = eosDistance
  · rw [if_pos hend]
    exact .ite_pos hend (.pure _)
  · rw [if_neg hend]
    unfold eosDistance at hend
    exact .ite_neg hend (.value (okOr_eq_ok.mpr (tryFrom_of_lt (by omega)))
      (.value (okOr_eq_ok.mpr (tryFrom_of_lt (by unfold minMatchLength; omega))) (.pure _)))

theorem Sound.coded_decodeRepeated (hdistance : state.repetitions.rep0 < eosDistance) :
    Coded (state.encodeRepeated positionState length) (state.decodeRepeated · positionState)
      (.copy (state.repetitions.rep0 + 1) (length + minMatchLength)) (Sound lp) := by
  obtain ⟨hcodes, hlengths⟩ := LengthDecoder.coded_decode h.repetitionLength hstate hlength
  unfold eosDistance at hdistance
  exact ⟨.andThen hcodes (.value (okOr_eq_ok.mpr (tryFrom_of_lt (by omega)))
    (.value (okOr_eq_ok.mpr (tryFrom_of_lt (by unfold minMatchLength; omega))) (.pure _))),
    { h with repetitionLength := hlengths, state_lt := (update_lt _ h.state_lt).2.2.1 }⟩

theorem coded_decodeRepetition (hcombined : combined < stateCount * positionStates)
    (index : Fin 4) (hdistance : (state.repetitions.front index).rep0 < eosDistance) :
    Coded (state.encodeRepetition positionState combined index length)
      (state.decodeRepetition · positionState combined)
      (.copy ((state.repetitions.front index).rep0 + 1) (length + minMatchLength)) (Sound lp) := by
  obtain ⟨hzero, htableZero⟩ := h.isRepZero.decodeAt h.state_lt
    "LZMA repetition-zero state is out of range" (index ≠ 0)
  obtain ⟨hlong, htableLong⟩ := h.isRepZeroLong.decodeAt hcombined
    "LZMA short-repetition state is out of range" true
  obtain ⟨hone, htableOne⟩ := h.isRepOne.decodeAt h.state_lt
    "LZMA repetition-one state is out of range" (index ≠ 1)
  obtain ⟨htwo, htableTwo⟩ := h.isRepTwo.decodeAt h.state_lt
    "LZMA repetition-two state is out of range" (index ≠ 2)
  match index with
  | 0 =>
    obtain ⟨hrest, hsound⟩ := (h.tables htableZero htableLong h.isRepOne h.isRepTwo
      state.repetitions).coded_decodeRepeated hstate hlength hdistance
    exact ⟨.bind hzero (.bind hlong hrest), hsound⟩
  | 1 =>
    obtain ⟨hrest, hsound⟩ := (h.tables htableZero h.isRepZeroLong htableOne h.isRepTwo
      (state.repetitions.front 1)).coded_decodeRepeated hstate hlength hdistance
    exact ⟨.bind hzero (.bind hone hrest), hsound⟩
  | 2 | 3 =>
    obtain ⟨hrest, hsound⟩ := (h.tables htableZero h.isRepZeroLong htableOne htableTwo
      (state.repetitions.front _)).coded_decodeRepeated hstate hlength hdistance
    exact ⟨.bind hzero (.bind hone (.bind htwo hrest)), hsound⟩

end Lengths

theorem coded_decodeShort (h : state.Sound lp) (hcombined : combined < stateCount * positionStates)
    (positionState : Nat) (hdistance : state.repetitions.rep0 < eosDistance) :
    Coded (state.encodeShort combined) (state.decodeRepetition · positionState combined)
      (.copy (state.repetitions.rep0 + 1) 1) (Sound lp) := by
  obtain ⟨hzero, htable⟩ := h.isRepZero.decodeAt h.state_lt
    "LZMA repetition-zero state is out of range" false
  obtain ⟨hlong, htable'⟩ := h.isRepZeroLong.decodeAt hcombined
    "LZMA short-repetition state is out of range" false
  unfold eosDistance at hdistance
  exact ⟨.bind hzero (.andThen hlong
    (.value (okOr_eq_ok.mpr (tryFrom_of_lt (show state.repetitions.rep0 + 1 < 2 ^ 32 by omega)))
      (.pure _))), { h with
      isRepZero := htable, isRepZeroLong := htable', state_lt := (update_lt _ h.state_lt).2.2.2 }⟩

section Operations

variable {output : Output} {packet : Packet} (h : state.Sound lp)
include h

theorem Sound.contexts (position : Nat) :
    position &&& state.positionMask < positionStates ∧
      state.state * positionStates + (position &&& state.positionMask) <
        stateCount * positionStates ∧
      (tryFrom 64 (state.state * positionStates)).bind
          (checkedAdd · (position &&& state.positionMask)) =
        some (state.state * positionStates + (position &&& state.positionMask)) := by
  have hstate := h.state_lt
  have hmask := h.mask_lt
  have hle := Nat.and_le_right (n := position) (m := state.positionMask)
  rw [show stateCount = 12 from rfl] at hstate ⊢
  rw [show positionStates = 16 from rfl] at hmask ⊢
  refine ⟨by omega, by omega, ?_⟩
  rw [tryFrom_of_lt (by omega), Option.bind_some, checkedAdd_of_lt (by omega)]

theorem Sound.coded_encodeCopy {repetition : Bool} {operation : StreamOperation}
    {encode : LzmaState → List Decision × LzmaState}
    (hcoded : ∀ next : LzmaState, next.Sound lp → next.repetitions = state.repetitions →
      Coded (encode next) (fun range => if repetition.toNat = 0 then
          next.decodeMatch range (output.position &&& state.positionMask)
        else next.decodeRepetition range (output.position &&& state.positionMask)
          (state.state * positionStates + (output.position &&& state.positionMask)))
        operation (Sound lp)) :
    Coded (state.encodeCopy
        (state.state * positionStates + (output.position &&& state.positionMask)) repetition encode)
      (decodeOperation state · output) operation (Sound lp) := by
  obtain ⟨-, hcombined, hvalue⟩ := h.contexts output.position
  obtain ⟨hfirst, htable⟩ := h.isMatch.decodeAt hcombined "LZMA match state is out of range" true
  obtain ⟨hsecond, htable'⟩ := h.isRep.decodeAt h.state_lt
    "LZMA repetition state is out of range" repetition
  obtain ⟨hrest, hsound⟩ := hcoded { state with
    isMatch := (encodeAt state.isMatch _ true).2
    isRep := (encodeAt state.isRep state.state repetition).2 }
    { h with isMatch := htable, isRep := htable' } rfl
  exact ⟨.step rfl (.value (okOr_eq_ok.mpr hvalue) (.bind hfirst (.bind hsecond hrest))), hsound⟩

theorem coded_encodeOperation (hfits : packet.Fits eosDistance state.repetitions) :
    Coded (state.encodeOperation output.bytes packet) (decodeOperation state · output)
      (packet.operation state.repetitions) (Sound lp) := by
  obtain ⟨hposition, hcombined, hvalue⟩ := h.contexts output.position
  cases packet with
  | literal byte =>
    obtain ⟨hfirst, htable⟩ := h.isMatch.decodeAt hcombined "LZMA match state is out of range" false
    obtain ⟨hrest, hsound⟩ := @coded_decodeLiteral _ { state with
      isMatch := (encodeAt state.isMatch _ false).2 } { h with isMatch := htable } output byte
    exact ⟨.step rfl (.value (okOr_eq_ok.mpr hvalue) (.bind hfirst hrest)), hsound⟩
  | fresh distance length =>
    obtain ⟨hdistance, hlength⟩ := hfits
    refine h.coded_encodeCopy fun next hnext hsame => ?_
    have hcoded := coded_decodeMatch hnext hposition hlength
      (show distance < 2 ^ 32 from Nat.lt_trans hdistance (by decide))
    rwa [if_neg (Nat.ne_of_lt hdistance)] at hcoded
  | short =>
    refine h.coded_encodeCopy fun next hnext hsame => ?_
    have hcoded := coded_decodeShort hnext hcombined (output.position &&& state.positionMask)
      (hsame ▸ hfits)
    rwa [hsame] at hcoded
  | repeated index length =>
    obtain ⟨hdistance, hlength⟩ := hfits
    refine h.coded_encodeCopy fun next hnext hsame => ?_
    have hcoded := coded_decodeRepetition hnext hposition hlength hcombined index
      (hsame ▸ hdistance)
    rwa [hsame] at hcoded

theorem coded_encodeEnd :
    Coded (state.encodeEnd output.bytes) (decodeOperation state · output) .done (Sound lp) := by
  refine h.coded_encodeCopy fun next hnext _ => ?_
  have hcoded := coded_decodeMatch hnext (h.contexts output.position).1 (by decide : 0 < 272)
    (by decide : eosDistance < 2 ^ 32)
  rwa [if_pos rfl] at hcoded

end Operations

theorem repetitions_encodeOperation (bytes : List UInt8) (packet : Packet) :
    (state.encodeOperation bytes packet).2.repetitions = packet.next state.repetitions := by
  cases packet with
  | repeated index length =>
    match index with
    | 0 | 1 | 2 | 3 => rfl
  | literal | fresh | short => rfl

end LzmaState

namespace RangeDecoder

theorem fillCode_eq (count : Nat) {decoder : RangeDecoder}
    (hcursor : decoder.cursor + count ≤ decoder.input.length)
    (hinput : decoder.input.length < 2 ^ 64) (hcode : (decoder.code + 1) * 256 ^ count ≤ 2 ^ 32) :
    (fillCode count decoder).granted = .ok { decoder with
      cursor := decoder.cursor + count
      code := decoder.code * 256 ^ count +
        number ((decoder.input.drop decoder.cursor).take count) } := by
  induction count generalizing decoder with
  | zero =>
    rw [fillCode, Prog.granted_pure, Nat.pow_zero, Nat.mul_one]
    rfl
  | succ count ih =>
    have hlt : decoder.cursor < decoder.input.length := by omega
    have hpos : 0 < 256 ^ count := Nat.pow_pos (by decide)
    have hsmall : decoder.code < topValue := by
      have htop : topValue * 256 = 2 ^ 32 := rfl
      have hle := Nat.mul_le_mul_left (decoder.code + 1) hpos
      rw [Nat.pow_succ, ← Nat.mul_assoc] at hcode
      omega
    have hbyte := (decoder.input.get ⟨decoder.cursor, hlt⟩).toNat_lt
    have hfits : (256 * decoder.code + (decoder.input.get ⟨decoder.cursor, hlt⟩).toNat + 1) *
        256 ^ count ≤ 2 ^ 32 := by
      refine Nat.le_trans (Nat.mul_le_mul_right _ ?_) (by rwa [Nat.mul_assoc, ← Nat.pow_succ'])
      omega
    have hlength : ((decoder.input.drop (decoder.cursor + 1)).take count).length = count := by
      rw [List.length_take, List.length_drop]
      omega
    have hstep := numeral_step 256 UInt8.toNat decoder.code
      (decoder.input.get ⟨decoder.cursor, hlt⟩)
      ((decoder.input.drop (decoder.cursor + 1)).take count)
    rw [List.length_cons, hlength, Nat.mul_comm decoder.code 256] at hstep
    rw [fillCode, Prog.granted_bind, readByte_eq hinput, dif_pos hlt,
      List.drop_eq_getElem_cons hlt, List.take_succ_cons]
    show (fillCode count { decoder with
      cursor := decoder.cursor + 1, code := wrappingShl decoder.code 8 ||| _ }).granted = _
    have hrest := @ih { decoder with
      cursor := decoder.cursor + 1
      code := 256 * decoder.code + (decoder.input.get ⟨decoder.cursor, hlt⟩).toNat }
      (show decoder.cursor + 1 + count ≤ decoder.input.length by omega) hinput hfits
    rw [shiftIn_eq hsmall, hrest, Nat.add_right_comm]
    exact congrArg (fun code => Except.ok (RangeDecoder.mk decoder.input
      (decoder.cursor + count + 1) decoder.range code)) hstep

theorem new_at {stream : List UInt8} {final : Interval} (hcarries : Carries stream final)
    (hlength : stream.length < 2 ^ 64) (hwithin : final.Within .start) :
    ∃ decoder, (new stream).granted = .ok decoder ∧ At stream .start decoder := by
  have hcount := hcarries.length_eq
  obtain ⟨read, rest, hsplit, hread, hstands⟩ := RangeCoder.stands_start hcarries
  have hlt := hstands.code_lt hcarries hwithin
  obtain ⟨first, front, rfl⟩ := List.exists_cons_of_length_eq_add_one hread
  have hfront : front.length = 4 := Nat.succ_inj.mp hread
  rw [List.cons_append] at hsplit
  subst hsplit
  rw [RangeCoder.number, numeral_cons, hfront] at hlt hstands
  have hfirst : first = 0 := UInt8.toNat_inj.mp (show first.toNat = 0 by omega)
  subst hfirst
  rw [UInt8.toNat_zero, Nat.zero_mul, Nat.zero_add] at hlt hstands
  have hfill := @fillCode_eq 4 ⟨0 :: (front ++ rest), 1, 2 ^ 32 - 1, 0⟩
    (show 1 + 4 ≤ (0 :: (front ++ rest)).length by omega) hlength
    (show (0 + 1) * 256 ^ 4 ≤ 2 ^ 32 by decide)
  rw [List.drop_succ_cons, List.drop_zero, List.take_left' hfront, Nat.zero_mul, Nat.zero_add]
    at hfill
  have hlong : 5 ≤ (0 :: (front ++ rest)).length := by omega
  refine ⟨⟨0 :: (front ++ rest), 5, 2 ^ 32 - 1, number front⟩, ?_, rfl, hlength, hlong,
    Interval.ready_start, ?_⟩
  · have hread := @readByte_eq ⟨0 :: (front ++ rest), 0, 2 ^ 32 - 1, 0⟩ hlength
    rw [dif_pos (show 0 < (0 :: (front ++ rest)).length by omega)] at hread
    simp only [new, Prog.granted_bind, hread, ok_bind, Prog.granted_lift]
    show (rejectIf ((0 : UInt8) ≠ 0) _ >>= fun _ => (fillCode 4 _).granted >>= _) = _
    rw [rejectIf_of_not (not_not.mpr rfl), ok_bind, hfill, ok_bind,
      rejectIf_of_not (Nat.not_le.mpr hlt)]
    rfl
  · rwa [List.drop_succ_cons, List.drop_left' hfront]

theorem at_end {stream : List UInt8} {final : Interval} {decoder : RangeDecoder}
    (hcarries : Carries stream final) (hat : At stream final decoder) :
    decoder.code = 0 ∧ decoder.cursor = decoder.input.length := by
  obtain ⟨rfl, -, hcursor, -, -, read, hsplit, hread, hcode⟩ := hat
  have hlength := hcarries.length_eq
  have hdrop : (decoder.input.drop decoder.cursor).length = 0 := by
    have := congrArg List.length hsplit
    rw [List.length_append] at this
    omega
  rw [List.eq_nil_of_length_eq_zero hdrop, List.append_nil] at hsplit
  have hnumber := hcarries.number_eq
  rw [List.length_drop] at hdrop
  rw [hsplit] at hnumber
  exact ⟨by omega, by omega⟩

end RangeDecoder

theorem ProbabilityTree.Sized.of_new {bits : Nat} {tree : ProbabilityTree}
    (h : new bits = .ok tree) : tree.Sized bits := by
  refine ⟨shaped_of_new h, ?_⟩
  obtain ⟨_, -, h⟩ := bind_eq_ok.mp h
  obtain ⟨_, -, h⟩ := bind_eq_ok.mp h
  cases h
  rfl

theorem Table.replicate (count : Nat) : Table count (List.replicate count probInitial) :=
  ⟨fun _ hmem => List.eq_of_mem_replicate hmem ▸ adapted_initial, List.length_replicate⟩

theorem Trees.replicate {bits : Nat} {tree : ProbabilityTree} (h : tree.Sized bits) (count : Nat) :
    Trees (fun _ => bits) count (List.replicate count tree) :=
  ⟨List.length_replicate, fun _ _ hget =>
    List.eq_of_mem_replicate (List.mem_of_getElem? hget) ▸ h⟩

theorem LengthDecoder.Sound.of_new {lengths : LengthDecoder} (h : new = .ok lengths) :
    lengths.Sound := by
  obtain ⟨low, hlow, h⟩ := bind_eq_ok.mp h
  obtain ⟨middle, hmiddle, h⟩ := bind_eq_ok.mp h
  obtain ⟨high, hhigh, h⟩ := bind_eq_ok.mp h
  cases h
  exact ⟨.replicate 2, .replicate (.of_new hlow) _, .replicate (.of_new hmiddle) _, .of_new hhigh⟩

theorem DistanceDecoder.Sound.of_new {distances : DistanceDecoder} (h : new = .ok distances) :
    distances.Sound := by
  obtain ⟨positionSlot, hslot, h⟩ := bind_eq_ok.mp h
  obtain ⟨positionModels, hmodels, h⟩ := bind_eq_ok.mp h
  obtain ⟨alignment, halignment, h⟩ := bind_eq_ok.mp h
  cases h
  refine ⟨.replicate (.of_new hslot) _, ?_, .of_new halignment⟩
  have hwidth : ∀ slot < 10, ProbabilityTree.new ((slot + 4) / 2 - 1) =
      .ok ⟨List.replicate (2 ^ ((slot + 4) / 2 - 1)) probInitial, (slot + 4) / 2 - 1⟩ := by
    decide
  have hlist : (List.range' startPositionModel (endPositionModel - startPositionModel)).mapM
      (fun slot => do
        let bits ← okOr (checkedSub (slot >>> 1) 1)
          (formatError "LZMA position-model width underflows")
        ProbabilityTree.new bits) = .ok ((List.range 10).map fun slot =>
          ⟨List.replicate (2 ^ ((slot + 4) / 2 - 1)) probInitial, (slot + 4) / 2 - 1⟩) := by
    rfl
  cases hlist.symm.trans hmodels
  refine ⟨rfl, fun slot tree hget => ?_⟩
  rw [List.getElem?_map, Option.map_eq_some_iff] at hget
  obtain ⟨index, hindex, rfl⟩ := hget
  obtain ⟨hlt, rfl⟩ := List.getElem?_eq_some_iff.mp hindex
  rw [List.length_range] at hlt
  rw [List.getElem_range]
  exact .of_new (hwidth slot hlt)

theorem LiteralDecoder.Sound.of_new {lc lp : Nat} {literal : LiteralDecoder}
    (h : new lc lp = .ok literal) : literal.Sound lp := by
  obtain ⟨contextBits, hbits, h⟩ := bind_eq_ok.mp h
  obtain ⟨_, hwidth, h⟩ := bind_eq_ok.mp h
  obtain ⟨contexts, hcontexts, h⟩ := bind_eq_ok.mp h
  obtain ⟨count, hcount, h⟩ := bind_eq_ok.mp h
  obtain ⟨mask, hmask, h⟩ := bind_eq_ok.mp h
  obtain ⟨shift, hshift, h⟩ := bind_eq_ok.mp h
  cases h
  obtain ⟨-, rfl⟩ := tryFrom_eq_some.mp (okOr_eq_ok.mp hbits)
  have hle := rejectIf_eq_ok.mp hwidth
  rw [checkedShl_one (by omega), okOr_eq_ok, Option.some_inj] at hcontexts
  obtain ⟨-, rfl⟩ := tryFrom_eq_some.mp (okOr_eq_ok.mp hcount)
  rw [checkedShl_one (by omega), okOr_eq_ok, Option.bind_some] at hmask
  obtain ⟨-, rfl⟩ := checkedSub_eq_some.mp hmask
  obtain ⟨-, rfl⟩ := checkedSub_eq_some.mp (okOr_eq_ok.mp hshift)
  subst hcontexts
  exact ⟨Nat.not_lt.mp hle, rfl, rfl, .replicate _⟩

theorem LzmaState.Sound.of_new {lc lp pb : Nat} {state : LzmaState}
    (h : new lc lp pb = .ok state) : state.Sound lp ∧ state.repetitions = ⟨0, 0, 0, 0⟩ := by
  obtain ⟨_, hpb, h⟩ := bind_eq_ok.mp h
  obtain ⟨positionMask, hmask, h⟩ := bind_eq_ok.mp h
  obtain ⟨literal, hliteral, h⟩ := bind_eq_ok.mp h
  obtain ⟨length, hlength, h⟩ := bind_eq_ok.mp h
  obtain ⟨repetitionLength, hrepetition, h⟩ := bind_eq_ok.mp h
  obtain ⟨distance, hdistance, h⟩ := bind_eq_ok.mp h
  cases h
  refine ⟨⟨.replicate _, .replicate _, .replicate _, .replicate _, .replicate _, .replicate _,
    .of_new hliteral, .of_new hlength, .of_new hrepetition, .of_new hdistance,
    show 0 < stateCount by decide, ?_⟩, rfl⟩
  have hle := Nat.not_lt.mp (rejectIf_eq_ok.mp hpb)
  rw [checkedShl_one (by omega), okOr_eq_ok, Option.bind_some] at hmask
  obtain ⟨-, rfl⟩ := checkedSub_eq_some.mp hmask
  have hpow : 2 ^ pb ≤ 2 ^ 4 := Nat.pow_le_pow_right (by decide) hle
  show 2 ^ pb - 1 < 16
  omega

namespace Output

variable {output : Output}

theorem ensureAdditional_of_le {additional : Nat}
    (hroom : output.bytes.length + additional ≤ output.maximum)
    (hmaximum : output.maximum < 2 ^ 64) : output.ensureAdditional additional = .ok () := by
  rw [ensureAdditional, position, checkedAdd_bind (by omega), checkLimit_of_le hroom]

theorem push_granted (hroom : output.bytes.length + 1 ≤ output.maximum)
    (hmaximum : output.maximum < 2 ^ 64) (byte : UInt8) :
    (output.push byte).granted = .ok { output with bytes := output.bytes ++ [byte] } := by
  rw [push, Prog.granted_lift_bind, ensureAdditional_of_le hroom hmaximum, ok_bind,
    checkpoint_bind, Prog.granted_pure]

theorem copyLoop_granted {distance : Nat} (hpos : 1 ≤ distance)
    (hle : distance ≤ output.bytes.length) (count : Nat) :
    (copyLoop distance count output).granted =
      .ok { output with bytes := output.bytes ++ copied output.bytes distance count } := by
  refine loop_copied
    (f := fun count bytes => (copyLoop distance count { output with bytes }).granted)
    (g := fun bytes => .ok { output with bytes }) (fun _ => rfl)
    (fun count bytes byte hdistance hbyte => ?_) hpos hle count
  simp only [copyLoop, Prog.granted_bind, checkpoint_granted, ok_bind, Prog.granted_lift,
    checkedSub_of_le hdistance, okOr_some, hbyte]

theorem copyMatch_granted {distance length : Nat} (hpos : 1 ≤ distance)
    (hdictionary : distance ≤ output.dictionarySize) (hle : distance ≤ output.bytes.length)
    (hstart : output.dictionaryStart = 0) (hroom : output.bytes.length + length ≤ output.maximum)
    (hmaximum : output.maximum < 2 ^ 64) :
    (output.copyMatch distance length).granted =
      .ok { output with bytes := output.bytes ++ copied output.bytes distance length } := by
  have hhistory : output.dictionaryLength = .ok output.bytes.length := by
    rw [dictionaryLength, hstart, checkedSub_of_le (Nat.zero_le _), Nat.sub_zero]
    rfl
  simp only [copyMatch, Prog.granted_bind, Prog.granted_lift, ok_bind, hhistory,
    rejectIf_of_not (show ¬distance = 0 by omega), rejectIf_of_not (Nat.not_lt.mpr hdictionary),
    rejectIf_of_not (Nat.not_lt.mpr hle), ensureAdditional_of_le hroom hmaximum,
    copyLoop_granted hpos hle]

end Output

def encodePackets : LzmaState → List UInt8 → List Packet → List Decision × LzmaState
  | state, _, [] => ([], state)
  | state, bytes, packet :: packets =>
    let first := state.encodeOperation bytes packet
    let rest := encodePackets first.2 (packet.expand state.repetitions bytes) packets
    (first.1 ++ rest.1, rest.2)

def encodeLzma (properties : List UInt8) (packets : List Packet) (marked : Bool) :
    Except Error (List UInt8) := do
  let (property, _) ← lzmaDictionary properties
  let (lc, lp, pb) ← propertiesFromByte property
  let state ← LzmaState.new lc lp pb
  let body := encodePackets state [] packets
  let marker := body.2.encodeEnd (expandPackets state.repetitions [] packets)
  return encodeDecisions (body.1 ++ if marked then marker.1 else [])

theorem validPackets_sample : ValidPackets 256 ⟨0, 0, 0, 0⟩ []
    [.literal 97, .fresh 0 1, .literal 98, .repeated 0 0, .short] := by
  simp [ValidPackets, Packet.Fits, Packet.expand, Packet.operation, Packet.next,
    Repetitions.front]

theorem Packet.length_expand (packet : Packet) (repetitions : Repetitions) (bytes : List UInt8) :
    bytes.length + 1 ≤ (packet.expand repetitions bytes).length := by
  unfold expand
  cases packet <;> simp [operation, minMatchLength]

theorem length_expandPackets (repetitions : Repetitions) (bytes : List UInt8)
    (packets : List Packet) :
    bytes.length + packets.length ≤ (expandPackets repetitions bytes packets).length := by
  induction packets generalizing repetitions bytes with
  | nil => exact Nat.le_refl _
  | cons packet packets ih =>
    have hfirst := packet.length_expand repetitions bytes
    have hrest := ih (packet.next repetitions) (packet.expand repetitions bytes)
    rw [List.length_cons, expandPackets]
    omega

theorem Packet.Fits.cases {packet : Packet} {limit : Nat} {repetitions : Repetitions}
    (h : packet.Fits limit repetitions) :
    (∃ byte, packet.operation repetitions = .literal byte) ∨
      ∃ distance length, packet.operation repetitions = .copy distance length ∧ 1 ≤ distance ∧
        distance ≤ limit := by
  cases packet with
  | literal byte => exact .inl ⟨byte, rfl⟩
  | fresh distance length => exact .inr ⟨_, _, rfl, Nat.le_add_left 1 _, h.1⟩
  | short => exact .inr ⟨_, _, rfl, Nat.le_add_left 1 _, h⟩
  | repeated index length => exact .inr ⟨_, _, rfl, Nat.le_add_left 1 _, h.1⟩

theorem Packet.Fits.mono {packet : Packet} {limit larger : Nat} {repetitions : Repetitions}
    (h : packet.Fits limit repetitions) (hle : limit ≤ larger) :
    packet.Fits larger repetitions := by
  cases packet with
  | literal => trivial
  | short => exact Nat.lt_of_lt_of_le h hle
  | fresh | repeated => exact ⟨Nat.lt_of_lt_of_le h.1 hle, h.2⟩

theorem fair_encodePackets {lp dictionary : Nat} {state : LzmaState} {bytes : List UInt8}
    {packets : List Packet} (hdictionary : dictionary < 2 ^ 32) (hsound : state.Sound lp)
    (hvalid : ValidPackets dictionary state.repetitions bytes packets) :
    (∀ decision ∈ (encodePackets state bytes packets).1, decision.Fair) ∧
      (encodePackets state bytes packets).2.Sound lp := by
  induction packets generalizing state bytes with
  | nil => exact ⟨fun _ hmem => absurd hmem List.not_mem_nil, hsound⟩
  | cons packet packets ih =>
    obtain ⟨hfits, hvalid⟩ := hvalid
    obtain ⟨⟨hfair, -⟩, hsound⟩ := @LzmaState.coded_encodeOperation _ state ⟨bytes, 0, 0, 0⟩ packet
      hsound (hfits.mono (show min dictionary bytes.length ≤ 2 ^ 32 - 1 by omega))
    rw [← state.repetitions_encodeOperation bytes packet] at hvalid
    obtain ⟨hrest, hsound⟩ := ih hsound hvalid
    exact ⟨List.forall_mem_append.mpr ⟨hfair, hrest⟩, hsound⟩

section Run

variable {lp : Nat} {stream : List UInt8} {final interval : Interval} {range : RangeDecoder}
  {target : Option Nat} {state : LzmaState} {output : Output} {packets : List Packet}
  {requireEos requireExactInput : Bool} {rounds : Nat}

theorem streamLoop_packets (hcarries : Carries stream final) (hsound : state.Sound lp)
    (hvalid : ValidPackets output.dictionarySize state.repetitions output.bytes packets)
    (hstart : output.dictionaryStart = 0) (hdictionary : output.dictionarySize < 2 ^ 32)
    (hroom : (expandPackets state.repetitions output.bytes packets).length ≤ output.maximum)
    (hmaximum : output.maximum < 2 ^ 64)
    (htarget : ∀ size ∈ target,
      (expandPackets state.repetitions output.bytes packets).length ≤ size)
    (hat : At stream interval range)
    (hwithin : final.Within (interval.after (encodePackets state output.bytes packets).1)) :
    ∃ next, (streamLoop target requireEos requireExactInput (rounds + packets.length) state range
        output).granted = (streamLoop target requireEos requireExactInput rounds
          (encodePackets state output.bytes packets).2 next
          { output with bytes := expandPackets state.repetitions output.bytes packets }).granted ∧
      At stream (interval.after (encodePackets state output.bytes packets).1) next := by
  induction packets generalizing interval range state output with
  | nil => exact ⟨range, rfl, hat⟩
  | cons packet packets ih =>
    obtain ⟨hfits, hvalid⟩ := hvalid
    obtain ⟨⟨hfair, hcodes⟩, hsound'⟩ := @LzmaState.coded_encodeOperation _ state output packet
      hsound (hfits.mono (show min _ _ ≤ 2 ^ 32 - 1 by omega))
    have hrepetitions := state.repetitions_encodeOperation output.bytes packet
    have hgrown := packet.length_expand state.repetitions output.bytes
    have hrest := length_expandPackets (packet.next state.repetitions)
      (packet.expand state.repetitions output.bytes) packets
    simp only [encodePackets, expandPackets] at hroom htarget hwithin ⊢
    rw [← hrepetitions] at hvalid hroom htarget hrest ⊢
    rw [Interval.after_append] at hwithin ⊢
    have hopen : target ≠ some output.position := fun heq => by
      have hle := htarget _ heq
      unfold Output.position at hle
      omega
    obtain ⟨next, hoperation, hnext⟩ := hcodes stream final interval range hcarries hat
      (hwithin.trans (Interval.within_after (Interval.ready_after hat.ready hfair)
        (fair_encodePackets hdictionary hsound' hvalid).1))
    obtain ⟨last, hloop, hlast⟩ := @ih _ next _
      { output with bytes := packet.expand state.repetitions output.bytes } hsound' hvalid hstart
        hdictionary hroom hmaximum htarget hnext hwithin
    refine ⟨last, Eq.trans ?_ hloop, hlast⟩
    rw [List.length_cons, ← Nat.add_assoc, streamLoop, if_neg hopen, Prog.granted_bind, hoperation,
      ok_bind]
    obtain ⟨byte, hliteral⟩ | ⟨distance, length, hcopy, hpos, hle⟩ := hfits.cases
    · have hexpand : packet.expand state.repetitions output.bytes = output.bytes ++ [byte] := by
        rw [Packet.expand, hliteral]
      simp only [hliteral, Prog.granted_bind]
      rw [output.push_granted (by omega) hmaximum, ok_bind, hexpand]
    · have hexpand : packet.expand state.repetitions output.bytes =
          output.bytes ++ copied output.bytes distance length := by
        rw [Packet.expand, hcopy]
      have hsize : (packet.expand state.repetitions output.bytes).length =
          output.bytes.length + length := by
        rw [hexpand, List.length_append, length_copied]
      have hallowed : checkTarget target output length = .ok () := by
        cases target with
        | none => rfl
        | some size =>
          have hle := htarget size rfl
          rw [checkTarget, Output.position, checkedAdd_bind (by omega), rejectIf_of_not (by omega)]
      simp only [hcopy, Prog.granted_bind, Prog.granted_lift, hallowed, ok_bind]
      rw [output.copyMatch_granted hpos (by omega) (by omega) hstart (by omega) hmaximum,
        ok_bind, hexpand]

theorem streamLoop_declared (hdone : target = some output.position)
    (hread : requireExactInput = true → range.cursor = range.input.length) :
    (streamLoop target requireEos requireExactInput (rounds + 1) state range output).granted =
      .ok (state, output) := by
  have hinput : ¬(requireExactInput = true ∧ range.cursor ≠ range.input.length) :=
    fun h => h.2 (hread h.1)
  rw [streamLoop, if_pos hdone, Prog.granted_lift_bind, rejectIf_of_not hinput]
  rfl

/-- The loop ends at the end marker, with the whole stream read. -/
theorem streamLoop_marked (hsound : state.Sound lp)
    (hcarries : Carries stream (interval.after (state.encodeEnd output.bytes).1))
    (hat : At stream interval range) (heos : requireEos = true) :
    (streamLoop none requireEos requireExactInput (rounds + 1) state range output).granted =
      .ok ((state.encodeEnd output.bytes).2, output) := by
  obtain ⟨⟨-, hcodes⟩, -⟩ := @LzmaState.coded_encodeEnd _ _ output hsound
  obtain ⟨last, hoperation, hlast⟩ := hcodes _ _ _ _ hcarries hat (.refl _)
  obtain ⟨hcode, hcursor⟩ := RangeDecoder.at_end hcarries hlast
  have hchecked : checkEnd none requireEos last output = .ok () := by
    rw [checkEnd, rejectIf_of_not (not_not.mpr hcode), ok_bind,
      rejectIf_of_not (not_not.mpr hcursor), heos]
    simp only [Option.getD_none, ne_eq, not_true_eq_false]
    rfl
  have hopen : (none : Option Nat) ≠ some output.position := (Option.some_ne_none _).symm
  rw [streamLoop, if_neg hopen, Prog.granted_bind, hoperation, ok_bind]
  simp only [Prog.granted_bind, Prog.granted_lift, hchecked]
  rfl

end Run

theorem lzmaDictionary_lt {properties : List UInt8} {property : UInt8} {dictionary : Nat}
    (h : lzmaDictionary properties = .ok (property, dictionary)) : dictionary < 2 ^ 32 := by
  match properties, h with
  | [_, a, b, c, d], h =>
    cases h
    have hlt := fromLeBytes_lt [a, b, c, d]
    rw [show [a, b, c, d].length = 4 from rfl] at hlt
    exact max_lt (by omega) (by decide)

section Whole

variable {properties stream bytes : List UInt8} {property : UInt8} {dictionary maximum : Nat}
  {packets : List Packet} {marked : Bool}
  (hproperty : lzmaDictionary properties = .ok (property, dictionary))
  (hvalid : ValidPackets dictionary ⟨0, 0, 0, 0⟩ [] packets)
  (hbytes : expandPackets ⟨0, 0, 0, 0⟩ [] packets = bytes)
  (hroom : bytes.length ≤ maximum) (hmaximum : maximum < 2 ^ 64)
  (hlength : stream.length < 2 ^ 64)
include hproperty hvalid hbytes hroom hmaximum hlength

theorem decodeWhole_encodeLzma (hstream : encodeLzma properties packets marked = .ok stream)
    {expected : Option Nat} (hexpected : ∀ size ∈ expected, size = bytes.length)
    (hends : expected = none → marked = true) {requireExactInput : Bool}
    (hexact : requireExactInput = true → marked = false) :
    (decodeWhole stream properties expected maximum requireExactInput).granted = .ok bytes := by
  unfold encodeLzma at hstream
  rw [hproperty, ok_bind] at hstream
  obtain ⟨⟨lc, lp, pb⟩, hparameters, hstream⟩ := bind_eq_ok.mp hstream
  obtain ⟨state, hnew, hstream⟩ := bind_eq_ok.mp hstream
  obtain ⟨hsound, hrepetitions⟩ := LzmaState.Sound.of_new hnew
  have hdictionary := lzmaDictionary_lt hproperty
  simp only [hrepetitions, hbytes] at hstream
  rw [← hrepetitions] at hvalid hbytes
  obtain ⟨hfair, hsound'⟩ := fair_encodePackets hdictionary hsound hvalid
  obtain ⟨⟨hfairEnd, -⟩, -⟩ :=
    @LzmaState.coded_encodeEnd lp _ ⟨bytes, maximum, dictionary, 0⟩ hsound'
  have hall : ∀ decision ∈ (encodePackets state [] packets).1 ++
      if marked then (LzmaState.encodeEnd (encodePackets state [] packets).2 bytes).1 else [],
      decision.Fair := by
    refine List.forall_mem_append.mpr ⟨hfair, ?_⟩
    cases marked with
    | false => exact fun _ hmem => absurd hmem List.not_mem_nil
    | true => exact hfairEnd
  obtain rfl := Except.ok.inj hstream
  have hcarries := RangeCoder.carries_decisions hall
  have hready := Interval.ready_after Interval.ready_start hfair
  have hwithin := Interval.within_after Interval.ready_start hall
  obtain ⟨range, hrange, hat⟩ := RangeDecoder.new_at hcarries hlength hwithin
  obtain ⟨rounds, hrounds⟩ : ∃ rounds, maxRounds = rounds + 1 + packets.length := by
    have hcount := length_expandPackets state.repetitions [] packets
    rw [hbytes, List.length_nil] at hcount
    exact ⟨maxRounds - 1 - packets.length, by unfold maxRounds; omega⟩
  obtain ⟨next, hloop, hnext⟩ := @streamLoop_packets _ _ _ _ range expected state
    ⟨[], maximum, dictionary, 0⟩ packets expected.isNone requireExactInput (rounds + 1) hcarries
    hsound hvalid rfl hdictionary (hbytes ▸ hroom) hmaximum
    (fun size hsize => by rw [hbytes, hexpected size hsize]) hat (by
      rw [Interval.after_append]
      exact Interval.within_after hready (List.forall_mem_append.mp hall).2)
  rw [hbytes] at hloop
  have hdeclared : expected.getD 0 ≤ maximum := by
    cases expected with
    | none => exact Nat.zero_le _
    | some size => exact hexpected size rfl ▸ hroom
  have htarget : (expected.mapM fun size => okOr (checkedAdd 0 size)
      (formatError "LZMA target size overflows")) = .ok expected := by
    cases expected with
    | none => rfl
    | some size =>
      have hsize := hexpected size rfl
      rw [Option.mapM_some, checkedAdd_of_lt (by omega), Nat.zero_add]
      rfl
  have houtput : Output.new maximum dictionary expected = .ok ⟨[], maximum, dictionary, 0⟩ := by
    rw [Output.new, checkLimit_of_le hdeclared]
    rfl
  simp only [decodeWhole, decodeStream, Output.position, List.length_nil, Prog.granted_bind,
    Prog.granted_lift, hproperty, hparameters, hnew, houtput, htarget, hrange, ok_bind,
    checkLimit_of_le hdeclared, hrounds, hloop]
  cases expected with
  | some size =>
    have hdone : some size = some (Output.mk bytes maximum dictionary 0).position :=
      congrArg some (hexpected size rfl)
    have hread : requireExactInput = true → next.cursor = next.input.length := by
      intro hrequire
      obtain rfl := hexact hrequire
      simp only [Bool.false_eq_true, if_false, List.append_nil] at hcarries hnext
      exact (RangeDecoder.at_end hcarries hnext).2
    rw [streamLoop_declared hdone hread]
    rfl
  | none =>
    obtain rfl := hends rfl
    rw [if_pos rfl, Interval.after_append] at hcarries
    have hmarked := @streamLoop_marked _ _ _ next _ ⟨bytes, maximum, dictionary, 0⟩
      (none : Option Nat).isNone requireExactInput rounds hsound' hcarries hnext rfl
    rw [hmarked]
    rfl

theorem decodeLzma_encodeLzma (hstream : encodeLzma properties packets marked = .ok stream)
    {expected : Option Nat} (hexpected : ∀ size ∈ expected, size = bytes.length)
    (hends : expected = none → marked = true) :
    (decodeLzma stream properties expected maximum).granted = .ok bytes :=
  decodeWhole_encodeLzma hproperty hvalid hbytes hroom hmaximum hlength hstream hexpected hends
    nofun

theorem decodeLzmaExact_encodeLzma (hstream : encodeLzma properties packets false = .ok stream) :
    (decodeLzmaExact stream properties bytes.length maximum).granted = .ok bytes :=
  decodeWhole_encodeLzma hproperty hvalid hbytes hroom hmaximum hlength hstream
    (fun _ hsize => (Option.mem_some.mp hsize).symm) nofun fun _ => rfl

end Whole

theorem decodeLzma_encodeLzma_sample :
    (decodeLzma [0, 48, 195, 237, 126, 233, 8, 7, 120, 63, 255, 239, 136, 96, 0] [0, 0, 1, 0, 0]
        none 100).granted = .ok [97, 97, 97, 97, 98, 98, 98, 98] :=
  decodeLzma_encodeLzma rfl validPackets_sample rfl (by decide) (by decide) (by decide)
    (show encodeLzma _ _ true = _ by decide +kernel) (fun _ h => absurd h (by simp)) fun _ => rfl

theorem decodeLzmaExact_encodeLzma_sample :
    (decodeLzmaExact [0, 48, 195, 237, 126, 232, 232, 0, 0, 0] [0, 0, 1, 0, 0] 8 100).granted =
      .ok [97, 97, 97, 97, 98, 98, 98, 98] :=
  @decodeLzmaExact_encodeLzma _ _ [97, 97, 97, 97, 98, 98, 98, 98] _ _ 100 _ rfl
    validPackets_sample rfl (by decide) (by decide) (by decide) (by decide +kernel)

end Lzma
end Unpackio
