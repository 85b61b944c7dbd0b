/-
The bit reader of Deflate64, from `decode/deflate64.rs`.

The input of a `BitReader` is a part of its state.
-/
import Unpackio.ParseUtil
import Unpackio.Foundation.Cursor
import Unpackio.Foundation.BitPack
import Unpackio.Foundation.Keeps

namespace Unpackio
namespace Deflate64

open Except (ok_bind)
open BitPack Cursor

structure BitReader where
  input : List UInt8
  position : Nat
  buffer : Nat
  bufferedBits : Nat
  deriving DecidableEq, Repr

namespace BitReader

abbrev Reading (α : Type) : Type := StateT BitReader Metered α

def new (input : List UInt8) : BitReader := ⟨input, 0, 0, 0⟩

def readByte : Reading UInt8 := do
  checkpoint 1
  let reader ← get
  let byte ← okOr reader.input[reader.position]? (formatError "truncated Deflate64 bitstream")
  let position ← okOr (checkedAdd reader.position 1)
    (formatError "Deflate64 input position overflows")
  set { reader with position := position }
  return byte

/-- The loop of `read_bits`.  Every round adds eight bits, so `count` rounds are enough. -/
def fillLoop (count : Nat) : Nat → Reading Unit
  | 0 => return ()
  | fuel + 1 => do
    let reader ← get
    if reader.bufferedBits < count then do
      let byte ← readByte
      let reader ← get
      let shifted ← okOr (if reader.bufferedBits < 64 then
          some ((byte.toNat <<< reader.bufferedBits) % 2 ^ 64) else none)
        (formatError "Deflate64 bit buffer shift overflows")
      let bufferedBits ← okOr (tryFrom 32 (reader.bufferedBits + 8))
        (formatError "Deflate64 buffered-bit count overflows")
      set { reader with buffer := reader.buffer ||| shifted, bufferedBits := bufferedBits }
      fillLoop count fuel
    else return ()

def readBits (count : Nat) : Reading Nat := do
  rejectIf (24 < count) (formatError "Deflate64 bit request is too large")
  fillLoop count count
  let reader ← get
  let mask ← (if count = 0 then .ok 0 else
    okOr (checkedSub (1 <<< count) 1) (formatError "Deflate64 bit mask overflows") :
    Except Error Nat)
  let value ← okOr (tryFrom 32 (reader.buffer &&& mask))
    (formatError "Deflate64 bit value is not representable")
  let bufferedBits ← okOr (checkedSub reader.bufferedBits count)
    (formatError "Deflate64 buffered-bit count underflows")
  set { reader with buffer := reader.buffer >>> count, bufferedBits := bufferedBits }
  return value

def alignToByte (reader : BitReader) : BitReader :=
  { reader with buffer := 0, bufferedBits := 0 }

def hasTrailingBytes (reader : BitReader) : Bool := reader.position ≠ reader.input.length

/-! ## Places -/

/-- The reader behind `start` bits that holds the bits up to a byte. -/
def holding (input : List UInt8) (start position : Nat) : BitReader :=
  ⟨input, position, ofBits (((bytesToBits input).take (8 * position)).drop start),
    8 * position - start⟩

def medium : Medium BitReader Error where
  place input start := holding input start ((start + 7) / 8)
  bits := bytesToBits
  cut := formatError "truncated Deflate64 bitstream"
  bound := 2 ^ 64

theorem new_place (input : List UInt8) : new input = medium.place input 0 := rfl

theorem alignToByte_place (input : List UInt8) (start : Nat) :
    alignToByte (medium.place input start) = medium.place input (8 * ((start + 7) / 8)) := by
  have hposition : (8 * ((start + 7) / 8) + 7) / 8 = (start + 7) / 8 := by omega
  have hnone : ((bytesToBits input).take (8 * ((start + 7) / 8))).drop (8 * ((start + 7) / 8)) =
      [] := List.drop_of_length_le (List.length_take_le _ _)
  rw [show medium.place input (8 * ((start + 7) / 8)) =
    holding input (8 * ((start + 7) / 8)) ((8 * ((start + 7) / 8) + 7) / 8) from rfl, hposition,
    holding, hnone, Nat.sub_self]
  rfl

variable {input : List UInt8} {start position : Nat}

theorem holding_length (hposition : position ≤ input.length) :
    (((bytesToBits input).take (8 * position)).drop start).length = 8 * position - start := by
  rw [List.length_drop, List.length_take, length_bytesToBits]
  omega

theorem holding_succ (hstart : start ≤ 8 * position) (hinside : position < input.length) :
    ofBits (((bytesToBits input).take (8 * position)).drop start) |||
        (input.get ⟨position, hinside⟩).toNat <<< (8 * position - start) =
      ofBits (((bytesToBits input).take (8 * (position + 1))).drop start) := by
  have htake : (bytesToBits input).take (8 * (position + 1)) =
      (bytesToBits input).take (8 * position) ++
        bitsOf 8 (input.get ⟨position, hinside⟩).toNat := by
    rw [← bytesToBits_take, ← bytesToBits_take, List.take_add_one,
      List.getElem?_eq_getElem hinside, bytesToBits_append]
    simp
  have hlength : start ≤ ((bytesToBits input).take (8 * position)).length := by
    rw [List.length_take, length_bytesToBits]
    omega
  have hbyte : ofBits (bitsOf 8 (input.get ⟨position, hinside⟩).toNat) =
      (input.get ⟨position, hinside⟩).toNat := by
    rw [ofBits_bitsOf]
    exact Nat.mod_eq_of_lt (input.get ⟨position, hinside⟩).toNat_lt
  have hlt := ofBits_lt (((bytesToBits input).take (8 * position)).drop start)
  rw [holding_length hinside.le] at hlt
  rw [htake, List.drop_append_of_le_length hlength, ofBits_append, hbyte,
    holding_length hinside.le, Nat.lor_comm, ← Nat.shiftLeft_add_eq_or_of_lt hlt,
    Nat.shiftLeft_eq, Nat.mul_comm, Nat.add_comm]

theorem byte_shiftLeft_mod (byte : UInt8) {shift : Nat} (h : shift < 24) :
    (byte.toNat <<< shift) % 2 ^ 64 = byte.toNat <<< shift := by
  have hbyte : byte.toNat < 2 ^ 8 := byte.toNat_lt
  have hshift : 2 ^ shift ≤ 2 ^ 24 := Nat.pow_le_pow_right (by decide) h.le
  refine Nat.mod_eq_of_lt ?_
  rw [Nat.shiftLeft_eq]
  exact (Nat.mul_lt_mul_of_lt_of_le hbyte hshift (by decide)).trans (by decide)

theorem readByte_holding (hinput : input.length < 2 ^ 64) (hinside : position < input.length)
    (buffer bits : Nat) :
    (readByte ⟨input, position, buffer, bits⟩).granted =
      .ok (input.get ⟨position, hinside⟩, ⟨input, position + 1, buffer, bits⟩) := by
  have hnext : position + 1 < 2 ^ 64 := by omega
  simp only [readByte, granted_bind, granted_lift, checkpoint_granted, ok_bind,
    granted_get, granted_except, List.getElem?_eq_getElem hinside, okOr_some,
    checkedAdd_of_lt hnext, granted_set, granted_pure]
  rfl

theorem fillLoop_holding (hinput : input.length < 2 ^ 64) {count : Nat} (hcount : count ≤ 24)
    {fuel : Nat} (hstart : start ≤ 8 * position) (hposition : position ≤ input.length)
    (hfuel : start + count ≤ 8 * position + 8 * fuel) :
    (fillLoop count fuel (holding input start position)).granted =
      if start + count ≤ 8 * input.length then
        .ok ((), holding input start (max position ((start + count + 7) / 8)))
      else .error medium.cut := by
  induction fuel generalizing position with
  | zero =>
    rw [if_pos (by omega), Nat.max_eq_left (by omega)]
    rfl
  | succ fuel ih =>
    rw [fillLoop, granted_bind, granted_get, ok_bind]
    by_cases hmore : 8 * position - start < count
    · rw [if_pos (show (holding input start position).bufferedBits < count from hmore),
        granted_bind]
      by_cases hinside : position < input.length
      · have hrest := ih (show start ≤ 8 * (position + 1) by omega) hinside (by omega)
        have hmax : max (position + 1) ((start + count + 7) / 8) =
            max position ((start + count + 7) / 8) := by omega
        have hshift : 8 * position - start < 64 := by omega
        have hcarry : 8 * position - start + 8 < 2 ^ 32 := by omega
        have hbits : 8 * (position + 1) - start = 8 * position - start + 8 := by omega
        rw [hmax, holding, ← holding_succ hstart hinside, hbits] at hrest
        rw [holding, readByte_holding hinput hinside]
        simp only [ok_bind, granted_bind, granted_get, granted_except, granted_set,
          if_pos hshift, okOr_some, tryFrom_of_lt hcarry,
          byte_shiftLeft_mod (input.get ⟨position, hinside⟩) (hmore.trans_le hcount)]
        exact hrest
      · have hlast : input[position]? = none := List.getElem?_eq_none (Nat.le_of_not_lt hinside)
        rw [if_neg (by omega)]
        simp only [holding, readByte, granted_bind, granted_lift, checkpoint_granted,
          ok_bind, granted_get, granted_except, hlast, okOr_none]
        rfl
    · rw [if_neg (show ¬(holding input start position).bufferedBits < count from hmore),
        granted_pure, if_pos (by omega), Nat.max_eq_left (by omega)]

theorem holding_value (input : List UInt8) (start count : Nat) :
    (holding input start ((start + count + 7) / 8)).buffer &&& (2 ^ count - 1) =
      ofBits (((bytesToBits input).drop start).take count) := by
  have hcount : count ≤ 8 * ((start + count + 7) / 8) - start := by omega
  rw [Nat.and_two_pow_sub_one_eq_mod, holding, ← ofBits_take, List.drop_take, List.take_take,
    Nat.min_eq_left hcount]

theorem holding_rest (input : List UInt8) (start count position : Nat) :
    (holding input start position).buffer >>> count =
      (holding input (start + count) position).buffer := by
  rw [holding, ← ofBits_drop, List.drop_drop]
  rfl

/-- A request is for the next bits, and it fails exactly where they are missing. -/
theorem readBits_place (hinput : input.length < 2 ^ 64) {count : Nat}
    (hstart : start ≤ 8 * input.length) (hcount : count ≤ 24) :
    (readBits count (medium.place input start)).granted =
      if start + count ≤ 8 * input.length then
        .ok (ofBits (((bytesToBits input).drop start).take count),
          medium.place input (start + count))
      else .error medium.cut := by
  have hfill := fillLoop_holding hinput hcount (show start ≤ 8 * ((start + 7) / 8) by omega)
    (by omega) (show start + count ≤ 8 * ((start + 7) / 8) + 8 * count by omega)
  have hmax : max ((start + 7) / 8) ((start + count + 7) / 8) = (start + count + 7) / 8 := by
    omega
  rw [hmax] at hfill
  rw [readBits, granted_bind, granted_except, rejectIf_of_not (by omega), ok_bind,
    ok_bind, granted_bind,
    show medium.place input start = holding input start ((start + 7) / 8) from rfl, hfill]
  by_cases hinside : start + count ≤ 8 * input.length
  · have hlt : ofBits (((bytesToBits input).drop start).take count) < 2 ^ 32 :=
      (ofBits_lt _).trans_le (Nat.pow_le_pow_right (by decide)
        ((List.length_take_le _ _).trans (by omega)))
    have hmask : (if count = 0 then .ok 0 else okOr (checkedSub (1 <<< count) 1)
        (formatError "Deflate64 bit mask overflows") : Except Error Nat) = .ok (2 ^ count - 1) := by
      by_cases hzero : count = 0
      · rw [if_pos hzero, hzero]
        rfl
      · rw [if_neg hzero, Nat.one_shiftLeft, checkedSub_of_le (Nat.two_pow_pos count), okOr_some]
    have hbits : count ≤ (holding input start ((start + count + 7) / 8)).bufferedBits := by
      show count ≤ 8 * ((start + count + 7) / 8) - start
      omega
    rw [if_pos hinside, if_pos hinside]
    simp only [ok_bind, granted_bind, granted_get, granted_except, hmask,
      holding_value, tryFrom_of_lt hlt, okOr_some, holding_rest, checkedSub_of_le hbits,
      granted_set, granted_pure]
    rw [holding, Nat.sub_sub]
    rfl
  · rw [if_neg hinside, if_neg hinside]
    rfl

/-! ## Runs -/

/-- A call of the reader. -/
inductive Request where
  | bits (count : Nat)
  | align
  deriving DecidableEq, Repr

namespace Request

/-- The requests that `read_bits` does not refuse. -/
def Small : Request → Prop
  | bits count => count ≤ 24
  | align => True

def serve : Request → Reading (List Nat)
  | bits count => do return [← readBits count]
  | align => do
    modify alignToByte
    return []

def serveAll : List Request → Reading (List Nat)
  | [] => return []
  | request :: requests => do
    let values ← request.serve
    let rest ← serveAll requests
    return values ++ rest

/-- The bits that are behind after a request, if `start` are behind before it. -/
def next (start : Nat) : Request → Nat
  | bits count => start + count
  | align => 8 * ((start + 7) / 8)

def slice (input : List UInt8) (start : Nat) : Request → List Nat
  | bits count => [ofBits (((bytesToBits input).drop start).take count)]
  | align => []

def offset (start : Nat) (requests : List Request) : Nat := requests.foldl next start

def slices (input : List UInt8) (start : Nat) : List Request → List Nat
  | [] => []
  | request :: requests => request.slice input start ++ slices input (request.next start) requests

theorem le_next (start : Nat) (request : Request) : start ≤ request.next start := by
  cases request with
  | bits count => exact Nat.le_add_right start count
  | align =>
    show start ≤ 8 * ((start + 7) / 8)
    omega

theorem le_offset (start : Nat) (requests : List Request) : start ≤ offset start requests := by
  induction requests generalizing start with
  | nil => exact Nat.le_refl start
  | cons request requests ih => exact (le_next start request).trans (ih _)

theorem serve_place (hinput : input.length < 2 ^ 64) (hstart : start ≤ 8 * input.length)
    {request : Request} (hsmall : request.Small) :
    (request.serve (medium.place input start)).granted =
      if request.next start ≤ 8 * input.length then
        .ok (request.slice input start, medium.place input (request.next start))
      else .error medium.cut := by
  cases request with
  | bits count =>
    rw [serve, granted_bind, readBits_place hinput hstart hsmall]
    by_cases hinside : start + count ≤ 8 * input.length
    · rw [if_pos hinside, if_pos (show next start (bits count) ≤ 8 * input.length from hinside)]
      rfl
    · rw [if_neg hinside, if_neg (show ¬next start (bits count) ≤ 8 * input.length from hinside)]
      rfl
  | align =>
    have hnext : next start align ≤ 8 * input.length := by
      show 8 * ((start + 7) / 8) ≤ 8 * input.length
      omega
    rw [if_pos hnext]
    show Except.ok ([], alignToByte (medium.place input start)) = _
    rw [alignToByte_place]
    rfl

/-- The requests follow the bits of the input, and fail exactly where these end. -/
theorem serveAll_place (hinput : input.length < 2 ^ 64) (hstart : start ≤ 8 * input.length)
    {requests : List Request} (hsmall : ∀ request ∈ requests, request.Small) :
    (serveAll requests (medium.place input start)).granted =
      if offset start requests ≤ 8 * input.length then
        .ok (slices input start requests, medium.place input (offset start requests))
      else .error medium.cut := by
  induction requests generalizing start with
  | nil =>
    rw [if_pos (show offset start [] ≤ 8 * input.length from hstart)]
    rfl
  | cons request requests ih =>
    have hrest : offset start (request :: requests) = offset (request.next start) requests := rfl
    rw [serveAll, granted_bind, serve_place hinput hstart (hsmall request List.mem_cons_self),
      hrest]
    by_cases hinside : request.next start ≤ 8 * input.length
    · rw [if_pos hinside, ok_bind, granted_bind,
        ih hinside fun other hother => hsmall other (List.mem_cons_of_mem _ hother)]
      by_cases hend : offset (request.next start) requests ≤ 8 * input.length
      · rw [if_pos hend, if_pos hend]
        rfl
      · rw [if_neg hend, if_neg hend]
        rfl
    · have hend := le_offset (request.next start) requests
      rw [if_neg hinside, if_neg (by omega)]
      rfl

end Request

/-- A reader that passes refusals on, whatever its state. -/
def Passing {α : Type} (p : Reading α) : Prop :=
  Prog.Keeps (fun _ => True) (fun _ => True) (fun _ => True) p

namespace Passing

variable {α β : Type} {p : Reading α} {f : α → Reading β}

theorem pure (a : α) : Passing (Pure.pure a : Reading α) := Prog.Keeps.pure trivial

theorem bind (hp : Passing p) (hf : ∀ a, Passing (f a)) : Passing (p >>= f) :=
  Prog.Keeps.bind hp fun a _ => hf a

theorem lift (r : Except Error α) : Passing (liftM r : Reading α) :=
  Prog.Keeps.lift (fun _ _ => trivial) fun _ _ => trivial

theorem get : Passing (MonadState.get : Reading BitReader) :=
  fun _ _ => .pure ⟨trivial, trivial⟩

theorem set (reader : BitReader) : Passing (MonadStateOf.set reader : Reading PUnit) :=
  fun _ _ => .pure ⟨trivial, trivial⟩

theorem readByte : Passing readByte := by
  refine .bind (fun _ _ => .request (.pure ⟨trivial, trivial⟩)) fun _ => ?_
  refine .bind .get fun _ => .bind (.lift _) fun _ => .bind (.lift _) fun _ => ?_
  exact .bind (.set _) fun _ => .pure _

theorem fillLoop (count fuel : Nat) : Passing (fillLoop count fuel) := by
  induction fuel with
  | zero => exact .pure ()
  | succ fuel ih =>
    refine .bind .get fun reader => Prog.Keeps.ite (fun _ => ?_) fun _ => Passing.pure ()
    show Passing _
    refine .bind .readByte fun _ => .bind .get fun _ => .bind (.lift _) fun _ => ?_
    exact .bind (.lift _) fun _ => .bind (.set _) fun _ => ih

theorem readBits (count : Nat) : Passing (readBits count) := by
  refine .bind (.lift _) fun _ => .bind (.fillLoop count count) fun _ => .bind .get fun _ => ?_
  refine .bind (.lift _) fun _ => .bind (.lift _) fun _ => .bind (.lift _) fun _ => ?_
  exact .bind (.set _) fun _ => .pure _

theorem serve (request : Request) : Passing request.serve := by
  cases request with
  | bits count => exact .bind (.readBits count) fun _ => .pure _
  | align => exact fun _ _ => .pure ⟨trivial, trivial⟩

theorem serveAll (requests : List Request) : Passing (Request.serveAll requests) := by
  induction requests with
  | nil => exact .pure []
  | cons request requests ih =>
    exact .bind (.serve request) fun _ => .bind ih fun _ => .pure _

end Passing

/-- What a reader holds behind `start` bits of its input: the rest of the byte that it
has begun, and no whole one. -/
structure At (input : List UInt8) (start : Nat) (reader : BitReader) : Prop where
  input_eq : reader.input = input
  bufferedBits_lt : reader.bufferedBits < 8
  position_eq : 8 * reader.position = start + reader.bufferedBits
  buffer_eq : reader.buffer =
    ofBits (((bytesToBits input).drop start).take reader.bufferedBits)
  trailing_iff : reader.hasTrailingBytes = true ↔ ∃ index < input.length, start ≤ 8 * index

theorem at_place (hstart : start ≤ 8 * input.length) :
    At input start (medium.place input start) where
  input_eq := rfl
  bufferedBits_lt := by
    show 8 * ((start + 7) / 8) - start < 8
    omega
  position_eq := by
    show 8 * ((start + 7) / 8) = start + (8 * ((start + 7) / 8) - start)
    omega
  buffer_eq := congrArg ofBits List.drop_take
  trailing_iff := by
    have htrailing : (medium.place input start).hasTrailingBytes = true ↔
        (start + 7) / 8 ≠ input.length := decide_eq_true_iff
    rw [htrailing]
    constructor
    · intro hmore
      exact ⟨(start + 7) / 8, by omega, by omega⟩
    · rintro ⟨index, hindex, hbehind⟩
      omega

/-- Whatever the requests, they return exactly if the input has the bits that they need, and
then the slices of its bits and a reader behind the last of them; without a refusal, the one
error is that of an input that ends. -/
theorem serveAll_faithful (input : List UInt8) (requests : List Request)
    (hinput : input.length < 2 ^ 64) (hsmall : ∀ request ∈ requests, request.Small) :
    Prog.FailsWith (fun e => e = formatError "truncated Deflate64 bitstream")
        (Request.serveAll requests (new input)) ∧
      (∀ values reader, (Request.serveAll requests (new input)).CanReturn (values, reader) →
        Request.offset 0 requests ≤ 8 * input.length ∧
          values = Request.slices input 0 requests ∧
          At input (Request.offset 0 requests) reader) ∧
      (Request.offset 0 requests ≤ 8 * input.length →
        ∃ reader, (Request.serveAll requests (new input)).CanReturn
          (Request.slices input 0 requests, reader)) := by
  have hpasses := (Passing.serveAll requests (new input) trivial).passes
  have hrun := Request.serveAll_place hinput (Nat.zero_le _) hsmall
  rw [← new_place] at hrun
  by_cases hinside : Request.offset 0 requests ≤ 8 * input.length
  · rw [if_pos hinside] at hrun
    refine ⟨hpasses.failsWith fun e he => ?_, fun values reader h => ?_, fun _ => ?_⟩
    · rw [hrun] at he
      cases he
    · have hgranted := hpasses.granted_of_canReturn h
      rw [hrun] at hgranted
      cases hgranted
      exact ⟨hinside, rfl, at_place hinside⟩
    · exact ⟨_, .of_granted hrun⟩
  · rw [if_neg hinside] at hrun
    refine ⟨hpasses.failsWith fun e he => ?_, fun values reader h => ?_, fun h => ?_⟩
    · rw [hrun] at he
      exact (Except.error.inj he).symm
    · have hgranted := hpasses.granted_of_canReturn h
      rw [hrun] at hgranted
      cases hgranted
    · exact absurd h hinside

/-- Three bits, the rest of their byte, and twelve bits of the three bytes behind it. -/
theorem serveAll_faithful_three :
    ∃ reader, (Request.serveAll [.bits 3, .align, .bits 12]
      (new [0xd5, 0x34, 0x12, 0xff])).CanReturn ([5, 0x234], reader) :=
  (serveAll_faithful [0xd5, 0x34, 0x12, 0xff] [.bits 3, .align, .bits 12] (by decide)
    (by simp [Request.Small])).2.2 (by decide)

end BitReader

end Deflate64
end Unpackio
