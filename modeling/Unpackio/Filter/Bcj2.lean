/-
The four-stream x86 filter, `decode_bcj2` of `decode/filters.rs`.

A cursor is the bytes that are not read yet.
-/
import Unpackio.Filter.Words
import Unpackio.Foundation.Rewriting

namespace Unpackio
namespace Filter

def readByte : List UInt8 → Metered (UInt8 × List UInt8)
  | input => do
    checkpoint 1
    match input with
    | [] => throw (formatError "truncated BCJ2 input stream")
    | byte :: rest => return (byte, rest)

def readWordBe (input : List UInt8) : Metered (Nat × List UInt8) := do
  let (a, input) ← readByte input
  let (b, input) ← readByte input
  let (c, input) ← readByte input
  let (d, input) ← readByte input
  return (fromBeBytes [a, b, c, d], input)

structure Bcj2Range where
  input : List UInt8
  range : Nat
  code : Nat
  probabilities : List Nat

/-- `code.wrapping_shl(8) | byte`. -/
def codeWith (code : Nat) (byte : UInt8) : Nat := code <<< 8 % 2 ^ 32 ||| byte.toNat

namespace Bcj2Range

def fill : Nat → Nat → List UInt8 → Metered (Nat × List UInt8)
  | 0, code, input => return (code, input)
  | count + 1, code, input => do
    let (byte, input) ← readByte input
    fill count (codeWith code byte) input

def new (bytes : List UInt8) : Metered Bcj2Range := do
  let (code, input) ← fill 5 0 bytes
  return ⟨input, 2 ^ 32 - 1, code, List.replicate 258 (1 <<< 10)⟩

def select (range code probability bound : Nat) : Except Error (Bool × Nat × Nat × Nat) :=
  if code < bound then do
    let probability ← okOr (tryFrom 32 (probability + (2048 - probability) >>> 5))
      (formatError "BCJ2 probability overflows")
    return (false, bound, code, probability)
  else do
    let range ← okOr (checkedSub range bound) (formatError "BCJ2 range underflows")
    let code ← okOr (checkedSub code bound) (formatError "BCJ2 range code underflows")
    let probability ← okOr (checkedSub probability (probability >>> 5))
      (formatError "BCJ2 probability underflows")
    return (true, range, code, probability)

/-- Below `2 ^ 24` the range is made longer by a byte. -/
def shift (decoder : Bcj2Range) : Metered Bcj2Range :=
  if decoder.range < 1 <<< 24 then do
    let (byte, input) ← readByte decoder.input
    return { decoder with
      input, range := decoder.range <<< 8 % 2 ^ 32, code := codeWith decoder.code byte }
  else return decoder

def decode (decoder : Bcj2Range) (index : Nat) : Metered (Bool × Bcj2Range) := do
  let probability ← okOr decoder.probabilities[index]?
    (formatError "BCJ2 probability index is out of range")
  let bound ← okOr (tryFrom 32 (decoder.range >>> 11 * probability))
    (formatError "BCJ2 probability bound overflows")
  let (selected, range, code, probability) ← select decoder.range decoder.code probability bound
  let probabilities := decoder.probabilities.set index probability
  let decoder ← shift { decoder with range, code, probabilities }
  return (selected, decoder)

end Bcj2Range

def isBcj2Branch (previous current : UInt8) : Bool :=
  current &&& 0xfe = 0xe8 ∨ (previous = 0x0f ∧ current &&& 0xf0 = 0x80)

def bcj2ProbabilityIndex (previous current : UInt8) : Nat :=
  if current = 0xe8 then previous.toNat else if current = 0xe9 then 256 else 257

def reserveOutput (output : List UInt8) (additional maximum : Nat) : Except Error Unit := do
  let requested ← okOr (checkedAdd output.length additional)
    (formatError "BCJ2 output size overflows")
  checkLimit requested maximum .totalOutputBytes

structure Bcj2State where
  output : List UInt8
  main : List UInt8
  call : List UInt8
  jump : List UInt8
  range : Bcj2Range
  previous : UInt8
  written : Nat

/-- `!main.is_finished()`. -/
def Bcj2State.unfinished (state : Bcj2State) : Bool := state.main ≠ []

def readDestination (call jump : List UInt8) (byte : UInt8) :
    Metered (Nat × List UInt8 × List UInt8) :=
  if byte = 0xe8 then do
    let (encoded, call) ← readWordBe call
    return (encoded, call, jump)
  else do
    let (encoded, jump) ← readWordBe jump
    return (encoded, call, jump)

/-- One byte of the main stream, and the destination behind it if there is one. -/
def bcj2Round (maximum : Nat) (state : Bcj2State) : Metered Bcj2State := do
  let (byte, main) ← readByte state.main
  reserveOutput state.output 1 maximum
  let output := state.output ++ [byte]
  let written := wrappingAdd state.written 1
  if isBcj2Branch state.previous byte then do
    let (selected, range) ← state.range.decode (bcj2ProbabilityIndex state.previous byte)
    if selected then do
      let (encoded, call, jump) ← readDestination state.call state.jump byte
      let destination := wrappingSub encoded (wrappingAdd written 4)
      reserveOutput output 4 maximum
      return ⟨output ++ toLeBytes 4 destination, main, call, jump, range,
        UInt8.ofNat (destination >>> 24), wrappingAdd written 4⟩
    else return { state with output, main, range, previous := byte, written }
  else return { state with output, main, previous := byte, written }

/-- The streams are read until the main one ends.  Every round reads one byte of
it. -/
def bcj2Run (main call jump range : List UInt8) (maximum : Nat) : Metered Bcj2State := do
  let range ← Bcj2Range.new range
  Prog.whileLoop Bcj2State.unfinished (bcj2Round maximum) main.length
    ⟨[], main, call, jump, range, 0, 0⟩

def checkDeclared (length : Nat) : Option Nat → Except Error Unit
  | some expected => rejectIf (length ≠ expected)
      (formatError "BCJ2 output size does not match its declaration")
  | none => .ok ()

def decodeBcj2 (inputs : List (List UInt8)) (properties : List UInt8) (expected : Option Nat)
    (maximum : Nat) : Metered (List UInt8) := do
  rejectIf (properties ≠ []) (formatError "BCJ2 properties must be empty")
  let main ← okOr inputs[0]? (formatError "BCJ2 main stream is missing")
  let call ← okOr inputs[1]? (formatError "BCJ2 call stream is missing")
  let jump ← okOr inputs[2]? (formatError "BCJ2 jump stream is missing")
  let range ← okOr inputs[3]? (formatError "BCJ2 range stream is missing")
  rejectIf (inputs.length ≠ 4) (formatError "BCJ2 requires exactly four input streams")
  checkLimit (expected.getD 0) maximum .totalOutputBytes
  let last ← bcj2Run main call jump range maximum
  rejectIf (last.call ≠ [] ∨ last.jump ≠ [])
    (formatError "BCJ2 side streams were not consumed exactly")
  checkDeclared last.output.length expected
  return last.output

/-! ## What is read and written -/

theorem readByte_ok {input rest : List UInt8} {byte : UInt8}
    (h : (readByte input).granted = .ok (byte, rest)) : input = byte :: rest := by
  match input, h with
  | _ :: _, h =>
    cases h
    rfl

theorem readWordBe_ok {input rest : List UInt8} {word : Nat}
    (h : (readWordBe input).granted = .ok (word, rest)) : input.length = rest.length + 4 := by
  simp only [readWordBe, Prog.granted_bind_eq_ok, Prog.granted_pure_eq_ok] at h
  obtain ⟨⟨a, first⟩, ha, ⟨b, second⟩, hb, ⟨c, third⟩, hc, ⟨d, fourth⟩, hd, heq⟩ := h
  cases heq
  have hfirst : input.length = first.length + 1 := congrArg List.length (readByte_ok ha)
  have hsecond : first.length = second.length + 1 := congrArg List.length (readByte_ok hb)
  have hthird : second.length = third.length + 1 := congrArg List.length (readByte_ok hc)
  have hfourth : third.length = fourth.length + 1 := congrArg List.length (readByte_ok hd)
  show input.length = fourth.length + 4
  omega

theorem readDestination_ok {call call' jump jump' : List UInt8} {byte : UInt8} {encoded : Nat}
    (h : (readDestination call jump byte).granted = .ok (encoded, call', jump')) :
    call'.length + jump'.length + 4 = call.length + jump.length := by
  rw [readDestination] at h
  by_cases hcalled : byte = 0xe8
  · rw [if_pos hcalled] at h
    obtain ⟨⟨_, _⟩, hword, h⟩ := Prog.granted_bind_eq_ok.mp h
    cases h
    have hcount := readWordBe_ok hword
    omega
  · rw [if_neg hcalled] at h
    obtain ⟨⟨_, _⟩, hword, h⟩ := Prog.granted_bind_eq_ok.mp h
    cases h
    have hcount := readWordBe_ok hword
    omega

/-- All bytes that are written or not read yet. -/
def Bcj2State.total (state : Bcj2State) : Nat :=
  state.output.length + (state.main.length + (state.call.length + state.jump.length))

theorem bcj2Round_total {maximum : Nat} {state state' : Bcj2State}
    (h : (bcj2Round maximum state).granted = .ok state') :
    state.main.length = state'.main.length + 1 ∧ state'.total = state.total := by
  rw [bcj2Round, Prog.granted_bind_eq_ok] at h
  obtain ⟨⟨byte, main⟩, hread, h⟩ := h
  obtain ⟨-, -, h⟩ := Prog.granted_bind_eq_ok.mp h
  have hmain : state.main.length = main.length + 1 := congrArg List.length (readByte_ok hread)
  have hbyte : (state.output ++ [byte]).length = state.output.length + 1 := List.length_append
  by_cases hbranch : isBcj2Branch state.previous byte = true
  · rw [if_pos hbranch] at h
    obtain ⟨⟨selected, range⟩, -, h⟩ := Prog.granted_bind_eq_ok.mp h
    cases selected with
    | false =>
      cases h
      exact ⟨hmain, by simp only [Bcj2State.total, hbyte, hmain]; omega⟩
    | true =>
      obtain ⟨⟨encoded, call, jump⟩, hword, h⟩ := Prog.granted_bind_eq_ok.mp h
      obtain ⟨-, -, h⟩ := Prog.granted_bind_eq_ok.mp h
      cases h
      have hcounts := readDestination_ok hword
      refine ⟨hmain, ?_⟩
      simp only [Bcj2State.total, List.length_append, length_toLeBytes, List.length_singleton]
      omega
  · rw [if_neg hbranch] at h
    cases h
    exact ⟨hmain, by simp only [Bcj2State.total, hbyte, hmain]; omega⟩

theorem bcj2Run_total {main call jump range : List UInt8} {maximum : Nat} {last : Bcj2State}
    (h : (bcj2Run main call jump range maximum).granted = .ok last) :
    last.main = [] ∧ last.total = main.length + (call.length + jump.length) := by
  obtain ⟨decoder, -, h⟩ := Prog.granted_bind_eq_ok.mp h
  have hzero : ∀ state : Bcj2State, state.main.length = 0 → state.unfinished = false := by
    intro state h
    rw [Bcj2State.unfinished, List.length_eq_zero_iff.mp h]
    rfl
  have hround : ∀ state state' : Bcj2State, state.unfinished = true →
      state.total = main.length + (call.length + jump.length) →
      (bcj2Round maximum state).granted = .ok state' →
        state'.main.length < state.main.length ∧
          state'.total = main.length + (call.length + jump.length) := by
    intro state state' _ htotal hround
    obtain ⟨hmain, hkept⟩ := bcj2Round_total hround
    exact ⟨by omega, hkept.trans htotal⟩
  obtain ⟨hmain, htotal⟩ := @Prog.whileLoop_keeps _ _ _ _ _ (fun state : Bcj2State =>
    state.main.length) _ hzero hround _ ⟨[], main, call, jump, decoder, 0, 0⟩ last
    (Nat.le_refl _) (Nat.zero_add _) h
  exact ⟨Decidable.of_not_not (of_decide_eq_false hmain), htotal⟩

theorem decodeBcj2_ok {main call jump range properties output : List UInt8}
    {expected : Option Nat} {maximum : Nat}
    (h : (decodeBcj2 [main, call, jump, range] properties expected maximum).granted = .ok output) :
    ∃ last, (bcj2Run main call jump range maximum).granted = .ok last ∧ last.output = output ∧
      last.main = [] ∧ last.call = [] ∧ last.jump = [] ∧
        output.length = main.length + call.length + jump.length := by
  rw [decodeBcj2] at h
  simp only [Prog.granted_bind_eq_ok, Prog.granted_lift_eq_ok, Prog.granted_pure_eq_ok,
    List.getElem?_cons_zero, List.getElem?_cons_succ, okOr_eq_ok, Option.some.injEq,
    rejectIf_eq_ok] at h
  obtain ⟨-, -, _, rfl, _, rfl, _, rfl, _, rfl, -, -, -, -, last, hrun, -, hsides, -, -, rfl⟩ := h
  obtain ⟨hmain, htotal⟩ := bcj2Run_total hrun
  obtain ⟨hcall, hjump⟩ := not_or.mp hsides
  replace hcall := Decidable.of_not_not hcall
  replace hjump := Decidable.of_not_not hjump
  refine ⟨last, hrun, rfl, hmain, hcall, hjump, ?_⟩
  rw [Bcj2State.total, hmain, hcall, hjump] at htotal
  simp only [List.length_nil] at htotal
  omega

theorem strict_readByte (input : List UInt8) : (readByte input).Strict := by
  refine .bind (.request 1) fun _ => ?_
  match input with
  | [] => exact .throw _
  | _ :: _ => exact .pure _

theorem strict_readWordBe (input : List UInt8) : (readWordBe input).Strict :=
  .bind (strict_readByte _) fun _ => .bind (strict_readByte _) fun _ =>
    .bind (strict_readByte _) fun _ => .bind (strict_readByte _) fun _ => .pure _

theorem strict_fill (count code : Nat) (input : List UInt8) :
    (Bcj2Range.fill count code input).Strict := by
  induction count generalizing code input with
  | zero => exact .pure _
  | succ count ih => exact .bind (strict_readByte _) fun _ => ih _ _

theorem strict_decode (decoder : Bcj2Range) (index : Nat) : (decoder.decode index).Strict := by
  have hshift : ∀ decoder : Bcj2Range, decoder.shift.Strict := fun _ =>
    .ite (.bind (strict_readByte _) fun _ => .pure _) (.pure _)
  exact .step fun _ => .step fun _ => .step fun _ => .bind (hshift _) fun _ => .pure _

theorem strict_bcj2Round (maximum : Nat) (state : Bcj2State) :
    (bcj2Round maximum state).Strict := by
  have hdestination : ∀ call jump byte, (readDestination call jump byte).Strict :=
    fun _ _ _ => .ite (.bind (strict_readWordBe _) fun _ => .pure _)
      (.bind (strict_readWordBe _) fun _ => .pure _)
  exact .bind (strict_readByte _) fun _ => .step fun _ => .ite (.bind (strict_decode _ _) fun _ =>
    .ite (.bind (hdestination _ _ _) fun _ => .step fun _ => .pure _) (.pure _)) (.pure _)

theorem strict_decodeBcj2 (inputs : List (List UInt8)) (properties : List UInt8)
    (expected : Option Nat) (maximum : Nat) :
    (decodeBcj2 inputs properties expected maximum).Strict := by
  have hrun : ∀ main call jump range, (bcj2Run main call jump range maximum).Strict :=
    fun _ _ _ _ => .bind (.bind (strict_fill _ _ _) fun _ => .pure _) fun _ =>
      Prog.strict_whileLoop (strict_bcj2Round maximum) _ _
  exact .step fun _ => .step fun _ => .step fun _ => .step fun _ => .step fun _ => .step fun _ =>
      .step fun _ => .bind (hrun _ _ _ _) fun _ => .step fun _ => .step fun _ => .pure _

end Filter
end Unpackio
