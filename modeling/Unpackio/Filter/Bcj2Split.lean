/-
The split that the four-stream x86 filter undoes, and its range decoder, which reads
what a range encoder wrote.

A branch is an opcode, or the second byte of a conditional jump.  One with four
bytes behind it may be converted: its destination goes, absolute and with the
first byte weighing most, to the calls or to the jumps.  A bit says of every
branch whether it was.
-/
import Unpackio.Foundation.RangeEncoder
import Unpackio.Filter.Bcj2

namespace Unpackio
namespace Filter

open RangeCoder (Carries Fair Interval Known Model Stands messageInterval)

theorem codeWith_eq {code : Nat} (hcode : code < 2 ^ 24) (byte : UInt8) :
    codeWith code byte = 256 * code + byte.toNat := by
  have hmod : code <<< 8 % 2 ^ 32 = code <<< 8 := by
    rw [Nat.shiftLeft_eq]
    exact Nat.mod_eq_of_lt (by omega)
  rw [codeWith, hmod, ← Nat.shiftLeft_add_eq_or_of_lt byte.toNat_lt, Nat.shiftLeft_eq]
  omega

theorem codeWith_mod (code : Nat) (byte : UInt8) :
    codeWith (code % 2 ^ 32) byte = (code * 256 + byte.toNat) % 2 ^ 32 := by
  have hlow : (code % 2 ^ 32) <<< 8 % 2 ^ 32 = (code % 2 ^ 24) <<< 8 := by
    rw [Nat.shiftLeft_eq, Nat.shiftLeft_eq]
    omega
  rw [codeWith, hlow, ← Nat.shiftLeft_add_eq_or_of_lt byte.toNat_lt, Nat.shiftLeft_eq]
  have hbyte := byte.toNat_lt
  omega

theorem readByte_cons (byte : UInt8) (rest : List UInt8) :
    (readByte (byte :: rest)).granted = .ok (byte, rest) := rfl

/-- The code is made of the first bytes, modulo `2 ^ 32`. -/
theorem fill_granted (read rest front : List UInt8) :
    (Bcj2Range.fill read.length (RangeCoder.number front % 2 ^ 32) (read ++ rest)).granted =
      .ok (RangeCoder.number (front ++ read) % 2 ^ 32, rest) := by
  induction read generalizing front with
  | nil =>
    rw [List.append_nil]
    rfl
  | cons byte read ih =>
    rw [List.length_cons, Bcj2Range.fill, List.cons_append, Prog.granted_bind, readByte_cons,
      Except.ok_bind]
    show (Bcj2Range.fill read.length (codeWith _ byte) (read ++ rest)).granted = _
    rw [codeWith_mod, ← RangeCoder.number_concat, ih, List.append_assoc]
    rfl

/-- A decoder stands in front of the bits that narrow the interval. -/
structure DecoderStands (stream : List UInt8) (interval : Interval) (model : Model)
    (decoder : Bcj2Range) : Prop where
  stands : Stands stream interval decoder.code decoder.range decoder.input
  ready : interval.Ready
  fair : model.Fair
  probabilities_eq : decoder.probabilities = model

def bcj2Model : Model := List.replicate 258 (1 <<< 10)

theorem fair_bcj2Model : bcj2Model.Fair := by
  intro probability hmem
  rw [List.eq_of_mem_replicate hmem]
  constructor <;> decide

section Decode

variable {stream : List UInt8} {final : Interval} (hcarries : Carries stream final)
include hcarries

theorem bcj2Range_new (hwithin : final.Within .start) :
    ∃ decoder, (Bcj2Range.new stream).granted = .ok decoder ∧
      DecoderStands stream .start bcj2Model decoder := by
  obtain ⟨read, rest, hsplit, hlength, hstands⟩ := RangeCoder.stands_start hcarries
  have hcode := hstands.code_lt hcarries hwithin
  have hfill := fill_granted read rest []
  rw [hlength, List.nil_append, Nat.mod_eq_of_lt (Nat.lt_of_lt_of_le hcode (by decide))] at hfill
  refine ⟨⟨rest, 2 ^ 32 - 1, RangeCoder.number read, bcj2Model⟩, ?_, hstands,
    Interval.ready_start, fair_bcj2Model, rfl⟩
  rw [Bcj2Range.new, hsplit, Prog.granted_bind]
  exact congrArg (· >>= _) hfill

omit hcarries in
theorem select_eq {range code probability bound : Nat} {bit : Bool} (hfair : Fair probability)
    (hbound : bound ≤ range) (hbit : code < bound ↔ bit = false) :
    Bcj2Range.select range code probability bound =
      .ok (bit, if bit then range - bound else bound, if bit then code - bound else code,
        RangeCoder.adapt probability bit) := by
  obtain ⟨hleast, hmost⟩ := hfair
  rw [Bcj2Range.select, Nat.shiftRight_eq_div_pow, Nat.shiftRight_eq_div_pow]
  cases bit with
  | false =>
    have hadapt : probability + (2048 - probability) / 2 ^ 5 < 2 ^ 32 := by omega
    rw [if_pos (hbit.mpr rfl), tryFrom_of_lt hadapt]
    rfl
  | true =>
    have hcode : ¬code < bound := fun h => Bool.noConfusion (hbit.mp h)
    have hpart : probability / 2 ^ 5 ≤ probability := Nat.div_le_self _ _
    rw [if_neg hcode, checkedSub_of_le hbound, okOr_bind, checkedSub_of_le (Nat.not_lt.mp hcode),
      okOr_bind, checkedSub_of_le hpart]
    rfl

theorem bcj2Range_shift {interval : Interval} {decoder : Bcj2Range}
    (hstands : Stands stream interval decoder.code decoder.range decoder.input)
    (hwithin : final.Within interval.normalise) :
    ∃ decoder', decoder.shift.granted = .ok decoder' ∧
      Stands stream interval.normalise decoder'.code decoder'.range decoder'.input ∧
        decoder'.probabilities = decoder.probabilities := by
  have hcode := hstands.code_lt hcarries (hwithin.trans (Interval.within_normalise _))
  have hrange := hstands.range_eq
  rw [Interval.normalise] at hwithin ⊢
  rw [Bcj2Range.shift]
  by_cases hshort : interval.range < RangeCoder.top
  · have hshort' : decoder.range < 1 <<< 24 := by
      rw [hrange]
      exact hshort
    have hlt : decoder.range < 2 ^ 24 := hshort'
    rw [if_pos hshort] at hwithin ⊢
    obtain ⟨byte, rest, hinput, hshift⟩ := hstands.shift hcarries hwithin
    refine ⟨⟨rest, decoder.range <<< 8 % 2 ^ 32, codeWith decoder.code byte,
      decoder.probabilities⟩, ?_, ?_, ?_⟩
    · rw [if_pos hshort', hinput]
      rfl
    · have hlong : decoder.range <<< 8 % 2 ^ 32 = 256 * decoder.range := by
        rw [Nat.shiftLeft_eq]
        omega
      show Stands stream interval.shift (codeWith decoder.code byte)
        (decoder.range <<< 8 % 2 ^ 32) rest
      rw [hlong, codeWith_eq (by omega)]
      exact hshift
    · rfl
  · have hlong : ¬decoder.range < 1 <<< 24 := by
      rw [hrange]
      exact hshort
    rw [if_neg hshort, if_neg hlong]
    exact ⟨decoder, rfl, hstands, rfl⟩

theorem bcj2Range_decode {interval : Interval} {model : Model} {decoder : Bcj2Range}
    {context : Nat} {bit : Bool} (hstands : DecoderStands stream interval model decoder)
    (hcontext : context < model.length)
    (hwithin : final.Within (interval.code (model.getD context 0) bit)) :
    ∃ decoder', (decoder.decode context).granted = .ok (bit, decoder') ∧
      DecoderStands stream (interval.code (model.getD context 0) bit) (model.adapt context bit)
        decoder' := by
  obtain ⟨hcode, hready, hfair, hprobabilities⟩ := hstands
  have hprobability := hfair.getD hcontext
  have hget : decoder.probabilities[context]? = some (model.getD context 0) := by
    rw [hprobabilities, List.getD_eq_getElem?_getD, List.getElem?_eq_getElem hcontext,
      Option.getD_some]
  have hready' := Interval.ready_code hready hprobability bit
  have hfair' := hfair.adapt hcontext bit
  have hadapt : decoder.probabilities.set context (RangeCoder.adapt (model.getD context 0) bit) =
      model.adapt context bit := by rw [hprobabilities, Model.adapt]
  obtain ⟨-, hmost⟩ := Interval.bound_lt hready hprobability
  generalize model.getD context 0 = probability at *
  have hbound : decoder.range >>> 11 * probability = interval.bound probability := by
    rw [hcode.range_eq, Nat.shiftRight_eq_div_pow, Interval.bound]
  have hrange := hready.2
  have hle : interval.bound probability ≤ decoder.range := by
    rw [hcode.range_eq]
    omega
  have hbits : tryFrom 32 (interval.bound probability) = some (interval.bound probability) :=
    tryFrom_of_lt (by omega)
  obtain ⟨hbit, hnarrow⟩ := hcode.narrow hcarries (hwithin.trans (Interval.within_normalise _))
  have hselect := select_eq hprobability hle hbit
  generalize (if bit then decoder.range - interval.bound probability
    else interval.bound probability) = range at hnarrow hselect
  generalize (if bit then decoder.code - interval.bound probability
    else decoder.code) = code at hnarrow hselect
  obtain ⟨decoder', hshift, hstands', hprobabilities'⟩ := @bcj2Range_shift _ _ hcarries _
    ⟨decoder.input, range, code, model.adapt context bit⟩ hnarrow hwithin
  refine ⟨decoder', ?_, hstands', hready', hfair', hprobabilities'⟩
  rw [Bcj2Range.decode]
  simp only [hget, okOr_some, Prog.granted_bind, Prog.granted_lift, Except.ok_bind, hbound, hbits,
    hselect, hadapt, hshift, Prog.granted_pure]

end Decode

structure Bcj2Split where
  main : List UInt8
  call : List UInt8
  jump : List UInt8
  message : List (Nat × Bool)
  deriving DecidableEq, Repr

namespace Bcj2Split

def plain (byte : UInt8) (split : Bcj2Split) : Bcj2Split :=
  { split with main := byte :: split.main }

def kept (previous byte : UInt8) (split : Bcj2Split) : Bcj2Split :=
  { split with
    main := byte :: split.main
    message := (bcj2ProbabilityIndex previous byte, false) :: split.message }

def converted (previous byte : UInt8) (destination : Nat) (split : Bcj2Split) : Bcj2Split :=
  { main := byte :: split.main
    call := if byte = 0xe8 then toBeBytes 4 destination ++ split.call else split.call
    jump := if byte = 0xe8 then split.jump else toBeBytes 4 destination ++ split.jump
    message := (bcj2ProbabilityIndex previous byte, true) :: split.message }

end Bcj2Split

/-- The split of the bytes from `place` on.  `choose` says which of the branches
are converted. -/
def bcj2Split (choose : Nat → Bool) : Nat → UInt8 → List UInt8 → Bcj2Split
  | _, _, [] => ⟨[], [], [], []⟩
  | place, previous, byte :: rest =>
    if isBcj2Branch previous byte then
      match rest with
      | a :: b :: c :: d :: tail =>
        if choose place then
          (bcj2Split choose (place + 5) d tail).converted previous byte
            (wrappingAdd (fromLeBytes [a, b, c, d]) (place + 5))
        else (bcj2Split choose (place + 1) byte (a :: b :: c :: d :: tail)).kept previous byte
      | rest => (bcj2Split choose (place + 1) byte rest).kept previous byte
    else (bcj2Split choose (place + 1) byte rest).plain byte

def Bcj2Split.range (split : Bcj2Split) : List UInt8 :=
  RangeCoder.encode bcj2Model split.message

variable {choose : Nat → Bool} {place : Nat} {previous byte : UInt8} {rest : List UInt8}

theorem bcj2Split_cons (choose : Nat → Bool) (place : Nat) (previous byte : UInt8)
    (rest : List UInt8) :
    (isBcj2Branch previous byte = false ∧ bcj2Split choose place previous (byte :: rest) =
      (bcj2Split choose (place + 1) byte rest).plain byte) ∨
    (isBcj2Branch previous byte = true ∧ bcj2Split choose place previous (byte :: rest) =
      (bcj2Split choose (place + 1) byte rest).kept previous byte) ∨
    ∃ a b c d tail, rest = a :: b :: c :: d :: tail ∧ isBcj2Branch previous byte = true ∧
      bcj2Split choose place previous (byte :: rest) =
        (bcj2Split choose (place + 5) d tail).converted previous byte
          (wrappingAdd (fromLeBytes [a, b, c, d]) (place + 5)) := by
  cases hbranch : isBcj2Branch previous byte with
  | false => exact .inl ⟨rfl, by rw [bcj2Split.eq_def]; simp [hbranch]⟩
  | true =>
    match rest with
    | a :: b :: c :: d :: tail =>
      by_cases hchoose : choose place = true
      · exact .inr (.inr ⟨a, b, c, d, tail, rfl, rfl, by
          rw [bcj2Split.eq_def]; simp [hbranch, hchoose]⟩)
      · exact .inr (.inl ⟨rfl, by rw [bcj2Split.eq_def]; simp [hbranch, hchoose]⟩)
    | [] => exact .inr (.inl ⟨rfl, by rw [bcj2Split.eq_def]; simp [hbranch]⟩)
    | [_] => exact .inr (.inl ⟨rfl, by rw [bcj2Split.eq_def]; simp [hbranch]⟩)
    | [_, _] => exact .inr (.inl ⟨rfl, by rw [bcj2Split.eq_def]; simp [hbranch]⟩)
    | [_, _, _] => exact .inr (.inl ⟨rfl, by rw [bcj2Split.eq_def]; simp [hbranch]⟩)

theorem bcj2ProbabilityIndex_lt (previous current : UInt8) :
    bcj2ProbabilityIndex previous current < 258 := by
  have hprevious := previous.toNat_lt
  rw [bcj2ProbabilityIndex]
  split
  · omega
  · split <;> decide

theorem known_bcj2Split {model : Model} (hmodel : model.length = 258) (choose : Nat → Bool)
    (place : Nat) (previous : UInt8) (bytes : List UInt8) :
    Known model (bcj2Split choose place previous bytes).message := by
  induction hcount : bytes.length using Nat.strongRecOn generalizing place previous bytes with
  | _ count ih =>
    intro event hevent
    match bytes with
    | [] => exact (nomatch hevent)
    | byte :: rest =>
      have hrest : ∀ previous' (tail : List UInt8), tail.length ≤ rest.length →
          ∀ place', Known model (bcj2Split choose place' previous' tail).message := by
        intro previous' tail hle place'
        exact ih tail.length (by rw [← hcount, List.length_cons]; omega) place' previous' tail rfl
      have hhead : ∀ bit, event = (bcj2ProbabilityIndex previous byte, bit) →
          event.1 < model.length := by
        rintro bit rfl
        rw [hmodel]
        exact bcj2ProbabilityIndex_lt previous byte
      rcases bcj2Split_cons choose place previous byte rest with ⟨-, heq⟩ | ⟨-, heq⟩ |
        ⟨a, b, c, d, tail, rfl, -, heq⟩
      · rw [heq] at hevent
        exact hrest byte rest (Nat.le_refl _) _ event hevent
      · rw [heq] at hevent
        rcases List.mem_cons.mp hevent with hevent | hevent
        · exact hhead false hevent
        · exact hrest byte rest (Nat.le_refl _) _ event hevent
      · rw [heq] at hevent
        rcases List.mem_cons.mp hevent with hevent | hevent
        · exact hhead true hevent
        · exact hrest d tail (by simp only [List.length_cons]; omega) _ event hevent

/-- The decoder has made `done`, and stands in front of the split of `rest`. -/
structure Bcj2Stands (choose : Nat → Bool) (stream : List UInt8) (final : Interval)
    (done rest : List UInt8) (state : Bcj2State) : Prop where
  output_eq : state.output = done
  written_eq : state.written = done.length % 2 ^ 32
  main_eq : state.main = (bcj2Split choose done.length state.previous rest).main
  call_eq : state.call = (bcj2Split choose done.length state.previous rest).call
  jump_eq : state.jump = (bcj2Split choose done.length state.previous rest).jump
  range_stands : ∃ interval model, DecoderStands stream interval model state.range ∧
    model.length = 258 ∧
      final = messageInterval interval model (bcj2Split choose done.length state.previous
        rest).message

theorem readWordBe_append {destination : Nat} (hdestination : destination < 2 ^ 32)
    (rest : List UInt8) :
    (readWordBe (toBeBytes 4 destination ++ rest)).granted = .ok (destination, rest) := by
  obtain ⟨a, b, c, d, hbytes, hvalue⟩ := toBeBytes_four hdestination
  rw [hbytes, ← hvalue]
  rfl

theorem readDestination_converted (previous byte : UInt8) {destination : Nat}
    (hdestination : destination < 2 ^ 32) (split : Bcj2Split) :
    (readDestination (split.converted previous byte destination).call
      (split.converted previous byte destination).jump byte).granted =
        .ok (destination, split.call, split.jump) := by
  rw [readDestination, Bcj2Split.converted]
  by_cases hcalled : byte = 0xe8
  · simp only [if_pos hcalled, Prog.granted_bind, readWordBe_append hdestination, Except.ok_bind,
      Prog.granted_pure]
  · simp only [if_neg hcalled, Prog.granted_bind, readWordBe_append hdestination, Except.ok_bind,
      Prog.granted_pure]

theorem reserveOutput_ok {output : List UInt8} {additional maximum : Nat}
    (hroom : output.length + additional ≤ maximum) (hmaximum : maximum < 2 ^ 64) :
    reserveOutput output additional maximum = .ok () := by
  rw [reserveOutput, checkedAdd_bind (by omega)]
  exact checkLimit_of_le hroom _

section Round

variable {stream : List UInt8} {final : Interval} (hcarries : Carries stream final)
  {done : List UInt8} {state : Bcj2State}
  (hstands : Bcj2Stands choose stream final done (byte :: rest) state) {maximum : Nat}
  (hroom : done.length + (byte :: rest).length ≤ maximum) (hmaximum : maximum < 2 ^ 64)
include hcarries hstands hroom hmaximum

omit hroom hmaximum in
theorem bcj2Stands_decode {previous' : UInt8} {bytes : List UInt8} {place : Nat} {bit : Bool}
    (hmessage : (bcj2Split choose done.length state.previous (byte :: rest)).message =
      (bcj2ProbabilityIndex state.previous byte, bit) ::
        (bcj2Split choose place previous' bytes).message) :
    ∃ decoder, (state.range.decode (bcj2ProbabilityIndex state.previous byte)).granted =
        .ok (bit, decoder) ∧
      ∃ interval model, DecoderStands stream interval model decoder ∧ model.length = 258 ∧
        final = messageInterval interval model
          (bcj2Split choose place previous' bytes).message := by
  obtain ⟨interval, model, hdecoder, hlength, hfinal⟩ := hstands.range_stands
  rw [hmessage] at hfinal
  have hcontext : bcj2ProbabilityIndex state.previous byte < model.length := by
    rw [hlength]
    exact bcj2ProbabilityIndex_lt _ _
  have hlength' : (model.adapt (bcj2ProbabilityIndex state.previous byte) bit).length = 258 := by
    rw [Model.length_adapt, hlength]
  have hready := Interval.ready_code hdecoder.ready (hdecoder.fair.getD hcontext) bit
  have hfair := hdecoder.fair.adapt hcontext bit
  have hwithin := RangeCoder.within_message hready hfair
    (known_bcj2Split hlength' choose place previous' bytes)
  rw [← messageInterval, ← hfinal] at hwithin
  obtain ⟨decoder, hdecode, hstands'⟩ := bcj2Range_decode hcarries hdecoder hcontext hwithin
  exact ⟨decoder, hdecode, _, _, hstands', hlength', hfinal⟩

omit hcarries in
theorem bcj2Round_begin {main : List UInt8}
    (hmain : (bcj2Split choose done.length state.previous (byte :: rest)).main = byte :: main) :
    (readByte state.main).granted = .ok (byte, main) ∧
      reserveOutput state.output 1 maximum = .ok () ∧ state.output ++ [byte] = done ++ [byte] ∧
        wrappingAdd state.written 1 = (done ++ [byte]).length % 2 ^ 32 := by
  rw [List.length_cons] at hroom
  refine ⟨?_, ?_, ?_, ?_⟩
  · rw [hstands.main_eq, hmain]
    rfl
  · rw [hstands.output_eq]
    exact reserveOutput_ok (by omega) hmaximum
  · rw [hstands.output_eq]
  · rw [hstands.written_eq, wrappingAdd, List.length_append, List.length_singleton]
    omega

omit hcarries in
theorem bcj2Round_plain (hbranch : isBcj2Branch state.previous byte = false)
    (hsplit : bcj2Split choose done.length state.previous (byte :: rest) =
      (bcj2Split choose (done ++ [byte]).length byte rest).plain byte) :
    ∃ state', (bcj2Round maximum state).granted = .ok state' ∧
      Bcj2Stands choose stream final (done ++ [byte]) rest state' := by
  obtain ⟨hread, hreserve, houtput, hwritten⟩ :=
    bcj2Round_begin hstands hroom hmaximum (congrArg Bcj2Split.main hsplit)
  have hcall := hstands.call_eq
  have hjump := hstands.jump_eq
  have hrange := hstands.range_stands
  rw [hsplit] at hcall hjump hrange
  refine ⟨⟨done ++ [byte], (bcj2Split choose (done ++ [byte]).length byte rest).main, state.call,
    state.jump, state.range, byte, (done ++ [byte]).length % 2 ^ 32⟩, ?_, rfl, rfl, rfl, hcall,
    hjump, hrange⟩
  rw [bcj2Round]
  simp only [Prog.granted_bind, Prog.granted_lift, hread, hreserve, Except.ok_bind, houtput,
    hwritten, hbranch, Bool.false_eq_true, if_false, Prog.granted_pure]

theorem bcj2Round_kept (hbranch : isBcj2Branch state.previous byte = true)
    (hsplit : bcj2Split choose done.length state.previous (byte :: rest) =
      (bcj2Split choose (done ++ [byte]).length byte rest).kept state.previous byte) :
    ∃ state', (bcj2Round maximum state).granted = .ok state' ∧
      Bcj2Stands choose stream final (done ++ [byte]) rest state' := by
  obtain ⟨hread, hreserve, houtput, hwritten⟩ :=
    bcj2Round_begin hstands hroom hmaximum (congrArg Bcj2Split.main hsplit)
  obtain ⟨decoder, hdecode, hrange⟩ :=
    bcj2Stands_decode hcarries hstands (congrArg Bcj2Split.message hsplit)
  have hcall := hstands.call_eq
  have hjump := hstands.jump_eq
  rw [hsplit] at hcall hjump
  refine ⟨⟨done ++ [byte], (bcj2Split choose (done ++ [byte]).length byte rest).main, state.call,
    state.jump, decoder, byte, (done ++ [byte]).length % 2 ^ 32⟩, ?_, rfl, rfl, rfl, hcall, hjump,
    hrange⟩
  rw [bcj2Round]
  simp only [Prog.granted_bind, Prog.granted_lift, hread, hreserve, Except.ok_bind, houtput,
    hwritten, hbranch, if_true, hdecode, Bool.false_eq_true, if_false, Prog.granted_pure]

theorem bcj2Round_converted {a b c d : UInt8} {tail : List UInt8}
    (hrest : rest = a :: b :: c :: d :: tail)
    (hbranch : isBcj2Branch state.previous byte = true)
    (hsplit : bcj2Split choose done.length state.previous (byte :: rest) =
      (bcj2Split choose (done ++ [byte, a, b, c, d]).length d tail).converted state.previous byte
        (wrappingAdd (fromLeBytes [a, b, c, d]) (done ++ [byte, a, b, c, d]).length)) :
    ∃ state', (bcj2Round maximum state).granted = .ok state' ∧
      Bcj2Stands choose stream final (done ++ [byte, a, b, c, d]) tail state' := by
  obtain ⟨hread, hreserve, houtput, hwritten⟩ :=
    bcj2Round_begin hstands hroom hmaximum (congrArg Bcj2Split.main hsplit)
  obtain ⟨decoder, hdecode, hrange⟩ :=
    bcj2Stands_decode hcarries hstands (congrArg Bcj2Split.message hsplit)
  have hcall := hstands.call_eq
  have hjump := hstands.jump_eq
  rw [hsplit] at hcall hjump
  have ha := a.toNat_lt
  have hb := b.toNat_lt
  have hc := c.toNat_lt
  have hd := d.toNat_lt
  have hword : fromLeBytes [a, b, c, d] < 2 ^ 32 := by
    rw [fromLeBytes_four]
    omega
  have hbytes : toLeBytes 4 (fromLeBytes [a, b, c, d]) = [a, b, c, d] :=
    toLeBytes_fromLeBytes [a, b, c, d]
  have hhigh : UInt8.ofNat (fromLeBytes [a, b, c, d] >>> 24) = d := by
    rw [fromLeBytes_four, Nat.shiftRight_eq_div_pow, ← UInt8.toNat_inj, UInt8.toNat_ofNat']
    omega
  have hplace : (done ++ [byte]).length = done.length + 1 := by
    rw [List.length_append, List.length_singleton]
  have hplace' : (done ++ [byte, a, b, c, d]).length = done.length + 5 := List.length_append
  have hnext : wrappingAdd ((done ++ [byte]).length % 2 ^ 32) 4 =
      (done ++ [byte, a, b, c, d]).length % 2 ^ 32 := by
    rw [hplace, hplace', wrappingAdd]
    omega
  have hencoded : wrappingAdd (fromLeBytes [a, b, c, d]) (done ++ [byte, a, b, c, d]).length <
      2 ^ 32 := Nat.mod_lt _ (by decide)
  have hdestination : wrappingSub
      (wrappingAdd (fromLeBytes [a, b, c, d]) (done ++ [byte, a, b, c, d]).length)
      ((done ++ [byte, a, b, c, d]).length % 2 ^ 32) = fromLeBytes [a, b, c, d] := by
    rw [wrappingSub, wrappingAdd]
    omega
  have hreserve' : reserveOutput (done ++ [byte]) 4 maximum = .ok () := by
    rw [hrest] at hroom
    simp only [List.length_cons] at hroom
    exact reserveOutput_ok (by omega) hmaximum
  have hdone : done ++ [byte] ++ [a, b, c, d] = done ++ [byte, a, b, c, d] :=
    List.append_assoc done [byte] _
  refine ⟨⟨done ++ [byte, a, b, c, d],
    (bcj2Split choose (done ++ [byte, a, b, c, d]).length d tail).main,
    (bcj2Split choose (done ++ [byte, a, b, c, d]).length d tail).call,
    (bcj2Split choose (done ++ [byte, a, b, c, d]).length d tail).jump, decoder, d,
    (done ++ [byte, a, b, c, d]).length % 2 ^ 32⟩, ?_, rfl, rfl, rfl, rfl, rfl, hrange⟩
  rw [bcj2Round]
  simp only [Prog.granted_bind, Prog.granted_lift, hread, hreserve, Except.ok_bind, houtput,
    hwritten, hbranch, if_true, hdecode, hcall, hjump, readDestination_converted _ _ hencoded,
    Prog.granted_pure, hnext, hdestination, hreserve', hbytes, hhigh, hdone]

theorem bcj2Round_granted :
    ∃ piece rest' state', byte :: rest = piece ++ rest' ∧
      (bcj2Round maximum state).granted = .ok state' ∧
        Bcj2Stands choose stream final (done ++ piece) rest' state' := by
  have hplace : (done ++ [byte]).length = done.length + 1 := by
    rw [List.length_append, List.length_singleton]
  rcases bcj2Split_cons choose done.length state.previous byte rest with ⟨hbranch, hsplit⟩ |
    ⟨hbranch, hsplit⟩ | ⟨a, b, c, d, tail, hrest, hbranch, hsplit⟩
  · rw [← hplace] at hsplit
    exact ⟨[byte], rest, (bcj2Round_plain hstands hroom hmaximum hbranch hsplit).imp
      fun state' h => ⟨rfl, h⟩⟩
  · rw [← hplace] at hsplit
    exact ⟨[byte], rest, (bcj2Round_kept hcarries hstands hroom hmaximum hbranch hsplit).imp
      fun state' h => ⟨rfl, h⟩⟩
  · have hplace' : (done ++ [byte, a, b, c, d]).length = done.length + 5 := List.length_append
    rw [← hplace'] at hsplit
    refine ⟨[byte, a, b, c, d], tail,
      (bcj2Round_converted hcarries hstands hroom hmaximum hrest hbranch hsplit).imp
        fun state' h => ⟨?_, h⟩⟩
    rw [hrest]
    rfl

end Round

theorem bcj2Loop_granted {stream : List UInt8} {final : Interval} (hcarries : Carries stream final)
    {maximum : Nat} (hmaximum : maximum < 2 ^ 64) (fuel : Nat) {done rest : List UInt8}
    {state : Bcj2State} (hstands : Bcj2Stands choose stream final done rest state)
    (hroom : done.length + rest.length ≤ maximum) (hfuel : state.main.length ≤ fuel) :
    ∃ last, (Prog.whileLoop Bcj2State.unfinished (bcj2Round maximum) fuel state).granted =
        .ok last ∧ Bcj2Stands choose stream final (done ++ rest) [] last := by
  match rest with
  | [] =>
    have hmain : state.unfinished = false := by
      rw [Bcj2State.unfinished, hstands.main_eq]
      rfl
    rw [Prog.whileLoop_stop hmain, List.append_nil]
    exact ⟨state, rfl, hstands⟩
  | byte :: rest =>
    obtain ⟨piece, rest', state', hsplit, hround, hstands'⟩ :=
      bcj2Round_granted hcarries hstands hroom hmaximum
    obtain ⟨hless, -⟩ := bcj2Round_total hround
    have hmain : state.unfinished = true := by
      rw [Bcj2State.unfinished, decide_eq_true_iff, ← List.length_pos_iff]
      omega
    cases fuel with
    | zero => omega
    | succ fuel =>
      have hroom' : (done ++ piece).length + rest'.length ≤ maximum := by
        rw [hsplit, List.length_append] at hroom
        rw [List.length_append]
        omega
      obtain ⟨last, hrun, hlast⟩ :=
        bcj2Loop_granted hcarries hmaximum fuel hstands' hroom' (by omega)
      refine ⟨last, ?_, ?_⟩
      · rw [Prog.whileLoop_round hmain hround, hrun]
      · rw [hsplit, ← List.append_assoc]
        exact hlast

theorem decodeBcj2_bcj2Split (choose : Nat → Bool) {bytes : List UInt8} {maximum : Nat}
    (hroom : bytes.length ≤ maximum) (hmaximum : maximum < 2 ^ 64) {expected : Option Nat}
    (hexpected : expected = none ∨ expected = some bytes.length) :
    (decodeBcj2 [(bcj2Split choose 0 0 bytes).main, (bcj2Split choose 0 0 bytes).call,
      (bcj2Split choose 0 0 bytes).jump, (bcj2Split choose 0 0 bytes).range] [] expected
        maximum).granted = .ok bytes := by
  have hlength : bcj2Model.length = 258 := List.length_replicate
  have hknown := known_bcj2Split hlength choose 0 0 bytes
  have hcarries := RangeCoder.carries_encode fair_bcj2Model hknown
  have hwithin := RangeCoder.within_message Interval.ready_start fair_bcj2Model hknown
  obtain ⟨decoder, hnew, hdecoder⟩ := bcj2Range_new hcarries hwithin
  generalize hsplit : bcj2Split choose 0 0 bytes = split at *
  have hstands : Bcj2Stands choose split.range (messageInterval .start bcj2Model split.message) []
      bytes ⟨[], split.main, split.call, split.jump, decoder, 0, 0⟩ := by
    rw [← hsplit]
    exact ⟨rfl, rfl, rfl, rfl, rfl, _, _, hsplit ▸ hdecoder, hlength, rfl⟩
  obtain ⟨last, hloop, hlast⟩ := bcj2Loop_granted hcarries hmaximum split.main.length hstands
    (by rw [List.length_nil]; omega) (Nat.le_refl _)
  have houtput : last.output = bytes := hlast.output_eq
  have hcall : last.call = [] := hlast.call_eq
  have hjump : last.jump = [] := hlast.jump_eq
  have hrun : (bcj2Run split.main split.call split.jump split.range maximum).granted =
      .ok last := by
    rw [bcj2Run, Prog.granted_bind, Bcj2Split.range, hnew]
    exact hloop
  have hlimit : checkLimit (expected.getD 0) maximum .totalOutputBytes = .ok () := by
    apply checkLimit_of_le
    rcases hexpected with rfl | rfl
    · exact Nat.zero_le _
    · exact hroom
  have hdeclared : checkDeclared bytes.length expected = .ok () := by
    rcases hexpected with rfl | rfl
    · rfl
    · rw [checkDeclared, rejectIf, if_neg (not_not.mpr rfl)]
  have hproperties : ∀ e, rejectIf (([] : List UInt8) ≠ []) e = .ok () :=
    rejectIf_of_not (not_not.mpr rfl)
  have hfour : ∀ e, rejectIf ([split.main, split.call, split.jump, split.range].length ≠ 4) e =
      .ok () := rejectIf_of_not (not_not.mpr rfl)
  have hsides : ∀ e, rejectIf (last.call ≠ [] ∨ last.jump ≠ []) e = .ok () := by
    rw [hcall, hjump]
    exact rejectIf_of_not (not_or.mpr ⟨not_not.mpr rfl, not_not.mpr rfl⟩)
  rw [decodeBcj2]
  simp only [Prog.granted_bind, Prog.granted_lift, List.getElem?_cons_zero,
    List.getElem?_cons_succ, okOr_some, Except.ok_bind, hproperties, hfour, hlimit, hrun, hsides,
    houtput, hdeclared, Prog.granted_pure]

/-- Decoding undoes the split, whichever branches are converted, and what is decoded
from any four streams is as long as the first three together. -/
theorem decodeBcj2_undoes :
    (∀ (choose : Nat → Bool) (bytes : List UInt8) (maximum : Nat) (expected : Option Nat),
      bytes.length ≤ maximum → maximum < 2 ^ 64 → expected = none ∨ expected = some bytes.length →
        (decodeBcj2 [(bcj2Split choose 0 0 bytes).main, (bcj2Split choose 0 0 bytes).call,
          (bcj2Split choose 0 0 bytes).jump, (bcj2Split choose 0 0 bytes).range] [] expected
            maximum).granted = .ok bytes) ∧
    ∀ (main call jump range properties : List UInt8) (expected : Option Nat) (maximum : Nat)
      (trace : List (Nat × Except Error Unit)) (output : List UInt8),
      Prog.Runs (decodeBcj2 [main, call, jump, range] properties expected maximum) trace
        (.ok output) →
      ∃ last, (bcj2Run main call jump range maximum).granted = .ok last ∧ last.output = output ∧
        last.main = [] ∧ last.call = [] ∧ last.jump = [] ∧
          output.length = main.length + call.length + jump.length :=
  ⟨fun choose _ _ _ hroom hmaximum hexpected =>
    decodeBcj2_bcj2Split choose hroom hmaximum hexpected,
    fun _ _ _ _ _ _ _ _ _ h => decodeBcj2_ok ((strict_decodeBcj2 _ _ _ _).granted_of_runs h)⟩

/-- A call, and a conditional jump that is too near the end to be converted. -/
theorem decodeBcj2_undoes_call :
    (decodeBcj2 [(bcj2Split (fun _ => true) 0 0 [0xe8, 1, 2, 3, 4, 0x0f, 0x84, 5]).main,
      (bcj2Split (fun _ => true) 0 0 [0xe8, 1, 2, 3, 4, 0x0f, 0x84, 5]).call,
      (bcj2Split (fun _ => true) 0 0 [0xe8, 1, 2, 3, 4, 0x0f, 0x84, 5]).jump,
      (bcj2Split (fun _ => true) 0 0 [0xe8, 1, 2, 3, 4, 0x0f, 0x84, 5]).range] [] none
        100).granted = .ok [0xe8, 1, 2, 3, 4, 0x0f, 0x84, 5] :=
  decodeBcj2_undoes.1 (fun _ => true) [0xe8, 1, 2, 3, 4, 0x0f, 0x84, 5] 100 none (by decide)
    (by decide) (.inl rfl)

end Filter
end Unpackio
