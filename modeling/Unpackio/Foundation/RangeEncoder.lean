/-
The range encoder with a 33-bit low end.

A carry out of the low end reaches bytes that are written later than they are
known: the last of them, and the bytes of ones behind it, wait in the cache.
-/
import Unpackio.Foundation.RangeCoder

namespace RangeCoder

/-- The low end and the bytes before it: those that are written, the cache, and the
bytes of ones behind the cache, which are counted with it. -/
structure Output where
  low : Nat
  cache : UInt8
  pending : Nat
  written : List UInt8
  deriving DecidableEq, Repr

namespace Output

def start : Output := ⟨0, 0, 1, []⟩

/-- Take a byte off the low end.  It goes into the cache, unless a carry can still
come to it. -/
def shiftLow (output : Output) : Output :=
  if output.low < 0xff000000 ∨ 2 ^ 32 ≤ output.low then
    let carry := UInt8.ofNat (output.low / 2 ^ 32)
    { low := output.low % 2 ^ 24 * 2 ^ 8
      cache := UInt8.ofNat (output.low / 2 ^ 24)
      pending := 1
      written := output.written ++
        (output.cache + carry) :: List.replicate (output.pending - 1) (0xff + carry) }
  else { output with low := output.low % 2 ^ 24 * 2 ^ 8, pending := output.pending + 1 }

/-- Five shifts write what is left. -/
def finish (output : Output) : List UInt8 :=
  output.shiftLow.shiftLow.shiftLow.shiftLow.shiftLow.written

/-- The output is the low end of the interval, and no number of the interval
differs from it in the bytes that are written. -/
structure Holds (output : Output) (interval : Interval) : Prop where
  pending_pos : 0 < output.pending
  length_eq : output.written.length + output.pending = interval.shifts + 1
  low_eq : interval.low + 2 ^ 32 =
    (number output.written * 256 ^ output.pending +
      (output.cache.toNat + 1) * 256 ^ (output.pending - 1)) * 2 ^ 32 + output.low
  tail_le : (output.cache.toNat + 1) * 256 ^ (output.pending - 1) * 2 ^ 32 +
    output.low + interval.range ≤ 256 ^ output.pending * 2 ^ 32 + 2 ^ 32
  small : output.low + interval.range ≤ 2 ^ 33

theorem holds_start : start.Holds .start := by
  refine ⟨Nat.one_pos, rfl, ?_, ?_, ?_⟩ <;> decide

theorem number_ones (count : Nat) :
    number (List.replicate count 0xff) + 1 = 256 ^ count := by
  induction count with
  | zero => rfl
  | succ count ih =>
    rw [List.replicate_succ, number, Numerals.numeral_cons, List.length_replicate, ← number,
      Nat.pow_succ]
    show 255 * 256 ^ count + _ + 1 = _
    omega

theorem number_zeros (count : Nat) : number (List.replicate count 0) = 0 := by
  induction count with
  | zero => rfl
  | succ count ih =>
    rw [List.replicate_succ, number, Numerals.numeral_cons, ← number, ih]
    show 0 * _ + 0 = 0
    omega

theorem tail_wait {waiting whole low low' range : Nat} (hlow : low' + 255 * 2 ^ 32 = 256 * low)
    (htail : waiting + low + range ≤ whole + 2 ^ 32) :
    256 * waiting + low' + 256 * range ≤ 256 * whole + 2 ^ 32 := by
  omega

section Shift

variable {output : Output} {interval : Interval} (h : output.Holds interval)
  (hrange : interval.range ≤ top) (hpositive : 0 < interval.range)
include h hrange hpositive

theorem written_flush (hflush : output.low < 0xff000000 ∨ 2 ^ 32 ≤ output.low) :
    interval.low = number output.shiftLow.written * 2 ^ 32 + output.low % 2 ^ 32 ∧
      output.low % 2 ^ 32 + interval.range ≤ 2 ^ 32 := by
  obtain ⟨hpending, -, hlow, htail, hsmall⟩ := h
  obtain ⟨count, hcount⟩ : ∃ count, output.pending = count + 1 :=
    ⟨output.pending - 1, (Nat.sub_add_cancel hpending).symm⟩
  have hpow : 256 ^ (count + 1) = 256 * 256 ^ count := Nat.pow_succ'
  have hwritten : output.shiftLow.written = output.written ++
      (output.cache + UInt8.ofNat (output.low / 2 ^ 32)) ::
        List.replicate count (0xff + UInt8.ofNat (output.low / 2 ^ 32)) := by
    rw [shiftLow, if_pos hflush, hcount]
    rfl
  have hnumber : ∀ first filler : UInt8,
      number (output.written ++ first :: List.replicate count filler) =
        number output.written * (256 * 256 ^ count) +
          (first.toNat * 256 ^ count + number (List.replicate count filler)) := by
    intro first filler
    rw [number_append, List.length_cons, List.length_replicate, hpow]
    rw [number, number, number, Numerals.numeral_cons first, List.length_replicate]
  have hones := number_ones count
  rw [hcount, Nat.add_sub_cancel, hpow] at hlow htail
  rw [hwritten, hnumber]
  unfold top at hrange
  have hfirst : number output.written * (256 * 256 ^ count) =
      256 * (number output.written * 256 ^ count) := by ring
  rw [hfirst] at hlow ⊢
  have hnext : (output.cache.toNat + 1) * 256 ^ count =
      output.cache.toNat * 256 ^ count + 256 ^ count := by ring
  rw [hnext] at hlow htail
  by_cases hcarry : 2 ^ 32 ≤ output.low
  · have hone : output.low / 2 ^ 32 = 1 := by omega
    have hroom : output.cache.toNat + 1 < 256 := by
      have hlt : (output.cache.toNat + 1) * 256 ^ count < 256 * 256 ^ count := by
        rw [hnext]
        omega
      exact Nat.lt_of_mul_lt_mul_right hlt
    have hcache : (output.cache + UInt8.ofNat 1).toNat = output.cache.toNat + 1 := by
      rw [UInt8.toNat_add]
      exact Nat.mod_eq_of_lt hroom
    have hfiller : (0xff : UInt8) + UInt8.ofNat 1 = 0 := by decide
    rw [hone, hcache, hfiller, number_zeros, hnext]
    omega
  · have hzero : output.low / 2 ^ 32 = 0 := by omega
    have hcache : output.cache + UInt8.ofNat 0 = output.cache := by
      rw [← UInt8.toNat_inj, UInt8.toNat_add]
      exact Nat.mod_eq_of_lt output.cache.toNat_lt
    have hfiller : (0xff : UInt8) + UInt8.ofNat 0 = 0xff := by decide
    rw [hzero, hcache, hfiller]
    omega

theorem holds_flush (hflush : output.low < 0xff000000 ∨ 2 ^ 32 ≤ output.low) :
    output.shiftLow.Holds interval.shift := by
  obtain ⟨hlow, hend⟩ := written_flush h hrange hpositive hflush
  obtain ⟨hpending, hlength, -, -, -⟩ := h
  have hcount : output.shiftLow.written.length = output.written.length + output.pending := by
    rw [shiftLow, if_pos hflush]
    show (output.written ++ _ :: List.replicate (output.pending - 1) _).length = _
    rw [List.length_append, List.length_cons, List.length_replicate, Nat.sub_add_cancel hpending]
  have hnext : output.shiftLow.low = output.low % 2 ^ 24 * 2 ^ 8 := by
    rw [shiftLow, if_pos hflush]
  have hpending' : output.shiftLow.pending = 1 := by
    rw [shiftLow, if_pos hflush]
  have hcache : output.shiftLow.cache.toNat = output.low % 2 ^ 32 / 2 ^ 24 := by
    rw [shiftLow, if_pos hflush]
    show (UInt8.ofNat (output.low / 2 ^ 24)).toNat = _
    rw [UInt8.toNat_ofNat']
    omega
  unfold top at hrange
  refine ⟨?_, ?_, ?_, ?_, ?_⟩
  · rw [hpending']
    exact Nat.one_pos
  · rw [hpending', hcount, hlength]
    rfl
  · rw [hpending', hcache, hnext]
    show 256 * interval.low + 2 ^ 32 = _
    omega
  · rw [hpending', hcache, hnext]
    show _ + 256 * interval.range ≤ _
    omega
  · rw [hnext]
    show _ + 256 * interval.range ≤ _
    omega

theorem holds_wait (hwait : ¬(output.low < 0xff000000 ∨ 2 ^ 32 ≤ output.low)) :
    output.shiftLow.Holds interval.shift := by
  have hshift : output.shiftLow =
      { output with low := output.low % 2 ^ 24 * 2 ^ 8, pending := output.pending + 1 } := by
    rw [shiftLow, if_neg hwait]
  obtain ⟨hpending, hlength, hlow, htail, -⟩ := h
  obtain ⟨hhigh, hcarry⟩ := not_or.mp hwait
  have hbytes : output.low % 2 ^ 24 * 2 ^ 8 + 255 * 2 ^ 32 = 256 * output.low := by omega
  clear hwait
  obtain ⟨count, hcount⟩ : ∃ count, output.pending = count + 1 :=
    ⟨output.pending - 1, (Nat.sub_add_cancel hpending).symm⟩
  have hpow : 256 ^ (count + 1) = 256 * 256 ^ count := Nat.pow_succ'
  have hpow' : 256 ^ (count + 1 + 1) = 256 * (256 * 256 ^ count) := by rw [Nat.pow_succ', hpow]
  have htimes : number output.written * (256 * (256 * 256 ^ count)) =
      256 * (number output.written * (256 * 256 ^ count)) := by ring
  have hcache : (output.cache.toNat + 1) * (256 * 256 ^ count) =
      256 * ((output.cache.toNat + 1) * 256 ^ count) := by ring
  rw [hcount, Nat.add_sub_cancel, hpow] at hlow htail
  rw [hcount] at hlength
  unfold top at hrange
  rw [hshift]
  refine ⟨Nat.succ_pos _, ?_, ?_, ?_, ?_⟩
  all_goals dsimp only [Interval.shift]
  · omega
  · rw [@Nat.add_sub_cancel output.pending 1, hcount, hpow', hpow, htimes, hcache]
    omega
  · rw [@Nat.add_sub_cancel output.pending 1, hcount, hpow', hpow, hcache,
      Nat.mul_assoc 256 ((output.cache.toNat + 1) * 256 ^ count),
      Nat.mul_assoc 256 (256 * 256 ^ count)]
    exact tail_wait hbytes htail
  · clear hpow hpow' htimes hcache hlow htail
    omega

theorem holds_shiftLow : output.shiftLow.Holds interval.shift := by
  by_cases hflush : output.low < 0xff000000 ∨ 2 ^ 32 ≤ output.low
  · exact holds_flush h hrange hpositive hflush
  · exact holds_wait h hrange hpositive hflush

end Shift

theorem low_shiftLow (output : Output) :
    output.shiftLow.low = output.low % 2 ^ 24 * 2 ^ 8 := by
  rw [shiftLow]
  split <;> rfl

section

variable {output : Output} {interval : Interval} (h : output.Holds interval)
include h

theorem Holds.shorten {range : Nat} (hrange : range ≤ interval.range) :
    output.Holds { interval with range } := by
  obtain ⟨hpending, hlength, hlow, htail, hsmall⟩ := h
  exact ⟨hpending, hlength, hlow, Nat.le_trans (Nat.add_le_add_left hrange _) htail,
    Nat.le_trans (Nat.add_le_add_left hrange _) hsmall⟩

theorem Holds.raise {bound : Nat} (hbound : bound ≤ interval.range) :
    { output with low := output.low + bound }.Holds
      { interval with low := interval.low + bound, range := interval.range - bound } := by
  obtain ⟨hpending, hlength, hlow, htail, hsmall⟩ := h
  refine ⟨hpending, hlength, ?_, ?_, ?_⟩
  all_goals dsimp only
  all_goals omega

end

/-- Only the first number of the interval is kept. -/
theorem Holds.shift_one {output : Output} {low shifts : Nat} (h : output.Holds ⟨low, 1, shifts⟩) :
    output.shiftLow.Holds ⟨256 * low, 1, shifts + 1⟩ :=
  (holds_shiftLow h (show 1 ≤ 2 ^ 24 by decide) Nat.one_pos).shorten
    (show 1 ≤ 256 * 1 by decide)

theorem number_finish {output : Output} {interval : Interval} (h : output.Holds interval)
    (hpositive : 0 < interval.range) :
    number output.finish = interval.low ∧ output.finish.length = interval.shifts + 5 := by
  have hone := (((h.shorten hpositive).shift_one.shift_one).shift_one).shift_one
  have hlast := hone.shift_one
  generalize hfour : output.shiftLow.shiftLow.shiftLow.shiftLow = four at hone hlast
  have hzero : four.low = 0 := by
    rw [← hfour]
    simp only [low_shiftLow]
    omega
  have hfinish : output.finish = four.shiftLow.written := by
    rw [← hfour]
    rfl
  have hflush : four.low < 0xff000000 ∨ 2 ^ 32 ≤ four.low := .inl (by rw [hzero]; decide)
  have hpending : four.shiftLow.pending = 1 := by
    rw [shiftLow, if_pos hflush]
  have hcache : four.shiftLow.cache.toNat = 0 := by
    rw [shiftLow, if_pos hflush, hzero]
    rfl
  have hlow : four.shiftLow.low = 0 := by
    rw [low_shiftLow, hzero, Nat.zero_mod, Nat.zero_mul]
  have hnumber := hlast.low_eq
  have hlength := hlast.length_eq
  rw [hpending, hcache, hlow] at hnumber
  rw [hpending] at hlength
  rw [hfinish]
  have hnumber : 256 * (256 * (256 * (256 * (256 * interval.low)))) + 2 ^ 32 =
      (number four.shiftLow.written * 256 ^ 1 + (0 + 1) * 256 ^ (1 - 1)) * 2 ^ 32 + 0 := hnumber
  have hlength : four.shiftLow.written.length + 1 = interval.shifts + 1 + 1 + 1 + 1 + 1 + 1 :=
    hlength
  constructor <;> omega

def code (output : Output) (range bound : Nat) (bit : Bool) : Output × Nat :=
  let narrowed := if bit then { output with low := output.low + bound } else output
  let range := if bit then range - bound else bound
  if range < top then (narrowed.shiftLow, range * 2 ^ 8) else (narrowed, range)

end Output

def encodeFrom : Output × Nat → Model → List (Nat × Bool) → Output
  | (output, _), _, [] => output
  | (output, range), model, (context, bit) :: rest =>
    encodeFrom (output.code range (range / 2 ^ 11 * model.getD context 0) bit)
      (model.adapt context bit) rest

def encode (model : Model) (message : List (Nat × Bool)) : List UInt8 :=
  (encodeFrom (.start, 2 ^ 32 - 1) model message).finish

def Output.follow : Output × Nat → Decision → Output × Nat
  | (output, range), decision =>
    let part := { output with low := output.low + decision.offset range }
    if decision.length range < top then (part.shiftLow, 256 * decision.length range)
    else (part, decision.length range)

def encodeDecisions (decisions : List Decision) : List UInt8 :=
  (decisions.foldl Output.follow (.start, 2 ^ 32 - 1)).1.finish

theorem Output.holds_follow {output : Output} {interval : Interval} (h : output.Holds interval)
    (hready : interval.Ready) {decision : Decision} (hfair : decision.Fair) :
    (Output.follow (output, interval.range) decision).1.Holds (interval.follow decision) ∧
      (Output.follow (output, interval.range) decision).2 = (interval.follow decision).range := by
  obtain ⟨hlong, hinside⟩ := Interval.part_bounds hready hfair
  have hpart := (h.raise (Nat.le_of_add_right_le hinside)).shorten
    (show decision.length interval.range ≤ interval.range - decision.offset interval.range by omega)
  rw [Output.follow, Interval.follow, Interval.normalise, Interval.part]
  by_cases hshort : decision.length interval.range < top
  · rw [if_pos hshort, if_pos hshort]
    exact ⟨holds_shiftLow hpart (Nat.le_of_lt hshort)
      (show 0 < decision.length interval.range by omega), rfl⟩
  · rw [if_neg hshort, if_neg hshort]
    exact ⟨hpart, rfl⟩

theorem carries_decisions {decisions : List Decision}
    (hfair : ∀ decision ∈ decisions, decision.Fair) :
    Carries (encodeDecisions decisions) (Interval.start.after decisions) := by
  have hholds : ∀ {output : Output} {interval : Interval}, output.Holds interval →
      interval.Ready → (decisions.foldl Output.follow (output, interval.range)).1.Holds
        (interval.after decisions) := by
    intro output interval h hready
    induction decisions generalizing output interval with
    | nil => exact h
    | cons decision decisions ih =>
      rw [List.forall_mem_cons] at hfair
      obtain ⟨houtput, hrange⟩ := Output.holds_follow h hready hfair.1
      have hrest := ih hfair.2 houtput (Interval.ready_follow hready hfair.1)
      rw [← hrange] at hrest
      exact hrest
  have hpositive : 0 < (Interval.start.after decisions).range :=
    Nat.lt_of_lt_of_le (by decide) (Interval.ready_after Interval.ready_start hfair).1
  obtain ⟨hnumber, hlength⟩ :=
    Output.number_finish (hholds Output.holds_start Interval.ready_start) hpositive
  exact ⟨hnumber, hlength, hpositive⟩

theorem encodeFrom_eq (output : Output) (range : Nat) (model : Model)
    (message : List (Nat × Bool)) :
    encodeFrom (output, range) model message =
      ((model.decisions message).foldl Output.follow (output, range)).1 := by
  induction message generalizing output range model with
  | nil => rfl
  | cons event rest ih =>
    obtain ⟨context, bit⟩ := event
    have hcode : output.code range (range / 2 ^ 11 * model.getD context 0) bit =
        Output.follow (output, range) (.adaptive (model.getD context 0) bit) := by
      rw [Output.code, Output.follow, Nat.mul_comm 256]
      cases bit <;> rfl
    rw [encodeFrom, hcode]
    exact ih _ _ _

theorem carries_encode {model : Model} {message : List (Nat × Bool)} (hfair : model.Fair)
    (hknown : Known model message) :
    Carries (encode model message) (messageInterval .start model message) := by
  rw [encode, encodeFrom_eq, messageInterval_eq]
  exact carries_decisions (fair_decisions hfair hknown)

end RangeCoder
