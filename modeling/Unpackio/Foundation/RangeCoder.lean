/-
Adaptive binary range coding.

A message is an interval of numbers, and every bit narrows it.  Where the interval
is short, both ends are multiplied by 256: a shift.  The stream is the first number
of the last interval, with a byte for every shift and five bytes more.  A reader
that has read five bytes more than there were shifts knows which part of the
interval the number is in.
-/
import Unpackio.Foundation.Numerals

namespace RangeCoder

open Numerals

/-- The numbers from `low` on, `range` of them, after some shifts. -/
structure Interval where
  low : Nat
  range : Nat
  shifts : Nat
  deriving DecidableEq, Repr

/-- From here on no shift is needed. -/
def top : Nat := 2 ^ 24

namespace Interval

def start : Interval := ⟨0, 2 ^ 32 - 1, 0⟩

/-- The first `bound` numbers are those with a clear bit. -/
def narrow (interval : Interval) (bound : Nat) (bit : Bool) : Interval :=
  if bit then { interval with low := interval.low + bound, range := interval.range - bound }
  else { interval with range := bound }

def shift (interval : Interval) : Interval :=
  ⟨256 * interval.low, 256 * interval.range, interval.shifts + 1⟩

def normalise (interval : Interval) : Interval :=
  if interval.range < top then interval.shift else interval

/-- Where the numbers with a clear bit end.  A probability has eleven bits. -/
def bound (interval : Interval) (probability : Nat) : Nat :=
  interval.range / 2 ^ 11 * probability

def code (interval : Interval) (probability : Nat) (bit : Bool) : Interval :=
  (interval.narrow (interval.bound probability) bit).normalise

/-- The numbers of `inner`, shifted back, are numbers of `outer`. -/
def Within (inner outer : Interval) : Prop :=
  ∃ more, inner.shifts = outer.shifts + more ∧ outer.low * 256 ^ more ≤ inner.low ∧
    inner.low + inner.range ≤ (outer.low + outer.range) * 256 ^ more

theorem Within.refl (interval : Interval) : interval.Within interval :=
  ⟨0, rfl, by rw [Nat.pow_zero, Nat.mul_one], by rw [Nat.pow_zero, Nat.mul_one]⟩

theorem Within.trans {inner middle outer : Interval} (h : inner.Within middle)
    (h' : middle.Within outer) : inner.Within outer := by
  obtain ⟨more, hshifts, hlow, hhigh⟩ := h
  obtain ⟨more', hshifts', hlow', hhigh'⟩ := h'
  refine ⟨more' + more, by rw [hshifts, hshifts', Nat.add_assoc], ?_, ?_⟩
  · calc outer.low * 256 ^ (more' + more)
        = outer.low * 256 ^ more' * 256 ^ more := by rw [Nat.pow_add, Nat.mul_assoc]
      _ ≤ middle.low * 256 ^ more := Nat.mul_le_mul_right _ hlow'
      _ ≤ inner.low := hlow
  · calc inner.low + inner.range
        ≤ (middle.low + middle.range) * 256 ^ more := hhigh
      _ ≤ (outer.low + outer.range) * 256 ^ more' * 256 ^ more := Nat.mul_le_mul_right _ hhigh'
      _ = (outer.low + outer.range) * 256 ^ (more' + more) := by rw [Nat.pow_add, Nat.mul_assoc]

theorem within_shift (interval : Interval) : interval.shift.Within interval := by
  refine ⟨1, rfl, ?_, ?_⟩
  · show interval.low * 256 ^ 1 ≤ 256 * interval.low
    omega
  · show 256 * interval.low + 256 * interval.range ≤ (interval.low + interval.range) * 256 ^ 1
    omega

theorem within_normalise (interval : Interval) : interval.normalise.Within interval := by
  rw [normalise]
  split
  · exact within_shift interval
  · exact .refl interval

def Ready (interval : Interval) : Prop := top ≤ interval.range ∧ interval.range < 2 ^ 32

theorem ready_start : start.Ready := by
  constructor <;> decide

end Interval

/-- Neither bit is ever certain. -/
def Fair (probability : Nat) : Prop := 31 ≤ probability ∧ probability ≤ 2 ^ 11 - 31

def adapt (probability : Nat) (bit : Bool) : Nat :=
  if bit then probability - probability / 2 ^ 5
  else probability + (2 ^ 11 - probability) / 2 ^ 5

theorem fair_adapt {probability : Nat} (h : Fair probability) (bit : Bool) :
    Fair (adapt probability bit) := by
  obtain ⟨hlow, hhigh⟩ := h
  unfold adapt Fair
  cases bit with
  | false =>
    show 31 ≤ probability + (2 ^ 11 - probability) / 2 ^ 5 ∧
      probability + (2 ^ 11 - probability) / 2 ^ 5 ≤ 2 ^ 11 - 31
    omega
  | true =>
    show 31 ≤ probability - probability / 2 ^ 5 ∧ probability - probability / 2 ^ 5 ≤ 2 ^ 11 - 31
    omega

namespace Interval

variable {interval : Interval} {probability : Nat}

variable (hready : interval.Ready) (hfair : Fair probability)
include hready hfair

/-- Both parts of a narrowed interval are long enough for one shift. -/
theorem bound_lt :
    2 ^ 16 ≤ interval.bound probability ∧
      interval.bound probability + 2 ^ 16 ≤ interval.range := by
  obtain ⟨hlow, hhigh⟩ := hready
  obtain ⟨hleast, hmost⟩ := hfair
  have hpart : 2 ^ 13 ≤ interval.range / 2 ^ 11 := by
    unfold top at hlow
    omega
  have hwhole : interval.range / 2 ^ 11 * 2 ^ 11 ≤ interval.range := Nat.div_mul_le_self _ _
  have hfirst : 2 ^ 13 * 31 ≤ interval.range / 2 ^ 11 * probability := Nat.mul_le_mul hpart hleast
  have hsecond : interval.range / 2 ^ 11 * probability ≤
      interval.range / 2 ^ 11 * (2 ^ 11 - 31) := Nat.mul_le_mul_left _ hmost
  unfold bound
  omega

end Interval

/-- A bit that is clear with a probability, or a bit that halves the range. -/
inductive Decision where
  | adaptive (probability : Nat) (bit : Bool)
  | even (bit : Bool)
  deriving DecidableEq, Repr

namespace Decision

def offset (range : Nat) : Decision → Nat
  | adaptive probability bit => if bit then range / 2 ^ 11 * probability else 0
  | even bit => if bit then range / 2 else 0

def length (range : Nat) : Decision → Nat
  | adaptive probability bit =>
    if bit then range - range / 2 ^ 11 * probability else range / 2 ^ 11 * probability
  | even _ => range / 2

def Fair : Decision → Prop
  | adaptive probability _ => RangeCoder.Fair probability
  | even _ => True

end Decision

namespace Interval

def part (interval : Interval) (decision : Decision) : Interval :=
  ⟨interval.low + decision.offset interval.range, decision.length interval.range, interval.shifts⟩

def follow (interval : Interval) (decision : Decision) : Interval :=
  (interval.part decision).normalise

def after : Interval → List Decision → Interval := List.foldl follow

theorem after_append (interval : Interval) (front rest : List Decision) :
    interval.after (front ++ rest) = (interval.after front).after rest :=
  List.foldl_append

variable {interval : Interval} {decision : Decision} (hready : interval.Ready)
  (hfair : decision.Fair)
include hready hfair

theorem part_bounds :
    2 ^ 16 ≤ decision.length interval.range ∧
      decision.offset interval.range + decision.length interval.range ≤ interval.range := by
  cases decision with
  | adaptive probability bit =>
    have hbounds := bound_lt hready hfair
    unfold bound at hbounds
    cases bit <;> simp only [Decision.length, Decision.offset, if_true, Bool.false_eq_true,
      if_false] <;> omega
  | even bit =>
    have hlow := hready.1
    unfold top at hlow
    cases bit <;> simp only [Decision.length, Decision.offset, if_true, Bool.false_eq_true,
      if_false] <;> omega

theorem ready_follow : (interval.follow decision).Ready := by
  have hbounds := part_bounds hready hfair
  have hhigh := hready.2
  rw [follow, normalise, part]
  by_cases hshort : decision.length interval.range < top
  · rw [if_pos hshort]
    unfold top at hshort
    exact ⟨show 2 ^ 24 ≤ 256 * decision.length interval.range by omega,
      show 256 * decision.length interval.range < 2 ^ 32 by omega⟩
  · rw [if_neg hshort]
    exact ⟨Nat.not_lt.mp hshort, show decision.length interval.range < 2 ^ 32 by omega⟩

theorem within_follow : (interval.follow decision).Within interval := by
  have hbounds := part_bounds hready hfair
  refine (within_normalise _).trans ⟨0, rfl, ?_, ?_⟩
  · show interval.low * 256 ^ 0 ≤ interval.low + decision.offset interval.range
    omega
  · show interval.low + decision.offset interval.range + decision.length interval.range ≤
      (interval.low + interval.range) * 256 ^ 0
    omega

omit hfair

theorem ready_after {decisions : List Decision}
    (hfair : ∀ decision ∈ decisions, decision.Fair) : (interval.after decisions).Ready := by
  induction decisions generalizing interval with
  | nil => exact hready
  | cons decision decisions ih =>
    rw [List.forall_mem_cons] at hfair
    exact ih (ready_follow hready hfair.1) hfair.2

theorem within_after {decisions : List Decision}
    (hfair : ∀ decision ∈ decisions, decision.Fair) :
    (interval.after decisions).Within interval := by
  induction decisions generalizing interval with
  | nil => exact .refl interval
  | cons decision decisions ih =>
    rw [List.forall_mem_cons] at hfair
    exact (ih (ready_follow hready hfair.1) hfair.2).trans (within_follow hready hfair.1)

omit hready

theorem code_eq (interval : Interval) (probability : Nat) (bit : Bool) :
    interval.code probability bit = interval.follow (.adaptive probability bit) := by
  cases bit <;> rfl

theorem ready_code (hready : interval.Ready) {probability : Nat}
    (hfair : RangeCoder.Fair probability) (bit : Bool) : (interval.code probability bit).Ready := by
  rw [code_eq]
  exact ready_follow hready hfair

end Interval

/-- The probabilities of the contexts. -/
abbrev Model : Type := List Nat

def Model.Fair (model : Model) : Prop := ∀ probability ∈ model, RangeCoder.Fair probability

def Model.adapt (model : Model) (context : Nat) (bit : Bool) : Model :=
  model.set context (RangeCoder.adapt (model.getD context 0) bit)

theorem Model.length_adapt (model : Model) (context : Nat) (bit : Bool) :
    (model.adapt context bit).length = model.length := List.length_set

section

variable {model : Model} {context : Nat} (h : model.Fair) (hcontext : context < model.length)
include h hcontext

theorem Model.Fair.getD : RangeCoder.Fair (model.getD context 0) := by
  have hget : model.getD context 0 = model[context] := by
    rw [List.getD_eq_getElem?_getD, List.getElem?_eq_getElem hcontext, Option.getD_some]
  rw [hget]
  exact h _ (List.getElem_mem hcontext)

theorem Model.Fair.adapt (bit : Bool) : (model.adapt context bit).Fair := by
  intro probability hmem
  rcases List.mem_or_eq_of_mem_set hmem with hmem | rfl
  · exact h probability hmem
  · exact fair_adapt (h.getD hcontext) bit

end

def messageInterval : Interval → Model → List (Nat × Bool) → Interval
  | interval, _, [] => interval
  | interval, model, (context, bit) :: rest =>
    messageInterval (interval.code (model.getD context 0) bit) (model.adapt context bit) rest

def Model.decisions : Model → List (Nat × Bool) → List Decision
  | _, [] => []
  | model, (context, bit) :: rest =>
    .adaptive (model.getD context 0) bit :: (model.adapt context bit).decisions rest

theorem messageInterval_eq (interval : Interval) (model : Model) (message : List (Nat × Bool)) :
    messageInterval interval model message = interval.after (model.decisions message) := by
  induction message generalizing interval model with
  | nil => rfl
  | cons event rest ih =>
    rw [messageInterval, Interval.code_eq, ih]
    rfl

def Known (model : Model) (message : List (Nat × Bool)) : Prop :=
  ∀ event ∈ message, event.1 < model.length

section Message

variable {model : Model} {context : Nat} {bit : Bool} {rest : List (Nat × Bool)}
  (hknown : Known model ((context, bit) :: rest))
include hknown

theorem Known.head : context < model.length := hknown _ List.mem_cons_self

theorem Known.tail : Known (model.adapt context bit) rest := by
  intro event hevent
  rw [Model.length_adapt]
  exact hknown event (List.mem_cons_of_mem _ hevent)

end Message

theorem fair_decisions {message : List (Nat × Bool)} {model : Model} (hfair : model.Fair)
    (hknown : Known model message) : ∀ decision ∈ model.decisions message, decision.Fair := by
  induction message generalizing model with
  | nil => exact fun _ h => absurd h List.not_mem_nil
  | cons event rest ih =>
    exact List.forall_mem_cons.mpr
      ⟨hfair.getD hknown.head, ih (hfair.adapt hknown.head event.2) hknown.tail⟩

theorem within_message {message : List (Nat × Bool)} {interval : Interval} {model : Model}
    (hready : interval.Ready) (hfair : model.Fair) (hknown : Known model message) :
    (messageInterval interval model message).Within interval := by
  rw [messageInterval_eq]
  exact Interval.within_after hready (fair_decisions hfair hknown)

abbrev number (bytes : List UInt8) : Nat := numeral 256 UInt8.toNat bytes

theorem number_lt (bytes : List UInt8) : number bytes < 256 ^ bytes.length :=
  numeral_lt (by decide) bytes fun byte _ => byte.toNat_lt

theorem number_append (front back : List UInt8) :
    number (front ++ back) = number front * 256 ^ back.length + number back :=
  numeral_append front back

theorem number_concat (bytes : List UInt8) (byte : UInt8) :
    number (bytes ++ [byte]) = number bytes * 256 + byte.toNat := numeral_concat bytes byte

/-- The stream is the first number of the interval. -/
structure Carries (stream : List UInt8) (final : Interval) : Prop where
  number_eq : number stream = final.low
  length_eq : stream.length = final.shifts + 5
  nonempty : 0 < final.range

/-- A reader with this code and this range stands in front of the bits that narrow
the interval. -/
structure Stands (stream : List UInt8) (interval : Interval) (code range : Nat)
    (unread : List UInt8) : Prop where
  range_eq : range = interval.range
  code_eq : ∃ read, stream = read ++ unread ∧ read.length = interval.shifts + 5 ∧
    code + interval.low = number read

section Reading

variable {stream read unread : List UInt8} {final interval : Interval} {code range : Nat}
  (hcarries : Carries stream final)
include hcarries

theorem number_between (hwithin : final.Within interval) (hsplit : stream = read ++ unread)
    (hlength : read.length = interval.shifts + 5) :
    interval.low ≤ number read ∧ number read < interval.low + interval.range := by
  obtain ⟨more, hshifts, hlow, hhigh⟩ := hwithin
  have hnonempty := hcarries.nonempty
  have hcount := hcarries.length_eq
  have hnumber := hcarries.number_eq
  have hunread := number_lt unread
  have hmore : unread.length = more := by
    rw [hsplit, List.length_append] at hcount
    omega
  rw [hsplit, number_append, hmore] at hnumber
  rw [hmore] at hunread
  have hpositive : 0 < 256 ^ more := Nat.pow_pos (by decide)
  constructor
  · have hlt : interval.low * 256 ^ more < (number read + 1) * 256 ^ more := by
      rw [Nat.add_mul, Nat.one_mul]
      omega
    exact Nat.le_of_lt_succ (Nat.lt_of_mul_lt_mul_right hlt)
  · have hlt : number read * 256 ^ more < (interval.low + interval.range) * 256 ^ more := by
      omega
    exact Nat.lt_of_mul_lt_mul_right hlt

theorem stands_start :
    ∃ read rest, stream = read ++ rest ∧ read.length = 5 ∧
      Stands stream .start (number read) (2 ^ 32 - 1) rest := by
  have hlength : (stream.take 5).length = 5 := by
    rw [List.length_take, hcarries.length_eq]
    omega
  exact ⟨stream.take 5, stream.drop 5, (List.take_append_drop 5 stream).symm, hlength, rfl,
    stream.take 5, (List.take_append_drop 5 stream).symm, hlength, rfl⟩

variable (hstands : Stands stream interval code range unread)
include hstands

theorem Stands.code_lt (hwithin : final.Within interval) : code < range := by
  obtain ⟨hrange, read, hsplit, hlength, hcode⟩ := hstands
  obtain ⟨-, hhigh⟩ := number_between hcarries hwithin hsplit hlength
  omega

theorem Stands.shift (hwithin : final.Within interval.shift) :
    ∃ byte rest, unread = byte :: rest ∧
      Stands stream interval.shift (256 * code + byte.toNat) (256 * range) rest := by
  obtain ⟨hrange, read, hsplit, hlength, hcode⟩ := hstands
  obtain ⟨more, hshifts, -, -⟩ := hwithin
  have hshifts : final.shifts = interval.shifts + 1 + more := hshifts
  have hcount := hcarries.length_eq
  rw [hsplit, List.length_append] at hcount
  match unread, hcount with
  | [], hcount =>
    rw [List.length_nil] at hcount
    omega
  | byte :: rest, hcount =>
    refine ⟨byte, rest, rfl, congrArg (256 * ·) hrange, read ++ [byte], ?_, ?_, ?_⟩
    · rw [hsplit, List.append_assoc]
      rfl
    · rw [List.length_append, hlength]
      rfl
    · rw [number_concat, ← hcode]
      show 256 * code + byte.toNat + 256 * interval.low = _
      omega

theorem Stands.part {offset length : Nat}
    (hwithin : final.Within ⟨interval.low + offset, length, interval.shifts⟩) :
    offset ≤ code ∧ code < offset + length ∧
      Stands stream ⟨interval.low + offset, length, interval.shifts⟩ (code - offset) length
        unread := by
  obtain ⟨-, read, hsplit, hlength, hcode⟩ := hstands
  have hbetween := number_between hcarries hwithin hsplit hlength
  dsimp only at hbetween
  refine ⟨by omega, by omega, rfl, read, hsplit, hlength, ?_⟩
  show code - offset + (interval.low + offset) = number read
  omega

theorem Stands.narrow {bound : Nat} {bit : Bool}
    (hwithin : final.Within (interval.narrow bound bit)) :
    (code < bound ↔ bit = false) ∧
      Stands stream (interval.narrow bound bit) (if bit then code - bound else code)
        (if bit then range - bound else bound) unread := by
  have hrange := hstands.range_eq
  cases bit with
  | false =>
    obtain ⟨-, hlt, hpart⟩ := @Stands.part _ _ _ _ _ _ hcarries hstands 0 _ hwithin
    exact ⟨iff_of_true (by omega) rfl, hpart⟩
  | true =>
    obtain ⟨hle, -, hpart⟩ := hstands.part hcarries hwithin
    rw [hrange]
    exact ⟨iff_of_false (Nat.not_lt.mpr hle) (by decide), hpart⟩

end Reading

end RangeCoder
