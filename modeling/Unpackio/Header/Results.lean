/-
What a header parser that succeeds has done: its steps and the counts of the
records it yields.
-/
import Unpackio.Raw

namespace Unpackio

variable {α β : Type}

namespace Reading

variable {reader : BoundedReader}

theorem bind_eq_ok {p : Reading α} {f : α → Reading β} {y : β × BoundedReader} :
    ((p >>= f) reader).granted = .ok y ↔
      ∃ a reader', (p reader).granted = .ok (a, reader') ∧ (f a reader').granted = .ok y := by
  show ((p reader >>= fun x => f x.1 x.2).granted = .ok y) ↔ _
  rw [Prog.granted_bind, Except.bind_eq_ok, Prod.exists]

theorem pure_eq_ok {a : α} {y : α × BoundedReader} :
    ((pure a : Reading α) reader).granted = .ok y ↔ (a, reader) = y := by
  show (Except.ok (a, reader) = Except.ok y) ↔ _
  rw [Except.ok.injEq]

theorem liftExcept_eq_ok {m : Except Error α} {y : α × BoundedReader} :
    ((liftM m : Reading α) reader).granted = .ok y ↔ m = .ok y.1 ∧ reader = y.2 := by
  cases m with
  | error e => exact ⟨fun h => (nomatch h), fun h => (nomatch h.1)⟩
  | ok a =>
    show (Except.ok (a, reader) = Except.ok y) ↔ _
    rw [Except.ok.injEq, Prod.ext_iff, Except.ok.injEq]

theorem checkpoint_eq_ok {units : Nat} {y : Unit × BoundedReader} :
    ((liftM (checkpoint units) : Reading Unit) reader).granted = .ok y ↔ reader = y.2 := by
  show (Except.ok ((), reader) = Except.ok y) ↔ _
  rw [Except.ok.injEq, Prod.ext_iff]
  exact and_iff_right rfl

end Reading

namespace Parsing

variable {state : ParseState} {reader : BoundedReader}

theorem bind_eq_ok {p : Parsing α} {f : α → Parsing β} {y : (β × ParseState) × BoundedReader} :
    ((p >>= f) state reader).granted = .ok y ↔
      ∃ a state' reader', (p state reader).granted = .ok ((a, state'), reader') ∧
        (f a state' reader').granted = .ok y := by
  refine (Reading.bind_eq_ok (p := p state) (f := fun x => f x.1 x.2)).trans ?_
  rw [Prod.exists]

variable {y : (α × ParseState) × BoundedReader}

theorem pure_eq_ok {a : α} :
    ((pure a : Parsing α) state reader).granted = .ok y ↔ ((a, state), reader) = y :=
  Reading.pure_eq_ok

theorem lift_eq_ok {p : Reading α} :
    ((liftM p : Parsing α) state reader).granted = .ok y ↔
      (p reader).granted = .ok (y.1.1, y.2) ∧ state = y.1.2 := by
  refine (Reading.bind_eq_ok (p := p) (f := fun a => pure (a, state))).trans ?_
  simp only [Reading.pure_eq_ok]
  constructor
  · rintro ⟨a, reader', hp, rfl⟩
    exact ⟨hp, rfl⟩
  · rintro ⟨hp, rfl⟩
    exact ⟨_, _, hp, rfl⟩

theorem liftExcept_eq_ok {m : Except Error α} :
    ((liftM m : Parsing α) state reader).granted = .ok y ↔
      m = .ok y.1.1 ∧ state = y.1.2 ∧ reader = y.2 := by
  cases m with
  | error e => exact ⟨fun h => (nomatch h), fun h => (nomatch h.1)⟩
  | ok a =>
    show (Except.ok ((a, state), reader) = Except.ok y) ↔ _
    rw [Except.ok.injEq, Prod.ext_iff, Prod.ext_iff, Except.ok.injEq, and_assoc]

end Parsing

variable {reader' : BoundedReader}

theorem length_repeatReading {p : Reading α} (count : Nat) {reader : BoundedReader}
    {values : List α} (h : (repeatReading p count reader).granted = .ok (values, reader')) :
    values.length = count := by
  induction count generalizing reader values with
  | zero =>
    cases Reading.pure_eq_ok.mp h
    rfl
  | succ count ih =>
    obtain ⟨a, _, -, h⟩ := Reading.bind_eq_ok.mp h
    obtain ⟨rest, _, hrest, h⟩ := Reading.bind_eq_ok.mp h
    cases Reading.pure_eq_ok.mp h
    rw [List.length_cons, ih hrest]

theorem length_parseBitsLoop (count byte mask : Nat) {reader : BoundedReader} {bits : List Bool}
    (h : (parseBitsLoop count byte mask reader).granted = .ok (bits, reader')) :
    bits.length = count := by
  induction count generalizing byte mask reader bits with
  | zero =>
    cases Reading.pure_eq_ok.mp h
    rfl
  | succ count ih =>
    unfold parseBitsLoop at h
    by_cases hmask : mask = 0
    · rw [if_pos hmask] at h
      obtain ⟨_, _, -, h⟩ := Reading.bind_eq_ok.mp h
      obtain ⟨rest, _, hrest, h⟩ := Reading.bind_eq_ok.mp h
      cases Reading.pure_eq_ok.mp h
      rw [List.length_cons, ih _ _ hrest]
    · rw [if_neg hmask] at h
      obtain ⟨rest, _, hrest, h⟩ := Reading.bind_eq_ok.mp h
      cases Reading.pure_eq_ok.mp h
      rw [List.length_cons, ih _ _ hrest]

theorem length_parseBits {count : Nat} {reader : BoundedReader} {bits : List Bool}
    (h : (parseBits count reader).granted = .ok (bits, reader')) : bits.length = count := by
  obtain ⟨_, _, -, h⟩ := Reading.bind_eq_ok.mp h
  exact length_parseBitsLoop _ _ _ h

theorem parseCoders_totals {limits : Limits} (count inputs outputs : Nat) {reader : BoundedReader}
    {coders : List RawCoder} {inputs' outputs' : Nat}
    (h : (parseCoders limits count inputs outputs reader).granted =
      .ok ((coders, inputs', outputs'), reader')) :
    inputs + (coders.map RawCoder.inputStreams).sum = inputs' ∧
      outputs + (coders.map RawCoder.outputStreams).sum = outputs' := by
  induction count generalizing inputs outputs reader coders with
  | zero =>
    cases Reading.pure_eq_ok.mp h
    exact ⟨rfl, rfl⟩
  | succ count ih =>
    obtain ⟨coder, _, -, h⟩ := Reading.bind_eq_ok.mp h
    obtain ⟨_, _, hin, h⟩ := Reading.bind_eq_ok.mp h
    obtain ⟨_, _, hout, h⟩ := Reading.bind_eq_ok.mp h
    obtain ⟨⟨rest, _, _⟩, _, hrest, h⟩ := Reading.bind_eq_ok.mp h
    cases Reading.pure_eq_ok.mp h
    obtain ⟨hi, ho⟩ := ih _ _ hrest
    obtain ⟨-, heqIn⟩ :=
      checkedAdd_eq_ok.mp (Reading.liftExcept_eq_ok.mp hin).1
    obtain ⟨-, heqOut⟩ :=
      checkedAdd_eq_ok.mp (Reading.liftExcept_eq_ok.mp hout).1
    rw [List.map_cons, List.sum_cons, List.map_cons, List.sum_cons]
    constructor <;> omega

theorem parsePackedIndices_counts {packedStreams : Nat} {reader : BoundedReader}
    {indices : Option (List Nat)}
    (h : (parsePackedIndices packedStreams reader).granted = .ok (indices, reader')) :
    (indices = none → packedStreams = 1) ∧
      ∀ listed, indices = some listed → listed.length = packedStreams := by
  unfold parsePackedIndices at h
  by_cases hone : packedStreams = 1
  · rw [if_pos hone] at h
    cases Reading.pure_eq_ok.mp h
    exact ⟨fun _ => hone, fun _ hsome => (nomatch hsome)⟩
  · rw [if_neg hone] at h
    obtain ⟨values, _, hvalues, h⟩ := Reading.bind_eq_ok.mp h
    cases Reading.pure_eq_ok.mp h
    refine ⟨fun hnone => (nomatch hnone), fun listed hlisted => ?_⟩
    cases hlisted
    exact length_repeatReading _ hvalues

namespace RawFolder

/-- The ports of a folder are those of its coders. -/
structure PortTotals (raw : RawFolder) : Prop where
  inputs_eq : (raw.coders.map RawCoder.inputStreams).sum = raw.inputStreams
  outputs_eq : (raw.coders.map RawCoder.outputStreams).sum = raw.outputStreams
  ports_lt : raw.inputStreams + raw.outputStreams < 2 ^ 64

/-- The counts of a parsed folder. -/
structure PortCounts (raw : RawFolder) : Prop extends raw.PortTotals where
  bindPairs_length : raw.bindPairs.length + 1 = raw.outputStreams
  packed_eq : raw.packedStreams + raw.bindPairs.length = raw.inputStreams
  packedIndices_none : raw.packedIndices = none → raw.packedStreams = 1
  packedIndices_length : ∀ indices, raw.packedIndices = some indices →
    indices.length = raw.packedStreams

end RawFolder

theorem parseFolder_portCounts {limits : Limits} {state state' : ParseState}
    {reader : BoundedReader} {raw : RawFolder}
    (h : (parseFolder limits state reader).granted = .ok ((raw, state'), reader')) :
    raw.PortCounts := by
  obtain ⟨coderCount, _, _, -, h⟩ := Parsing.bind_eq_ok.mp h
  obtain ⟨_, _, _, -, h⟩ := Parsing.bind_eq_ok.mp h
  obtain ⟨_, _, _, -, h⟩ := Parsing.bind_eq_ok.mp h
  obtain ⟨_, _, _, -, h⟩ := Parsing.bind_eq_ok.mp h
  obtain ⟨⟨coders, inputs, outputs⟩, _, _, hcoders, h⟩ := Parsing.bind_eq_ok.mp h
  obtain ⟨_, _, _, hports, h⟩ := Parsing.bind_eq_ok.mp h
  obtain ⟨_, _, _, -, h⟩ := Parsing.bind_eq_ok.mp h
  obtain ⟨_, _, _, -, h⟩ := Parsing.bind_eq_ok.mp h
  obtain ⟨_, _, _, -, h⟩ := Parsing.bind_eq_ok.mp h
  obtain ⟨bindCount, _, _, hbindCount, h⟩ := Parsing.bind_eq_ok.mp h
  obtain ⟨bindPairs, _, _, hpairs, h⟩ := Parsing.bind_eq_ok.mp h
  obtain ⟨packedStreams, _, _, hpackedCount, h⟩ := Parsing.bind_eq_ok.mp h
  obtain ⟨_, _, _, -, h⟩ := Parsing.bind_eq_ok.mp h
  obtain ⟨packedIndices, _, _, hpacked, h⟩ := Parsing.bind_eq_ok.mp h
  cases Parsing.pure_eq_ok.mp h
  obtain ⟨hin, hout⟩ := parseCoders_totals _ _ _ (Parsing.lift_eq_ok.mp hcoders).1
  obtain ⟨hlt, -⟩ :=
    checkedAdd_eq_ok.mp (Parsing.liftExcept_eq_ok.mp hports).1
  obtain ⟨hone, hbind⟩ :=
    checkedSub_eq_ok.mp (Parsing.liftExcept_eq_ok.mp hbindCount).1
  have hlength := length_repeatReading _ (Parsing.lift_eq_ok.mp hpairs).1
  obtain ⟨hle, hsub⟩ :=
    checkedSub_eq_ok.mp (Parsing.liftExcept_eq_ok.mp hpackedCount).1
  obtain ⟨hnone, hsome⟩ := parsePackedIndices_counts (Parsing.lift_eq_ok.mp hpacked).1
  rw [Nat.zero_add] at hin hout
  simp only at hbind hlength hsub
  exact ⟨⟨hin, hout, hlt⟩, by simp only; omega, by simp only; omega, hnone, hsome⟩

end Unpackio
