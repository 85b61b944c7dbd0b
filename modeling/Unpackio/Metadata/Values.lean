/-
The properties with a definition bitmap as bytes: the values of the defined
files, read inline by `validate.rs` and from an additional stream by
`metadata.rs`.
-/
import Unpackio.Metadata.Names

namespace Unpackio

open Reading (bind_eq_ok pure_eq_ok)

variable {α : Type}

theorem consumes_readDefinedValues {readValue : Reading α} (hread : Consumes readValue)
    (defined : List Bool) : Consumes (readDefinedValues readValue defined) := by
  induction defined with
  | nil => exact .pure []
  | cons isDefined defined ih =>
    refine .bind (.checkpoint 1) fun _ => .bind ?_ fun value =>
      .bind ih fun values => .pure _
    exact .ite (.map some hread) (.pure none)

variable {defined : List Bool} {reader reader' : BoundedReader}

theorem length_readDefinedValues {readValue : Reading α} {values : List (Option α)}
    (h : (readDefinedValues readValue defined reader).granted = .ok (values, reader')) :
    values.length = defined.length := by
  induction defined generalizing reader values with
  | nil =>
    cases pure_eq_ok.mp h
    rfl
  | cons isDefined defined ih =>
    obtain ⟨_, _, -, h⟩ := bind_eq_ok.mp h
    obtain ⟨value, _, -, h⟩ := bind_eq_ok.mp h
    obtain ⟨rest, _, hrest, h⟩ := bind_eq_ok.mp h
    cases pure_eq_ok.mp h
    rw [List.length_cons, List.length_cons, ih hrest]

theorem parseDefinedValues_external {readValue : Reading α} {count index : Nat}
    {bits indexBytes : List UInt8} {flag : UInt8}
    (hbits : Reads (parseOptionalBits count) bits defined) (hflag : flag ≠ 0)
    (hindex : Reads readUint indexBytes index)
    (hlen : (bits ++ flag :: indexBytes).length < 2 ^ 64) :
    (parseDefinedValues (bits ++ flag :: indexBytes) count readValue).granted =
      .ok (.external index defined) := by
  have hdefined := hbits [] (flag :: indexBytes) hlen
  have hexternal := reads_readU8 flag bits indexBytes (by simpa using hlen)
  have hreads := hindex (bits ++ [flag]) [] (by simpa using hlen)
  rw [List.append_nil] at hreads
  unfold parseDefinedValues
  rw [Prog.granted_bind, show (parseOptionalBits count (.new (bits ++ flag :: indexBytes))).granted
    = _ from hdefined, Except.ok_bind]
  simp only [List.nil_append]
  rw [Prog.granted_bind, show (readU8 (.split bits (flag :: indexBytes))).granted =
    _ from hexternal,
    Except.ok_bind]
  simp only [if_pos hflag]
  rw [Prog.granted_bind, hreads, Except.ok_bind, Prog.granted_lift_bind, BoundedReader.finish_split,
    if_pos rfl]
  rfl

theorem parseDefinedValues_inline_iff {readValue : Reading α} (hread : Consumes readValue)
    {count : Nat} {bits payload : List UInt8} (hbits : Reads (parseOptionalBits count) bits defined)
    (hlen : (bits ++ 0 :: payload).length < 2 ^ 64) {values : PropertyValues α} :
    (parseDefinedValues (bits ++ 0 :: payload) count readValue).granted = .ok values ↔
      ∃ items, Reads (readDefinedValues readValue defined) payload items ∧
        values = .inline items := by
  have hdefined := hbits [] (0 :: payload) hlen
  have hexternal := reads_readU8 0 bits payload (by simpa using hlen)
  have hlen' : (bits ++ [0] ++ payload).length < 2 ^ 64 := by simpa using hlen
  unfold parseDefinedValues
  rw [Prog.granted_bind, show (parseOptionalBits count (.new (bits ++ 0 :: payload))).granted
    = _ from hdefined, Except.ok_bind]
  simp only [List.nil_append]
  rw [Prog.granted_bind, show (readU8 (.split bits (0 :: payload))).granted = _ from hexternal,
    Except.ok_bind]
  simp only [ne_eq, not_true_eq_false, if_false]
  constructor
  · intro h
    obtain ⟨⟨items, _⟩, hitems, h⟩ := Prog.granted_bind_eq_ok.mp h
    obtain ⟨_, hfinish, h⟩ := Prog.granted_bind_eq_ok.mp h
    cases Prog.granted_pure_eq_ok.mp h
    obtain ⟨written, left, rfl, hreads, rfl⟩ :=
      consumes_readDefinedValues hread defined _ _ hlen' items _ hitems
    have hfinish := Prog.granted_lift_eq_ok.mp hfinish
    rw [BoundedReader.finish_split] at hfinish
    obtain rfl : left = [] := Decidable.byContradiction fun hleft => by
      rw [if_neg hleft] at hfinish
      exact (nomatch hfinish)
    exact ⟨items, by rwa [List.append_nil], rfl⟩
  · rintro ⟨items, hitems, rfl⟩
    have hreads := hitems (bits ++ [0]) [] (by rwa [List.append_nil])
    rw [List.append_nil] at hreads
    rw [Prog.granted_bind, hreads, Except.ok_bind, Prog.granted_lift_bind,
      BoundedReader.finish_split, if_pos rfl]
    rfl

/-! ## The external property -/

def withValues (assign : FileEntry → α → FileEntry) (entries : List FileEntry)
    (values : List (Option α)) : List FileEntry :=
  entries.zipWith (fun entry value => value.elim entry (assign entry)) values

theorem readDefinedValue_true_iff {readValue : Reading α} {value : Option α} :
    (readDefinedValue readValue true reader).granted = .ok (value, reader') ↔
      ∃ item, (readValue reader).granted = .ok (item, reader') ∧ value = some item := by
  rw [readDefinedValue, if_pos rfl, ← bind_pure_comp]
  constructor
  · intro h
    obtain ⟨item, _, hitem, h⟩ := bind_eq_ok.mp h
    cases pure_eq_ok.mp h
    exact ⟨item, hitem, rfl⟩
  · rintro ⟨item, hitem, rfl⟩
    exact bind_eq_ok.mpr ⟨item, reader', hitem, rfl⟩

theorem readDefinedValues_cons_iff {readValue : Reading α} {isDefined : Bool}
    {values : List (Option α)} :
    (readDefinedValues readValue (isDefined :: defined) reader).granted = .ok (values, reader') ↔
      ∃ value tail next, (readDefinedValue readValue isDefined reader).granted = .ok (value, next) ∧
        (readDefinedValues readValue defined next).granted = .ok (tail, reader') ∧
        values = value :: tail := by
  constructor
  · intro h
    obtain ⟨_, _, hcheck, h⟩ := bind_eq_ok.mp h
    obtain rfl := Reading.checkpoint_eq_ok.mp hcheck
    obtain ⟨value, next, hvalue, h⟩ := bind_eq_ok.mp h
    obtain ⟨tail, _, htail, h⟩ := bind_eq_ok.mp h
    cases pure_eq_ok.mp h
    exact ⟨value, tail, next, hvalue, htail, rfl⟩
  · rintro ⟨value, tail, next, hvalue, htail, rfl⟩
    refine bind_eq_ok.mpr ⟨(), reader, rfl, ?_⟩
    refine bind_eq_ok.mpr ⟨value, next, hvalue, ?_⟩
    exact bind_eq_ok.mpr ⟨tail, reader', htail, pure_eq_ok.mpr rfl⟩

section

variable {σ : Type} {readValue : Reading α} {assign : FileEntry → α → FileEntry}
  {apply : FileEntry → Reading FileEntry}
  (happly : ∀ entry reader, (apply entry reader).granted =
    (readValue reader).granted >>= fun y => .ok (assign entry y.1, y.2))
include happly

theorem applyDefined_keeping_cons_iff {entry : FileEntry} {isDefined : Bool}
    {pairs : List (FileEntry × Bool)} {result : List FileEntry} {total finalTotal : σ} :
    (applyDefined (keeping apply) ((entry, isDefined) :: pairs) total reader).granted =
        .ok ((result, finalTotal), reader') ↔
      ∃ value others next, (readDefinedValue readValue isDefined reader).granted =
          .ok (value, next) ∧
        (applyDefined (keeping apply) pairs total next).granted =
          .ok ((others, finalTotal), reader') ∧
        result = value.elim entry (assign entry) :: others := by
  rw [applyDefined]
  cases isDefined with
  | false =>
    constructor
    · intro h
      obtain ⟨_, _, hcheck, h⟩ := bind_eq_ok.mp h
      obtain rfl := Reading.checkpoint_eq_ok.mp hcheck
      rw [if_neg Bool.false_ne_true] at h
      obtain ⟨⟨others, _⟩, _, hothers, h⟩ := bind_eq_ok.mp h
      cases pure_eq_ok.mp h
      exact ⟨none, others, reader, rfl, hothers, rfl⟩
    · rintro ⟨value, others, next, hvalue, hothers, rfl⟩
      cases pure_eq_ok.mp hvalue
      refine bind_eq_ok.mpr ⟨(), reader, rfl, ?_⟩
      rw [if_neg Bool.false_ne_true]
      exact bind_eq_ok.mpr ⟨(others, finalTotal), reader', hothers, rfl⟩
  | true =>
    constructor
    · intro h
      obtain ⟨_, _, hcheck, h⟩ := bind_eq_ok.mp h
      obtain rfl := Reading.checkpoint_eq_ok.mp hcheck
      rw [if_pos rfl] at h
      obtain ⟨⟨changed, _⟩, next, hchanged, h⟩ := bind_eq_ok.mp h
      obtain ⟨⟨others, _⟩, _, hothers, h⟩ := bind_eq_ok.mp h
      cases pure_eq_ok.mp h
      obtain ⟨_, _, happlied, hkept⟩ := bind_eq_ok.mp hchanged
      cases pure_eq_ok.mp hkept
      rw [happly] at happlied
      obtain ⟨⟨value, next⟩, hvalue, happlied⟩ := Except.bind_eq_ok.mp happlied
      cases happlied
      exact ⟨some value, others, next, readDefinedValue_true_iff.mpr ⟨value, hvalue, rfl⟩,
        hothers, rfl⟩
    · rintro ⟨value, others, next, hvalue, hothers, rfl⟩
      obtain ⟨value, hread, rfl⟩ := readDefinedValue_true_iff.mp hvalue
      have hchanged : (apply entry reader).granted = .ok (assign entry value, next) := by
        rw [happly, hread]
        rfl
      refine bind_eq_ok.mpr ⟨(), reader, rfl, ?_⟩
      rw [if_pos rfl]
      refine bind_eq_ok.mpr ⟨(assign entry value, total), next, ?_, ?_⟩
      · exact bind_eq_ok.mpr ⟨assign entry value, next, hchanged, rfl⟩
      · exact bind_eq_ok.mpr ⟨(others, finalTotal), reader', hothers, rfl⟩

theorem applyValues_iff {entries result : List FileEntry}
    (hlength : entries.length = defined.length) {total finalTotal : σ} :
    (applyDefined (keeping apply) (entries.zip defined) total reader).granted =
        .ok ((result, finalTotal), reader') ↔
      finalTotal = total ∧ ∃ values,
        (readDefinedValues readValue defined reader).granted = .ok (values, reader') ∧
          result = withValues assign entries values := by
  induction entries generalizing defined reader result with
  | nil =>
    obtain rfl : defined = [] := List.length_eq_zero_iff.mp hlength.symm
    refine pure_eq_ok.trans ?_
    constructor
    · rintro h
      cases h
      exact ⟨rfl, [], rfl, rfl⟩
    · rintro ⟨rfl, values, hvalues, rfl⟩
      cases pure_eq_ok.mp hvalues
      rfl
  | cons entry entries ih =>
    cases defined with
    | nil => exact (nomatch hlength)
    | cons isDefined defined =>
      rw [List.zip_cons_cons, applyDefined_keeping_cons_iff happly]
      simp only [readDefinedValues_cons_iff]
      constructor
      · rintro ⟨value, others, next, hvalue, hothers, rfl⟩
        obtain ⟨rfl, tail, htail, rfl⟩ := (ih (Nat.succ.inj hlength)).mp hothers
        exact ⟨rfl, value :: tail, ⟨value, tail, next, hvalue, htail, rfl⟩, rfl⟩
      · rintro ⟨rfl, values, ⟨value, tail, next, hvalue, htail, rfl⟩, rfl⟩
        exact ⟨value, _, next, hvalue,
          (ih (Nat.succ.inj hlength)).mpr ⟨rfl, tail, htail, rfl⟩, rfl⟩

end

end Unpackio
