/-
Parsers that succeed only by reading.

`Reads` says what a parser does on bytes that it accepts.  `Consumes` says the
converse: wherever the parser succeeds, some bytes before it are read in that
sense.  A parser with this property means the same at every place of every
buffer, which is what moves a payload from one buffer into another.
-/
import Unpackio.Header.Parses
import Unpackio.Header.Results

namespace Unpackio

variable {α β : Type}

theorem readBytes_split_iff {front rest bytes : List UInt8} {length : Nat}
    {reader : BoundedReader} (hlen : (front ++ rest).length < 2 ^ 64) :
    (BoundedReader.split front rest).readBytes length = .ok (bytes, reader) ↔
      ∃ left, rest = bytes ++ left ∧ bytes.length = length ∧
        reader = .split (front ++ bytes) left := by
  constructor
  · intro h
    have hsplit : length ≤ rest.length := by
      refine Nat.le_of_not_lt fun hlt => ?_
      have hshort : ¬(BoundedReader.split front rest).position + length ≤
          (BoundedReader.split front rest).bytes.length := by
        show ¬front.length + length ≤ (front ++ rest).length
        rw [List.length_append]
        omega
      unfold BoundedReader.readBytes at h
      split at h
      · exact (nomatch h)
      · rename_i finish hadd
        obtain ⟨-, rfl⟩ := checkedAdd_eq_some.mp hadd
        rw [dif_neg hshort] at h
        exact (nomatch h)
    have hcount : (rest.take length).length = length := by
      rw [List.length_take, Nat.min_eq_left hsplit]
    have hread := @BoundedReader.readBytes_split front (rest.take length) (rest.drop length)
      (by rwa [List.append_assoc, List.take_append_drop])
    rw [List.take_append_drop, hcount] at hread
    cases h.symm.trans hread
    exact ⟨rest.drop length, (List.take_append_drop _ _).symm, hcount, rfl⟩
  · rintro ⟨left, rfl, rfl, rfl⟩
    exact BoundedReader.readBytes_split (by rwa [List.append_assoc])

/-- Every success of `p` reads a part of what is left. -/
def Consumes (p : Reading α) : Prop :=
  ∀ front rest, (front ++ rest).length < 2 ^ 64 → ∀ a reader,
    (p (.split front rest)).granted = .ok (a, reader) →
      ∃ written left, rest = written ++ left ∧ Reads p written a ∧
        reader = .split (front ++ written) left

namespace Consumes

theorem pure (a : α) : Consumes (Pure.pure a : Reading α) := by
  intro front rest _ b reader h
  cases Reading.pure_eq_ok.mp h
  exact ⟨[], rest, rfl, Reads.pure a, by rw [List.append_nil]⟩

theorem bind {p : Reading α} {f : α → Reading β} (hp : Consumes p) (hf : ∀ a, Consumes (f a)) :
    Consumes (p >>= f) := by
  intro front rest hlen b reader h
  obtain ⟨a, reader', ha, hb⟩ := Reading.bind_eq_ok.mp h
  obtain ⟨first, left, rfl, hfirst, rfl⟩ := hp front rest hlen a reader' ha
  obtain ⟨second, left', rfl, hsecond, rfl⟩ :=
    hf a (front ++ first) left (by simpa only [List.append_assoc] using hlen) b reader hb
  exact ⟨first ++ second, left', (List.append_assoc _ _ _).symm, Reads.bind hfirst hsecond,
    by rw [List.append_assoc]⟩

theorem map {p : Reading α} (f : α → β) (hp : Consumes p) : Consumes (f <$> p) := by
  rw [← bind_pure_comp]
  exact bind hp fun a => pure (f a)

theorem checkpoint (units : Nat) : Consumes (liftM (checkpoint units) : Reading Unit) := by
  intro front rest _ a reader h
  obtain rfl := Reading.checkpoint_eq_ok.mp h
  exact ⟨[], rest, rfl, Reads.lift (checkpoint_granted units), by rw [List.append_nil]⟩

theorem ite {c : Prop} [Decidable c] {p q : Reading α} (hp : Consumes p) (hq : Consumes q) :
    Consumes (if c then p else q) := by
  by_cases h : c
  · rwa [if_pos h]
  · rwa [if_neg h]

theorem readBytes (length : Nat) :
    Consumes (reading fun reader => reader.readBytes length) := by
  intro front rest hlen bytes reader h
  obtain ⟨left, rfl, rfl, rfl⟩ := (readBytes_split_iff hlen).mp h
  exact ⟨bytes, left, rfl, Reads.readBytes bytes, rfl⟩

theorem finish_iff {p : Reading α} (hp : Consumes p) {data : List UInt8}
    (hlen : data.length < 2 ^ 64) {a : α} {detail : String} :
    (∃ reader, (p (.new data)).granted = .ok (a, reader) ∧ reader.finish detail = .ok ()) ↔
      Reads p data a := by
  rw [BoundedReader.new_eq_split]
  constructor
  · rintro ⟨reader, hok, hfinish⟩
    obtain ⟨written, left, rfl, hreads, rfl⟩ := hp [] data hlen a reader hok
    rw [List.nil_append, BoundedReader.finish_split] at hfinish
    by_cases hleft : left = []
    · rwa [hleft, List.append_nil]
    · rw [if_neg hleft] at hfinish
      exact (nomatch hfinish)
  · intro hreads
    have hok := hreads [] [] (by simpa using hlen)
    rw [List.append_nil] at hok
    exact ⟨_, hok, BoundedReader.finish_split _ _ _⟩

end Consumes

theorem consumes_readBytes_map (length : Nat) (decode : List UInt8 → α) :
    Consumes (reading fun reader => do
      let (bytes, reader) ← reader.readBytes length
      return (decode bytes, reader)) := by
  have hmap : (reading fun reader => do
      let (bytes, reader) ← reader.readBytes length
      return (decode bytes, reader)) =
        decode <$> reading fun reader => reader.readBytes length := by
    funext reader
    rw [← bind_pure_comp]
    show Prog.done (reader.readBytes length >>= _) = Prog.bind (.done (reader.readBytes length)) _
    cases reader.readBytes length <;> rfl
  rw [hmap]
  exact Consumes.map decode (Consumes.readBytes length)

end Unpackio
