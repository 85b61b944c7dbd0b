/-
Copies from an output to its own end, and the LZ4 block format, which is made of them.

A block is a row of sequences, each some literals and a match, and the last one has
literals only.  A length from fifteen on goes on behind its half of the token.
-/
import Mathlib.Data.List.Basic
import Mathlib.Algebra.GroupWithZero.Nat

namespace Lz77

/-- The bytes of a match: the last `distance` bytes of the output, over and over. -/
def copied (output : List UInt8) (distance length : Nat) : List UInt8 :=
  (List.range length).map fun i => output.getD (output.length - distance + i % distance) 0

@[simp] theorem length_copied (output : List UInt8) (distance length : Nat) :
    (copied output distance length).length = length := by
  rw [copied, List.length_map, List.length_range]

theorem copied_succ (output : List UInt8) (distance length : Nat) :
    copied output distance (length + 1) = copied output distance length ++
      [output.getD (output.length - distance + length % distance) 0] := by
  rw [copied, List.range_succ, List.map_append, List.map_singleton, copied]

theorem copied_source {output : List UInt8} {distance : Nat} (hpos : 1 ≤ distance)
    (hle : distance ≤ output.length) (count : Nat) :
    (output ++ copied output distance count)[output.length + count - distance]? =
      some (output.getD (output.length - distance + count % distance) 0) := by
  by_cases hfirst : count < distance
  · have hlt : output.length - distance + count < output.length := by omega
    rw [List.getElem?_append_left (by omega), Nat.mod_eq_of_lt hfirst,
      show output.length + count - distance = output.length - distance + count by omega,
      List.getD_eq_getElem?_getD, List.getElem?_eq_getElem hlt, Option.getD_some]
  · have hmod : (count - distance) % distance = count % distance :=
      (Nat.mod_eq_sub_mod (by omega)).symm
    have hrange : (List.range count)[count - distance]? = some (count - distance) :=
      List.getElem?_range (by omega)
    rw [List.getElem?_append_right (by omega),
      show output.length + count - distance - output.length = count - distance by omega, copied,
      List.getElem?_map, hrange, Option.map_some, hmod]

theorem loop_copied {ρ : Type} {f : Nat → List UInt8 → ρ} {g : List UInt8 → ρ}
    {distance : Nat} (hzero : ∀ output, f 0 output = g output)
    (hsucc : ∀ count output byte, distance ≤ output.length →
      output[output.length - distance]? = some byte →
        f (count + 1) output = f count (output ++ [byte]))
    {output : List UInt8} (hpos : 1 ≤ distance) (hle : distance ≤ output.length) (count : Nat) :
    f count output = g (output ++ copied output distance count) := by
  have hrun : ∀ count done, f count (output ++ copied output distance done) =
      g (output ++ copied output distance (done + count)) := by
    intro count
    induction count with
    | zero => exact fun done => hzero _
    | succ count ih =>
      intro done
      have hlength : (output ++ copied output distance done).length = output.length + done := by
        rw [List.length_append, length_copied]
      have hrest := ih (done + 1)
      rw [copied_succ, ← List.append_assoc, Nat.add_right_comm, Nat.add_assoc] at hrest
      rw [hsucc count _ _ (by omega) (hlength ▸ copied_source hpos hle done), hrest]
  have hstart := hrun count 0
  rwa [show copied output distance 0 = [] from rfl, List.append_nil, Nat.zero_add] at hstart

end Lz77

namespace Lz4Block

def token (literals matched : Nat) : UInt8 := UInt8.ofNat (16 * min literals 15 + min matched 15)

def lengthBytes (length : Nat) : List UInt8 :=
  if length < 15 then []
  else List.replicate ((length - 15) / 255) 255 ++ [UInt8.ofNat ((length - 15) % 255)]

def offsetBytes (offset : Nat) : List UInt8 := [UInt8.ofNat offset, UInt8.ofNat (offset / 256)]

/-- `matched` repeats what is so many bytes back, its own bytes included. -/
def Repeats (offset : Nat) (written matched : List UInt8) : Prop :=
  ∀ i < matched.length, (written ++ matched)[written.length + i]? =
    (written ++ matched)[written.length + i - offset]?

/-- The bytes of a block from a sequence on, behind what is written, and the output. -/
inductive Expands : List UInt8 → List UInt8 → List UInt8 → Prop
  | last (written literals : List UInt8) :
      Expands written (token literals.length 0 :: (lengthBytes literals.length ++ literals))
        (written ++ literals)
  | sequence (written literals matched : List UInt8) (offset : Nat) {rest output : List UInt8} :
      0 < offset → offset < 2 ^ 16 → offset ≤ (written ++ literals).length →
      4 ≤ matched.length → Repeats offset (written ++ literals) matched →
      Expands (written ++ literals ++ matched) rest output →
      Expands written (token literals.length (matched.length - 4) ::
        (lengthBytes literals.length ++ literals ++ offsetBytes offset ++
          lengthBytes (matched.length - 4) ++ rest)) output

/-- The most bytes that a compressor needs for so many. -/
def compressBound (length : Nat) : Nat := length + length / 255 + 16

theorem Expands.ne_nil {written block output : List UInt8} (h : Expands written block output) :
    block ≠ [] := by
  cases h with
  | last => exact List.cons_ne_nil _ _
  | sequence => exact List.cons_ne_nil _ _

def literalBlock (chunk : List UInt8) : List UInt8 :=
  token chunk.length 0 :: (lengthBytes chunk.length ++ chunk)

theorem expands_literalBlock (chunk : List UInt8) : Expands [] (literalBlock chunk) chunk :=
  .last [] chunk

theorem length_lengthBytes (length : Nat) :
    (lengthBytes length).length = if length < 15 then 0 else (length - 15) / 255 + 1 := by
  rw [lengthBytes]
  split
  · rfl
  · rw [List.length_append, List.length_replicate, List.length_singleton]

theorem length_literalBlock (chunk : List UInt8) :
    (literalBlock chunk).length =
      (if chunk.length < 15 then 0 else (chunk.length - 15) / 255 + 1) + chunk.length + 1 := by
  rw [literalBlock, List.length_cons, List.length_append, length_lengthBytes]

end Lz4Block
