/-
The expansion of a list of LZW operations.

A dictionary holds the strings learned since the last reset and the string put
out last.  Every string put out but the first after a reset makes the dictionary
learn the string before it with the first symbol of this one, while there is
room.
-/
import Mathlib.Data.List.Basic

namespace Lzw

variable {α : Type}

/-- How an operation names a string. -/
inductive Ref (α : Type) where
  | literal (symbol : α)
  /-- A string the dictionary holds. -/
  | entry (index : Nat)
  /-- The string that the dictionary is about to learn. -/
  | fresh
  deriving DecidableEq, Repr

inductive Op (α : Type) where
  | put (ref : Ref α)
  | clear
  deriving DecidableEq, Repr

structure Dictionary (α : Type) where
  entries : List (List α)
  previous : Option (List α)
  deriving DecidableEq, Repr

namespace Dictionary

def empty : Dictionary α := ⟨[], none⟩

/-- The string that a reference names, where there is one.  A dictionary with
`capacity` strings is full and learns no fresh one. -/
def lookup (capacity : Nat) (dictionary : Dictionary α) : Ref α → Option (List α)
  | .literal symbol => some [symbol]
  | .entry index => dictionary.entries[index]?
  | .fresh => do
    let previous ← dictionary.previous
    if dictionary.entries.length < capacity then some (previous ++ previous.take 1) else none

def learn (capacity : Nat) (dictionary : Dictionary α) (string : List α) : Dictionary α where
  entries :=
    match dictionary.previous with
    | some previous =>
      if dictionary.entries.length < capacity then
        dictionary.entries ++ [previous ++ string.take 1]
      else dictionary.entries
    | none => dictionary.entries
  previous := some string

theorem length_learn (capacity : Nat) (dictionary : Dictionary α) (string : List α) :
    (dictionary.learn capacity string).entries.length =
      if dictionary.previous.isSome = true ∧ dictionary.entries.length < capacity then
        dictionary.entries.length + 1 else dictionary.entries.length := by
  rw [learn]
  cases dictionary.previous with
  | none => rfl
  | some previous =>
    by_cases hroom : dictionary.entries.length < capacity
    · rw [if_pos ⟨rfl, hroom⟩]
      simp only [if_pos hroom, List.length_append, List.length_singleton]
    · rw [if_neg fun hboth => hroom hboth.2]
      simp only [if_neg hroom]

end Dictionary

/-- What the operations put out, if each is legal.  Resets are legal where
`resets` says so. -/
def expand (capacity : Nat) (resets : Bool) : Dictionary α → List (Op α) → Option (List α)
  | _, [] => some []
  | dictionary, .put ref :: ops => do
    let string ← dictionary.lookup capacity ref
    let rest ← expand capacity resets (dictionary.learn capacity string) ops
    return string ++ rest
  | _, .clear :: ops => if resets then expand capacity resets .empty ops else none

section Codes

/- Symbols have codes of their own, one code stands for a reset, and learned
strings are numbered from `first` on. -/
variable (symbolCode : α → Nat) (clearCode first capacity : Nat)

def Ref.code (learned : Nat) : Ref α → Nat
  | .literal symbol => symbolCode symbol
  | .entry index => first + index
  | .fresh => first + learned

def codes : Dictionary α → List (Op α) → List Nat
  | _, [] => []
  | dictionary, .put ref :: ops =>
    ref.code symbolCode first dictionary.entries.length ::
      codes (dictionary.learn capacity ((dictionary.lookup capacity ref).getD [])) ops
  | _, .clear :: ops => clearCode :: codes .empty ops

theorem length_codes (dictionary : Dictionary α) (ops : List (Op α)) :
    (codes symbolCode clearCode first capacity dictionary ops).length = ops.length := by
  induction ops generalizing dictionary with
  | nil => rfl
  | cons op ops ih =>
    cases op with
    | put ref => rw [codes, List.length_cons, ih, List.length_cons]
    | clear => rw [codes, List.length_cons, ih, List.length_cons]

end Codes

end Lzw
