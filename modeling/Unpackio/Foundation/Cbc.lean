/-
Cipher block chaining over any blocks, for a cipher that permutes them.
-/
import Mathlib.Logic.Equiv.Basic

namespace Cbc

variable {Block : Type} (mix : Block → Block → Block) (cipher : Equiv.Perm Block)

def encrypt : Block → List Block → List Block
  | _, [] => []
  | previous, block :: blocks =>
    cipher (mix block previous) :: encrypt (cipher (mix block previous)) blocks

def decrypt : Block → List Block → List Block
  | _, [] => []
  | previous, block :: blocks => mix (cipher.symm block) previous :: decrypt block blocks

@[simp] theorem length_encrypt (previous : Block) (blocks : List Block) :
    (encrypt mix cipher previous blocks).length = blocks.length := by
  induction blocks generalizing previous with
  | nil => rfl
  | cons block blocks ih => rw [encrypt, List.length_cons, ih, List.length_cons]

variable {mix}

theorem decrypt_encrypt (hmix : ∀ a b, mix (mix a b) b = a) (previous : Block)
    (blocks : List Block) :
    decrypt mix cipher previous (encrypt mix cipher previous blocks) = blocks := by
  induction blocks generalizing previous with
  | nil => rfl
  | cons block blocks ih =>
    rw [encrypt, decrypt, Equiv.symm_apply_apply, hmix, ih]

end Cbc
