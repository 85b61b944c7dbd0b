/-
The 7z AES coder, from `decode/aes.rs`, and its passwords, from `password.rs`.

The block cipher and the hash are the environment: AES-256 as a permutation of the
blocks for each key, SHA-256 as a function from the bytes it is fed.
-/
import Unpackio.CoderProperties
import Unpackio.Foundation.Cbc
import Unpackio.Path

namespace Unpackio

/-- A password as its UTF-16 bytes, which fit a vector. -/
structure Password where
  utf16le : List UInt8
  fits : utf16le.length < 2 ^ 63

def utf16leBytes (password : String) : List UInt8 :=
  (Path.encodeUtf16 password).flatMap fun unit => toLeBytes 2 unit.toNat

def Password.new (password : String) : Except Error Password :=
  if h : (utf16leBytes password).length < 2 ^ 63 then .ok ⟨utf16leBytes password, h⟩
  else .error (.io "password allocation failed")

namespace Aes

def blockBytes : Nat := 16

def keyBytes : Nat := 32

def directKdfPower : Nat := 0x3f

abbrev Block : Type := Vector UInt8 16

abbrev Key : Type := Vector UInt8 32

/-- What the coder has of other crates. -/
structure Primitives where
  sha256 : List UInt8 → Vector UInt8 32
  aes256 : Key → Equiv.Perm Block

def toArray (count : Nat) (bytes : List UInt8) : Option (Vector UInt8 count) :=
  if h : bytes.length = count then some ⟨bytes.toArray, by rwa [List.size_toArray]⟩ else none

structure AesProperties where
  kdfPower : Nat
  salt : List UInt8
  iv : List UInt8
  deriving DecidableEq, Repr

def parseProperties (properties : List UInt8) (limits : Limits) : Except Error AesProperties := do
  let first ← okOr properties.head? (formatError "AES properties are missing the first byte")
  let second ← okOr properties[1]? (formatError "AES properties are missing the second byte")
  let saltSize ← okOr (checkedAdd ((first >>> 7) &&& 1).toNat (second >>> 4).toNat)
    (formatError "AES salt size overflows")
  let ivSize ← okOr (checkedAdd ((first >>> 6) &&& 1).toNat (second &&& 0x0f).toNat)
    (formatError "AES IV size overflows")
  let saltStart := 2
  let saltEnd ← okOr (checkedAdd saltStart saltSize) (formatError "AES salt range overflows")
  let ivEnd ← okOr (checkedAdd saltEnd ivSize) (formatError "AES IV range overflows")
  rejectIf (ivEnd ≠ properties.length) (formatError "AES properties were not consumed exactly")
  let salt ← okOr (getRange properties saltStart saltEnd)
    (formatError "AES salt range is truncated")
  let sourceIv ← okOr (getRange properties saltEnd ivEnd)
    (formatError "AES IV range is truncated")
  rejectIf (blockBytes < ivSize) (formatError "AES IV is longer than one block")
  let iv := sourceIv ++ List.replicate (blockBytes - ivSize) 0
  let kdfPower := (first &&& 0x3f).toNat
  rejectIf (kdfPower ≠ directKdfPower ∧ limits.maxKdfPower < kdfPower)
    (.limitExceeded .kdfPower kdfPower limits.maxKdfPower)
  return { kdfPower := kdfPower, salt := salt, iv := iv }

def copyKeyMaterial (destination material : List UInt8) (written : Nat) :
    Except Error (List UInt8 × Nat) :=
  if destination.length ≤ written ∨ material = [] then .ok (destination, written)
  else do
    let remaining ← okOr (checkedSub destination.length written)
      (formatError "AES key position exceeds its buffer")
    let count := min remaining material.length
    let finish ← okOr (checkedAdd written count) (formatError "AES key position overflows")
    rejectIf (destination.length < finish) (formatError "AES key destination range is invalid")
    rejectIf (material.length < count) (formatError "AES key source range is invalid")
    return (destination.take written ++ material.take count ++ destination.drop finish, finish)

def hashRounds (salt password : List UInt8) (roundWork : Nat) :
    Nat → Nat → List UInt8 → Metered (List UInt8)
  | 0, _, fed => return fed
  | rounds + 1, counter, fed => do
    checkpoint roundWork
    hashRounds salt password roundWork rounds (counter + 1)
      (fed ++ salt ++ password ++ toLeBytes 8 counter)

def deriveKey (primitives : Primitives) (properties : AesProperties) (password : Password) :
    Metered (List UInt8) :=
  let key := List.replicate keyBytes 0
  if properties.kdfPower = directKdfPower then do
    let (key, written) ← copyKeyMaterial key properties.salt 0
    let (key, written) ← copyKeyMaterial key password.utf16le written
    checkpoint written
    return key
  else do
    let rounds ← okOr (checkedShl 64 1 properties.kdfPower)
      (formatError "AES KDF round count overflows")
    let roundWork ← okOr ((checkedAdd properties.salt.length password.utf16le.length).bind
        fun bytes => checkedAdd bytes 8)
      (formatError "AES KDF work accounting overflows")
    let fed ← hashRounds properties.salt password.utf16le roundWork rounds 0 []
    return (primitives.sha256 fed).toList

def xorBlocks (a b : Block) : Block := Vector.zipWith (· ^^^ ·) a b

/-- The chunk loop of `decode_aes`, with the last block of ciphertext. -/
def decryptChunks (cipher : Equiv.Perm Block) : List (List UInt8) → Block → Metered (List UInt8)
  | [], _ => return []
  | chunk :: chunks, previous => do
    checkpoint blockBytes
    let block ← okOr (toArray 16 chunk) (formatError "AES block has the wrong length")
    let rest ← decryptChunks cipher chunks block
    return (xorBlocks (cipher.symm block) previous).toList ++ rest

def decodeAes (primitives : Primitives) (input properties : List UInt8) (expected : Option Nat)
    (maximum : Nat) (limits : Limits) (password : Option Password) : Metered (List UInt8) := do
  let password ← okOr password .passwordRequired
  let properties ← parseProperties properties limits
  let expected ← okOr expected (.unsupportedFeature "aes-unknown-unpacked-size")
  checkLimit expected maximum .totalOutputBytes
  rejectIf (input.length < expected) (formatError "AES output size exceeds its encrypted input")
  rejectIf (input.length % blockBytes ≠ 0)
    (formatError "AES encrypted input is not block aligned")
  let key ← deriveKey primitives properties password
  let key ← okOr (toArray 32 key) (formatError "AES key or IV length is invalid")
  let iv ← okOr (toArray 16 properties.iv) (formatError "AES key or IV length is invalid")
  let output ← decryptChunks (primitives.aes256 key) (chunks blockBytes input) iv
  return output.take expected

end Aes
end Unpackio
