/-
Traditional encryption of ZIP entries, from `zip/crypto.rs`.

The keys change with every plain byte, so what encrypts and what decrypts has the same
keys byte by byte.
-/
import Unpackio.Zip.Fields

namespace Unpackio
namespace Zip

def zipCryptoHeaderBytes : Nat := 12

/-- One round of the loop of `crc32_byte`. -/
def crc32Bit (value : UInt32) : UInt32 :=
  if value &&& 1 = 0 then value >>> 1 else (value >>> 1) ^^^ crc32Polynomial

def crc32Byte (value : UInt32) (byte : UInt8) : UInt32 :=
  Nat.repeat crc32Bit 8 (value ^^^ byte.toUInt32)

structure ZipCryptoKeys where
  key0 : UInt32
  key1 : UInt32
  key2 : UInt32
  deriving DecidableEq, Repr

namespace ZipCryptoKeys

def update (keys : ZipCryptoKeys) (byte : UInt8) : ZipCryptoKeys :=
  let key0 := crc32Byte keys.key0 byte
  let key1 := (keys.key1 + (key0 &&& 0xff)) * 134775813 + 1
  { key0 := key0, key1 := key1, key2 := crc32Byte keys.key2 (key1 >>> 24).toUInt8 }

/-- The byte that is added to a plain one. -/
def mask (keys : ZipCryptoKeys) : UInt8 :=
  let temporary := keys.key2 ||| 2
  ((temporary * (temporary ^^^ 1)) >>> 8).toUInt8

def decryptByte (keys : ZipCryptoKeys) (byte : UInt8) : UInt8 × ZipCryptoKeys :=
  let plaintext := byte ^^^ keys.mask
  (plaintext, keys.update plaintext)

def initial : ZipCryptoKeys := { key0 := 0x12345678, key1 := 0x23456789, key2 := 0x34567890 }

def addChunks : List (List UInt8) → ZipCryptoKeys → Metered ZipCryptoKeys
  | [], keys => return keys
  | chunk :: chunks, keys => do
    checkpoint chunk.length
    addChunks chunks (chunk.foldl update keys)

def new (password : List UInt8) : Metered ZipCryptoKeys :=
  addChunks (chunks controlChunkSize password) initial

def decryptBytes (keys : ZipCryptoKeys) : List UInt8 → List UInt8 × ZipCryptoKeys
  | [] => ([], keys)
  | byte :: bytes =>
    let (plaintext, keys) := keys.decryptByte byte
    let (rest, keys) := keys.decryptBytes bytes
    (plaintext :: rest, keys)

end ZipCryptoKeys

def decryptHeader : List UInt8 → Option UInt8 → ZipCryptoKeys →
    Metered (Option UInt8 × ZipCryptoKeys)
  | [], last, keys => return (last, keys)
  | byte :: bytes, _, keys => do
    checkpoint 1
    let (plaintext, keys) := keys.decryptByte byte
    decryptHeader bytes (some plaintext) keys

def decryptChunks : List (List UInt8) → ZipCryptoKeys → Metered (List UInt8)
  | [], _ => return []
  | chunk :: chunks, keys => do
    checkpoint chunk.length
    let (plaintext, keys) := keys.decryptBytes chunk
    let rest ← decryptChunks chunks keys
    return plaintext ++ rest

def decryptZipcrypto (input : List UInt8) (password : Option (List UInt8)) (checkByte : UInt8) :
    Metered (List UInt8) := do
  let password ← okOr password .passwordRequired
  let header ← okOr (getRange input 0 zipCryptoHeaderBytes)
    (zipFormat "traditional encryption header is truncated")
  let payload ← okOr (getRange input zipCryptoHeaderBytes input.length)
    (zipFormat "traditional encryption payload is truncated")
  let keys ← ZipCryptoKeys.new password
  let (last, keys) ← decryptHeader header none keys
  rejectIf (last ≠ some checkByte) .wrongPasswordOrCorrupt
  decryptChunks (chunks controlChunkSize payload) keys

namespace ZipCryptoKeys

section

variable (keys : ZipCryptoKeys)

theorem decryptBytes_append (front rest : List UInt8) :
    keys.decryptBytes (front ++ rest) =
      ((keys.decryptBytes front).1 ++ ((keys.decryptBytes front).2.decryptBytes rest).1,
        ((keys.decryptBytes front).2.decryptBytes rest).2) := by
  induction front generalizing keys with
  | nil => rfl
  | cons byte front ih =>
    rw [List.cons_append, decryptBytes, decryptBytes]
    dsimp only
    rw [ih]
    rfl

end

end ZipCryptoKeys

theorem decryptChunks_granted (keys : ZipCryptoKeys) (pieces : List (List UInt8)) :
    (decryptChunks pieces keys).granted = .ok (keys.decryptBytes pieces.flatten).1 := by
  induction pieces generalizing keys with
  | nil => rfl
  | cons chunk pieces ih =>
    rw [decryptChunks, checkpoint_bind, List.flatten_cons, ZipCryptoKeys.decryptBytes_append]
    dsimp only
    rw [Prog.granted_bind, ih]
    rfl

end Zip
end Unpackio
