/-
The CRC-32 of the integrity fields, from `checksum.rs`.
-/
import Unpackio.ParseUtil

namespace Unpackio

def crc32Polynomial : UInt32 := 0xedb88320

def crc32TableStep (value : UInt32) : UInt32 :=
  if value &&& 1 = 0 then value >>> 1 else (value >>> 1) ^^^ crc32Polynomial

/-- `make_crc32_table`, one entry at a time. -/
def crc32TableEntry (index : Nat) : UInt32 :=
  Nat.repeat crc32TableStep 8 (UInt32.ofNat index)

def crc32Table : List UInt32 := (List.range 256).map crc32TableEntry

structure Crc32 where
  state : UInt32
  deriving DecidableEq, Repr

namespace Crc32

def new : Crc32 := { state := 0xffffffff }

def updateByte (crc : Crc32) (byte : UInt8) : Crc32 :=
  let tableIndex := (crc.state.toUInt8 ^^^ byte).toNat
  { state := crc32Table.getD tableIndex 0 ^^^ (crc.state >>> 8) }

def update (crc : Crc32) (bytes : List UInt8) : Crc32 := bytes.foldl updateByte crc

def finalize (crc : Crc32) : UInt32 := ~~~crc.state

/-- `Crc32::checksum`. -/
def checksum (bytes : List UInt8) : UInt32 := (new.update bytes).finalize

theorem update_append (crc : Crc32) (front rest : List UInt8) :
    crc.update (front ++ rest) = (crc.update front).update rest := List.foldl_append

@[simp] theorem update_nil (crc : Crc32) : crc.update [] = crc := rfl

end Crc32

/-- `crc32_with_control` and the `checksum` functions of `execute.rs`,
`archive.rs` and `metadata.rs`. -/
def checksumWithControl (bytes : List UInt8) : Metered UInt32 :=
  go (chunks controlChunkSize bytes) .new
where
  go : List (List UInt8) → Crc32 → Metered UInt32
    | [], crc => return crc.finalize
    | chunk :: rest, crc => do
      checkpoint chunk.length
      go rest (crc.update chunk)

theorem checksumWithControl_go_granted (pieces : List (List UInt8)) (crc : Crc32) :
    (checksumWithControl.go pieces crc).granted = .ok (crc.update pieces.flatten).finalize := by
  induction pieces generalizing crc with
  | nil => rfl
  | cons chunk rest ih =>
    rw [checksumWithControl.go, checkpoint_bind, ih, List.flatten_cons, Crc32.update_append]

@[simp] theorem checksumWithControl_granted (bytes : List UInt8) :
    (checksumWithControl bytes).granted = .ok (Crc32.checksum bytes) := by
  rw [checksumWithControl, checksumWithControl_go_granted,
    flatten_chunks (by decide : 0 < controlChunkSize)]
  rfl

example : Crc32.checksum [0x31, 0x32, 0x33, 0x34, 0x35, 0x36, 0x37, 0x38, 0x39] = 0xcbf43926 := by
  decide +kernel

end Unpackio
