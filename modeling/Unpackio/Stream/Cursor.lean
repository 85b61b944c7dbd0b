/-
The cursor of the standalone stream formats, from `stream/cursor.rs`.
-/
import Unpackio.Bounded
import Unpackio.Foundation.Delimited
import Unpackio.Stream.Control

namespace Unpackio

open List (append_nil drop_left length_append)

structure StreamCursor where
  bytes : List UInt8
  position : Nat
  format : String
  deriving DecidableEq, Repr

abbrev Scanning (α : Type) : Type := StateT StreamCursor (Except Error) α

/-- The four bytes of a number. -/
def le32 (value : Nat) : List UInt8 := toLeBytes 4 value

namespace StreamCursor

def new (bytes : List UInt8) (format : String) : StreamCursor :=
  { bytes := bytes, position := 0, format := format }

def remaining (cursor : StreamCursor) : Except Error (List UInt8) :=
  okOr (getRange cursor.bytes cursor.position cursor.bytes.length)
    (streamFormatError cursor.format "cursor position is out of range")

def readBytes (length : Nat) (truncatedDetail : String) : Scanning (List UInt8) := fun cursor => do
  let finish ← okOr (checkedAdd cursor.position length)
    (streamFormatError cursor.format "byte range end overflows")
  let bytes ← okOr (getRange cursor.bytes cursor.position finish)
    (streamFormatError cursor.format truncatedDetail)
  return (bytes, { cursor with position := finish })

def skip (length : Nat) (truncatedDetail : String) : Scanning Unit := do
  let _ ← readBytes length truncatedDetail

/-- `ok_or_else` with an error that names the format of the cursor. -/
def orFormatError {α : Type} (value : Option α) (detail : String) : Scanning α := fun cursor => do
  let value ← okOr value (streamFormatError cursor.format detail)
  return (value, cursor)

def readU8 (truncatedDetail : String) : Scanning UInt8 := do
  let bytes ← readBytes 1 truncatedDetail
  orFormatError bytes.head? truncatedDetail

def readU24Le (truncatedDetail : String) : Scanning Nat := do
  let bytes ← readBytes 3 truncatedDetail
  let low ← orFormatError bytes[0]? truncatedDetail
  let middle ← orFormatError bytes[1]? truncatedDetail
  let high ← orFormatError bytes[2]? truncatedDetail
  return low.toNat ||| middle.toNat <<< 8 ||| high.toNat <<< 16

def readU32Le (truncatedDetail : String) : Scanning Nat := do
  let bytes ← readBytes 4 truncatedDetail
  return fromLeBytes bytes

/-- The loop of `read_le`. -/
def leValue : List UInt8 → Nat → Nat → Scanning Nat
  | [], _, value => return value
  | byte :: bytes, index, value => do
    let shift ← orFormatError (tryFrom 32 (index * 8)) "integer shift overflows"
    let shifted ← orFormatError (checkedShl 64 byte.toNat shift) "integer value overflows"
    leValue bytes (index + 1) (value ||| shifted)

def readLe (length : Nat) (truncatedDetail : String) : Scanning Nat := do
  let bytes ← readBytes length truncatedDetail
  leValue bytes 0 0

def rounds (exhausted : Error) (round : Scanning Bool) : Scanning Unit := fun cursor =>
  Delimited.untilLast exhausted round (cursor.bytes.length + 1) cursor

/-! ## What a cursor takes -/

open Delimited (Track Takes Delimits anything)

/-- The cursor that has `front` behind and `rest` ahead. -/
def split (format : String) (front rest : List UInt8) : StreamCursor :=
  { bytes := front ++ rest, position := front.length, format := format }

def track (format : String) : Track StreamCursor UInt8 where
  place := split format
  bound := 2 ^ 64

variable {format : String} {α : Type}

@[simp] theorem track_bound : (track format).bound = 2 ^ 64 := rfl

theorem new_eq_split (bytes : List UInt8) : new bytes format = split format [] bytes := rfl

@[simp] theorem remaining_split (front rest : List UInt8) :
    remaining (split format front rest) = .ok rest := by
  have hrange : getRange (front ++ rest) front.length (front ++ rest).length = some rest :=
    getRange_eq_some.mpr ⟨by rw [length_append]; omega, Nat.le_refl _, by
      rw [List.take_length, drop_left]⟩
  rw [remaining, split, hrange, okOr_some]

theorem readBytes_position {cursor next : StreamCursor} {length : Nat} {detail : String}
    {bytes : List UInt8} (h : readBytes length detail cursor = .ok (bytes, next)) :
    next.position = cursor.position + length := by
  obtain ⟨finish, hfinish, h⟩ := Except.bind_eq_ok.mp h
  obtain ⟨_, -, h⟩ := Except.bind_eq_ok.mp h
  cases h
  exact (checkedAdd_eq_ok.mp hfinish).2.symm

theorem readBytes_takes (taken : List UInt8) (detail : String) :
    Takes (track format) (fun _ => True) (readBytes taken.length detail) taken taken := by
  intro front rest _ hlen
  have hlen' : (front ++ taken ++ rest).length < 2 ^ 64 := hlen
  have hadd : checkedAdd front.length taken.length = some (front.length + taken.length) :=
    checkedAdd_of_lt (by simp only [length_append] at hlen'; omega)
  have hrange : getRange (front ++ (taken ++ rest)) front.length (front.length + taken.length) =
      some taken := by
    refine getRange_eq_some.mpr ⟨by omega, by simp only [length_append]; omega, ?_⟩
    rw [← List.append_assoc, List.take_left' (by rw [length_append]), drop_left]
  show readBytes taken.length detail (split format front (taken ++ rest)) = _
  rw [readBytes, split]
  rw [hadd, okOr_bind, hrange]
  refine congrArg Except.ok (Prod.ext rfl ?_)
  simp only [track, split, List.append_assoc, length_append]

theorem readBytes_ok {front tail bytes : List UInt8} {length : Nat} {detail : String}
    {next : StreamCursor} (h : readBytes length detail (split format front tail) =
      .ok (bytes, next)) :
    bytes.length = length ∧ ∃ rest, tail = bytes ++ rest ∧
      next = split format (front ++ bytes) rest := by
  rw [readBytes, split] at h
  obtain ⟨finish, hfinish, hrun⟩ := Except.bind_eq_ok.mp h
  obtain ⟨taken, htaken, hrun⟩ := Except.bind_eq_ok.mp hrun
  obtain ⟨-, rfl⟩ := checkedAdd_eq_ok.mp hfinish
  obtain ⟨-, hle, htaken⟩ := getRange_eq_some.mp (okOr_eq_ok.mp htaken)
  cases hrun
  simp only [length_append] at hle
  simp only [List.take_length_add_append, drop_left] at htaken
  subst htaken
  have hcount : (tail.take length).length = length := by rw [List.length_take]; omega
  refine ⟨hcount, tail.drop length, (List.take_append_drop _ _).symm, ?_⟩
  simp only [split, List.append_assoc, List.take_append_drop, length_append, hcount]

theorem readBytes_delimits (length : Nat) (detail : String) :
    Delimits (track format) anything (readBytes length detail) := by
  intro front tail bytes next _ h
  obtain ⟨rfl, rest, htail, hnext⟩ := readBytes_ok h
  exact ⟨bytes, rest, htail, hnext, readBytes_takes bytes detail⟩

theorem orFormatError_delimits (value : Option α) (detail : String) :
    Delimits (track format) anything (orFormatError value detail) := by
  intro front tail a next _ h
  cases value with
  | none => exact (nomatch h)
  | some value =>
    cases h
    exact ⟨[], tail, rfl, by rw [append_nil], fun front rest _ _ => by
      rw [append_nil]
      rfl⟩

theorem skip_takes (taken : List UInt8) (detail : String) :
    Takes (track format) (fun _ => True) (skip taken.length detail) taken () := by
  have h : Takes (track format) (fun _ => True) (skip taken.length detail) (taken ++ []) () :=
    Takes.bind (readBytes_takes taken detail) (.pure _ ())
  rwa [append_nil] at h

theorem skip_delimits (length : Nat) (detail : String) :
    Delimits (track format) anything (skip length detail) :=
  .bind (readBytes_delimits _ _) fun _ => .pure _ _

theorem readU8_delimits (detail : String) :
    Delimits (track format) anything (readU8 detail) :=
  .bind (readBytes_delimits _ _) fun _ => orFormatError_delimits _ _

theorem readU24Le_delimits (detail : String) :
    Delimits (track format) anything (readU24Le detail) :=
  .bind (readBytes_delimits _ _) fun _ => .bind (orFormatError_delimits _ _) fun _ =>
    .bind (orFormatError_delimits _ _) fun _ => .bind (orFormatError_delimits _ _) fun _ =>
    .pure _ _

theorem readU32Le_delimits (detail : String) :
    Delimits (track format) anything (readU32Le detail) :=
  .bind (readBytes_delimits _ _) fun _ => .pure _ _

theorem readU32Le_takes {value : Nat} (hvalue : value < 2 ^ 32) (detail : String) :
    Takes (track format) (fun _ => True) (readU32Le detail) (le32 value) value := by
  have hbytes : Takes (track format) (fun _ => True) (readBytes (le32 value).length detail)
      (le32 value) (le32 value) := readBytes_takes _ _
  have hpure : Takes (track format) (fun _ => True)
      (pure (fromLeBytes (le32 value)) : Scanning Nat) [] value := by
    rw [le32, fromLeBytes_toLeBytes, bytePow_four, Nat.mod_eq_of_lt hvalue]
    exact .pure _ _
  have h : Takes (track format) (fun _ => True) (readU32Le detail) (le32 value ++ []) value :=
    Takes.bind hbytes hpure
  rwa [append_nil] at h

theorem readU32Le_ok {front tail : List UInt8} {detail : String} {value : Nat}
    {next : StreamCursor} (h : readU32Le detail (split format front tail) = .ok (value, next)) :
    ∃ rest, value < 2 ^ 32 ∧ tail = le32 value ++ rest ∧
      next = split format (front ++ le32 value) rest := by
  obtain ⟨⟨bytes, middle⟩, hbytes, hvalue⟩ := Except.bind_eq_ok.mp h
  obtain ⟨hcount, rest, rfl, rfl⟩ := readBytes_ok hbytes
  cases hvalue
  have hle : le32 (fromLeBytes bytes) = bytes := by
    rw [le32, ← hcount, toLeBytes_fromLeBytes]
  have hlt := fromLeBytes_lt bytes
  rw [hcount] at hlt
  exact ⟨rest, hlt, by rw [hle], by rw [hle]⟩

theorem leValue_delimits (bytes : List UInt8) (index value : Nat) :
    Delimits (track format) anything (leValue bytes index value) := by
  induction bytes generalizing index value with
  | nil => exact .pure _ _
  | cons byte bytes ih =>
    exact .bind (orFormatError_delimits _ _) fun _ => .bind (orFormatError_delimits _ _) fun _ =>
      ih _ _

theorem readLe_delimits (length : Nat) (detail : String) :
    Delimits (track format) anything (readLe length detail) :=
  .bind (readBytes_delimits _ _) fun _ => leValue_delimits _ _ _

theorem rounds_takes {exhausted : Error} {round : Scanning Bool} {follows : List UInt8 → Prop}
    {taken : List UInt8} (h : ∀ fuel, taken.length < fuel →
      Takes (track format) follows (Delimited.untilLast exhausted round fuel) taken ()) :
    Takes (track format) follows (rounds exhausted round) taken () := by
  intro front rest hrest hbound
  refine h _ ?_ front rest hrest hbound
  simp only [track, split, length_append]
  omega

theorem rounds_delimits {exhausted : Error} {round : Scanning Bool} {follows : List UInt8 → Prop}
    (hround : Delimits (track format) (fun last rest => last = true → follows rest) round)
    (hprogress : ∀ front next, round (split format front []) ≠ .ok (false, next)) :
    Delimits (track format) (fun _ => follows) (rounds exhausted round) := by
  intro front tail result next hlen h
  obtain ⟨taken, rest, htail, hnext, htakes⟩ := Delimited.untilLast_delimits
    (show 0 < 2 ^ 64 by decide) hround hprogress _ hlen h
  exact ⟨taken, rest, htail, hnext, rounds_takes htakes⟩

end StreamCursor

end Unpackio
