/-
The code reader against the code writer.

`Feeds` says that what the reader has before it is what the writer still puts
out.  It holds again after a change of the width and after each code, and at the
end the reader finds nothing.
-/
import Unpackio.Stream.CodeReader

namespace Unpackio
namespace UnixCompress

open List (append_assoc append_nil length_append length_drop length_singleton nil_append)
open BitPack

section Groups

variable {group rest : List Nat} (width : Nat)

def groupBits (width : Nat) (group : List Nat) : List Bool :=
  group.flatMap fun code => bitsOf width code

@[simp] theorem groupBits_append (front rest : List Nat) :
    groupBits width (front ++ rest) = groupBits width front ++ groupBits width rest :=
  List.flatMap_append

@[simp] theorem length_groupBits (group : List Nat) :
    (groupBits width group).length = group.length * width := by
  induction group with
  | nil => rw [List.length_nil, Nat.zero_mul]; rfl
  | cons code group ih =>
    rw [show groupBits width (code :: group) = bitsOf width code ++ groupBits width group from rfl,
      length_append, length_bitsOf, ih, List.length_cons, Nat.succ_mul, Nat.add_comm]

@[simp] theorem flushCodes_nil (padded : Bool) : flushCodes [] width padded = [] := rfl

section

variable (h : group ≠ [])
include h

theorem flushCodes_padded :
    flushCodes group width true = packBits (groupBits width group ++
      List.replicate (8 * width - (groupBits width group).length) false) := by
  rw [flushCodes, if_neg h]
  rfl

theorem flushCodes_last : flushCodes group width false = packBits (groupBits width group) := by
  rw [flushCodes, if_neg h]
  rfl

theorem length_flushCodes_padded (h8 : group.length ≤ 8) :
    (flushCodes group width true).length = width := by
  have hle : group.length * width ≤ 8 * width := Nat.mul_le_mul_right _ h8
  rw [flushCodes_padded width h, length_packBits, length_append, List.length_replicate,
    length_groupBits]
  omega

theorem length_flushCodes_last :
    (flushCodes group width false).length = (group.length * width + 7) / 8 := by
  rw [flushCodes_last width h, length_packBits, length_groupBits]

theorem bytesToBits_flushCodes (padded : Bool) :
    ∃ zeros, bytesToBits (flushCodes group width padded) = groupBits width group ++ zeros := by
  cases padded with
  | true => rw [flushCodes_padded width h, bytesToBits_packBits, append_assoc]; exact ⟨_, rfl⟩
  | false => rw [flushCodes_last width h, bytesToBits_packBits]; exact ⟨_, rfl⟩

theorem le_length_flushCodes (h8 : group.length ≤ 8) (padded : Bool) :
    (group.length * width + 7) / 8 ≤ (flushCodes group width padded).length := by
  cases padded with
  | true =>
    have hle : group.length * width ≤ 8 * width := Nat.mul_le_mul_right _ h8
    rw [length_flushCodes_padded width h h8]
    omega
  | false => rw [length_flushCodes_last width h]

end

/-- The code behind `front` in the bits of a group. -/
theorem field_groupBits {width : Nat} {front : List Nat} {code : Nat} (hcode : code < 2 ^ width)
    (zeros : List Bool) :
    ofBits (((groupBits width (front ++ code :: rest) ++ zeros).drop (front.length * width)).take
      width) = code := by
  have hfront : (groupBits width front).length = front.length * width := length_groupBits _ _
  have hbits : groupBits width (front ++ code :: rest) ++ zeros =
      groupBits width front ++ (bitsOf width code ++ (groupBits width rest ++ zeros)) := by
    rw [groupBits_append, append_assoc, ← append_assoc (bitsOf width code)]
    rfl
  rw [hbits, List.drop_left' hfront, List.take_left' (length_bitsOf _ _), ofBits_bitsOf,
    Nat.mod_eq_of_lt hcode]

end Groups

namespace Encoder

variable (maximumCodeBits : Nat) (blockMode : Bool)

/-- What a code puts out once the width is right. -/
def encodeFrom (encoder : Encoder) (code : Nat) (codes : List Nat) : List UInt8 :=
  (encoder.pushCode code).1 ++
    (((encoder.pushCode code).2.countCode maximumCodeBits blockMode code).1 ++
    (((encoder.pushCode code).2.countCode maximumCodeBits blockMode code).2).encodeCodes
      maximumCodeBits blockMode codes)

theorem encodeCodes_cons_eq (encoder : Encoder) (code : Nat) (codes : List Nat) :
    encoder.encodeCodes maximumCodeBits blockMode (code :: codes) =
      (encoder.growWidth maximumCodeBits).1 ++
        (encoder.growWidth maximumCodeBits).2.encodeFrom maximumCodeBits blockMode code codes := rfl

theorem countCode_of_not (encoder : Encoder) {code : Nat}
    (h : ¬(blockMode = true ∧ code = clearCode)) :
    (encoder.countCode maximumCodeBits blockMode code).1 = [] ∧
      (encoder.countCode maximumCodeBits blockMode code).2.group = encoder.group ∧
      (encoder.countCode maximumCodeBits blockMode code).2.width = encoder.width ∧
      (encoder.countCode maximumCodeBits blockMode code).2.maximumCurrent =
        encoder.maximumCurrent := by
  rw [countCode, if_neg h]
  split
  · split <;> exact ⟨rfl, rfl, rfl, rfl⟩
  · exact ⟨rfl, rfl, rfl, rfl⟩

theorem pushCode_full {encoder : Encoder} {code : Nat} (h : encoder.group.length = 7) :
    encoder.pushCode code =
      (flushCodes (encoder.group ++ [code]) encoder.width true, { encoder with group := [] }) := by
  rw [pushCode, if_pos (by rw [length_append, h]; rfl)]

theorem pushCode_of_lt {encoder : Encoder} {code : Nat} (h : encoder.group.length < 7) :
    encoder.pushCode code = ([], { encoder with group := encoder.group ++ [code] }) := by
  rw [pushCode, if_neg (by rw [length_append, length_singleton]; omega)]

end Encoder

def Opens (width : Nat) (group : List Nat) (bytes : List UInt8) : Prop :=
  ∃ rest padded behind, bytes = flushCodes (group ++ rest) width padded ++ behind ∧
    (group ++ rest).length ≤ 8 ∧ (padded = false → behind = [])

theorem Opens.whole {width : Nat} {group : List Nat} (h8 : group.length ≤ 8)
    (behind : List UInt8) : Opens width group (flushCodes group width true ++ behind) :=
  ⟨[], true, behind, by rw [append_nil], by rwa [append_nil], fun h => (nomatch h)⟩

namespace Encoder

variable {maximumCodeBits : Nat} {blockMode : Bool} {encoder : Encoder}

theorem encodeFrom_opens_of {codes : List Nat}
    (hrest : ∀ encoder : Encoder, encoder.group ≠ [] → encoder.group.length < 8 →
      Opens encoder.width encoder.group (encoder.encodeCodes maximumCodeBits blockMode codes))
    (h : encoder.group.length < 8) (code : Nat) :
    Opens encoder.width (encoder.group ++ [code])
      (encoder.encodeFrom maximumCodeBits blockMode code codes) := by
  have hlength : (encoder.group ++ [code]).length = encoder.group.length + 1 := by
    rw [length_append, length_singleton]
  rcases Nat.lt_or_ge encoder.group.length 7 with h7 | h7
  · rw [encodeFrom, pushCode_of_lt h7, nil_append]
    by_cases hclear : blockMode = true ∧ code = clearCode
    · rw [countCode, if_pos hclear]
      exact .whole (by omega) _
    · obtain ⟨hemit, hgroup, hwidth, -⟩ := countCode_of_not maximumCodeBits blockMode
        { encoder with group := encoder.group ++ [code] } hclear
      have hopens := hrest _
        (by rw [hgroup]; exact List.append_ne_nil_of_right_ne_nil _ (List.cons_ne_nil _ _))
        (by rw [hgroup]; exact hlength.trans_lt (by omega))
      rw [hgroup, hwidth] at hopens
      rw [hemit]
      exact hopens
  · rw [encodeFrom, pushCode_full (by omega)]
    exact .whole (by omega) _

theorem encodeCodes_opens (codes : List Nat) (hne : encoder.group ≠ [])
    (h : encoder.group.length < 8) :
    Opens encoder.width encoder.group (encoder.encodeCodes maximumCodeBits blockMode codes) := by
  induction codes generalizing encoder with
  | nil =>
    exact ⟨[], false, [], by rw [append_nil, append_nil]; rfl,
      by rw [append_nil]; exact h.le, fun _ => rfl⟩
  | cons code codes ih =>
    rw [encodeCodes_cons_eq]
    by_cases hgrows : encoder.Grows maximumCodeBits
    · rw [growWidth, if_pos hgrows]
      exact .whole h.le _
    · rw [growWidth, if_neg hgrows, nil_append]
      obtain ⟨rest, padded, behind, heq, hle, hlast⟩ :=
        encodeFrom_opens_of (fun _ hne h => ih hne h) h code
      refine ⟨code :: rest, padded, behind, ?_, ?_, hlast⟩
      · rw [heq, append_assoc]
        rfl
      · rw [append_assoc] at hle
        exact hle

theorem encodeFrom_opens (h : encoder.group.length < 8) (code : Nat) (codes : List Nat) :
    Opens encoder.width (encoder.group ++ [code])
      (encoder.encodeFrom maximumCodeBits blockMode code codes) :=
  encodeFrom_opens_of (fun _ hne h => encodeCodes_opens codes hne h) h code

end Encoder
namespace CodeReader

/-- The reader holds a group as `refill` leaves it. -/
structure Loaded (reader : CodeReader) (width : Nat) : Prop where
  start : reader.groupStart ≤ reader.input.length
  length : reader.groupLength = min (reader.input.length - reader.groupStart) width
  next : reader.position = reader.groupStart + reader.groupLength
  valid : reader.validBits = reader.groupLength * 8 / width * width

/-- The reader has the bytes before it, of which it has read the codes of the open
group. -/
inductive Feeds (reader : CodeReader) (force : Bool) (width : Nat) : List Nat → List UInt8 → Prop
  | between {bytes : List UInt8} (hposition : reader.position ≤ reader.input.length)
      (hbytes : reader.input.drop reader.position = bytes)
      (hturn : force = true ∨ reader.validBits ≤ reader.bitOffset) : Feeds reader force
        width [] bytes
  | within {group : List Nat} {bytes : List UInt8} (hne : group ≠ []) (hforce : force = false)
      (hloaded : reader.Loaded width) (hbytes : reader.input.drop reader.groupStart = bytes)
      (hoffset : reader.bitOffset = group.length * width) : Feeds reader force width group bytes

variable {reader : CodeReader} {force : Bool} {width code : Nat} {group : List Nat}
  {bytes : List UInt8}

theorem Loaded.inRange (h : reader.Loaded width) (hwidth : width ≤ 16)
    (hinput : reader.input.length < 2 ^ 64) : reader.InRange := by
  have hstart := h.start
  have hlength := h.length
  exact ⟨by omega, by omega, hinput⟩

theorem Loaded.withOffset (h : reader.Loaded width) (offset : Nat) :
    { reader with bitOffset := offset }.Loaded width := ⟨h.start, h.length, h.next, h.valid⟩

theorem refilled_loaded (width : Nat) (h : reader.position ≤ reader.input.length) :
    (reader.refilled width).Loaded width := ⟨h, rfl, rfl, rfl⟩

theorem Loaded.room (h : reader.Loaded width) (hbytes : reader.input.drop reader.groupStart = bytes)
    (hne : group ≠ []) (hopens : Opens width group bytes) :
    group.length * width ≤ 8 * reader.groupLength := by
  obtain ⟨rest, padded, behind, rfl, h8, -⟩ := hopens
  have hne' : group ++ rest ≠ [] := List.append_ne_nil_of_left_ne_nil hne _
  have hwhole := le_length_flushCodes width hne' h8 padded
  have hgroup : group.length * width ≤ (group ++ rest).length * width :=
    Nat.mul_le_mul_right _ (by rw [length_append]; omega)
  have hgroup8 : (group ++ rest).length * width ≤ 8 * width := Nat.mul_le_mul_right _ h8
  have hlength : reader.input.length - reader.groupStart =
      (flushCodes (group ++ rest) width padded ++ behind).length := by
    rw [← hbytes, length_drop]
  rw [length_append] at hlength
  have hgroupLength := h.length
  omega

theorem Loaded.readCode (h : reader.Loaded width) (hpos : 0 < width) (hwidth : width ≤ 16)
    (hinput : reader.input.length < 2 ^ 64)
    (hbytes : reader.input.drop reader.groupStart = bytes)
    (hopens : Opens width (group ++ [code]) bytes) (hcode : code < 2 ^ width)
    (hoffset : reader.bitOffset = group.length * width) :
    reader.readCode width = .ok (code, { reader with bitOffset := reader.bitOffset + width }) := by
  have hroom := h.room hbytes (by simp) hopens
  rw [length_append, length_singleton, Nat.succ_mul, ← hoffset] at hroom
  rw [readCode_eq (h.inRange hwidth hinput) hpos hwidth hroom]
  obtain ⟨rest, padded, behind, rfl, -, -⟩ := hopens
  have hne : group ++ [code] ++ rest ≠ [] := by simp
  obtain ⟨zeros, hzeros⟩ := bytesToBits_flushCodes width hne padded
  have hfield : ((bytesToBits reader.group).drop reader.bitOffset).take width =
      ((groupBits width (group ++ code :: rest) ++ (zeros ++ bytesToBits behind)).drop
        (group.length * width)).take width := by
    rw [CodeReader.group, hbytes, bytesToBits_take, List.drop_take, List.take_take,
      Nat.min_eq_left (by omega), bytesToBits_append, hzeros, hoffset, append_assoc,
      append_assoc]
    rfl
  rw [hfield, field_groupBits hcode]

theorem Feeds.nextCode (h : reader.Feeds force width group bytes) (hpos : 0 < width)
    (hwidth : width ≤ 16) (hinput : reader.input.length < 2 ^ 64)
    (hopens : Opens width (group ++ [code]) bytes) (hcode : code < 2 ^ width) :
    ∃ reader', reader.nextCode width force = .ok (some code, reader') ∧
      reader'.input = reader.input ∧ reader'.Loaded width ∧
      reader'.input.drop reader'.groupStart = bytes ∧
      reader'.bitOffset = (group ++ [code]).length * width := by
  have hlength : (group ++ [code]).length * width = group.length * width + width := by
    rw [length_append, length_singleton, Nat.succ_mul]
  cases h with
  | between hposition hbytes hturn =>
    have hloaded := refilled_loaded width hposition
    have hroom := hloaded.room hbytes (List.cons_ne_nil code []) hopens
    have hlt : reader.position < reader.input.length := by
      simp only [refilled, length_singleton] at hroom
      omega
    have hcomplete : (reader.refilled width).groupLength * 8 / width ≠ 0 := by
      rw [length_singleton] at hroom
      exact (Nat.div_pos (by omega) hpos).ne'
    have hread := hloaded.readCode hpos hwidth hinput hbytes hopens hcode (Nat.zero_mul _).symm
    refine ⟨{ reader.refilled width with bitOffset := 0 + width }, ?_, rfl,
      hloaded.withOffset _, hbytes, ?_⟩
    · rw [CodeReader.nextCode, if_pos hturn, refill_eq hlt hinput hpos hwidth, Except.ok_bind]
      simp only [decide_eq_true hcomplete, if_true, hread, Except.ok_bind]
      rfl
    · rw [hlength]
      simp
  | within hne hforce hloaded hbytes hoffset =>
    have hroom := hloaded.room hbytes (by simp) hopens
    have hcodes : group.length + 1 ≤ reader.groupLength * 8 / width := by
      rw [Nat.le_div_iff_mul_le hpos, Nat.succ_mul]
      omega
    have hvalid : (group.length + 1) * width ≤ reader.validBits :=
      hloaded.valid ▸ Nat.mul_le_mul_right _ hcodes
    have hread := hloaded.readCode hpos hwidth hinput hbytes hopens hcode hoffset
    refine ⟨{ reader with bitOffset := reader.bitOffset + width }, ?_, rfl,
      hloaded.withOffset _, hbytes, ?_⟩
    · have hturn : ¬(force = true ∨ reader.validBits ≤ reader.bitOffset) := by
        rw [hforce, hoffset]
        rw [Nat.succ_mul] at hvalid
        simp
        omega
      rw [CodeReader.nextCode, if_neg hturn]
      show (reader.readCode width >>= fun read => .ok (some read.1, read.2)) = _
      rw [hread]
      rfl
    · rw [hlength, hoffset]

theorem Loaded.behind {rest : List UInt8} (h : reader.Loaded width) (hpos : 0 < width)
    (hbytes : reader.input.drop reader.groupStart = flushCodes group width true ++ rest)
    (hne : group ≠ []) (h8 : group.length ≤ 8) :
    reader.position ≤ reader.input.length ∧ reader.input.drop reader.position = rest ∧
      reader.validBits = 8 * width := by
  have hlength := length_flushCodes_padded width hne h8
  have htotal : reader.input.length - reader.groupStart =
      (flushCodes group width true ++ rest).length := by rw [← hbytes, length_drop]
  rw [length_append, hlength] at htotal
  have hstart := h.start
  have hgroupLength : reader.groupLength = width := by
    have := h.length
    omega
  have hposition := h.next
  rw [hgroupLength] at hposition
  refine ⟨by omega, ?_, ?_⟩
  · rw [hposition, ← List.drop_drop, hbytes, List.drop_left' hlength]
  · rw [h.valid, hgroupLength, Nat.mul_comm width 8, Nat.mul_div_cancel _ hpos]

theorem Feeds.skip {rest : List UInt8} (hpos : 0 < width) (h8 : group.length ≤ 8)
    (h : reader.Feeds force width group (flushCodes group width true ++ rest)) (width' : Nat) :
    reader.Feeds true width' [] rest := by
  cases h with
  | between hposition hbytes hturn => exact .between hposition hbytes (.inl rfl)
  | within hne hforce hloaded hbytes hoffset =>
    obtain ⟨hposition, hrest, -⟩ := hloaded.behind hpos hbytes hne h8
    exact .between hposition hrest (.inl rfl)

theorem Feeds.full {rest : List UInt8} (hpos : 0 < width) (h8 : group.length = 8)
    (h : reader.Feeds false width group (flushCodes group width true ++ rest)) :
    reader.Feeds false width [] rest := by
  cases h with
  | between => exact (nomatch h8)
  | within hne hforce hloaded hbytes hoffset =>
    obtain ⟨hposition, hrest, hvalid⟩ := hloaded.behind hpos hbytes hne h8.le
    exact .between hposition hrest (.inr (by rw [hvalid, hoffset, h8]))

theorem Feeds.at_end (hpos : 7 < width) (h8 : group.length ≤ 8)
    (h : reader.Feeds force width group (flushCodes group width false)) :
    reader.position = reader.input.length ∧
      (force = true ∨ reader.validBits ≤ reader.bitOffset) := by
  cases h with
  | between hposition hbytes hturn =>
    have hdrop := List.drop_eq_nil_iff.mp hbytes
    exact ⟨by omega, hturn⟩
  | within hne hforce hloaded hbytes hoffset =>
    have hlength := length_flushCodes_last width hne
    rw [← hbytes, length_drop] at hlength
    have hle : group.length * width ≤ 8 * width := Nat.mul_le_mul_right _ h8
    have hstart := hloaded.start
    have hgroupLength := hloaded.length
    have hposition := hloaded.next
    have hcodes : reader.groupLength * 8 / width < group.length + 1 := by
      rw [Nat.div_lt_iff_lt_mul (by omega), Nat.succ_mul]
      omega
    refine ⟨by omega, .inr ?_⟩
    rw [hloaded.valid, hoffset]
    exact Nat.mul_le_mul_right _ (Nat.lt_succ_iff.mp hcodes)

theorem nextCode_end (hposition : reader.position = reader.input.length)
    (hturn : force = true ∨ reader.validBits ≤ reader.bitOffset) (width : Nat) :
    reader.nextCode width force = .ok (none, reader) := by
  rw [CodeReader.nextCode, if_pos hturn, refill_end hposition]
  rfl

end CodeReader

namespace Encoder

def afterCode (maximumCodeBits : Nat) (blockMode : Bool) (encoder : Encoder)
    (code : Nat) : Encoder :=
  ((encoder.pushCode code).2.countCode maximumCodeBits blockMode code).2

variable {maximumCodeBits : Nat} {blockMode : Bool} {encoder : Encoder} {reader : CodeReader}
  {force : Bool} {code : Nat} {codes : List Nat}

theorem feeds_growWidth (hpos : 0 < encoder.width) (hgroup : encoder.group.length ≤ 8)
    (h : reader.Feeds force encoder.width encoder.group
      (encoder.encodeCodes maximumCodeBits blockMode (code :: codes))) :
    reader.Feeds (if encoder.Grows maximumCodeBits then true else force)
      (encoder.growWidth maximumCodeBits).2.width (encoder.growWidth maximumCodeBits).2.group
      ((encoder.growWidth maximumCodeBits).2.encodeFrom maximumCodeBits blockMode code codes) := by
  rw [encodeCodes_cons_eq] at h
  by_cases hgrows : encoder.Grows maximumCodeBits
  · rw [growWidth, if_pos hgrows] at h ⊢
    rw [if_pos hgrows]
    exact h.skip hpos hgroup _
  · rw [growWidth, if_neg hgrows] at h ⊢
    rw [if_neg hgrows]
    exact h

theorem feeds_code (hpos : 0 < encoder.width) (hwidth : encoder.width ≤ 16)
    (hinput : reader.input.length < 2 ^ 64) (hgroup : encoder.group.length < 8)
    (hcode : code < 2 ^ encoder.width)
    (h : reader.Feeds force encoder.width encoder.group
      (encoder.encodeFrom maximumCodeBits blockMode code codes)) :
    ∃ reader', reader.nextCode encoder.width force = .ok (some code, reader') ∧
      reader'.input = reader.input ∧
      (encoder.afterCode maximumCodeBits blockMode code).group.length < 8 ∧
      reader'.Feeds (decide (blockMode = true ∧ code = clearCode))
        (encoder.afterCode maximumCodeBits blockMode code).width
        (encoder.afterCode maximumCodeBits blockMode code).group
        ((encoder.afterCode maximumCodeBits blockMode code).encodeCodes maximumCodeBits blockMode
          codes) := by
  obtain ⟨reader', hread, hsame, hloaded, hbytes, hoffset⟩ :=
    h.nextCode hpos hwidth hinput (encodeFrom_opens hgroup code codes) hcode
  refine ⟨reader', hread, hsame, ?_⟩
  have hne : encoder.group ++ [code] ≠ [] := List.append_ne_nil_of_right_ne_nil _ (by simp)
  have hlength : (encoder.group ++ [code]).length = encoder.group.length + 1 := by
    rw [length_append, length_singleton]
  have hwithin := CodeReader.Feeds.within hne rfl hloaded hbytes hoffset
  rw [encodeFrom] at hwithin
  rcases Nat.lt_or_ge encoder.group.length 7 with h7 | h7
  · rw [pushCode_of_lt h7, nil_append] at hwithin
    rw [afterCode, pushCode_of_lt h7]
    by_cases hclear : blockMode = true ∧ code = clearCode
    · rw [countCode, if_pos hclear] at hwithin ⊢
      rw [decide_eq_true hclear]
      exact ⟨Nat.succ_pos 7, hwithin.skip hpos (by omega) _⟩
    · obtain ⟨hemit, hopen, hkeep, -⟩ := countCode_of_not maximumCodeBits blockMode
        { encoder with group := encoder.group ++ [code] } hclear
      rw [hemit, nil_append] at hwithin
      rw [decide_eq_false hclear, hopen, hkeep]
      exact ⟨hlength.trans_lt (by omega), hwithin⟩
  · have h7 : encoder.group.length = 7 := by omega
    rw [pushCode_full h7] at hwithin
    rw [afterCode, pushCode_full h7]
    by_cases hclear : blockMode = true ∧ code = clearCode
    · rw [countCode, if_pos hclear] at hwithin ⊢
      rw [decide_eq_true hclear]
      exact ⟨Nat.succ_pos 7, hwithin.skip hpos (by omega) _⟩
    · obtain ⟨hemit, hopen, hkeep, -⟩ := countCode_of_not maximumCodeBits blockMode
        { encoder with group := [] } hclear
      rw [hemit, nil_append] at hwithin
      rw [decide_eq_false hclear, hopen, hkeep]
      exact ⟨Nat.succ_pos 7, hwithin.full hpos (by omega)⟩

theorem le_length_flush {group : List Nat} {width : Nat} (hwidth : 8 ≤ width)
    (h8 : group.length ≤ 8) (padded : Bool) :
    group.length ≤ (flushCodes group width padded).length := by
  by_cases hne : group = []
  · rw [hne]
    exact Nat.zero_le _
  · have hle : group.length * 8 ≤ group.length * width := Nat.mul_le_mul_left _ hwidth
    have hwhole := le_length_flushCodes width hne h8 padded
    omega

/-- The codes that a step took over or got are in its bytes or in the open group. -/
structure Accounts (before : Nat) (step : List UInt8 × Encoder) : Prop where
  codes : before ≤ step.1.length + step.2.group.length
  group : step.2.group.length < 8
  width : 8 ≤ step.2.width

theorem growWidth_accounts (maximumCodeBits : Nat) (hwidth : 8 ≤ encoder.width)
    (hgroup : encoder.group.length < 8) :
    Accounts encoder.group.length (encoder.growWidth maximumCodeBits) := by
  rw [growWidth]
  split
  · exact ⟨Nat.le_add_right_of_le (le_length_flush hwidth hgroup.le true), Nat.succ_pos 7,
      Nat.le_succ_of_le hwidth⟩
  · exact ⟨Nat.le_add_left _ _, hgroup, hwidth⟩

theorem pushCode_accounts (code : Nat) (hwidth : 8 ≤ encoder.width)
    (hgroup : encoder.group.length < 8) :
    Accounts (encoder.group.length + 1) (encoder.pushCode code) := by
  have hlength : (encoder.group ++ [code]).length = encoder.group.length + 1 := by
    rw [length_append, length_singleton]
  rcases Nat.lt_or_ge encoder.group.length 7 with h7 | h7
  · rw [pushCode_of_lt h7]
    exact ⟨Nat.le_add_left_of_le hlength.ge, hlength.trans_lt (by omega), hwidth⟩
  · rw [pushCode_full (by omega)]
    have hflush : (encoder.group ++ [code]).length ≤ _ := le_length_flush hwidth (by omega) true
    exact ⟨Nat.le_add_right_of_le (hlength ▸ hflush), Nat.succ_pos 7, hwidth⟩

theorem countCode_accounts (maximumCodeBits : Nat) (blockMode : Bool) (code : Nat)
    (hwidth : 8 ≤ encoder.width) (hgroup : encoder.group.length < 8) :
    Accounts encoder.group.length (encoder.countCode maximumCodeBits blockMode code) := by
  by_cases hclear : blockMode = true ∧ code = clearCode
  · rw [countCode, if_pos hclear]
    exact ⟨Nat.le_add_right_of_le (le_length_flush hwidth hgroup.le true), Nat.succ_pos 7,
      (by decide : 8 ≤ initialCodeBits)⟩
  · obtain ⟨-, hopen, hkeep, -⟩ := countCode_of_not maximumCodeBits blockMode
      encoder hclear
    exact ⟨by rw [hopen]; exact Nat.le_add_left _ _, hopen ▸ hgroup, hkeep ▸ hwidth⟩

theorem length_le_encodeCodes (maximumCodeBits : Nat) (blockMode : Bool) (codes : List Nat)
    (hwidth : 8 ≤ encoder.width) (hgroup : encoder.group.length < 8) :
    encoder.group.length + codes.length ≤
      (encoder.encodeCodes maximumCodeBits blockMode codes).length := by
  induction codes generalizing encoder with
  | nil => exact le_length_flush hwidth hgroup.le false
  | cons code codes ih =>
    have hgrow := growWidth_accounts maximumCodeBits hwidth hgroup
    have hpush := pushCode_accounts code hgrow.width hgrow.group
    have hcount := countCode_accounts maximumCodeBits blockMode code hpush.width hpush.group
    have hrest := ih hcount.width hcount.group
    have := hgrow.codes
    have := hpush.codes
    have := hcount.codes
    rw [encodeCodes_cons_eq, encodeFrom, length_append, length_append, length_append,
      List.length_cons]
    omega

end Encoder
end UnixCompress
end Unpackio
