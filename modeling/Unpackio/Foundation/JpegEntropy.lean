/-
The entropy coding of a sequential JPEG scan.

A block is a list of codes of symbols, each with the bits of its value behind it.
The bits of the blocks up to a restart are filled with ones to whole bytes, and a
byte of ones has a zero behind it, so that a marker can be told from them.  The
decoder reads bit by bit; what it reads is followed with `Reads`, which composes
along `>>=`.
-/
import Mathlib.Data.List.Induction
import Mathlib.Data.Nat.Size
import Unpackio.Foundation.BitPack
import Unpackio.Foundation.JpegLayout

namespace JpegEntropy

open BitPack
open JpegLayout (Place Due)

/-- What is left of the byte that was read last, and the bytes behind it. -/
structure Reader where
  pending : List Bool
  bytes : List UInt8

abbrev Decoder := StateT Reader Option

def byteBits (byte : UInt8) : List Bool := (bitsOf 8 byte.toNat).reverse

def nextByte : List UInt8 → Option (UInt8 × List UInt8)
  | [] => none
  | byte :: bytes =>
    if byte = 0xff then
      match bytes with
      | 0 :: bytes => some (byte, bytes)
      | _ => none
    else some (byte, bytes)

def nextBit : Decoder Bool := fun reader =>
  match reader.pending with
  | bit :: pending => some (bit, { reader with pending := pending })
  | [] => (nextByte reader.bytes).bind fun (byte, bytes) =>
    match byteBits byte with
    | bit :: pending => some (bit, { pending := pending, bytes := bytes })
    | [] => none

/-- A number of so many bits. -/
def receive : Nat → Decoder Nat
  | 0 => return 0
  | count + 1 => do
    let high ← receive count
    let bit ← nextBit
    return 2 * high + bit.toNat

def symbolFrom (lookup : List Bool → Option Nat) : Nat → List Bool → Decoder Nat
  | 0, _ => failure
  | rounds + 1, bits => do
    let bit ← nextBit
    match lookup (bits ++ [bit]) with
    | some symbol => return symbol
    | none => symbolFrom lookup rounds (bits ++ [bit])

def symbol (lookup : List Bool → Option Nat) : Decoder Nat := symbolFrom lookup 16 []

def extend (size number : Nat) : Int :=
  if number < 2 ^ (size - 1) then (number : Int) - (2 ^ size - 1 : Nat) else number

/-- A value whose category is known. -/
def value (size : Nat) : Decoder Int :=
  if size = 0 then return 0
  else do
    let number ← receive size
    return extend size number

/-- The coefficients behind the first one, in the order of the scan. -/
def acCoefficients (lookup : List Bool → Option Nat) :
    Nat → Nat → Vector Int 64 → Decoder (Vector Int 64)
  | 0, _, _ => failure
  | rounds + 1, index, block => do
    let symbol ← symbol lookup
    if symbol % 16 = 0 then
      if symbol / 16 = 15 then acCoefficients lookup rounds (index + 16) block else return block
    else if h : index + symbol / 16 < 64 then do
      let value ← value (symbol % 16)
      let block := block.set (index + symbol / 16) value
      if index + symbol / 16 = 63 then return block
      else acCoefficients lookup rounds (index + symbol / 16 + 1) block
    else failure

/-- The two tables of a component, for the first coefficient and for the others. -/
structure Tables where
  dc : List Bool → Option Nat
  ac : List Bool → Option Nat

def block (tables : Tables) (predicted : Int) : Decoder (Vector Int 64) := do
  let size ← symbol tables.dc
  let difference ← value size
  acCoefficients tables.ac 63 1 ((Vector.replicate 64 0).set 0 (predicted + difference))

def predict (predicted : Nat → Int) (component : Nat) (value : Int) : Nat → Int :=
  fun other => if other = component then value else predicted other

def blocks (tables : Nat → Tables) :
    List Place → (Nat → Int) → Decoder (List (Place × Vector Int 64) × (Nat → Int))
  | [], predicted => return ([], predicted)
  | place :: places, predicted => do
    let coefficients ← block (tables place.component) (predicted place.component)
    let (rest, predicted) ←
      blocks tables places (predict predicted place.component coefficients[0])
    return ((place, coefficients) :: rest, predicted)

def restartNumber (interval number : Nat) : Nat := (number / interval - 1) % 8

/-- A restart marker, behind what is left of the last byte. -/
def restart (number : Nat) : Decoder Unit := fun reader =>
  match reader.bytes with
  | first :: second :: bytes =>
    if first = 0xff ∧ second = UInt8.ofNat (0xd0 + number) then
      some ((), { pending := [], bytes := bytes })
    else none
  | _ => none

def restartIfDue (interval number : Nat) (predicted : Nat → Int) : Decoder (Nat → Int) :=
  if Due interval number then do
    restart (restartNumber interval number)
    return fun _ => 0
  else return predicted

def unitsFrom (tables : Nat → Tables) (interval : Nat) :
    Nat → List (List Place) → (Nat → Int) → Decoder (List (Place × Vector Int 64))
  | _, [], _ => return []
  | number, unit :: units, predicted => do
    let predicted ← restartIfDue interval number predicted
    let (first, predicted) ← blocks tables unit predicted
    let rest ← unitsFrom tables interval (number + 1) units predicted
    return first ++ rest

def decodeScan (tables : Nat → Tables) (interval : Nat) (units : List (List Place))
    (bytes : List UInt8) : Option (List (Place × Vector Int 64)) := do
  let (blocks, reader) ←
    (unitsFrom tables interval 0 units fun _ => 0) { pending := [], bytes := bytes }
  if reader.bytes = [] then some blocks else none

def canonicalFrom : Nat → Nat → List UInt8 → List UInt8 → List (Nat × List Bool)
  | _, _, [], _ => []
  | length, code, count :: counts, symbols =>
    ((symbols.take count.toNat).zipIdx code).map
        (fun entry => (entry.1.toNat, (bitsOf length entry.2).reverse)) ++
      canonicalFrom (length + 1) (2 * (code + count.toNat)) counts (symbols.drop count.toNat)

/-- The symbols with their codes, from the number of codes of each length. -/
def canonical (counts symbols : List UInt8) : List (Nat × List Bool) :=
  canonicalFrom 1 0 counts symbols

def stuffed (bytes : List UInt8) : List UInt8 :=
  bytes.flatMap fun byte => if byte = 0xff then [byte, 0] else [byte]

theorem stuffed_append (first second : List UInt8) :
    stuffed (first ++ second) = stuffed first ++ stuffed second := List.flatMap_append

/-- The ones that fill the last byte. -/
def fill (length : Nat) : List Bool := List.replicate ((8 - length % 8) % 8) true

def entropyBytes (bits : List Bool) : List UInt8 := stuffed (octets (bits ++ fill bits.length))

def valueBits (size : Nat) (value : Int) : List Bool :=
  (bitsOf size (if 0 ≤ value then value else value + (2 ^ size - 1 : Nat)).toNat).reverse

def category (value : Int) : Nat := value.natAbs.size

def coded (code : Nat → Option (List Bool)) (zeros : Nat) (value : Int) : Option (List Bool) := do
  let front ← if category value ≤ 15 then code (zeros * 16 + category value) else none
  return front ++ valueBits (category value) value

def skipZeros (block : Vector Int 64) : Nat → Nat → Nat
  | 0, index => index
  | rounds + 1, index =>
    if index < 63 ∧ block[index]?.getD 0 = 0 then skipZeros block rounds (index + 1) else index

def acBits (code : Nat → Option (List Bool)) (block : Vector Int 64) (last : Nat) :
    Nat → Nat → Option (List Bool)
  | 0, _ => some []
  | rounds + 1, index =>
    if index ≤ last then do
      let next := skipZeros block 15 index
      let front ← coded code (next - index) (block[next]?.getD 0)
      let rest ← acBits code block last rounds (next + 1)
      return front ++ rest
    else some []

/-- The end of a block, unless its last coefficient was written. -/
def endBits (code : Nat → Option (List Bool)) (last : Nat) : Option (List Bool) :=
  if last ≠ 63 then code 0 else some []

/-- The codes of the symbols of a component. -/
structure Codes where
  dc : Nat → Option (List Bool)
  ac : Nat → Option (List Bool)

def blockBits (codes : Codes) (predicted : Int) (block : Vector Int 64) (last : Nat) :
    Option (List Bool) := do
  let first ← coded codes.dc 0 (block[0] - predicted)
  let rest ← acBits codes.ac block last last 1
  let close ← endBits codes.ac last
  return first ++ (rest ++ close)

section

variable (codes : Nat → Codes) (frame : Place → Vector Int 64 × Nat)

def placesBits : List Place → (Nat → Int) → Option (List Bool × (Nat → Int))
  | [], predicted => some ([], predicted)
  | place :: places, predicted => do
    let first ← blockBits (codes place.component) (predicted place.component) (frame place).1
      (frame place).2
    let (rest, predicted) ←
      placesBits places (predict predicted place.component (frame place).1[0])
    return (first ++ rest, predicted)

def scanFrom (interval : Nat) :
    Nat → List (List Place) → (Nat → Int) → Option (List Bool × List UInt8)
  | _, [], _ => some ([], [])
  | number, unit :: units, predicted => do
    let (first, predicted) ←
      placesBits codes frame unit (if Due interval number then fun _ => 0 else predicted)
    let (rest, tail) ← scanFrom interval (number + 1) units predicted
    if Due interval number then
      some ([], 0xff :: UInt8.ofNat (0xd0 + restartNumber interval number) ::
        (entropyBytes (first ++ rest) ++ tail))
    else some (first ++ rest, tail)

/-- The bytes of a scan, unless a symbol has no code. -/
def encodeScan (interval : Nat) (units : List (List Place)) : Option (List UInt8) :=
  (scanFrom codes frame interval 0 units fun _ => 0).map fun result =>
    entropyBytes result.1 ++ result.2

end

def Reader.Holds (reader : Reader) (bits : List Bool) (tail : List UInt8) : Prop :=
  ∃ bytes ones, reader.bytes = stuffed bytes ++ tail ∧
    reader.pending ++ msbBits bytes = bits ++ List.replicate ones true ∧ ones < 8

def Reads {α : Type} (decoder : Decoder α) (bits : List Bool) (a : α) : Prop :=
  ∀ (reader : Reader) (rest : List Bool) (tail : List UInt8), reader.Holds (bits ++ rest) tail →
    ∃ next, decoder reader = some (a, next) ∧ next.Holds rest tail

theorem nextByte_stuffed (byte : UInt8) (bytes : List UInt8) :
    nextByte (stuffed [byte] ++ bytes) = some (byte, bytes) := by
  by_cases h : byte = 0xff
  · subst h
    rfl
  · simp only [stuffed, List.flatMap_cons, List.flatMap_nil, if_neg h, List.append_nil,
      List.cons_append, List.nil_append, nextByte]

variable {bits : List Bool}

namespace Reads

variable {α β : Type}

theorem pure (a : α) : Reads (Pure.pure a) [] a := fun reader _ _ h => ⟨reader, rfl, h⟩

section

variable {decoder : Decoder α} {a : α} (h : Reads decoder bits a)
include h

theorem bind {f : α → Decoder β} {rest : List Bool} {b : β} (hf : Reads (f a) rest b) :
    Reads (decoder >>= f) (bits ++ rest) b := by
  intro reader more tail hreader
  rw [List.append_assoc] at hreader
  obtain ⟨next, hnext, hholds⟩ := h reader _ tail hreader
  obtain ⟨last, hlast, hholds⟩ := hf next more tail hholds
  refine ⟨last, ?_, hholds⟩
  show (decoder reader).bind (fun (a, next) => f a next) = _
  rw [hnext]
  exact hlast

theorem last {f : α → Decoder β} {b : β} (hf : Reads (f a) [] b) :
    Reads (decoder >>= f) bits b := by
  have hlast := h.bind hf
  rwa [List.append_nil] at hlast

theorem map (f : α → β) : Reads (decoder >>= fun a => Pure.pure (f a)) bits (f a) :=
  h.last (.pure (f a))

end

theorem nextBit (bit : Bool) : Reads nextBit [bit] bit := by
  rintro ⟨pending, _⟩ rest tail ⟨bytes, ones, rfl, hbits, hones⟩
  cases pending with
  | cons first pending =>
    obtain ⟨rfl, hrest⟩ := List.cons.inj hbits
    exact ⟨⟨pending, _⟩, rfl, bytes, ones, rfl, hrest, hones⟩
  | nil =>
    cases bytes with
    | nil => cases hbits
    | cons byte bytes =>
      obtain ⟨first, pending, hbyte⟩ : ∃ first pending, byteBits byte = first :: pending :=
        ⟨_, _, rfl⟩
      change byteBits byte ++ msbBits bytes = _ at hbits
      rw [hbyte] at hbits
      obtain ⟨rfl, hrest⟩ := List.cons.inj hbits
      refine ⟨⟨pending, stuffed bytes ++ tail⟩, ?_, bytes, ones, rfl, hrest, hones⟩
      have hbytes :
          stuffed (byte :: bytes) ++ tail = stuffed [byte] ++ (stuffed bytes ++ tail) := by
        rw [stuffed, List.flatMap_cons, List.append_assoc]
        exact congrArg (· ++ _) (List.append_nil _).symm
      show (nextByte (stuffed (byte :: bytes) ++ tail)).bind _ = _
      rw [hbytes, nextByte_stuffed, Option.bind_some]
      dsimp only
      rw [hbyte]

theorem receive (bits : List Bool) : Reads (receive bits.length) bits (ofBits bits.reverse) := by
  induction bits using List.reverseRecOn with
  | nil => exact .pure 0
  | append_singleton bits bit ih =>
    rw [List.length_append, List.length_singleton, List.reverse_append, List.reverse_singleton]
    have hvalue : ofBits ([bit] ++ bits.reverse) = 2 * ofBits bits.reverse + bit.toNat :=
      Nat.add_comm _ _
    rw [hvalue]
    exact ih.bind ((Reads.nextBit bit).map fun bit => 2 * ofBits bits.reverse + bit.toNat)

end Reads

def PrefixFree (code : Nat → Option (List Bool)) : Prop :=
  ∀ first second front bits, code first = some front → code second = some bits → front <+: bits →
    first = second

/-- The lookup finds the codes, which are short and can be told apart. -/
structure Decodes (lookup : List Bool → Option Nat) (code : Nat → Option (List Bool)) : Prop where
  lookup_iff : ∀ bits symbol, lookup bits = some symbol ↔ code symbol = some bits
  length_pos : ∀ symbol bits, code symbol = some bits → 1 ≤ bits.length
  length_le : ∀ symbol bits, code symbol = some bits → bits.length ≤ 16
  free : PrefixFree code

namespace Reads

variable {lookup : List Bool → Option Nat} {code : Nat → Option (List Bool)}

theorem symbolFrom (h : Decodes lookup code) {whole : List Bool} {s rounds : Nat}
    (hcode : code s = some whole) {front rest : List Bool} (hwhole : front ++ rest = whole)
    (hrest : 1 ≤ rest.length) (hrounds : rest.length ≤ rounds) :
    Reads (JpegEntropy.symbolFrom lookup rounds front) rest s := by
  induction rounds generalizing front rest with
  | zero => exact absurd (Nat.le_trans hrest hrounds) (Nat.not_succ_le_zero 0)
  | succ rounds ih =>
    obtain ⟨bit, more, rfl⟩ := List.exists_cons_of_length_pos hrest
    rw [List.length_cons] at hrounds
    have happend : front ++ [bit] ++ more = whole := by
      rw [List.append_assoc]
      exact hwhole
    show Reads _ ([bit] ++ more) s
    refine (Reads.nextBit bit).bind ?_
    cases hlookup : lookup (front ++ [bit]) with
    | none =>
      refine ih happend (Nat.pos_of_ne_zero fun hzero => ?_) (by omega)
      rw [List.length_eq_zero_iff.mp hzero, List.append_nil] at happend
      rw [happend, (h.lookup_iff _ _).mpr hcode] at hlookup
      cases hlookup
    | some other =>
      have hother := (h.lookup_iff _ _).mp hlookup
      obtain rfl := h.free _ _ _ _ hother hcode ⟨more, happend⟩
      rw [hother, Option.some_inj] at hcode
      have hmore : more = [] := by
        rw [← hcode] at happend
        exact List.append_right_eq_self.mp happend
      subst hmore
      exact .pure _

theorem symbol (h : Decodes lookup code) {s : Nat} (hcode : code s = some bits) :
    Reads (JpegEntropy.symbol lookup) bits s :=
  symbolFrom h hcode (List.nil_append bits) (h.length_pos s bits hcode) (h.length_le s bits hcode)

end Reads

@[simp] theorem length_valueBits (size : Nat) (value : Int) :
    (valueBits size value).length = size := by
  rw [valueBits, List.length_reverse, length_bitsOf]

theorem category_eq_zero {value : Int} : category value = 0 ↔ value = 0 := by
  rw [category, Nat.size_eq_zero, Int.natAbs_eq_zero]

theorem extend_valueBits {value : Int} (hvalue : value ≠ 0) :
    extend (category value) (ofBits (valueBits (category value) value).reverse) = value := by
  obtain ⟨low, hlow⟩ : ∃ low, category value = low + 1 :=
    Nat.exists_eq_succ_of_ne_zero fun hzero => hvalue (category_eq_zero.mp hzero)
  have hupper : value.natAbs < 2 ^ category value := Nat.lt_size_self _
  have hlower : 2 ^ low ≤ value.natAbs := Nat.lt_size.mp (by
    change low < category value
    omega)
  rw [valueBits, List.reverse_reverse, ofBits_bitsOf, extend, hlow, Nat.add_sub_cancel]
  rw [hlow, Nat.pow_succ] at hupper
  rw [Nat.pow_succ]
  generalize 2 ^ low = half at *
  by_cases hsign : 0 ≤ value
  · rw [if_pos hsign, Nat.mod_eq_of_lt (by omega), if_neg (by omega)]
    omega
  · rw [if_neg hsign, Nat.mod_eq_of_lt (by omega), if_pos (by omega)]
    omega

theorem Reads.value (value : Int) :
    Reads (JpegEntropy.value (category value)) (valueBits (category value) value) value := by
  rw [JpegEntropy.value]
  by_cases hzero : category value = 0
  · rw [if_pos hzero, hzero, category_eq_zero.mp hzero]
    exact .pure 0
  · rw [if_neg hzero]
    have hread := (Reads.receive (valueBits (category value) value)).map (extend (category value))
    rwa [length_valueBits, extend_valueBits (mt category_eq_zero.mpr hzero)] at hread

/-! ### Blocks -/

/-- The last coefficient that is not zero, or the first. -/
structure LastAt (block : Vector Int 64) (last : Nat) : Prop where
  le : last ≤ 63
  ne_zero : last ≠ 0 → block[last]?.getD 0 ≠ 0
  eq_zero : ∀ index, last < index → block[index]?.getD 0 = 0

def Filled (block : Vector Int 64) (index : Nat) (part : Vector Int 64) : Prop :=
  ∀ other, part[other]?.getD 0 = if other < index then block[other]?.getD 0 else 0

theorem eq_of_getD {first second : Vector Int 64}
    (h : ∀ index : Nat, first[index]?.getD 0 = second[index]?.getD 0) : first = second := by
  refine Vector.ext fun index hlt => ?_
  have hindex := h index
  rwa [Vector.getElem?_eq_getElem hlt, Vector.getElem?_eq_getElem hlt] at hindex

section

variable {block : Vector Int 64} {last index : Nat} {part : Vector Int 64}

section

variable (h : Filled block index part)
include h

theorem Filled.eq (hlast : LastAt block last) (hindex : last < index) : part = block := by
  refine eq_of_getD fun other => ?_
  rw [h other]
  split
  · rfl
  · exact (hlast.eq_zero other (by omega)).symm

theorem Filled.skip {next : Nat} (hle : index ≤ next)
    (hzeros : ∀ other, index ≤ other → other < next → block[other]?.getD 0 = 0) :
    Filled block next part := by
  intro other
  rw [h other]
  by_cases hlt : other < index
  · rw [if_pos hlt, if_pos (by omega)]
  · rw [if_neg hlt]
    split
    · exact (hzeros other (by omega) ‹_›).symm
    · rfl

theorem Filled.set (hlt : index < 64) :
    Filled block (index + 1) (part.set index (block[index]?.getD 0)) := by
  intro other
  rw [Vector.getElem?_set]
  by_cases heq : index = other
  · subst heq
    rw [if_pos rfl, if_pos (Nat.lt_succ_self index), Option.getD_some]
  · rw [if_neg heq, h other]
    by_cases hless : other < index
    · rw [if_pos hless, if_pos (by omega)]
    · rw [if_neg hless, if_neg (by omega)]

end

theorem skipZeros_spec (block : Vector Int 64) (rounds : Nat) {index : Nat} (hindex : index ≤ 63) :
    index ≤ skipZeros block rounds index ∧ skipZeros block rounds index ≤ index + rounds ∧
      skipZeros block rounds index ≤ 63 ∧
      (∀ other, index ≤ other → other < skipZeros block rounds index →
        block[other]?.getD 0 = 0) ∧
      (skipZeros block rounds index = index + rounds ∨ skipZeros block rounds index = 63 ∨
        block[skipZeros block rounds index]?.getD 0 ≠ 0) := by
  induction rounds generalizing index with
  | zero =>
    exact ⟨Nat.le_refl _, Nat.le_refl _, hindex, fun other hle hlt => by
      change other < index at hlt
      omega, .inl rfl⟩
  | succ rounds ih =>
    rw [skipZeros]
    by_cases h : index < 63 ∧ block[index]?.getD 0 = 0
    · rw [if_pos h]
      obtain ⟨hle, hmost, hend, hzeros, hstop⟩ := ih (show index + 1 ≤ 63 by omega)
      refine ⟨by omega, by omega, hend, fun other hother hlt => ?_, by omega⟩
      obtain rfl | hne := Nat.eq_or_lt_of_le hother
      · exact h.2
      · exact hzeros other hne hlt
    · rw [if_neg h]
      refine ⟨Nat.le_refl _, by omega, hindex, fun other hle hlt => by omega, ?_⟩
      by_cases hlast : index = 63
      · exact .inr (.inl hlast)
      · exact .inr (.inr fun hzero => h ⟨by omega, hzero⟩)

variable {lookup : List Bool → Option Nat} {code : Nat → Option (List Bool)}

theorem Reads.endBits (h : Decodes lookup code) (hlast : LastAt block last) (hindex : last < index)
    (hle : index ≤ 63) (hpart : Filled block index part) {rounds : Nat}
    (hrounds : 64 ≤ index + rounds) {close : List Bool}
    (hclose : JpegEntropy.endBits code last = some close) :
    Reads (acCoefficients lookup rounds index part) close block := by
  obtain ⟨more, rfl⟩ : ∃ more, rounds = more + 1 := Nat.exists_eq_succ_of_ne_zero (by omega)
  rw [JpegEntropy.endBits, if_pos (by omega)] at hclose
  rw [hpart.eq hlast hindex]
  refine (Reads.symbol h hclose).last ?_
  exact .pure block

theorem coded_eq_some {zeros : Nat} {value : Int} :
    coded code zeros value = some bits ↔
      category value ≤ 15 ∧ ∃ front, code (zeros * 16 + category value) = some front ∧
        front ++ valueBits (category value) value = bits := by
  rw [coded]
  by_cases hle : category value ≤ 15
  · rw [if_pos hle]
    constructor
    · intro h
      obtain ⟨front, hfront, hbits⟩ := Option.bind_eq_some_iff.mp h
      exact ⟨hle, front, hfront, Option.some_inj.mp hbits⟩
    · rintro ⟨-, front, hfront, rfl⟩
      rw [hfront]
      rfl
  · rw [if_neg hle]
    exact ⟨fun h => (nomatch h), fun h => absurd h.1 hle⟩

theorem Reads.acBits (h : Decodes lookup code) (hlast : LastAt block last) {close : List Bool}
    (hclose : JpegEntropy.endBits code last = some close) {rounds : Nat}
    (hbits : JpegEntropy.acBits code block last rounds index = some bits)
    (hrounds : last < index + rounds) (hpos : 1 ≤ index) (hle : index ≤ 63)
    (hpart : Filled block index part) {more : Nat} (hmore : 64 ≤ index + more) :
    Reads (acCoefficients lookup more index part) (bits ++ close) block := by
  induction rounds generalizing index part bits more with
  | zero =>
    cases hbits
    exact Reads.endBits h hlast hrounds hle hpart hmore hclose
  | succ rounds ih =>
    rw [JpegEntropy.acBits] at hbits
    by_cases hin : index ≤ last
    swap
    · rw [if_neg hin] at hbits
      cases hbits
      exact Reads.endBits h hlast (by omega) hle hpart hmore hclose
    rw [if_pos hin] at hbits
    obtain ⟨more, rfl⟩ : ∃ rest, more = rest + 1 := Nat.exists_eq_succ_of_ne_zero (by omega)
    obtain ⟨hnext, hmost, hend, hzeros, hstop⟩ := skipZeros_spec block 15 hle
    generalize skipZeros block 15 index = next at *
    obtain ⟨zeros, rfl⟩ := Nat.exists_eq_add_of_le hnext
    obtain ⟨front, hfront, hbits⟩ := Option.bind_eq_some_iff.mp hbits
    obtain ⟨rest, hrest, hbits⟩ := Option.bind_eq_some_iff.mp hbits
    cases hbits
    -- The last coefficient is not passed.
    have hin : index + zeros ≤ last := by
      by_contra hlt
      exact hlast.ne_zero (by omega) (hzeros last hin (by omega))
    have hwhole := hlast.le
    rw [Nat.add_sub_cancel_left] at hfront
    obtain ⟨hsize, symbolBits, hsymbol, rfl⟩ := coded_eq_some.mp hfront
    have hmod : (zeros * 16 + category (block[index + zeros]?.getD 0)) % 16 =
        category (block[index + zeros]?.getD 0) := by omega
    have hdiv : (zeros * 16 + category (block[index + zeros]?.getD 0)) / 16 = zeros := by omega
    rw [List.append_assoc, List.append_assoc]
    refine (Reads.symbol h hsymbol).bind ?_
    rw [hmod, hdiv]
    by_cases hzero : block[index + zeros]?.getD 0 = 0
    · -- Sixteen zeros, and more behind them.
      have hne : index + zeros ≠ last := fun heq => hlast.ne_zero (by omega) (heq ▸ hzero)
      obtain rfl : zeros = 15 := by omega
      rw [if_pos (category_eq_zero.mpr hzero), if_pos rfl, hzero]
      have hskipped := hpart.skip (show index ≤ index + 15 + 1 by omega) fun other hge hlt => by
        obtain rfl | hlt := Nat.eq_or_lt_of_le (Nat.le_of_lt_succ hlt)
        · exact hzero
        · exact hzeros other hge hlt
      exact ih hrest (by omega) (by omega) (by omega) hskipped (by omega)
    · have hcategory : category (block[index + zeros]?.getD 0) ≠ 0 := mt category_eq_zero.mp hzero
      have hset := (hpart.skip hnext hzeros).set (show index + zeros < 64 by omega)
      rw [if_neg hcategory, dif_pos (show index + zeros < 64 by omega)]
      refine (Reads.value _).bind ?_
      by_cases hend : index + zeros = 63
      · have hclosed : rest ++ close = [] := by
          rw [JpegEntropy.endBits, if_neg (by omega)] at hclose
          cases hclose
          cases rounds with
          | zero =>
            cases hrest
            rfl
          | succ rounds =>
            rw [JpegEntropy.acBits, if_neg (by omega)] at hrest
            cases hrest
            rfl
        rw [if_pos hend, hclosed, hset.eq hlast (by omega)]
        exact .pure block
      · rw [if_neg hend]
        exact ih hrest (by omega) (by omega) (by omega) hset (by omega)

end

theorem Reads.block {tables : Tables} {codes : Codes} (hdc : Decodes tables.dc codes.dc)
    (hac : Decodes tables.ac codes.ac) {coefficients : Vector Int 64} {last : Nat}
    (hlast : LastAt coefficients last) {predicted : Int} {bits : List Bool}
    (hbits : blockBits codes predicted coefficients last = some bits) :
    Reads (JpegEntropy.block tables predicted) bits coefficients := by
  obtain ⟨first, hfirst, hbits⟩ := Option.bind_eq_some_iff.mp hbits
  obtain ⟨rest, hrest, hbits⟩ := Option.bind_eq_some_iff.mp hbits
  obtain ⟨close, hclose, hbits⟩ := Option.bind_eq_some_iff.mp hbits
  cases hbits
  obtain ⟨-, symbolBits, hsymbol, rfl⟩ := coded_eq_some.mp hfirst
  rw [Nat.zero_mul, Nat.zero_add] at hsymbol
  rw [List.append_assoc]
  refine (Reads.symbol hdc hsymbol).bind ((Reads.value _).bind ?_)
  refine Reads.acBits hac hlast hclose hrest (by omega) (Nat.le_refl 1) (by decide) ?_
    (Nat.le_refl _)
  have hdifference : predicted + (coefficients[0] - predicted) = coefficients[0]?.getD 0 := by
    rw [Vector.getElem?_eq_getElem (by decide), Option.getD_some]
    omega
  rw [hdifference]
  refine Filled.set (fun other => ?_) (by decide)
  rw [if_neg (Nat.not_lt_zero other), Vector.getElem?_replicate]
  split <;> rfl

section

variable {tables : Nat → Tables} {codes : Nat → Codes} {frame : Place → Vector Int 64 × Nat}

/-- The tables of a place decode its codes, and the end of its block is known. -/
structure Readable (tables : Nat → Tables) (codes : Nat → Codes)
    (frame : Place → Vector Int 64 × Nat) (place : Place) : Prop where
  dc : Decodes (tables place.component).dc (codes place.component).dc
  ac : Decodes (tables place.component).ac (codes place.component).ac
  last : LastAt (frame place).1 (frame place).2

theorem Reads.blocks {places : List Place}
    (h : ∀ place ∈ places, Readable tables codes frame place) {predicted : Nat → Int}
    {result : List Bool × (Nat → Int)} (hbits : placesBits codes frame places predicted =
      some result) :
    Reads (JpegEntropy.blocks tables places predicted) result.1
      (places.map fun place => (place, (frame place).1), result.2) := by
  induction places generalizing predicted result with
  | nil =>
    cases hbits
    exact .pure _
  | cons place places ih =>
    obtain ⟨first, hfirst, hbits⟩ := Option.bind_eq_some_iff.mp hbits
    obtain ⟨⟨rest, after⟩, hrest, hbits⟩ := Option.bind_eq_some_iff.mp hbits
    cases hbits
    have hplace := h place List.mem_cons_self
    refine (Reads.block hplace.dc hplace.ac hplace.last hfirst).bind ?_
    refine (ih (fun other hmem => h other (List.mem_cons_of_mem _ hmem)) hrest).last ?_
    exact .pure _

theorem Reader.Holds.bytes_eq {reader : Reader} {tail : List UInt8} (h : reader.Holds [] tail) :
    reader.bytes = tail := by
  obtain ⟨bytes, ones, hbytes, hbits, hones⟩ := h
  have hlength := congrArg List.length hbits
  rw [List.length_append, length_msbBits, List.nil_append, List.length_replicate] at hlength
  have hnil : bytes = [] := List.length_eq_zero_iff.mp (by omega)
  rw [hbytes, hnil]
  rfl

theorem holds_entropyBytes (bits : List Bool) (tail : List UInt8) :
    Reader.Holds { pending := [], bytes := entropyBytes bits ++ tail } bits tail := by
  refine ⟨octets (bits ++ fill bits.length), (8 - bits.length % 8) % 8, rfl, ?_, by omega⟩
  have hlength : (bits ++ fill bits.length).length = 8 * ((bits.length + 7) / 8) := by
    rw [List.length_append, fill, List.length_replicate]
    omega
  exact msbBits_octets hlength

variable {interval : Nat} {units : List (List Place)} {result : List Bool × List UInt8}
  (h : ∀ unit ∈ units, ∀ place ∈ unit, Readable tables codes frame place)
include h

theorem unitsFrom_eq {number : Nat} {predicted : Nat → Int}
    (hscan : scanFrom codes frame interval number units predicted = some result) {reader : Reader}
    (hreader : reader.Holds result.1 result.2) :
    ∃ next, unitsFrom tables interval number units predicted reader =
        some (units.flatten.map fun place => (place, (frame place).1), next) ∧
      next.Holds [] [] := by
  induction units generalizing number predicted result reader with
  | nil =>
    cases hscan
    exact ⟨reader, rfl, hreader⟩
  | cons unit units ih =>
    obtain ⟨⟨first, after⟩, hfirst, hscan⟩ := Option.bind_eq_some_iff.mp hscan
    obtain ⟨⟨rest, tail⟩, hrest, hscan⟩ := Option.bind_eq_some_iff.mp hscan
    dsimp only at hscan
    -- Behind the restart, if there is one, the reader has the bits of the unit.
    obtain ⟨start, hstart, hholds⟩ : ∃ start,
        restartIfDue interval number predicted reader =
          some (if Due interval number then fun _ => 0 else predicted, start) ∧
        start.Holds (first ++ rest) tail := by
      rw [restartIfDue]
      by_cases hdue : Due interval number
      · rw [if_pos hdue] at hscan ⊢
        cases hscan
        refine ⟨_, ?_, holds_entropyBytes (first ++ rest) tail⟩
        have hbytes := hreader.bytes_eq
        show (restart _ reader).bind _ = _
        rw [restart, hbytes]
        dsimp only
        rw [if_pos ⟨rfl, rfl⟩, if_pos hdue]
        rfl
      · rw [if_neg hdue] at hscan ⊢
        cases hscan
        rw [if_neg hdue]
        exact ⟨reader, rfl, hreader⟩
    obtain ⟨middle, hmiddle, hholds⟩ :=
      Reads.blocks (h unit List.mem_cons_self) hfirst start rest tail hholds
    obtain ⟨next, hnext, hholds⟩ :=
      ih (fun other hmem => h other (List.mem_cons_of_mem _ hmem)) hrest hholds
    refine ⟨next, ?_, hholds⟩
    show (restartIfDue interval number predicted reader).bind _ = _
    rw [hstart, Option.bind_some]
    show (JpegEntropy.blocks tables unit _ start).bind _ = _
    rw [hmiddle, Option.bind_some]
    show (unitsFrom tables interval (number + 1) units after middle).bind _ = _
    rw [hnext, Option.bind_some, List.flatten_cons, List.map_append]
    rfl

theorem decodeScan_eq {scan : List UInt8} (hencoded : encodeScan codes frame interval units =
      some scan) :
    decodeScan tables interval units scan =
      some (units.flatten.map fun place => (place, (frame place).1)) := by
  obtain ⟨result, hscan, rfl⟩ := Option.map_eq_some_iff.mp hencoded
  obtain ⟨next, hnext, hholds⟩ := unitsFrom_eq h hscan (holds_entropyBytes result.1 result.2)
  rw [decodeScan, hnext]
  exact if_pos hholds.bytes_eq

end

end JpegEntropy
