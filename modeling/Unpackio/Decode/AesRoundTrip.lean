/-
Decoding undoes encryption with the 7z AES coder, and both readings of its
properties accept the same ones.
-/
import Unpackio.Decode.Aes

namespace Unpackio
namespace Aes

open List (append_nil flatMap_cons length_append length_cons length_drop length_nil length_take
  map_cons nil_append take_left take_of_length_le take_succ_cons)
open Except (bind_eq_ok ok_bind)

def saltSize (first second : UInt8) : Nat := ((first >>> 7) &&& 1).toNat + (second >>> 4).toNat

def ivSize (first second : UInt8) : Nat := ((first >>> 6) &&& 1).toNat + (second &&& 0x0f).toNat

theorem bit_le (byte : UInt8) : (byte &&& 1).toNat ≤ 1 := by
  rw [UInt8.toNat_and]
  exact Nat.and_le_right

theorem saltSize_le (first second : UInt8) : saltSize first second ≤ 16 := by
  have hbit := bit_le (first >>> 7)
  have hhigh : (second >>> 4).toNat ≤ 15 := by
    have hbyte := second.toNat_lt
    rw [UInt8.toNat_shiftRight, Nat.shiftRight_eq_div_pow]
    show second.toNat / 16 ≤ 15
    omega
  rw [saltSize]
  omega

theorem ivSize_le (first second : UInt8) : ivSize first second ≤ 16 := by
  have hbit := bit_le (first >>> 6)
  have hlow : (second &&& 0x0f).toNat ≤ 15 := by
    rw [UInt8.toNat_and]
    exact Nat.and_le_right
  rw [ivSize]
  omega

/-- A property string with its power, its salt and its initial vector. -/
structure Describes (limits : Limits) (properties : List UInt8) (kdfPower : Nat)
    (salt iv : List UInt8) : Prop where
  bytes : ∃ first second, properties = first :: second :: (salt ++ iv) ∧
    salt.length = saltSize first second ∧ iv.length = ivSize first second ∧
    kdfPower = (first &&& 0x3f).toNat
  admitted : kdfPower = directKdfPower ∨ kdfPower ≤ limits.maxKdfPower

/-- The initial vector of a block. -/
def extendIv (iv : List UInt8) : List UInt8 := iv ++ List.replicate (blockBytes - iv.length) 0

theorem admitted_iff {kdfPower maximum : Nat} :
    ¬(kdfPower ≠ directKdfPower ∧ maximum < kdfPower) ↔
      kdfPower = directKdfPower ∨ kdfPower ≤ maximum := by
  omega

variable {properties : List UInt8} {limits : Limits}

theorem parseProperties_eq_ok {parsed : AesProperties} :
    parseProperties properties limits = .ok parsed ↔
      ∃ iv, Describes limits properties parsed.kdfPower parsed.salt iv ∧
        parsed.iv = extendIv iv := by
  constructor
  · intro h
    simp only [parseProperties, bind_eq_ok, okOr_eq_ok, rejectIf_eq_ok, checkedAdd_eq_some,
      getRange_eq_some] at h
    obtain ⟨first, hfirst, second, hsecond, salts, ⟨-, rfl⟩, ivs, ⟨-, rfl⟩, _, ⟨-, rfl⟩, _,
      ⟨-, rfl⟩, _, hexact, salt, ⟨-, hsalt, rfl⟩, iv, ⟨-, hiv, rfl⟩, _, hblock, _, hpower, h⟩ := h
    cases h
    obtain ⟨rest, rfl⟩ : ∃ rest, properties = first :: second :: rest := by
      match properties, hfirst, hsecond with
      | _ :: _ :: rest, rfl, rfl => exact ⟨rest, rfl⟩
    have hlength : saltSize first second + ivSize first second = rest.length := by
      have hexact := not_not.mp hexact
      rw [length_cons, length_cons] at hexact
      rw [saltSize, ivSize]
      omega
    have hsalts : ((first :: second :: rest).take (2 + saltSize first second)).drop 2 =
        rest.take (saltSize first second) := by
      rw [Nat.add_comm 2, take_succ_cons, take_succ_cons]
      rfl
    have hivs : ((first :: second :: rest).take
        (2 + saltSize first second + ivSize first second)).drop (2 + saltSize first second) =
          rest.drop (saltSize first second) := by
      rw [take_of_length_le (by rw [length_cons, length_cons]; omega),
        Nat.add_comm 2]
      rfl
    have hlengthIv : (rest.drop (saltSize first second)).length = ivSize first second := by
      rw [length_drop]
      omega
    refine ⟨rest.drop (saltSize first second), ⟨⟨first, second, ?_, ?_, hlengthIv, rfl⟩,
      admitted_iff.mp hpower⟩, ?_⟩
    · show first :: second :: rest = first :: second :: (((first :: second :: rest).take
        (2 + saltSize first second)).drop 2 ++ rest.drop (saltSize first second))
      rw [hsalts, List.take_append_drop]
    · refine (congrArg List.length hsalts).trans ?_
      rw [length_take]
      omega
    · rw [extendIv, hlengthIv]
      exact congrArg (· ++ _) hivs
  · rintro ⟨iv, ⟨⟨first, second, rfl, hsalt, hiv, hpower⟩, hadmitted⟩, hparsed⟩
    have hsalts := saltSize_le first second
    have hivs := ivSize_le first second
    have hlength : (first :: second :: (parsed.salt ++ iv)).length =
        2 + saltSize first second + ivSize first second := by
      rw [length_cons, length_cons, length_append, hsalt, hiv]
      omega
    have hsaltRange : getRange (first :: second :: (parsed.salt ++ iv)) 2
        (2 + saltSize first second) = some parsed.salt := by
      refine getRange_eq_some.mpr ⟨Nat.le_add_right _ _, by omega, ?_⟩
      rw [Nat.add_comm 2, take_succ_cons, take_succ_cons, ← hsalt, take_left]
      rfl
    have hivRange : getRange (first :: second :: (parsed.salt ++ iv)) (2 + saltSize first second)
        (2 + saltSize first second + ivSize first second) = some iv := by
      refine getRange_eq_some.mpr ⟨Nat.le_add_right _ _, by omega, ?_⟩
      rw [← hlength, List.take_length, ← hsalt, Nat.add_comm 2]
      exact List.drop_left
    simp only [parseProperties, bind_eq_ok, okOr_eq_ok, rejectIf_eq_ok, checkedAdd_eq_some]
    refine ⟨first, rfl, second, rfl, saltSize first second, ⟨?_, rfl⟩, ivSize first second,
      ⟨?_, rfl⟩, _, ⟨?_, rfl⟩, _, ⟨?_, rfl⟩, (), not_not_intro hlength.symm, parsed.salt,
      hsaltRange, iv, hivRange, (), Nat.not_lt_of_le hivs, (), ?_, ?_⟩
    · exact Nat.lt_of_le_of_lt hsalts (by decide)
    · exact Nat.lt_of_le_of_lt hivs (by decide)
    · omega
    · omega
    · rw [← hpower]
      exact admitted_iff.mpr hadmitted
    · rw [← hpower, ← hiv]
      show Except.ok (AesProperties.mk parsed.kdfPower parsed.salt (extendIv iv)) = _
      rw [← hparsed]

theorem readBytes_eq_ok {reader next : BoundedReader} {length : Nat} {bytes : List UInt8} :
    reader.readBytes length = .ok (bytes, next) ↔
      reader.position + length < 2 ^ 64 ∧ reader.position + length ≤ reader.bytes.length ∧
        (reader.bytes.take (reader.position + length)).drop reader.position = bytes ∧
        reader.bytes = next.bytes ∧ reader.position + length = next.position := by
  obtain ⟨data, position, hposition⟩ := next
  rw [BoundedReader.readBytes, checkedAdd]
  by_cases hlt : reader.position + length < 2 ^ 64
  · rw [if_pos hlt]
    show dite _ _ _ = _ ↔ _
    by_cases hle : reader.position + length ≤ reader.bytes.length
    · rw [dif_pos hle]
      simp only [Except.ok.injEq, Prod.mk.injEq, BoundedReader.mk.injEq, hlt, hle, true_and]
    · rw [dif_neg hle]
      exact ⟨fun h => (by cases h), fun h => absurd h.2.1 hle⟩
  · rw [if_neg hlt]
    exact ⟨fun h => (by cases h), fun h => absurd h.1 hlt⟩

theorem readU8_eq_ok {reader next : BoundedReader} {byte : UInt8} :
    reader.readU8 = .ok (byte, next) ↔
      reader.position + 1 < 2 ^ 64 ∧ reader.bytes[reader.position]? = some byte ∧
        reader.bytes = next.bytes ∧ reader.position + 1 = next.position := by
  have hhead : ((reader.bytes.take (reader.position + 1)).drop reader.position).head? =
      reader.bytes[reader.position]? := by
    rw [List.head?_drop, List.getElem?_take_of_lt (Nat.lt_succ_self _)]
  simp only [BoundedReader.readU8, bind_eq_ok, Prod.exists, readBytes_eq_ok, okOr_eq_ok]
  constructor
  · rintro ⟨bytes, after, ⟨hlt, hle, rfl, hbytes, hposition⟩, first, hfirst, h⟩
    cases h
    exact ⟨hlt, hhead ▸ hfirst, hbytes, hposition⟩
  · rintro ⟨hlt, hbyte, hbytes, hposition⟩
    have hle : reader.position < reader.bytes.length := (List.getElem?_eq_some_iff.mp hbyte).1
    exact ⟨_, next, ⟨hlt, hle, rfl, hbytes, hposition⟩, byte, hhead.trans hbyte, rfl⟩

/-- `validate_coder_properties` reads the same fields with a reader. -/
theorem checkAesProperties_eq_ok :
    checkAesProperties properties limits = .ok () ↔
      ∃ kdfPower salt iv, Describes limits properties kdfPower salt iv := by
  simp only [checkAesProperties, BoundedReader.finish, bind_eq_ok, rejectIf_eq_ok,
    Prod.exists, readU8_eq_ok, readBytes_eq_ok]
  constructor
  · rintro ⟨first, reader₁, ⟨-, hfirst, hbytes₁, hposition₁⟩, second, reader₂,
      ⟨-, hsecond, hbytes₂, hposition₂⟩, fields, reader₃, ⟨-, hle, -, hbytes₃, hposition₃⟩, _,
      hfinish, hpower⟩
    rw [← hbytes₁, ← hposition₁] at hsecond
    obtain ⟨rest, rfl⟩ : ∃ rest, properties = first :: second :: rest := by
      match properties, hfirst, hsecond with
      | _ :: _ :: rest, rfl, rfl => exact ⟨rest, rfl⟩
    have hexact : reader₃.position = reader₃.bytes.length := by
      by_contra hne
      rw [if_neg hne] at hfinish
      cases hfinish
    have hlength : saltSize first second + ivSize first second = rest.length := by
      have hwhole : 2 + (saltSize first second + ivSize first second) =
          (first :: second :: rest).length := by
        rw [← hposition₃, ← hbytes₃, ← hbytes₂, ← hbytes₁, ← hposition₂, ← hposition₁] at hexact
        exact hexact
      rw [length_cons, length_cons] at hwhole
      omega
    refine ⟨_, rest.take (saltSize first second), rest.drop (saltSize first second),
      ⟨first, second, ?_, ?_, ?_, rfl⟩, admitted_iff.mp hpower⟩
    · rw [List.take_append_drop]
    · rw [length_take]
      omega
    · rw [length_drop]
      omega
  · rintro ⟨kdfPower, salt, iv, ⟨first, second, rfl, hsalt, hiv, hpower⟩, hadmitted⟩
    have hsalts := saltSize_le first second
    have hivs := ivSize_le first second
    have hlength : (first :: second :: (salt ++ iv)).length =
        2 + (saltSize first second + ivSize first second) := by
      rw [length_cons, length_cons, length_append, hsalt, hiv]
      omega
    refine ⟨first, ⟨first :: second :: (salt ++ iv), 1, by rw [hlength]; omega⟩,
      ⟨(by decide : (0 : Nat) + 1 < 2 ^ 64), rfl, rfl, rfl⟩, second,
      ⟨first :: second :: (salt ++ iv), 2, by rw [hlength]; omega⟩,
      ⟨(by decide : (1 : Nat) + 1 < 2 ^ 64), rfl, rfl, rfl⟩, _,
      ⟨first :: second :: (salt ++ iv), 2 + (saltSize first second + ivSize first second),
        Nat.le_of_eq hlength.symm⟩, ⟨?_, Nat.le_of_eq hlength.symm, rfl, rfl, rfl⟩, (),
        if_pos hlength.symm, ?_⟩
    · exact Nat.lt_of_le_of_lt (Nat.add_le_add_left (Nat.add_le_add hsalts hivs) 2) (by decide)
    · rw [← hpower]
      exact admitted_iff.mpr hadmitted

theorem validateCoderProperties_aes :
    (∃ dictionary, validateCoderProperties methodAes properties limits = .ok dictionary) ↔
      ∃ parsed, parseProperties properties limits = .ok parsed := by
  have hvalidate : ∀ dictionary, validateCoderProperties methodAes properties limits =
      .ok dictionary ↔ checkAesProperties properties limits = .ok () ∧ none = dictionary := by
    intro dictionary
    show ((Except.ok none : Except Error (Option Nat)) >>= _) = _ ↔ _
    rw [ok_bind, show checkMethodProperties methodAes properties limits =
      checkAesProperties properties limits from rfl]
    cases checkAesProperties properties limits with
    | error e => exact ⟨fun h => (nomatch h), fun h => (nomatch h.1)⟩
    | ok _ =>
      show (Except.ok none : Except Error (Option Nat)) = .ok dictionary ↔ _
      simp only [Except.ok.injEq, true_and]
  constructor
  · rintro ⟨dictionary, h⟩
    obtain ⟨kdfPower, salt, iv, hdescribes⟩ :=
      checkAesProperties_eq_ok.mp ((hvalidate dictionary).mp h).1
    exact ⟨⟨kdfPower, salt, extendIv iv⟩, parseProperties_eq_ok.mpr ⟨iv, hdescribes, rfl⟩⟩
  · rintro ⟨parsed, h⟩
    obtain ⟨iv, hdescribes, -⟩ := parseProperties_eq_ok.mp h
    exact ⟨none, (hvalidate none).mpr ⟨checkAesProperties_eq_ok.mpr ⟨_, _, iv, hdescribes⟩, rfl⟩⟩

def zeroExtend (count : Nat) (bytes : List UInt8) : Vector UInt8 count :=
  Vector.ofFn fun i => bytes[i.val]?.getD 0

theorem toList_zeroExtend (count : Nat) (bytes : List UInt8) :
    (zeroExtend count bytes).toList =
      bytes.take count ++ List.replicate (count - bytes.length) 0 := by
  refine List.ext_getElem ?_ fun i hi hi' => ?_
  · rw [Vector.length_toList, length_append, length_take, List.length_replicate]
    omega
  · rw [Vector.length_toList] at hi
    rw [Vector.getElem_toList]
    show (Vector.ofFn fun i : Fin count => bytes[i.val]?.getD 0)[i] = _
    rw [Vector.getElem_ofFn]
    by_cases hlt : i < bytes.length
    · rw [List.getElem_append_left (by rw [length_take]; omega), List.getElem_take,
        List.getElem?_eq_getElem hlt, Option.getD_some]
    · rw [List.getElem_append_right (by rw [length_take]; omega), List.getElem_replicate,
        List.getElem?_eq_none (Nat.le_of_not_lt hlt), Option.getD_none]

theorem toArray_toList {count : Nat} (array : Vector UInt8 count) :
    toArray count array.toList = some array := by
  rw [toArray, dif_pos Vector.length_toList]
  exact congrArg some (Vector.toList_inj.mp (List.toList_toArray))

def hashInput (salt password : List UInt8) (rounds : Nat) : List UInt8 :=
  (List.range rounds).flatMap fun counter => salt ++ password ++ toLeBytes 8 counter

def derivedKey (primitives : Primitives) (kdfPower : Nat) (salt password : List UInt8) : Key :=
  if kdfPower = directKdfPower then zeroExtend 32 (salt ++ password)
  else primitives.sha256 (hashInput salt password (2 ^ kdfPower))

theorem copyKeyMaterial_zeroExtend {count : Nat} (hcount : count < 2 ^ 64)
    (written material : List UInt8) :
    copyKeyMaterial (zeroExtend count written).toList material (min written.length count) =
      .ok ((zeroExtend count (written ++ material)).toList,
        min (written ++ material).length count) := by
  have hlength : (zeroExtend count written).toList.length = count := Vector.length_toList
  rw [copyKeyMaterial, hlength, length_append]
  by_cases hfull : count ≤ min written.length count ∨ material = []
  · rw [if_pos hfull, toList_zeroExtend, toList_zeroExtend]
    rcases hfull with hfull | rfl
    · have hle : count ≤ written.length := by omega
      have hle' : count ≤ written.length + material.length := Nat.le_add_right_of_le hle
      rw [List.take_append_of_le_length hle, length_append, Nat.sub_eq_zero_of_le hle,
        Nat.sub_eq_zero_of_le hle', Nat.min_eq_right hle, Nat.min_eq_right hle']
    · rw [append_nil, length_nil, Nat.add_zero]
  · have hlt : written.length < count := by omega
    have hle : written.length ≤ count := Nat.le_of_lt hlt
    have htake : (zeroExtend count written).toList.take written.length = written := by
      rw [toList_zeroExtend, take_of_length_le hle, take_left]
    have hdrop : ∀ next, written.length ≤ next →
        (zeroExtend count written).toList.drop next = List.replicate (count - next) 0 := by
      intro next hnext
      rw [toList_zeroExtend, take_of_length_le hle, List.drop_append,
        List.drop_of_length_le hnext, nil_append, List.drop_replicate]
      congr 1
      omega
    rw [if_neg hfull, Nat.min_eq_left hle, checkedSub_of_le hle, okOr_bind]
    show (okOr (checkedAdd _ _) _ >>= _ : Except Error _) = _
    rw [checkedAdd_bind (by omega), rejectIf_of_not (by omega), ok_bind,
      rejectIf_of_not (Nat.not_lt_of_le (Nat.min_le_right _ _)), ok_bind, htake,
      hdrop _ (Nat.le_add_right _ _), ← List.take_eq_take_min, toList_zeroExtend, List.take_append,
      take_of_length_le hle, length_append]
    have hzeros : count - (written.length + min (count - written.length) material.length) =
        count - (written.length + material.length) := by omega
    have hfinish : written.length + min (count - written.length) material.length =
        min (written.length + material.length) count := by omega
    rw [hzeros, hfinish]
    rfl

theorem hashRounds_granted (salt password : List UInt8) (roundWork rounds counter : Nat)
    (fed : List UInt8) :
    (hashRounds salt password roundWork rounds counter fed).granted =
      .ok (fed ++ (List.range' counter rounds).flatMap fun counter =>
        salt ++ password ++ toLeBytes 8 counter) := by
  induction rounds generalizing counter fed with
  | zero => rw [hashRounds, Prog.granted_pure, List.range'_zero, List.flatMap_nil, append_nil]
  | succ rounds ih =>
    rw [hashRounds, checkpoint_bind, ih, List.range'_succ, flatMap_cons]
    simp only [List.append_assoc]

theorem deriveKey_granted (primitives : Primitives) (properties : AesProperties)
    (hpower : properties.kdfPower < 64) (hsalt : properties.salt.length ≤ 16)
    (password : Password) :
    (deriveKey primitives properties password).granted =
      .ok (derivedKey primitives properties.kdfPower properties.salt password.utf16le).toList := by
  have hfits := password.fits
  by_cases hdirect : properties.kdfPower = directKdfPower
  · have hzero : List.replicate keyBytes (0 : UInt8) = (zeroExtend 32 []).toList := by
      rw [toList_zeroExtend]
      rfl
    have hfirst := copyKeyMaterial_zeroExtend (show 32 < 2 ^ 64 by decide) [] properties.salt
    have hsecond := copyKeyMaterial_zeroExtend (show 32 < 2 ^ 64 by decide) properties.salt
      password.utf16le
    rw [nil_append, length_nil, Nat.zero_min] at hfirst
    simp only [deriveKey, derivedKey, if_pos hdirect, hzero, Prog.granted_bind,
      Prog.granted_lift, hfirst, hsecond, ok_bind, checkpoint_granted,
      Prog.granted_pure]
  · have hwork : (checkedAdd properties.salt.length password.utf16le.length).bind
        (fun bytes => checkedAdd bytes 8) =
          some (properties.salt.length + password.utf16le.length + 8) := by
      rw [checkedAdd_of_lt (by omega), Option.bind_some, checkedAdd_of_lt (by omega)]
    simp only [deriveKey, derivedKey, if_neg hdirect, checkedShl_one hpower, hwork, okOr_some,
      Prog.granted_bind, Prog.granted_lift, ok_bind, hashRounds_granted,
      Prog.granted_pure, nil_append, hashInput, List.range_eq_range']

theorem xorBlocks_xorBlocks (a b : Block) : xorBlocks (xorBlocks a b) b = a := by
  refine Vector.ext fun i hi => ?_
  rw [xorBlocks, xorBlocks, Vector.getElem_zipWith, Vector.getElem_zipWith, UInt8.xor_assoc,
    UInt8.xor_self, UInt8.xor_zero]

theorem chunks_flatMap_toList {size : Nat} (hsize : 0 < size) (blocks : List (Vector UInt8 size)) :
    chunks size (blocks.flatMap Vector.toList) = blocks.map Vector.toList := by
  induction blocks with
  | nil => exact chunks_nil hsize
  | cons block blocks ih =>
    have hlength : block.toList.length = size := Vector.length_toList
    have hne : (block :: blocks).flatMap Vector.toList ≠ [] := by
      intro h
      rw [flatMap_cons] at h
      have hempty := congrArg List.length (List.append_eq_nil_iff.mp h).1
      rw [hlength, length_nil] at hempty
      omega
    rw [chunks_of_ne_nil hsize hne, flatMap_cons, List.take_left' hlength,
      List.drop_left' hlength, ih, map_cons]

theorem decryptChunks_granted (cipher : Equiv.Perm Block) (blocks : List Block)
    (previous : Block) :
    (decryptChunks cipher (blocks.map Vector.toList) previous).granted =
      .ok ((Cbc.decrypt xorBlocks cipher previous blocks).flatMap Vector.toList) := by
  induction blocks generalizing previous with
  | nil => rfl
  | cons block blocks ih =>
    rw [map_cons, decryptChunks]
    simp only [Prog.granted_bind, checkpoint_granted, ok_bind, toArray_toList, okOr_some,
      ih, Prog.granted_pure]
    rfl

def plainBlocks (plaintext : List UInt8) : List Block :=
  (chunks blockBytes plaintext).map (zeroExtend 16)

theorem length_plainBlocks (plaintext : List UInt8) :
    (plainBlocks plaintext).length = (plaintext.length + blockBytes - 1) / blockBytes := by
  rw [plainBlocks, List.length_map, chunks, List.length_map, List.length_range]

theorem take_plainBlocks (plaintext : List UInt8) :
    ((plainBlocks plaintext).flatMap Vector.toList).take plaintext.length = plaintext := by
  induction hn : plaintext.length using Nat.strongRecOn generalizing plaintext with
  | _ n ih =>
    subst hn
    by_cases hne : plaintext = []
    · rw [hne]
      rfl
    · have hpos : 0 < plaintext.length := List.length_pos_iff.mpr hne
      have hchunk : (plaintext.take blockBytes).take 16 = plaintext.take blockBytes :=
        take_of_length_le (List.length_take_le _ _)
      rw [plainBlocks, chunks_of_ne_nil (by decide) hne, map_cons, flatMap_cons,
        toList_zeroExtend, hchunk, ← plainBlocks, length_take]
      by_cases hlong : blockBytes ≤ plaintext.length
      · have hrest := ih (plaintext.drop blockBytes).length
          (by rw [length_drop, blockBytes]; omega) _ rfl
        rw [Nat.min_eq_left hlong, show 16 - blockBytes = 0 from rfl, List.replicate_zero,
          append_nil, List.take_append, List.take_take, Nat.min_eq_right hlong,
          length_take, Nat.min_eq_left hlong, ← length_drop, hrest,
          List.take_append_drop]
      · have hshort : plaintext.take blockBytes = plaintext :=
          take_of_length_le (Nat.le_of_not_le hlong)
        rw [hshort, List.append_assoc, take_left]

def aesEncrypt (primitives : Primitives) (kdfPower : Nat)
    (salt iv password plaintext : List UInt8) : List UInt8 :=
  (Cbc.encrypt xorBlocks (primitives.aes256 (derivedKey primitives kdfPower salt password))
    (zeroExtend 16 iv) (plainBlocks plaintext)).flatMap Vector.toList

theorem length_flatMap_toList {size : Nat} (blocks : List (Vector UInt8 size)) :
    (blocks.flatMap Vector.toList).length = blocks.length * size := by
  induction blocks with
  | nil => rw [List.flatMap_nil, length_nil, length_nil, Nat.zero_mul]
  | cons block blocks ih =>
    rw [flatMap_cons, length_append, ih, Vector.length_toList, length_cons,
      Nat.succ_mul, Nat.add_comm]

theorem extendIv_eq {iv : List UInt8} (h : iv.length ≤ 16) :
    extendIv iv = (zeroExtend 16 iv).toList := by
  rw [toList_zeroExtend, take_of_length_le h]
  rfl

theorem decodeAes_aesEncrypt (primitives : Primitives) {kdfPower : Nat} {salt iv : List UInt8}
    (hdescribes : Describes limits properties kdfPower salt iv) (password : Password)
    (plaintext : List UInt8) {maximum : Nat} (hmaximum : plaintext.length ≤ maximum) :
    (decodeAes primitives (aesEncrypt primitives kdfPower salt iv password.utf16le plaintext)
      properties (some plaintext.length) maximum limits (some password)).granted =
        .ok plaintext := by
  obtain ⟨first, second, -, hsalt, hiv, hpower⟩ := hdescribes.bytes
  have hsalts : salt.length ≤ 16 := hsalt ▸ saltSize_le first second
  have hivs : iv.length ≤ 16 := hiv ▸ ivSize_le first second
  have hpowers : kdfPower < 64 := by
    have hle : (first &&& 0x3f).toNat ≤ 63 := by
      rw [UInt8.toNat_and]
      exact Nat.and_le_right
    omega
  have hparse : parseProperties properties limits =
      .ok ⟨kdfPower, salt, (zeroExtend 16 iv).toList⟩ := by
    rw [← extendIv_eq hivs, parseProperties_eq_ok]
    exact ⟨iv, hdescribes, rfl⟩
  have hlength : (aesEncrypt primitives kdfPower salt iv password.utf16le plaintext).length =
      (plaintext.length + blockBytes - 1) / blockBytes * 16 := by
    rw [aesEncrypt, length_flatMap_toList, Cbc.length_encrypt, length_plainBlocks]
  have hroom : ¬(aesEncrypt primitives kdfPower salt iv password.utf16le plaintext).length <
      plaintext.length := by
    rw [hlength, blockBytes]
    omega
  have haligned : ¬(aesEncrypt primitives kdfPower salt iv password.utf16le plaintext).length %
      blockBytes ≠ 0 := by
    rw [hlength]
    exact not_not_intro (Nat.mul_mod_left _ _)
  have hkey := deriveKey_granted primitives ⟨kdfPower, salt, (zeroExtend 16 iv).toList⟩
    hpowers hsalts password
  have hchunks : chunks blockBytes
      (aesEncrypt primitives kdfPower salt iv password.utf16le plaintext) =
        (Cbc.encrypt xorBlocks (primitives.aes256
          (derivedKey primitives kdfPower salt password.utf16le)) (zeroExtend 16 iv)
            (plainBlocks plaintext)).map Vector.toList :=
    @chunks_flatMap_toList 16 (by decide) _
  simp only [decodeAes, okOr_some, Prog.granted_bind, Prog.granted_lift, ok_bind, hparse,
    checkLimit_of_le hmaximum, rejectIf_of_not hroom, rejectIf_of_not haligned, hkey,
    toArray_toList, hchunks, decryptChunks_granted, Prog.granted_pure]
  rw [Cbc.decrypt_encrypt _ xorBlocks_xorBlocks, take_plainBlocks]

/-- Decoding gives back the plaintext of every password and all properties that
the limits admit, and validation admits the same properties. -/
theorem decodeAes_inverts (primitives : Primitives) (limits : Limits) (properties : List UInt8) :
    ((∃ dictionary, validateCoderProperties methodAes properties limits = .ok dictionary) ↔
      ∃ parsed, parseProperties properties limits = .ok parsed) ∧
    ∀ kdfPower salt iv, Describes limits properties kdfPower salt iv →
      ∀ text password, Password.new text = .ok password →
        ∀ (plaintext : List UInt8) (maximum : Nat), plaintext.length ≤ maximum →
          (decodeAes primitives
            (aesEncrypt primitives kdfPower salt iv (utf16leBytes text) plaintext) properties
            (some plaintext.length) maximum limits (some password)).granted = .ok plaintext := by
  refine ⟨validateCoderProperties_aes, ?_⟩
  intro kdfPower salt iv hdescribes text password hpassword plaintext maximum hmaximum
  have htext : utf16leBytes text = password.utf16le := by
    rw [Password.new] at hpassword
    split at hpassword
    · cases hpassword
      rfl
    · cases hpassword
  rw [htext]
  exact decodeAes_aesEncrypt primitives hdescribes password plaintext hmaximum

def oneBlockAes : Primitives where
  sha256 _ := zeroExtend 32 []
  aes256 key :=
    if key = zeroExtend 32 [0x55, 0x66, 0x61, 0, 0x62, 0] then
      Equiv.swap (zeroExtend 16 [0x69, 0x67, 0x6f, 0x6c, 0x6f])
        (zeroExtend 16 [0x00, 0xf3, 0x40, 0x88, 0x9a, 0x0b, 0x13, 0x80, 0x88, 0xf3, 0x3a, 0xfd,
          0x5d, 0x6f, 0x74, 0xe2])
    else .refl Block

theorem aesEncrypt_oneBlockAes :
    aesEncrypt oneBlockAes 0x3f [0x55, 0x66] [1, 2, 3] (utf16leBytes "ab")
      [0x68, 0x65, 0x6c, 0x6c, 0x6f] =
        [0x00, 0xf3, 0x40, 0x88, 0x9a, 0x0b, 0x13, 0x80, 0x88, 0xf3, 0x3a, 0xfd, 0x5d, 0x6f, 0x74,
          0xe2] := by
  decide +kernel

theorem decodeAes_inverts_hello :
    (decodeAes oneBlockAes
      [0x00, 0xf3, 0x40, 0x88, 0x9a, 0x0b, 0x13, 0x80, 0x88, 0xf3, 0x3a, 0xfd, 0x5d, 0x6f, 0x74,
        0xe2]
      [0xff, 0x12, 0x55, 0x66, 1, 2, 3] (some 5) 5 Limits.default
      (some ⟨utf16leBytes "ab", by decide⟩)).granted = .ok [0x68, 0x65, 0x6c, 0x6c, 0x6f] := by
  have h := (decodeAes_inverts oneBlockAes Limits.default [0xff, 0x12, 0x55, 0x66, 1, 2, 3]).2
    0x3f [0x55, 0x66] [1, 2, 3]
    ⟨⟨0xff, 0x12, by decide, by decide, by decide, by decide⟩, .inl rfl⟩ "ab" _
    (dif_pos (by decide)) [0x68, 0x65, 0x6c, 0x6c, 0x6f] 5 (by decide)
  rw [aesEncrypt_oneBlockAes] at h
  exact h

end Aes
end Unpackio
