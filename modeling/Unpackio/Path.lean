/-
Which archive names are safe as paths, from `path.rs`, and what a path means to a
file system.

A path is read as its code units, bytes or UTF-16 units, each as a number.  Both
encodings write an ASCII character as one unit and keep all others above, so the
two checks see the same path.
-/
import Mathlib.Data.List.Basic

namespace Unpackio
namespace Path

open List (cons_append cons_ne_nil contains_iff_mem flatMap_cons forall_mem_cons map_cons map_nil
  map_singleton mem_cons_self mem_singleton not_mem_nil)

inductive UnsafePathReason where
  | empty
  | nul
  | absolute
  | unc
  | drive
  | traversal
  deriving DecidableEq, Repr

/-- `is_byte_separator` and `is_u16_separator`. -/
def isSeparator (unit : Nat) : Bool := unit = 0x2f || unit = 0x5c

/-- `is_ascii_alphabetic`. -/
def isAsciiAlphabetic (unit : Nat) : Bool :=
  (0x61 ≤ unit && unit ≤ 0x7a) || (0x41 ≤ unit && unit ≤ 0x5a)

/-- The component `..`. -/
def parent : List Nat := [0x2e, 0x2e]

/-- The checks of both functions, on units of any width. -/
def validateUnits (path : List Nat) : Except UnsafePathReason Unit :=
  if path.isEmpty then .error .empty
  else if path.contains 0 then .error .nul
  else match path with
    | [] => .error .empty
    | first :: rest =>
      if isSeparator first then
        if rest.head?.any isSeparator then .error .unc else .error .absolute
      else if isAsciiAlphabetic first ∧ rest.head? = some 0x3a then .error .drive
      else if (path.splitOnP isSeparator).contains parent then .error .traversal
      else .ok ()

def validateSafePath (path : String) : Except UnsafePathReason Unit :=
  validateUnits (path.toByteArray.data.toList.map UInt8.toNat)

def validateSafeUtf16Path (path : List UInt16) : Except UnsafePathReason Unit :=
  validateUnits (path.map UInt16.toNat)

/-- A directory, as the names on the way to it from the root. -/
abbrev Place : Type := List (List Nat)

def Place.step (place : Place) (component : List Nat) : Place :=
  if component = [] ∨ component = [0x2e] then place
  else if component = parent then place.dropLast
  else place ++ [component]

def Place.walk (place : Place) (components : List (List Nat)) : Place :=
  components.foldl Place.step place

def components (path : List Nat) : List (List Nat) := path.splitOnP isSeparator

def HasRoot (path : List Nat) : Prop := ∃ first rest, path = first :: rest ∧ isSeparator first

def HasUnc (path : List Nat) : Prop :=
  ∃ first second rest, path = first :: second :: rest ∧ isSeparator first ∧ isSeparator second

def HasDrive (path : List Nat) : Prop :=
  ∃ letter rest, path = letter :: 0x3a :: rest ∧ isAsciiAlphabetic letter

/-- Nowhere on the way from `base` is the path outside of it. -/
def StaysIn (base : Place) (path : List Nat) : Prop :=
  ∀ front, front <+: components path → base <+: base.walk front

/-- Joined to `base`, the path leads elsewhere. -/
def Escapes (base : Place) (path : List Nat) : Prop :=
  HasRoot path ∨ HasDrive path ∨ ¬StaysIn base path

theorem walk_stays {base place : Place} (hplace : base <+: place) {components : List (List Nat)}
    (hparent : parent ∉ components) : base <+: place.walk components := by
  induction components generalizing place with
  | nil => exact hplace
  | cons component components ih =>
    rw [List.mem_cons, not_or] at hparent
    refine ih ?_ hparent.2
    show base <+: place.step component
    rw [Place.step, if_neg (Ne.symm hparent.1)]
    split
    · exact hplace
    · exact hplace.trans (List.prefix_append _ _)

theorem validateUnits_ok {path : List Nat} (h : validateUnits path = .ok ()) :
    path ≠ [] ∧ 0 ∉ path ∧ ¬HasRoot path ∧ ¬HasDrive path ∧ parent ∉ components path := by
  unfold validateUnits at h
  by_cases hempty : path.isEmpty
  · rw [if_pos hempty] at h
    cases h
  rw [if_neg hempty] at h
  by_cases hnul : path.contains 0
  · rw [if_pos hnul] at h
    cases h
  rw [if_neg hnul] at h
  cases path with
  | nil => cases h
  | cons first rest =>
    simp only at h
    by_cases hroot : isSeparator first
    · rw [if_pos hroot] at h
      split at h <;> cases h
    rw [if_neg hroot] at h
    by_cases hdrive : isAsciiAlphabetic first ∧ rest.head? = some 0x3a
    · rw [if_pos hdrive] at h
      cases h
    rw [if_neg hdrive] at h
    by_cases hparent : ((first :: rest).splitOnP isSeparator).contains parent
    · rw [if_pos hparent] at h
      cases h
    refine ⟨cons_ne_nil _ _, by simpa using hnul, ?_, ?_, by simpa [components] using hparent⟩
    · rintro ⟨_, _, heq, hfirst⟩
      cases heq
      exact hroot hfirst
    · rintro ⟨_, _, heq, hletter⟩
      cases heq
      exact hdrive ⟨hletter, rfl⟩

theorem hasRoot_of_hasUnc {path : List Nat} : HasUnc path → HasRoot path
  | ⟨first, second, rest, heq, hfirst, _⟩ => ⟨first, second :: rest, heq, hfirst⟩

/-! ## Encodings -/

/-- An encoding that writes ASCII characters as single units and all others in units
above them. -/
structure Transparent (encode : Char → List Nat) : Prop where
  ascii : ∀ c : Char, c.toNat < 0x80 → encode c = [c.toNat]
  other : ∀ c : Char, 0x80 ≤ c.toNat → encode c ≠ [] ∧ ∀ unit ∈ encode c, 0x80 ≤ unit

theorem transparent_toNat : Transparent fun c => [c.toNat] :=
  ⟨fun _ _ => rfl, fun _ h => ⟨cons_ne_nil _ _, fun _ hmem => mem_singleton.mp hmem ▸ h⟩⟩

theorem isSeparator_lt {unit : Nat} (h : isSeparator unit) : unit < 0x80 := by
  unfold isSeparator at h
  simp only [Bool.or_eq_true, decide_eq_true_eq] at h
  omega

theorem isAsciiAlphabetic_lt {unit : Nat} (h : isAsciiAlphabetic unit) : unit < 0x80 := by
  unfold isAsciiAlphabetic at h
  simp only [Bool.or_eq_true, Bool.and_eq_true, decide_eq_true_eq] at h
  omega

section Encoding

variable {encode : Char → List Nat} (h : Transparent encode)
include h

theorem mem_flatMap_iff {unit : Nat} (hunit : unit < 0x80) (path : List Char) :
    unit ∈ path.flatMap encode ↔ unit ∈ path.map Char.toNat := by
  have hchar : ∀ c : Char, unit ∈ encode c ↔ unit = c.toNat := by
    intro c
    by_cases hc : c.toNat < 0x80
    · rw [h.ascii c hc, mem_singleton]
    · refine ⟨fun hmem => ?_, fun heq => ?_⟩
      · have hle := (h.other c (by omega)).2 unit hmem
        omega
      · omega
  simp only [List.mem_flatMap, List.mem_map, hchar, eq_comm]

theorem head?_flatMap_iff {unit : Nat} (hunit : unit < 0x80) (path : List Char) :
    (path.flatMap encode).head? = some unit ↔ (path.map Char.toNat).head? = some unit := by
  cases path with
  | nil => exact Iff.rfl
  | cons c path =>
    rw [flatMap_cons, map_cons, List.head?_cons]
    by_cases hc : c.toNat < 0x80
    · rw [h.ascii c hc]
      exact Iff.rfl
    · obtain ⟨hne, hunits⟩ := h.other c (by omega)
      obtain ⟨first, rest, heq⟩ := List.exists_cons_of_ne_nil hne
      have hfirst := hunits first (heq ▸ mem_cons_self)
      rw [heq, cons_append, List.head?_cons, Option.some.injEq, Option.some.injEq]
      exact ⟨fun heq => by omega, fun heq => by omega⟩

theorem flatMap_eq_iff {units : List Nat} (hunits : ∀ unit ∈ units, unit < 0x80)
    (path : List Char) : path.flatMap encode = units ↔ path.map Char.toNat = units := by
  induction path generalizing units with
  | nil => exact Iff.rfl
  | cons c path ih =>
    rw [flatMap_cons, map_cons]
    by_cases hc : c.toNat < 0x80
    · rw [h.ascii c hc, List.singleton_append]
      cases units with
      | nil => exact ⟨fun heq => (nomatch heq), fun heq => (nomatch heq)⟩
      | cons unit units =>
        rw [List.cons.injEq, List.cons.injEq, ih fun u hu => hunits u (List.mem_cons_of_mem _ hu)]
    · obtain ⟨hne, habove⟩ := h.other c (by omega)
      obtain ⟨first, rest, heq⟩ := List.exists_cons_of_ne_nil hne
      have hfirst := habove first (heq ▸ mem_cons_self)
      refine ⟨fun hsame => ?_, fun hsame => ?_⟩
      · have hlt := hunits first (hsame ▸ heq ▸ mem_cons_self)
        omega
      · exact absurd (hunits c.toNat (hsame ▸ mem_cons_self)) hc

variable (path : List Char)

theorem components_flatMap : components (path.flatMap encode) =
    (path.splitOnP fun c => isSeparator c.toNat).map fun component => component.flatMap encode := by
  have hskip : ∀ {units rest : List Nat}, (∀ unit ∈ units, isSeparator unit = false) →
      components (units ++ rest) = (components rest).modifyHead (units ++ ·) := by
    intro units rest hunits
    induction units with
    | nil =>
      rw [List.nil_append]
      cases components rest <;> rfl
    | cons unit units ih =>
      obtain ⟨hunit, hrest⟩ := forall_mem_cons.mp hunits
      rw [cons_append, components, List.splitOnP_cons_eq_if_modifyHead, hunit]
      rw [if_neg Bool.false_ne_true]
      show (components (units ++ rest)).modifyHead _ = _
      rw [ih hrest]
      cases components rest <;> rfl
  induction path with
  | nil => rfl
  | cons c path ih =>
    rw [flatMap_cons, List.splitOnP_cons_eq_if_modifyHead]
    by_cases hc : isSeparator c.toNat
    · rw [h.ascii c (isSeparator_lt hc), List.singleton_append, components,
        List.splitOnP_cons_eq_if_modifyHead, if_pos hc, if_pos hc, map_cons]
      exact congrArg _ ih
    · have hunits : ∀ unit ∈ encode c, isSeparator unit = false := by
        intro unit hmem
        by_cases hlow : c.toNat < 0x80
        · rw [h.ascii c hlow, mem_singleton] at hmem
          rw [hmem]
          exact Bool.eq_false_iff.mpr hc
        · have hle := (h.other c (by omega)).2 unit hmem
          exact Bool.eq_false_iff.mpr fun hsep => absurd (isSeparator_lt hsep) (by omega)
      rw [hskip hunits, ih, if_neg hc]
      cases path.splitOnP fun c => isSeparator c.toNat <;> rfl

theorem parent_mem_components : parent ∈ components (path.flatMap encode) ↔
    ∃ component ∈ path.splitOnP fun c => isSeparator c.toNat,
      component.map Char.toNat = parent := by
  rw [components_flatMap h, List.mem_map]
  refine exists_congr fun component => and_congr_right fun _ => ?_
  exact flatMap_eq_iff h (by decide) component

theorem any_head?_flatMap :
    (path.flatMap encode).head?.any isSeparator =
      (path.map Char.toNat).head?.any isSeparator := by
  rw [Bool.eq_iff_iff, Option.any_eq_true, Option.any_eq_true]
  constructor
  · rintro ⟨unit, hhead, hsep⟩
    exact ⟨unit, (head?_flatMap_iff h (isSeparator_lt hsep) path).mp hhead, hsep⟩
  · rintro ⟨unit, hhead, hsep⟩
    exact ⟨unit, (head?_flatMap_iff h (isSeparator_lt hsep) path).mpr hhead, hsep⟩

theorem contains_zero_flatMap :
    (path.flatMap encode).contains 0 = (path.map Char.toNat).contains 0 := by
  rw [Bool.eq_iff_iff, contains_iff_mem, contains_iff_mem]
  exact mem_flatMap_iff h (by decide) path

theorem contains_parent_flatMap :
    ((path.flatMap encode).splitOnP isSeparator).contains parent =
      ((path.map Char.toNat).splitOnP isSeparator).contains parent := by
  have hchars : path.map Char.toNat = path.flatMap fun c => [c.toNat] := List.map_eq_flatMap
  rw [Bool.eq_iff_iff, contains_iff_mem, contains_iff_mem, hchars]
  exact (parent_mem_components h path).trans (parent_mem_components transparent_toNat path).symm

/-- The checks see the characters of a path, whatever the encoding. -/
theorem validateUnits_flatMap :
    validateUnits (path.flatMap encode) = validateUnits (path.map Char.toNat) := by
  have hzero := contains_zero_flatMap h path
  have hparent := contains_parent_flatMap h path
  cases path with
  | nil => rfl
  | cons c path =>
    rw [flatMap_cons, map_cons] at hzero hparent ⊢
    by_cases hc : c.toNat < 0x80
    · have hcolon := head?_flatMap_iff h (show 0x3a < 0x80 by decide) path
      rw [h.ascii c hc, List.singleton_append] at hzero hparent ⊢
      simp only [validateUnits, List.isEmpty_cons, hzero, hparent, any_head?_flatMap h path, hcolon]
    · obtain ⟨hne, habove⟩ := h.other c (by omega)
      obtain ⟨first, rest, heq⟩ := List.exists_cons_of_ne_nil hne
      have hfirst := habove first (heq ▸ mem_cons_self)
      -- No unit of such a character is a separator or a letter.
      have hplain : ∀ {unit : Nat}, 0x80 ≤ unit →
          isSeparator unit = false ∧ isAsciiAlphabetic unit = false :=
        fun hle => ⟨Bool.eq_false_iff.mpr fun hsep => absurd (isSeparator_lt hsep) (by omega),
          Bool.eq_false_iff.mpr fun hletter => absurd (isAsciiAlphabetic_lt hletter) (by omega)⟩
      obtain ⟨hsep, hletter⟩ := hplain hfirst
      obtain ⟨hsep', hletter'⟩ := hplain (Nat.le_of_not_lt hc)
      rw [heq, cons_append] at hzero hparent ⊢
      simp only [validateUnits, List.isEmpty_cons, hzero, hparent, hsep, hletter, hsep', hletter',
        Bool.false_eq_true, false_and, if_false]

end Encoding

def encodeUtf16Char (c : Char) : List UInt16 :=
  if c.toNat < 0x10000 then [.ofNat c.toNat]
  else [.ofNat (0xd800 + (c.toNat - 0x10000) / 0x400),
    .ofNat (0xdc00 + (c.toNat - 0x10000) % 0x400)]

def encodeUtf16 (path : String) : List UInt16 := path.toList.flatMap encodeUtf16Char

def characters (path : String) : List Nat := path.toList.map Char.toNat

theorem toNat_lt_max (c : Char) : c.toNat < 0x110000 := by
  have hvalid : c.toNat < 0xd800 ∨ 0xdfff < c.toNat ∧ c.toNat < 0x110000 := c.valid
  omega

theorem transparent_utf16 : Transparent fun c => (encodeUtf16Char c).map UInt16.toNat := by
  refine ⟨fun c hc => ?_, fun c hc => ?_⟩
  · rw [encodeUtf16Char, if_pos (by omega), map_singleton, UInt16.toNat_ofNat',
      Nat.mod_eq_of_lt (by omega)]
  · have hmax : c.toNat < 0x110000 := toNat_lt_max c
    unfold encodeUtf16Char
    split
    · refine ⟨cons_ne_nil _ _, fun unit hmem => ?_⟩
      rw [map_singleton, mem_singleton, UInt16.toNat_ofNat'] at hmem
      omega
    · refine ⟨cons_ne_nil _ _, fun unit hmem => ?_⟩
      rw [map_cons, map_singleton, List.mem_pair, UInt16.toNat_ofNat',
        UInt16.toNat_ofNat'] at hmem
      omega

theorem transparent_utf8 : Transparent fun c => (String.utf8EncodeChar c).map UInt8.toNat := by
  have hbyte : ∀ {n : Nat}, n < 256 → 0x80 ≤ n → ∀ {unit : Nat}, unit = (UInt8.ofNat n).toNat →
      0x80 ≤ unit := by
    intro n hlt hle unit heq
    rw [UInt8.toNat_ofNat', Nat.mod_eq_of_lt hlt] at heq
    omega
  refine ⟨fun c hc => ?_, fun c hc => ?_⟩
  · have hc' : c.val.toNat < 0x80 := hc
    rw [String.utf8EncodeChar, if_pos (by omega), map_singleton, UInt8.toNat_ofNat',
      Nat.mod_eq_of_lt (by omega)]
    rfl
  · have hc' : 0x80 ≤ c.val.toNat := hc
    have hmax : c.val.toNat < 0x110000 := toNat_lt_max c
    unfold String.utf8EncodeChar
    simp only
    rw [if_neg (by omega)]
    split
    all_goals try split
    all_goals refine ⟨cons_ne_nil _ _, ?_⟩
    all_goals simp only [map_cons, map_nil, forall_mem_cons, not_mem_nil, false_implies,
      implies_true, and_true]
    · exact ⟨hbyte (by omega) (by omega) rfl, hbyte (by omega) (by omega) rfl⟩
    · exact ⟨hbyte (by omega) (by omega) rfl, hbyte (by omega) (by omega) rfl,
        hbyte (by omega) (by omega) rfl⟩
    · exact ⟨hbyte (by omega) (by omega) rfl, hbyte (by omega) (by omega) rfl,
        hbyte (by omega) (by omega) rfl, hbyte (by omega) (by omega) rfl⟩

theorem bytes_eq (path : String) : path.toByteArray.data.toList.map UInt8.toNat =
    path.toList.flatMap fun c => (String.utf8EncodeChar c).map UInt8.toNat := by
  rw [← String.utf8Encode_toList, List.utf8Encode, List.toList_data_toByteArray, List.map_flatMap]

/-- An accepted path has no prefix of its own and never leaves the directory that it
is joined to, whatever escapes is refused, and both functions agree with the same
reason. -/
theorem validateSafePath_safe (path : String) :
    (validateSafePath path = .ok () → ¬HasRoot (characters path) ∧ ¬HasUnc (characters path) ∧
      ¬HasDrive (characters path) ∧ ∀ base, StaysIn base (characters path)) ∧
    ((∃ base, Escapes base (characters path)) → ∃ reason, validateSafePath path = .error reason) ∧
    validateSafeUtf16Path (encodeUtf16 path) = validateSafePath path := by
  have hutf8 : validateSafePath path = validateUnits (characters path) := by
    rw [validateSafePath, bytes_eq]
    exact validateUnits_flatMap transparent_utf8 path.toList
  have hutf16 : validateSafeUtf16Path (encodeUtf16 path) = validateUnits (characters path) := by
    rw [validateSafeUtf16Path, encodeUtf16, List.map_flatMap]
    exact validateUnits_flatMap transparent_utf16 path.toList
  have hsafe : validateSafePath path = .ok () → ¬HasRoot (characters path) ∧
      ¬HasDrive (characters path) ∧ ∀ base, StaysIn base (characters path) := by
    intro h
    rw [hutf8] at h
    obtain ⟨-, -, hroot, hdrive, hparent⟩ := validateUnits_ok h
    exact ⟨hroot, hdrive, fun base front hfront => walk_stays (List.prefix_refl base)
      fun hmem => hparent (hfront.subset hmem)⟩
  refine ⟨fun h => ?_, ?_, hutf16.trans hutf8.symm⟩
  · obtain ⟨hroot, hdrive, hstays⟩ := hsafe h
    exact ⟨hroot, fun hunc => hroot (hasRoot_of_hasUnc hunc), hdrive, hstays⟩
  · rintro ⟨base, hescapes⟩
    cases hresult : validateSafePath path with
    | error reason => exact ⟨reason, rfl⟩
    | ok value =>
      obtain ⟨hroot, hdrive, hstays⟩ := hsafe hresult
      rcases hescapes with h | h | h
      · exact absurd h hroot
      · exact absurd h hdrive
      · exact absurd (hstays base) h

end Path
end Unpackio
