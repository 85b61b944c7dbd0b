/-
The Name property as bytes: two passes read it inline and one reads it from an
additional stream.  All of them accept the same payloads, the names one after
the other with a zero unit behind each, under the same limits.
-/
import Unpackio.Header.Consumes
import Unpackio.Metadata
import Unpackio.Validate

namespace Unpackio

open List (append_assoc append_nil flatMap_cons flatMap_nil forall_mem_cons length_append
  length_cons)
open Reading (bind_eq_ok checkpoint_eq_ok liftExcept_eq_ok pure_eq_ok)

theorem toLeBytes_codeUnit {bytes : List UInt8} (h : bytes.length = 2) :
    toLeBytes 2 (UInt16.ofNat (fromLeBytes bytes)).toNat = bytes := by
  have hlt : fromLeBytes bytes < 2 ^ 16 := by
    have h' := fromLeBytes_lt bytes
    rw [h] at h'
    exact h'
  rw [UInt16.toNat_ofNat', Nat.mod_eq_of_lt hlt, ← h, toLeBytes_fromLeBytes]

theorem codeUnit_toLeBytes (unit : UInt16) :
    UInt16.ofNat (fromLeBytes (toLeBytes 2 unit.toNat)) = unit := by
  rw [fromLeBytes_toLeBytes, bytePow_two, Nat.mod_eq_of_lt unit.toNat_lt, UInt16.ofNat_toNat]

variable {front rest : List UInt8} {reader : BoundedReader} {name : List UInt16} {limits : Limits}
  {names : List (List UInt16)}

theorem readCodeUnit_iff (hlen : (front ++ rest).length < 2 ^ 64) {unit : UInt16} :
    (readCodeUnit (.split front rest)).granted = .ok (unit, reader) ↔
      ∃ left, rest = toLeBytes 2 unit.toNat ++ left ∧
        reader = .split (front ++ toLeBytes 2 unit.toNat) left := by
  constructor
  · intro h
    obtain ⟨bytes, _, hbytes, h⟩ := bind_eq_ok.mp h
    obtain ⟨_, _, hcheck, h⟩ := bind_eq_ok.mp h
    obtain rfl := checkpoint_eq_ok.mp hcheck
    cases pure_eq_ok.mp h
    obtain ⟨left, rfl, hcount, rfl⟩ := (readBytes_split_iff hlen).mp hbytes
    rw [toLeBytes_codeUnit hcount]
    exact ⟨left, rfl, rfl⟩
  · rintro ⟨left, rfl, rfl⟩
    refine bind_eq_ok.mpr ⟨toLeBytes 2 unit.toNat, .split (front ++ toLeBytes 2 unit.toNat)
      left, ?_, ?_⟩
    · exact (readBytes_split_iff hlen).mpr ⟨left, rfl, length_toLeBytes _ _, rfl⟩
    · refine bind_eq_ok.mpr ⟨(), _, rfl, ?_⟩
      rw [codeUnit_toLeBytes]
      exact pure_eq_ok.mpr rfl

theorem reads_readCodeUnit (unit : UInt16) : Reads readCodeUnit (toLeBytes 2 unit.toNat) unit := by
  intro front rest hlen
  exact (readCodeUnit_iff (by rwa [append_assoc] at hlen)).mpr ⟨rest, rfl, rfl⟩

def nameBytes (name : List UInt16) : List UInt8 :=
  name.flatMap (fun unit => toLeBytes 2 unit.toNat) ++ [0, 0]

theorem nameBytes_nil : nameBytes [] = toLeBytes 2 (0 : UInt16).toNat := rfl

theorem nameBytes_cons (unit : UInt16) (name : List UInt16) :
    nameBytes (unit :: name) = toLeBytes 2 unit.toNat ++ nameBytes name := by
  rw [nameBytes, nameBytes, flatMap_cons, append_assoc]

theorem length_nameBytes (name : List UInt16) :
    (nameBytes name).length = 2 * name.length + 2 := by
  induction name with
  | nil => rfl
  | cons unit name ih =>
    rw [nameBytes_cons, length_append, length_toLeBytes, ih, length_cons]
    omega

def Unterminated (name : List UInt16) : Prop := ∀ unit ∈ name, unit ≠ 0

theorem unterminated_cons {unit : UInt16} :
    Unterminated (unit :: name) ↔ unit ≠ 0 ∧ Unterminated name := forall_mem_cons

theorem readName_reads (hname : Unterminated name) (fuel : Nat)
    (hfuel : (nameBytes name).length ≤ fuel) : Reads (readName fuel) (nameBytes name) name := by
  induction name generalizing fuel with
  | nil =>
    rw [length_nameBytes] at hfuel
    obtain ⟨fuel, rfl⟩ := Nat.exists_eq_succ_of_ne_zero (n := fuel) (by omega)
    exact .bind_nil (reads_readCodeUnit 0) (.pure _)
  | cons unit name ih =>
    obtain ⟨hunit, hname⟩ := unterminated_cons.mp hname
    rw [length_nameBytes, length_cons] at hfuel
    obtain ⟨fuel, rfl⟩ := Nat.exists_eq_succ_of_ne_zero (n := fuel) (by omega)
    have htail := ih hname fuel (by rw [length_nameBytes]; omega)
    rw [nameBytes_cons, readName]
    refine .bind (reads_readCodeUnit unit) ?_
    rw [if_neg hunit]
    exact .bind_nil htail (.pure _)

/-! ## A payload of names -/

/-- The byte counts that the limits allow, from a name with `current` bytes
before it and names with `total` bytes before them. -/
def NamesAllowed (limits : Limits) : Nat → Nat → List (List UInt16) → Prop
  | _, _, [] => True
  | current, total, name :: names =>
    current + 2 * name.length < 2 ^ 64 ∧
      current + 2 * name.length ≤ limits.maxNameBytesPerEntry ∧
      total + (current + 2 * name.length) < 2 ^ 64 ∧
      total + (current + 2 * name.length) ≤ limits.maxTotalNameBytes ∧
      NamesAllowed limits 0 (total + (current + 2 * name.length)) names

/-- What the scan accepts from `rest`: `count` names of the allowed lengths. -/
def Scanned (limits : Limits) (count current total : Nat) (front rest : List UInt8)
    (reader : BoundedReader) (names : List (List UInt16)) : Prop :=
  names.length = count ∧ (∀ name ∈ names, Unterminated name) ∧
    NamesAllowed limits current total names ∧
    ∃ left, rest = names.flatMap nameBytes ++ left ∧
      reader = .split (front ++ names.flatMap nameBytes) left

theorem scanned_zero {current total : Nat} :
    (∃ names, Scanned limits 0 current total front rest reader names) ↔
      reader = .split front rest := by
  constructor
  · rintro ⟨names, hcount, -, -, left, rfl, rfl⟩
    obtain rfl : names = [] := List.length_eq_zero_iff.mp hcount
    rw [flatMap_nil, append_nil, List.nil_append]
  · rintro rfl
    exact ⟨[], rfl, fun name hname => (nomatch hname), trivial, rest, rfl,
      by rw [flatMap_nil, append_nil]⟩

/-- A success of the scan spells out the names.  The induction goes unit by unit,
and a name grows at its front. -/
theorem scanned_of_scanNames {fuel count current total : Nat}
    (hlen : (front ++ rest).length < 2 ^ 64) (hcurrent : current < 2 ^ 64)
    (h : (scanNames limits fuel count current total (.split front rest)).granted =
      .ok ((), reader)) : ∃ names, Scanned limits count current total front rest reader names := by
  induction fuel generalizing count current total front rest with
  | zero =>
    cases count with
    | zero => exact scanned_zero.mpr (Prod.mk.inj (pure_eq_ok.mp h)).2.symm
    | succ count => exact (nomatch h)
  | succ fuel ih =>
    cases count with
    | zero => exact scanned_zero.mpr (Prod.mk.inj (pure_eq_ok.mp h)).2.symm
    | succ count =>
      obtain ⟨unit, _, hunit, h⟩ := bind_eq_ok.mp h
      obtain ⟨rest, rfl, rfl⟩ := (readCodeUnit_iff hlen).mp hunit
      have hlen' : (front ++ toLeBytes 2 unit.toNat ++ rest).length < 2 ^ 64 := by
        rwa [append_assoc]
      by_cases hzero : unit = 0
      · subst hzero
        rw [if_pos rfl] at h
        obtain ⟨_, _, hname, h⟩ := bind_eq_ok.mp h
        obtain ⟨sum, _, hsum, h⟩ := bind_eq_ok.mp h
        obtain ⟨_, _, htotal, h⟩ := bind_eq_ok.mp h
        obtain ⟨hname, rfl⟩ := liftExcept_eq_ok.mp hname
        obtain ⟨hsum, rfl⟩ := liftExcept_eq_ok.mp hsum
        obtain ⟨htotal, rfl⟩ := liftExcept_eq_ok.mp htotal
        obtain ⟨hsumLt, rfl⟩ := checkedAdd_eq_ok.mp hsum
        obtain ⟨names, hcount, hnames, hallowed, left, rfl, rfl⟩ := ih hlen' (by omega) h
        refine ⟨[] :: names, by rw [length_cons, hcount], ?_, ?_, left, ?_, ?_⟩
        · exact forall_mem_cons.mpr ⟨fun unit hunit => (nomatch hunit), hnames⟩
        · exact ⟨hcurrent, checkLimit_eq_ok.mp hname, hsumLt, checkLimit_eq_ok.mp htotal, hallowed⟩
        · rw [flatMap_cons, nameBytes_nil, append_assoc]
        · rw [flatMap_cons, nameBytes_nil, append_assoc]
      · rw [if_neg hzero] at h
        obtain ⟨grown, _, hgrown, h⟩ := bind_eq_ok.mp h
        obtain ⟨_, _, hname, h⟩ := bind_eq_ok.mp h
        obtain ⟨hgrown, rfl⟩ := liftExcept_eq_ok.mp hgrown
        obtain ⟨hname, rfl⟩ := liftExcept_eq_ok.mp hname
        obtain ⟨hgrownLt, rfl⟩ := checkedAdd_eq_ok.mp hgrown
        obtain ⟨names, hcount, hnames, hallowed, left, rfl, rfl⟩ := ih hlen' hgrownLt h
        cases names with
        | nil => exact absurd hcount (by simp)
        | cons name names =>
          obtain ⟨hfirst, hnames⟩ := forall_mem_cons.mp hnames
          have hlength : current + 2 + 2 * name.length = current + 2 * (unit :: name).length := by
            rw [length_cons]
            omega
          refine ⟨(unit :: name) :: names, hcount, ?_, ?_, left, ?_, ?_⟩
          · exact forall_mem_cons.mpr ⟨unterminated_cons.mpr ⟨hzero, hfirst⟩, hnames⟩
          · rwa [NamesAllowed, hlength] at hallowed
          · simp only [flatMap_cons, nameBytes_cons, append_assoc]
          · simp only [flatMap_cons, nameBytes_cons, append_assoc]

theorem scanNames_reads {current total : Nat} (hnames : ∀ name ∈ names, Unterminated name)
    (hallowed : NamesAllowed limits current total names) (fuel : Nat)
    (hfuel : (names.flatMap nameBytes).length ≤ fuel) :
    Reads (scanNames limits fuel names.length current total) (names.flatMap nameBytes) () := by
  induction fuel generalizing names current total with
  | zero =>
    cases names with
    | nil => exact .pure ()
    | cons name names =>
      simp only [flatMap_cons, length_append, length_nameBytes] at hfuel
      omega
  | succ fuel ih =>
    cases names with
    | nil => exact .pure ()
    | cons name names =>
      obtain ⟨hfirst, hothers⟩ := forall_mem_cons.mp hnames
      obtain ⟨hcurrent, hper, hsum, htotal, hallowed⟩ := hallowed
      simp only [flatMap_cons, length_append, length_nameBytes] at hfuel
      cases name with
      | nil =>
        rw [flatMap_cons, nameBytes_nil, length_cons, scanNames]
        refine .bind (reads_readCodeUnit 0) ?_
        rw [if_pos rfl]
        refine .seq_nil (.liftExcept (checkLimit_of_le hper _)) ?_
        refine .seq_nil
          (.liftExcept (okOr_eq_ok.mpr (checkedAdd_of_lt hsum))) ?_
        refine .seq_nil (.liftExcept (checkLimit_of_le htotal _)) ?_
        exact ih hothers hallowed (by omega)
      | cons unit name =>
        obtain ⟨hunit, htail⟩ := unterminated_cons.mp hfirst
        rw [length_cons] at hfuel hcurrent hper hsum htotal hallowed
        have hlength : current + 2 + 2 * name.length = current + 2 * (name.length + 1) := by omega
        rw [flatMap_cons, nameBytes_cons, append_assoc, length_cons, scanNames]
        refine .bind (reads_readCodeUnit unit) ?_
        rw [if_neg hunit]
        refine .seq_nil
          (.liftExcept (okOr_eq_ok.mpr (checkedAdd_of_lt (by omega)))) ?_
        refine .seq_nil (.liftExcept (checkLimit_of_le (by omega) _)) ?_
        have hrest := @ih (name :: names) (current + 2) total
          (forall_mem_cons.mpr ⟨htail, hothers⟩)
          (by rw [NamesAllowed, hlength]; exact ⟨hcurrent, hper, hsum, htotal, hallowed⟩)
          (by simp only [flatMap_cons, length_append, length_nameBytes]; omega)
        exact hrest

/-- The payload of `count` names within the limits. -/
structure NamePayload (limits : Limits) (count : Nat) (payload : List UInt8)
    (names : List (List UInt16)) : Prop where
  count_eq : names.length = count
  unterminated : ∀ name ∈ names, Unterminated name
  allowed : NamesAllowed limits 0 0 names
  payload_eq : payload = names.flatMap nameBytes

theorem repeatReading_readName (hnames : ∀ name ∈ names, Unterminated name) (fuel : Nat)
    (hfuel : (names.flatMap nameBytes).length ≤ fuel) :
    Reads (repeatReading (some <$> readName fuel) names.length) (names.flatMap nameBytes)
      (names.map some) := by
  have hvalues : names.flatMap nameBytes =
      (names.map some).flatMap fun name => nameBytes (name.getD []) := by
    rw [List.flatMap_map]
    rfl
  rw [hvalues]
  have hrepeat : Reads (repeatReading (some <$> readName fuel) (names.map some).length)
      ((names.map some).flatMap fun name => nameBytes (name.getD [])) (names.map some) :=
    reads_repeatReading (names.map some) ?_
  · rwa [List.length_map] at hrepeat
  · intro value hvalue
    obtain ⟨name, hname, rfl⟩ := List.mem_map.mp hvalue
    have hshort : (nameBytes name).length ≤ fuel := by
      refine Nat.le_trans (List.Sublist.length_le ?_) hfuel
      exact List.sublist_flatten_of_mem (List.mem_map_of_mem hname)
    rw [← bind_pure_comp]
    exact .bind_nil (readName_reads (hnames name hname) fuel hshort) (.pure _)

theorem NamePayload.parseNames {count : Nat} {payload : List UInt8}
    (h : NamePayload limits count payload names) (hlen : (0 :: payload).length < 2 ^ 64) :
    (parseNames (0 :: payload) count limits).granted = .ok (.inline (names.map some)) := by
  obtain ⟨rfl, hnames, hallowed, rfl⟩ := h
  have hlen' : ([0] ++ names.flatMap nameBytes ++ []).length < 2 ^ 64 := by
    rwa [append_nil]
  have hflag := reads_readU8 0 [] (names.flatMap nameBytes) hlen
  have hscan := scanNames_reads hnames hallowed (0 :: names.flatMap nameBytes).length
    (by rw [length_cons]; omega) [0] [] hlen'
  have hread := repeatReading_readName hnames (0 :: names.flatMap nameBytes).length
    (by rw [length_cons]; omega) [0] [] hlen'
  rw [append_nil] at hscan hread
  have hfirst : readU8 (.new (0 :: names.flatMap nameBytes)) =
      readU8 (.split [] ([0] ++ names.flatMap nameBytes)) := rfl
  unfold Unpackio.parseNames
  simp only [Prog.granted_bind, hfirst, hflag, Except.ok_bind, ne_eq, not_true_eq_false, if_false,
    List.nil_append, hscan, hread, Prog.granted_lift, BoundedReader.finish_split, if_true,
    rejectIf]
  rfl

theorem parseNames_inline_iff {payload : List UInt8} {count : Nat}
    (hlen : (0 :: payload).length < 2 ^ 64) {values : PropertyValues (List UInt16)} :
    (parseNames (0 :: payload) count limits).granted = .ok values ↔
      ∃ names, NamePayload limits count payload names ∧ values = .inline (names.map some) := by
  constructor
  · intro h
    have hflag := reads_readU8 0 [] payload hlen
    have hscan : ∃ scan, (scanNames limits (0 :: payload).length count 0 0
        (.split [0] payload)).granted = .ok ((), scan) ∧
          scan.finish "Name property was not consumed exactly" = .ok () := by
      unfold parseNames at h
      rw [Prog.granted_bind, show (readU8 (.new (0 :: payload))).granted = _ from hflag,
        Except.ok_bind] at h
      simp only [ne_eq, not_true_eq_false, if_false] at h
      obtain ⟨⟨_, scan⟩, hscan, h⟩ := Prog.granted_bind_eq_ok.mp h
      obtain ⟨_, hfinish, -⟩ := Prog.granted_bind_eq_ok.mp h
      exact ⟨scan, hscan, hfinish⟩
    obtain ⟨scan, hscan, hfinish⟩ := hscan
    obtain ⟨names, hcount, hnames, hallowed, left, rfl, rfl⟩ :=
      scanned_of_scanNames hlen (by decide) hscan
    rw [BoundedReader.finish_split] at hfinish
    obtain rfl : left = [] := Decidable.byContradiction fun hleft => by
      rw [if_neg hleft] at hfinish
      exact (nomatch hfinish)
    have hnames : NamePayload limits count (names.flatMap nameBytes ++ []) names :=
      ⟨hcount, hnames, hallowed, append_nil _⟩
    exact ⟨names, hnames, Except.ok.inj (h.symm.trans (hnames.parseNames hlen))⟩
  · rintro ⟨names, hnames, rfl⟩
    exact hnames.parseNames hlen

/-! ## The external property -/

theorem readExternal_iff (hlen : (front ++ rest).length < 2 ^ 64) {length : Nat}
    {bytes : List UInt8} :
    (readExternal length (.split front rest)).granted = .ok (bytes, reader) ↔
      ∃ left, rest = bytes ++ left ∧ bytes.length = length ∧
        reader = .split (front ++ bytes) left := by
  refine Iff.trans ?_ (readBytes_split_iff hlen)
  constructor
  · intro h
    obtain ⟨_, _, hcheck, h⟩ := bind_eq_ok.mp h
    obtain rfl := checkpoint_eq_ok.mp hcheck
    obtain ⟨_, _, hbytes, h⟩ := bind_eq_ok.mp h
    obtain ⟨_, _, hcheck, h⟩ := bind_eq_ok.mp h
    obtain rfl := checkpoint_eq_ok.mp hcheck
    cases pure_eq_ok.mp h
    exact hbytes
  · intro h
    refine bind_eq_ok.mpr ⟨(), .split front rest, rfl, ?_⟩
    refine bind_eq_ok.mpr ⟨bytes, reader, h, ?_⟩
    exact bind_eq_ok.mpr ⟨(), reader, rfl, pure_eq_ok.mpr rfl⟩

theorem reads_readExternal (written : List UInt8) :
    Reads (readExternal written.length) written written := by
  intro front rest hlen
  exact (readExternal_iff (by rwa [append_assoc] at hlen)).mpr ⟨rest, rfl, rfl, rfl⟩

theorem readExternalName_inv {fuel nameBytes' finalBytes : Nat}
    (hlen : (front ++ rest).length < 2 ^ 64) (hcount : nameBytes' < 2 ^ 64)
    (hallowed : nameBytes' ≤ limits.maxNameBytesPerEntry)
    (h : (readExternalName limits fuel nameBytes' (.split front rest)).granted =
      .ok ((name, finalBytes), reader)) :
    Unterminated name ∧ finalBytes = nameBytes' + 2 * name.length ∧ finalBytes < 2 ^ 64 ∧
      finalBytes ≤ limits.maxNameBytesPerEntry ∧
      ∃ left, rest = nameBytes name ++ left ∧ reader = .split (front ++ nameBytes name) left := by
  induction fuel generalizing nameBytes' front rest name finalBytes with
  | zero => exact (nomatch h)
  | succ fuel ih =>
    obtain ⟨pair, _, hpair, h⟩ := bind_eq_ok.mp h
    obtain ⟨rest, rfl, hpairLength, rfl⟩ := (readExternal_iff hlen).mp hpair
    have hunit := toLeBytes_codeUnit hpairLength
    by_cases hzero : UInt16.ofNat (fromLeBytes pair) = 0
    · rw [hzero] at hunit
      simp only [hzero, if_true] at h
      cases pure_eq_ok.mp h
      refine ⟨fun unit hunit => (nomatch hunit), rfl, hcount, hallowed, rest, ?_, ?_⟩
      · rw [nameBytes_nil, hunit]
      · rw [nameBytes_nil, hunit]
    · simp only [if_neg hzero] at h
      obtain ⟨grown, _, hgrown, h⟩ := bind_eq_ok.mp h
      obtain ⟨_, _, hname, h⟩ := bind_eq_ok.mp h
      obtain ⟨hgrown, rfl⟩ := liftExcept_eq_ok.mp hgrown
      obtain ⟨hname, rfl⟩ := liftExcept_eq_ok.mp hname
      obtain ⟨hgrownLt, rfl⟩ := checkedAdd_eq_ok.mp hgrown
      obtain ⟨⟨tail, total⟩, _, htail, h⟩ := bind_eq_ok.mp h
      cases pure_eq_ok.mp h
      obtain ⟨htailOk, htotal, hlt, hle, left, rfl, rfl⟩ :=
        ih (by rwa [append_assoc]) hgrownLt (checkLimit_eq_ok.mp hname) htail
      refine ⟨unterminated_cons.mpr ⟨hzero, htailOk⟩, ?_, hlt, hle, left, ?_, ?_⟩
      · rw [htotal, @List.length_cons _ _ tail]
        omega
      · rw [nameBytes_cons, hunit, append_assoc]
      · rw [nameBytes_cons, hunit, append_assoc]

theorem readExternalName_reads (hname : Unterminated name) {count : Nat}
    (hlt : count + 2 * name.length < 2 ^ 64)
    (hle : count + 2 * name.length ≤ limits.maxNameBytesPerEntry) (fuel : Nat)
    (hfuel : (nameBytes name).length ≤ fuel) :
    Reads (readExternalName limits fuel count) (nameBytes name)
      (name, count + 2 * name.length) := by
  induction name generalizing count fuel with
  | nil =>
    rw [length_nameBytes] at hfuel
    obtain ⟨fuel, rfl⟩ := Nat.exists_eq_succ_of_ne_zero (n := fuel) (by omega)
    exact .bind_nil (reads_readExternal [0, 0]) (.pure _)
  | cons unit name ih =>
    obtain ⟨hunit, htail⟩ := unterminated_cons.mp hname
    rw [length_nameBytes, length_cons] at hfuel
    rw [length_cons] at hlt hle ⊢
    obtain ⟨fuel, rfl⟩ := Nat.exists_eq_succ_of_ne_zero (n := fuel) (by omega)
    have hlength : count + 2 + 2 * name.length = count + 2 * (name.length + 1) := by omega
    have hrest := @ih htail (count + 2) (by omega) (by omega) fuel
      (by rw [length_nameBytes]; omega)
    have hpair := reads_readExternal (toLeBytes 2 unit.toNat)
    rw [length_toLeBytes] at hpair
    rw [nameBytes_cons, readExternalName]
    refine .bind hpair ?_
    simp only [codeUnit_toLeBytes, if_neg hunit]
    refine .seq_nil (.liftExcept (okOr_eq_ok.mpr (checkedAdd_of_lt (by omega)))) ?_
    refine .seq_nil (.liftExcept (checkLimit_of_le (by omega) _)) ?_
    refine .bind_nil hrest ?_
    rw [hlength]
    exact .pure _

def withNames (entries : List FileEntry) (names : List (List UInt16)) : List FileEntry :=
  entries.zipWith (fun entry name => { entry with rawName := some name }) names

theorem applyNames_inv {limits : Limits} {fuel total finalTotal : Nat}
    {entries result : List FileEntry} (hlen : (front ++ rest).length < 2 ^ 64)
    {reader : BoundedReader}
    (h : (applyDefined (applyExternalName limits fuel)
        (entries.zip (List.replicate entries.length true)) total (.split front rest)).granted =
      .ok ((result, finalTotal), reader)) :
    ∃ names, names.length = entries.length ∧ (∀ name ∈ names, Unterminated name) ∧
      NamesAllowed limits 0 total names ∧ result = withNames entries names ∧
      ∃ left, rest = names.flatMap nameBytes ++ left ∧
        reader = .split (front ++ names.flatMap nameBytes) left := by
  induction entries generalizing front rest total result with
  | nil =>
    cases pure_eq_ok.mp h
    exact ⟨[], rfl, fun name hname => (nomatch hname), trivial, rfl, rest, rfl,
      by rw [flatMap_nil, append_nil]⟩
  | cons entry entries ih =>
    rw [length_cons, List.replicate_succ, List.zip_cons_cons, applyDefined] at h
    obtain ⟨_, _, hcheck, h⟩ := bind_eq_ok.mp h
    obtain rfl := checkpoint_eq_ok.mp hcheck
    rw [if_pos rfl] at h
    obtain ⟨⟨named, total'⟩, _, hnamed, h⟩ := bind_eq_ok.mp h
    obtain ⟨⟨others, finalTotal'⟩, _, hothers, h⟩ := bind_eq_ok.mp h
    cases pure_eq_ok.mp h
    obtain ⟨⟨name, count⟩, _, hname, hnamed⟩ := bind_eq_ok.mp hnamed
    obtain ⟨sum, _, hsum, hnamed⟩ := bind_eq_ok.mp hnamed
    obtain ⟨_, _, hlimit, hnamed⟩ := bind_eq_ok.mp hnamed
    obtain ⟨hsum, rfl⟩ := liftExcept_eq_ok.mp hsum
    obtain ⟨hlimit, rfl⟩ := liftExcept_eq_ok.mp hlimit
    obtain ⟨hsumLt, rfl⟩ := checkedAdd_eq_ok.mp hsum
    cases pure_eq_ok.mp hnamed
    obtain ⟨hfirst, hcount, hlt, hle, left, rfl, rfl⟩ :=
      readExternalName_inv hlen (by decide) (Nat.zero_le _) hname
    subst hcount
    obtain ⟨names, hlength, hnames, hallowed, rfl, left, rfl, rfl⟩ :=
      ih (by rwa [append_assoc]) hothers
    refine ⟨name :: names, by rw [length_cons, hlength, length_cons],
      forall_mem_cons.mpr ⟨hfirst, hnames⟩,
      ⟨hlt, hle, hsumLt, checkLimit_eq_ok.mp hlimit, hallowed⟩, rfl, left, ?_, ?_⟩
    · rw [flatMap_cons, append_assoc]
    · rw [flatMap_cons, append_assoc]

theorem applyNames_reads {entries : List FileEntry} (hlength : names.length = entries.length)
    {total : Nat} (hnames : ∀ name ∈ names, Unterminated name)
    (hallowed : NamesAllowed limits 0 total names) (fuel : Nat)
    (hfuel : (names.flatMap nameBytes).length ≤ fuel) :
    ∃ finalTotal, Reads (applyDefined (applyExternalName limits fuel)
        (entries.zip (List.replicate entries.length true)) total) (names.flatMap nameBytes)
      (withNames entries names, finalTotal) := by
  induction entries generalizing names total with
  | nil =>
    obtain rfl : names = [] := List.length_eq_zero_iff.mp hlength
    exact ⟨total, .pure _⟩
  | cons entry entries ih =>
    cases names with
    | nil => exact (nomatch hlength)
    | cons name names =>
      obtain ⟨hfirst, hothers⟩ := forall_mem_cons.mp hnames
      obtain ⟨hlt, hle, hsum, htotal, hallowed⟩ := hallowed
      rw [flatMap_cons, length_append] at hfuel
      obtain ⟨finalTotal, hrest⟩ := ih (Nat.succ.inj hlength) hothers hallowed (by omega)
      have hname := readExternalName_reads hfirst hlt hle fuel (by omega)
      refine ⟨finalTotal, ?_⟩
      rw [length_cons, List.replicate_succ, List.zip_cons_cons, applyDefined,
        flatMap_cons]
      refine .seq_nil (.lift (checkpoint_granted 1)) ?_
      rw [if_pos rfl]
      refine .bind (a := ({ entry with rawName := some name }, total + (0 + 2 * name.length)))
        ?_ (.bind_nil hrest (.pure _))
      refine .bind_nil hname ?_
      refine .seq_nil (.liftExcept (okOr_eq_ok.mpr (checkedAdd_of_lt hsum))) ?_
      exact .seq_nil (.liftExcept (checkLimit_of_le htotal _)) (.pure _)

end Unpackio
