/-
The codes of a Huffman table whose header is accepted: none is the beginning of
another.
-/
import Unpackio.Jpeg.Headers
import Unpackio.Jpeg.WriterExact

namespace Unpackio
namespace Jpeg

open BitPack

/-- The symbols have short codes, none of which is the beginning of another. -/
structure HuffTable.Good (table : HuffTable) : Prop where
  short : table.Short
  below : ∀ (symbol : Nat) code, table[symbol]? = some code → code.length ≠ 0 →
    code.code < 2 ^ code.length
  apart : ∀ (first second : Nat) front code, table[first]? = some front →
    table[second]? = some code → front.length ≠ 0 → front.length ≤ code.length →
    code.code / 2 ^ (code.length - front.length) = front.code → first = second

theorem HuffTable.codeOf_eq_some {table : HuffTable} {symbol : Nat} {bits : List Bool} :
    table.codeOf symbol = some bits ↔ ∃ code, table[symbol]? = some code ∧ code.length ≠ 0 ∧
      (bitsOf code.length code.code).reverse = bits := by
  constructor
  · intro h
    obtain ⟨code, hget, hcode⟩ := Option.bind_eq_some_iff.mp h
    by_cases hzero : code.length = 0
    · rw [if_pos hzero] at hcode
      cases hcode
    · rw [if_neg hzero] at hcode
      exact ⟨code, hget, hzero, Option.some.inj hcode⟩
  · rintro ⟨code, hget, hzero, rfl⟩
    rw [codeOf, hget, Option.bind_some, if_neg hzero]

theorem HuffTable.Good.prefixFree {table : HuffTable} (h : table.Good) :
    JpegEntropy.PrefixFree table.codeOf := by
  intro first second front bits hfirst hsecond hbegins
  obtain ⟨entry, hentry, hzero, rfl⟩ := codeOf_eq_some.mp hfirst
  obtain ⟨code, hcode, hlength, rfl⟩ := codeOf_eq_some.mp hsecond
  have hle := hbegins.length_le
  rw [List.length_reverse, List.length_reverse, length_bitsOf, length_bitsOf] at hle
  obtain ⟨rest, hrest⟩ := hbegins
  have hcount := congrArg List.length hrest
  rw [List.length_append, List.length_reverse, List.length_reverse, length_bitsOf,
    length_bitsOf] at hcount
  -- The number of the longer code begins with that of the shorter one.
  have hnumber := congrArg (fun bits => ofBits bits.reverse) hrest
  rw [List.reverse_append, List.reverse_reverse, List.reverse_reverse, ofBits_append,
    List.length_reverse, ofBits_bitsOf, ofBits_bitsOf, Nat.mod_eq_of_lt (h.below _ _ hentry hzero),
    Nat.mod_eq_of_lt (h.below _ _ hcode hlength)] at hnumber
  have hlow := ofBits_lt rest.reverse
  rw [List.length_reverse] at hlow
  refine h.apart first second entry code hentry hcode hzero hle ?_
  have hrestLength : code.length - entry.length = rest.length := by omega
  rw [hrestLength, ← hnumber, Nat.add_mul_div_left _ _ (Nat.two_pow_pos _), Nat.div_eq_of_lt hlow,
    Nat.zero_add]

theorem HuffTable.empty_length {symbol : Nat} {code : HuffCode}
    (h : HuffTable.empty[symbol]? = some code) : code.length = 0 := by
  rw [HuffTable.empty, Vector.getElem?_replicate] at h
  split at h
  · cases h
    rfl
  · cases h

theorem HuffTable.empty_good : HuffTable.empty.Good := by
  refine ⟨fun symbol code h => ?_, fun symbol code h hlength => ?_,
    fun first second front code h _ hlength => ?_⟩
  · rw [HuffTable.empty_length h]
    exact Nat.zero_le _
  · exact absurd (HuffTable.empty_length h) hlength
  · exact absurd (HuffTable.empty_length h) hlength

/-! ## Building a table -/

/-- All codes are below the next one of a length, and none is longer than another length. -/
structure CodeState.Holds (longest level : Nat) (state : CodeState) : Prop where
  length_le : ∀ (symbol : Nat) code, state.table[symbol]? = some code → code.length ≤ longest
  below : ∀ (symbol : Nat) code, state.table[symbol]? = some code → code.length ≠ 0 →
    code.code < 2 ^ code.length
  before : ∀ (symbol : Nat) code, state.table[symbol]? = some code → code.length ≠ 0 →
    (code.code + 1) * 2 ^ (level - code.length) ≤ state.code
  apart : ∀ (first second : Nat) front code, state.table[first]? = some front →
    state.table[second]? = some code → front.length ≠ 0 → front.length ≤ code.length →
    code.code / 2 ^ (code.length - front.length) = front.code → first = second

variable {length : Nat} {state : CodeState} {metadata : Metadata}

section

variable (symbols : List UInt8)

section

variable {longest : Nat} (hlongest : longest ≤ length) (hpos : 1 ≤ length)
  (h : state.Holds longest length)
include hlongest hpos h

theorem assignSymbol_ensures (hcode : state.code < 2 ^ length) :
    (assignSymbol symbols length state).Ensures fun next =>
      next.Holds length length ∧ next.code = state.code + 1 := by
  refine .skip fun symbol => .skip fun _ => .skip fun _ => .skip fun _ => .skip fun _ => ?_
  refine .bind okOr_ensures fun code htry => .bind okOr_ensures fun long hlong => ?_
  refine .bind setAt_ensures ?_
  rintro table ⟨hsymbol, rfl⟩
  obtain ⟨-, rfl⟩ := tryFrom_eq_some.mp htry
  obtain ⟨-, rfl⟩ := tryFrom_eq_some.mp hlong
  -- An entry is the new one or one of the table.
  have hcases : ∀ (other : Nat) (entry : HuffCode),
      (state.table.set symbol.toNat { code := state.code, length := length })[other]? = some entry →
      other = symbol.toNat ∧ entry = { code := state.code, length := length } ∨
        other ≠ symbol.toNat ∧ state.table[other]? = some entry := by
    intro other entry hentry
    rw [Vector.getElem?_set] at hentry
    by_cases heq : symbol.toNat = other
    · rw [if_pos heq] at hentry
      exact .inl ⟨heq.symm, (Option.some.inj hentry).symm⟩
    · rw [if_neg heq] at hentry
      exact .inr ⟨fun hne => heq hne.symm, hentry⟩
  refine .pure ⟨⟨fun other entry hentry => ?_, fun other entry hentry hzero => ?_,
    fun other entry hentry hzero => ?_, fun first second front entry hfirst hsecond hzero hle heq =>
      ?_⟩,
    rfl⟩
  · obtain ⟨-, rfl⟩ | ⟨-, hold⟩ := hcases other entry hentry
    · exact Nat.le_refl _
    · exact Nat.le_trans (h.length_le other entry hold) hlongest
  · obtain ⟨-, rfl⟩ | ⟨-, hold⟩ := hcases other entry hentry
    · exact hcode
    · exact h.below other entry hold hzero
  · obtain ⟨-, rfl⟩ | ⟨-, hold⟩ := hcases other entry hentry
    · dsimp only
      rw [Nat.sub_self, Nat.pow_zero, Nat.mul_one]
    · exact Nat.le_succ_of_le (h.before other entry hold hzero)
  · obtain ⟨rfl, rfl⟩ | ⟨hne, hold⟩ := hcases first front hfirst
    · obtain ⟨rfl, -⟩ | ⟨-, hold⟩ := hcases second entry hsecond
      · rfl
      · -- A code of the same length is before the new one.
        have hmost := h.length_le second entry hold
        dsimp only at hle heq
        have hequal : entry.length = length := by omega
        have hbefore := h.before second entry hold (by omega)
        rw [hequal, Nat.sub_self, Nat.pow_zero, Nat.mul_one] at hbefore
        rw [hequal, Nat.sub_self, Nat.pow_zero, Nat.div_one] at heq
        omega
    · obtain ⟨rfl, rfl⟩ | ⟨-, hold'⟩ := hcases second entry hsecond
      · have hbefore := h.before first front hold hzero
        dsimp only at heq
        have hquotient := (Nat.le_div_iff_mul_le (Nat.two_pow_pos _)).mpr hbefore
        omega
      · exact h.apart first second front entry hold hold' hzero hle heq

theorem assignSymbols_ensures {count : Nat} (hcode : state.code + count ≤ 2 ^ length) :
    (assignSymbols symbols length count state).Ensures fun next =>
      next.Holds length length ∧ next.code = state.code + count := by
  induction count generalizing state longest with
  | zero =>
    exact .pure ⟨⟨fun symbol code hget => Nat.le_trans (h.length_le symbol code hget) hlongest,
      h.below, h.before, h.apart⟩, rfl⟩
  | succ count ih =>
    refine .bind (assignSymbol_ensures symbols hlongest hpos h (by omega)) fun next hnext => ?_
    refine (ih (Nat.le_refl length) hnext.1 (by rw [hnext.2]; omega)).mono fun last hlast => ?_
    exact ⟨hlast.1, by rw [hlast.2, hnext.2]; omega⟩

end

theorem assignLength_ensures {index : Nat} (hindex : index < 16) (count : UInt8)
    (h : state.Holds index (index + 1)) :
    (assignLength symbols state (count, index)).Ensures
      (CodeState.Holds (index + 1) (index + 1 + 1)) := by
  refine .bind okOr_ensures fun limit hlimit => .bind okOr_ensures fun after hafter => ?_
  refine .bind rejectIf_ensures fun _ hfits => ?_
  dsimp only at hlimit hafter hfits ⊢
  rw [checkedShl_one (by omega), Option.some_inj] at hlimit
  obtain ⟨-, hsum⟩ := tryFrom_eq_some.mp hafter
  have hpow : 2 ^ (index + 1) ≤ 2 ^ 16 := Nat.pow_le_pow_right (by decide) hindex
  have hcode : state.code + count.toNat ≤ 2 ^ (index + 1) := by omega
  refine .bind (assignSymbols_ensures symbols (Nat.le_succ index) (by omega) h hcode) ?_
  rintro next ⟨hnext, hnextCode⟩
  refine .bind okOr_ensures fun code hshift => .pure ?_
  have hdouble : code = next.code * 2 := by
    rw [checkedShl, if_pos (by decide), Option.some_inj, Nat.shiftLeft_eq, Nat.pow_one,
      Nat.mod_eq_of_lt (by omega)] at hshift
    exact hshift.symm
  refine ⟨hnext.length_le, hnext.below, fun symbol entry hget hzero => ?_, hnext.apart⟩
  have hlength := hnext.length_le symbol entry hget
  have hbefore := hnext.before symbol entry hget hzero
  dsimp only at hget ⊢
  rw [hdouble, Nat.sub_add_comm hlength, Nat.pow_succ, ← Nat.mul_assoc]
  exact Nat.mul_le_mul_right 2 hbefore

theorem assignLengths_ensures (counts : List UInt8) {index : Nat}
    (hindex : index + counts.length ≤ 16) (h : state.Holds index (index + 1)) :
    ((counts.zipIdx index).foldlM (assignLength symbols) state).Ensures
      (CodeState.Holds (index + counts.length) (index + counts.length + 1)) := by
  induction counts generalizing index state with
  | nil => exact .pure h
  | cons count counts ih =>
    rw [List.length_cons] at hindex ⊢
    rw [List.zipIdx_cons, List.foldlM_cons]
    refine .bind (assignLength_ensures symbols (by omega) count h) fun next hnext => ?_
    have hrest := ih (show index + 1 + counts.length ≤ 16 by omega) hnext
    rwa [Nat.add_assoc index 1, Nat.add_comm 1] at hrest

theorem buildCodes_ensures {counts : List UInt8} (hcounts : counts.length ≤ 16) :
    (buildCodes counts symbols).Ensures HuffTable.Good := by
  have hempty := HuffTable.empty_good
  have hstart : CodeState.Holds 0 (0 + 1)
      { table := HuffTable.empty, seen := Vector.replicate 256 false, code := 0,
        symbolPosition := 0 } :=
    ⟨fun symbol code h => Nat.le_of_eq (HuffTable.empty_length h), hempty.below,
      fun symbol code h hlength => absurd (HuffTable.empty_length h) hlength, hempty.apart⟩
  refine .bind (assignLengths_ensures symbols counts (by omega) hstart) fun state hstate => .pure ?_
  exact ⟨fun symbol code hget => Nat.le_trans (hstate.length_le symbol code hget) (by omega),
    hstate.below, hstate.apart⟩

end

/-! ## The codes of the standard -/

/-- The symbols that have a code so far, which are those that were seen. -/
structure CodeState.Assigned (codes : List (Nat × List Bool)) (state : CodeState) : Prop where
  code_iff : ∀ symbol bits, state.table.codeOf symbol = some bits ↔ (symbol, bits) ∈ codes
  seen : ∀ symbol bits, state.table.codeOf symbol = some bits → state.seen[symbol]? = some true

theorem HuffTable.codeOf_empty (symbol : Nat) : HuffTable.empty.codeOf symbol = none := by
  rw [codeOf, empty, Vector.getElem?_replicate]
  split <;> rfl

theorem HuffTable.codeOf_set (table : HuffTable) {symbol : Nat} (hsymbol : symbol < 256)
    (code : HuffCode) (hlength : code.length ≠ 0) (other : Nat) :
    HuffTable.codeOf (table.set symbol code) other =
      if symbol = other then some (bitsOf code.length code.code).reverse
      else table.codeOf other := by
  rw [codeOf, codeOf, Vector.getElem?_set]
  split
  · rw [Option.bind_some, if_neg hlength]
  · rfl

section

variable (symbols : List UInt8) {codes : List (Nat × List Bool)}

theorem assignSymbol_assigned (hpos : 1 ≤ length) (h : state.Assigned codes) :
    (assignSymbol symbols length state).Ensures fun next =>
      ∃ symbol, symbols[state.symbolPosition]? = some symbol ∧
        next.Assigned (codes ++ [(symbol.toNat, (bitsOf length state.code).reverse)]) ∧
        next.code = state.code + 1 ∧ next.symbolPosition = state.symbolPosition + 1 := by
  refine .bind okOr_ensures fun symbol hsymbol => .bind okOr_ensures fun position hposition => ?_
  refine .bind okOr_ensures fun seen hseen => .bind rejectIf_ensures fun _ hfresh => ?_
  refine .bind setAt_ensures fun marked hmarked => .bind okOr_ensures fun code htry => ?_
  refine .bind okOr_ensures fun long hlong => .bind setAt_ensures fun table htable => .pure ?_
  obtain ⟨hlt, rfl⟩ := hmarked
  obtain ⟨-, rfl⟩ := htable
  obtain ⟨-, rfl⟩ := tryFrom_eq_some.mp htry
  obtain ⟨-, rfl⟩ := tryFrom_eq_some.mp hlong
  have hnone : ∀ bits, state.table.codeOf symbol.toNat ≠ some bits := fun bits hcode => by
    rw [h.seen _ bits hcode] at hseen
    exact hfresh (Option.some.inj hseen).symm
  refine ⟨symbol, hsymbol, ⟨fun other bits => ?_, fun other bits hcode => ?_⟩, rfl,
    (checkedAdd_eq_some.mp hposition).2.symm⟩
  · dsimp only
    rw [HuffTable.codeOf_set _ hlt _ (by dsimp only; omega), List.mem_append, List.mem_singleton,
      Prod.mk.injEq, ← h.code_iff]
    split
    · rename_i heq
      subst heq
      rw [Option.some_inj]
      exact ⟨fun hbits => .inr ⟨rfl, hbits.symm⟩,
        fun hbits => hbits.elim (fun hold => absurd hold (hnone bits)) fun hnew => hnew.2.symm⟩
    · rename_i hne
      exact ⟨.inl, fun hbits => hbits.resolve_right fun hnew => hne hnew.1.symm⟩
  · dsimp only at hcode ⊢
    rw [HuffTable.codeOf_set _ hlt _ (by dsimp only; omega)] at hcode
    rw [Vector.getElem?_set]
    split
    · rfl
    · rename_i hne
      rw [if_neg hne] at hcode
      exact h.seen other bits hcode

theorem assignSymbols_assigned {count : Nat} (hpos : 1 ≤ length) (h : state.Assigned codes) :
    (assignSymbols symbols length count state).Ensures fun next =>
      next.Assigned (codes ++
        (((symbols.drop state.symbolPosition).take count).zipIdx state.code).map
          fun entry => (entry.1.toNat, (bitsOf length entry.2).reverse)) ∧
      next.code = state.code + count ∧
      next.symbolPosition = state.symbolPosition + count := by
  induction count generalizing state codes with
  | zero =>
    refine .pure ⟨?_, rfl, rfl⟩
    rwa [List.take_zero, List.zipIdx_nil, List.map_nil, List.append_nil]
  | succ count ih =>
    refine .bind (assignSymbol_assigned symbols hpos h) fun next hnext => ?_
    obtain ⟨symbol, hsymbol, hassigned, hcode, hposition⟩ := hnext
    refine (ih hassigned).mono fun last hlast => ?_
    obtain ⟨hwhole, hlastCode, hlastPosition⟩ := hlast
    obtain ⟨hlt, rfl⟩ := List.getElem?_eq_some_iff.mp hsymbol
    rw [hcode, hposition, List.append_assoc] at hwhole
    refine ⟨?_, by omega, by omega⟩
    rw [List.drop_eq_getElem_cons hlt, List.take_succ_cons, List.zipIdx_cons, List.map_cons]
    exact hwhole

theorem assignLength_assigned {index : Nat} (hindex : index < 16) (count : UInt8)
    (h : state.Assigned codes) :
    (assignLength symbols state (count, index)).Ensures fun next =>
      next.Assigned (codes ++
        (((symbols.drop state.symbolPosition).take count.toNat).zipIdx state.code).map
          fun entry => (entry.1.toNat, (bitsOf (index + 1) entry.2).reverse)) ∧
      next.code = 2 * (state.code + count.toNat) ∧
      next.symbolPosition = state.symbolPosition + count.toNat := by
  refine .bind okOr_ensures fun limit hlimit => .bind okOr_ensures fun after hafter => ?_
  refine .bind rejectIf_ensures fun _ hfits => ?_
  dsimp only at hlimit hafter hfits ⊢
  rw [checkedShl_one (by omega), Option.some_inj] at hlimit
  obtain ⟨-, hsum⟩ := tryFrom_eq_some.mp hafter
  have hpow : 2 ^ (index + 1) ≤ 2 ^ 16 := Nat.pow_le_pow_right (by decide) hindex
  refine .bind (assignSymbols_assigned symbols (by omega) h) fun next hnext => ?_
  obtain ⟨hassigned, hcode, hposition⟩ := hnext
  refine .bind okOr_ensures fun code hshift => .pure ?_
  rw [checkedShl, if_pos (by decide), Option.some_inj, Nat.shiftLeft_eq, Nat.pow_one,
    Nat.mod_eq_of_lt (by omega)] at hshift
  exact ⟨⟨hassigned.code_iff, hassigned.seen⟩, by dsimp only; omega, hposition⟩

theorem assignLengths_assigned (counts : List UInt8) {index : Nat}
    (hindex : index + counts.length ≤ 16) (h : state.Assigned codes) :
    ((counts.zipIdx index).foldlM (assignLength symbols) state).Ensures fun next =>
      next.Assigned (codes ++ JpegEntropy.canonicalFrom (index + 1) state.code counts
        (symbols.drop state.symbolPosition)) := by
  induction counts generalizing index state codes with
  | nil =>
    refine .pure ?_
    rwa [JpegEntropy.canonicalFrom, List.append_nil]
  | cons count counts ih =>
    rw [List.length_cons] at hindex
    rw [List.zipIdx_cons, List.foldlM_cons]
    refine .bind (assignLength_assigned symbols (by omega) count h) fun next hnext => ?_
    obtain ⟨hassigned, hcode, hposition⟩ := hnext
    have hrest := ih (show index + 1 + counts.length ≤ 16 by omega) hassigned
    rwa [hcode, hposition, ← List.drop_drop, List.append_assoc] at hrest

theorem buildCodes_canonical {counts : List UInt8} (hcounts : counts.length ≤ 16) :
    (buildCodes counts symbols).Ensures fun table =>
      ∀ symbol bits, table.codeOf symbol = some bits ↔
        (symbol, bits) ∈ JpegEntropy.canonical counts symbols := by
  have hstart : CodeState.Assigned []
      { table := HuffTable.empty, seen := Vector.replicate 256 false, code := 0,
        symbolPosition := 0 } :=
    { code_iff := fun symbol bits => by
        dsimp only
        rw [HuffTable.codeOf_empty]
        exact ⟨fun h => (nomatch h), fun h => (nomatch h)⟩
      seen := fun symbol bits h => by
        dsimp only at h
        rw [HuffTable.codeOf_empty] at h
        cases h }
  refine .bind (assignLengths_assigned symbols counts (by omega) hstart) fun state hstate => ?_
  exact .pure hstate.code_iff

end

/-! ## All tables -/

def Metadata.Coded (metadata : Metadata) : Prop :=
  ∀ (classIndex index : Nat) tables table, metadata.huffCodes[classIndex]? = some tables →
    tables[index]? = some table → HuffTable.Good table

section

variable (bytes : List UInt8)

theorem parseDhtTable_coded (h : metadata.Coded) {position : Nat} :
    (parseDhtTable bytes metadata position).Ensures fun result => result.1.Coded := by
  refine .skip fun descriptor => .skip fun position => .skip fun _ => ?_
  refine .bind (.self _) fun counts hcounts => .skip fun total => .skip fun _ =>
    .skip fun symbols => ?_
  have hlength : counts.length ≤ 16 := by
    obtain ⟨-, -, rfl⟩ := checkedRange_eq_ok.mp hcounts
    rw [List.length_drop, List.length_take]
    omega
  refine .bind okOr_ensures fun tables htables => .bind (buildCodes_ensures symbols hlength) ?_
  intro table htable
  refine .bind setAt_ensures ?_
  rintro next ⟨hindex, rfl⟩
  refine .bind setAt_ensures ?_
  rintro codes ⟨hclass, rfl⟩
  refine .skip fun _ => .skip fun _ => .skip fun _ => .pure ?_
  intro classIndex index tables' table' hget hget'
  dsimp only at hget
  rw [Vector.getElem?_set] at hget
  split at hget
  · cases hget
    rw [Vector.getElem?_set] at hget'
    split at hget'
    · cases hget'
      exact htable
    · exact h _ _ _ _ htables hget'
  · exact h _ _ _ _ hget hget'

variable {offset : Nat}

variable (h : metadata.Coded)
include h

theorem parseDht_coded : (parseDht bytes metadata offset).Ensures fun result => result.1.Coded := by
  have hloop : ∀ finish rounds position, ∀ metadata : Metadata, metadata.Coded →
      (parseDhtLoop bytes finish rounds metadata position).Ensures fun result =>
        result.1.Coded := by
    intro finish rounds
    induction rounds with
    | zero => exact fun _ _ hmetadata => .pure hmetadata
    | succ rounds ih =>
      intro position metadata hmetadata
      refine .ite (fun _ => ?_) fun _ => .pure hmetadata
      exact .bind (parseDhtTable_coded bytes hmetadata) fun next hnext => ih next.2 next.1 hnext
  refine .skip fun finish => .skip fun position => .skip fun _ => ?_
  exact .bind (hloop finish _ position metadata h) fun next hnext => .skip fun _ => .pure hnext

theorem Metadata.Coded.congr {next : Metadata} (hcodes : next.huffCodes = metadata.huffCodes) :
    next.Coded := by
  rw [Metadata.Coded, hcodes]
  exact h

theorem parseDqt_coded : (parseDqt bytes metadata offset).Ensures fun result => result.1.Coded := by
  have htable : ∀ finish position, ∀ metadata : Metadata, metadata.Coded →
      (parseDqtTable bytes finish metadata position).Ensures fun result => result.1.Coded := by
    intro finish position metadata hmetadata
    refine .skip fun _ => .skip fun _ => .skip fun _ => .skip fun _ => .skip fun _ =>
      .skip fun _ => ?_
    exact .skip fun _ => .skip fun _ => .skip fun _ => .skip fun _ => .pure (hmetadata.congr rfl)
  have hloop : ∀ finish rounds position, ∀ metadata : Metadata, metadata.Coded →
      (parseDqtLoop bytes finish rounds metadata position).Ensures fun result =>
        result.1.Coded := by
    intro finish rounds
    induction rounds with
    | zero => exact fun _ _ hmetadata => .pure hmetadata
    | succ rounds ih =>
      intro position metadata hmetadata
      refine .ite (fun _ => ?_) fun _ => .pure hmetadata
      exact .bind (htable finish position metadata hmetadata) fun next hnext =>
        ih next.2 next.1 hnext
  refine .skip fun finish => .skip fun position => .skip fun _ => ?_
  exact .bind (hloop finish _ position metadata h) fun next hnext => .pure hnext

theorem parseDri_coded : (parseDri bytes metadata offset).Ensures fun result => result.1.Coded :=
  .skip fun _ => .skip fun _ => .skip fun _ => .skip fun _ => .pure (h.congr rfl)

theorem parseSof_coded {marker : UInt8} :
    (parseSof bytes metadata offset marker).Ensures fun result => result.1.Coded := by
  refine .skip fun _ => .skip fun _ => .skip fun _ => .skip fun _ => .skip fun _ =>
    .skip fun _ => ?_
  refine .skip fun _ => .skip fun _ => .skip fun _ => .skip fun _ => .skip fun _ =>
    .skip fun _ => ?_
  refine .skip fun _ => .skip fun _ => .skip fun _ => .skip fun _ => .skip fun _ => ?_
  exact .pure (h.congr rfl)

theorem parseSos_coded : (parseSos bytes metadata offset).Ensures fun result => result.1.Coded := by
  refine .skip fun _ => .skip fun _ => .skip fun _ => .skip fun _ => .skip fun _ =>
    .skip fun _ => ?_
  exact .skip fun _ => .skip fun _ => .skip fun _ => .skip fun _ => .skip fun _ =>
    .pure (h.congr rfl)

theorem parseSegment_coded {marker : UInt8} :
    (parseSegment bytes metadata marker offset).Ensures fun result => result.1.Coded := by
  refine .ite (fun _ => .pure h) fun _ => .ite (fun _ => .skip fun _ => .pure h) fun _ => ?_
  refine .ite (fun _ => ?_) fun _ => .ite (fun _ => ?_) fun _ => .ite (fun _ => ?_) fun _ =>
    .ite (fun _ => ?_) fun _ => .ite (fun _ => ?_) fun _ => .ite (fun _ => .throw _) fun _ =>
    .ite (fun _ => .throw _) fun _ => .skip fun _ => .pure h
  · exact .bind (parseDht_coded bytes h) fun _ hnext => .pure hnext
  · exact .bind (parseDqt_coded bytes h) fun _ hnext => .pure hnext
  · exact .bind (parseDri_coded bytes h) fun _ hnext => .pure hnext
  · exact .bind (parseSof_coded bytes h) fun _ hnext => .pure hnext
  · exact .bind (parseSos_coded bytes h) fun _ hnext => .skip fun _ => .pure hnext

theorem parseMetadata_coded : (parseMetadata bytes metadata).Ensures fun result => result.1.Coded :=
  (parseMetadata_keeps bytes Metadata.Coded (fun _ => True)
    (fun _ _ _ hmetadata => (parseSegment_coded bytes hmetadata).mono
      fun _ hnext => ⟨hnext, fun _ => trivial⟩) h).mono fun _ hnext => hnext.1

end

namespace Metadata

theorem default_coded : Metadata.default.Coded := by
  intro classIndex index tables table hget hget'
  rw [default, Vector.getElem?_replicate] at hget
  split at hget
  · cases hget
    rw [Vector.getElem?_replicate] at hget'
    split at hget'
    · cases hget'
      exact HuffTable.empty_good
    · cases hget'
  · cases hget

theorem Parsed.coded (h : metadata.Parsed) : metadata.Coded := by
  induction h with
  | default => exact default_coded
  | bundle _ hparse ih => exact parseMetadata_coded _ ih _ hparse

theorem Scanned.coded (h : metadata.Scanned) : metadata.Coded := by
  obtain ⟨before, bytes, hbefore, hparse⟩ := h
  exact parseMetadata_coded bytes hbefore.coded _ hparse

end Metadata

end Jpeg
end Unpackio
