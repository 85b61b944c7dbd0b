/-
Canonical prefix codes.

A code is a list of code lengths, one for each symbol, and a symbol of length
zero has no code.  The codes of one length are consecutive numbers in the order
of their symbols, and behind the last code of a length the next length goes on
with twice the number that follows.
-/
import Unpackio.Foundation.BitPack

namespace CanonicalCode

def codeCount (lengths : List Nat) (length : Nat) : Nat :=
  if length = 0 then 0 else lengths.count length

def firstCode (lengths : List Nat) : Nat → Nat
  | 0 => 0
  | length + 1 => 2 * (firstCode lengths length + codeCount lengths length)

def firstIndex (lengths : List Nat) : Nat → Nat
  | 0 => 0
  | length + 1 => firstIndex lengths length + codeCount lengths length

def lengthOf (lengths : List Nat) (symbol : Nat) : Nat := lengths[symbol]?.getD 0

def rank (lengths : List Nat) (symbol : Nat) : Nat :=
  (lengths.take symbol).count (lengthOf lengths symbol)

def code (lengths : List Nat) (symbol : Nat) : Nat :=
  firstCode lengths (lengthOf lengths symbol) + rank lengths symbol

def index (lengths : List Nat) (symbol : Nat) : Nat :=
  firstIndex lengths (lengthOf lengths symbol) + rank lengths symbol

def codeBits (lengths : List Nat) (symbol : Nat) : List Bool :=
  (BitPack.bitsOf (lengthOf lengths symbol) (code lengths symbol)).reverse

def NotOversubscribed (lengths : List Nat) (maxLength : Nat) : Prop :=
  ∀ length ≤ maxLength, firstCode lengths length + codeCount lengths length ≤ 2 ^ length

instance (lengths : List Nat) (maxLength : Nat) :
    Decidable (NotOversubscribed lengths maxLength) :=
  decidable_of_iff (∀ length < maxLength + 1,
      firstCode lengths length + codeCount lengths length ≤ 2 ^ length)
    ⟨fun h length hle => h length (by omega), fun h length hlt => h length (by omega)⟩

variable {lengths : List Nat} {symbol : Nat}

section

variable (h : lengthOf lengths symbol ≠ 0)
include h

theorem lengthOf_eq : lengths[symbol]? = some (lengthOf lengths symbol) := by
  unfold lengthOf at h ⊢
  cases hsymbol : lengths[symbol]? with
  | none => rw [hsymbol] at h; exact absurd rfl h
  | some length => rfl

theorem symbol_lt : symbol < lengths.length :=
  (List.getElem?_eq_some_iff.mp (lengthOf_eq h)).1

theorem rank_eq_codeCount :
    rank lengths symbol = codeCount (lengths.take symbol) (lengthOf lengths symbol) := by
  rw [codeCount, if_neg h, rank]

theorem rank_lt : rank lengths symbol < codeCount lengths (lengthOf lengths symbol) := by
  obtain ⟨hlt, hget⟩ := List.getElem?_eq_some_iff.mp (lengthOf_eq h)
  have hdrop : lengths.drop symbol = lengthOf lengths symbol :: lengths.drop (symbol + 1) := by
    rw [List.drop_eq_getElem_cons hlt, hget]
  have hcount : lengths.count (lengthOf lengths symbol) =
      rank lengths symbol + (lengths.drop symbol).count (lengthOf lengths symbol) := by
    rw [rank, ← List.count_append, List.take_append_drop]
  rw [codeCount, if_neg h, hcount, hdrop, List.count_cons_self]
  omega

end

theorem firstCode_le {short long : Nat} (h : short < long) :
    (firstCode lengths short + codeCount lengths short) * 2 ^ (long - short) ≤
      firstCode lengths long := by
  induction long with
  | zero => omega
  | succ long ih =>
    rw [firstCode]
    rcases Nat.lt_succ_iff_lt_or_eq.mp h with hlt | rfl
    · have hstep := ih hlt
      rw [Nat.succ_sub hlt.le, Nat.pow_succ, ← Nat.mul_assoc]
      omega
    · rw [Nat.succ_sub (Nat.le_refl _), Nat.sub_self, Nat.pow_one, Nat.mul_comm]

theorem firstIndex_le {short long : Nat} (h : short < long) :
    firstIndex lengths short + codeCount lengths short ≤ firstIndex lengths long := by
  induction long with
  | zero => omega
  | succ long ih =>
    rw [firstIndex]
    rcases Nat.lt_succ_iff_lt_or_eq.mp h with hlt | rfl
    · exact (ih hlt).trans (Nat.le_add_right _ _)
    · exact Nat.le_refl _

theorem code_lt (h : lengthOf lengths symbol ≠ 0) {maxLength : Nat}
    (hfits : NotOversubscribed lengths maxLength) (hmax : lengthOf lengths symbol ≤ maxLength) :
    code lengths symbol < 2 ^ lengthOf lengths symbol := by
  have hrank := rank_lt h
  have hroom := hfits _ hmax
  rw [code]
  omega

theorem front_ge {short : Nat} (h : short < lengthOf lengths symbol) :
    firstCode lengths short + codeCount lengths short ≤
      code lengths symbol >>> (lengthOf lengths symbol - short) := by
  rw [Nat.shiftRight_eq_div_pow, Nat.le_div_iff_mul_le (Nat.two_pow_pos _)]
  exact (firstCode_le h).trans (Nat.le_add_right _ _)

@[simp] theorem length_codeBits (lengths : List Nat) (symbol : Nat) :
    (codeBits lengths symbol).length = lengthOf lengths symbol := by
  rw [codeBits, List.length_reverse, BitPack.length_bitsOf]

section

variable (h : lengthOf lengths symbol ≠ 0)
include h

theorem index_lt {maxLength : Nat} (hmax : lengthOf lengths symbol ≤ maxLength) :
    index lengths symbol < firstIndex lengths (maxLength + 1) := by
  have hrank := rank_lt h
  have hle : firstIndex lengths (lengthOf lengths symbol) +
      codeCount lengths (lengthOf lengths symbol) ≤ firstIndex lengths (maxLength + 1) :=
    firstIndex_le (Nat.lt_succ_of_le hmax)
  rw [index]
  omega

theorem rank_lt_rank {other : Nat} (hsame : lengthOf lengths other = lengthOf lengths symbol)
    (hlt : symbol < other) : rank lengths symbol < rank lengths other := by
  obtain ⟨hbound, hget⟩ := List.getElem?_eq_some_iff.mp (lengthOf_eq h)
  have htake : lengths.take (symbol + 1) = lengths.take symbol ++ [lengthOf lengths symbol] := by
    rw [List.take_add_one, lengthOf_eq h]
    rfl
  have hsub : (lengths.take (symbol + 1)).count (lengthOf lengths symbol) ≤
      (lengths.take other).count (lengthOf lengths symbol) :=
    (List.take_sublist_take_left (by omega)).count_le _
  rw [htake, List.count_append, List.count_singleton_self] at hsub
  rw [rank, rank, hsame]
  omega

theorem index_injective {other : Nat} (hother : lengthOf lengths other ≠ 0)
    (heq : index lengths symbol = index lengths other) : symbol = other := by
  have hrank := rank_lt h
  have hotherRank := rank_lt hother
  unfold index at heq
  rcases Nat.lt_trichotomy (lengthOf lengths symbol) (lengthOf lengths other) with hlt | hsame | hlt
  · have hle : firstIndex lengths _ + codeCount lengths _ ≤ firstIndex lengths _ :=
      firstIndex_le hlt
    omega
  · rcases Nat.lt_trichotomy symbol other with hless | heq' | hless
    · have hless := rank_lt_rank h hsame.symm hless
      rw [hsame] at heq
      omega
    · exact heq'
    · have hless := rank_lt_rank hother hsame hless
      rw [hsame] at heq
      omega
  · have hle : firstIndex lengths _ + codeCount lengths _ ≤ firstIndex lengths _ :=
      firstIndex_le hlt
    omega

end

/-! ## One length more -/

theorem codeCount_nil (length : Nat) : codeCount [] length = 0 := by
  rw [codeCount]
  split_ifs <;> rfl

theorem codeCount_cons (length : Nat) (lengths : List Nat) (other : Nat) :
    codeCount (length :: lengths) other =
      codeCount lengths other + if length = other ∧ other ≠ 0 then 1 else 0 := by
  by_cases hzero : other = 0
  · rw [codeCount, codeCount, if_pos hzero, if_pos hzero, if_neg fun h => h.2 hzero]
  · rw [codeCount, codeCount, if_neg hzero, if_neg hzero]
    by_cases heq : length = other
    · rw [if_pos ⟨heq, hzero⟩, heq, List.count_cons_self]
    · rw [if_neg fun h => heq h.1, List.count_cons_of_ne heq, Nat.add_zero]

theorem codeCount_concat (lengths : List Nat) (length other : Nat) :
    codeCount (lengths ++ [length]) other =
      codeCount lengths other + if length = other ∧ other ≠ 0 then 1 else 0 := by
  have hperm : (lengths ++ [length]).Perm (length :: lengths) := List.perm_append_comm
  rw [← codeCount_cons, codeCount, codeCount, hperm.count_eq]

theorem firstIndex_cons (length : Nat) (lengths : List Nat) (bound : Nat) :
    firstIndex (length :: lengths) bound =
      firstIndex lengths bound + if length < bound ∧ length ≠ 0 then 1 else 0 := by
  induction bound with
  | zero => rfl
  | succ bound ih =>
    rw [firstIndex, firstIndex, ih, codeCount_cons]
    split_ifs <;> omega

theorem firstIndex_le_length (lengths : List Nat) (bound : Nat) :
    firstIndex lengths bound ≤ lengths.length := by
  induction lengths with
  | nil =>
    have hzero : firstIndex [] bound = 0 := by
      induction bound with
      | zero => rfl
      | succ bound ih => rw [firstIndex, ih, codeCount_nil]
    rw [hzero]
    exact Nat.zero_le _
  | cons length lengths ih =>
    rw [firstIndex_cons, List.length_cons]
    split_ifs <;> omega

theorem exists_rank {length place : Nat} (h : place < codeCount lengths length) :
    ∃ symbol, lengthOf lengths symbol = length ∧ rank lengths symbol = place := by
  induction lengths generalizing place with
  | nil =>
    rw [codeCount_nil] at h
    exact absurd h (Nat.not_lt_zero _)
  | cons first lengths ih =>
    have hnext : ∀ symbol, lengthOf (first :: lengths) (symbol + 1) = lengthOf lengths symbol :=
      fun symbol => rfl
    have hrank : ∀ symbol, rank (first :: lengths) (symbol + 1) =
        rank lengths symbol + if first = lengthOf lengths symbol then 1 else 0 := by
      intro symbol
      rw [rank, rank, hnext, List.take_succ_cons, List.count_cons]
      simp only [beq_iff_eq]
    rw [codeCount_cons] at h
    by_cases hfirst : first = length ∧ length ≠ 0
    · rw [if_pos hfirst] at h
      by_cases hzero : place = 0
      · exact ⟨0, hfirst.1, by rw [hzero]; rfl⟩
      · obtain ⟨symbol, hlength, hplace⟩ := ih (show place - 1 < _ by omega)
        refine ⟨symbol + 1, hlength, ?_⟩
        rw [hrank, hlength, if_pos hfirst.1, hplace]
        omega
    · rw [if_neg hfirst] at h
      obtain ⟨symbol, hlength, hplace⟩ := ih h
      have hne : first ≠ length := by
        intro heq
        have hzero : length = 0 := by
          by_contra hne
          exact hfirst ⟨heq, hne⟩
        rw [hzero, codeCount, if_pos rfl] at h
        omega
      refine ⟨symbol + 1, hlength, ?_⟩
      rw [hrank, hlength, if_neg hne, hplace]
      rfl

/-- What the codes take of `2 ^ maxLength` words. -/
def kraftSum (lengths : List Nat) (maxLength : Nat) : Nat :=
  (lengths.map fun length => if length = 0 then 0 else 2 ^ (maxLength - length)).sum

theorem firstCode_cons (length : Nat) (lengths : List Nat) (bound : Nat) :
    firstCode (length :: lengths) bound =
      firstCode lengths bound + if length < bound ∧ length ≠ 0 then 2 ^
        (bound - length) else 0 := by
  induction bound with
  | zero => rfl
  | succ bound ih =>
    rw [firstCode, firstCode, ih, codeCount_cons]
    by_cases hzero : length = 0
    · rw [if_neg fun h => h.2 hzero, if_neg fun h => h.2 (h.1 ▸ hzero), if_neg fun h => h.2 hzero]
      rfl
    · rcases Nat.lt_trichotomy length bound with hlt | heq | hlt
      · rw [if_pos ⟨hlt, hzero⟩, if_neg (by omega), if_pos ⟨by omega, hzero⟩,
          Nat.succ_sub hlt.le, Nat.pow_succ]
        omega
      · rw [if_neg (by omega), if_pos ⟨heq, heq ▸ hzero⟩, if_pos ⟨by omega, hzero⟩, heq,
          Nat.succ_sub (Nat.le_refl _), Nat.sub_self]
        omega
      · rw [if_neg (by omega), if_neg (by omega), if_neg (by omega)]
        rfl

variable {maxLength : Nat} (h : ∀ length ∈ lengths, length ≤ maxLength)
include h

theorem kraftSum_eq :
    kraftSum lengths maxLength =
      firstCode lengths maxLength + codeCount lengths maxLength := by
  induction lengths with
  | nil =>
    have hzero : ∀ bound, firstCode [] bound + codeCount [] bound = 0 := by
      intro bound
      induction bound with
      | zero => rfl
      | succ bound ih => rw [firstCode, ih, codeCount_nil]
    rw [hzero]
    rfl
  | cons length lengths ih =>
    have hrest := ih fun other hother => h other (List.mem_cons_of_mem _ hother)
    have hle := h length List.mem_cons_self
    have hcons : kraftSum (length :: lengths) maxLength =
        (if length = 0 then 0 else 2 ^ (maxLength - length)) + kraftSum lengths maxLength := rfl
    rw [hcons, hrest, firstCode_cons, codeCount_cons]
    by_cases hzero : length = 0
    · rw [if_pos hzero, if_neg fun h => h.2 hzero, if_neg fun h => h.2 (h.1 ▸ hzero)]
      omega
    · rcases Nat.lt_or_eq_of_le hle with hlt | heq
      · rw [if_neg hzero, if_pos ⟨hlt, hzero⟩, if_neg (by omega)]
        omega
      · rw [if_neg hzero, if_neg (by omega), if_pos ⟨heq, heq ▸ hzero⟩, heq, Nat.sub_self]
        omega

theorem notOversubscribed_iff :
    NotOversubscribed lengths maxLength ↔ kraftSum lengths maxLength ≤ 2 ^ maxLength := by
  rw [kraftSum_eq h]
  refine ⟨fun hfits => hfits _ (Nat.le_refl _), fun hfits length hle => ?_⟩
  rcases Nat.lt_or_eq_of_le hle with hlt | heq
  · have hcodes : (firstCode lengths length + codeCount lengths length) *
        2 ^ (maxLength - length) ≤ firstCode lengths maxLength := firstCode_le hlt
    have hpower : 2 ^ maxLength = 2 ^ length * 2 ^ (maxLength - length) := by
      rw [← Nat.pow_add, Nat.add_sub_cancel' hle]
    rw [← Nat.mul_le_mul_right_iff (Nat.two_pow_pos (maxLength - length)), ← hpower]
    omega
  · rw [heq]
    exact hfits

end CanonicalCode
