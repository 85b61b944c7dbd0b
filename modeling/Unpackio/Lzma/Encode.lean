/-
The decisions that an LZMA encoder makes for numbers and literals.

An encoder keeps the probabilities of the decoder and follows the same trees.  It
makes a list of decisions, which a range encoder turns into a stream.  `Codes` says
what a decoder makes of the decisions in front of it.
-/
import Unpackio.Foundation.RangeEncoder
import Unpackio.Lzma.Decode
import Unpackio.Lzma.RangeInvariant
import Mathlib.Tactic.Ring

namespace Unpackio
namespace Lzma

open RangeCoder (Carries Decision Interval Stands adapt)
open Unpackio.Filter (wrappingShl)

/-- The decoder has read the front of a stream that leads to the interval. -/
structure At (stream : List UInt8) (interval : Interval) (decoder : RangeDecoder) : Prop where
  input_eq : decoder.input = stream
  length_lt : stream.length < 2 ^ 64
  cursor_le : decoder.cursor ≤ stream.length
  ready : interval.Ready
  stands : Stands stream interval decoder.code decoder.range (stream.drop decoder.cursor)

def Codes {α : Type} (decisions : List Decision) (p : RangeDecoder → Metered α)
    (result : RangeDecoder → α) : Prop :=
  (∀ decision ∈ decisions, decision.Fair) ∧ ∀ stream final interval decoder,
    Carries stream final → At stream interval decoder →
      final.Within (interval.after decisions) →
        ∃ next, (p decoder).granted = .ok (result next) ∧ At stream (interval.after decisions) next

namespace Codes

variable {α β : Type} {decisions front rest : List Decision} {p : RangeDecoder → Metered α}
  {result : RangeDecoder → α} {f : α → Metered β} {last : RangeDecoder → β}

theorem pure (result : RangeDecoder → α) :
    Codes [] (fun range => Pure.pure (result range)) result :=
  ⟨fun _ h => absurd h List.not_mem_nil, fun _ _ _ decoder _ hat _ => ⟨decoder, rfl, hat⟩⟩

theorem bind (hp : Codes front p result) (hf : Codes rest (fun range => f (result range)) last) :
    Codes (front ++ rest) (fun range => p range >>= f) last := by
  refine ⟨List.forall_mem_append.mpr ⟨hp.1, hf.1⟩, ?_⟩
  intro stream final interval decoder hcarries hat hwithin
  rw [Interval.after_append] at hwithin ⊢
  have hready := Interval.ready_after hat.ready hp.1
  obtain ⟨middle, hfirst, hmiddle⟩ := hp.2 stream final interval decoder hcarries hat
    (hwithin.trans (Interval.within_after hready hf.1))
  obtain ⟨next, hsecond, hnext⟩ := hf.2 stream final _ middle hcarries hmiddle hwithin
  refine ⟨next, ?_, hnext⟩
  rw [Prog.granted_bind, hfirst]
  exact hsecond

theorem andThen (hp : Codes decisions p result)
    (hf : Codes [] (fun range => f (result range)) last) :
    Codes decisions (fun range => p range >>= f) last := by
  have h := bind hp hf
  rwa [List.append_nil] at h

theorem step {q : Metered β} {b : β} {f : β → RangeDecoder → Metered α} (hq : q.granted = .ok b)
    (hf : Codes decisions (f b) result) :
    Codes decisions (fun range => q >>= fun b => f b range) result := by
  refine ⟨hf.1, fun stream final interval decoder hcarries hat hwithin => ?_⟩
  obtain ⟨next, hlast, hnext⟩ := hf.2 stream final interval decoder hcarries hat hwithin
  refine ⟨next, ?_, hnext⟩
  rw [Prog.granted_bind, hq]
  exact hlast

theorem value {e : Except Error β} {b : β} {f : β → RangeDecoder → Metered α} (he : e = .ok b)
    (hf : Codes decisions (f b) result) :
    Codes decisions (fun range => (liftM e : Metered β) >>= fun b => f b range) result :=
  step (by rw [he]; rfl) hf

section Branch

variable {c : Prop} [Decidable c] {q : RangeDecoder → Metered α}

theorem ite_pos (hc : c) (hp : Codes decisions p result) :
    Codes decisions (fun range => if c then p range else q range) result := by
  simp only [if_pos hc]
  exact hp

theorem ite_neg (hc : ¬c) (hq : Codes decisions q result) :
    Codes decisions (fun range => if c then p range else q range) result := by
  simp only [if_neg hc]
  exact hq

end Branch

end Codes

theorem normalize_at {stream : List UInt8} {final part : Interval} {decoder : RangeDecoder}
    (hcarries : Carries stream final) (hinput : decoder.input = stream)
    (hlength : stream.length < 2 ^ 64) (hcursor : decoder.cursor ≤ stream.length)
    (hready : part.normalise.Ready)
    (hstands : Stands stream part decoder.code decoder.range (stream.drop decoder.cursor))
    (hwithin : final.Within part.normalise) :
    ∃ next, decoder.normalize.granted = .ok next ∧ At stream part.normalise next := by
  have htop : topValue = RangeCoder.top := rfl
  have hrange := hstands.range_eq
  by_cases hlong : topValue ≤ decoder.range
  · rw [Interval.normalise, if_neg (by omega)] at hready ⊢
    refine ⟨decoder, ?_, hinput, hlength, hcursor, hready, hstands⟩
    rw [RangeDecoder.normalize, if_pos hlong]
    rfl
  · have hcode := hstands.code_lt hcarries (hwithin.trans (Interval.within_normalise part))
    rw [Interval.normalise, if_pos (by omega)] at hready hwithin ⊢
    obtain ⟨byte, rest, hunread, hnext⟩ := hstands.shift hcarries hwithin
    subst hinput
    have hcursor : decoder.cursor < decoder.input.length := by
      refine Nat.lt_of_not_le fun hle => ?_
      rw [List.drop_eq_nil_of_le hle] at hunread
      cases hunread
    refine ⟨_, RangeDecoder.normalize_eq (by omega) hcursor hlength, rfl, hlength, hcursor,
      hready, ?_⟩
    rw [List.drop_eq_getElem_cons hcursor] at hunread
    obtain ⟨hbyte, hrest⟩ := List.cons.inj hunread
    show Stands _ _ (wrappingShl decoder.code 8 ||| _) (wrappingShl decoder.range 8) _
    rw [RangeDecoder.shiftIn_eq (by omega), RangeDecoder.wrappingShl_range (by omega)]
    rw [← hbyte, ← hrest] at hnext
    exact hnext

variable {probability : Nat}

theorem codes_decodeBit (hprobability : Adapted probability) (bit : Bool) :
    Codes [.adaptive probability bit] (decodeBit probability)
      fun range => (bit.toNat, adapt probability bit, range) := by
  have hfair : Decision.Fair (.adaptive probability bit) := hprobability
  refine ⟨List.forall_mem_singleton.mpr hfair, ?_⟩
  intro stream final interval decoder hcarries hat hwithin
  obtain ⟨hinput, hlength, hcursor, hready, hstands⟩ := hat
  obtain ⟨hlow, hhigh⟩ := id hprobability
  have hbounds := RangeCoder.Interval.bound_lt hready hfair
  have hrange := hstands.range_eq
  have hmost := hready.2
  have hready' := Interval.ready_follow hready hfair
  obtain ⟨hleast, hlast, hpart⟩ :=
    hstands.part hcarries (hwithin.trans (Interval.within_normalise _))
  have hbound : (decoder.range >>> probBits) * probability = interval.bound probability := by
    rw [hrange, Nat.shiftRight_eq_div_pow]
    rfl
  have htotal : probTotal = 2 ^ 11 := rfl
  have hmoved : ∀ n : Nat, n >>> moveBits = n / 2 ^ 5 := fun n => Nat.shiftRight_eq_div_pow n 5
  have hfits : tryFrom 32 (interval.bound probability) = some (interval.bound probability) :=
    tryFrom_of_lt (by omega)
  cases bit with
  | false =>
    have hclear : decoder.code < interval.range / 2 ^ 11 * probability := by
      simpa only [Decision.offset, Decision.length, Bool.false_eq_true, if_false, Nat.zero_add]
        using hlast
    obtain ⟨next, hnormalize, hnext⟩ := @normalize_at _ _ _
      { decoder with range := interval.bound probability } hcarries hinput hlength hcursor
        hready' hpart hwithin
    have hdifference : checkedSub probTotal probability = some (2 ^ 11 - probability) :=
      checkedSub_of_le (show probability ≤ 2 ^ 11 by omega)
    have hadapt : tryFrom 16 (probability + (2 ^ 11 - probability) >>> moveBits) =
        some (adapt probability false) := by
      rw [hmoved, tryFrom_of_lt (by omega)]
      rfl
    refine ⟨next, ?_, hnext⟩
    rw [decodeBit, hbound, hfits]
    simp only [okOr_some, Prog.granted_bind, Prog.granted_lift, Except.ok_bind,
      if_pos (show decoder.code < interval.bound probability from hclear), hdifference, hadapt,
      hnormalize]
    rfl
  | true =>
    have hset : interval.bound probability ≤ decoder.code := hleast
    obtain ⟨next, hnormalize, hnext⟩ := @normalize_at _ _ _ { decoder with
      range := interval.range - interval.bound probability
      code := decoder.code - interval.bound probability } hcarries hinput hlength hcursor
        hready' hpart hwithin
    have hadapt : checkedSub probability (probability >>> moveBits) =
        some (adapt probability true) := by
      rw [hmoved, checkedSub_of_le (Nat.div_le_self _ _)]
      rfl
    refine ⟨next, ?_, hnext⟩
    rw [decodeBit, hbound, hfits]
    simp only [okOr_some, Prog.granted_bind, Prog.granted_lift, Except.ok_bind,
      if_neg (Nat.not_lt.mpr hset), checkedSub_of_le hset, hadapt, hrange,
      checkedSub_of_le (show interval.bound probability ≤ interval.range by omega), hnormalize]
    rfl

theorem codes_decodeDirectBit (bit : Bool) :
    Codes [.even bit] RangeDecoder.decodeDirectBit fun range => (bit.toNat, range) := by
  refine ⟨List.forall_mem_singleton.mpr trivial, ?_⟩
  intro stream final interval decoder hcarries hat hwithin
  obtain ⟨hinput, hlength, hcursor, hready, hstands⟩ := hat
  have hready' := @Interval.ready_follow _ (.even bit) hready trivial
  obtain ⟨hleast, hlast, hpart⟩ :=
    hstands.part hcarries (hwithin.trans (Interval.within_normalise _))
  have hhalf : decoder.range >>> 1 = interval.range / 2 := by
    rw [hstands.range_eq, Nat.shiftRight_eq_div_pow]
  obtain ⟨next, hnormalize, hnext⟩ := @normalize_at _ _ _ { decoder with
    range := interval.range / 2
    code := decoder.code - Decision.offset interval.range (.even bit) } hcarries hinput hlength
      hcursor hready' hpart hwithin
  refine ⟨next, ?_, hnext⟩
  rw [RangeDecoder.decodeDirectBit, hhalf]
  cases bit with
  | false =>
    have hclear : decoder.code < interval.range / 2 := by
      simpa only [Decision.offset, Decision.length, Bool.false_eq_true, if_false, Nat.zero_add]
        using hlast
    rw [if_neg (Nat.not_le.mpr hclear), Prog.granted_bind]
    exact congrArg (· >>= _) hnormalize
  | true =>
    have hset : interval.range / 2 ≤ decoder.code := hleast
    change (RangeDecoder.normalize { decoder with
      range := interval.range / 2, code := decoder.code - interval.range / 2 }).granted = _
      at hnormalize
    rw [if_pos hset, checkedSub_of_le hset]
    simp only [okOr_some, Prog.granted_bind, Prog.granted_lift, Except.ok_bind, hnormalize]
    rfl

/-! ## Tables and trees -/

def Coded {α σ : Type} (encoded : List Decision × σ)
    (p : RangeDecoder → Metered (α × σ × RangeDecoder)) (a : α) (Good : σ → Prop) : Prop :=
  Codes encoded.1 p (fun range => (a, encoded.2, range)) ∧ Good encoded.2

structure Table (count : Nat) (probabilities : List Nat) : Prop where
  adapted : ∀ probability ∈ probabilities, Adapted probability
  length_eq : probabilities.length = count

def encodeAt (probabilities : List Nat) (index : Nat) (bit : Bool) : List Decision × List Nat :=
  let probability := probabilities.getD index 0
  ([.adaptive probability bit], probabilities.set index (adapt probability bit))

/-- Code bits down a binary tree, where `place` says which probability a node has in
front of so many further bits. -/
def encodePath (bit : Nat → Bool) (place : Nat → Nat → Nat) :
    Nat → Nat → List Nat → List Decision × List Nat
  | 0, _, probabilities => ([], probabilities)
  | count + 1, node, probabilities =>
    let (first, probabilities) := encodeAt probabilities (place count node) (bit count)
    let (rest, probabilities) :=
      encodePath bit place count (2 * node + (bit count).toNat) probabilities
    (first ++ rest, probabilities)

namespace Table

variable {size index : Nat} {probabilities : List Nat} (h : Table size probabilities)
include h

theorem get (hindex : index < size) : probabilities[index]? = some (probabilities.getD index 0) ∧
    Adapted (probabilities.getD index 0) := by
  have hlength := h.length_eq
  have hget : probabilities[index]? = some (probabilities.getD index 0) := by
    rw [List.getD_eq_getElem?_getD, List.getElem?_eq_getElem (by omega), Option.getD_some]
  exact ⟨hget, h.adapted _ (List.mem_of_getElem? hget)⟩

theorem encodeAt (index : Nat) (bit : Bool) : Table size (encodeAt probabilities index bit).2 := by
  refine ⟨fun probability hmem => ?_, List.length_set.trans h.length_eq⟩
  have hlength := h.length_eq
  by_cases hindex : index < size
  · rcases List.mem_or_eq_of_mem_set hmem with hmem | rfl
    · exact h.adapted probability hmem
    · exact RangeCoder.fair_adapt (h.get hindex).2 bit
  · rw [Lzma.encodeAt, List.set_eq_of_length_le (by omega)] at hmem
    exact h.adapted probability hmem

theorem encodePath (bit : Nat → Bool) (place : Nat → Nat → Nat) (count node : Nat) :
    Table size (encodePath bit place count node probabilities).2 := by
  induction count generalizing node probabilities with
  | zero => exact h
  | succ count ih => exact ih (h.encodeAt _ _) _

theorem decodeAt (hindex : index < size) (detail : String) (bit : Bool) :
    Coded (Lzma.encodeAt probabilities index bit) (decodeAt probabilities index detail) bit.toNat
      (Table size) :=
  ⟨.value (okOr_eq_ok.mpr (h.get hindex).1)
    (.andThen (codes_decodeBit (h.get hindex).2 bit) (.pure _)), h.encodeAt index bit⟩

end Table

namespace ProbabilityTree

def encodeBits (tree : ProbabilityTree) (bit : Nat → Bool) : List Decision × ProbabilityTree :=
  let (decisions, probabilities) :=
    encodePath bit (fun _ node => node) tree.bits 1 tree.probabilities
  (decisions, { tree with probabilities })

def encode (tree : ProbabilityTree) (value : Nat) : List Decision × ProbabilityTree :=
  tree.encodeBits value.testBit

/-- The lowest bit comes first. -/
def encodeReverse (tree : ProbabilityTree) (value : Nat) : List Decision × ProbabilityTree :=
  tree.encodeBits fun count => value.testBit (tree.bits - 1 - count)

def Sized (bits : Nat) (tree : ProbabilityTree) : Prop := tree.Shaped ∧ tree.bits = bits

variable {tree : ProbabilityTree} {count node bits value : Nat}

theorem Stands.encodeAt (h : Stands tree (count + 1) node) (bit : Bool) :
    Stands { tree with probabilities := (encodeAt tree.probabilities node bit).2 } count
      (2 * node + bit.toNat) :=
  h.child (Bool.toNat_le bit)
    (RangeCoder.fair_adapt (Table.get ⟨h.shaped.adapted, rfl⟩ h.lt).2 bit)

theorem Sized.encodeBits (h : tree.Sized bits) (bit : Nat → Bool) :
    (tree.encodeBits bit).2.Sized bits := by
  obtain ⟨⟨hpos, hle, hlength, hadapted⟩, hbits⟩ := h
  obtain ⟨hadapted', hlength'⟩ :=
    Table.encodePath ⟨hadapted, hlength⟩ bit (fun _ node => node) tree.bits 1
  exact ⟨⟨hpos, hle, hlength', hadapted'⟩, hbits⟩

theorem codes_decodeLoop (h : Stands tree count node) (value : Nat) :
    Codes (encodePath value.testBit (fun _ node => node) count node tree.probabilities).1
      (decodeLoop count node tree) fun range => (node * 2 ^ count + value % 2 ^ count,
        { tree with probabilities :=
            (encodePath value.testBit (fun _ node => node) count node tree.probabilities).2 },
        range) := by
  induction count generalizing node tree with
  | zero =>
    rw [Nat.pow_zero, Nat.mul_one, Nat.mod_one]
    exact .pure _
  | succ count ih =>
    have hnode : node * 2 ^ (count + 1) + value % 2 ^ (count + 1) =
        (2 * node + (value.testBit count).toNat) * 2 ^ count + value % 2 ^ count := by
      rw [Nat.mod_pow_succ, Nat.toNat_testBit, Nat.pow_succ]
      ring
    obtain ⟨hget, hadapted⟩ := Table.get ⟨h.shaped.adapted, rfl⟩ h.lt
    rw [hnode]
    exact .value (okOr_eq_ok.mpr hget) (.bind (codes_decodeBit hadapted _)
      (.value (child_eq h.lt_byte (Bool.toNat_le _)) (ih (h.encodeAt _))))

theorem codes_reverseLoop (h : Stands tree count node) (value : Nat) {bits shift : Nat}
    (hbits : shift + count = bits) (hle : bits ≤ 8) :
    Codes (encodePath (fun count => value.testBit (bits - 1 - count)) (fun _ node => node) count
        node tree.probabilities).1
      (reverseLoop count shift node (value % 2 ^ shift) tree) fun range => (value % 2 ^ bits,
        { tree with probabilities := (encodePath (fun count => value.testBit (bits - 1 - count))
            (fun _ node => node) count node tree.probabilities).2 }, range) := by
  induction count generalizing node tree shift with
  | zero =>
    subst hbits
    exact .pure _
  | succ count ih =>
    have hshift : bits - 1 - count = shift := by omega
    have hbit := Bool.toNat_le (value.testBit shift)
    have hpow : 2 ^ shift ≤ 2 ^ 8 := Nat.pow_le_pow_right (by decide) (by omega)
    have hplaced : (value.testBit shift).toNat <<< shift % 2 ^ 32 =
        (value.testBit shift).toNat <<< shift := by
      rw [Nat.shiftLeft_eq, Nat.mul_comm]
      exact Nat.mod_eq_of_lt (Nat.lt_of_le_of_lt (Nat.mul_le_mul hpow hbit) (by decide))
    have hvalue : value % 2 ^ shift ||| (value.testBit shift).toNat <<< shift % 2 ^ 32 =
        value % 2 ^ (shift + 1) := by
      rw [hplaced, Nat.or_comm,
        ← Nat.shiftLeft_add_eq_or_of_lt (Nat.mod_lt _ (Nat.two_pow_pos shift)), Nat.shiftLeft_eq,
        Nat.toNat_testBit, Nat.mod_pow_succ]
      ring
    have hrest := @ih _ _ (h.encodeAt (value.testBit shift)) (shift + 1) (by omega)
    obtain ⟨hget, hadapted⟩ := Table.get ⟨h.shaped.adapted, rfl⟩ h.lt
    rw [← hvalue] at hrest
    simp only [encodePath, hshift]
    refine .value (okOr_eq_ok.mpr hget) (.bind (codes_decodeBit hadapted _) (.value ?_
      (.value (child_eq h.lt_byte hbit) hrest)))
    rw [checkedShl, if_pos (by omega)]
    rfl

theorem coded_decode (h : tree.Sized bits) (hvalue : value < 2 ^ bits) :
    Coded (tree.encode value) tree.decode value (Sized bits) := by
  refine ⟨?_, h.encodeBits _⟩
  obtain ⟨hshaped, rfl⟩ := h
  have hbits := hshaped.bits_le
  have hpow : 2 ^ tree.bits ≤ 2 ^ 8 := Nat.pow_le_pow_right (by decide) hbits
  refine .andThen (codes_decodeLoop (stands_root hshaped) value) (.value
    (okOr_eq_ok.mpr (checkedShl_one (show tree.bits < 64 by omega))) (.value (b := value) ?_
      (.value (okOr_eq_ok.mpr (tryFrom_of_lt (by omega))) (.pure _))))
  rw [Nat.one_mul, Nat.mod_eq_of_lt hvalue, checkedSub_of_le (Nat.le_add_right _ _),
    Nat.add_sub_cancel_left]
  rfl

theorem coded_decodeReverse (h : tree.Sized bits) (hvalue : value < 2 ^ bits) :
    Coded (tree.encodeReverse value) tree.decodeReverse value (Sized bits) := by
  refine ⟨?_, h.encodeBits _⟩
  obtain ⟨hshaped, rfl⟩ := h
  have hloop := codes_reverseLoop (stands_root hshaped) value (Nat.zero_add _) hshaped.bits_le
  rw [Nat.pow_zero, Nat.mod_one, Nat.mod_eq_of_lt hvalue] at hloop
  exact hloop

end ProbabilityTree

/-- So many trees of these sizes. -/
structure Trees (bits : Nat → Nat) (count : Nat) (trees : List ProbabilityTree) : Prop where
  length_eq : trees.length = count
  sized : ∀ (i : Nat) (tree : ProbabilityTree), trees[i]? = some tree → tree.Sized (bits i)

def encodeTreeAt (encode : ProbabilityTree → Nat → List Decision × ProbabilityTree)
    (trees : List ProbabilityTree) (index value : Nat) : List Decision × List ProbabilityTree :=
  match trees[index]? with
  | none => ([], trees)
  | some tree => ((encode tree value).1, trees.set index (encode tree value).2)

theorem Trees.decodeTreeAt {encode : ProbabilityTree → Nat → List Decision × ProbabilityTree}
    {decode : ProbabilityTree → RangeDecoder → Metered (Nat × ProbabilityTree × RangeDecoder)}
    {bits : Nat → Nat} {count index value : Nat} {trees : List ProbabilityTree}
    (h : Trees bits count trees) (hindex : index < count)
    (hcoded : ∀ {tree : ProbabilityTree}, tree.Sized (bits index) →
      Coded (encode tree value) (decode tree) value (ProbabilityTree.Sized (bits index)))
    (detail : String) :
    Coded (encodeTreeAt encode trees index value) (decodeTreeAt decode trees index detail) value
      (Trees bits count) := by
  have hlength := h.length_eq
  obtain ⟨tree, hget⟩ : ∃ tree, trees[index]? = some tree :=
    ⟨_, List.getElem?_eq_getElem (by omega)⟩
  obtain ⟨hcodes, hsized⟩ := hcoded (h.sized index tree hget)
  rw [encodeTreeAt, hget]
  refine ⟨.value (okOr_eq_ok.mpr hget) (.andThen hcodes (.pure _)), ?_⟩
  refine ⟨List.length_set.trans hlength, fun i other hother => ?_⟩
  rw [List.getElem?_set] at hother
  by_cases hi : index = i
  · rw [if_pos hi, if_pos (by omega)] at hother
    cases hother
    exact hi ▸ hsized
  · rw [if_neg hi] at hother
    exact h.sized i other hother

namespace LengthDecoder

def encode (lengths : LengthDecoder) (positionState value : Nat) :
    List Decision × LengthDecoder :=
  let first := encodeAt lengths.choice 0 (8 ≤ value)
  let second := encodeAt first.2 1 (16 ≤ value)
  if value < 8 then
    let rest := encodeTreeAt ProbabilityTree.encode lengths.low positionState value
    (first.1 ++ rest.1, { lengths with choice := first.2, low := rest.2 })
  else if value < 16 then
    let rest := encodeTreeAt ProbabilityTree.encode lengths.middle positionState (value - 8)
    (first.1 ++ (second.1 ++ rest.1), { lengths with choice := second.2, middle := rest.2 })
  else
    let rest := lengths.high.encode (value - 16)
    (first.1 ++ (second.1 ++ rest.1), { lengths with choice := second.2, high := rest.2 })

structure Sound (lengths : LengthDecoder) : Prop where
  choice : Table 2 lengths.choice
  low : Trees (fun _ => 3) positionStates lengths.low
  middle : Trees (fun _ => 3) positionStates lengths.middle
  high : lengths.high.Sized 8

theorem coded_decode {lengths : LengthDecoder} (h : lengths.Sound) {positionState value : Nat}
    (hstate : positionState < positionStates) (hvalue : value < 272) :
    Coded (lengths.encode positionState value) (lengths.decode · positionState) value Sound := by
  obtain ⟨hchoice, hlow, hmiddle, hhigh⟩ := h
  obtain ⟨hfirst, hchoice⟩ :=
    hchoice.decodeAt (by decide : 0 < 2) "LZMA length choice is missing" (8 ≤ value)
  obtain ⟨hsecond, hchoice'⟩ :=
    hchoice.decodeAt (by decide : 1 < 2) "LZMA length choice is missing" (16 ≤ value)
  by_cases h8 : value < 8
  · obtain ⟨hcodes, htrees⟩ := hlow.decodeTreeAt hstate
      (ProbabilityTree.coded_decode · (show value < 2 ^ 3 from h8))
      "LZMA low-length state is out of range"
    simp only [encode, if_pos h8]
    refine ⟨.bind hfirst ?_, hchoice, htrees, hmiddle, hhigh⟩
    rw [decide_eq_false (Nat.not_le.mpr h8)]
    exact .andThen hcodes (.pure _)
  · have hbit : decide (8 ≤ value) = true := decide_eq_true (Nat.not_lt.mp h8)
    rw [hbit] at hfirst hchoice hsecond hchoice'
    by_cases h16 : value < 16
    · obtain ⟨hcodes, htrees⟩ := hmiddle.decodeTreeAt hstate
        (ProbabilityTree.coded_decode · (show value - 8 < 2 ^ 3 by omega))
        "LZMA middle-length state is out of range"
      simp only [encode, hbit, if_neg h8, if_pos h16]
      refine ⟨.bind hfirst (.bind hsecond ?_), hchoice', hlow, htrees, hhigh⟩
      rw [decide_eq_false (Nat.not_le.mpr h16)]
      refine .andThen hcodes (.value (b := value) ?_ (.pure _))
      rw [tryFrom_of_lt (by omega), Nat.sub_add_cancel (by omega)]
      rfl
    · obtain ⟨hcodes, hhigh⟩ :=
        ProbabilityTree.coded_decode hhigh (show value - 16 < 2 ^ 8 by omega)
      simp only [encode, hbit, if_neg h8, if_neg h16]
      refine ⟨.bind hfirst (.bind hsecond ?_), hchoice', hlow, hmiddle, hhigh⟩
      rw [decide_eq_true (Nat.not_lt.mp h16)]
      refine .andThen hcodes (.value (b := value) ?_ (.pure _))
      rw [tryFrom_of_lt (by omega), Nat.sub_add_cancel (by omega)]
      rfl

end LengthDecoder

/-! ## Distances -/

/-- Code the low bits of a value without a probability, the highest first. -/
def encodeDirect : Nat → Nat → List Decision
  | 0, _ => []
  | count + 1, value => .even (value.testBit count) :: encodeDirect count value

namespace DistanceDecoder

theorem codes_directLoop (count value : Nat) {direct : Nat}
    (hdirect : (direct + 1) * 2 ^ count ≤ 2 ^ 32) :
    Codes (encodeDirect count value) (directLoop count direct) fun range =>
      (direct * 2 ^ count + value % 2 ^ count, range) := by
  induction count generalizing direct with
  | zero =>
    rw [Nat.pow_zero, Nat.mul_one, Nat.mod_one]
    exact .pure _
  | succ count ih =>
    have hbit := Bool.toNat_le (value.testBit count)
    have hlast : direct * 2 ^ (count + 1) + value % 2 ^ (count + 1) =
        (direct * 2 + (value.testBit count).toNat) * 2 ^ count + value % 2 ^ count := by
      rw [Nat.mod_pow_succ, Nat.toNat_testBit, Nat.pow_succ]
      ring
    have hnext : (direct * 2 + (value.testBit count).toNat + 1) * 2 ^ count ≤ 2 ^ 32 :=
      Nat.le_trans (Nat.mul_le_mul_right _ (show _ ≤ (direct + 1) * 2 by omega))
        (by rwa [Nat.mul_assoc, ← Nat.pow_succ'])
    have hfits : direct * 2 + (value.testBit count).toNat < 2 ^ 32 :=
      Nat.lt_of_lt_of_le (Nat.lt_succ_self _)
        (Nat.le_trans (Nat.le_mul_of_pos_right _ (Nat.two_pow_pos count)) hnext)
    rw [hlast]
    refine .bind (codes_decodeDirectBit _) (.value ?_ (ih hnext))
    rw [checkedShl_of_lt (by decide) (by omega), Option.bind_some, Nat.pow_one, tryFrom_of_lt hfits]
    rfl

def lowBits (value : Nat) : Nat := value.log2 - 1

def encode (distances : DistanceDecoder) (length value : Nat) : List Decision × DistanceDecoder :=
  let bits := lowBits value
  let slot := if value < 4 then value else 2 * bits + value / 2 ^ bits
  let first := encodeTreeAt ProbabilityTree.encode distances.positionSlots
    (min length (lengthStates - 1)) slot
  let distances := { distances with positionSlots := first.2 }
  if slot < startPositionModel then (first.1, distances)
  else if slot < endPositionModel then
    let rest := encodeTreeAt ProbabilityTree.encodeReverse distances.positionModels
      (slot - startPositionModel) (value % 2 ^ bits)
    (first.1 ++ rest.1, { distances with positionModels := rest.2 })
  else
    let rest := distances.alignment.encodeReverse (value % 2 ^ alignBits)
    (first.1 ++ (encodeDirect (bits - alignBits) (value / 2 ^ alignBits) ++ rest.1),
      { distances with alignment := rest.2 })

structure Sound (distances : DistanceDecoder) : Prop where
  positionSlots : Trees (fun _ => positionSlotBits) lengthStates distances.positionSlots
  positionModels : Trees (fun slot => (slot + startPositionModel) / 2 - 1)
    (endPositionModel - startPositionModel) distances.positionModels
  alignment : distances.alignment.Sized alignBits

theorem slot_parts {value : Nat} (hlarge : 4 ≤ value) (hvalue : value < 2 ^ 32) :
    ∃ bits top, lowBits value = bits ∧ value / 2 ^ bits = top ∧ 1 ≤ bits ∧ bits ≤ 30 ∧
      startPositionModel ≤ 2 * bits + top ∧ 2 * bits + top < 2 * bits + startPositionModel ∧
      (2 * bits + top) >>> 1 = bits + 1 ∧ 2 ||| (2 * bits + top) &&& 1 = top ∧
      top * 2 ^ bits + value % 2 ^ bits = value := by
  have hlow := Nat.log2_self_le (show value ≠ 0 by omega)
  have hhigh := @Nat.lt_log2_self value
  have hlog : 2 ≤ value.log2 := (Nat.le_log2 (by omega)).mpr hlarge
  have hbits : value.log2 = lowBits value + 1 := by
    unfold lowBits
    omega
  rw [hbits, Nat.pow_succ] at hlow
  rw [hbits, Nat.pow_succ, Nat.pow_succ] at hhigh
  have hpos := Nat.two_pow_pos (lowBits value)
  have htwo := (Nat.le_div_iff_mul_le hpos).mpr (Nat.mul_comm _ 2 ▸ hlow)
  have hfour := (Nat.div_lt_iff_lt_mul hpos).mpr (show value < 4 * 2 ^ lowBits value by omega)
  have hwidth : 2 ^ lowBits value < 2 ^ 31 := by omega
  have hslot : startPositionModel = 4 := rfl
  refine ⟨_, _, rfl, rfl, by omega,
    Nat.le_of_lt_succ ((Nat.pow_lt_pow_iff_right (by decide : 1 < 2)).mp hwidth), by omega,
    by omega, by omega, ?_, Nat.div_add_mod' value _⟩
  rw [Nat.and_one_is_mod]
  obtain htop | htop : value / 2 ^ lowBits value = 2 ∨ value / 2 ^ lowBits value = 3 := by omega
  · rw [htop, Nat.add_mod_right, Nat.mul_mod_right]
    rfl
  · rw [htop, show 2 * lowBits value + 3 = 1 + 2 * (lowBits value + 1) by omega,
      Nat.add_mul_mod_self_left]
    rfl

theorem coded_decode {distances : DistanceDecoder} (h : distances.Sound) (length : Nat)
    {value : Nat} (hvalue : value < 2 ^ 32) :
    Coded (distances.encode length value) (distances.decode · length) value Sound := by
  obtain ⟨hslots, hmodels, halignment⟩ := h
  have hstate : min length (lengthStates - 1) < lengthStates := by
    unfold lengthStates
    omega
  have hfirst : ∀ {slot : Nat}, slot < 2 ^ 6 → Coded
      (encodeTreeAt ProbabilityTree.encode distances.positionSlots _ slot)
      (decodeTreeAt ProbabilityTree.decode distances.positionSlots _
        "LZMA position-slot state is out of range") slot _ := fun hslot =>
    hslots.decodeTreeAt hstate (ProbabilityTree.coded_decode · hslot) _
  by_cases hsmall : value < 4
  · have hstart : value < startPositionModel := hsmall
    obtain ⟨hcodes, htrees⟩ := hfirst (show value < 2 ^ 6 by omega)
    simp only [encode, if_pos hsmall, if_pos hstart]
    exact ⟨.andThen hcodes (.ite_pos hstart (.pure _)), htrees, hmodels, halignment⟩
  · obtain ⟨bits, top, hlow, htop, hpos, hwidth, hmin, hmax, hhalf, hone, hwhole⟩ :=
      slot_parts (by omega) hvalue
    have hstart : ¬2 * bits + top < startPositionModel := Nat.not_lt.mpr hmin
    have hfour : startPositionModel = 4 := rfl
    have hbits : checkedSub ((2 * bits + top) >>> 1) 1 = some bits := by
      rw [hhalf, checkedSub_of_le (by omega), Nat.add_sub_cancel]
    have hbase : checkedShl 32 (2 ||| (2 * bits + top) &&& 1) bits = some (top * 2 ^ bits) := by
      rw [hone, checkedShl_of_lt (by omega) (by omega)]
    obtain ⟨hcodes, htrees⟩ := hfirst (show 2 * bits + top < 2 ^ 6 by omega)
    simp only [encode, hlow, htop, if_neg hsmall, if_neg hstart]
    by_cases hmodel : 2 * bits + top < endPositionModel
    · have hend : endPositionModel = 14 := rfl
      have hsize : (2 * bits + top - startPositionModel + startPositionModel) / 2 - 1 = bits := by
        omega
      obtain ⟨hrest, hmodels⟩ := hmodels.decodeTreeAt
        (show 2 * bits + top - startPositionModel < _ by omega) (ProbabilityTree.coded_decodeReverse
          · (show value % 2 ^ bits < _ from hsize.symm ▸ Nat.mod_lt value (Nat.two_pow_pos bits)))
        "LZMA position-model index is out of range"
      rw [if_pos hmodel]
      refine ⟨.bind hcodes (.ite_neg hstart (.value (okOr_eq_ok.mpr hbits)
        (.value (okOr_eq_ok.mpr hbase) (.ite_pos hmodel
          (.value (okOr_eq_ok.mpr (checkedSub_of_le hmin))
            (.andThen hrest (.value ?_ (.pure _)))))))), htrees, hmodels, halignment⟩
      rw [hwhole, tryFrom_of_lt hvalue]
      rfl
    · have hend : endPositionModel = 14 := rfl
      obtain ⟨count, rfl⟩ := Nat.exists_eq_add_of_le (show 4 ≤ bits by omega)
      have hlow : value % 2 ^ (4 + count) = value % 16 + 16 * (value / 16 % 2 ^ count) := by
        rw [Nat.pow_add, show 2 ^ 4 = 16 from rfl, Nat.mod_mul]
      obtain ⟨hrest, halignment⟩ := ProbabilityTree.coded_decodeReverse halignment
        (show value % 2 ^ alignBits < _ from Nat.mod_lt value (Nat.two_pow_pos _))
      have hdirect := @codes_directLoop count (value / 2 ^ alignBits) 0
        (Nat.one_mul _ ▸ Nat.pow_le_pow_right (by decide) (show count ≤ 32 by omega))
      have hcount : 4 + count - alignBits = count := Nat.add_sub_cancel_left 4 count
      have hdirectBits : checkedSub (4 + count) alignBits = some count := by
        rw [checkedSub_of_le (show alignBits ≤ _ from Nat.le_add_right 4 count), hcount]
      rw [Nat.zero_mul, Nat.zero_add, show value / 2 ^ alignBits = value / 16 from rfl] at hdirect
      rw [if_neg hmodel, hcount, show value / 2 ^ alignBits = value / 16 from rfl]
      refine ⟨.bind hcodes (.ite_neg hstart (.value (okOr_eq_ok.mpr hbits)
        (.value (okOr_eq_ok.mpr hbase) (.ite_neg hmodel
          (.value (okOr_eq_ok.mpr hdirectBits)
            (.bind hdirect (.value (okOr_eq_ok.mpr (checkedShl_of_lt (by decide) ?_))
              (.andThen hrest (.value (b := value) ?_ (.pure _)))))))))),
        htrees, hmodels, halignment⟩
      · unfold alignBits
        omega
      · have hsum : top * 2 ^ (4 + count) + value / 16 % 2 ^ count * 2 ^ alignBits +
            value % 2 ^ alignBits = value := by
          unfold alignBits
          omega
        rw [tryFrom_of_lt (by omega), Option.bind_some, tryFrom_of_lt (by omega), hsum]
        rfl

end DistanceDecoder

namespace LiteralDecoder

def place (base : Nat) (matched : Option UInt8) (count node : Nat) : Nat :=
  match matched with
  | none => base + node
  | some byte => base + if node = (0x100 + byte.toNat) / 2 ^ (count + 1) then
      0x100 * (1 + (0x100 + byte.toNat) / 2 ^ count % 2) + node else node

def base (literal : LiteralDecoder) (previousByte : UInt8) (position : Nat) : Nat :=
  (position % (literal.literalPositionMask + 1) * 2 ^ literal.literalContextBits +
    previousByte.toNat / 2 ^ literal.previousByteShift) * 0x300

def encode (literal : LiteralDecoder) (state : Nat) (matchByte previousByte : UInt8)
    (position : Nat) (byte : UInt8) : List Decision × LiteralDecoder :=
  let path := encodePath (0x100 + byte.toNat).testBit
    (place (literal.base previousByte position) (if 7 ≤ state then some matchByte else none)) 8 1
    literal.probabilities
  (path.1, { literal with probabilities := path.2 })

structure Sound (lp : Nat) (literal : LiteralDecoder) : Prop where
  width : literal.literalContextBits + lp ≤ 4
  mask_eq : literal.literalPositionMask = 2 ^ lp - 1
  shift_eq : literal.previousByteShift = 8 - literal.literalContextBits
  table : Table (2 ^ (literal.literalContextBits + lp) * 0x300) literal.probabilities

section Loops

variable {size base count index node whole : Nat} {probabilities : List Nat}
  (h : Table size probabilities) (hbase : base + 0x300 ≤ size) (hsize : size < 2 ^ 64)
include h hbase hsize

theorem codes_decodeSymbolBit (hindex : index < 0x300) (hnode : node < 0x100) (bit : Bool) :
    Codes (encodeAt probabilities (base + index) bit).1
      (decodeSymbolBit probabilities base index node) fun range => (bit.toNat,
        2 * node + bit.toNat, (encodeAt probabilities (base + index) bit).2, range) := by
  have hbit := Bool.toNat_le bit
  refine .value (okOr_eq_ok.mpr (checkedAdd_of_lt (by omega)))
    (.andThen (h.decodeAt (show base + index < size by omega) _ bit).1 (.value ?_ (.pure _)))
  rw [checkedShl_of_lt (by decide) (by omega), Option.bind_some, tryFrom_of_lt (by omega),
    Nat.mul_comm]
  rfl

theorem codes_plainLoop {matched : Option UInt8} {rounds : Nat} (hcount : count ≤ rounds)
    (hnode : node = whole / 2 ^ count) (hlow : 0x100 ≤ whole) (hhigh : whole < 0x200)
    (hoff : ∀ byte ∈ matched, node = (0x100 + byte.toNat) / 2 ^ count → count = 0) :
    Codes (encodePath whole.testBit (place base matched) count node probabilities).1
      (plainLoop base rounds node probabilities) fun range => (whole,
        (encodePath whole.testBit (place base matched) count node probabilities).2, range) := by
  induction count generalizing rounds node probabilities with
  | zero =>
    rw [Nat.pow_zero, Nat.div_one] at hnode
    subst hnode
    cases rounds with
    | zero => exact .pure _
    | succ rounds => exact .ite_neg (Nat.not_lt.mpr hlow) (.pure _)
  | succ count ih =>
    obtain ⟨rounds, rfl⟩ := Nat.exists_eq_add_of_le' (Nat.le_trans (Nat.le_add_left 1 count) hcount)
    have hsplit : ∀ n : Nat, n / 2 ^ (count + 1) = n / 2 ^ count / 2 := fun n => by
      rw [Nat.pow_succ, Nat.div_div_eq_div_mul]
    have hbit := Nat.toNat_testBit whole count
    have hpos := Nat.two_pow_pos count
    have hfirst : node < 0x100 := by
      rw [hnode, Nat.div_lt_iff_lt_mul (Nat.two_pow_pos _), Nat.pow_succ]
      omega
    have hplace : place base matched count node = base + node := by
      cases matched with
      | none => rfl
      | some byte =>
        rw [place, if_neg fun heq => absurd (hoff byte rfl heq) (Nat.succ_ne_zero count)]
    rw [hsplit] at hnode
    refine .ite_pos hfirst ?_
    simp only [encodePath, hplace]
    refine .bind (codes_decodeSymbolBit h hbase hsize (by omega) hfirst _)
      (ih (h.encodeAt _ _) (by omega) (by omega) fun byte hbyte heq => ?_)
    have hother := hoff byte hbyte
    rw [hsplit] at hother
    omega

theorem codes_matchedLoop {byte : UInt8} (hcount : count ≤ 8) (hnode : node = whole / 2 ^ count)
    (hlow : 0x100 ≤ whole) (hhigh : whole < 0x200)
    (hon : node = (0x100 + byte.toNat) / 2 ^ count) :
    ∃ front later symbol probabilities', Codes front
        (matchedLoop base count (byte.toNat * 2 ^ (8 - count)) node probabilities)
        (fun range => (symbol, probabilities', range)) ∧
      Table size probabilities' ∧ later ≤ 8 ∧ symbol = whole / 2 ^ later ∧
      (symbol = (0x100 + byte.toNat) / 2 ^ later → later = 0) ∧
      encodePath whole.testBit (place base (some byte)) count node probabilities =
        (front ++ (encodePath whole.testBit (place base (some byte)) later symbol
            probabilities').1,
          (encodePath whole.testBit (place base (some byte)) later symbol probabilities').2) := by
  induction count generalizing node probabilities with
  | zero => exact ⟨[], 0, node, probabilities, .pure _, h, hcount, hnode, fun _ => rfl, rfl⟩
  | succ count ih =>
    have hsplit : ∀ n : Nat, n / 2 ^ (count + 1) = n / 2 ^ count / 2 := fun n => by
      rw [Nat.pow_succ, Nat.div_div_eq_div_mul]
    have hbit := Nat.toNat_testBit whole count
    have hmatchBit : byte.toNat / 2 ^ count % 2 = (0x100 + byte.toNat) / 2 ^ count % 2 := by
      rw [← Nat.toNat_testBit, ← Nat.toNat_testBit,
        ← Nat.testBit_two_pow_add_gt (show count < 8 by omega)]
    have hshifted : (byte.toNat * 2 ^ (8 - (count + 1))) >>> 7 &&& 1 =
        (0x100 + byte.toNat) / 2 ^ count % 2 := by
      rw [Nat.shiftRight_eq_div_pow, Nat.and_one_is_mod, ← hmatchBit,
        show 2 ^ 7 = 2 ^ count * 2 ^ (8 - (count + 1)) by rw [← Nat.pow_add]; congr 1; omega,
        Nat.mul_div_mul_right _ _ (Nat.two_pow_pos _)]
    have hnext : wrappingShl (byte.toNat * 2 ^ (8 - (count + 1))) 1 =
        byte.toNat * 2 ^ (8 - count) := by
      have hbyte := byte.toNat_lt
      have hpow : 2 ^ (8 - (count + 1)) ≤ 2 ^ 7 := Nat.pow_le_pow_right (by decide) (by omega)
      have hless := Nat.mul_le_mul (Nat.le_of_lt hbyte) hpow
      rw [wrappingShl, Nat.shiftLeft_eq, Nat.mod_eq_of_lt (by omega), Nat.mul_assoc,
        ← Nat.pow_add, show 8 - (count + 1) + 1 = 8 - count by omega]
    have hfirst : node < 0x100 := by
      rw [hnode, Nat.div_lt_iff_lt_mul (Nat.two_pow_pos _), Nat.pow_succ]
      have := Nat.two_pow_pos count
      omega
    have hindex : (1 + (0x100 + byte.toNat) / 2 ^ count % 2) * 2 ^ 8 ||| node =
        0x100 * (1 + (0x100 + byte.toNat) / 2 ^ count % 2) + node := by
      rw [← Nat.shiftLeft_eq, ← Nat.shiftLeft_add_eq_or_of_lt hfirst, Nat.shiftLeft_eq,
        Nat.mul_comm]
    have hplace : place base (some byte) count node =
        base + ((1 + (0x100 + byte.toNat) / 2 ^ count % 2) * 2 ^ 8 ||| node) := by
      rw [place, if_pos hon, hindex]
    have hstep := codes_decodeSymbolBit h hbase hsize
      (show (1 + (0x100 + byte.toNat) / 2 ^ count % 2) * 2 ^ 8 ||| node < 0x300 by omega) hfirst
      (whole.testBit count)
    have hvalue : ((tryFrom 32 (1 + ((byte.toNat * 2 ^ (8 - (count + 1))) >>> 7 &&& 1))).bind
        (checkedShl 32 · 8)) = some ((1 + (0x100 + byte.toNat) / 2 ^ count % 2) * 2 ^ 8) := by
      rw [hshifted, tryFrom_of_lt (by omega), Option.bind_some,
        checkedShl_of_lt (by decide) (by omega)]
    have hsymbol : 2 * node + (whole.testBit count).toNat = whole / 2 ^ count := by
      rw [hsplit] at hnode
      omega
    rw [hsplit] at hon
    by_cases hend : (byte.toNat * 2 ^ (8 - (count + 1))) >>> 7 &&& 1 ≠ (whole.testBit count).toNat ∨
        0x100 ≤ 2 * node + (whole.testBit count).toNat
    · refine ⟨_, count, _, _, .value (okOr_eq_ok.mpr hvalue)
        (.andThen hstep (.ite_pos hend (.pure _))), h.encodeAt _ _, by omega, hsymbol, ?_, ?_⟩
      · intro heq
        by_contra hcount
        have hhalf : whole / 2 ^ count ≤ whole / 2 := Nat.div_le_div_left
          (Nat.pow_le_pow_right (by decide : 0 < 2) (Nat.pos_of_ne_zero hcount)) (by decide)
        omega
      · simp only [encodePath, hplace]
    · obtain ⟨hbits, hmore⟩ := not_or.mp hend
      obtain ⟨front, later, symbol, probabilities', hrest, htable, hlater, hsymbol', hoff, hpath⟩ :=
        ih (h.encodeAt (base + ((1 + (0x100 + byte.toNat) / 2 ^ count % 2) * 2 ^ 8 ||| node))
          (whole.testBit count)) (by omega) hsymbol (by omega)
      rw [← hnext] at hrest
      refine ⟨_, later, symbol, probabilities', .value (okOr_eq_ok.mpr hvalue)
        (.bind hstep (.ite_neg hend hrest)), htable, hlater, hsymbol', hoff, ?_⟩
      simp only [encodePath, hplace, hpath, List.append_assoc]

theorem codes_decodeSymbol (state : Nat) (matchByte byte : UInt8) :
    Codes (encodePath (0x100 + byte.toNat).testBit
        (place base (if 7 ≤ state then some matchByte else none)) 8 1 probabilities).1
      (decodeSymbol base state matchByte probabilities) fun range => (0x100 + byte.toNat,
        (encodePath (0x100 + byte.toNat).testBit
          (place base (if 7 ≤ state then some matchByte else none)) 8 1 probabilities).2,
        range) := by
  have hbyte := byte.toNat_lt
  have hmatch := matchByte.toNat_lt
  unfold decodeSymbol
  by_cases hstate : 7 ≤ state
  · obtain ⟨front, later, symbol, probabilities', hfront, htable, hlater, hsymbol, hoff, hpath⟩ :=
      @codes_matchedLoop _ _ 8 1 (0x100 + byte.toNat) _ h hbase hsize matchByte (by decide)
        (by omega) (by omega) (by omega) (by omega)
    rw [Nat.sub_self, Nat.pow_zero, Nat.mul_one] at hfront
    rw [if_pos hstate, if_pos hstate, hpath]
    refine .bind hfront (codes_plainLoop htable hbase hsize hlater hsymbol (by omega) (by omega) ?_)
    intro other hother
    cases hother
    exact hoff
  · rw [if_neg hstate, if_neg hstate]
    have hplain := @codes_plainLoop _ _ 8 1 (0x100 + byte.toNat) _ h hbase hsize none 8
      (Nat.le_refl 8) (by omega) (by omega) (by omega) fun _ hother => absurd hother (by simp)
    exact @Codes.bind _ _ [] _ _ _ _ _ (.pure _) hplain

end Loops

theorem coded_decode {lp : Nat} {literal : LiteralDecoder} (h : literal.Sound lp) (state : Nat)
    (matchByte previousByte : UInt8) (position : Nat) (byte : UInt8) :
    Coded (literal.encode state matchByte previousByte position byte)
      (literal.decode · state matchByte previousByte position) byte (Sound lp) := by
  obtain ⟨hwidth, hmask, hshift, htable⟩ := h
  have hbyte := byte.toNat_lt
  have hpow : 2 ^ (literal.literalContextBits + lp) ≤ 2 ^ 4 :=
    Nat.pow_le_pow_right (by decide) hwidth
  have hmodulus : literal.literalPositionMask + 1 = 2 ^ lp := by
    rw [hmask, Nat.sub_add_cancel Nat.one_le_two_pow]
  have hprevious : previousByte.toNat / 2 ^ literal.previousByteShift <
      2 ^ literal.literalContextBits := by
    rw [Nat.div_lt_iff_lt_mul (Nat.two_pow_pos _), ← Nat.pow_add, hshift,
      show literal.literalContextBits + (8 - literal.literalContextBits) = 8 by omega]
    exact previousByte.toNat_lt
  have hpart : position % (literal.literalPositionMask + 1) * 2 ^ literal.literalContextBits +
      previousByte.toNat / 2 ^ literal.previousByteShift <
        2 ^ (literal.literalContextBits + lp) := by
    have hmod := Nat.mod_lt position (Nat.two_pow_pos lp)
    rw [hmodulus, Nat.pow_add, Nat.mul_comm (2 ^ literal.literalContextBits)]
    refine Nat.lt_of_lt_of_le (Nat.add_lt_add_left hprevious _) ?_
    rw [← Nat.succ_mul]
    exact Nat.mul_le_mul_right _ hmod
  have hbase : literal.base previousByte position + 0x300 ≤
      2 ^ (literal.literalContextBits + lp) * 0x300 := by
    unfold base
    omega
  have hpositionPart : checkedShl 64 (position &&& literal.literalPositionMask)
      literal.literalContextBits = some (position % (literal.literalPositionMask + 1) *
        2 ^ literal.literalContextBits) := by
    have hfits := Nat.lt_of_le_of_lt (Nat.le_add_right _ _) hpart
    rw [hmodulus] at hfits ⊢
    rw [hmask, Nat.and_two_pow_sub_one_eq_mod, checkedShl_of_lt (by omega) (by omega)]
  have hstart : tryFrom 64 ((position % (literal.literalPositionMask + 1) *
      2 ^ literal.literalContextBits ||| previousByte.toNat >>> literal.previousByteShift) *
        0x300) = some (literal.base previousByte position) := by
    rw [Nat.shiftRight_eq_div_pow, ← Nat.shiftLeft_eq, ← Nat.shiftLeft_add_eq_or_of_lt hprevious,
      Nat.shiftLeft_eq, tryFrom_of_lt (by omega)]
    rfl
  have hvalue : checkedSub (0x100 + byte.toNat) 0x100 = some byte.toNat := by
    rw [checkedSub_of_le (Nat.le_add_right _ _), Nat.add_sub_cancel_left]
  have hdecoded := codes_decodeSymbol htable hbase (by omega) state matchByte byte
  refine ⟨.value (okOr_eq_ok.mpr hpositionPart) (.value (okOr_eq_ok.mpr hstart)
    (.andThen hdecoded (.value (okOr_eq_ok.mpr hvalue)
      (.value (okOr_eq_ok.mpr (tryFrom_of_lt hbyte)) ?_)))), hwidth, hmask, hshift,
    htable.encodePath _ _ _ _⟩
  rw [UInt8.ofNat_toNat]
  exact .pure _

end LiteralDecoder

end Lzma
end Unpackio
