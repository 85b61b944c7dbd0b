/-
Reading relations for the header parsers: elementary values, repetitions, and
sections that one identifier read ahead selects.
-/
import Unpackio.Header.Syntax

namespace Unpackio

theorem Reads.of_short {α : Type} {p : Reading α} {written : List UInt8} {a : α}
    (h : written.length < 2 ^ 64 → Reads p written a) : Reads p written a := by
  intro front rest hlen
  refine h ?_ front rest hlen
  simp only [List.length_append] at hlen
  omega

theorem reads_readU8 (byte : UInt8) : Reads readU8 [byte] byte :=
  .seq_nil (.lift (checkpoint_granted 1)) (.readU8 byte)

theorem reads_readU8_bind {α : Type} {f : UInt8 → Reading α} {byte : UInt8} {written : List UInt8}
    {a : α} (h : Reads (f byte) written a) : Reads (readU8 >>= f) (byte :: written) a :=
  .bind (reads_readU8 byte) h

theorem reads_readU32Le (value : UInt32) : Reads readU32Le (toLeBytes 4 value.toNat) value :=
  .seq_nil (.lift (checkpoint_granted 4)) (.readU32Le value)

theorem reads_readUint {value : Nat} (h : value < 2 ^ 64) :
    Reads readUint (write7zUint value) value :=
  .seq_nil (.lift (checkpoint_granted 9)) (.read7zUint h)

theorem reads_readBytes (written : List UInt8) :
    Reads (readBytes written.length) written written :=
  .bind_nil (.readBytes written)
    (.bind_nil (.lift (consumeBytes_granted written)) (.pure written))

theorem reads_repeatReading {α : Type} {p : Reading α} {write : α → List UInt8} (values : List α)
    (h : ∀ a ∈ values, Reads p (write a) a) :
    Reads (repeatReading p values.length) (values.flatMap write) values := by
  induction values with
  | nil => exact .pure []
  | cons a values ih =>
    rw [List.flatMap_cons, List.length_cons, repeatReading]
    refine .bind (h a List.mem_cons_self) (.bind_nil (ih ?_) (.pure _))
    exact fun b hb => h b (List.mem_cons_of_mem a hb)

theorem reads_parseSizes {sizes : List Nat} (h : AllU64 sizes) :
    Reads (parseSizes sizes.length) (writeSizes sizes) sizes :=
  .seq_nil (.lift (checkpoint_granted _))
    (reads_repeatReading sizes fun size hsize => reads_readUint (h size hsize))

theorem packByte_bits : ∀ a b c d e f g h : Bool, ∀ i < 8,
    ((packByte [a, b, c, d, e, f, g, h]).toNat &&& 0x80 >>> i != 0) =
      [a, b, c, d, e, f, g, h].getD i false := by decide +kernel

theorem packByte_eq_getD (bits : List Bool) :
    packByte bits =
      packByte [bits.getD 0 false, bits.getD 1 false, bits.getD 2 false, bits.getD 3 false,
        bits.getD 4 false, bits.getD 5 false, bits.getD 6 false, bits.getD 7 false] := rfl

theorem packByte_bit (bits : List Bool) {i : Nat} (h : i < 8) :
    ((packByte bits).toNat &&& 0x80 >>> i != 0) = bits.getD i false := by
  rw [packByte_eq_getD, packByte_bits _ _ _ _ _ _ _ _ i h]
  match i, h with
  | 0, _ | 1, _ | 2, _ | 3, _ | 4, _ | 5, _ | 6, _ | 7, _ => rfl

/-- The bits of one byte from place `8 - left` on.  `next` reads what is left
when the mask has run out. -/
theorem reads_bitsOfByte {byte : Nat} {written : List UInt8} (left : Nat) (hleft : left ≤ 8)
    (bits : List Bool)
    (hbits : ∀ j < left, j < bits.length →
      (byte &&& 0x80 >>> (8 - left + j) != 0) = bits.getD j false)
    (hnext : Reads (parseBitsLoop (bits.drop left).length byte 0) written (bits.drop left)) :
    Reads (parseBitsLoop bits.length byte (0x80 >>> (8 - left))) written bits := by
  induction left generalizing bits with
  | zero => exact hnext
  | succ left ih =>
    cases bits with
    | nil =>
      rw [List.drop_nil] at hnext
      exact hnext
    | cons bit bits =>
      have hmask : ∀ i < 8, 0x80 >>> i ≠ 0 := by decide
      have hbit := hbits 0 (by omega) (by rw [List.length_cons]; omega)
      rw [Nat.add_zero, List.getD_cons_zero] at hbit
      have hshift : 0x80 >>> (8 - (left + 1)) >>> 1 = 0x80 >>> (8 - left) := by
        rw [← Nat.shiftRight_add]
        congr 1
        omega
      rw [List.length_cons, parseBitsLoop, if_neg (hmask _ (by omega)), hshift, hbit]
      refine .bind_nil (ih (by omega) bits ?_ hnext) (.pure _)
      intro j hj hlen
      have h := hbits (j + 1) (by omega) (by rw [List.length_cons]; omega)
      rw [List.getD_cons_succ] at h
      rw [← h]
      congr 3
      omega

/-- The induction goes byte by byte, and inside a byte by `reads_bitsOfByte`. -/
theorem reads_parseBitsLoop (bits : List Bool) (byte : Nat) :
    Reads (parseBitsLoop bits.length byte 0) (writeBits bits) bits := by
  induction hn : bits.length using Nat.strongRecOn generalizing bits byte with
  | _ n ih =>
    subst hn
    cases bits with
    | nil =>
      rw [writeBits, chunks_nil (by decide)]
      exact .pure []
    | cons bit bits =>
      have hfirst := packByte_bit ((bit :: bits).take 8) (i := 0) (by omega)
      rw [writeBits, chunks_of_ne_nil (by decide) (List.cons_ne_nil bit bits), List.map_cons,
        List.length_cons, parseBitsLoop, if_pos rfl]
      refine reads_readU8_bind ?_
      rw [show (0x80 : Nat) = 0x80 >>> 0 from rfl, hfirst]
      refine .bind_nil (reads_bitsOfByte 7 (by omega) bits ?_ ?_) (.pure (bit :: bits))
      · intro j hj hlen
        rw [show 8 - 7 + j = j + 1 by omega, packByte_bit _ (by omega), List.getD_eq_getElem?_getD,
          List.getElem?_take_of_lt (by omega), ← List.getD_eq_getElem?_getD, List.getD_cons_succ]
      · exact ih _ (by rw [List.length_drop, List.length_cons]; omega) _ _ rfl

theorem reads_parseBits (bits : List Bool) :
    Reads (parseBits bits.length) (writeBits bits) bits :=
  .seq_nil (.lift (checkpoint_granted _)) (reads_parseBitsLoop bits 0)

theorem reads_readDigests (digests : List (Option UInt32)) :
    Reads (readDigests (digests.map Option.isSome)) (writeDefinedDigests digests) digests := by
  induction digests with
  | nil => exact .pure []
  | cons digest digests ih =>
    cases digest with
    | none => exact .bind_nil ih (.pure _)
    | some value =>
      exact .bind (reads_readU32Le value) (.bind_nil ih (.pure _))

theorem reads_parseDigests (digests : List (Option UInt32)) :
    Reads (parseDigests digests.length) (writeDigests digests) digests := by
  unfold parseDigests writeDigests
  by_cases hnil : digests = []
  · subst hnil
    exact .pure []
  rw [if_neg hnil, if_neg (by simpa using hnil)]
  refine .seq_nil (.lift (checkpoint_granted _)) ?_
  by_cases hall : digests.all Option.isSome
  · have hmap : List.replicate digests.length true = digests.map Option.isSome := by
      refine (List.eq_replicate_iff.mpr ⟨List.length_map _, ?_⟩).symm
      simpa using hall
    rw [if_pos hall]
    refine reads_readU8_bind ?_
    rw [if_neg (by decide), hmap]
    exact .seq_nil (.pure _) (reads_readDigests digests)
  · rw [if_neg hall]
    refine reads_readU8_bind ?_
    have hbits := reads_parseBits (digests.map Option.isSome)
    rw [List.length_map] at hbits
    rw [if_pos rfl]
    exact .bind hbits (reads_readDigests digests)

/-! ## Parsers with declared totals -/

/-- `p` started with the totals `s` reads exactly `written`, yields `a` and
leaves the totals `t`. -/
def Parses {α : Type} (p : Parsing α) (s : ParseState) (written : List UInt8) (a : α)
    (t : ParseState) : Prop :=
  Reads (p s) written (a, t)

namespace Parses

variable {α β : Type} {p : Parsing α} {f : α → Parsing β} {s t u : ParseState}
  {written : List UInt8} {a : α} {b : β}

theorem pure (a : α) : Parses (Pure.pure a) s [] a s := Reads.pure (a, s)

theorem bind {written₁ written₂ : List UInt8} (hp : Parses p s written₁ a t)
    (hf : Parses (f a) t written₂ b u) :
    Parses (p >>= f) s (written₁ ++ written₂) b u :=
  Reads.bind (p := p s) (f := fun x => f x.1 x.2) (a := (a, t)) hp hf

theorem bind_nil (hp : Parses p s written a t) (hf : Parses (f a) t [] b u) :
    Parses (p >>= f) s written b u :=
  Reads.bind_nil (p := p s) (f := fun x => f x.1 x.2) (a := (a, t)) hp hf

theorem seq_nil (hp : Parses p s [] a t) (hf : Parses (f a) t written b u) :
    Parses (p >>= f) s written b u := bind hp hf

theorem lift {q : Reading α} (h : Reads q written a) : Parses (liftM q) s written a s :=
  Reads.bind_nil (f := fun a => Pure.pure (a, s)) h (Reads.pure (a, s))

theorem liftExcept {m : Except Error α} (h : m = .ok a) : Parses (liftM m) s [] a s := by
  subst h
  exact Reads.pure (a, s)

theorem liftMetered {m : Metered α} (h : m.granted = .ok a) : Parses (liftM m) s [] a s :=
  Reads.bind_nil (f := fun a => Pure.pure (a, s)) (Reads.lift h) (Reads.pure (a, s))

theorem check {c : Prop} [Decidable c] {e : Error} {f : Unit → Parsing β} (hc : ¬c)
    (hf : Parses (f ()) s written b u) :
    Parses (liftM (rejectIf c e) >>= f) s written b u :=
  seq_nil (liftExcept (rejectIf_of_not hc e)) hf

theorem checkLimit {value maximum : Nat} {limit : LimitKind} {f : Unit → Parsing β}
    (hle : value ≤ maximum) (hf : Parses (f ()) s written b u) :
    Parses (liftM (Unpackio.checkLimit value maximum limit) >>= f) s written b u :=
  seq_nil (liftExcept (checkLimit_of_le hle limit)) hf

theorem of_short (h : written.length < 2 ^ 64 → Parses p s written a t) :
    Parses p s written a t := Reads.of_short h

end Parses

theorem parses_readU8 {s : ParseState} (byte : UInt8) :
    Parses (liftM readU8) s [byte] byte s := Parses.lift (reads_readU8 byte)

theorem parses_readU8_bind {α : Type} {f : UInt8 → Parsing α} {s t : ParseState} {byte : UInt8}
    {written : List UInt8} {a : α} (h : Parses (f byte) s written a t) :
    Parses (liftM readU8 >>= f) s (byte :: written) a t :=
  Parses.bind (parses_readU8 byte) h

theorem parses_readUint {s : ParseState} {value : Nat} (h : value < 2 ^ 64) :
    Parses (liftM readUint) s (write7zUint value) value s := .lift (reads_readUint h)

namespace ParseState

variable {s : ParseState} {limits : Limits}

theorem addLimited_eq_ok {value additional maximum total : Nat} {limit : LimitKind}
    {detail : String} :
    addLimited value additional maximum limit detail = .ok total ↔
      value + additional < 2 ^ 64 ∧ value + additional ≤ maximum ∧ value + additional = total := by
  simp only [addLimited, Except.bind_eq_ok, okOr_eq_ok, checkedAdd_eq_some, checkLimit_eq_ok]
  constructor
  · rintro ⟨_, ⟨h64, rfl⟩, _, hmax, h⟩
    exact ⟨h64, hmax, Except.ok.inj h⟩
  · rintro ⟨h64, hmax, rfl⟩
    exact ⟨_, ⟨h64, rfl⟩, (), hmax, rfl⟩

/-- Each counter of `ParseState` adds its declared count when the sum is within
its limit. -/
theorem parses_addLimited {value additional maximum : Nat} {limit : LimitKind} {detail : String}
    (update : Nat → ParseState)
    (h : value + additional ≤ maximum ∧ value + additional < 2 ^ 64) :
    Parses (liftM (addLimited value additional maximum limit detail) >>= fun total =>
      set (update total)) s [] () (update (value + additional)) :=
  .seq_nil (.liftExcept (addLimited_eq_ok.mpr ⟨h.2, h.1, rfl⟩))
    (Reads.pure ((), update (value + additional)))

theorem parses_get : Parses get s [] s s := Reads.pure (s, s)

theorem parses_addFolders {count : Nat}
    (h : (s + { default with totalFolders := count }).Within limits) :
    Parses (addFolders count limits) s [] () (s + { default with totalFolders := count }) :=
  .seq_nil parses_get
    (parses_addLimited (fun total => { s with totalFolders := total }) h.folders)

theorem parses_addCoders {count : Nat}
    (h : (s + { default with totalCoders := count }).Within limits) :
    Parses (addCoders count limits) s [] () (s + { default with totalCoders := count }) :=
  .seq_nil parses_get
    (parses_addLimited (fun total => { s with totalCoders := total }) h.coders)

theorem parses_addStreams {count : Nat}
    (h : (s + { default with totalStreams := count }).Within limits) :
    Parses (addStreams count limits) s [] () (s + { default with totalStreams := count }) :=
  .seq_nil parses_get
    (parses_addLimited (fun total => { s with totalStreams := total }) h.streams)

theorem parses_addPackedStreams {count : Nat}
    (h : (s + { default with totalPackedStreams := count }).Within limits) :
    Parses (addPackedStreams count limits) s [] ()
      (s + { default with totalPackedStreams := count }) :=
  .seq_nil parses_get
    (parses_addLimited (fun total => { s with totalPackedStreams := total })
      h.packedStreams)

theorem parses_addSubstreams {count : Nat}
    (h : (s + { default with totalSubstreams := count }).Within limits) :
    Parses (addSubstreams count limits) s [] () (s + { default with totalSubstreams := count }) :=
  .seq_nil parses_get
    (parses_addLimited (fun total => { s with totalSubstreams := total }) h.substreams)

theorem parses_addProperty
    (h : (s + { default with totalProperties := 1 }).Within limits) :
    Parses (addProperty limits) s [] () (s + { default with totalProperties := 1 }) :=
  .seq_nil parses_get
    (parses_addLimited (fun total => { s with totalProperties := total }) h.properties)

end ParseState

/-- `k` goes on from an identifier already read, the first byte of `written`. -/
def Awaits {β : Type} (k : UInt8 → Parsing β) (s : ParseState) (written : List UInt8) (b : β)
    (t : ParseState) : Prop :=
  ∃ id rest, written = id :: rest ∧ Parses (k id) s rest b t

namespace Awaits

variable {α β : Type} {s t : ParseState} {written : List UInt8} {b : β}

theorem readU8 {k : UInt8 → Parsing β} (h : Awaits k s written b t) :
    Parses (liftM Unpackio.readU8 >>= k) s written b t := by
  obtain ⟨id, rest, rfl, h⟩ := h
  exact parses_readU8_bind h

theorem seq_nil {u : ParseState} {p : Parsing α} {f : UInt8 → α → Parsing β} {a : α}
    (hp : Parses p s [] a u) (h : Awaits (fun id => f id a) u written b t) :
    Awaits (fun id => p >>= f id) s written b t := by
  obtain ⟨id, rest, rfl, h⟩ := h
  exact ⟨id, rest, rfl, .seq_nil hp h⟩

theorem optional {γ : Type} (k' : Option α → UInt8 → Parsing β) (wrap : α → γ)
    (total : α → ParseState) {tag : UInt8} {k : UInt8 → Parsing β} {p : Parsing γ}
    {g : γ → Parsing β} {o : Option α} {write : α → List UInt8}
    (hhead : written.head? ≠ some tag)
    (hskip : ∀ id, id ≠ tag → k id = k' none id)
    (htake : k tag = p >>= g)
    (hwrap : ∀ a, g (wrap a) = liftM Unpackio.readU8 >>= k' (some a))
    (hread : ∀ a, o = some a → Parses p s (write a) (wrap a) (s + total a))
    (h : Awaits (k' o) (s + o.elim ParseState.default total) written b t) :
    Awaits k s (writeOptional tag write o ++ written) b t := by
  cases o with
  | none =>
    obtain ⟨id, rest, rfl, h⟩ := h
    rw [List.head?_cons] at hhead
    refine ⟨id, rest, rfl, ?_⟩
    rw [hskip id fun heq => hhead (congrArg some heq)]
    exact h
  | some a =>
    refine ⟨tag, write a ++ written, rfl, ?_⟩
    have hnext := h.readU8
    rw [htake]
    refine .bind (hread a rfl) ?_
    rw [hwrap]
    exact hnext

theorem branch {γ : Type} (k' : Option α → UInt8 → Parsing β) (wrap : α → γ)
    (total : α → ParseState) {tag : UInt8} {p : Parsing γ} {g : γ → Parsing β} {o : Option α}
    {write : α → List UInt8}
    (hhead : written.head? ≠ some tag)
    (hwrap : ∀ a, g (wrap a) = liftM Unpackio.readU8 >>= k' (some a))
    (hread : ∀ a, o = some a → Parses p s (write a) (wrap a) (s + total a))
    (h : Awaits (k' o) (s + o.elim ParseState.default total) written b t) :
    Awaits (fun id => if id = tag then p >>= g else k' none id) s
      (writeOptional tag write o ++ written) b t :=
  optional k' wrap total hhead (fun _ hid => if_neg hid) (if_pos rfl) hwrap hread h

theorem section_bind (total : α → ParseState) {tag : UInt8}
    {q : UInt8 → Parsing (Option α × UInt8)} {f : Option α × UInt8 → Parsing β} {p : Parsing α}
    {o : Option α} {write : α → List UInt8}
    (hhead : written.head? ≠ some tag)
    (hskip : ∀ id, id ≠ tag → q id = pure (none, id))
    (htake : q tag = p >>= fun a => liftM Unpackio.readU8 >>= fun id => pure (some a, id))
    (hread : ∀ a, o = some a → Parses p s (write a) a (s + total a))
    (h : Awaits (fun id => f (o, id)) (s + o.elim ParseState.default total) written b t) :
    Awaits (fun id => q id >>= f) s (writeOptional tag write o ++ written) b t := by
  refine optional (fun o id => f (o, id)) (fun a => a) total
    (g := fun a => liftM Unpackio.readU8 >>= fun id => f (some a, id)) hhead ?_ ?_
    (fun _ => rfl) hread h
  · intro id hid
    simp only [hskip id hid, pure_bind]
  · simp only [htake, bind_assoc, pure_bind]

theorem optionalSection {tag : UInt8} {f : Option α × UInt8 → Parsing β} {p : Reading α}
    {o : Option α} {write : α → List UInt8}
    (hhead : written.head? ≠ some tag)
    (hread : ∀ a, o = some a → Reads p (write a) a)
    (h : Awaits (fun id => f (o, id)) s written b t) :
    Awaits (fun id => liftM (Unpackio.optionalSection tag id p) >>= f) s
      (writeOptional tag write o ++ written) b t := by
  refine section_bind (fun _ => ParseState.default) (p := liftM p) hhead ?_ ?_
    (fun a ha => .lift (hread a ha)) ?_
  · intro id hid
    rw [Unpackio.optionalSection, if_neg hid]
    rfl
  · simp only [Unpackio.optionalSection, if_true, liftM_bind, liftM_pure]
  · cases o <;> exact h

end Awaits

theorem head?_writeOptional_append {α : Type} {tag other : UInt8} {write : α → List UInt8}
    {o : Option α} {written : List UInt8} (htag : tag ≠ other)
    (h : written.head? ≠ some other) :
    (writeOptional tag write o ++ written).head? ≠ some other := by
  cases o with
  | none => exact h
  | some a => exact fun heq => htag (Option.some.inj heq)

end Unpackio
