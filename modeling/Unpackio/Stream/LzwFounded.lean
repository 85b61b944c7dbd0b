/-
The dictionary of the Unix `compress` decoder on any input.

The tables keep what earlier codes left in them, so the invariant is about the
codes up to the next one only: each has a prefix that is a literal or an older one
of them.  Every turn of the loop keeps it, whatever the code that is read.
-/
import Unpackio.Stream.CodeReader
import Unpackio.Stream.LzwTable
import Unpackio.Foundation.Passes

namespace Unpackio
namespace UnixCompress

open Except (bind_eq_ok)
open Prog (Passes Yields FailsWith)

def cycleError : Error := compressError "dictionary prefix chain contains a cycle"

def unavailableError : Error :=
  compressError "dictionary prefix references an unavailable code"

/-- An error that is neither that of a cycle nor that of an unavailable code. -/
def Plain (e : Error) : Prop := e ≠ cycleError ∧ e ≠ unavailableError

def Safe {α : Type} (r : Except Error α) : Prop := ∀ e, r = .error e → Plain e

instance (e : Error) : Decidable (Plain e) := inferInstanceAs (Decidable (_ ∧ _))

namespace Safe

variable {α β : Type}

theorem ok (a : α) : Safe (.ok a) := fun _ h => nomatch h

theorem okOr {value : Option α} {e : Error} (h : Plain e) : Safe (okOr value e) := by
  intro e' he
  cases value with
  | none =>
    cases he
    exact h
  | some a => exact nomatch he

theorem rejectIf {c : Prop} [Decidable c] {e : Error} (h : Plain e) : Safe (rejectIf c e) := by
  intro e' he
  rw [Unpackio.rejectIf] at he
  split at he
  · cases he
    exact h
  · exact nomatch he

theorem bind {r : Except Error α} {f : α → Except Error β} (hr : Safe r)
    (hf : ∀ a, Safe (f a)) : Safe (r >>= f) := by
  intro e he
  cases r with
  | error e' =>
    cases he
    exact hr e rfl
  | ok a => exact hf a e he

theorem ite {c : Prop} [Decidable c] {r s : Except Error α} (hr : Safe r) (hs : Safe s) :
    Safe (if c then r else s) := by
  split
  · exact hr
  · exact hs

theorem lift {r : Except Error α} (h : Safe r) {post : α → Prop} (hpost : ∀ a, r = .ok a → post a) :
    Yields Plain post (liftM r : Streamed α) :=
  .lift hpost h

end Safe

theorem maximumCodeForWidth_safe (width maximumWidth : Nat) :
    Safe (maximumCodeForWidth width maximumWidth) :=
  .bind (.okOr (by decide)) fun _ =>
    .ite (.ok _) (.okOr (by decide))

namespace CodeReader

theorem refill_safe (reader : CodeReader) (width : Nat) : Safe (reader.refill width) := by
  refine .bind (.okOr (by decide)) fun _ => .ite (.ok _) ?_
  refine .bind (.okOr (by decide)) fun _ => ?_
  refine .bind (.okOr (by decide)) fun _ => ?_
  refine .bind (.rejectIf (by decide)) fun _ => ?_
  exact .bind (.okOr (by decide)) fun _ => .ok _

theorem codeWindow_safe (bytes : List UInt8) (index window : Nat) :
    Safe (codeWindow bytes index window) := by
  induction bytes generalizing index window with
  | nil => exact .ok _
  | cons byte bytes ih =>
    refine .bind (.okOr (by decide)) fun _ => ?_
    exact .bind (.okOr (by decide)) fun _ => ih _ _

theorem readCode_safe (reader : CodeReader) (width : Nat) : Safe (reader.readCode width) := by
  refine .bind (.okOr (by decide)) fun _ => ?_
  refine .bind (.okOr (by decide)) fun _ => ?_
  refine .bind (.okOr (by decide)) fun _ => ?_
  refine .bind (.okOr (by decide)) fun _ => ?_
  refine .bind (.okOr (by decide)) fun _ => ?_
  refine .bind (codeWindow_safe _ _ _) fun _ => ?_
  refine .bind (.okOr (by decide)) fun _ => ?_
  refine .bind (.okOr (by decide)) fun _ => ?_
  exact .bind (.okOr (by decide)) fun _ => .ok _

theorem nextCode_safe (reader : CodeReader) (width : Nat) (forceRefill : Bool) :
    Safe (reader.nextCode width forceRefill) := by
  have hread : ∀ reader : CodeReader, Safe (reader.readCode width >>= fun read =>
      .ok (some read.1, read.2) : Except Error (Option Nat × CodeReader)) :=
    fun reader => .bind (readCode_safe reader width) fun _ => .ok _
  rw [nextCode]
  split
  · exact .bind (refill_safe reader width) fun result => .ite (hread result.2) (.ok _)
  · exact hread reader

theorem readCode_lt {reader next : CodeReader} {width code : Nat}
    (h : reader.readCode width = .ok (code, next)) : code < 2 ^ width := by
  simp only [readCode, bind_eq_ok, okOr_eq_ok, Option.bind_eq_some_iff] at h
  obtain ⟨_, -, _, -, _, -, _, -, _, -, _, -, mask, ⟨shifted, hshift, hmask⟩, _, -, value, hvalue,
    h⟩ := h
  cases h
  obtain ⟨-, rfl⟩ := tryFrom_eq_some.mp hvalue
  obtain ⟨hpos, rfl⟩ := checkedSub_eq_some.mp hmask
  have hle : shifted ≤ 2 ^ width := by
    rw [checkedShl] at hshift
    split at hshift
    · cases hshift
      rw [Nat.one_shiftLeft]
      exact Nat.mod_le _ _
    · cases hshift
  exact Nat.lt_of_le_of_lt Nat.and_le_right (by omega)

theorem nextCode_lt {reader next : CodeReader} {width code : Nat} {forceRefill : Bool}
    (h : reader.nextCode width forceRefill = .ok (some code, next)) : code < 2 ^ width := by
  have hread : ∀ current : CodeReader, (current.readCode width >>= fun read =>
      .ok (some read.1, read.2) : Except Error (Option Nat × CodeReader)) =
        .ok (some code, next) → code < 2 ^ width := by
    intro current h
    obtain ⟨read, hread, h⟩ := bind_eq_ok.mp h
    cases h
    exact readCode_lt hread
  rw [nextCode] at h
  split at h
  · obtain ⟨⟨available, current⟩, -, h⟩ := bind_eq_ok.mp h
    cases available with
    | false => cases h
    | true => exact hread current h
  · exact hread reader h

end CodeReader

/-- So many steps along the prefixes lead from a code to the last one. -/
inductive Chain (prefixes : List Nat) : Nat → Nat → Nat → Prop
  | done (code : Nat) : Chain prefixes code 0 code
  | step {code prior steps last : Nat} (hcode : 255 < code) (hprior : prefixes[code]? = some prior)
      (h : Chain prefixes prior steps last) : Chain prefixes code (steps + 1) last

namespace Decoder

def Names (blockMode : Bool) (decoder : Decoder) (code : Nat) : Prop :=
  code ≤ 255 ∨ firstCode blockMode ≤ code ∧ code < decoder.nextCode

/-- The tables have what the traversal needs, and the last code spells a string
that starts with the first character. -/
structure Founded (maximumCodeBits : Nat) (blockMode : Bool) (decoder : Decoder) : Prop where
  prefixesLength : decoder.prefixes.length = 2 ^ maximumCodeBits
  suffixesLength : decoder.suffixes.length = 2 ^ maximumCodeBits
  codeBits_le : decoder.codeBits ≤ maximumCodeBits
  firstCode_le : firstCode blockMode ≤ decoder.nextCode
  nextCode_le : decoder.nextCode ≤ 2 ^ maximumCodeBits
  prior : ∀ code, firstCode blockMode ≤ code → code < decoder.nextCode →
    ∃ prior, decoder.prefixes[code]? = some prior ∧ prior < code ∧ decoder.Names blockMode prior
  last : ∀ previous, decoder.previousCode = some previous → decoder.Names blockMode previous ∧
    ∃ string, Spells decoder.prefixes decoder.suffixes previous string ∧
      string.head? = some decoder.firstCharacter

variable {maximumCodeBits : Nat} {blockMode : Bool} {decoder decoder' : Decoder}

theorem Names.lt {code : Nat} (h : decoder.Names blockMode code)
    (hfirst : firstCode blockMode ≤ decoder.nextCode) : code < decoder.nextCode := by
  have hbounds := (firstCode_bounds blockMode).1
  rcases h with hliteral | ⟨-, hlt⟩
  · omega
  · exact hlt

/-- The code of a dictionary leads to a literal.  The induction is on the code,
which every prefix lowers. -/
theorem Founded.spells (h : decoder.Founded maximumCodeBits blockMode) {code : Nat}
    (hcode : decoder.Names blockMode code) :
    ∃ string, Spells decoder.prefixes decoder.suffixes code string := by
  induction code using Nat.strongRecOn with
  | ind code ih =>
    by_cases hliteral : code ≤ 255
    · refine ⟨[UInt8.ofNat code], ?_⟩
      have hspells : Spells decoder.prefixes decoder.suffixes (UInt8.ofNat code).toNat
          [UInt8.ofNat code] := .literal _
      rwa [UInt8.toNat_ofNat', Nat.mod_eq_of_lt (by omega)] at hspells
    · have hbig := hcode.resolve_left hliteral
      obtain ⟨prior, hprior, hlt, hnames⟩ := h.prior code hbig.1 hbig.2
      obtain ⟨string, hstring⟩ := ih prior hlt hnames
      have hroom : code < decoder.suffixes.length := by
        have := h.nextCode_le
        rw [h.suffixesLength]
        omega
      exact ⟨_, .learned (by omega) hprior hlt (List.getElem?_eq_getElem hroom) hstring⟩

end Decoder

/-- A string of `steps + 1` characters takes so many steps to its literal. -/
theorem Spells.chain {prefixes : List Nat} {suffixes : List UInt8} {code : Nat}
    {string : List UInt8} (h : Spells prefixes suffixes code string) :
    ∃ literal, literal ≤ 255 ∧ Chain prefixes code (string.length - 1) literal := by
  induction h with
  | literal byte =>
    refine ⟨byte.toNat, ?_, .done _⟩
    have := byte.toNat_lt
    omega
  | learned hcode hprior _ _ hspells ih =>
    obtain ⟨literal, hliteral, hchain⟩ := ih
    have hpos : 0 < _ := List.length_pos_iff.mpr hspells.ne_nil
    refine ⟨literal, hliteral, ?_⟩
    rw [List.length_append, List.length_singleton, Nat.add_sub_cancel]
    have hstep := Chain.step hcode hprior hchain
    rwa [Nat.sub_add_cancel hpos] at hstep

theorem plain_of_format {format detail : String} (h : format ≠ "unix-compress") :
    Plain (streamFormatError format detail) :=
  ⟨fun heq => h (Error.streamFormat.inj heq).1, fun heq => h (Error.streamFormat.inj heq).1⟩

theorem checkLimit_safe (value maximum : Nat) (kind : LimitKind) :
    Safe (checkLimit value maximum kind) :=
  .rejectIf ⟨(fun h => nomatch h), (fun h => nomatch h)⟩

theorem checkedOutputTotal_safe (control : ExtractionControl) (additional : Nat) :
    Safe (control.checkedOutputTotal additional) :=
  .bind (.okOr (plain_of_format (by decide))) fun _ =>
    .bind (checkLimit_safe _ _ _) fun _ => .bind (checkLimit_safe _ _ _) fun _ => .ok _

namespace Output

theorem flushOutput_yields (output : Output) :
    Yields Plain (fun _ => True) output.flushOutput := by
  refine .ite (fun _ => .pure trivial) fun _ => .bind (m := fun _ => True) ?_ fun _ _ =>
    .pure trivial
  exact .request (.bind (m := fun _ => True) ((checkedOutputTotal_safe _ _).lift fun _ _ => trivial)
    fun _ _ => .request (.pure trivial))

theorem bufferLoop_yields (fuel : Nat) (bytes : List UInt8) (output : Output) :
    Yields Plain (fun _ => True) (bufferLoop fuel bytes output) := by
  induction fuel generalizing bytes output with
  | zero =>
    rw [bufferLoop]
    exact .ite (fun _ => .pure trivial) fun _ =>
      .of_error rfl (by decide)
  | succ fuel ih =>
    rw [bufferLoop]
    refine .ite (fun _ => .pure trivial) fun _ => ?_
    refine .bind (m := fun _ => True)
      ((Safe.okOr (by decide)).lift fun _ _ => trivial) ?_
    refine fun _ _ => .ite (fun _ => .bind (flushOutput_yields output) fun _ _ => ih _ _)
      fun _ => ?_
    refine .bind (m := fun _ => True) ((checkedOutputTotal_safe _ _).lift fun _ _ => trivial) ?_
    refine fun _ _ => .request (.ite (fun _ => ?_) fun _ => ih _ _)
    exact .bind (flushOutput_yields _) fun _ _ => ih _ _

theorem bufferOutput_yields (output : Output) (bytes : List UInt8) :
    Yields Plain (fun output' => (output.bufferOutput bytes).granted = .ok output')
      (output.bufferOutput bytes) :=
  ⟨fun _ h => h, (bufferLoop_yields _ bytes output).2⟩

theorem flushOutput_passes (output : Output) : Passes (fun _ => True) output.flushOutput :=
  .ite (.pure _) (.bind (.bind (.request _) fun _ => .step fun _ => .bind (.request _) fun _ =>
    .pure _) fun _ => .pure _)

theorem bufferLoop_passes (fuel : Nat) (bytes : List UInt8) (output : Output) :
    Passes (fun _ => True) (bufferLoop fuel bytes output) := by
  induction fuel generalizing bytes output with
  | zero =>
    rw [bufferLoop]
    exact .ite (.pure _) (.throw _)
  | succ fuel ih =>
    rw [bufferLoop]
    refine .ite (.pure _) (.step fun _ => ?_)
    refine .ite (.bind (flushOutput_passes _) fun _ => ih _ _) ?_
    refine .step fun _ => .bind (.request _) fun _ => ?_
    exact .ite (.bind (flushOutput_passes _) fun _ => ih _ _) (ih _ _)

theorem bufferOutput_passes (output : Output) (bytes : List UInt8) :
    Passes (fun _ => True) (output.bufferOutput bytes) := bufferLoop_passes _ bytes output

end Output

namespace Decoder

theorem traverse_passes (decoder : Decoder) (left code : Nat) (expansion : List UInt8) :
    Passes (fun _ => True) (decoder.traverse left code expansion) := by
  induction left generalizing code expansion with
  | zero =>
    rw [traverse]
    exact .ite (.bind (.request _) fun _ => .throw _) (.pure _)
  | succ left ih =>
    rw [traverse]
    refine .ite (.bind (.request _) fun _ => .step fun _ => ?_) (.pure _)
    exact .step fun _ => .step fun _ => ih _ _

theorem putNext_passes (entries : Nat) (decoder : Decoder) (maximumCodes previous code : Nat) :
    Passes (fun _ => True) (decoder.putNext entries maximumCodes previous code) := by
  refine .step fun _ => ?_
  have hput : ∀ traversed : Nat × List UInt8, Passes (fun _ => True) (do
      let output ← decoder.output.bufferOutput
        (traversed.2 ++ [UInt8.ofNat traversed.1]).reverse
      let decoder ← learn { decoder with
        output := output, firstCharacter := UInt8.ofNat traversed.1 } maximumCodes previous
      return { decoder with previousCode := some code } : Streamed Decoder) := fun _ =>
    .bind (Output.bufferOutput_passes _ _) fun _ => .step fun _ => .pure _
  exact .ite (.bind (traverse_passes _ _ _ _) hput) (.bind (traverse_passes _ _ _ _) hput)

theorem putCode_passes (maximumCodeBits : Nat) (blockMode : Bool) (entries : Nat)
    (decoder : Decoder) (maximumCodes code : Nat) :
    Passes (fun _ => True)
      (decoder.putCode maximumCodeBits blockMode entries maximumCodes code) := by
  refine .ite (.lift _) ?_
  cases decoder.previousCode with
  | none =>
    exact .step fun _ => .bind (Output.bufferOutput_passes _ _) fun _ => .pure _
  | some previous => exact putNext_passes _ _ _ _ _

theorem loop_passes (maximumCodeBits : Nat) (blockMode : Bool) (entries maximumCodes fuel : Nat)
    (decoder : Decoder) :
    Passes (fun _ => True) (decoder.loop maximumCodeBits blockMode entries maximumCodes fuel) := by
  induction fuel generalizing decoder with
  | zero => exact .throw _
  | succ fuel ih =>
    refine .bind (.request _) fun _ => .step fun _ => .step fun next => ?_
    obtain ⟨encoded, reader⟩ := next
    cases encoded with
    | none => exact .pure _
    | some code => exact .bind (putCode_passes _ _ _ _ _ _) fun _ => ih _

variable {maximumCodeBits : Nat} {blockMode : Bool} {decoder decoder' : Decoder}

/-- A code puts a string: that is what the output gets, what the code spells in
the tables behind it, and the string whose first character the next entry ends
with. -/
structure Expands (maximumCodeBits : Nat) (decoder : Decoder) (code : Nat) (string : List UInt8)
    (decoder' : Decoder) : Prop where
  output : (decoder.output.bufferOutput string).granted = .ok decoder'.output
  spells : Spells decoder'.prefixes decoder'.suffixes code string
  first : string.head? = some decoder'.firstCharacter
  learned : ∀ previous, decoder.previousCode = some previous →
    decoder.nextCode < 2 ^ maximumCodeBits →
    decoder'.nextCode = decoder.nextCode + 1 ∧
      decoder'.prefixes[decoder.nextCode]? = some previous ∧
      decoder'.suffixes[decoder.nextCode]? = string.head?

theorem Founded.grow (h : decoder.Founded maximumCodeBits blockMode)
    (hgrow : decoder.growWidth maximumCodeBits = .ok decoder') :
    decoder'.Founded maximumCodeBits blockMode := by
  rw [growWidth] at hgrow
  split at hgrow
  · next hwide =>
    obtain ⟨codeBits, hbits, hgrow⟩ := bind_eq_ok.mp hgrow
    obtain ⟨maximum, -, hgrow⟩ := bind_eq_ok.mp hgrow
    cases hgrow
    obtain ⟨-, hbits⟩ := Option.ite_none_right_eq_some.mp (okOr_eq_ok.mp hbits)
    cases hbits
    exact ⟨h.prefixesLength, h.suffixesLength, hwide.2, h.firstCode_le, h.nextCode_le, h.prior,
      h.last⟩
  · cases hgrow
    exact h

theorem growWidth_safe (maximumCodeBits : Nat) (decoder : Decoder) :
    Safe (decoder.growWidth maximumCodeBits) := by
  refine .ite (.bind (.okOr (by decide)) fun _ => ?_) (.ok _)
  exact .bind (maximumCodeForWidth_safe _ _) fun _ => .ok _

theorem Founded.clear_yields (h : decoder.Founded maximumCodeBits blockMode)
    (hlow : initialCodeBits ≤ maximumCodeBits) (hblock : blockMode = true) :
    Yields Plain (fun decoder' : Decoder => decoder'.Founded maximumCodeBits blockMode ∧
      decoder'.previousCode = none) (decoder.clear maximumCodeBits : Streamed Decoder) := by
  have hfirst : firstCode blockMode = firstBlockCode := by rw [hblock]; rfl
  have hroom : firstBlockCode ≤ 2 ^ maximumCodeBits :=
    Nat.le_trans (by decide) (Nat.pow_le_pow_right Nat.two_pos hlow)
  refine Safe.lift (.bind (maximumCodeForWidth_safe _ _) fun _ => .ok _) fun decoder' hclear => ?_
  obtain ⟨maximum, -, hclear⟩ := bind_eq_ok.mp hclear
  cases hclear
  refine ⟨⟨h.prefixesLength, h.suffixesLength, hlow, hfirst.le, hroom, ?_, fun _ hnone =>
    nomatch hnone⟩, rfl⟩
  intro code hge hlt
  rw [hfirst] at hge
  exact absurd hlt (Nat.not_lt_of_le hge)

theorem Founded.putFirst_yields (h : decoder.Founded maximumCodeBits blockMode)
    (hprevious : decoder.previousCode = none) (code : Nat) :
    Yields Plain (fun decoder' : Decoder => decoder'.Founded maximumCodeBits blockMode ∧
      ∃ string, decoder.Expands maximumCodeBits code string decoder') (decoder.putFirst code) := by
  refine .bind (m := fun _ => code ≤ 255)
    ((Safe.rejectIf (by decide)).lift fun _ hcode =>
      Nat.le_of_not_lt (rejectIf_eq_ok.mp hcode)) fun _ hcode => ?_
  refine .bind (Output.bufferOutput_yields _ _) fun output houtput => .pure ?_
  have hspells : Spells decoder.prefixes decoder.suffixes code [UInt8.ofNat code] := by
    have hliteral : Spells decoder.prefixes decoder.suffixes (UInt8.ofNat code).toNat
        [UInt8.ofNat code] := .literal _
    rwa [UInt8.toNat_ofNat', Nat.mod_eq_of_lt (by omega)] at hliteral
  refine ⟨⟨h.prefixesLength, h.suffixesLength, h.codeBits_le, h.firstCode_le, h.nextCode_le,
    h.prior, ?_⟩, [UInt8.ofNat code], houtput, hspells, rfl, fun previous hsome => ?_⟩
  · intro previous hsome
    cases hsome
    exact ⟨.inl hcode, _, hspells, rfl⟩
  · rw [hprevious] at hsome
    exact nomatch hsome

theorem Founded.learned (h : decoder.Founded maximumCodeBits blockMode) {previous : Nat}
    (hprevious : decoder.previousCode = some previous) (output : Output) (first : UInt8) :
    ∃ after, after = Decoder.learned (2 ^ maximumCodeBits) previous
        { decoder with output := output, firstCharacter := first } ∧
      after.prefixes.length = 2 ^ maximumCodeBits ∧ after.suffixes.length = 2 ^ maximumCodeBits ∧
      after.codeBits = decoder.codeBits ∧ after.output = output ∧ after.firstCharacter = first ∧
      firstCode blockMode ≤ after.nextCode ∧ after.nextCode ≤ 2 ^ maximumCodeBits ∧
      decoder.nextCode ≤ after.nextCode ∧
      (∀ code, firstCode blockMode ≤ code → code < after.nextCode →
        ∃ prior, after.prefixes[code]? = some prior ∧ prior < code ∧
          after.Names blockMode prior) ∧
      (decoder.nextCode < 2 ^ maximumCodeBits → after.nextCode = decoder.nextCode + 1 ∧
        after.prefixes[decoder.nextCode]? = some previous ∧
        after.suffixes[decoder.nextCode]? = some first) := by
  have hnames := (h.last previous hprevious).1
  have hlt := hnames.lt h.firstCode_le
  refine ⟨_, rfl, ?_⟩
  rw [Decoder.learned]
  by_cases hroom : decoder.nextCode < 2 ^ maximumCodeBits
  · rw [if_pos hroom]
    refine ⟨(List.length_set ..).trans h.prefixesLength,
      (List.length_set ..).trans h.suffixesLength, rfl, rfl, rfl, Nat.le_succ_of_le h.firstCode_le,
      hroom, Nat.le_succ _, ?_, fun _ => ⟨rfl, ?_, ?_⟩⟩
    · intro code hge hcode
      have hcode : code < decoder.nextCode + 1 := hcode
      have hmono : ∀ {code : Nat}, decoder.Names blockMode code →
          code ≤ 255 ∨ firstCode blockMode ≤ code ∧ code < decoder.nextCode + 1 :=
        fun hnames => hnames.imp_right fun hbig => ⟨hbig.1, Nat.lt_succ_of_lt hbig.2⟩
      rcases Nat.lt_succ_iff_lt_or_eq.mp hcode with hold | rfl
      · obtain ⟨prior, hprior, hltPrior, hnamesPrior⟩ := h.prior code hge hold
        refine ⟨prior, ?_, hltPrior, hmono hnamesPrior⟩
        exact (List.getElem?_set_ne (Nat.ne_of_gt hold)).trans hprior
      · exact ⟨previous, List.getElem?_set_self (h.prefixesLength ▸ hroom), hlt, hmono hnames⟩
    · exact List.getElem?_set_self (h.prefixesLength ▸ hroom)
    · exact List.getElem?_set_self (h.suffixesLength ▸ hroom)
  · rw [if_neg hroom]
    exact ⟨h.prefixesLength, h.suffixesLength, rfl, rfl, rfl, h.firstCode_le, h.nextCode_le,
      Nat.le_refl _, h.prior, fun hlt => absurd hlt hroom⟩

section

variable {code : Nat} (h : decoder.Founded maximumCodeBits blockMode)
include h

theorem Founded.traverse_granted {string : List UInt8} (hcode : decoder.Names blockMode code)
    (hspells : Spells decoder.prefixes decoder.suffixes code string) (expansion : List UInt8) :
    ∃ first rest, string = first :: rest ∧
      (decoder.traverse (2 ^ maximumCodeBits) code expansion).granted =
        .ok (first.toNat, expansion ++ rest.reverse) := by
  have hlt := hcode.lt h.firstCode_le
  have hlength := hspells.length_le
  have hroom := h.nextCode_le
  obtain ⟨first, rest, hstring, hemits⟩ :=
    traverse_emits hspells hlt (2 ^ maximumCodeBits) (by omega) expansion
  exact ⟨first, rest, hstring, hemits.1⟩

theorem Founded.putNext_yields (hbits : maximumCodeBits ≤ 16) {previous : Nat}
    (hprevious : decoder.previousCode = some previous) (hcode : code < 2 ^ maximumCodeBits)
    (hplain : ¬(blockMode = true ∧ code = clearCode)) :
    Yields Plain (fun decoder' : Decoder => decoder'.Founded maximumCodeBits blockMode ∧
      ∃ string, decoder.Expands maximumCodeBits code string decoder')
      (decoder.putNext (2 ^ maximumCodeBits) (2 ^ maximumCodeBits) previous code) := by
  refine .bind (m := fun _ => code ≤ decoder.nextCode)
    ((Safe.rejectIf (by decide)).lift fun _ hreject =>
      Nat.le_of_not_lt (rejectIf_eq_ok.mp hreject)) fun _ hle => ?_
  obtain ⟨hnames, last, hlast, hhead⟩ := h.last previous hprevious
  have hbig : firstCode blockMode ≤ code ∨ code ≤ 255 := by
    cases blockMode with
    | false => exact (Nat.lt_or_ge 255 code).imp_left fun hlt => hlt
    | true =>
      have hne : code ≠ 256 := fun heq => hplain ⟨rfl, heq⟩
      show 257 ≤ code ∨ code ≤ 255
      omega
  -- What is put, and why the code spells it once the decoder has learned.
  obtain ⟨first, rest, htrace, hnew⟩ : ∃ first rest,
      (if code = decoder.nextCode then
        decoder.traverse (2 ^ maximumCodeBits) previous [decoder.firstCharacter]
      else decoder.traverse (2 ^ maximumCodeBits) code []).granted =
        .ok (first.toNat, rest.reverse) ∧
      ∀ output, Spells
        (Decoder.learned (2 ^ maximumCodeBits) previous
          { decoder with output := output, firstCharacter := first }).prefixes
        (Decoder.learned (2 ^ maximumCodeBits) previous
          { decoder with output := output, firstCharacter := first }).suffixes
        code (first :: rest) := by
    by_cases hfresh : code = decoder.nextCode
    · rw [if_pos hfresh]
      obtain ⟨first, rest, rfl, htrace⟩ :=
        h.traverse_granted hnames hlast [decoder.firstCharacter]
      obtain rfl : first = decoder.firstCharacter := Option.some.inj hhead
      have hlt := hnames.lt h.firstCode_le
      have hfirst := (firstCode_bounds blockMode).1
      have hge := h.firstCode_le
      refine ⟨decoder.firstCharacter, rest ++ [decoder.firstCharacter], ?_, fun output => ?_⟩
      · rw [htrace, List.reverse_append]
        rfl
      · rw [Decoder.learned, if_pos (by rw [← hfresh]; exact hcode), hfresh,
          ← List.cons_append]
        refine .learned (by omega) ?_ hlt ?_ (hlast.set hlt _ _)
        · exact List.getElem?_set_self (by rw [h.prefixesLength, ← hfresh]; exact hcode)
        · exact List.getElem?_set_self (by rw [h.suffixesLength, ← hfresh]; exact hcode)
    · rw [if_neg hfresh]
      have hnamesCode : decoder.Names blockMode code :=
        hbig.elim (fun hge => .inr ⟨hge, by omega⟩) .inl
      obtain ⟨string, hstring⟩ := h.spells hnamesCode
      obtain ⟨first, rest, rfl, htrace⟩ := h.traverse_granted hnamesCode hstring []
      refine ⟨first, rest, htrace, fun output => ?_⟩
      refine learned_spells _ _ ?_ ?_
      · exact hnamesCode.lt h.firstCode_le
      · exact hstring
  have hput : ∀ output, (decoder.output.bufferOutput (first :: rest)).granted = .ok output →
      Yields Plain (fun decoder' : Decoder => decoder'.Founded maximumCodeBits blockMode ∧
        ∃ string, decoder.Expands maximumCodeBits code string decoder')
        (do
          let decoder ← Decoder.learn { decoder with output := output, firstCharacter := first }
            (2 ^ maximumCodeBits) previous
          return { decoder with previousCode := some code } : Streamed Decoder) := by
    intro output houtput
    obtain ⟨after, hafter, hprefixes, hsuffixes, hcodeBits, hout, hfirst, hfirstCode, hnext, hmono,
      hprior, hlearned⟩ := h.learned hprevious output first
    have hspells := hnew output
    rw [← hafter] at hspells
    have hlearn : Decoder.learn { decoder with output := output, firstCharacter := first }
        (2 ^ maximumCodeBits) previous = .ok after := by
      rw [hafter]
      refine learn_eq_learned ?_ ?_ hbits previous
      · exact h.prefixesLength
      · exact h.suffixesLength
    have hnamesAfter : after.Names blockMode code := by
      refine hbig.elim (fun hge => .inr ⟨hge, ?_⟩) .inl
      by_cases hroom : decoder.nextCode < 2 ^ maximumCodeBits
      · have := (hlearned hroom).1
        omega
      · omega
    rw [hlearn]
    refine .bind_ok (Prog.granted_lift _) (.pure ⟨⟨hprefixes, hsuffixes,
      hcodeBits.trans_le h.codeBits_le, hfirstCode, hnext, hprior, ?_⟩, first :: rest,
      hout ▸ houtput, hspells, congrArg some hfirst.symm, ?_⟩)
    · intro other hother
      cases hother
      exact ⟨hnamesAfter, first :: rest, hspells, congrArg some hfirst.symm⟩
    · intro other hother hroom
      rw [hprevious] at hother
      cases hother
      exact hlearned hroom
  have hreverse : (rest.reverse ++ [first]).reverse = first :: rest := by
    rw [List.reverse_append, List.reverse_reverse]
    rfl
  split at htrace
  · next hfresh =>
    rw [if_pos hfresh]
    refine .bind_ok htrace ?_
    simp only [UInt8.ofNat_toNat, hreverse]
    exact .bind (Output.bufferOutput_yields _ _) hput
  · next hfresh =>
    rw [if_neg hfresh]
    refine .bind_ok htrace ?_
    simp only [UInt8.ofNat_toNat, hreverse]
    exact .bind (Output.bufferOutput_yields _ _) hput

theorem Founded.putCode_yields (hlow : initialCodeBits ≤ maximumCodeBits)
    (hbits : maximumCodeBits ≤ 16) (hcode : code < 2 ^ maximumCodeBits) :
    Yields Plain (fun decoder' : Decoder => decoder'.Founded maximumCodeBits blockMode ∧
      (¬(blockMode = true ∧ code = clearCode) →
        ∃ string, decoder.Expands maximumCodeBits code string decoder'))
      (decoder.putCode maximumCodeBits blockMode (2 ^ maximumCodeBits) (2 ^ maximumCodeBits)
        code) := by
  refine .ite (fun hclear => ?_) fun hplain => ?_
  · exact (h.clear_yields hlow hclear.1).mono fun _ hafter =>
      ⟨hafter.1, fun hplain => absurd hclear hplain⟩
  · cases hprevious : decoder.previousCode with
    | none =>
      exact (h.putFirst_yields hprevious code).mono fun _ hafter => ⟨hafter.1, fun _ => hafter.2⟩
    | some previous =>
      refine (h.putNext_yields hbits hprevious hcode hplain).mono ?_
      exact fun _ hafter => ⟨hafter.1, fun _ => hafter.2⟩

end

def Turns (maximumCodeBits : Nat) (blockMode : Bool) (decoder : Decoder) (code : Nat)
    (grown decoder' : Decoder) : Prop :=
  ∃ reader wide, decoder.growWidth maximumCodeBits = .ok wide ∧
    wide.reader.nextCode wide.codeBits wide.forceRefill = .ok (some code, reader) ∧
    grown = { wide with reader := reader, forceRefill := false } ∧
    (grown.putCode maximumCodeBits blockMode (2 ^ maximumCodeBits) (2 ^ maximumCodeBits)
      code).CanReturn decoder'

/-- The states that the loop comes to on an input. -/
inductive Reached (maximumCodeBits : Nat) (blockMode : Bool) (input : List UInt8)
    (control : ExtractionControl) : Decoder → Prop
  | start {decoder : Decoder}
      (h : Decoder.new maximumCodeBits blockMode (2 ^ maximumCodeBits) input control =
        .ok decoder) : Reached maximumCodeBits blockMode input control decoder
  | turn {decoder grown decoder' : Decoder} {code : Nat}
      (h : Reached maximumCodeBits blockMode input control decoder)
      (hturn : Turns maximumCodeBits blockMode decoder code grown decoder') :
      Reached maximumCodeBits blockMode input control decoder'

theorem founded_new (hlow : initialCodeBits ≤ maximumCodeBits) {input : List UInt8}
    {control : ExtractionControl}
    (h : Decoder.new maximumCodeBits blockMode (2 ^ maximumCodeBits) input control = .ok decoder) :
    decoder.Founded maximumCodeBits blockMode := by
  obtain ⟨maximum, -, h⟩ := bind_eq_ok.mp h
  cases h
  have hfirst := (firstCode_bounds blockMode).2
  refine ⟨List.length_replicate, ?_, hlow, Nat.le_refl _, ?_, ?_, fun _ hnone => nomatch hnone⟩
  · rw [List.length_map, List.length_range]
  · exact hfirst.trans (Nat.le_trans (by decide : 257 ≤ 2 ^ initialCodeBits)
      (Nat.pow_le_pow_right Nat.two_pos hlow))
  · intro code hge hlt
    exact absurd hlt (Nat.not_lt_of_le hge)

variable (hlow : initialCodeBits ≤ maximumCodeBits) (hbits : maximumCodeBits ≤ 16)
include hlow hbits

theorem Turns.putCode {code : Nat} {grown : Decoder} (h : decoder.Founded maximumCodeBits blockMode)
    (hturn : Turns maximumCodeBits blockMode decoder code grown decoder') :
    grown.Founded maximumCodeBits blockMode ∧ code < 2 ^ maximumCodeBits ∧
      decoder'.Founded maximumCodeBits blockMode ∧
      (¬(blockMode = true ∧ code = clearCode) →
        ∃ string, grown.Expands maximumCodeBits code string decoder') := by
  obtain ⟨reader, wide, hgrow, hcode, rfl, hput⟩ := hturn
  have hwide := h.grow hgrow
  have hlt : code < 2 ^ maximumCodeBits := Nat.lt_of_lt_of_le (CodeReader.nextCode_lt hcode)
    (Nat.pow_le_pow_right Nat.two_pos hwide.codeBits_le)
  have hgrown : ({ wide with reader := reader, forceRefill := false } : Decoder).Founded
      maximumCodeBits blockMode := ⟨hwide.1, hwide.2, hwide.3, hwide.4, hwide.5, hwide.6, hwide.7⟩
  have hyields := hgrown.putCode_yields hlow hbits hlt
  obtain ⟨hfounded, hexpands⟩ :=
    hyields.1 decoder' ((putCode_passes _ _ _ _ _ _).granted_of_canReturn hput)
  exact ⟨hgrown, hlt, hfounded, hexpands⟩

theorem Reached.founded {input : List UInt8} {control : ExtractionControl}
    (h : Reached maximumCodeBits blockMode input control decoder) :
    decoder.Founded maximumCodeBits blockMode := by
  induction h with
  | start h => exact founded_new hlow h
  | turn _ hturn ih => exact (hturn.putCode hlow hbits ih).2.2.1

/-- Whatever codes the loop reads, its errors are plain. -/
theorem loop_yields (fuel : Nat) (h : decoder.Founded maximumCodeBits blockMode) :
    Yields Plain (fun _ => True) (decoder.loop maximumCodeBits blockMode (2 ^ maximumCodeBits)
      (2 ^ maximumCodeBits) fuel) := by
  induction fuel generalizing decoder with
  | zero => exact .of_error rfl (by decide)
  | succ fuel ih =>
    refine .request (.bind ((growWidth_safe _ _).lift fun _ hgrow => h.grow hgrow) ?_)
    intro wide hwide
    refine .bind ((CodeReader.nextCode_safe _ _ _).lift fun _ hcode => hcode) ?_
    rintro ⟨encoded, reader⟩ hcode
    cases encoded with
    | none => exact .pure trivial
    | some code =>
      have hlt : code < 2 ^ maximumCodeBits := Nat.lt_of_lt_of_le (CodeReader.nextCode_lt hcode)
        (Nat.pow_le_pow_right Nat.two_pos hwide.codeBits_le)
      have hgrown : ({ wide with reader := reader, forceRefill := false } : Decoder).Founded
          maximumCodeBits blockMode :=
        ⟨hwide.1, hwide.2, hwide.3, hwide.4, hwide.5, hwide.6, hwide.7⟩
      exact .bind (hgrown.putCode_yields hlow hbits hlt) fun _ hafter => ih hafter.1

end Decoder

theorem decodeLzw_failsWith {maximumCodeBits : Nat} (hlow : 9 ≤ maximumCodeBits)
    (hbits : maximumCodeBits ≤ 16) (blockMode : Bool) (input : List UInt8)
    (control : ExtractionControl) :
    FailsWith Plain
      (decodeLzw input maximumCodeBits blockMode (2 ^ maximumCodeBits) control) := by
  have hnew : Safe (Decoder.new maximumCodeBits blockMode (2 ^ maximumCodeBits) input control) :=
    .bind (maximumCodeForWidth_safe _ _) fun _ => .ok _
  have hpow : checkedShl 32 1 maximumCodeBits = some (2 ^ maximumCodeBits) :=
    checkedShl_one (by omega)
  have hyields : Yields Plain (fun _ => True)
      (decodeLzw input maximumCodeBits blockMode (2 ^ maximumCodeBits) control) := by
    refine .bind (hnew.lift fun _ h => Decoder.founded_new hlow h) fun decoder hdecoder => ?_
    rw [hpow, okOr_some]
    refine .bind_ok (Prog.granted_lift _) ?_
    exact .bind (Decoder.loop_yields hlow hbits _ hdecoder) fun _ _ =>
      .bind (Output.flushOutput_yields _) fun _ _ => .pure trivial
  refine hyields.failsWith (.step fun _ => .step fun _ => ?_)
  exact .bind (Decoder.loop_passes _ _ _ _ _ _) fun _ =>
    .bind (Output.flushOutput_passes _) fun _ => .pure _

/-- The dictionary of the decoder is well-founded in every state of every input.
An entry has a prefix that is a literal or an older entry, so that each chain ends
at a literal before it could be a cycle; and what a turn puts starts with the
character that the next entry is given. -/
theorem decodeLzw_founded {maximumCodeBits : Nat} (hlow : 9 ≤ maximumCodeBits)
    (hbits : maximumCodeBits ≤ 16) (blockMode : Bool) (input : List UInt8)
    (control : ExtractionControl) :
    (∀ decoder, Decoder.Reached maximumCodeBits blockMode input control decoder →
      (∀ code, firstCode blockMode ≤ code → code < decoder.nextCode →
        ∃ prior, decoder.prefixes[code]? = some prior ∧ prior < code ∧
          (prior ≤ 255 ∨ firstCode blockMode ≤ prior ∧ prior < decoder.nextCode)) ∧
      (∀ code, code ≤ 255 ∨ firstCode blockMode ≤ code ∧ code < decoder.nextCode →
        ∃ steps literal, steps < 2 ^ maximumCodeBits ∧ literal ≤ 255 ∧
          Chain decoder.prefixes code steps literal) ∧
      ∀ code grown decoder', Decoder.Turns maximumCodeBits blockMode decoder code grown decoder' →
        ¬(blockMode = true ∧ code = clearCode) →
          ∃ string, grown.Expands maximumCodeBits code string decoder') ∧
    FailsWith Plain
      (decodeLzw input maximumCodeBits blockMode (2 ^ maximumCodeBits) control) := by
  refine ⟨fun decoder hreached => ?_, decodeLzw_failsWith hlow hbits blockMode input control⟩
  have hfounded := hreached.founded hlow hbits
  refine ⟨hfounded.prior, fun code hcode => ?_, fun code grown decoder' hturn hplain => ?_⟩
  · obtain ⟨string, hspells⟩ := hfounded.spells hcode
    obtain ⟨literal, hliteral, hchain⟩ := hspells.chain
    have hlength := hspells.length_le
    have hlt := Decoder.Names.lt hcode hfounded.firstCode_le
    have hroom := hfounded.nextCode_le
    exact ⟨_, literal, by omega, hliteral, hchain⟩
  · exact (hturn.putCode hlow hbits hfounded).2.2.2 hplain

/-- The decoder behind the code 65. -/
def literalDecoder : Decoder where
  prefixes := List.replicate 512 0
  suffixes := (List.range 512).map fun index => if index < 256 then UInt8.ofNat index else 0
  codeBits := 9
  maximumCurrentCode := 512
  nextCode := 257
  previousCode := some 65
  firstCharacter := 65
  reader := ⟨[65, 2, 2, 4], 4, 0, 4, 9, 27⟩
  forceRefill := false
  output := ⟨.new .default, [65]⟩

/-- The decoder behind the codes 65 and 257. -/
def learnedDecoder : Decoder :=
  { literalDecoder with
    prefixes := literalDecoder.prefixes.set 257 65
    suffixes := literalDecoder.suffixes.set 257 65
    nextCode := 258
    previousCode := some 257
    reader := ⟨[65, 2, 2, 4], 4, 0, 4, 18, 27⟩
    output := ⟨.new .default, [65, 65, 65]⟩ }

theorem learnedDecoder_reached :
    Decoder.Reached 9 true [65, 2, 2, 4] (.new .default) learnedDecoder := by
  have hstart : Decoder.new 9 true (2 ^ 9) [65, 2, 2, 4] (.new .default) =
      .ok { literalDecoder with
        previousCode := none, firstCharacter := 0, reader := .new [65, 2, 2, 4],
        output := ⟨.new .default, []⟩ } := by
    decide +kernel
  have hliteral : Decoder.Reached 9 true [65, 2, 2, 4] (.new .default) literalDecoder :=
    .turn (.start hstart) (show Decoder.Turns 9 true _ 65 _ literalDecoder from
      ⟨literalDecoder.reader, _, rfl, by decide +kernel, rfl, .of_granted (by decide +kernel)⟩)
  exact .turn hliteral (show Decoder.Turns 9 true _ 257 _ learnedDecoder from
    ⟨learnedDecoder.reader, _, rfl, by decide +kernel, rfl, .of_granted (by decide +kernel)⟩)

/-- The codes 65, 257 and 256, and bits that are no whole code. -/
theorem decodeLzw_founded_nine :
    (∃ prior, learnedDecoder.prefixes[257]? = some prior ∧ prior < 257 ∧
      (prior ≤ 255 ∨ 257 ≤ prior ∧ prior < 258)) ∧
    (∃ steps literal, steps < 2 ^ 9 ∧ literal ≤ 255 ∧
      Chain learnedDecoder.prefixes 257 steps literal) ∧
    FailsWith Plain (decodeLzw [65, 2, 2, 4] 9 true (2 ^ 9) (.new .default)) := by
  obtain ⟨hreached, hfails⟩ :=
    @decodeLzw_founded 9 (by decide) (by decide) true [65, 2, 2, 4] (.new .default)
  obtain ⟨hprior, hchain, -⟩ := hreached learnedDecoder learnedDecoder_reached
  exact ⟨hprior 257 (by decide) (by decide), hchain 257 (.inr ⟨by decide, by decide⟩), hfails⟩

end UnixCompress
end Unpackio
