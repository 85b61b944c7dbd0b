/-
The tables of the Unix `compress` decoder as an LZW dictionary.

A code spells a string through the chain of its prefixes, and every prefix has a
smaller code.  Putting a code writes the string that it names, and learning keeps
what the older codes spell.
-/
import Unpackio.Stream.UnixCompress
import Unpackio.Foundation.Lzw

namespace Unpackio
namespace UnixCompress

open List (append_assoc append_nil length_append nil_append)

namespace Output

/-- The buffer has room, and `sent` bytes are written or buffered. -/
structure Holds (output : Output) (limits : Limits) (sent : Nat) : Prop where
  room : output.buffered.length < ioChunkSize
  limits : output.control.limits = limits
  sent : output.control.outputBytes + output.buffered.length = sent

def Puts (p : Streamed Output) (output : Output) (limits : Limits) (sent : Nat)
    (bytes : List UInt8) : Prop :=
  ∃ out output', Emits p out output' ∧ out ++ output'.buffered = output.buffered ++ bytes ∧
    output'.Holds limits (sent + bytes.length)

variable {output : Output} {limits : Limits} {sent : Nat}

theorem flushOutput_emits (output : Output) (hlimits : output.control.limits = limits)
    (hsent : output.control.outputBytes + output.buffered.length = sent)
    (hallows : limits.Allows sent) :
    ∃ output', Emits output.flushOutput output.buffered output' ∧ output'.buffered = [] ∧
      output'.Holds limits sent := by
  rw [flushOutput]
  by_cases h : output.buffered = []
  · rw [if_pos h, h]
    exact ⟨output, .pure output, h, by rw [h]; decide, hlimits, hsent⟩
  · rw [if_neg h]
    refine ⟨⟨{ output.control with
      outputBytes := output.control.outputBytes + output.buffered.length }, []⟩,
      (ExtractionControl.writeOutput_emits ?_).bind_quiet (.pure _), rfl, ?_⟩
    · rw [hlimits, hsent]
      exact hallows
    · exact ⟨(by decide : 0 < ioChunkSize), hlimits, hsent⟩

theorem bufferLoop_puts (fuel : Nat) (bytes : List UInt8) (hfuel : bytes.length ≤ fuel)
    (h : output.Holds limits sent) (hallows : limits.Allows (sent + bytes.length)) :
    Puts (bufferLoop fuel bytes output) output limits sent bytes := by
  induction fuel generalizing bytes output sent with
  | zero =>
    rw [List.length_eq_zero_iff.mp (Nat.le_zero.mp hfuel), bufferLoop, if_pos rfl]
    exact ⟨[], output, .pure output, by rw [nil_append, append_nil], h⟩
  | succ fuel ih =>
    rw [bufferLoop]
    by_cases hne : bytes = []
    · rw [if_pos hne, hne]
      exact ⟨[], output, .pure output, by rw [nil_append, append_nil], h⟩
    · rw [if_neg hne]
      have hpos : 0 < bytes.length := List.length_pos_iff.mpr hne
      have hroom := h.room
      have hsent := h.sent
      obtain ⟨count, hcount⟩ : ∃ count, count =
          min (min bytes.length (ioChunkSize - output.buffered.length)) controlChunkSize := ⟨_, rfl⟩
      have hcountPos : 0 < count := by
        rw [controlChunkSize] at hcount
        omega
      have htake : (bytes.take count).length = count := by
        rw [List.length_take]
        omega
      have hdrop : (bytes.drop count).length = bytes.length - count := List.length_drop
      have havailable : checkedSub ioChunkSize output.buffered.length =
          some (ioChunkSize - output.buffered.length) := checkedSub_of_le hroom.le
      have htotal : output.control.checkedOutputTotal (output.buffered.length + count) =
          .ok (output.control.outputBytes + (output.buffered.length + count)) :=
        ExtractionControl.checkedOutputTotal_of_allows
          (by rw [h.limits]; exact hallows.mono (by omega))
      obtain ⟨front, filled, hfront, hkeep, hfilled⟩ : ∃ front filled,
          Emits (if (output.buffered ++ bytes.take count).length = ioChunkSize then
              flushOutput { output with buffered := output.buffered ++ bytes.take count }
            else pure { output with buffered := output.buffered ++ bytes.take count })
            front filled ∧
          front ++ filled.buffered = output.buffered ++ bytes.take count ∧
          filled.Holds limits (sent + count) := by
        have hsent' : output.control.outputBytes + (output.buffered ++ bytes.take count).length =
            sent + count := by
          rw [length_append, htake]
          omega
        by_cases hfull : (output.buffered ++ bytes.take count).length = ioChunkSize
        · rw [if_pos hfull]
          obtain ⟨filled, hemits, hempty, hholds⟩ := flushOutput_emits
            { output with buffered := output.buffered ++ bytes.take count } h.limits hsent'
            (hallows.mono (by omega))
          exact ⟨_, filled, hemits, by rw [hempty, append_nil], hholds⟩
        · rw [if_neg hfull]
          refine ⟨[], _, .pure _, nil_append _, ?_, h.limits, hsent'⟩
          rw [length_append, htake] at hfull
          show (output.buffered ++ bytes.take count).length < ioChunkSize
          rw [length_append, htake]
          omega
      obtain ⟨rest, output', hrest, hbytes, hholds⟩ := ih (bytes.drop count) (by omega) hfilled
        (by rw [hdrop]; exact hallows.mono (by omega))
      refine ⟨front ++ rest, output', ?_, ?_, ?_⟩
      · refine .lift_bind (okOr_eq_ok.mpr havailable) ?_
        simp only [← hcount, if_neg hcountPos.ne']
        refine .lift_bind htotal ((Emits.checkpoint count).quiet_bind ?_)
        by_cases hfull : (output.buffered ++ bytes.take count).length = ioChunkSize
        · rw [if_pos hfull] at hfront ⊢
          exact hfront.bind hrest
        · rw [if_neg hfull] at hfront ⊢
          exact hfront.bind hrest
      · rw [append_assoc, hbytes, ← append_assoc, hkeep, append_assoc,
          List.take_append_drop]
      · rw [hdrop] at hholds
        rwa [show sent + count + (bytes.length - count) = sent + bytes.length by omega] at hholds

theorem bufferOutput_puts {bytes : List UInt8} (h : output.Holds limits sent)
    (hallows : limits.Allows (sent + bytes.length)) :
    Puts (output.bufferOutput bytes) output limits sent bytes :=
  bufferLoop_puts _ bytes (Nat.le_mul_of_pos_left _ Nat.two_pos) h hallows

end Output
inductive Spells (prefixes : List Nat) (suffixes : List UInt8) : Nat → List UInt8 → Prop
  | literal (byte : UInt8) : Spells prefixes suffixes byte.toNat [byte]
  | learned {code prior : Nat} {suffix : UInt8} {string : List UInt8} (hcode : 255 < code)
      (hprior : prefixes[code]? = some prior) (hlt : prior < code)
      (hsuffix : suffixes[code]? = some suffix) (h : Spells prefixes suffixes prior string) :
      Spells prefixes suffixes code (string ++ [suffix])

namespace Spells

variable {prefixes : List Nat} {suffixes : List UInt8} {code : Nat} {string : List UInt8}

variable (h : Spells prefixes suffixes code string)
include h

theorem ne_nil : string ≠ [] := by
  cases h with
  | literal => exact List.cons_ne_nil _ _
  | learned => exact List.append_ne_nil_of_right_ne_nil _ (List.cons_ne_nil _ _)

theorem length_le : string.length ≤ code + 1 := by
  induction h with
  | literal byte => exact Nat.succ_le_succ (Nat.zero_le _)
  | learned _ _ hlt _ _ ih =>
    rw [length_append, List.length_singleton]
    omega

theorem set {fresh : Nat} (hfresh : code < fresh) (prior : Nat) (suffix : UInt8) :
    Spells (prefixes.set fresh prior) (suffixes.set fresh suffix) code string := by
  induction h with
  | literal byte => exact .literal byte
  | learned hcode hprior hlt hsuffix _ ih =>
    refine .learned hcode ?_ hlt ?_ (ih (by omega))
    · rw [List.getElem?_set_ne (by omega), hprior]
    · rw [List.getElem?_set_ne (by omega), hsuffix]

end Spells

namespace Decoder

theorem traverse_emits {decoder : Decoder} {code : Nat} {string : List UInt8}
    (h : Spells decoder.prefixes decoder.suffixes code string) (hcode : code < decoder.nextCode)
    (left : Nat) (hleft : string.length ≤ left + 1) (expansion : List UInt8) :
    ∃ first rest, string = first :: rest ∧
      Emits (decoder.traverse left code expansion) [] (first.toNat, expansion ++ rest.reverse) := by
  induction h generalizing left expansion with
  | literal byte =>
    have hbyte : ¬255 < byte.toNat := by
      have := byte.toNat_lt
      omega
    refine ⟨byte, [], rfl, ?_⟩
    rw [List.reverse_nil, append_nil, traverse.eq_def]
    show Emits (if 255 < byte.toNat then _ else _) _ _
    rw [if_neg hbyte]
    exact .pure _
  | @learned code prior suffix string hbig hprior hlt hsuffix hspells ih =>
    rw [length_append, List.length_singleton] at hleft
    have hpos : 0 < string.length := List.length_pos_iff.mpr hspells.ne_nil
    obtain ⟨left, rfl⟩ : ∃ n, left = n + 1 := ⟨left - 1, by omega⟩
    obtain ⟨first, rest, rfl, hrest⟩ := ih (by omega) left (by omega) (expansion ++ [suffix])
    refine ⟨first, rest ++ [suffix], rfl, ?_⟩
    rw [traverse, if_pos hbig, List.reverse_append, ← append_assoc]
    exact (Emits.checkpoint 1).quiet_bind (.lift_bind (rejectIf_of_not (by omega) _)
      (.lift_bind (okOr_eq_ok.mpr hsuffix) (.lift_bind (okOr_eq_ok.mpr hprior) hrest)))

/-- The strings that a dictionary has room for. -/
def capacity (maximumCodeBits : Nat) (blockMode : Bool) : Nat :=
  2 ^ maximumCodeBits - firstCode blockMode

theorem firstCode_bounds (blockMode : Bool) :
    256 ≤ firstCode blockMode ∧ firstCode blockMode ≤ 257 := by
  cases blockMode <;> decide

/-- The tables of the decoder hold the learned strings, which have the codes from
the first one on. -/
structure Tables (maximumCodeBits : Nat) (blockMode : Bool) (entries : List (List UInt8))
    (decoder : Decoder) : Prop where
  prefixesLength : decoder.prefixes.length = 2 ^ maximumCodeBits
  suffixesLength : decoder.suffixes.length = 2 ^ maximumCodeBits
  nextCode : decoder.nextCode = firstCode blockMode + entries.length
  nextCode_le : decoder.nextCode ≤ 2 ^ maximumCodeBits
  spells : ∀ index string, entries[index]? = some string →
    Spells decoder.prefixes decoder.suffixes (firstCode blockMode + index) string

def Last (string : List UInt8) (decoder : Decoder) : Prop :=
  ∃ code, decoder.previousCode = some code ∧ code < decoder.nextCode ∧
    Spells decoder.prefixes decoder.suffixes code string ∧
    string.head? = some decoder.firstCharacter

/-- The decoder holds the dictionary. -/
structure Represents (maximumCodeBits : Nat) (blockMode : Bool)
    (dictionary : Lzw.Dictionary UInt8) (decoder : Decoder) : Prop where
  tables : Tables maximumCodeBits blockMode dictionary.entries decoder
  reset : dictionary.previous = none → decoder.previousCode = none ∧ dictionary.entries = []
  last : ∀ string, dictionary.previous = some string → Last string decoder

section Learn

variable {maximumCodeBits : Nat} {blockMode : Bool} {entries : List (List UInt8)}
  {decoder : Decoder} {previousCode code : Nat} {previous string : List UInt8}

theorem Tables.lt_capacity (h : Tables maximumCodeBits blockMode entries decoder) :
    entries.length < capacity maximumCodeBits blockMode ↔
      decoder.nextCode < 2 ^ maximumCodeBits := by
  rw [h.nextCode, capacity]
  omega

def learned (maximumCodes previousCode : Nat) (decoder : Decoder) : Decoder :=
  if decoder.nextCode < maximumCodes then
    { decoder with
      prefixes := decoder.prefixes.set decoder.nextCode previousCode
      suffixes := decoder.suffixes.set decoder.nextCode decoder.firstCharacter
      nextCode := decoder.nextCode + 1 }
  else decoder

theorem learn_eq_learned (hprefixes : decoder.prefixes.length = 2 ^ maximumCodeBits)
    (hsuffixes : decoder.suffixes.length = 2 ^ maximumCodeBits) (hbits : maximumCodeBits ≤ 16)
    (previousCode : Nat) :
    decoder.learn (2 ^ maximumCodeBits) previousCode =
      .ok (decoder.learned (2 ^ maximumCodeBits) previousCode) := by
  rw [Decoder.learn, learned]
  by_cases hroom : decoder.nextCode < 2 ^ maximumCodeBits
  · have hpow : 2 ^ maximumCodeBits ≤ 2 ^ 16 := Nat.pow_le_pow_right Nat.two_pos hbits
    have hnext : tryFrom 32 (decoder.nextCode + 1) = some (decoder.nextCode + 1) :=
      if_pos (by omega)
    rw [if_pos hroom, if_pos hroom, rejectIf_of_not (by rw [hprefixes]; omega),
      Except.ok_bind, rejectIf_of_not (by rw [hsuffixes]; omega), Except.ok_bind, hnext]
    rfl
  · rw [if_neg hroom, if_neg hroom]
    rfl

theorem learned_spells (maximumCodes previousCode : Nat) (hcode : code < decoder.nextCode)
    (h : Spells decoder.prefixes decoder.suffixes code string) :
    Spells (decoder.learned maximumCodes previousCode).prefixes
      (decoder.learned maximumCodes previousCode).suffixes code string := by
  rw [learned]
  split
  · exact h.set hcode _ _
  · exact h

theorem Tables.learned_nextCode (h : Tables maximumCodeBits blockMode entries decoder)
    (hroom : decoder.nextCode < 2 ^ maximumCodeBits) (hcode : previousCode < decoder.nextCode)
    (hspells : Spells decoder.prefixes decoder.suffixes previousCode previous) :
    Spells (decoder.learned (2 ^ maximumCodeBits) previousCode).prefixes
      (decoder.learned (2 ^ maximumCodeBits) previousCode).suffixes decoder.nextCode
      (previous ++ [decoder.firstCharacter]) := by
  have hbig := (firstCode_bounds blockMode).1
  have hnext := h.nextCode
  rw [learned, if_pos hroom]
  refine .learned (by omega) ?_ hcode ?_ (hspells.set hcode _ _)
  · exact List.getElem?_set_self (h.prefixesLength ▸ hroom)
  · exact List.getElem?_set_self (h.suffixesLength ▸ hroom)

theorem Tables.learned (h : Tables maximumCodeBits blockMode entries decoder)
    (hcode : previousCode < decoder.nextCode)
    (hspells : Spells decoder.prefixes decoder.suffixes previousCode previous) :
    Tables maximumCodeBits blockMode
      (if entries.length < capacity maximumCodeBits blockMode then
        entries ++ [previous ++ [decoder.firstCharacter]] else entries)
      (decoder.learned (2 ^ maximumCodeBits) previousCode) := by
  have hnext := h.nextCode
  have hold : ∀ index string, entries[index]? = some string →
      Spells (decoder.learned (2 ^ maximumCodeBits) previousCode).prefixes
        (decoder.learned (2 ^ maximumCodeBits) previousCode).suffixes
        (firstCode blockMode + index) string := by
    intro index string hindex
    have hlt := (List.getElem?_eq_some_iff.mp hindex).1
    exact learned_spells _ _ (by omega) (h.spells index string hindex)
  by_cases hroom : decoder.nextCode < 2 ^ maximumCodeBits
  · have hfresh := h.learned_nextCode hroom hcode hspells
    rw [if_pos (h.lt_capacity.mpr hroom)]
    rw [Decoder.learned, if_pos hroom] at hold hfresh ⊢
    refine ⟨(List.length_set ..).trans h.prefixesLength,
      (List.length_set ..).trans h.suffixesLength, ?_, hroom, ?_⟩
    · rw [length_append, List.length_singleton, ← Nat.add_assoc, ← hnext]
    · intro index string hindex
      rcases Nat.lt_or_ge index entries.length with hlt | hge
      · rw [List.getElem?_append_left hlt] at hindex
        exact hold index string hindex
      · rw [List.getElem?_append_right hge, List.getElem?_singleton] at hindex
        split at hindex
        · obtain rfl := Option.some.inj hindex
          rwa [show firstCode blockMode + index = decoder.nextCode by omega]
        · exact (nomatch hindex)
  · rw [if_neg fun hlt => hroom (h.lt_capacity.mp hlt)]
    rw [Decoder.learned, if_neg hroom]
    exact h

end Learn

/-! ## Putting a code -/

/-- What putting a code leaves. -/
structure SameReader (decoder decoder' : Decoder) : Prop where
  codeBits : decoder'.codeBits = decoder.codeBits
  maximumCurrentCode : decoder'.maximumCurrentCode = decoder.maximumCurrentCode
  reader : decoder'.reader = decoder.reader
  forceRefill : decoder'.forceRefill = decoder.forceRefill

def Puts (p : Streamed Decoder) (decoder : Decoder) (maximumCodeBits : Nat) (blockMode : Bool)
    (limits : Limits) (sent : Nat) (string : List UInt8) (dictionary : Lzw.Dictionary UInt8) :
    Prop :=
  ∃ out decoder', Emits p out decoder' ∧
    out ++ decoder'.output.buffered = decoder.output.buffered ++ string ∧
    decoder'.output.Holds limits (sent + string.length) ∧
    decoder'.Represents maximumCodeBits blockMode dictionary ∧ decoder.SameReader decoder'

section Put

variable {maximumCodeBits : Nat} {blockMode : Bool} {dictionary : Lzw.Dictionary UInt8}
  {decoder : Decoder} {limits : Limits} {sent : Nat} {string : List UInt8}

theorem Tables.withOutput {entries : List (List UInt8)}
    (h : Tables maximumCodeBits blockMode entries decoder) (output : Output) (first : UInt8) :
    Tables maximumCodeBits blockMode entries
      { decoder with output := output, firstCharacter := first } :=
  ⟨h.prefixesLength, h.suffixesLength, h.nextCode, h.nextCode_le, h.spells⟩

theorem putFirst_puts (h : decoder.Represents maximumCodeBits blockMode dictionary)
    (hprevious : dictionary.previous = none) {ref : Lzw.Ref UInt8}
    (hlookup : dictionary.lookup (capacity maximumCodeBits blockMode) ref = some string)
    (houtput : decoder.output.Holds limits sent) (hallows : limits.Allows (sent + string.length)) :
    Puts (decoder.putFirst (ref.code UInt8.toNat (firstCode blockMode) dictionary.entries.length))
      decoder maximumCodeBits blockMode limits sent string
      (dictionary.learn (capacity maximumCodeBits blockMode) string) := by
  have hentries := (h.reset hprevious).2
  cases ref with
  | entry index =>
    rw [Lzw.Dictionary.lookup, hentries] at hlookup
    exact (nomatch hlookup)
  | fresh =>
    rw [Lzw.Dictionary.lookup, hprevious] at hlookup
    exact (nomatch hlookup)
  | literal byte =>
    obtain rfl : [byte] = string := Option.some.inj hlookup
    obtain ⟨out, output, hemits, hbytes, hholds⟩ := Output.bufferOutput_puts houtput hallows
    have hsmall : ¬255 < byte.toNat := by
      have := byte.toNat_lt
      omega
    refine ⟨out, { decoder with
      output := output, firstCharacter := byte, previousCode := some byte.toNat }, ?_, hbytes,
      hholds, ⟨?_, fun hreset => (nomatch hreset), ?_⟩, ⟨rfl, rfl, rfl, rfl⟩⟩
    · rw [Lzw.Ref.code, putFirst, UInt8.ofNat_toNat]
      exact .lift_bind (rejectIf_of_not hsmall _) (hemits.bind_quiet (.pure _))
    · rw [Lzw.Dictionary.learn, hprevious]
      have htables := h.tables.withOutput output byte
      exact ⟨htables.1, htables.2, htables.3, htables.4, htables.5⟩
    · rintro string ⟨⟩
      have hnext := h.tables.nextCode
      have hbig := (firstCode_bounds blockMode).1
      exact ⟨byte.toNat, rfl, show byte.toNat < decoder.nextCode by omega, .literal byte, rfl⟩

variable {previousCode : Nat} {previous : List UInt8}
  (h : decoder.Represents maximumCodeBits blockMode dictionary) (hbits : maximumCodeBits ≤ 16)
  (hprevious : dictionary.previous = some previous) (hcode : previousCode < decoder.nextCode)
  (hspells : Spells decoder.prefixes decoder.suffixes previousCode previous)
include h hbits hprevious hcode hspells

/-- A code behind `previousCode`, whose trace gives the string from behind. -/
theorem putNext_puts_of {encodedCode : Nat} (hle : encodedCode ≤ decoder.nextCode) {first : UInt8}
    {rest : List UInt8} (htrace : Emits
      (if encodedCode = decoder.nextCode then
        decoder.traverse (2 ^ maximumCodeBits) previousCode [decoder.firstCharacter]
      else decoder.traverse (2 ^ maximumCodeBits) encodedCode []) [] (first.toNat, rest.reverse))
    (hnew : ∀ output, ∃ learned,
      learned = Decoder.learned (2 ^ maximumCodeBits) previousCode
        { decoder with output := output, firstCharacter := first } ∧
      encodedCode < learned.nextCode ∧
      Spells learned.prefixes learned.suffixes encodedCode (first :: rest))
    (houtput : decoder.output.Holds limits sent)
    (hallows : limits.Allows (sent + (first :: rest).length)) :
    Puts (decoder.putNext (2 ^ maximumCodeBits) (2 ^ maximumCodeBits) previousCode encodedCode)
      decoder maximumCodeBits blockMode limits sent (first :: rest)
      (dictionary.learn (capacity maximumCodeBits blockMode) (first :: rest)) := by
  obtain ⟨out, output, hemits, hbytes, hholds⟩ := Output.bufferOutput_puts houtput hallows
  obtain ⟨learned, hlearned, hlt, hnewSpells⟩ := hnew output
  have htables := h.tables.withOutput output first
  have hreverse : (rest.reverse ++ [first]).reverse = first :: rest := by simp
  have hput : Emits (do
      let output ← decoder.output.bufferOutput (rest.reverse ++ [first]).reverse
      let decoder ← Decoder.learn { decoder with output := output, firstCharacter := first }
        (2 ^ maximumCodeBits) previousCode
      return { decoder with previousCode := some encodedCode } : Streamed Decoder) out
      { learned with previousCode := some encodedCode } := by
    rw [hreverse]
    refine hemits.bind_quiet (.lift_bind ?_ (.pure _))
    rw [learn_eq_learned htables.prefixesLength htables.suffixesLength hbits, hlearned]
  have hsame : learned.output = output ∧ learned.firstCharacter = first ∧
      decoder.SameReader learned := by
    rw [hlearned, Decoder.learned]
    split <;> exact ⟨rfl, rfl, rfl, rfl, rfl, rfl⟩
  refine ⟨out, { learned with previousCode := some encodedCode }, ?_, ?_, ?_, ⟨?_, ?_, ?_⟩, ?_⟩
  · rw [putNext]
    refine .lift_bind (rejectIf_of_not (by omega) _) ?_
    by_cases hfresh : encodedCode = decoder.nextCode
    · rw [if_pos hfresh] at htrace ⊢
      refine htrace.quiet_bind ?_
      simp only [UInt8.ofNat_toNat]
      exact hput
    · rw [if_neg hfresh] at htrace ⊢
      refine htrace.quiet_bind ?_
      simp only [UInt8.ofNat_toNat]
      exact hput
  · rw [hsame.1]
    exact hbytes
  · rw [hsame.1]
    exact hholds
  · have hnext := htables.learned hcode hspells
    rw [← hlearned] at hnext
    rw [Lzw.Dictionary.learn, hprevious]
    exact ⟨hnext.1, hnext.2, hnext.3, hnext.4, hnext.5⟩
  · exact fun hreset => (by cases hreset)
  · rintro string ⟨⟩
    refine ⟨encodedCode, rfl, hlt, hnewSpells, ?_⟩
    rw [hsame.2.1]
    rfl
  · exact ⟨hsame.2.2.1, hsame.2.2.2, hsame.2.2.3, hsame.2.2.4⟩

theorem putNext_puts_known {encodedCode : Nat} (hlt : encodedCode < decoder.nextCode)
    (hstring : Spells decoder.prefixes decoder.suffixes encodedCode string)
    (houtput : decoder.output.Holds limits sent) (hallows : limits.Allows (sent + string.length)) :
    Puts (decoder.putNext (2 ^ maximumCodeBits) (2 ^ maximumCodeBits) previousCode encodedCode)
      decoder maximumCodeBits blockMode limits sent string
      (dictionary.learn (capacity maximumCodeBits blockMode) string) := by
  have hleft := hstring.length_le
  have hnext := h.tables.nextCode_le
  obtain ⟨first, rest, rfl, htrace⟩ := traverse_emits hstring hlt (2 ^ maximumCodeBits)
    (by omega) []
  refine putNext_puts_of h hbits hprevious hcode hspells hlt.le ?_ ?_ houtput hallows
  · rw [if_neg hlt.ne]
    exact htrace
  · intro output
    refine ⟨_, rfl, ?_, learned_spells _ _ hlt hstring⟩
    rw [learned]
    split
    · exact Nat.lt_succ_of_lt hlt
    · exact hlt

theorem putNext_puts_fresh (hhead : previous.head? = some decoder.firstCharacter)
    (hroom : decoder.nextCode < 2 ^ maximumCodeBits) (houtput : decoder.output.Holds limits sent)
    (hallows : limits.Allows (sent + (previous ++ previous.take 1).length)) :
    Puts (decoder.putNext (2 ^ maximumCodeBits) (2 ^ maximumCodeBits) previousCode decoder.nextCode)
      decoder maximumCodeBits blockMode limits sent (previous ++ previous.take 1)
      (dictionary.learn (capacity maximumCodeBits blockMode) (previous ++ previous.take 1)) := by
  have hleft := hspells.length_le
  obtain ⟨first, rest, rfl, htrace⟩ := traverse_emits hspells hcode (2 ^ maximumCodeBits)
    (by omega) [decoder.firstCharacter]
  obtain rfl : first = decoder.firstCharacter := Option.some.inj hhead
  refine putNext_puts_of h hbits hprevious hcode hspells le_rfl ?_ ?_ houtput hallows
  · rw [if_pos rfl]
    show Emits _ [] (decoder.firstCharacter.toNat, (rest ++ [decoder.firstCharacter]).reverse)
    rw [List.reverse_append]
    exact htrace
  · intro output
    refine ⟨_, rfl, ?_, (h.tables.withOutput output _).learned_nextCode hroom hcode hspells⟩
    rw [learned, if_pos hroom]
    exact Nat.lt_succ_self _

theorem putNext_puts (hhead : previous.head? = some decoder.firstCharacter) {ref : Lzw.Ref UInt8}
    (hlookup : dictionary.lookup (capacity maximumCodeBits blockMode) ref = some string)
    (houtput : decoder.output.Holds limits sent) (hallows : limits.Allows (sent + string.length)) :
    Puts (decoder.putNext (2 ^ maximumCodeBits) (2 ^ maximumCodeBits) previousCode
        (ref.code UInt8.toNat (firstCode blockMode) dictionary.entries.length))
      decoder maximumCodeBits blockMode limits sent string
      (dictionary.learn (capacity maximumCodeBits blockMode) string) := by
  have hnext := h.tables.nextCode
  cases ref with
  | literal byte =>
    obtain rfl : [byte] = string := Option.some.inj hlookup
    have hbyte := byte.toNat_lt
    have hbig := (firstCode_bounds blockMode).1
    exact putNext_puts_known h hbits hprevious hcode hspells
      (show byte.toNat < decoder.nextCode by omega) (.literal byte) houtput hallows
  | entry index =>
    have hindex : index < dictionary.entries.length := (List.getElem?_eq_some_iff.mp hlookup).1
    exact putNext_puts_known h hbits hprevious hcode hspells
      (show firstCode blockMode + index < decoder.nextCode by omega)
      (h.tables.spells index string hlookup) houtput hallows
  | fresh =>
    rw [Lzw.Dictionary.lookup, hprevious, Option.bind_eq_bind, Option.bind_some] at hlookup
    split at hlookup
    · next hroom =>
      obtain rfl := Option.some.inj hlookup
      rw [Lzw.Ref.code, ← hnext]
      exact putNext_puts_fresh h hbits hprevious hcode hspells hhead (h.tables.lt_capacity.mp hroom)
        houtput hallows
    · exact (nomatch hlookup)

end Put

end Decoder
end UnixCompress
end Unpackio
