/-
Decoding what the code writer puts out for a list of LZW operations.

`Agrees` relates the writer, the dictionary and the decoder before each code: the
widths change at the same code, and the decoder's tables hold the dictionary.
-/
import Unpackio.Stream.CodeGroups
import Unpackio.Stream.LzwTable

namespace Unpackio
namespace UnixCompress

def operationCodes (maximumCodeBits : Nat) (blockMode : Bool) :
    Lzw.Dictionary UInt8 → List (Lzw.Op UInt8) → List Nat :=
  Lzw.codes UInt8.toNat clearCode (firstCode blockMode)
    (Decoder.capacity maximumCodeBits blockMode)

def expandOperations (maximumCodeBits : Nat) (blockMode : Bool) :
    Lzw.Dictionary UInt8 → List (Lzw.Op UInt8) → Option (List UInt8) :=
  Lzw.expand (Decoder.capacity maximumCodeBits blockMode) blockMode

structure Agrees (maximumCodeBits : Nat) (blockMode : Bool) (encoder : Encoder)
    (dictionary : Lzw.Dictionary UInt8) (decoder : Decoder) : Prop where
  codeBits : decoder.codeBits = encoder.width
  decoderMaximum : decoder.maximumCurrentCode = maximumCode encoder.width maximumCodeBits
  encoderMaximum : encoder.maximumCurrent = maximumCode encoder.width maximumCodeBits
  nextCode : encoder.nextCode = decoder.nextCode
  hasPrevious : encoder.hasPrevious = dictionary.previous.isSome
  initial : initialCodeBits ≤ encoder.width
  width_le : encoder.width ≤ maximumCodeBits
  nextCode_le : encoder.nextCode ≤ 2 ^ encoder.width
  represents : decoder.Represents maximumCodeBits blockMode dictionary

/-- A code that is due has a number of the current width. -/
structure Ready (maximumCodeBits : Nat) (blockMode : Bool) (encoder : Encoder)
    (dictionary : Lzw.Dictionary UInt8) (decoder : Decoder) : Prop
    extends Agrees maximumCodeBits blockMode encoder dictionary decoder where
  nextCode_lt : encoder.width < maximumCodeBits → encoder.nextCode < 2 ^ encoder.width

section

variable {maximumCodeBits : Nat} {blockMode : Bool} {encoder : Encoder}
  {dictionary : Lzw.Dictionary UInt8} {decoder : Decoder}

theorem maximumCode_lt_iff {width nextCode : Nat} (hwidth : width ≤ maximumCodeBits)
    (hnext : nextCode ≤ 2 ^ width) :
    maximumCode width maximumCodeBits < nextCode ↔
      width < maximumCodeBits ∧ nextCode = 2 ^ width := by
  have hpos := Nat.two_pow_pos width
  rw [maximumCode]
  split <;> omega

theorem Agrees.growWidth (h : Agrees maximumCodeBits blockMode encoder dictionary decoder)
    (hbits : maximumCodeBits ≤ 16) :
    ∃ decoder', decoder.growWidth maximumCodeBits = .ok decoder' ∧
      Ready maximumCodeBits blockMode (encoder.growWidth maximumCodeBits).2 dictionary decoder' ∧
      decoder'.reader = decoder.reader ∧ decoder'.output = decoder.output ∧
      decoder'.forceRefill =
        if encoder.Grows maximumCodeBits then true else decoder.forceRefill := by
  have hiff := maximumCode_lt_iff h.width_le h.nextCode_le
  have hdecoder : decoder.maximumCurrentCode < decoder.nextCode ∧
      decoder.codeBits < maximumCodeBits ↔ encoder.Grows maximumCodeBits := by
    rw [Encoder.Grows, h.decoderMaximum, h.encoderMaximum, h.codeBits, h.nextCode]
  have hgrowsIff : encoder.Grows maximumCodeBits ↔
      encoder.width < maximumCodeBits ∧ encoder.nextCode = 2 ^ encoder.width := by
    rw [Encoder.Grows, h.encoderMaximum, hiff]
    exact ⟨fun hgrows => hgrows.1, fun hgrows => ⟨hgrows, hgrows.1⟩⟩
  rw [Decoder.growWidth, Encoder.growWidth]
  by_cases hgrows : encoder.Grows maximumCodeBits
  · obtain ⟨hlt, hnext⟩ := hgrowsIff.mp hgrows
    have hwidth : tryFrom 8 (encoder.width + 1) = some (encoder.width + 1) := if_pos (by omega)
    rw [if_pos (hdecoder.mpr hgrows), if_pos hgrows, if_pos hgrows, h.codeBits, hwidth, okOr_bind,
      maximumCodeForWidth_eq (by omega)]
    have hwider : encoder.nextCode < 2 ^ (encoder.width + 1) := by
      rw [hnext]
      exact Nat.pow_lt_pow_succ Nat.one_lt_two
    have htables := h.represents.tables
    exact ⟨_, rfl, {
      codeBits := rfl
      decoderMaximum := rfl
      encoderMaximum := rfl
      nextCode := h.nextCode
      hasPrevious := h.hasPrevious
      initial := Nat.le_succ_of_le h.initial
      width_le := hlt
      nextCode_le := hwider.le
      represents := ⟨⟨htables.1, htables.2, htables.3, htables.4, htables.5⟩, h.represents.reset,
        h.represents.last⟩
      nextCode_lt := fun _ => hwider }, rfl, rfl, rfl⟩
  · rw [if_neg fun hboth => hgrows (hdecoder.mp hboth), if_neg hgrows, if_neg hgrows]
    refine ⟨decoder, rfl, { h with nextCode_lt := fun hlt => ?_ }, rfl, rfl, rfl⟩
    exact h.nextCode_le.lt_of_ne fun hnext => hgrows (hgrowsIff.mpr ⟨hlt, hnext⟩)

theorem afterCode_put (maximumCodeBits : Nat) (encoder : Encoder) {code : Nat}
    (hclear : ¬(blockMode = true ∧ code = clearCode)) :
    (encoder.afterCode maximumCodeBits blockMode code).width = encoder.width ∧
      (encoder.afterCode maximumCodeBits blockMode code).maximumCurrent = encoder.maximumCurrent ∧
      (encoder.afterCode maximumCodeBits blockMode code).hasPrevious = true ∧
      (encoder.afterCode maximumCodeBits blockMode code).nextCode =
        if encoder.hasPrevious = true ∧ encoder.nextCode < 2 ^ maximumCodeBits then
          encoder.nextCode + 1 else encoder.nextCode := by
  have hpush : (encoder.pushCode code).2.width = encoder.width ∧
      (encoder.pushCode code).2.maximumCurrent = encoder.maximumCurrent ∧
      (encoder.pushCode code).2.hasPrevious = encoder.hasPrevious ∧
      (encoder.pushCode code).2.nextCode = encoder.nextCode := by
    rw [Encoder.pushCode]
    split <;> exact ⟨rfl, rfl, rfl, rfl⟩
  obtain ⟨hwidth, hmaximum, hprevious, hnext⟩ := hpush
  rw [Encoder.afterCode, Encoder.countCode, if_neg hclear]
  by_cases hhas : encoder.hasPrevious = true
  · rw [if_pos (hprevious.trans hhas)]
    by_cases hroom : encoder.nextCode < 2 ^ maximumCodeBits
    · rw [if_pos (hnext.trans_lt hroom), if_pos ⟨hhas, hroom⟩]
      exact ⟨hwidth, hmaximum, hprevious.trans hhas, congrArg (· + 1) hnext⟩
    · rw [if_neg fun hlt => hroom (hnext ▸ hlt), if_neg fun hboth => hroom hboth.2]
      exact ⟨hwidth, hmaximum, hprevious.trans hhas, hnext⟩
  · rw [if_neg fun hpos => hhas (hprevious ▸ hpos), if_neg fun hboth => hhas hboth.1]
    exact ⟨hwidth, hmaximum, rfl, hnext⟩

theorem afterCode_clear (encoder : Encoder) (hblock : blockMode = true) :
    encoder.afterCode maximumCodeBits blockMode clearCode = {
      group := []
      width := initialCodeBits
      maximumCurrent := maximumCode initialCodeBits maximumCodeBits
      nextCode := firstBlockCode
      hasPrevious := false } := by
  rw [Encoder.afterCode, Encoder.countCode, if_pos ⟨hblock, rfl⟩]

section

variable (h : Ready maximumCodeBits blockMode encoder dictionary decoder)
include h

theorem Ready.code_lt {ref : Lzw.Ref UInt8} {string : List UInt8}
    (hlookup : dictionary.lookup (Decoder.capacity maximumCodeBits blockMode) ref = some string) :
    ref.code UInt8.toNat (firstCode blockMode) dictionary.entries.length < 2 ^ encoder.width ∧
      ¬(blockMode = true ∧
        ref.code UInt8.toNat (firstCode blockMode) dictionary.entries.length = clearCode) := by
  have htables := h.represents.tables
  have hnext := htables.nextCode
  have hencoder := h.nextCode
  have hle := h.nextCode_le
  have hpow : 2 ^ 9 ≤ 2 ^ encoder.width := Nat.pow_le_pow_right Nat.two_pos h.initial
  have hfirst : blockMode = true → firstCode blockMode = 257 := by
    rintro rfl
    rfl
  cases ref with
  | literal byte =>
    have hbyte := byte.toNat_lt
    rw [Lzw.Ref.code, clearCode]
    omega
  | entry index =>
    have hindex := (List.getElem?_eq_some_iff.mp hlookup).1
    rw [Lzw.Ref.code, clearCode]
    refine ⟨by omega, fun hboth => ?_⟩
    have := hfirst hboth.1
    omega
  | fresh =>
    have hroom : dictionary.entries.length < Decoder.capacity maximumCodeBits blockMode := by
      rw [Lzw.Dictionary.lookup] at hlookup
      obtain ⟨previous, -, hlookup⟩ := Option.bind_eq_some_iff.mp hlookup
      split at hlookup
      · assumption
      · cases hlookup
    have hlt := htables.lt_capacity.mp hroom
    rw [Lzw.Ref.code, clearCode]
    refine ⟨?_, fun hboth => ?_⟩
    · rcases h.width_le.lt_or_eq with hwidth | hwidth
      · have := h.nextCode_lt hwidth
        omega
      · rw [hwidth]
        omega
    · have := hfirst hboth.1
      omega

theorem Ready.withReader (reader : CodeReader) (force : Bool) :
    Ready maximumCodeBits blockMode encoder dictionary
      { decoder with reader := reader, forceRefill := force } := by
  have htables := h.represents.tables
  exact {
    codeBits := h.codeBits
    decoderMaximum := h.decoderMaximum
    encoderMaximum := h.encoderMaximum
    nextCode := h.nextCode
    hasPrevious := h.hasPrevious
    initial := h.initial
    width_le := h.width_le
    nextCode_le := h.nextCode_le
    represents := ⟨⟨htables.1, htables.2, htables.3, htables.4, htables.5⟩, h.represents.reset,
      h.represents.last⟩
    nextCode_lt := h.nextCode_lt }

end

variable {limits : Limits} {sent : Nat} {string : List UInt8}

section

variable (h : Ready maximumCodeBits blockMode encoder dictionary decoder)
include h

theorem Ready.putCode (hbits : maximumCodeBits ≤ 16) {ref : Lzw.Ref UInt8}
    (hlookup : dictionary.lookup (Decoder.capacity maximumCodeBits blockMode) ref = some string)
    (houtput : decoder.output.Holds limits sent) (hallows : limits.Allows (sent + string.length)) :
    Decoder.Puts (decoder.putCode maximumCodeBits blockMode (2 ^ maximumCodeBits)
        (2 ^ maximumCodeBits) (ref.code UInt8.toNat (firstCode blockMode)
          dictionary.entries.length))
      decoder maximumCodeBits blockMode limits sent string
      (dictionary.learn (Decoder.capacity maximumCodeBits blockMode) string) := by
  rw [Decoder.putCode, if_neg (h.code_lt hlookup).2]
  cases hprevious : dictionary.previous with
  | none =>
    rw [(h.represents.reset hprevious).1]
    exact Decoder.putFirst_puts h.represents hprevious hlookup houtput hallows
  | some previous =>
    obtain ⟨code, hcode, hlt, hspells, hhead⟩ := h.represents.last previous hprevious
    rw [hcode]
    exact Decoder.putNext_puts h.represents hbits hprevious hlt hspells hhead hlookup
      houtput hallows

theorem Ready.afterPut {code : Nat} (hclear : ¬(blockMode = true ∧ code = clearCode))
    {decoder' : Decoder} (hrepresents : decoder'.Represents maximumCodeBits blockMode
      (dictionary.learn (Decoder.capacity maximumCodeBits blockMode) string))
    (hsame : decoder.SameReader decoder') :
    Agrees maximumCodeBits blockMode (encoder.afterCode maximumCodeBits blockMode code)
      (dictionary.learn (Decoder.capacity maximumCodeBits blockMode) string) decoder' := by
  obtain ⟨hwidth, hmaximum, hhas, hnext⟩ := afterCode_put maximumCodeBits encoder hclear
  have htables := h.represents.tables
  have hiff : encoder.hasPrevious = true ∧ encoder.nextCode < 2 ^ maximumCodeBits ↔
      dictionary.previous.isSome = true ∧
        dictionary.entries.length < Decoder.capacity maximumCodeBits blockMode := by
    rw [h.hasPrevious, h.nextCode, htables.lt_capacity]
  exact {
    codeBits := by rw [hsame.codeBits, hwidth, h.codeBits]
    decoderMaximum := by rw [hsame.maximumCurrentCode, hwidth, h.decoderMaximum]
    encoderMaximum := by rw [hmaximum, hwidth, h.encoderMaximum]
    nextCode := by
      rw [hrepresents.tables.nextCode, Lzw.Dictionary.length_learn, hnext, if_congr hiff rfl rfl,
        h.nextCode, htables.nextCode]
      split <;> rfl
    hasPrevious := hhas
    initial := hwidth ▸ h.initial
    width_le := hwidth ▸ h.width_le
    nextCode_le := by
      have hle := h.nextCode_le
      rw [hnext, hwidth]
      split
      · next hboth =>
        rcases h.width_le.lt_or_eq with hlt | heq
        · exact h.nextCode_lt hlt
        · rw [heq]
          exact hboth.2
      · exact hle
    represents := hrepresents }

end

section

variable (h : Agrees maximumCodeBits blockMode encoder dictionary decoder)
include h

theorem Agrees.clear (hlow : initialCodeBits ≤ maximumCodeBits) (hblock : blockMode = true) :
    ∃ decoder', decoder.clear maximumCodeBits = .ok decoder' ∧
      Agrees maximumCodeBits blockMode (encoder.afterCode maximumCodeBits blockMode clearCode)
        .empty decoder' ∧
      decoder'.reader = decoder.reader ∧ decoder'.output = decoder.output ∧
      decoder'.forceRefill = true := by
  have htables := h.represents.tables
  have hpow : 2 ^ 9 ≤ 2 ^ maximumCodeBits := Nat.pow_le_pow_right Nat.two_pos hlow
  rw [Decoder.clear, maximumCodeForWidth_eq (by decide), Except.ok_bind,
    afterCode_clear encoder hblock]
  refine ⟨_, rfl, ?_, rfl, rfl, rfl⟩
  exact {
    codeBits := rfl
    decoderMaximum := rfl
    encoderMaximum := rfl
    nextCode := rfl
    hasPrevious := rfl
    initial := le_rfl
    width_le := hlow
    nextCode_le := (by decide : firstBlockCode ≤ 2 ^ initialCodeBits)
    represents := ⟨⟨htables.1, htables.2, by rw [hblock]; rfl,
      Nat.le_trans (by decide : firstBlockCode ≤ 2 ^ 9) hpow, fun _ _ hindex => (nomatch hindex)⟩,
      fun _ => ⟨rfl, rfl⟩, fun _ hprevious => (nomatch hprevious)⟩ }

theorem Agrees.readCode (hbits : maximumCodeBits ≤ 16) (hgroup : encoder.group.length < 8)
    (hinput : decoder.reader.input.length < 2 ^ 64) {code : Nat} {codes : List Nat}
    (hfeeds : decoder.reader.Feeds decoder.forceRefill encoder.width encoder.group
      (encoder.encodeCodes maximumCodeBits blockMode (code :: codes)))
    (hcode : ∀ grown, Ready maximumCodeBits blockMode (encoder.growWidth maximumCodeBits).2
      dictionary grown → code < 2 ^ (encoder.growWidth maximumCodeBits).2.width) :
    ∃ grown reader encoder', encoder' =
        (encoder.growWidth maximumCodeBits).2.afterCode maximumCodeBits blockMode code ∧
      decoder.growWidth maximumCodeBits = .ok grown ∧ grown.output = decoder.output ∧
      Ready maximumCodeBits blockMode (encoder.growWidth maximumCodeBits).2 dictionary grown ∧
      grown.reader.nextCode grown.codeBits grown.forceRefill = .ok (some code, reader) ∧
      reader.input = decoder.reader.input ∧ encoder'.group.length < 8 ∧
      reader.Feeds (decide (blockMode = true ∧ code = clearCode)) encoder'.width encoder'.group
        (encoder'.encodeCodes maximumCodeBits blockMode codes) := by
  have hlow : 8 ≤ encoder.width := (by decide : 8 ≤ initialCodeBits).trans h.initial
  obtain ⟨grown, hgrow, hready, hreader, hout, hforce⟩ := h.growWidth hbits
  have hopen := Encoder.growWidth_accounts maximumCodeBits hlow hgroup
  have hwidth := hopen.width
  have hhigh := hready.width_le
  have hfeeds := Encoder.feeds_growWidth (by omega) hgroup.le hfeeds
  rw [← hforce, ← hreader] at hfeeds
  obtain ⟨reader, hread, hsame, hlt, hnext⟩ := Encoder.feeds_code (by omega) (by omega)
    (by rwa [hreader]) hopen.group (hcode grown hready) hfeeds
  rw [← hready.codeBits] at hread
  exact ⟨grown, reader, _, rfl, hgrow, hout, hready, hread, hsame.trans (congrArg _ hreader), hlt,
    hnext⟩

end

theorem loop_puts (hlow : initialCodeBits ≤ maximumCodeBits) (hbits : maximumCodeBits ≤ 16)
    (ops : List (Lzw.Op UInt8)) {bytes : List UInt8} {fuel : Nat}
    (h : Agrees maximumCodeBits blockMode encoder dictionary decoder)
    (hgroup : encoder.group.length < 8) (hinput : decoder.reader.input.length < 2 ^ 64)
    (hfeeds : decoder.reader.Feeds decoder.forceRefill encoder.width encoder.group
      (encoder.encodeCodes maximumCodeBits blockMode
        (operationCodes maximumCodeBits blockMode dictionary ops)))
    (hexpand : expandOperations maximumCodeBits blockMode dictionary ops = some bytes)
    (houtput : decoder.output.Holds limits sent) (hallows : limits.Allows (sent + bytes.length))
    (hfuel : ops.length < fuel) :
    ∃ out decoder', Emits (decoder.loop maximumCodeBits blockMode (2 ^ maximumCodeBits)
        (2 ^ maximumCodeBits) fuel) out decoder' ∧
      out ++ decoder'.output.buffered = decoder.output.buffered ++ bytes ∧
      decoder'.output.Holds limits (sent + bytes.length) := by
  induction ops generalizing encoder dictionary decoder sent bytes fuel with
  | nil =>
    obtain rfl : [] = bytes := Option.some.inj hexpand
    obtain ⟨fuel, rfl⟩ : ∃ n, fuel = n + 1 := ⟨fuel - 1, by omega⟩
    obtain ⟨decoder', hgrow, -, hreader, hout, hforce⟩ := h.growWidth hbits
    obtain ⟨hposition, hturn⟩ := hfeeds.at_end
      ((by decide : 7 < initialCodeBits).trans_le h.initial) hgroup.le
    have hturn' : decoder'.forceRefill = true ∨
        decoder'.reader.validBits ≤ decoder'.reader.bitOffset := by
      rw [hforce, hreader]
      split
      · exact .inl rfl
      · exact hturn
    have hnone := CodeReader.nextCode_end (hreader ▸ hposition) hturn' decoder'.codeBits
    refine ⟨[], { decoder' with reader := decoder'.reader }, ?_, ?_, ?_⟩
    · exact (Emits.checkpoint 1).quiet_bind (.lift_bind hgrow (.lift_bind hnone (.pure _)))
    · rw [List.nil_append, List.append_nil, hout]
    · rw [hout]
      exact houtput
  | cons op ops ih =>
    obtain ⟨fuel, rfl⟩ : ∃ n, fuel = n + 1 := ⟨fuel - 1, by omega⟩
    rw [List.length_cons] at hfuel
    cases op with
    | clear =>
      rw [expandOperations, Lzw.expand] at hexpand
      split at hexpand
      · next hblock =>
        obtain ⟨grown, reader, encoder', hencoder, hgrow, hout, hready, hread, hinput', hlt,
          hnext⟩ :=
          h.readCode hbits hgroup hinput hfeeds fun grown hready =>
            (by decide : clearCode < 2 ^ initialCodeBits).trans_le
              (Nat.pow_le_pow_right Nat.two_pos hready.initial)
        obtain ⟨cleared, hclear, hagrees, hreader, hout', hforce⟩ :=
          (hready.withReader reader false).toAgrees.clear hlow hblock
        rw [← hencoder] at hagrees
        rw [decide_eq_true ⟨hblock, rfl⟩] at hnext
        obtain ⟨out, decoder', hloop, hbytes, hholds⟩ := ih hagrees hlt
          (by rw [hreader, hinput']; exact hinput) (by rw [hforce, hreader]; exact hnext)
          hexpand (by rw [hout', hout]; exact houtput) hallows
          (Nat.lt_of_succ_lt_succ hfuel)
        rw [hout', hout] at hbytes
        refine ⟨out, decoder', ?_, hbytes, hholds⟩
        have hput : Emits (Decoder.putCode maximumCodeBits blockMode (2 ^ maximumCodeBits)
            { grown with reader := reader, forceRefill := false } (2 ^ maximumCodeBits) clearCode)
            [] cleared := by
          rw [Decoder.putCode, if_pos ⟨hblock, rfl⟩]
          exact .lift hclear
        refine (Emits.checkpoint 1).quiet_bind (.lift_bind hgrow (.lift_bind hread ?_))
        exact hput.quiet_bind hloop
      · exact (nomatch hexpand)
    | put ref =>
      obtain ⟨string, hlookup, hbind⟩ := Option.bind_eq_some_iff.mp hexpand
      obtain ⟨rest, hrest, hbytes⟩ := Option.bind_eq_some_iff.mp hbind
      obtain rfl : string ++ rest = bytes := Option.some.inj hbytes
      rw [List.length_append, ← Nat.add_assoc] at hallows
      have hcodes : operationCodes maximumCodeBits blockMode dictionary (.put ref :: ops) =
          ref.code UInt8.toNat (firstCode blockMode) dictionary.entries.length ::
            operationCodes maximumCodeBits blockMode
              (dictionary.learn (Decoder.capacity maximumCodeBits blockMode) string) ops := by
        rw [operationCodes, Lzw.codes, hlookup]
        rfl
      rw [hcodes] at hfeeds
      obtain ⟨grown, reader, encoder', hencoder, hgrow, hout, hready, hread, hinput', hlt, hnext⟩ :=
        h.readCode hbits hgroup hinput hfeeds fun grown hready => (hready.code_lt hlookup).1
      have hnotClear := (hready.code_lt hlookup).2
      obtain ⟨front, put, hput, hfront, hholds, hrepresents, hsame⟩ :=
        (hready.withReader reader false).putCode hbits hlookup
          (by show grown.output.Holds limits sent; rw [hout]; exact houtput)
          (hallows.mono (Nat.le_add_right _ _))
      have hagrees := (hready.withReader reader false).afterPut hnotClear hrepresents hsame
      rw [← hencoder] at hagrees
      rw [decide_eq_false hnotClear] at hnext
      obtain ⟨out, decoder', hloop, hbytes, hholds'⟩ := ih hagrees hlt
        (by rw [hsame.reader]; exact hinput'.symm ▸ hinput)
        (by rw [hsame.forceRefill, hsame.reader]; exact hnext) hrest hholds hallows
        (Nat.lt_of_succ_lt_succ hfuel)
      refine ⟨front ++ out, decoder', ?_, ?_, ?_⟩
      · refine (Emits.checkpoint 1).quiet_bind (.lift_bind hgrow (.lift_bind hread ?_))
        exact hput.bind hloop
      · rw [List.append_assoc, hbytes, ← List.append_assoc, hfront, List.append_assoc]
        rw [show grown.output.buffered = decoder.output.buffered by rw [hout]]
      · rwa [List.length_append, ← Nat.add_assoc]

theorem agrees_new (hlow : initialCodeBits ≤ maximumCodeBits) (input : List UInt8)
    (control : ExtractionControl) :
    ∃ decoder, Decoder.new maximumCodeBits blockMode (2 ^ maximumCodeBits) input control =
        .ok decoder ∧
      Agrees maximumCodeBits blockMode (.new maximumCodeBits blockMode) .empty decoder ∧
      decoder.reader = .new input ∧ decoder.forceRefill = false ∧
      decoder.output = ⟨control, []⟩ := by
  have hpow : 2 ^ 9 ≤ 2 ^ maximumCodeBits := Nat.pow_le_pow_right Nat.two_pos hlow
  have hfirst := (Decoder.firstCode_bounds blockMode).2
  rw [Decoder.new, maximumCodeForWidth_eq (by decide), Except.ok_bind]
  refine ⟨_, rfl, ?_, rfl, rfl, rfl⟩
  exact {
    codeBits := rfl
    decoderMaximum := rfl
    encoderMaximum := rfl
    nextCode := rfl
    hasPrevious := rfl
    initial := le_rfl
    width_le := hlow
    nextCode_le := hfirst.trans (by decide : 257 ≤ 2 ^ initialCodeBits)
    represents := ⟨⟨List.length_replicate, by rw [List.length_map, List.length_range], rfl,
      hfirst.trans (Nat.le_trans (by decide) hpow), fun _ _ hindex => (nomatch hindex)⟩,
      fun _ => ⟨rfl, rfl⟩, fun _ hprevious => (nomatch hprevious)⟩ }

def operationPayload (maximumCodeBits : Nat) (blockMode : Bool) (ops : List (Lzw.Op UInt8)) :
    List UInt8 :=
  (literalCodeStream (operationCodes maximumCodeBits blockMode .empty ops) maximumCodeBits
    blockMode).drop 3

theorem length_le_operationPayload (maximumCodeBits : Nat) (blockMode : Bool)
    (ops : List (Lzw.Op UInt8)) :
    ops.length ≤ (operationPayload maximumCodeBits blockMode ops).length := by
  have hwidth : 8 ≤ (Encoder.new maximumCodeBits blockMode).width :=
    (by decide : 8 ≤ initialCodeBits)
  have hcodes := Encoder.length_le_encodeCodes maximumCodeBits blockMode
    (operationCodes maximumCodeBits blockMode .empty ops) hwidth (Nat.succ_pos 7)
  rw [operationCodes, Lzw.length_codes] at hcodes
  exact (Nat.le_add_left _ _).trans hcodes

/-- The decoder writes the expansion of the operations that the code writer put
out. -/
theorem decodeLzw_operationPayload {maximumCodeBits : Nat} (hlow : 9 ≤ maximumCodeBits)
    (hbits : maximumCodeBits ≤ 16) (blockMode : Bool) (ops : List (Lzw.Op UInt8))
    {bytes : List UInt8}
    (hexpand : expandOperations maximumCodeBits blockMode .empty ops = some bytes)
    (hinput : (operationPayload maximumCodeBits blockMode ops).length < 2 ^ 64) (limits : Limits)
    (hallows : limits.Allows bytes.length) :
    Emits (decodeLzw (operationPayload maximumCodeBits blockMode ops) maximumCodeBits blockMode
      (2 ^ maximumCodeBits) (.new limits)) bytes
      { limits := limits, outputBytes := bytes.length } := by
  obtain ⟨decoder, hnew, hagrees, hreader, hforce, houtput⟩ := agrees_new hlow
    (operationPayload maximumCodeBits blockMode ops) (.new limits)
  have hfeeds : decoder.reader.Feeds decoder.forceRefill
      (Encoder.new maximumCodeBits blockMode).width (Encoder.new maximumCodeBits blockMode).group
      (operationPayload maximumCodeBits blockMode ops) := by
    rw [hreader]
    exact .between (Nat.zero_le _) rfl (.inr le_rfl)
  have hholds : decoder.output.Holds limits 0 := by
    rw [houtput]
    exact ⟨(by decide : 0 < ioChunkSize), rfl, rfl⟩
  obtain ⟨out, decoder', hloop, hbytes, hholds'⟩ := loop_puts hlow hbits ops hagrees
    (by decide : 0 < 8) (by rw [hreader]; exact hinput) hfeeds hexpand hholds
    ((Nat.zero_add bytes.length).symm ▸ hallows)
    (Nat.lt_succ_of_le (length_le_operationPayload maximumCodeBits blockMode ops))
  rw [Nat.zero_add] at hholds'
  obtain ⟨output, hflush, hempty, hfinal⟩ := Output.flushOutput_emits decoder'.output
    hholds'.limits hholds'.sent hallows
  have hcontrol : output.control = { limits := limits, outputBytes := bytes.length } := by
    have hlimits := hfinal.limits
    have hsent := hfinal.sent
    rw [hempty, List.length_nil, Nat.add_zero] at hsent
    rw [← hlimits, ← hsent]
  rw [houtput, List.nil_append] at hbytes
  rw [← hcontrol, ← hbytes]
  refine .lift_bind hnew (.lift_bind (okOr_eq_ok.mpr (checkedShl_one (by omega))) ?_)
  exact hloop.bind (hflush.bind_quiet (.pure _))

/-- A string that names itself, a reset and a literal. -/
theorem decodeLzw_operationPayload_fresh :
    Emits (decodeLzw (operationPayload 9 true
        [.put (.literal 65), .put .fresh, .clear, .put (.literal 66)]) 9 true 512 (.new .default))
      [65, 65, 65, 66] { limits := .default, outputBytes := 4 } :=
  decodeLzw_operationPayload (by decide) (by decide) true _ (by decide) (by decide) .default
    ⟨by decide, by decide, by decide⟩

end

end UnixCompress
end Unpackio
