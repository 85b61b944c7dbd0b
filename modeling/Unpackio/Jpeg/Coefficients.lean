/-
The coefficients of every block of every WinZip JPEG: no context leaves its
table in any state that the decoder reaches.
-/
import Unpackio.Jpeg.BlockInvariant
import Unpackio.Jpeg.Headers
import Unpackio.Jpeg.Scan

namespace Unpackio
namespace Jpeg

open Prog (FailsWith CanReturn)

section

variable (tables : LogTables) (contexts : Vector Nat 64)

/-- The coder after any blocks, between any components, slices and scans. -/
inductive Coder.Reached : Coder → Prop
  /-- The first component of the first slice. -/
  | start {input : Input} {decoder : ArithmeticDecoder} (hinput : input.Valid)
      (hnew : (ArithmeticDecoder.new tables input).CanReturn decoder) :
      Reached { decoder := decoder, models := newModels, fixed := Bin.fixed }
  | block {coder next : Coder} {component : Nat} {north west : Option Block} {quant : QuantTable}
      {block : Block} (before : Reached coder) (hcomponent : component < 4)
      (hquant : quant.NonZero)
      (h : (decodeBlock tables contexts component north west quant coder).CanReturn (block, next)) :
      Reached next
  /-- Each component of each slice has a decoder of its own. -/
  | component {coder : Coder} {input : Input} {decoder : ArithmeticDecoder}
      (before : Reached coder) (hinput : input.Valid)
      (hnew : (ArithmeticDecoder.new tables input).CanReturn decoder) :
      Reached { coder with decoder := decoder }
  /-- Each scan starts with new models. -/
  | scan {coder : Coder} (before : Reached coder) : Reached { coder with models := newModels }

variable {tables contexts}

theorem placed (hcontexts : signContexts = .ok contexts) {component : Nat} {quant : QuantTable}
    (hcomponent : component < 4) (hquant : quant.NonZero) : Placed contexts component quant := by
  obtain ⟨_, heq, hlow⟩ := signContexts_gives
  exact ⟨Except.ok.inj (heq.symm.trans hcontexts) ▸ hlow, hcomponent, hquant⟩

theorem Coder.Reached.valid (hcontexts : signContexts = .ok contexts) {coder : Coder}
    (h : Coder.Reached tables contexts coder) : coder.Valid := by
  induction h with
  | start hinput hnew =>
    have hends := ArithmeticDecoder.new_ends tables hinput
    have hdecoder := hends.yields.1 _ (hends.passes.granted_of_canReturn hnew)
    exact ⟨hdecoder, List.length_replicate, newModels_valid, Bin.fixed_valid⟩
  | @block coder _ component north west quant _ _ hcomponent hquant hrun ih =>
    have hends := decodeBlock_codes tables (placed hcontexts hcomponent hquant) north west coder ih
    exact (hends.yields.1 _ (hends.passes.granted_of_canReturn hrun)).2
  | component _ hinput hnew ih =>
    have hends := ArithmeticDecoder.new_ends tables hinput
    have hdecoder := hends.yields.1 _ (hends.passes.granted_of_canReturn hnew)
    exact ⟨hdecoder, ih.models, ih.bins, ih.fixed⟩
  | scan _ ih => exact ⟨ih.decoder, List.length_replicate, newModels_valid, ih.fixed⟩

end

/-- A block of any state that the coder reaches, over any blocks beside it: it is
decoded, or the input is truncated or its code is invalid, or the first coefficient
does not fit, or the control refuses. -/
theorem decodeBlock_inRange {tables : LogTables} {contexts : Vector Nat 64}
    (hcontexts : signContexts = .ok contexts) {coder : Coder}
    (hcoder : Coder.Reached tables contexts coder) {component : Nat} (hcomponent : component < 4)
    {quant : QuantTable} (hquant : quant.NonZero) (north west : Option Block) :
    FailsWith
        (fun e => e = formatError "truncated WinZip JPEG stream" ∨
          e = formatError "invalid WinZip JPEG arithmetic code state" ∨
          e = formatError "WinZip JPEG DC coefficient is out of range")
        (decodeBlock tables contexts component north west quant coder) ∧
      ∀ block next,
        (decodeBlock tables contexts component north west quant coder).CanReturn (block, next) →
        block.eob < 64 ∧
        (∀ index (h : index < 64), 0 < index → -16385 ≤ block.coefficients[index].toInt ∧
          block.coefficients[index].toInt ≤ 16385) ∧
        (0 < block.eob → ∀ h : block.eob < 64, block.coefficients[block.eob] ≠ 0) := by
  have hends := decodeBlock_codes tables (placed hcontexts hcomponent hquant) north west coder
    (hcoder.valid hcontexts)
  refine ⟨fun trace e hrun => ?_, fun block next hrun => ?_⟩
  · exact (hends.yields.failsWith hends.passes trace e hrun).imp_left or_assoc.mp
  · have hwhole := (hends.yields.1 _ (hends.passes.granted_of_canReturn hrun)).1
    exact ⟨hwhole.eob_lt, hwhole.coefficients, hwhole.last⟩

def zeroTables : LogTables := ⟨Vector.replicate 1024 0, Vector.replicate 4096 0⟩

def zeroCoder : Coder :=
  ⟨⟨⟨[0, 0, 0, 0], 2⟩, 0, 0, 0, 0x1001, 0x1001, 0x2000⟩, newModels, Bin.fixed⟩

/-- A block with 5 as its first coefficient. -/
def neighbour : Block := { coefficients := (Vector.replicate 64 0).setIfInBounds 0 5, eob := 0 }

/-- The first block of an input of zeros, below another one.  A code of zero asks for no
logarithm. -/
theorem decodeBlock_inRange_below :
    ∃ contexts block next, signContexts = .ok contexts ∧
      (decodeBlock zeroTables contexts 0 (some neighbour) none (Vector.replicate 64 1)
        zeroCoder).CanReturn (block, next) ∧
      block.coefficients[0]? = some 5 ∧ block.eob < 64 ∧
      ∀ index (h : index < 64), 0 < index → -16385 ≤ block.coefficients[index].toInt ∧
        block.coefficients[index].toInt ≤ 16385 := by
  have hinput : Input.Valid { bytes := [0, 0, 0, 0], position := 0 } := ⟨by decide, by decide⟩
  have hnew : (ArithmeticDecoder.new zeroTables
      { bytes := [0, 0, 0, 0], position := 0 }).CanReturn zeroCoder.decoder :=
    CanReturn.of_granted rfl
  have hquant : QuantTable.NonZero (Vector.replicate 64 1) := fun value hvalue =>
    (Vector.mem_replicate.mp hvalue).2 ▸ (by decide)
  have hcheck : (fun result => result.1.coefficients[0]?) <$> (signContexts >>= fun contexts =>
      (decodeBlock zeroTables contexts 0 (some neighbour) none (Vector.replicate 64 1)
        zeroCoder).granted) = .ok (some 5) := by
    decide +kernel
  obtain ⟨⟨block, next⟩, hrun, hfirst⟩ := Except.map_eq_ok.mp hcheck
  obtain ⟨contexts, hcontexts, hrun⟩ := Except.bind_eq_ok.mp hrun
  have hreturn := CanReturn.of_granted hrun
  obtain ⟨heob, hrange, -⟩ := (decodeBlock_inRange hcontexts (.start hinput hnew) (by decide)
    hquant (some neighbour) none).2 block next hreturn
  exact ⟨contexts, block, next, hcontexts, hreturn, hfirst, heob, hrange⟩

end Jpeg
end Unpackio
