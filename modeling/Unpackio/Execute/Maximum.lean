/-
How the maximum of a folder bounds what it decodes to.
-/
import Unpackio.Execute.Evaluation
import Unpackio.Foundation.Runs

namespace Unpackio

open Prog.CanReturn (bind_iff lift_iff pure_iff)
open Prog (granted_bind_eq_ok granted_rest)

def RootBounded (folder : Folder) (maximum : Nat) (ports : Ports) : Prop :=
  ∀ bytes, ports.outputs[folder.rootOutputIndex]? = some (some bytes) → bytes.length ≤ maximum

theorem storeOutput_rootBounded {folder : Folder} {maximum slot : Nat} {output : List UInt8}
    {ports next : Ports} (hports : RootBounded folder maximum ports)
    (houtput : slot = folder.rootOutputIndex → output.length ≤ maximum)
    (h : storeOutput slot output ports = .ok next) : RootBounded folder maximum next := by
  obtain ⟨destination, -, h⟩ := Except.bind_eq_ok.mp h
  cases destination with
  | some destination =>
    obtain ⟨_, -, h⟩ := Except.bind_eq_ok.mp h
    obtain ⟨_, -, h⟩ := Except.bind_eq_ok.mp h
    cases h
    exact hports
  | none =>
    obtain ⟨_, -, h⟩ := Except.bind_eq_ok.mp h
    obtain ⟨_, -, h⟩ := Except.bind_eq_ok.mp h
    cases h
    intro bytes hbytes
    simp only [List.getElem?_set] at hbytes
    by_cases hslot : slot = folder.rootOutputIndex
    · rw [if_pos hslot] at hbytes
      by_cases hlt : slot < ports.outputs.length
      · rw [if_pos hlt] at hbytes
        cases hbytes
        exact houtput hslot
      · rw [if_neg hlt] at hbytes
        exact (nomatch hbytes)
    · rw [if_neg hslot] at hbytes
      exact hports bytes hbytes

/-- Whatever its environment answers, a coder decodes to at most its maximum. -/
def CoderDecoder.Bounded (decodeCoder : CoderDecoder) : Prop :=
  ∀ coder inputs expected maximum output,
    (decodeCoder coder inputs expected maximum).CanReturn output → output.length ≤ maximum

theorem decodeCoder_bounded (codecs : Codecs) : (decodeCoder codecs).Bounded := by
  intro coder inputs expected maximum output h
  simp only [decodeCoder, bind_iff, lift_iff] at h
  obtain ⟨_, -, output', -, _, hmaximum, _, -, h⟩ := h
  cases pure_iff.mp h
  exact checkLimit_eq_ok.mp hmaximum

section

variable {decodeCoder : CoderDecoder} {limits : Limits} {maximum : Nat}
  (hbounded : decodeCoder.Bounded)
include hbounded

theorem runCoder_rootBounded {folder : Folder} {coderIndex : Nat} {ports next : Ports}
    (hports : RootBounded folder maximum ports)
    (h : (runCoder decodeCoder folder limits maximum coderIndex ports).CanReturn next) :
    RootBounded folder maximum next := by
  simp only [runCoder, bind_iff, lift_iff] at h
  obtain ⟨_, -, coder, -, _, -, ⟨inputs, inputPorts⟩, -, expected, -, output, houtput, hstore⟩ := h
  have hlength := hbounded _ _ _ _ _ houtput
  have hmoved : RootBounded folder maximum { ports with inputs := inputPorts } := hports
  refine storeOutput_rootBounded hmoved
    (fun hslot => ?_) hstore
  rwa [coderMaximum, if_pos hslot] at hlength

theorem runCoders_rootBounded {folder : Folder} (order : List Nat) {ports next : Ports}
    (hports : RootBounded folder maximum ports)
    (h : (runCoders decodeCoder folder limits maximum order ports).CanReturn next) :
    RootBounded folder maximum next := by
  induction order generalizing ports with
  | nil =>
    cases pure_iff.mp h
    exact hports
  | cons coderIndex order ih =>
    obtain ⟨ports', hstep, h⟩ := bind_iff.mp h
    exact ih (runCoder_rootBounded hbounded hports hstep) h

theorem decodeFolder_length {archiveBytes : List UInt8} {streams : StreamsInfo} {folderIndex : Nat}
    {decoded : DecodedFolder}
    (h : (decodeFolder decodeCoder archiveBytes streams folderIndex limits maximum).CanReturn
      decoded) : decoded.bytes.length ≤ maximum := by
  simp only [decodeFolder, bind_iff, lift_iff, okOr_eq_ok] at h
  obtain ⟨folder, -, _, -, _, -, outputCount, -, _, -, _, -, ports, hports, bytes, hroot, _, -,
    h⟩ := h
  cases pure_iff.mp h
  have hbounded := runCoders_rootBounded hbounded folder.topologicalCoderOrder (fun _ hstart => by
    rw [List.getElem?_replicate] at hstart
    by_cases hlt : folder.rootOutputIndex < outputCount
    · rw [if_pos hlt] at hstart
      cases hstart
    · rw [if_neg hlt] at hstart
      cases hstart) hports
  simp only [takeRoot, Except.bind_eq_ok, okOr_eq_ok] at hroot
  obtain ⟨_, -, port, hport, bytes', hbytes, _, -, hroot⟩ := hroot
  cases hroot
  subst hbytes
  exact hbounded _ hport

end

def CoderDecoder.Monotone (decodeCoder : CoderDecoder) : Prop :=
  ∀ coder inputs expected maximum maximum' output, maximum ≤ maximum' →
    (decodeCoder coder inputs expected maximum).granted = .ok output →
      (decodeCoder coder inputs expected maximum').granted = .ok output

theorem coderMaximum_mono {folder : Folder} {limits : Limits} {maximum maximum' : Nat}
    (hle : maximum ≤ maximum') (output : Nat) :
    coderMaximum folder limits maximum output ≤ coderMaximum folder limits maximum' output := by
  unfold coderMaximum
  by_cases hroot : output = folder.rootOutputIndex
  · rwa [if_pos hroot, if_pos hroot]
  · rw [if_neg hroot, if_neg hroot]

section

variable {decodeCoder : CoderDecoder} {limits : Limits} {maximum maximum' : Nat}
  (hmono : decodeCoder.Monotone) (hle : maximum ≤ maximum')
include hmono hle

theorem runCoders_mono {folder : Folder} (order : List Nat) {ports next : Ports}
    (h : (runCoders decodeCoder folder limits maximum order ports).granted = .ok next) :
    (runCoders decodeCoder folder limits maximum' order ports).granted = .ok next := by
  induction order generalizing ports with
  | nil => exact h
  | cons coderIndex order ih =>
    obtain ⟨ports', hstep, h⟩ := granted_bind_eq_ok.mp h
    refine granted_bind_eq_ok.mpr ⟨ports', ?_, ih h⟩
    simp only [runCoder, granted_bind_eq_ok] at hstep ⊢
    obtain ⟨_, hwork, coder, hcoder, _, hone, inputs, hinputs, expected, hexpected, output,
      houtput, hstore⟩ := hstep
    exact ⟨_, hwork, coder, hcoder, _, hone, inputs, hinputs, expected, hexpected, output,
      hmono _ _ _ _ _ _ (coderMaximum_mono hle _) houtput, hstore⟩

theorem decodeFolder_mono {archiveBytes : List UInt8} {streams : StreamsInfo} {folderIndex : Nat}
    {decoded : DecodedFolder}
    (h : (decodeFolder decodeCoder archiveBytes streams folderIndex limits maximum).granted =
      .ok decoded) :
    (decodeFolder decodeCoder archiveBytes streams folderIndex limits maximum').granted =
      .ok decoded := by
  simp only [decodeFolder, checkFolder, granted_bind_eq_ok, Prog.granted_lift_eq_ok,
    rejectIf_eq_ok] at h ⊢
  obtain ⟨folder, hfolder, _, ⟨_, hdictionary, rootSize, hroot, _, hsize, hregister⟩, inputCount,
    hinputs, outputCount, houtputs, destinations, hdestinations, inputs, hload, ports, hrun,
    hrest⟩ := h
  refine ⟨folder, hfolder, (), ⟨_, hdictionary, rootSize, hroot, (), ?_, hregister⟩, inputCount,
    hinputs, outputCount, houtputs, destinations, hdestinations, inputs, hload, ports,
    runCoders_mono hmono hle _ hrun, hrest⟩
  rintro ⟨size, hmem, hlt⟩
  exact hsize ⟨size, hmem, Nat.lt_of_le_of_lt hle hlt⟩

end

theorem runSingle_throw {coder : Coder} {inputs : List (List UInt8)} {output : List UInt8}
    {codec : List UInt8 → Metered (List UInt8)}
    (hcodec : ∀ input, (codec input).granted ≠ .ok output) :
    (runSingle coder inputs codec).granted ≠ .ok output := by
  intro h
  obtain ⟨_, h⟩ := granted_rest h
  obtain ⟨input, -, h⟩ := granted_bind_eq_ok.mp h
  exact hcodec input h

theorem granted_ite_ne {α : Type} {c : Prop} [Decidable c] {p q : Metered α}
    {result : Except Error α} (hp : p.granted ≠ result) (hq : q.granted ≠ result) :
    (if c then p else q).granted ≠ result := by
  split
  · exact hp
  · exact hq

theorem runMethod_copyOnly {coder : Coder} {inputs : List (List UInt8)} {expected : Option Nat}
    {maximum : Nat} {output : List UInt8}
    (h : (runMethod .copyOnly coder inputs expected maximum).granted = .ok output) :
    coder.methodId = methodCopy := by
  have hsingle : ∀ error : Error,
      (runSingle coder inputs fun _ => throw error).granted ≠ .ok output :=
    fun error => runSingle_throw fun _ hthrow => (nomatch hthrow)
  have hfilter : ∀ error : Error, (runSingle coder inputs fun input => (do
      checkLimit input.length maximum .totalOutputBytes
      throw error : Metered (List UInt8))).granted ≠ .ok output :=
    fun error => runSingle_throw fun input hthrow => by
      obtain ⟨_, hthrow⟩ := granted_rest hthrow
      exact (nomatch hthrow)
  have hfour : ∀ error : Error, (do
      validateArity coder 4 1
      throw error : Metered (List UInt8)).granted ≠ .ok output := by
    intro error hthrow
    obtain ⟨_, hthrow⟩ := granted_rest hthrow
    exact (nomatch hthrow)
  have hthrow : ∀ error : Error, (throw error : Metered (List UInt8)).granted ≠ .ok output :=
    fun error hok => by
      rw [Prog.granted_throw] at hok
      exact (nomatch hok)
  by_contra hcopy
  unfold runMethod at h
  rw [if_neg hcopy] at h
  exact granted_ite_ne (hsingle _) (granted_ite_ne (hsingle _) (granted_ite_ne (hsingle _)
    (granted_ite_ne (hfilter _) (granted_ite_ne (hfour _) (granted_ite_ne (hsingle _)
    (granted_ite_ne (hsingle _) (granted_ite_ne (hsingle _) (granted_ite_ne (hsingle _)
    (granted_ite_ne (hsingle _) (granted_ite_ne (hsingle _) (granted_ite_ne (hsingle _)
    (hthrow _)))))))))))) h

theorem decodeCoder_copyOnly_monotone : (decodeCoder .copyOnly).Monotone := by
  intro coder inputs expected maximum maximum' output hle h
  obtain ⟨_, hknown, h⟩ := granted_bind_eq_ok.mp h
  obtain ⟨bytes, hrun, h⟩ := granted_bind_eq_ok.mp h
  obtain ⟨_, hmaximum, h⟩ := granted_bind_eq_ok.mp h
  have hcopy := runMethod_copyOnly hrun
  have hmaximum := checkLimit_eq_ok.mp (Prog.granted_lift_eq_ok.mp hmaximum)
  refine granted_bind_eq_ok.mpr ⟨_, hknown, granted_bind_eq_ok.mpr ⟨bytes, ?_,
    granted_bind_eq_ok.mpr ⟨_, checkLimit_of_le (by omega) _, h⟩⟩⟩
  unfold runMethod at hrun ⊢
  rw [if_pos hcopy] at hrun ⊢
  simp only [granted_bind_eq_ok, Prog.granted_lift_eq_ok, checkLimit_eq_ok] at hrun ⊢
  obtain ⟨_, harity, _, hempty, input, hinput, _, hlength, hrun⟩ := hrun
  exact ⟨_, harity, _, hempty, input, hinput, (), by omega, hrun⟩

end Unpackio
