import Hanport.Logic.CastRange
import Hanport.Logic.ImageValues
import Hanport.Logic.MainLoop

/-!
# Readings out of the range of `int`

Neither the parser nor `make_regs` bounds a reading: whatever `std::stof` accepts is
kept in the data object, times 1000 and cast. After any run the cast of a power is
defined iff its last reading, if there is one, is a finite number from -2147483.75 to
2147483.5, and a defined cast is the thousandfold without its fraction.
-/

namespace Hanport.Main

open Lib Lib.Ascii Lib.Binary32 HpModbuss HanportMessageValidator

/-- The data object that the loop has made of the initial one. -/
def dataAfter (env : Env) (port : BitVec 32) (startEnv : StartEnv) (cycles : List Cycle) : HpData :=
  (run env (boot env port startEnv).1 cycles).1.dataObj

/-- A field holds its last reading, and 0 before the first one. -/
theorem get_dataAfter (env : Env) (port : BitVec 32) (startEnv : StartEnv) (cycles : List Cycle)
    (f : Field) :
    (dataAfter env port startEnv cycles).get f =
      (Store.lastWrite (runWrites env cycles) f).getD 0 := by
  have hinit : ({} : HpData).get f = 0 := by cases f <;> rfl
  unfold dataAfter
  rw [get_run, dataObj_boot, hinit]

theorem inCastRange_zero : InCastRange 0 :=
  ⟨by decide, by decide +kernel, by decide +kernel⟩

/-- **The casts of the powers.** In every environment, after every sequence of
messages from the initial data object, for each of the sixteen powers: the cast is
defined iff the last reading stored in the field is in the range, and then the
registers of the field hold the thousandfold, truncated, with its sign and its
magnitude. -/
theorem powers_cast_iff (env : Env) (port : BitVec 32) (startEnv : StartEnv) (cycles : List Cycle)
    {f : Field} (hf : f ∈ Field.powers) :
    (CastDefined ((dataAfter env port startEnv cycles).get f) ↔
      ∀ v, Store.lastWrite (runWrites env cycles) f = some v → InCastRange v) ∧
    ∃ i, (decodePairs (makeRegs env.wild (dataAfter env port startEnv cycles)))[
        Field.all.idxOf f + 1]? = some i ∧
      (CastDefined ((dataAfter env port startEnv cycles).get f) →
        Truncates ((dataAfter env port startEnv cycles).get f * ofInt 1000).value i.toInt) := by
  refine ⟨?_, _, decodePairs_power env.wild _ hf, truncates_thousandfold env.wild⟩
  rw [castDefined_iff, get_dataAfter]
  cases Store.lastWrite (runWrites env cycles) f with
  | none => simp [inCastRange_zero]
  | some v => simp

/-- The least reading in the range, -2147483.75 kW. -/
theorem powers_cast_least :
    CastDefined ((dataAfter bgsLokal 502 ⟨true, true, 3, none⟩
      [{ message := ascii "/\n1-0:1.7.0(-2147483.75*kW)\n!0CCD" }]).get .activePowerImport) := by
  refine (powers_cast_iff bgsLokal 502 ⟨true, true, 3, none⟩
    [{ message := ascii "/\n1-0:1.7.0(-2147483.75*kW)\n!0CCD" }] (by decide)).1.mpr ?_
  intro v hv
  have hlast : Store.lastWrite (runWrites bgsLokal
      [{ message := ascii "/\n1-0:1.7.0(-2147483.75*kW)\n!0CCD" }]) .activePowerImport =
      some ⟨0xCA03126F#32⟩ := by
    decide +kernel
  rw [hlast, Option.some_inj] at hv
  subst hv
  exact ⟨by decide, by decide +kernel, by decide +kernel⟩

/-- A valid frame with a reading of 3000000 kW: three billion watts do not fit an
`int`. -/
theorem power_cast_undefined :
    ¬ ∀ cycles : List Cycle, (∀ c ∈ cycles, Passes c.message) → ∀ f ∈ Field.powers,
      CastDefined ((dataAfter bgsLokal 502 ⟨true, true, 3, none⟩ cycles).get f) := by
  intro hall
  have hpasses : ∀ c ∈ [({ message := ascii "/\n1-0:1.7.0(3000000*kW)\n!9238" } : Cycle)],
      Passes c.message := by
    intro c hc
    rw [List.mem_singleton] at hc
    subst hc
    decide +kernel
  have hcast := hall _ hpasses .activePowerImport (by decide)
  have hlast : Store.lastWrite (runWrites bgsLokal
      [{ message := ascii "/\n1-0:1.7.0(3000000*kW)\n!9238" }]) .activePowerImport =
      some (ofInt 3000000) := by
    decide +kernel
  rw [castDefined_iff, get_dataAfter, hlast] at hcast
  have hlarge : ¬ (ofInt 3000000).value ≤ 2147483.5 := by decide +kernel
  exact hlarge hcast.upper

end Hanport.Main
