import Hanport.Logic.CastRange
import Hanport.Theorems.MeterToClient
import Hanport.Theorems.Payload

/-!
# The broker and the registers

The publisher and the Modbus server get the same object, but each says it in its own way:
one with two decimals, the other with the bits of a `float`, or for a power in thousandths
cut off. Behind a cycle whose messages are all delivered, what a subscriber holds for a
field can be told from what a client reads, or is six thousandths off and a rounding to
`float`.
-/

namespace Hanport.HpModbuss

open Lib Lib.Ascii Lib.Binary32 Lib.Strtof

/-! ## One power -/

/-- The product of a power is off by a relative `2^-24` at most. -/
theorem product_close {x : Binary32} (hx : x.isFinite = true)
    (hp : (x * ofInt 1000).isFinite = true) :
    |(x * ofInt 1000).value - 1000 * x.value| ≤ 1000 * |x.value| / 2 ^ 24 := by
  have hneg := neg_product hx
  have hunits : 2 ^ 24 * |((x * ofInt 1000).units : ℤ) - (x.units * 1000 : ℕ)| ≤
      (x.units * 1000 : ℕ) := by
    rw [mul_thousand hx] at hp ⊢
    obtain ⟨hlow, hhigh⟩ := units_close x.neg Nat.one_pos hp
    rw [Nat.mul_one, Nat.one_mul] at hlow hhigh
    rcases Nat.eq_zero_or_pos (roundExp (x.units * 1000) 1) with hzero | hpos
    · -- where the units are not rounded, the product is exact
      rw [units_exact x.neg hp (by rw [hzero, pow_zero]; exact Nat.one_dvd _)]
      simp
    · have hwide := binade_le Nat.one_pos hpos
      rw [Nat.mul_one, pow_add] at hwide
      rcases abs_cases (((ofUnits x.neg (x.units * 1000) 1).units : ℤ) - (x.units * 1000 : ℕ))
        with habs | habs <;> omega
  have hcast : 2 ^ 24 * |((x * ofInt 1000).units : ℚ) - 1000 * x.units| ≤ 1000 * x.units := by
    rw [Nat.mul_comm x.units] at hunits
    exact_mod_cast hunits
  have hsign : |(x * ofInt 1000).value - 1000 * x.value| =
        |((x * ofInt 1000).units : ℚ) - 1000 * x.units| / 2 ^ 149 ∧
      |x.value| = (x.units : ℚ) / 2 ^ 149 := by
    -- datum and product have the same sign
    have hscale : |(((x * ofInt 1000).units : ℚ) - 1000 * x.units) / 2 ^ 149| =
        |((x * ofInt 1000).units : ℚ) - 1000 * x.units| / 2 ^ 149 := by
      rw [abs_div, abs_of_pos (show (0 : ℚ) < 2 ^ 149 by positivity)]
    have hpos : (0 : ℚ) ≤ (x.units : ℚ) / 2 ^ 149 := by positivity
    rw [← hscale]
    cases h : x.neg with
    | false =>
        rw [value_of_not_neg (hneg.trans h), value_of_not_neg h]
        exact ⟨by congr 1; ring, abs_of_nonneg hpos⟩
    | true =>
        rw [value_of_neg (hneg.trans h), value_of_neg h, abs_neg]
        exact ⟨by rw [← abs_neg]; congr 1; ring, abs_of_nonneg hpos⟩
  have hcancel : 1000 * ((x.units : ℚ) / 2 ^ 149) / 2 ^ 24 * 2 ^ 149 = 1000 * x.units / 2 ^ 24 := by
    ring
  rw [hsign.1, hsign.2, div_le_iff₀ (by positivity), hcancel, le_div_iff₀ (by positivity),
    mul_comm]
  exact hcast

/-- What a truncation cuts off. -/
theorem abs_sub_lt_of_truncates {q : ℚ} {n : ℤ} (h : Truncates q n) : |q - n| < 1 := by
  obtain ⟨hsign, hle, hlt⟩ := h
  rcases abs_cases q with hq | hq <;> rcases abs_cases (n : ℚ) with hn | hn <;>
    rw [abs_lt] <;> constructor <;> nlinarith

/-- A text with two decimals and an `int` of thousandths say the same of a power: they are
six thousandths apart at most, and a rounding to `float`. -/
def SamePower (payload : String) (i : BitVec 32) : Prop :=
  ∃ neg N, IsNumeral (ascii payload) neg N 2 ∧
    (|numeralValue neg N 2| ≤ 2147483.49 →
      |numeralValue neg N 2 - i.toInt / 1000| ≤
        6 / 1000 + (|numeralValue neg N 2| + 1 / 200) / 2 ^ 24)

theorem samePower_of_isFinite (wild : Binary32 → BitVec 32) {x : Binary32}
    (hx : x.isFinite = true) : SamePower x.fixed2 (thousandfold wild x) := by
  refine ⟨_, _, isNumeral_fixed2 hx, fun hbound => ?_⟩
  have hprinted := fixed2_near x
  generalize numeralValue x.neg x.hundredths 2 = q at hbound hprinted ⊢
  -- a text that is small enough is that of a power whose cast is defined
  have hcast : CastDefined x := by
    rw [castDefined_iff]
    rw [abs_le] at hbound hprinted
    exact ⟨hx, by linarith [hbound.1, hprinted.1], by linarith [hbound.2, hprinted.2]⟩
  have hcut := abs_sub_lt_of_truncates (truncates_thousandfold wild hcast)
  have hproduct := product_close hx hcast.finite
  have hvalue : |x.value| ≤ |q| + 1 / 200 := by
    have htriangle := abs_add_le (x.value - q) q
    rw [sub_add_cancel] at htriangle
    linarith
  have hrounding : 1000 * |x.value| / 2 ^ 24 ≤ 1000 * ((|q| + 1 / 200) / 2 ^ 24) := by
    rw [mul_div_assoc]
    gcongr
  generalize (|q| + 1 / 200) / 2 ^ 24 = e at hrounding ⊢
  rw [abs_le] at hprinted hproduct ⊢
  rw [abs_lt] at hcut
  constructor <;> linarith [hprinted.1, hprinted.2, hproduct.1, hproduct.2, hcut.1, hcut.2]

end Hanport.HpModbuss

namespace Hanport.Main

open Lib Lib.Ascii Lib.Strtof HpModbuss HpMqttPub

/-! ## Behind the last cycle that publishes -/

/-- Rejected messages hand nothing over. -/
theorem handed_rejected (env : Env) (s : State) {cycles : List Cycle}
    (h : ∀ c ∈ cycles, Rejected c.message) : (run env s cycles).2.filterMap handed = [] := by
  unfold run
  induction cycles generalizing s with
  | nil => rfl
  | cons c cycles ih =>
      obtain ⟨hc, hcycles⟩ := List.forall_mem_cons.mp h
      obtain ⟨events, hit, hnone⟩ := iteration_of_rejected env s hc
      rw [Reactive.run, List.filterMap_append, hit, hnone, ih _ hcycles, List.append_nil]

theorem lastHanded_run (env : Env) (port : BitVec 32) (startEnv : StartEnv) (before : List Cycle)
    {c : Cycle} {later : List Cycle} (hc : ¬ Rejected c.message)
    (hlater : ∀ c' ∈ later, Rejected c'.message) :
    lastHanded .modbus ((boot env port startEnv).2 ++
        (run env (boot env port startEnv).1 (before ++ c :: later)).2) =
      some (received env (run env (boot env port startEnv).1 before).1 c.message) := by
  obtain ⟨events, hit, hhanded⟩ :=
    iteration_of_not_rejected env (run env (boot env port startEnv).1 before).1 hc
  have hsilent := handed_rejected env
    (iteration env (run env (boot env port startEnv).1 before).1 c).1 hlater
  unfold run at hit hhanded hsilent ⊢
  unfold lastHanded
  rw [Reactive.run_append, Reactive.run, List.filterMap_append, List.filterMap_append,
    List.filterMap_append, hsilent, hit, hhanded, List.append_nil, Store.lastWrite_append,
    Store.lastWrite_append]
  rfl

theorem cycleDeliveries_append (env : Env) (s : State) (cycles later : List Cycle) :
    cycleDeliveries env s (cycles ++ later) =
      cycleDeliveries env s cycles ++ cycleDeliveries env (run env s cycles).1 later := by
  unfold run
  induction cycles generalizing s with
  | nil => rfl
  | cons c cycles ih =>
      rw [List.cons_append, cycleDeliveries, ih]
      rfl

/-- Rejected messages deliver nothing. -/
theorem cycleDeliveries_rejected (env : Env) (s : State) {cycles : List Cycle}
    (h : ∀ c ∈ cycles, Rejected c.message) : (cycleDeliveries env s cycles).flatten = [] := by
  induction cycles generalizing s with
  | nil => rfl
  | cons c cycles ih =>
      obtain ⟨hc, hcycles⟩ := List.forall_mem_cons.mp h
      rw [cycleDeliveries, List.flatten_cons, ih _ hcycles, deliveries_iteration, if_pos hc]
      rfl

/-- A subscriber holds what that cycle has delivered. -/
theorem holds_run (env : Env) (s : State) (before : List Cycle) {c : Cycle} {later : List Cycle}
    (hc : ¬ Rejected c.message) (hlater : ∀ c' ∈ later, Rejected c'.message) {i : ℕ} {m : Message}
    (hsent : c.attempts i = .delivered)
    (hm : (allMessages env (received env (run env s before).1 c.message))[i]? = some m) :
    holds env s (before ++ c :: later) m.topic = some m.payload := by
  obtain ⟨events, hit, -⟩ := iteration_of_not_rejected env (run env s before).1 hc
  have hdelivered : (iteration env (run env s before).1 c).2.flatMap (deliveries c.attempts) =
      deliveredOf c.attempts (allMessages env (received env (run env s before).1 c.message)) := by
    rw [deliveries_iteration, if_neg hc, hit]
    rfl
  have hlast := (lastWrite_delivered_iff (topics_nodup env _) c.attempts m.topic m.payload).mpr
    ⟨i, m, hm, hsent, rfl, rfl⟩
  unfold holds
  rw [cycleDeliveries_append, cycleDeliveries, List.flatten_append, List.flatten_cons,
    cycleDeliveries_rejected env _ hlater, List.append_nil, hdelivered]
  unfold topicWrites at hlast ⊢
  rw [List.map_append, Store.lastWrite_append, hlast, Option.some_or]

/-- The text of a field that a subscriber holds and the pair of registers that a client
reads for it. -/
def Agrees (f : Field) (payload : String) (i : BitVec 32) : Prop :=
  if f ∈ Field.powers then payload ∈ words ∨ SamePower payload i
  else payload = Binary32.fixed2 ⟨i⟩

theorem agrees_image (wild : Binary32 → BitVec 32) (d : HpData) (f : Field) :
    Agrees f (d.get f).fixed2 (imageValue wild d f) := by
  unfold Agrees imageValue
  split_ifs with hf
  · cases hx : (d.get f).isFinite with
    | false => exact .inl (fixed2_mem_words hx)
    | true => exact .inr (samePower_of_isFinite wild hx)
  · rfl

/-- **The broker and the registers agree.** Where the server got its table and no client
writes to it: behind a cycle whose messages were all delivered, and any rejected messages
after it, a subscriber's `/timestamp` is the count that a client reads, converted to
`float`, with two decimals; and for each field the subscriber's text is that of the `float`
that the client reads, or, for a power whose thousandfold fits an `int`, within six
thousandths and a rounding of what it reads. Whatever failed before does not matter. -/
theorem outputs_agree (env : Env) (port : BitVec 32) {startEnv : StartEnv}
    (hthread : startEnv.ReachesThread) (before : List Cycle) {c : Cycle} {later : List Cycle}
    (hc : ¬ Rejected c.message) (hsent : ∀ i < 27, c.attempts i = .delivered)
    (hlater : ∀ c' ∈ later, Rejected c'.message) :
    ∃ tab values, ∃ count : BitVec 32,
      (run env (boot env port startEnv).1 (before ++ c :: later)).1.modbusServer.mbMapping =
        some tab ∧
      decodePairs (reply { tab := tab } 0 imageSize) = count :: values ∧
      holds env (boot env port startEnv).1 (before ++ c :: later)
        (env.site ++ "/" ++ env.deviceId ++ "/timestamp") =
          some (Binary32.ofInt count.toInt).fixed2 ∧
      ∀ f, ∃ payload i, values[Field.all.idxOf f]? = some i ∧
        holds env (boot env port startEnv).1 (before ++ c :: later)
          (env.site ++ "/" ++ env.deviceId ++ fieldTopic f) = some payload ∧
        Agrees f payload i := by
  obtain ⟨d, hd, hserves⟩ := serves_run env port startEnv (before ++ c :: later)
  rw [lastHanded_run env port startEnv before hc hlater, Option.some.injEq] at hd
  obtain ⟨tab, htab⟩ := Option.isSome_iff_exists.mp (hserves.served.mpr hthread)
  have hpairs := decodePairs_makeRegs env.wild d
  rw [← reply_of_serves hserves htab] at hpairs
  -- every field of the object is below its topic
  have hheld : ∀ {i : ℕ} {topic : String} {value : Binary32},
      (individualFields d)[i]? = some (topic, value) →
        holds env (boot env port startEnv).1 (before ++ c :: later)
          (env.site ++ "/" ++ env.deviceId ++ topic) = some value.fixed2 := by
    intro i topic value hfield
    have hi : i < 27 := (List.getElem?_eq_some_iff.mp hfield).1
    have hm := getElem?_allMessages env hfield
    rw [← hd] at hm
    exact holds_run env _ before hc hlater (hsent i hi) hm
  refine ⟨tab, _, _, htab, hpairs, hheld (i := 0) rfl, fun f => ?_⟩
  obtain ⟨i, hi⟩ := List.mem_iff_getElem?.mp (mem_individualFields d f)
  refine ⟨_, imageValue env.wild d f, ?_, hheld hi, agrees_image env.wild d f⟩
  rw [List.getElem?_map, List.getElem?_idxOf (Field.mem_all f), Option.map_some]

/-- A voltage of 230.4 V and a power of 1.727 kW. -/
def voltageAndPower : List Reading :=
  [⟨.l1VoltageRms, ascii "230.4", Binary32.ofUnits false (2304 * 2 ^ 149) (10 ^ 1)⟩,
    ⟨.activePowerImport, ascii "1.727", Binary32.ofUnits false (1727 * 2 ^ 149) (10 ^ 3)⟩]

theorem sendable_voltageAndPower : ∀ r ∈ voltageAndPower, r.Sendable bgsLokal.stof := by
  have hpower : IsNumeral (ascii "1.727") false 1727 3 :=
    .pointed .none (List.all_eq_true.mp rfl : ∀ b ∈ ascii "1", isDecDigit b = true) (by decide)
      (List.all_eq_true.mp rfl : ∀ b ∈ ascii "727", isDecDigit b = true) (by decide)
  have hvolts : InFloatRange 2304 1 := by decide
  have hwatts : InFloatRange 1727 3 := by decide
  unfold voltageAndPower
  rw [List.forall_mem_cons, List.forall_mem_singleton]
  constructor
  · refine ⟨by unfold IsTelegramLine; decide, by decide, by decide, by decide, ?_⟩
    simp only [bgsLokal]
    rw [stof_of_isNumeral isNumeral_voltage, if_pos hvolts]
  · refine ⟨by unfold IsTelegramLine; decide, by decide, by decide, by decide, ?_⟩
    simp only [bgsLokal]
    rw [stof_of_isNumeral hpower, if_pos hwatts]

/-- The telegram, between a cycle that finds no connection and a frame that does not pass. -/
def threeCycles : List Cycle :=
  [⟨ascii "/!28DC", fun _ => .notConnected⟩] ++ ⟨telegram voltageAndPower, fun _ => .delivered⟩ ::
    [⟨ascii "/a!0000", fun _ => .delivered⟩]

theorem outputs_agree_telegram :
    ∃ tab values, ∃ count : BitVec 32,
      (run bgsLokal (boot bgsLokal 502 ⟨true, true, 3, none⟩).1
        threeCycles).1.modbusServer.mbMapping = some tab ∧
      decodePairs (reply { tab := tab } 0 imageSize) = count :: values ∧
      holds bgsLokal (boot bgsLokal 502 ⟨true, true, 3, none⟩).1 threeCycles
        ("bgs-lokal" ++ "/" ++ "meter1" ++ "/timestamp") =
          some (Binary32.ofInt count.toInt).fixed2 ∧
      ∀ f, ∃ payload i, values[Field.all.idxOf f]? = some i ∧
        holds bgsLokal (boot bgsLokal 502 ⟨true, true, 3, none⟩).1 threeCycles
          ("bgs-lokal" ++ "/" ++ "meter1" ++ fieldTopic f) = some payload ∧
        Agrees f payload i := by
  have hkept := not_rejected_readings bgsLokal sendable_voltageAndPower
  have hlater : ∀ c ∈ [(⟨ascii "/a!0000", fun _ => .delivered⟩ : Cycle)], Rejected c.message := by
    rw [List.forall_mem_singleton]
    decide +kernel
  have hthread : StartEnv.ReachesThread ⟨true, true, 3, none⟩ := ⟨rfl, rfl, by decide⟩
  unfold threeCycles
  exact outputs_agree bgsLokal 502 hthread [⟨ascii "/!28DC", fun _ => .notConnected⟩]
    (c := ⟨telegram voltageAndPower, fun _ => .delivered⟩) hkept (fun _ _ => rfl) hlater

end Hanport.Main
