import Hanport.Theorems.Registers

/-!
# The map of registers over any history

The map holds what was last written to exactly an address, unless the values of a
bulk write that pass address 65535 wrap round onto an address that should hold
something else.
-/

namespace Hanport.HpModbuss

open Lib Lib.Store

/-- The writes of a bulk write from index `i` on that stay at addresses up to
65535. -/
def exactWrites (address : BitVec 16) : ℕ → List Word → List (BitVec 16 × Word)
  | _, [] => []
  | i, value :: values =>
      if address.toNat + i ≤ 65535 then
        (BitVec.ofNat 16 (address.toNat + i), value) :: exactWrites address (i + 1) values
      else exactWrites address (i + 1) values

/-- The values that wrap round onto an address are what it would hold anyway. -/
def WrapsUnseen (registers : BitVec 16 → Option Word) (address : BitVec 16)
    (values : List Word) : Prop :=
  ∀ a v, lastWrite (wrappedWrites address values) a = some v →
    (lastWrite (exactWrites address 0 values) a).or (registers a) = some v

section Calls

variable (wild : Binary32 → BitVec 32) (port : BitVec 16)

/-- The writes that a call is to make. -/
def writesOf : Call → List (BitVec 16 × Word)
  | .start _ => []
  | .stop => []
  | .setHoldingRegister address value => [(address, value)]
  | .setHoldingRegisters address values => exactWrites address 0 values
  | .setFromHpData d startAddress => exactWrites startAddress 0 (makeRegs wild d)

/-- The server object after a list of calls. -/
def after (calls : List Call) : Impl := calls.foldl (call wild) { port := port }

/-- `get_holding_register` returns the value last written to exactly the address,
and throws iff nothing was written to it. -/
def Faithful (calls : List Call) : Prop :=
  ∀ a, (∀ v, getHoldingRegister (after wild port calls) a = .ok v ↔
      lastWrite (calls.flatMap (writesOf wild)) a = some v) ∧
    (getHoldingRegister (after wild port calls) a = .error "register not set" ↔
      ∀ w ∈ calls.flatMap (writesOf wild), w.1 ≠ a)

/-- Bulk writes wrap unseen. -/
def GoodWrite (s : Impl) : Call → Prop
  | .setHoldingRegisters address values => WrapsUnseen s.registers address values
  | .setFromHpData d startAddress => WrapsUnseen s.registers startAddress (makeRegs wild d)
  | _ => True

end Calls

/-! ## The map as a list of writes -/

theorem writeAll_apply (ws : List (BitVec 16 × Word)) (registers : BitVec 16 → Option Word)
    (a : BitVec 16) : keyStore.writeAll ws registers a = (lastWrite ws a).or (registers a) := by
  induction ws generalizing registers with
  | nil => rfl
  | cons w ws ih =>
      rw [writeAll_cons, ih, lastWrite_cons, Option.or_assoc]
      congr 1
      show Function.update registers w.1 (some w.2) a = _
      rw [Function.update_apply]
      by_cases h : w.1 = a
      · rw [if_pos h.symm, if_pos h, Option.some_or]
      · rw [if_neg (Ne.symm h), if_neg h, Option.none_or]

theorem exactWrites_eq_keyWrites {address : BitVec 16} {i : ℕ} {values : List Word}
    (h : address.toNat + i + values.length ≤ 2 ^ 16) :
    exactWrites address i values = keyWrites address i values := by
  induction values generalizing i with
  | nil => rfl
  | cons value values ih =>
      rw [List.length_cons] at h
      rw [exactWrites, keyWrites, if_pos (by omega), ih (by omega)]

theorem exactWrites_past {address : BitVec 16} {i : ℕ} (h : 2 ^ 16 ≤ address.toNat + i)
    (values : List Word) : exactWrites address i values = [] := by
  induction values generalizing i with
  | nil => rfl
  | cons value values ih =>
      rw [exactWrites, if_neg (by omega)]
      exact ih (by omega)

theorem exactWrites_append (address : BitVec 16) (i : ℕ) (xs ys : List Word) :
    exactWrites address i (xs ++ ys) =
      exactWrites address i xs ++ exactWrites address (i + xs.length) ys := by
  induction xs generalizing i with
  | nil => rfl
  | cons x xs ih =>
      rw [List.cons_append, exactWrites, ih, exactWrites, List.length_cons, Nat.add_right_comm,
        Nat.add_assoc]
      split <;> rfl

/-- A bulk write makes its exact writes, then the wrapped ones. -/
theorem keyWrites_split (address : BitVec 16) (values : List Word) :
    keyWrites address 0 values = exactWrites address 0 values ++ wrappedWrites address values := by
  by_cases hlen : values.length ≤ directCount address
  · unfold wrappedWrites
    rw [List.drop_eq_nil_of_le hlen]
    unfold directCount at hlen
    rw [exactWrites_eq_keyWrites (by omega)]
    exact (List.append_nil _).symm
  · have hfull : (values.take (directCount address)).length = directCount address :=
      List.length_take_of_le (by omega)
    have hpast : exactWrites address (0 + directCount address)
        (values.drop (directCount address)) = [] :=
      exactWrites_past (by unfold directCount; omega) _
    have hexact : exactWrites address 0 values =
        keyWrites address 0 (values.take (directCount address)) := by
      conv_lhs => rw [← List.take_append_drop (directCount address) values]
      rw [exactWrites_append, hfull, hpast, List.append_nil,
        exactWrites_eq_keyWrites (by rw [hfull]; unfold directCount; omega)]
    rw [hexact]
    unfold wrappedWrites
    conv_lhs => rw [← List.take_append_drop (directCount address) values]
    rw [keyWrites_append, hfull, Nat.zero_add]

/-! ## One call -/

/-- The map holds exactly the last writes of a list. -/
def Holding (registers : BitVec 16 → Option Word) (ws : List (BitVec 16 × Word)) : Prop :=
  ∀ a, registers a = lastWrite ws a

theorem faithful_iff (wild : Binary32 → BitVec 32) (port : BitVec 16) (calls : List Call) :
    Faithful wild port calls ↔
      Holding (after wild port calls).registers (calls.flatMap (writesOf wild)) := by
  unfold Faithful Holding getHoldingRegister
  refine forall_congr' fun a => ?_
  rw [← lastWrite_eq_none_iff]
  cases (after wild port calls).registers a with
  | none =>
      cases lastWrite (calls.flatMap (writesOf wild)) a <;> simp
  | some v =>
      cases lastWrite (calls.flatMap (writesOf wild)) a with
      | none => simp
      | some u => simp [eq_comm]

theorem start_registers (s : Impl) (env : StartEnv) :
    (start s env).1.registers = s.registers := by
  unfold start
  dsimp only
  repeat' split
  all_goals rfl

theorem stop_registers (s : Impl) : (stop s).registers = s.registers := by
  unfold stop stopClose
  repeat' split
  all_goals rfl

/-- A bulk write keeps the map faithful iff it wraps unseen. -/
theorem holding_setHoldingRegisters_iff {s : Impl} {ws : List (BitVec 16 × Word)}
    (h : Holding s.registers ws) (address : BitVec 16) (values : List Word) :
    Holding (setHoldingRegisters s address values).registers
        (ws ++ exactWrites address 0 values) ↔
      WrapsUnseen s.registers address values := by
  unfold setHoldingRegisters
  rw [storeRegisters_eq]
  refine forall_congr' fun a => ?_
  show keyStore.writeAll (keyWrites address 0 values) s.registers a = _ ↔ _
  rw [writeAll_apply, keyWrites_split, lastWrite_append, lastWrite_append, Option.or_assoc, ← h a]
  cases lastWrite (wrappedWrites address values) a with
  | none => simp
  | some v =>
      rw [Option.some_or]
      simp [eq_comm]

theorem holding_call_iff (wild : Binary32 → BitVec 32) {s : Impl}
    {ws : List (BitVec 16 × Word)} (h : Holding s.registers ws) (c : Call) :
    Holding (call wild s c).registers (ws ++ writesOf wild c) ↔ GoodWrite wild s c := by
  cases c with
  | start env =>
      refine ⟨fun _ => trivial, fun _ => ?_⟩
      show Holding (start s env).1.registers (ws ++ [])
      rw [start_registers, List.append_nil]
      exact h
  | stop =>
      refine ⟨fun _ => trivial, fun _ => ?_⟩
      show Holding (stop s).registers (ws ++ [])
      rw [stop_registers, List.append_nil]
      exact h
  | setHoldingRegister address value =>
      refine ⟨fun _ => trivial, fun _ => ?_⟩
      have hexact : exactWrites address 0 [value] = [(address, value)] := by
        rw [exactWrites, if_pos (by omega), Nat.add_zero, BitVec.ofNat_toNat, BitVec.setWidth_eq,
          exactWrites]
      show Holding (setHoldingRegister s address value).registers (ws ++ [(address, value)])
      rw [setHoldingRegister_eq, ← hexact, holding_setHoldingRegisters_iff h]
      intro a v hv
      have hnone : wrappedWrites address [value] = [] := by
        unfold wrappedWrites directCount
        rw [List.drop_eq_nil_of_le (by rw [List.length_singleton]; omega)]
        rfl
      rw [hnone] at hv
      cases hv
  | setHoldingRegisters address values => exact holding_setHoldingRegisters_iff h address values
  | setFromHpData d startAddress =>
      exact holding_setHoldingRegisters_iff h startAddress (makeRegs wild d)

/-- **The map is faithful after every call iff every bulk write wraps unseen.** -/
theorem register_store_faithful_iff (wild : Binary32 → BitVec 32) (port : BitVec 16)
    (calls : List Call) :
    (∀ n, Faithful wild port (calls.take n)) ↔
      ∀ n c, calls[n]? = some c → GoodWrite wild (after wild port (calls.take n)) c := by
  refine Lts.forall_take_iff (G := fun ls c => GoodWrite wild (after wild port ls) c)
    ((faithful_iff wild port []).mpr fun a => rfl) (fun ls c h => ?_) calls
  rw [faithful_iff] at h ⊢
  have hafter : after wild port (ls ++ [c]) = call wild (after wild port ls) c :=
    List.foldl_concat _ _ _ _
  rw [hafter, List.flatMap_append, List.flatMap_singleton]
  exact holding_call_iff wild h c

/-- Two values from address 65535 on: the second one is found at address 0. -/
theorem register_store_wraps :
    ¬ ∀ calls, Faithful (fun _ => 0#32) 502#16 calls := by
  intro hall
  have hget := ((hall [.setHoldingRegisters 65535#16 [1#16, 2#16]]) 0#16).2.mpr
    (by simp [writesOf, exactWrites])
  simp [after, call, setHoldingRegisters, storeRegisters, storeRegister, setRegister,
    getHoldingRegister] at hget

end Hanport.HpModbuss
