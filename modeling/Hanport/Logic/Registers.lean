import Hanport.Logic.Lifecycle

/-!
# The map and the table as stores

The key of the map is `address + i` as a `uint16_t`, the index of the table is
`address + i` and is written below 1000 only. A bulk write is a list of writes to
each of the two stores (`storeRegisters_eq`); they differ in the writes that pass
address 65535, which wrap round in the map alone (`lastWrite_keyWrites`).
-/

namespace Hanport.HpModbuss

open Lib Lib.Store

/-- The value of the map at an address; an absent key counts as 0. -/
def regAt (registers : BitVec 16 → Option Word) (key : BitVec 16) : Word :=
  (registers key).getD 0#16

/-- The map as a store. -/
def keyStore : Store (BitVec 16) Word (BitVec 16 → Option Word) where
  get := regAt
  set := setRegister
  get_set := by
    intro registers key value key'
    unfold regAt setRegister
    by_cases h : key' = key
    · rw [if_pos h, h, Function.update_self]
      rfl
    · rw [if_neg h, Function.update_of_ne h]

/-- The table as a store. -/
def tabStore : Store (Fin nbReg) Word Tab where
  get tab k := tab.get k
  set tab k value := tab.set k.val value k.isLt
  get_set := by
    intro tab k value k'
    show (tab.set k.val value k.isLt)[k'.val] = if k' = k then value else tab[k'.val]
    rw [Vector.getElem_set]
    by_cases h : k' = k
    · rw [if_pos h, if_pos (congrArg Fin.val h).symm]
    · rw [if_neg h, if_neg fun he => h (Fin.ext he.symm)]

/-- The address below 1000 of an index of the table. -/
def tabKey (k : Fin nbReg) : BitVec 16 := BitVec.ofNat 16 k.val

/-! ## A bulk write as two lists of writes -/

/-- The writes to the map of the loop from index `i`. -/
def keyWrites (address : BitVec 16) : ℕ → List Word → List (BitVec 16 × Word)
  | _, [] => []
  | i, value :: values =>
      (BitVec.ofNat 16 (address.toNat + i), value) :: keyWrites address (i + 1) values

/-- The writes to the table of the loop from index `i`. -/
def tabWrites (address : BitVec 16) : ℕ → List Word → List (Fin nbReg × Word)
  | _, [] => []
  | i, value :: values =>
      if h : address.toNat + i < nbReg then
        (⟨address.toNat + i, h⟩, value) :: tabWrites address (i + 1) values
      else tabWrites address (i + 1) values

theorem setTab_of_lt {tab : Tab} {i : ℕ} (h : i < nbReg) (value : Word) :
    setTab tab i value = tabStore.set tab ⟨i, h⟩ value := by
  unfold setTab
  rw [dif_pos h]
  rfl

theorem setTab_of_not_lt {tab : Tab} {i : ℕ} (h : ¬ i < nbReg) (value : Word) :
    setTab tab i value = tab := by
  unfold setTab
  rw [dif_neg h]

/-- **The loop is its two lists of writes.** -/
theorem storeRegisters_eq (s : Impl) (address : BitVec 16) (i : ℕ) (values : List Word) :
    storeRegisters s address i values =
      { s with
        registers := keyStore.writeAll (keyWrites address i values) s.registers
        mbMapping := s.mbMapping.map (tabStore.writeAll (tabWrites address i values)) } := by
  induction values generalizing s i with
  | nil =>
      unfold storeRegisters keyWrites tabWrites
      cases s with
      | mk port thread running ctx mapping socket registers => cases mapping <;> rfl
  | cons value values ih =>
      rw [storeRegisters, ih, keyWrites, tabWrites, Store.writeAll_cons]
      unfold storeRegister
      dsimp only
      rw [Option.map_map]
      by_cases h : address.toNat + i < nbReg
      · rw [dif_pos h]
        congr 2
        funext tab
        rw [Function.comp_apply, setTab_of_lt h]
        rfl
      · rw [dif_neg h]
        congr 2
        funext tab
        rw [Function.comp_apply, setTab_of_not_lt h]

theorem keyWrites_append (address : BitVec 16) (i : ℕ) (xs ys : List Word) :
    keyWrites address i (xs ++ ys) =
      keyWrites address i xs ++ keyWrites address (i + xs.length) ys := by
  induction xs generalizing i with
  | nil => rfl
  | cons x xs ih =>
      rw [List.cons_append, keyWrites, ih, keyWrites, List.cons_append, List.length_cons,
        Nat.add_right_comm, Nat.add_assoc]

theorem tabWrites_append (address : BitVec 16) (i : ℕ) (xs ys : List Word) :
    tabWrites address i (xs ++ ys) =
      tabWrites address i xs ++ tabWrites address (i + xs.length) ys := by
  induction xs generalizing i with
  | nil => rfl
  | cons x xs ih =>
      rw [List.cons_append, tabWrites, ih, tabWrites, List.length_cons, Nat.add_right_comm,
        Nat.add_assoc]
      split <;> rfl

/-- Past the table nothing is written to it. -/
theorem tabWrites_past {address : BitVec 16} {i : ℕ} (h : nbReg ≤ address.toNat + i)
    (values : List Word) : tabWrites address i values = [] := by
  induction values generalizing i with
  | nil => rfl
  | cons value values ih =>
      rw [tabWrites, dif_neg (by omega)]
      exact ih (by omega)

/-- Addresses below `2^16` are distinct keys. -/
theorem key_eq_iff {n m : ℕ} (hn : n < 2 ^ 16) (hm : m < 2 ^ 16) :
    BitVec.ofNat 16 n = BitVec.ofNat 16 m ↔ n = m := by
  rw [← BitVec.toNat_inj, BitVec.toNat_ofNat, BitVec.toNat_ofNat, Nat.mod_eq_of_lt hn,
    Nat.mod_eq_of_lt hm]

/-- Below address 65536 the two lists write the same values to an address below
1000. -/
theorem lastWrite_direct (address : BitVec 16) (i : ℕ) (values : List Word)
    (h : address.toNat + i + values.length ≤ 2 ^ 16) (k : Fin nbReg) :
    lastWrite (keyWrites address i values) (tabKey k) =
      lastWrite (tabWrites address i values) k := by
  have hk : k.val < 2 ^ 16 := Nat.lt_trans k.isLt (by decide)
  induction values generalizing i with
  | nil => rfl
  | cons value values ih =>
      rw [List.length_cons] at h
      have hkey : BitVec.ofNat 16 (address.toNat + i) = tabKey k ↔ address.toNat + i = k.val :=
        key_eq_iff (by omega) hk
      rw [keyWrites, tabWrites, lastWrite_cons, ih (i + 1) (by omega)]
      by_cases hlt : address.toNat + i < nbReg
      · rw [dif_pos hlt, lastWrite_cons]
        simp only [hkey, Fin.ext_iff]
      · have hne : ¬ BitVec.ofNat 16 (address.toNat + i) = tabKey k := by
          rw [hkey]
          omega
        rw [dif_neg hlt, if_neg hne, Option.or_none]

/-- The number of values of a bulk write that stay below address 65536. -/
def directCount (address : BitVec 16) : ℕ := 2 ^ 16 - address.toNat

/-- The writes of a bulk write that pass address 65535: they reach the map
under wrapped keys, and the table not at all. -/
def wrappedWrites (address : BitVec 16) (values : List Word) : List (BitVec 16 × Word) :=
  keyWrites address (directCount address) (values.drop (directCount address))

/-- The last value for an address below 1000: in the map it is the last wrapped
one, if there is any, and else that of the table. -/
theorem lastWrite_keyWrites (address : BitVec 16) (values : List Word) (k : Fin nbReg) :
    lastWrite (keyWrites address 0 values) (tabKey k) =
      (lastWrite (wrappedWrites address values) (tabKey k)).or
        (lastWrite (tabWrites address 0 values) k) := by
  by_cases hlen : values.length ≤ directCount address
  · have hnone : wrappedWrites address values = [] := by
      unfold wrappedWrites
      rw [List.drop_eq_nil_of_le hlen]
      rfl
    rw [hnone, lastWrite_nil, Option.none_or]
    unfold directCount at hlen
    exact lastWrite_direct address 0 values (by omega) k
  · have htake : (values.take (directCount address)).length = directCount address :=
      List.length_take_of_le (by omega)
    have hdirect := lastWrite_direct address 0 (values.take (directCount address))
      (by rw [htake]; unfold directCount; omega) k
    have hpast : tabWrites address (directCount address)
        (values.drop (directCount address)) = [] :=
      tabWrites_past (by unfold directCount nbReg; omega) _
    unfold wrappedWrites
    conv_lhs => rw [← List.take_append_drop (directCount address) values]
    conv_rhs => rw [← List.take_append_drop (directCount address) values]
    rw [keyWrites_append, tabWrites_append, htake, Nat.zero_add, hpast, List.append_nil,
      lastWrite_append, hdirect]
    rw [List.take_append_drop]

end Hanport.HpModbuss
