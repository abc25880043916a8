import Hanport.Lib.Delimiter
import Hanport.Model.HpDataParser

/-!
# What each line of a message writes

A line has its effect whatever the object holds: it writes nothing, it writes one
value to one field, or it fails (`lineEffect`). So `parse_message` is a list of
writes: those of the lines before the first failing one (`parseLines_eq`).
-/

namespace Hanport.HpDataParser

open Lib Lib.Ascii Lib.Delimiter

section Effect

variable (stof : List Byte → Option Binary32)

/-- The effect of a line: the write it makes, if any, or its failure. -/
def lineEffect (line : List Byte) : Except String (Option (Field × Binary32)) :=
  if Skipped line then .ok none
  else match target (obisCode line) with
    | none => .ok none
    | some f => (setValue stof line).map fun value => some (f, value)

/-- The write of a line that does not fail. -/
def lineWrite (line : List Byte) : Option (Field × Binary32) :=
  match lineEffect stof line with
  | .ok w => w
  | .error _ => none

/-- The line does not fail. -/
def succeeds (line : List Byte) : Bool :=
  match lineEffect stof line with
  | .ok _ => true
  | .error _ => false

/-- The outcome of a message: the failure of its first failing line. -/
def outcome : List (List Byte) → Except String Unit
  | [] => .ok ()
  | line :: rest =>
      match lineEffect stof line with
      | .ok _ => outcome rest
      | .error e => .error e

/-- A line writes to the field of its code. -/
theorem target_of_lineWrite {line : List Byte} {w : Field × Binary32}
    (h : lineWrite stof line = some w) :
    target (obisCode line) = some w.1 := by
  unfold lineWrite lineEffect at h
  by_cases hs : Skipped line
  · rw [if_pos hs] at h
    cases h
  · rw [if_neg hs] at h
    cases ht : target (obisCode line) with
    | none =>
        rw [ht] at h
        cases h
    | some f =>
        rw [ht] at h
        dsimp only at h
        cases hv : setValue stof line with
        | error e =>
            rw [hv] at h
            cases h
        | ok v =>
            rw [hv] at h
            cases h
            rfl

/-- One step of the loop, as the effect of its line. -/
theorem parseLines_cons (line : List Byte) (rest : List (List Byte)) (d : HpData) :
    parseLines stof (line :: rest) d =
      match lineEffect stof line with
      | .ok w => parseLines stof rest (HpData.store.writeAll w.toList d)
      | .error e => (d, .error e) := by
  rw [parseLines]
  unfold lineEffect parseElectricityData
  by_cases hs : Skipped line
  · rw [if_pos hs, if_pos hs]
    rfl
  · rw [if_neg hs, if_neg hs]
    cases target (obisCode line) with
    | none => rfl
    | some f =>
        dsimp only
        cases setValue stof line with
        | ok value => rfl
        | error e => rfl

/-- **A message is the writes of the lines before its first failing line.** -/
theorem parseLines_eq (arr : List (List Byte)) (d : HpData) :
    parseLines stof arr d =
      (HpData.store.writeAll ((arr.takeWhile (succeeds stof)).filterMap (lineWrite stof)) d,
        outcome stof arr) := by
  induction arr generalizing d with
  | nil => rfl
  | cons line rest ih =>
      rw [parseLines_cons, outcome, List.takeWhile_cons]
      unfold succeeds
      cases he : lineEffect stof line with
      | error e => rfl
      | ok w =>
          dsimp only
          rw [ih, if_pos rfl, List.filterMap_cons]
          unfold lineWrite succeeds
          rw [he]
          cases w with
          | none => rfl
          | some w => rfl

theorem outcome_eq_ok_iff (arr : List (List Byte)) :
    outcome stof arr = .ok () ↔ ∀ line ∈ arr, succeeds stof line = true := by
  induction arr with
  | nil => simp [outcome]
  | cons line rest ih =>
      rw [outcome, List.forall_mem_cons, ← ih]
      unfold succeeds
      cases lineEffect stof line with
      | ok w => simp
      | error e => simp

/-- A message that fails has a first failing line. -/
theorem outcome_eq_error {arr : List (List Byte)} {e : String}
    (h : outcome stof arr = .error e) :
    ∃ pre bad post, arr = pre ++ bad :: post ∧ outcome stof pre = .ok () ∧
      lineEffect stof bad = .error e ∧ arr.takeWhile (succeeds stof) = pre := by
  induction arr with
  | nil => cases h
  | cons line rest ih =>
      rw [outcome] at h
      cases he : lineEffect stof line with
      | error e' =>
          rw [he] at h
          cases h
          refine ⟨[], line, rest, rfl, rfl, he, ?_⟩
          rw [List.takeWhile_cons]
          simp [succeeds, he]
      | ok w =>
          rw [he] at h
          obtain ⟨pre, bad, post, rfl, hpre, hbad, htake⟩ := ih h
          refine ⟨line :: pre, bad, post, rfl, ?_, hbad, ?_⟩
          · rw [outcome, he]
            exact hpre
          · rw [List.takeWhile_cons, if_pos (by simp [succeeds, he]), htake]

end Effect

/-! ## The text between `(` and `*` -/

/-- `static_cast<int>` keeps a position below `2^31`. -/
theorem toInt_some {pos : ℕ} (h : pos < 2 ^ 31) : toInt (some pos) = pos := by
  show (BitVec.ofNat 32 pos).toInt = pos
  rw [BitVec.toInt_eq_toNat_cond, BitVec.toNat_ofNat]
  omega

theorem toSize_natCast {n : ℕ} (h : n < 2 ^ 64) : toSize n = n := by
  unfold toSize
  omega

/-- `find` gives the length of the text before the first occurrence. -/
theorem find_first_split {c : Byte} {a : List Byte} (ha : c ∉ a) (x : List Byte) :
    find (a ++ c :: x) c = some a.length :=
  findIdx?_first_split ha x

end Hanport.HpDataParser
