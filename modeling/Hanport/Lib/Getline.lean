import Hanport.Lib.Ascii

/-!
# `std::getline` on a string stream

One call extracts bytes up to a line feed, which it discards, or up to the end
of the stream; it fails only when it extracts nothing at the end of the
stream. `getlines` is the list a `while (getline(ss, line))` loop collects.
-/

namespace Lib.Getline

open Lib.Ascii

abbrev newline : Byte := '\n'.toUInt8

/-- One `getline`: the line and the rest of the stream, or failure. -/
def getline : List Byte → Option (List Byte × List Byte)
  | [] => none
  | b :: s =>
      if b = newline then some ([], s)
      else match getline s with
        | none => some ([b], [])
        | some (line, rest) => some (b :: line, rest)

/-- A line is taken with at least one byte of the stream. -/
theorem getline_length_lt {s line rest : List Byte} (h : getline s = some (line, rest)) :
    rest.length < s.length := by
  induction s generalizing line rest with
  | nil => cases h
  | cons b s ih =>
      unfold getline at h
      split_ifs at h with hb
      · cases h
        simp
      · cases hs : getline s with
        | none =>
            rw [hs] at h
            cases h
            simp
        | some p =>
            rw [hs] at h
            cases h
            have := ih hs
            rw [List.length_cons]
            omega

/-- `while (getline(ss, line)) arr.push_back(line);` with at most `fuel`
passes. -/
def getlinesUpTo : ℕ → List Byte → List (List Byte)
  | 0, _ => []
  | fuel + 1, s =>
      match getline s with
      | none => []
      | some (line, rest) => line :: getlinesUpTo fuel rest

/-- The whole loop: each pass takes a byte, so the length bounds the number of
passes. -/
def getlines (s : List Byte) : List (List Byte) := getlinesUpTo s.length s

theorem getlinesUpTo_eq {fuel : ℕ} {s : List Byte} (h : s.length ≤ fuel) :
    getlinesUpTo fuel s = getlines s := by
  induction fuel using Nat.strong_induction_on generalizing s with
  | _ fuel ih =>
      unfold getlines
      cases fuel with
      | zero => rw [Nat.le_zero.mp h]
      | succ fuel =>
          cases s with
          | nil => rfl
          | cons b s =>
              rw [List.length_cons, getlinesUpTo, getlinesUpTo]
              cases hg : getline (b :: s) with
              | none => rfl
              | some p =>
                  have hlt := getline_length_lt hg
                  rw [List.length_cons] at hlt h
                  have h1 : getlinesUpTo fuel p.2 = getlines p.2 := ih fuel (by omega) (by omega)
                  have h2 : getlinesUpTo s.length p.2 = getlines p.2 :=
                    ih s.length (by omega) (by omega)
                  exact congrArg (p.1 :: ·) (h1.trans h2.symm)

/-- The loop, call by call. -/
theorem getlines_eq (s : List Byte) :
    getlines s = match getline s with
      | none => []
      | some (line, rest) => line :: getlines rest := by
  cases s with
  | nil => rfl
  | cons b s =>
      unfold getlines
      rw [List.length_cons, getlinesUpTo]
      cases hg : getline (b :: s) with
      | none => rfl
      | some p =>
          have hlt := getline_length_lt hg
          rw [List.length_cons] at hlt
          exact congrArg (p.1 :: ·) (getlinesUpTo_eq (by omega))

/-! ## Lines of a text -/

theorem getline_append_newline {line rest : List Byte} (h : newline ∉ line) :
    getline (line ++ newline :: rest) = some (line, rest) := by
  induction line with
  | nil => rfl
  | cons b line ih =>
      rw [List.mem_cons, not_or] at h
      rw [List.cons_append, getline, if_neg (Ne.symm h.1), ih h.2]

theorem getline_last {line : List Byte} (hne : line ≠ []) (h : newline ∉ line) :
    getline line = some (line, []) := by
  induction line with
  | nil => exact absurd rfl hne
  | cons b line ih =>
      rw [List.mem_cons, not_or] at h
      rw [getline, if_neg (Ne.symm h.1)]
      cases line with
      | nil => rfl
      | cons c line => rw [ih (by simp) h.2]

/-- Lines ended by line feeds, and a last one that is not: the loop gives
them back. -/
theorem getlines_lines {lines : List (List Byte)} {last : List Byte}
    (hlines : ∀ l ∈ lines, newline ∉ l) (hne : last ≠ []) (hlast : newline ∉ last) :
    getlines (lines.flatMap (· ++ [newline]) ++ last) = lines ++ [last] := by
  induction lines with
  | nil =>
      show getlines last = [last]
      rw [getlines_eq, getline_last hne hlast]
      rfl
  | cons l ls ih =>
      have hl : newline ∉ l := hlines l List.mem_cons_self
      have hls : ∀ l ∈ ls, newline ∉ l := fun l' m => hlines l' (List.mem_cons_of_mem _ m)
      have htext : (l :: ls).flatMap (· ++ [newline]) ++ last =
          l ++ newline :: (ls.flatMap (· ++ [newline]) ++ last) := by simp
      rw [htext, getlines_eq, getline_append_newline hl]
      exact congrArg (l :: ·) (ih hls)

/-- The loop collects nothing only from an empty stream. -/
theorem getlines_eq_nil_iff (s : List Byte) : getlines s = [] ↔ s = [] := by
  constructor
  · intro h
    cases s with
    | nil => rfl
    | cons b s =>
        exfalso
        rw [getlines_eq] at h
        cases hg : getline (b :: s) with
        | none =>
            unfold getline at hg
            split_ifs at hg
            split at hg <;> cases hg
        | some p =>
            rw [hg] at h
            cases h
  · rintro rfl
    rfl

/-! ## Joining the lines -/

/-- One call takes the stream up to its first line feed, or the whole of it. -/
theorem getline_cases {s line rest : List Byte} (h : getline s = some (line, rest)) :
    newline ∉ line ∧ (s = line ++ newline :: rest ∨ (s = line ∧ rest = [])) := by
  induction s generalizing line rest with
  | nil => cases h
  | cons b s ih =>
      unfold getline at h
      split_ifs at h with hb
      · cases h
        exact ⟨List.not_mem_nil, .inl (by rw [hb, List.nil_append])⟩
      · cases hs : getline s with
        | none =>
            rw [hs] at h
            cases h
            have hnil : s = [] := by
              rw [← getlines_eq_nil_iff, getlines_eq, hs]
            exact ⟨by simpa using Ne.symm hb, .inr ⟨by rw [hnil], rfl⟩⟩
        | some p =>
            rw [hs] at h
            cases h
            obtain ⟨hline, hsplit⟩ := ih hs
            refine ⟨by simpa using ⟨Ne.symm hb, hline⟩, ?_⟩
            rcases hsplit with hsplit | ⟨hsplit, hrest⟩
            · exact .inl (by rw [List.cons_append, ← hsplit])
            · exact .inr ⟨by rw [← hsplit], hrest⟩

/-- No line holds a line feed, and the lines joined by line feeds are the stream
again, unless the stream ends with one. -/
theorem intercalate_getlines {s : List Byte} (h : s.getLast? ≠ some newline) :
    (∀ line ∈ getlines s, newline ∉ line) ∧ [newline].intercalate (getlines s) = s := by
  induction hn : s.length using Nat.strong_induction_on generalizing s with
  | _ n ih =>
      rw [getlines_eq]
      cases hg : getline s with
      | none =>
          have hnil : s = [] := by
            rw [← getlines_eq_nil_iff, getlines_eq, hg]
          rw [hnil]
          exact ⟨by simp, rfl⟩
      | some p =>
          obtain ⟨line, rest⟩ := p
          dsimp only
          obtain ⟨hline, hsplit⟩ := getline_cases hg
          rcases hsplit with hsplit | ⟨hsplit, hrest⟩
          · -- the rest is not empty and does not end with a line feed either
            have hne : rest ≠ [] := by
              rintro rfl
              rw [hsplit] at h
              simp at h
            have hlast : rest.getLast? ≠ some newline := by
              rw [hsplit, List.getLast?_append_of_ne_nil _ (List.cons_ne_nil _ _),
                List.getLast?_cons_of_ne_nil hne] at h
              exact h
            have hlt := getline_length_lt hg
            obtain ⟨hlines, hjoin⟩ := ih rest.length (by omega) hlast rfl
            have hsome : getlines rest ≠ [] := fun hnil => hne ((getlines_eq_nil_iff rest).mp hnil)
            refine ⟨List.forall_mem_cons.mpr ⟨hline, hlines⟩, ?_⟩
            rw [List.intercalate_cons_of_ne_nil hsome, hjoin, hsplit, List.append_assoc]
            rfl
          · rw [hrest, hsplit]
            exact ⟨by simpa [getlines, getlinesUpTo] using hline, by simp [getlines, getlinesUpTo]⟩

/-- Behind a stream that is empty or ends with a line feed the lines go on. -/
theorem getlines_append {s : List Byte} (h : s = [] ∨ s.getLast? = some newline)
    (x : List Byte) : getlines (s ++ x) = getlines s ++ getlines x := by
  induction hn : s.length using Nat.strong_induction_on generalizing s with
  | _ n ih =>
      cases hg : getline s with
      | none =>
          have hnil : s = [] := by
            rw [← getlines_eq_nil_iff, getlines_eq, hg]
          rw [hnil]
          rfl
      | some p =>
          obtain ⟨line, rest⟩ := p
          obtain ⟨hline, hsplit⟩ := getline_cases hg
          rcases hsplit with hsplit | ⟨hsplit, -⟩
          · have hrest : rest = [] ∨ rest.getLast? = some newline := by
              by_cases hne : rest = []
              · exact .inl hne
              · rcases h with h | h
                · rw [h] at hg
                  cases hg
                · rw [hsplit, List.getLast?_append_of_ne_nil _ (List.cons_ne_nil _ _),
                    List.getLast?_cons_of_ne_nil hne] at h
                  exact .inr h
            have hlt := getline_length_lt hg
            have htail := ih rest.length (by omega) hrest rfl
            rw [getlines_eq s, hg, hsplit, List.append_assoc, List.cons_append, getlines_eq,
              getline_append_newline hline]
            dsimp only
            rw [htail, List.cons_append]
          · -- a last line without a line feed is not empty
            exfalso
            rcases h with h | h
            · rw [h] at hg
              cases hg
            · rw [hsplit] at h
              exact hline (List.mem_of_getLast? h)

end Lib.Getline
