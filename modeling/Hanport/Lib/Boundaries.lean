import Hanport.Lib.Scanner

/-!
# Words at chunk boundaries

A scanner *restarts* at the marker when a step on it leads to the same outcome from
every state. What the calls return is then the same whether or not something came
before a chunk that begins with the marker (`session_append`), so a word whose first
symbol opens a chunk, and whose last one closes one, is returned whatever precedes it
(`session_segments`): noise cannot take away more than itself.
-/

namespace Lib.Scanner

open Lib.MarkerCode

variable {σ α ρ : Type*}

section Empty

variable {step : σ → α → σ ⊕ ρ} {s0 : σ}

/-- Chunks that hold nothing change nothing. -/
theorem session_empty (s : σ) {cs : List (List α)} (h : cs.flatten = []) (ds : List (List α)) :
    session step s0 s (cs ++ ds) = session step s0 s ds := by
  induction cs with
  | nil => rfl
  | cons c cs ih =>
      rw [List.flatten_cons, List.append_eq_nil_iff] at h
      rw [h.1, List.cons_append, session, feed]
      exact ih h.2

/-- Every call takes at least one chunk. -/
theorem length_session_le (s : σ) (cs : List (List α)) :
    (session step s0 s cs).length ≤ cs.length := by
  induction cs generalizing s with
  | nil => exact Nat.le_refl 0
  | cons c cs ih =>
      rw [session, List.length_cons]
      cases feed step s c with
      | running s' => exact Nat.le_succ_of_le (ih s')
      | returned r rest => exact Nat.succ_le_succ (ih s0)

/-- As many calls as there are chunks return all that can be returned. -/
theorem calls_length (cs : List (List α)) {n : ℕ} (hn : cs.length ≤ n) :
    calls step s0 n cs = session step s0 s0 cs := by
  rw [calls_eq_take]
  exact List.take_of_length_le ((length_session_le s0 cs).trans hn)

end Empty

/-! ## Restarts -/

section Restart

variable {step : σ → α → σ ⊕ ρ} {s0 : σ} {m : α} (restart : ∀ s, step s m = step s0 m)
include restart

/-- In front of the marker the state does not matter. -/
theorem session_marker (s : σ) {ds : List (List α)} (hds : ds.flatten.head? = some m) :
    session step s0 s ds = session step s0 s0 ds := by
  induction ds with
  | nil => cases hds
  | cons d ds ih =>
      cases d with
      | nil => exact ih hds
      | cons a d =>
          have ha : a = m := Option.some.inj hds
          have hfeed : feed step s (a :: d) = feed step s0 (a :: d) := by
            rw [feed, feed, ha, restart s]
          rw [session, session, hfeed]

/-- **What came before does not matter** to the chunks from one on that begins with
the marker. -/
theorem session_append (s : σ) (cs : List (List α)) {ds : List (List α)}
    (hds : ds.flatten.head? = some m) :
    session step s0 s (cs ++ ds) = session step s0 s cs ++ session step s0 s0 ds := by
  induction cs generalizing s with
  | nil => exact session_marker restart s hds
  | cons c cs ih =>
      rw [List.cons_append, session, session]
      cases feed step s c with
      | running s' => exact ih s'
      | returned r rest => exact congrArg (r :: ·) (ih s0)

end Restart

/-! ## Words that fill whole chunks -/

/-- The last chunk that holds something. -/
theorem exists_last_chunk {cs : List (List α)} (h : cs.flatten ≠ []) :
    ∃ pre a post, cs = pre ++ a :: post ∧ a ≠ [] ∧ post.flatten = [] := by
  induction cs using List.reverseRecOn with
  | nil => exact absurd rfl h
  | append_singleton cs c ih =>
      by_cases hc : c = []
      · have hcs : cs.flatten ≠ [] := by
          intro hnil
          exact h (by simp [hnil, hc])
        obtain ⟨pre, a, post, rfl, ha, hpost⟩ := ih hcs
        exact ⟨pre, a, post ++ [c], by simp, ha, by simp [hpost, hc]⟩
      · exact ⟨cs, c, [], rfl, hc, rfl⟩

section Words

variable {step : σ → α → σ ⊕ List α} {s0 : σ} {m : α} {F : List α → Prop}
  {tracks : σ → List α → Prop} (rec : Recognises step s0 F tracks) (code : IsMarkerCode m F)
include rec code

/-- A word that fills its chunks is returned, and what follows is scanned afresh. -/
theorem session_word {cs : List (List α)} (hword : F cs.flatten) (ds : List (List α)) :
    session step s0 s0 (cs ++ ds) = cs.flatten :: session step s0 s0 ds := by
  obtain ⟨pre, a, post, rfl, ha, hpost⟩ := exists_last_chunk (word_ne_nil code hword)
  have hflat : (pre ++ a :: post).flatten = pre.flatten ++ a := by simp [hpost]
  have hfirst : FirstEnd F ([] ++ pre.flatten ++ a) (pre ++ a :: post).flatten := by
    rw [List.nil_append, ← hflat]
    exact (fresh_nil code).firstEnd code hword
  have hcall : call step s0 (pre ++ (a ++ []) :: (post ++ ds)) =
      some ((pre ++ a :: post).flatten, post ++ ds) :=
    call_of_firstEnd rec code rec.init (fresh_nil code) ha hfirst
  rw [List.append_nil] at hcall
  rw [List.append_assoc, List.cons_append, session_of_call_some hcall, session_empty s0 hpost]

/-- **Noise takes away only itself.** Words that fill their chunks are all returned, in
order, among what the chunks in front of each of them return on their own. -/
theorem session_segments {segments : List (List (List α) × List (List α))}
    (h : ∀ p ∈ segments, F p.2.flatten) (restart : ∀ s, step s m = step s0 m) (ds : List (List α)) :
    session step s0 s0 ((segments.flatMap fun p => p.1 ++ p.2) ++ ds) =
      (segments.flatMap fun p => session step s0 s0 p.1 ++ [p.2.flatten]) ++
        session step s0 s0 ds := by
  induction segments with
  | nil => rfl
  | cons p segments ih =>
      obtain ⟨hword, hrest⟩ := List.forall_mem_cons.mp h
      -- every word begins with the marker, so the noise before it does not matter
      have hmarker : (p.2 ++ ((segments.flatMap fun p => p.1 ++ p.2) ++ ds)).flatten.head? =
          some m := by
        obtain ⟨t, ht, -⟩ := code.shape hword
        rw [List.flatten_append, ht]
        rfl
      rw [List.flatMap_cons, List.flatMap_cons, List.append_assoc, List.append_assoc,
        session_append restart s0 p.1 hmarker, session_word rec code hword, ih hrest]
      simp only [List.append_assoc, List.cons_append, List.nil_append]

end Words

end Lib.Scanner
