import Hanport.Lib.MarkerCode

/-!
# Scanners that return in the middle of a chunk

A scanner is a step function over input symbols that either goes on in a new
state or returns a result. Its input arrives in chunks. A *call* starts in the
initial state, feeds chunk after chunk, and when a step returns it drops
whatever is left of the current chunk; the next call starts afresh with the
next chunk.

For a scanner that recognises a marker code (`Recognises`) this file
determines what repeated calls return:

* `call_eq_none` / `call_eq_some`: one call returns the word that ends the
  shortest such prefix of the whole stream, however the stream is cut;
* `session_eq_occurrences_iff`: repeated calls return all words of the stream
  iff no word begins behind another word's end within one chunk
  (`WordBehind`).
-/

namespace Lib.Scanner

open Lib.MarkerCode

variable {σ α ρ : Type*}

/-- Result of feeding a finite input: still running, or returned with the
unread rest of the input. -/
inductive Outcome (σ α ρ : Type*) where
  | running (s : σ)
  | returned (r : ρ) (rest : List α)

/-- Feed symbols one by one until a step returns. -/
def feed (step : σ → α → σ ⊕ ρ) : σ → List α → Outcome σ α ρ
  | s, [] => .running s
  | s, a :: as =>
      match step s a with
      | .inl s' => feed step s' as
      | .inr r => .returned r as

/-- One call: feed chunks until a step returns; the rest of that chunk is
dropped and the remaining chunks are left. -/
def call (step : σ → α → σ ⊕ ρ) : σ → List (List α) → Option (ρ × List (List α))
  | _, [] => none
  | s, c :: cs =>
      match feed step s c with
      | .running s' => call step s' cs
      | .returned r _ => some (r, cs)

/-- The results of the first `n` calls, each started in `s0`. -/
def calls (step : σ → α → σ ⊕ ρ) (s0 : σ) : ℕ → List (List α) → List ρ
  | 0, _ => []
  | n + 1, cs =>
      match call step s0 cs with
      | none => []
      | some (r, rest) => r :: calls step s0 n rest

/-- The results of all calls, as one pass over the chunks. -/
def session (step : σ → α → σ ⊕ ρ) (s0 : σ) : σ → List (List α) → List ρ
  | _, [] => []
  | s, c :: cs =>
      match feed step s c with
      | .running s' => session step s0 s' cs
      | .returned r _ => r :: session step s0 s0 cs

section Calls

variable {step : σ → α → σ ⊕ ρ} {s0 : σ}

/-- Feeding two parts of an input one after the other. -/
theorem feed_append (s : σ) (x y : List α) :
    feed step s (x ++ y) =
      match feed step s x with
      | .running s' => feed step s' y
      | .returned r rest => .returned r (rest ++ y) := by
  induction x generalizing s with
  | nil => rfl
  | cons a x ih =>
      rw [List.cons_append, feed, feed]
      cases step s a with
      | inl s' => exact ih s'
      | inr r => rfl

theorem session_of_call_none {s : σ} {cs : List (List α)} (h : call step s cs = none) :
    session step s0 s cs = [] := by
  induction cs generalizing s with
  | nil => rfl
  | cons c cs ih =>
      rw [call] at h
      rw [session]
      cases hf : feed step s c with
      | running s' => exact ih (by rw [hf] at h; exact h)
      | returned r rest => rw [hf] at h; cases h

theorem session_of_call_some {s : σ} {cs rest : List (List α)} {r : ρ}
    (h : call step s cs = some (r, rest)) :
    session step s0 s cs = r :: session step s0 s0 rest := by
  induction cs generalizing s with
  | nil => cases h
  | cons c cs ih =>
      rw [call] at h
      rw [session]
      cases hf : feed step s c with
      | running s' => exact ih (by rw [hf] at h; exact h)
      | returned r' rest' =>
          rw [hf] at h
          cases h
          rfl

/-- The first `n` calls return the first `n` results of the session. -/
theorem calls_eq_take (n : ℕ) (cs : List (List α)) :
    calls step s0 n cs = (session step s0 s0 cs).take n := by
  induction n generalizing cs with
  | zero => simp [calls]
  | succ n ih =>
      rw [calls]
      cases hc : call step s0 cs with
      | none => rw [session_of_call_none hc, List.take_nil]
      | some p =>
          obtain ⟨r, rest⟩ := p
          rw [session_of_call_some hc, List.take_succ_cons, ← ih rest]

/-- Two inputs give the same results at every number of calls iff they give
the same session. -/
theorem calls_eq_iff (cs ds : List (List α)) :
    (∀ n, calls step s0 n cs = calls step s0 n ds) ↔
      session step s0 s0 cs = session step s0 s0 ds := by
  constructor
  · intro h
    have hmax := h (max (session step s0 s0 cs).length (session step s0 s0 ds).length)
    rw [calls_eq_take, calls_eq_take, List.take_of_length_le (Nat.le_max_left _ _),
      List.take_of_length_le (Nat.le_max_right _ _)] at hmax
    exact hmax
  · intro h n
    rw [calls_eq_take, calls_eq_take, h]

end Calls

/-! ## Recognisers of a marker code -/

/-- The scanner recognises the code `F`: a running state tracks the symbols
consumed since the call began, a step goes on exactly when no word has just
ended, and it returns the word that has. -/
structure Recognises (step : σ → α → σ ⊕ List α) (s0 : σ) (F : List α → Prop)
    (tracks : σ → List α → Prop) : Prop where
  init : tracks s0 []
  next : ∀ {s w a s'}, tracks s w → step s a = .inl s' →
    tracks s' (w ++ [a]) ∧ ¬ Ends F (w ++ [a])
  done : ∀ {s w a f}, tracks s w → step s a = .inr f → F f ∧ f <:+ w ++ [a]

section Recogniser

variable {step : σ → α → σ ⊕ List α} {s0 : σ} {F : List α → Prop}
  {tracks : σ → List α → Prop} (rec : Recognises step s0 F tracks)
include rec

/-- While the scanner runs, the consumed stream stays fresh. -/
theorem feed_running {s s' : σ} {w x : List α} (ht : tracks s w) (hw : Fresh F w)
    (h : feed step s x = .running s') : tracks s' (w ++ x) ∧ Fresh F (w ++ x) := by
  induction x generalizing s w with
  | nil =>
      cases h
      rw [List.append_nil]
      exact ⟨ht, hw⟩
  | cons a x ih =>
      rw [feed] at h
      cases hs : step s a with
      | inr f => rw [hs] at h; cases h
      | inl s1 =>
          rw [hs] at h
          obtain ⟨ht1, hn1⟩ := rec.next ht hs
          simpa using ih ht1 (hw.concat hn1) h

/-- When the scanner returns, it returns the word that ends the consumed
stream for the first time. -/
theorem feed_returned {s : σ} {w x f rest : List α} (ht : tracks s w) (hw : Fresh F w)
    (h : feed step s x = .returned f rest) :
    ∃ u, x = u ++ rest ∧ u ≠ [] ∧ FirstEnd F (w ++ u) f := by
  induction x generalizing s w with
  | nil => cases h
  | cons a x ih =>
      rw [feed] at h
      cases hs : step s a with
      | inr g =>
          rw [hs] at h
          cases h
          obtain ⟨hF, hsuf⟩ := rec.done ht hs
          refine ⟨[a], rfl, by simp, hF, hsuf, fun p hp hne => ?_⟩
          rcases List.prefix_concat_iff.mp hp with hp' | hp'
          · exact absurd hp' hne
          · exact hw p hp'
      | inl s1 =>
          rw [hs] at h
          obtain ⟨ht1, hn1⟩ := rec.next ht hs
          obtain ⟨u, hx, _, hfirst⟩ := ih ht1 (hw.concat hn1) h
          refine ⟨a :: u, by rw [hx]; rfl, by simp, ?_⟩
          simpa using hfirst

/-- A call that never returns has seen a fresh stream. -/
theorem call_none {s : σ} {w : List α} {cs : List (List α)} (ht : tracks s w)
    (hw : Fresh F w) (h : call step s cs = none) : Fresh F (w ++ cs.flatten) := by
  induction cs generalizing s w with
  | nil => simpa using hw
  | cons c cs ih =>
      rw [call] at h
      cases hf : feed step s c with
      | returned f rest => rw [hf] at h; cases h
      | running s' =>
          rw [hf] at h
          obtain ⟨ht', hw'⟩ := feed_running rec ht hw hf
          simpa using ih ht' hw' h

/-- A call that returns has read up to the first end of a word: the chunks
before, the part `a` of the current chunk, and `b` is dropped. -/
theorem call_some {s : σ} {w f : List α} {cs rest : List (List α)} (ht : tracks s w)
    (hw : Fresh F w) (h : call step s cs = some (f, rest)) :
    ∃ pre a b, cs = pre ++ (a ++ b) :: rest ∧ a ≠ [] ∧
      FirstEnd F (w ++ pre.flatten ++ a) f := by
  induction cs generalizing s w with
  | nil => cases h
  | cons c cs ih =>
      rw [call] at h
      cases hf : feed step s c with
      | returned g b =>
          rw [hf] at h
          cases h
          obtain ⟨a, rfl, hne, hfirst⟩ := feed_returned rec ht hw hf
          exact ⟨[], a, b, rfl, hne, by simpa using hfirst⟩
      | running s' =>
          rw [hf] at h
          obtain ⟨ht', hw'⟩ := feed_running rec ht hw hf
          obtain ⟨pre, a, b, rfl, hne, hfirst⟩ := ih ht' hw' h
          exact ⟨c :: pre, a, b, rfl, hne, by simpa using hfirst⟩

end Recogniser

/-! ## Repeated calls on a recognised marker code -/

/-- Some word begins behind another word's last symbol, within one chunk: the
chunk `a ++ b` is reached after `w` and the chunks `pre`, a word ends at the
end of `a`, and a word begins inside `b`. -/
def WordBehind (F : List α → Prop) (w : List α) (cs : List (List α)) : Prop :=
  ∃ pre a b post, cs = pre ++ (a ++ b) :: post ∧ a ≠ [] ∧
    Ends F (w ++ pre.flatten ++ a) ∧
    ∃ i < b.length, Starts F (b.drop i ++ post.flatten)

section WordBehind

variable {F : List α → Prop}

/-- A chunk on which no word ends only lengthens the stream before. -/
theorem wordBehind_cons_of_fresh {w c : List α} {cs : List (List α)}
    (hw : Fresh F (w ++ c)) : WordBehind F w (c :: cs) ↔ WordBehind F (w ++ c) cs := by
  constructor
  · intro hbehind
    obtain ⟨pre, a, b, post, hcs, hne, hends, hstart⟩ := hbehind
    cases pre with
    | nil =>
        simp only [List.nil_append, List.cons.injEq] at hcs
        have hpre : w ++ a <+: w ++ c := ⟨b, by rw [hcs.1, List.append_assoc]⟩
        exact absurd hends (by simpa using hw (w ++ a) hpre)
    | cons c' pre =>
        simp only [List.cons_append, List.cons.injEq] at hcs
        obtain ⟨rfl, rfl⟩ := hcs
        exact ⟨pre, a, b, post, rfl, hne, by simpa using hends, hstart⟩
  · intro hbehind
    obtain ⟨pre, a, b, post, rfl, hne, hends, hstart⟩ := hbehind
    exact ⟨c :: pre, a, b, post, rfl, hne, by simpa using hends, hstart⟩

/-- Where the first word ends with `u`, no word of the chunk ends earlier. -/
theorem prefix_of_ends {w u f rest a b : List α} (hfirst : FirstEnd F (w ++ u) f)
    (hends : Ends F (w ++ a)) (hc : u ++ rest = a ++ b) : u <+: a := by
  rcases List.append_eq_append_iff.mp hc with ⟨a', rfl, _⟩ | ⟨u', rfl, hb⟩
  · exact List.prefix_append u a'
  · have hsame : w ++ a = w ++ (a ++ u') := by
      by_contra hdiff
      exact hfirst.shorter (w ++ a) ⟨u', by simp⟩ hdiff hends
    rw [← List.append_cancel_left hsame]

/-- Where the first word ends with `u`, a word that ends behind the chunk and begins
inside it begins in the rest: it cannot cut through the first one. -/
theorem suffix_rest_of_word {m : α} (code : IsMarkerCode m F) {w u f rest g s t : List α}
    (hfirst : FirstEnd F (w ++ u) f) (hg : F g) (hgs : g = s ++ t) (ht : t ≠ [])
    (hssuf : s <:+ w ++ u ++ rest) : s <:+ rest := by
  rcases List.suffix_or_suffix_of_suffix hssuf (List.suffix_append (w ++ u) rest)
    with h | ⟨s1, hs1⟩
  · exact h
  · by_cases hs10 : s1 = []
    · rw [hs10, List.nil_append] at hs1
      rw [hs1]
    · exfalso
      have hs1suf : s1 <:+ w ++ u := by
        obtain ⟨x, hx⟩ := hssuf
        rw [← hs1, ← List.append_assoc] at hx
        exact ⟨x, List.append_cancel_right hx⟩
      have hcut : g = s1 ++ (rest ++ t) := by rw [hgs, ← hs1, List.append_assoc]
      exact not_straddle code hfirst.word hfirst.suffix hg hcut hs1suf hs10 (by simp [ht])

/-- A chunk on which the first word ends at the end of `u`: a word begins
behind another iff one begins in the rest of this chunk or the same happens
later. -/
theorem wordBehind_cons_of_firstEnd {m : α} (code : IsMarkerCode m F)
    {w u f rest : List α} {cs : List (List α)} (hu : u ≠ [])
    (hfirst : FirstEnd F (w ++ u) f) :
    WordBehind F w ((u ++ rest) :: cs) ↔
      startsIn F rest cs.flatten ≠ [] ∨ WordBehind F [] cs := by
  have hstarts : startsIn F rest cs.flatten ≠ [] ↔
      ∃ i < rest.length, Starts F (rest.drop i ++ cs.flatten) := by
    rw [ne_eq, startsIn_eq_nil_iff]
    push Not
    rfl
  rw [hstarts]
  constructor
  · intro hbehind
    obtain ⟨pre, a, b, post, hcs, hne, hends, i, hi, hstart⟩ := hbehind
    cases pre with
    | nil =>
        -- `b` is the end of `rest`
        left
        simp only [List.nil_append, List.cons.injEq] at hcs
        obtain ⟨hc, rfl⟩ := hcs
        obtain ⟨a', rfl⟩ := prefix_of_ends hfirst (by simpa using hends) hc
        rw [List.append_assoc] at hc
        have hrest := List.append_cancel_left hc
        refine ⟨a'.length + i, by rw [hrest, List.length_append]; omega, ?_⟩
        rw [hrest, List.drop_length_add_append]
        exact hstart
    | cons c' pre =>
        simp only [List.cons_append, List.cons.injEq] at hcs
        obtain ⟨rfl, rfl⟩ := hcs
        obtain ⟨g, hg, hgsuf⟩ := hends
        have hz : pre.flatten ++ a ≠ [] := by simp [hne]
        have htail : pre.flatten ++ a <:+ w ++ ((u ++ rest) :: pre).flatten ++ a :=
          ⟨w ++ u ++ rest, by simp⟩
        rcases List.suffix_or_suffix_of_suffix hgsuf htail with hin | ⟨s, hs⟩
        · exact Or.inr ⟨pre, a, b, post, rfl, hne, ⟨g, hg, by simpa using hin⟩, i, hi, hstart⟩
        · by_cases hs0 : s = []
          · subst hs0
            rw [List.nil_append] at hs
            have hin : g <:+ [] ++ pre.flatten ++ a := ⟨[], by simp [hs]⟩
            exact Or.inr ⟨pre, a, b, post, rfl, hne, ⟨g, hg, hin⟩, i, hi, hstart⟩
          · -- the word begins before the later chunks
            left
            have hssuf : s <:+ w ++ u ++ rest := by
              obtain ⟨x, hx⟩ := hgsuf
              refine ⟨x, List.append_cancel_right (?_ : x ++ s ++ (pre.flatten ++ a) = _)⟩
              rw [List.append_assoc, hs, hx]
              simp
            obtain ⟨r0, hr0⟩ := suffix_rest_of_word code hfirst hg hs.symm hz hssuf
            have hspos : 0 < s.length := List.length_pos_iff.mpr hs0
            refine ⟨r0.length, ?_, g, hg, ?_⟩
            · rw [← hr0, List.length_append]
              omega
            · rw [← hr0, List.drop_left, ← hs]
              exact ⟨b ++ post.flatten, by simp⟩
  · rintro (⟨i, hi, hstart⟩ | ⟨pre, a, b, post, rfl, hne, ⟨g, hg, hsuf⟩, hstart⟩)
    · exact ⟨[], u, rest, cs, rfl, hu, by simpa using hfirst.ends, i, hi, hstart⟩
    · refine ⟨(u ++ rest) :: pre, a, b, post, rfl, hne, ⟨g, hg, hsuf.trans ?_⟩, hstart⟩
      exact ⟨w ++ u ++ rest, by simp⟩

/-- One chunk holds at most one symbol: nothing begins behind a word. -/
theorem not_wordBehind_singletons (w x : List α) :
    ¬ WordBehind F w (x.map fun a => [a]) := by
  intro hbehind
  obtain ⟨pre, a, b, post, hcs, hne, _, i, hi, _⟩ := hbehind
  have hmem : a ++ b ∈ x.map fun a => [a] := by
    rw [hcs]
    simp
  obtain ⟨c, _, hc⟩ := List.mem_map.mp hmem
  have hlen := congrArg List.length hc
  have hapos := List.length_pos_iff.mpr hne
  simp only [List.length_append, List.length_singleton] at hlen
  omega

end WordBehind

section Session

variable {step : σ → α → σ ⊕ List α} {s0 : σ} {m : α} {F : List α → Prop}
  {tracks : σ → List α → Prop} (rec : Recognises step s0 F tracks)
  (code : IsMarkerCode m F)
include rec code

/-- A call blocks exactly on the fresh streams, whatever the cuts. -/
theorem call_eq_none (cs : List (List α)) :
    call step s0 cs = none ↔ Fresh F cs.flatten := by
  constructor
  · intro h
    exact call_none rec rec.init (fresh_nil code) h
  · intro h
    cases hc : call step s0 cs with
    | none => rfl
    | some p =>
        obtain ⟨f, rest⟩ := p
        obtain ⟨pre, a, b, rfl, _, hfirst⟩ := call_some rec rec.init (fresh_nil code) hc
        refine absurd hfirst.ends (h _ ⟨b ++ rest.flatten, ?_⟩)
        simp

/-- A call returns the word at the first end of the stream, whatever the
cuts. -/
theorem call_eq_some {u z f : List α} {cs : List (List α)} (hcs : cs.flatten = u ++ z)
    (hfirst : FirstEnd F u f) : ∃ rest, call step s0 cs = some (f, rest) := by
  cases hc : call step s0 cs with
  | none =>
      have hfresh := (call_eq_none rec code cs).mp hc
      exact absurd hfirst.ends (hfresh u ⟨z, hcs.symm⟩)
  | some p =>
      obtain ⟨g, rest⟩ := p
      obtain ⟨pre, a, b, rfl, _, hg⟩ := call_some rec rec.init (fresh_nil code) hc
      rw [List.nil_append] at hg
      have hpre : pre.flatten ++ a <+: u ++ z := ⟨b ++ rest.flatten, by rw [← hcs]; simp⟩
      have hgf : g = f := hg.unique code hfirst hpre (List.prefix_append u z)
      exact ⟨rest, by rw [hgf]⟩

/-- From a state in the middle of a call: the call returns inside the chunk in
which a word first ends. -/
theorem call_of_firstEnd {s : σ} {w a b f : List α} {pre rest : List (List α)}
    (ht : tracks s w) (hw : Fresh F w) (hne : a ≠ [])
    (hfirst : FirstEnd F (w ++ pre.flatten ++ a) f) :
    call step s (pre ++ (a ++ b) :: rest) = some (f, rest) := by
  induction pre generalizing s w with
  | nil =>
      rw [List.flatten_nil, List.append_nil] at hfirst
      rw [List.nil_append, call]
      cases hf : feed step s (a ++ b) with
      | running s' =>
          obtain ⟨_, hfresh⟩ := feed_running rec ht hw hf
          exact absurd hfirst.ends (hfresh _ ⟨b, List.append_assoc w a b⟩)
      | returned g z =>
          obtain ⟨u, hu, _, hg⟩ := feed_returned rec ht hw hf
          have hua : w ++ u <+: w ++ (a ++ b) := ⟨z, by rw [hu, List.append_assoc]⟩
          have haa : w ++ a <+: w ++ (a ++ b) := ⟨b, List.append_assoc w a b⟩
          rw [hg.unique code hfirst hua haa]
  | cons c pre ih =>
      rw [List.cons_append, call]
      cases hf : feed step s c with
      | running s' =>
          obtain ⟨ht', hw'⟩ := feed_running rec ht hw hf
          exact ih ht' hw' (by simpa using hfirst)
      | returned g z =>
          -- a word would end before the first one does
          obtain ⟨u, rfl, _, hg⟩ := feed_returned rec ht hw hf
          refine absurd hg.ends (hfirst.shorter (w ++ u) ⟨z ++ pre.flatten ++ a, by simp⟩ ?_)
          intro he
          have hlen := congrArg List.length he
          have hpos := List.length_pos_iff.mpr hne
          simp only [List.flatten_cons, List.length_append] at hlen
          omega

omit rec in
/-- The words of a stream whose first word ends inside the first chunk. -/
theorem occurrences_firstEnd {w u f rest : List α} {cs : List (List α)}
    (hfirst : FirstEnd F (w ++ u) f) :
    occurrences F (w ++ ((u ++ rest) :: cs).flatten) =
      f :: (startsIn F rest cs.flatten ++ occurrences F cs.flatten) := by
  rw [← occurrences_append, ← hfirst.occurrences code]
  simp

/-- Calls return no more words than the stream has. -/
theorem session_length_le {s : σ} {w : List α} (ht : tracks s w) (hw : Fresh F w)
    (cs : List (List α)) :
    (session step s0 s cs).length ≤ (occurrences F (w ++ cs.flatten)).length := by
  induction cs generalizing s w with
  | nil => simp [session]
  | cons c cs ih =>
      rw [session]
      cases hf : feed step s c with
      | running s' =>
          obtain ⟨ht', hw'⟩ := feed_running rec ht hw hf
          simpa using ih ht' hw'
      | returned f rest =>
          obtain ⟨u, rfl, _, hfirst⟩ := feed_returned rec ht hw hf
          have hlater := ih rec.init (fresh_nil code)
          rw [List.nil_append] at hlater
          rw [occurrences_firstEnd code hfirst, List.length_cons, List.length_cons,
            List.length_append]
          omega

/-- From a state in the middle of a call: the session is all words of the
stream iff no word begins behind another within one chunk. -/
theorem session_from_eq_occurrences_iff {s : σ} {w : List α} {cs : List (List α)}
    (ht : tracks s w) (hw : Fresh F w) :
    session step s0 s cs = occurrences F (w ++ cs.flatten) ↔ ¬ WordBehind F w cs := by
  induction cs generalizing s w with
  | nil =>
      have hnone : ¬ WordBehind F w [] := by
        intro hbehind
        obtain ⟨pre, a, b, post, hcs, _⟩ := hbehind
        exact absurd hcs (by simp)
      simp [session, hw.occurrences, hnone]
  | cons c cs ih =>
      rw [session]
      cases hf : feed step s c with
      | running s' =>
          obtain ⟨ht', hw'⟩ := feed_running rec ht hw hf
          have hih := ih ht' hw'
          rw [wordBehind_cons_of_fresh hw']
          simpa using hih
      | returned f rest =>
          obtain ⟨u, rfl, hu, hfirst⟩ := feed_returned rec ht hw hf
          have hlen := session_length_le rec code rec.init (fresh_nil code) cs
          have hih := ih rec.init (fresh_nil code)
          rw [List.nil_append] at hlen hih
          rw [wordBehind_cons_of_firstEnd code hu hfirst, occurrences_firstEnd code hfirst,
            List.cons.injEq, not_or, not_not, ← hih]
          constructor
          · rintro ⟨_, hsplit⟩
            have hcount := congrArg List.length hsplit
            rw [List.length_append] at hcount
            have hnil : startsIn F rest cs.flatten = [] :=
              List.length_eq_zero_iff.mp (by omega)
            exact ⟨hnil, by rw [hsplit, hnil, List.nil_append]⟩
          · rintro ⟨hnil, hrest⟩
            exact ⟨rfl, by rw [hnil, List.nil_append, hrest]⟩

/-- **Repeated calls return every word of the stream, in order, iff no word
begins behind another word's end within one chunk.** -/
theorem session_eq_occurrences_iff (cs : List (List α)) :
    session step s0 s0 cs = occurrences F cs.flatten ↔ ¬ WordBehind F [] cs :=
  session_from_eq_occurrences_iff rec code rec.init (fresh_nil code)

/-- One symbol at a time, nothing is ever dropped. -/
theorem session_singletons (x : List α) :
    session step s0 s0 (x.map fun a => [a]) = occurrences F x := by
  have h := (session_eq_occurrences_iff rec code (x.map fun a => [a])).mpr
    (not_wordBehind_singletons [] x)
  rwa [← List.flatMap_def, List.flatMap_singleton'] at h

end Session

end Lib.Scanner
