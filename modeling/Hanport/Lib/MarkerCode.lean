import Mathlib

/-!
# Marker codes

A *marker code* is a set of words in which every word begins with one fixed
symbol, the marker, that occurs nowhere else in the word, and in which no
word is a proper prefix of another. Occurrences of such words in a stream
never overlap, so the words of a stream form a well-defined sequence:

* **uniqueness**: at most one word begins at a position (`headWord_eq`);
* **disjointness**: a word that ends a stream is not cut through by a word
  that runs past it (`not_straddle`);
* **concatenation**: the words of `x ++ y` are those that begin in `x`,
  followed by those of `y` (`occurrences_append`);
* **first word**: the shortest prefix that ends with a word contributes
  exactly that word (`FirstEnd.occurrences`).
-/

namespace Lib.MarkerCode

variable {α : Type*}

/-- The words of `F` begin with `m`, contain it nowhere else, and are
prefix-free. -/
structure IsMarkerCode (m : α) (F : List α → Prop) : Prop where
  shape : ∀ {f}, F f → ∃ t, f = m :: t ∧ m ∉ t
  prefixFree : ∀ {f g}, F f → F g → f <+: g → f = g

/-- Some word of the code begins the stream. -/
def Starts (F : List α → Prop) (w : List α) : Prop := ∃ f, F f ∧ f <+: w

/-- Some word of the code ends the stream. -/
def Ends (F : List α → Prop) (w : List α) : Prop := ∃ f, F f ∧ f <:+ w

/-- No prefix of the stream ends with a word. -/
def Fresh (F : List α → Prop) (w : List α) : Prop := ∀ p, p <+: w → ¬ Ends F p

/-- The stream ends with the word `f`, and no shorter prefix of it ends with
any word. -/
structure FirstEnd (F : List α → Prop) (w f : List α) : Prop where
  word : F f
  suffix : f <:+ w
  shorter : ∀ p, p <+: w → p ≠ w → ¬ Ends F p

open Classical in
/-- The word at the head of the stream, as a list of at most one. -/
noncomputable def headWord (F : List α → Prop) (w : List α) : List (List α) :=
  if h : Starts F w then [h.choose] else []

/-- The words of a stream in the order of their first symbols. -/
noncomputable def occurrences (F : List α → Prop) : List α → List (List α)
  | [] => []
  | a :: w => headWord F (a :: w) ++ occurrences F w

/-- The words that begin inside `x` when the stream goes on with `y`. -/
noncomputable def startsIn (F : List α → Prop) : List α → List α → List (List α)
  | [], _ => []
  | a :: x, y => headWord F (a :: x ++ y) ++ startsIn F x y

section Basic

variable {F : List α → Prop}

theorem headWord_eq_nil {w : List α} (h : ¬ Starts F w) : headWord F w = [] := by
  simp [headWord, h]

theorem headWord_ne_nil {w : List α} (h : Starts F w) : headWord F w ≠ [] := by
  simp [headWord, h]

/-- The words of a concatenation, split by where they begin. -/
theorem occurrences_append (x y : List α) :
    occurrences F (x ++ y) = startsIn F x y ++ occurrences F y := by
  induction x with
  | nil => rfl
  | cons a x ih =>
      rw [List.cons_append, occurrences, ih, startsIn, List.append_assoc,
        List.cons_append]

theorem startsIn_append (x y z : List α) :
    startsIn F (x ++ y) z = startsIn F x (y ++ z) ++ startsIn F y z := by
  induction x with
  | nil => rfl
  | cons a x ih =>
      rw [List.cons_append, startsIn, ih, startsIn, List.append_assoc]
      simp only [List.cons_append, List.append_assoc]

/-- No word begins inside `x` iff none begins at any of its positions. -/
theorem startsIn_eq_nil_iff (x y : List α) :
    startsIn F x y = [] ↔ ∀ i < x.length, ¬ Starts F (x.drop i ++ y) := by
  induction x with
  | nil => simp [startsIn]
  | cons a x ih =>
      rw [startsIn, List.append_eq_nil_iff, ih]
      constructor
      · intro hnone i hi
        obtain ⟨hhead, hrest⟩ := hnone
        cases i with
        | zero => exact fun hs => headWord_ne_nil hs hhead
        | succ i => exact hrest i (by simpa using hi)
      · intro h
        refine ⟨headWord_eq_nil (h 0 (by simp)), fun i hi => ?_⟩
        exact h (i + 1) (by simpa using hi)

/-- A fresh stream stays fresh under a symbol that ends no word. -/
theorem Fresh.concat {w : List α} {a : α} (hw : Fresh F w) (ha : ¬ Ends F (w ++ [a])) :
    Fresh F (w ++ [a]) := by
  intro p hp
  rcases List.prefix_concat_iff.mp hp with rfl | hp'
  · exact ha
  · exact hw p hp'

theorem FirstEnd.ends {u f : List α} (h : FirstEnd F u f) : Ends F u :=
  ⟨f, h.word, h.suffix⟩

/-- A fresh stream has no words. -/
theorem Fresh.occurrences {w : List α} (h : Fresh F w) : MarkerCode.occurrences F w = [] := by
  rw [← List.append_nil w, occurrences_append, MarkerCode.occurrences, List.append_nil,
    startsIn_eq_nil_iff]
  intro i hi hstart
  obtain ⟨g, hg, q, hq⟩ := hstart
  rw [List.append_nil] at hq
  refine h (w.take i ++ g) ⟨q, ?_⟩ ⟨g, hg, List.suffix_append _ _⟩
  rw [List.append_assoc, hq, List.take_append_drop]

end Basic

section Code

variable {m : α} {F : List α → Prop} (code : IsMarkerCode m F)
include code

theorem word_ne_nil {f : List α} (hf : F f) : f ≠ [] := by
  obtain ⟨t, rfl, _⟩ := code.shape hf
  simp

theorem fresh_nil : Fresh F [] := by
  intro p hp hends
  obtain ⟨f, hf, hsuf⟩ := hends
  rw [List.prefix_nil.mp hp] at hsuf
  exact word_ne_nil code hf (List.suffix_nil.mp hsuf)

/-- Two words that begin one stream are the same word. -/
theorem starts_unique {f g w : List α} (hf : F f) (hg : F g)
    (hfw : f <+: w) (hgw : g <+: w) : f = g := by
  rcases List.prefix_or_prefix_of_prefix hfw hgw with h | h
  · exact code.prefixFree hf hg h
  · exact (code.prefixFree hg hf h).symm

theorem headWord_eq {f w : List α} (hf : F f) (hfw : f <+: w) : headWord F w = [f] := by
  have hs : Starts F w := ⟨f, hf, hfw⟩
  have huniq := starts_unique code hs.choose_spec.1 hf hs.choose_spec.2 hfw
  simp [headWord, hs, huniq]

/-- The marker inside a word can only be its first symbol. -/
theorem split_word {f p s : List α} (hf : F f) (hsplit : f = p ++ m :: s) : p = [] := by
  obtain ⟨t, rfl, ht⟩ := code.shape hf
  cases p with
  | nil => rfl
  | cons a p =>
      simp only [List.cons_append, List.cons.injEq] at hsplit
      exact absurd (hsplit.2 ▸ by simp) ht

/-- No word begins where the marker does not occur. -/
theorem startsIn_of_not_mem {x : List α} (hx : m ∉ x) (y : List α) :
    startsIn F x y = [] := by
  rw [startsIn_eq_nil_iff]
  intro i hi hstart
  obtain ⟨f, hf, hpre⟩ := hstart
  obtain ⟨t, rfl, _⟩ := code.shape hf
  rw [List.drop_eq_getElem_cons hi, List.cons_append, List.cons_prefix_cons] at hpre
  exact hx (hpre.1 ▸ List.getElem_mem hi)

/-- A word that ends `w` and a word that runs from inside `w` past its end
cannot both occur. -/
theorem not_straddle {w z s f g : List α} (hf : F f) (hfw : f <:+ w) (hg : F g)
    (hgs : g = s ++ z) (hsw : s <:+ w) (hs : s ≠ []) (hz : z ≠ []) : False := by
  obtain ⟨t, rfl, _⟩ := code.shape hf
  obtain ⟨t', hg', _⟩ := code.shape hg
  obtain ⟨s', rfl⟩ : ∃ s', s = m :: s' := by
    cases s with
    | nil => exact absurd rfl hs
    | cons a s' =>
        rw [hg', List.cons_append, List.cons.injEq] at hgs
        exact ⟨s', by rw [hgs.1]⟩
  -- both words carry the marker at their own head only, so they start together
  have hsame : m :: s' = m :: t := by
    rcases List.suffix_or_suffix_of_suffix hsw hfw with ⟨p, hp⟩ | ⟨p, hp⟩
    · rw [split_word code hf hp.symm, List.nil_append] at hp
      exact hp
    · have hgp : g = p ++ m :: (t ++ z) := by
        rw [hgs, ← hp]
        simp
      rw [split_word code hg hgp, List.nil_append] at hp
      exact hp.symm
  have hpre : m :: t <+: g := by
    rw [hgs, hsame]
    exact List.prefix_append _ _
  have heq := code.prefixFree hf hg hpre
  rw [hgs, hsame] at heq
  exact hz (List.self_eq_append_right.mp heq)

/-- A word behind a fresh stream is the first one to end. -/
theorem Fresh.firstEnd {w f : List α} (hw : Fresh F w) (hf : F f) :
    FirstEnd F (w ++ f) f where
  word := hf
  suffix := List.suffix_append w f
  shorter := by
    intro p hprefix hne hends
    obtain ⟨z, hp⟩ := hprefix
    obtain ⟨g, hg, hgp⟩ := hends
    rcases List.append_eq_append_iff.mp hp with ⟨s, hs, _⟩ | ⟨s, rfl, rfl⟩
    · exact hw p ⟨s, hs.symm⟩ ⟨g, hg, hgp⟩
    · have hz : z ≠ [] := by
        rintro rfl
        exact hne (by rw [List.append_nil])
      by_cases hs : s = []
      · subst hs
        rw [List.append_nil] at hgp
        exact hw w (List.prefix_refl w) ⟨g, hg, hgp⟩
      · exact not_straddle code hg hgp hf rfl (List.suffix_append w s) hs hz

/-- The first end of a stream, and the word there, are determined by the
stream. -/
theorem FirstEnd.unique {u v f g w : List α} (hu : FirstEnd F u f) (hv : FirstEnd F v g)
    (huw : u <+: w) (hvw : v <+: w) : f = g := by
  have hsame : u = v := by
    by_contra hne
    rcases List.prefix_or_prefix_of_prefix huw hvw with h | h
    · exact hv.shorter u h hne hu.ends
    · exact hu.shorter v h (Ne.symm hne) hv.ends
  subst hsame
  obtain ⟨t, rfl, _⟩ := code.shape hu.word
  obtain ⟨t', rfl, _⟩ := code.shape hv.word
  rcases List.suffix_or_suffix_of_suffix hu.suffix hv.suffix with ⟨p, hp⟩ | ⟨p, hp⟩
  · rw [split_word code hv.word hp.symm, List.nil_append] at hp
    exact hp
  · rw [split_word code hu.word hp.symm, List.nil_append] at hp
    exact hp.symm

/-- The shortest prefix that ends with a word contributes that word and no
other to the words of the stream. -/
theorem FirstEnd.occurrences {u f : List α} (h : FirstEnd F u f) (z : List α) :
    occurrences F (u ++ z) = f :: MarkerCode.occurrences F z := by
  obtain ⟨v, rfl⟩ := h.suffix
  obtain ⟨t, hft, ht⟩ := code.shape h.word
  have hbefore : startsIn F v (f ++ z) = [] := by
    rw [startsIn_eq_nil_iff]
    intro i hi hstart
    obtain ⟨g, hg, hpre⟩ := hstart
    have hdrop : v.drop i ≠ [] := by simpa using hi
    rcases List.prefix_or_prefix_of_prefix hpre (List.prefix_append (v.drop i) (f ++ z))
      with ⟨q, hq⟩ | ⟨q, hq⟩
    · -- the word is over before `f` begins, so an earlier prefix ends with it
      refine h.shorter (v.take i ++ g) ⟨q ++ f, ?_⟩ ?_ ⟨g, hg, List.suffix_append _ _⟩
      · rw [List.append_assoc, ← List.append_assoc g, hq, ← List.append_assoc,
          List.take_append_drop]
      · intro he
        have hlen := congrArg List.length he
        have hqlen := congrArg List.length hq
        have hfpos := List.length_pos_iff.mpr (word_ne_nil code h.word)
        simp only [List.length_append, List.length_take, List.length_drop] at hlen hqlen
        omega
    · cases q with
      | nil =>
          rw [List.append_nil] at hq
          refine h.shorter v (List.prefix_append v f) ?_ ⟨g, hg, hq ▸ List.drop_suffix i v⟩
          intro he
          exact word_ne_nil code h.word (List.self_eq_append_right.mp he)
      | cons a q =>
          -- the word runs into `f`, whose marker would not be at its head
          rw [← hq, hft, List.prefix_append_right_inj, List.cons_append,
            List.cons_prefix_cons] at hpre
          rw [hpre.1] at hq
          exact hdrop (split_word code hg hq.symm)
  have hinside : startsIn F f z = [f] := by
    rw [hft, startsIn, startsIn_of_not_mem code ht, List.append_nil, ← hft]
    exact headWord_eq code h.word (List.prefix_append f z)
  rw [occurrences_append, startsIn_append, hbefore, hinside]
  rfl

end Code

end Lib.MarkerCode
