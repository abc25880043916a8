import Hanport.Lib.Delimiter
import Hanport.Model.HpSerialRead

/-!
# The frame grammar and the reader's invariant

A frame is `/ b ! c`: a body without `/` and `!`, and four bytes none of which
is `/`. Frames form a marker code (`isFrame_code`), and the flags, the counter
and the partial message of `hpRead` always describe the last `/` of the bytes
consumed so far (`Tracks`), so the reader recognises exactly this code
(`scanByte_recognises`).
-/

namespace Hanport.HpSerialRead

open Lib.Ascii Lib.Scanner Lib.MarkerCode Lib.Delimiter

abbrev slash : Byte := '/'.toUInt8

abbrev bang : Byte := '!'.toUInt8

theorem slash_ne_bang : slash ≠ bang := by decide

/-- The frame with body `b` and CRC field `c`. -/
def frame (b c : List Byte) : List Byte := slash :: b ++ bang :: c

/-- The frame grammar. -/
def IsFrame (f : List Byte) : Prop :=
  ∃ b c, f = frame b c ∧ slash ∉ b ∧ bang ∉ b ∧ c.length = crcSize ∧ slash ∉ c

/-- Frames begin with their only `/`, and the first `!` fixes their end. -/
theorem isFrame_code : IsMarkerCode slash IsFrame where
  shape := by
    intro f hf
    obtain ⟨b, c, rfl, hb, _, _, hc⟩ := hf
    refine ⟨b ++ bang :: c, rfl, ?_⟩
    simp only [List.mem_append, List.mem_cons, not_or]
    exact ⟨hb, slash_ne_bang, hc⟩
  prefixFree := by
    intro f g hf hg hprefix
    obtain ⟨b, c, rfl, _, hb, hclen, _⟩ := hf
    obtain ⟨b', c', rfl, _, hb', hclen', _⟩ := hg
    obtain ⟨x, hx⟩ := hprefix
    unfold frame at hx ⊢
    simp only [List.cons_append, List.append_assoc, List.cons.injEq, true_and] at hx
    obtain ⟨rfl, hc⟩ := first_split_unique hb hb' hx
    have hnil : x = [] := by
      have hlen := congrArg List.length hc
      rw [List.length_append, hclen, hclen'] at hlen
      exact List.length_eq_zero_iff.mp (by omega)
    rw [← hc, hnil, List.append_nil]

/-- What the locals of `hpRead` say about the bytes consumed since the call
began: no `/` yet, inside the body behind the last `/`, or inside the CRC
field behind the first `!` after the last `/`. -/
inductive Tracks : Locals → List Byte → Prop
  | outside {w} : slash ∉ w → Tracks {} w
  | body {u b} : slash ∉ b → bang ∉ b →
      Tracks ⟨true, false, 0, slash :: b⟩ (u ++ slash :: b)
  | crc {u b c} : slash ∉ b → bang ∉ b → slash ∉ c → c.length < crcSize →
      Tracks ⟨true, true, c.length, frame b c⟩ (u ++ frame b c)

/-- A frame that ends `u ++ '/' :: v` with no `/` in `v` begins at that `/`. -/
theorem ends_after_slash {u v : List Byte} (hv : slash ∉ v)
    (h : Ends IsFrame (u ++ slash :: v)) : IsFrame (slash :: v) := by
  obtain ⟨f, hf, p, hp⟩ := h
  obtain ⟨t, rfl, ht⟩ := isFrame_code.shape hf
  obtain ⟨_, rfl⟩ := last_split_unique ht hv hp
  exact hf

theorem not_ends_of_no_slash {w : List Byte} (hw : slash ∉ w) : ¬ Ends IsFrame w := by
  intro hends
  obtain ⟨f, hf, hsuf⟩ := hends
  obtain ⟨t, rfl, _⟩ := isFrame_code.shape hf
  exact hw (hsuf.subset (by simp))

/-- A `/` and what follows it is no frame while at most its last byte is `!`. -/
theorem not_isFrame_body {b : List Byte} {x : Byte} (hb : bang ∉ b) :
    ¬ IsFrame (slash :: (b ++ [x])) := by
  intro hframe
  obtain ⟨b', c, hf, _, hb', hlen, _⟩ := hframe
  unfold frame at hf
  simp only [List.cons_append, List.cons.injEq, true_and] at hf
  rcases List.append_eq_append_iff.mp hf with ⟨y, rfl, hy⟩ | ⟨y, rfl, hy⟩
  · have hlen' := congrArg List.length hy
    simp only [List.length_append, List.length_cons, List.length_nil, hlen, crcSize] at hlen'
    omega
  · cases y with
    | nil =>
        have hlen' := congrArg List.length hy
        simp [hlen, crcSize] at hlen'
    | cons z y =>
        rw [List.cons_append, List.cons.injEq] at hy
        exact hb (by simp [hy.1])

/-- The parts of a frame that is split at its first `!`. -/
theorem isFrame_parts {b c : List Byte} (hb : bang ∉ b) :
    IsFrame (frame b c) ↔ slash ∉ b ∧ slash ∉ c ∧ c.length = crcSize := by
  constructor
  · intro hframe
    obtain ⟨b', c', hf, hs, hb', hlen, hc⟩ := hframe
    unfold frame at hf
    simp only [List.cons_append, List.cons.injEq, true_and] at hf
    obtain ⟨rfl, rfl⟩ := first_split_unique hb hb' hf
    exact ⟨hs, hc, hlen⟩
  · intro hparts
    obtain ⟨hs, hc, hlen⟩ := hparts
    exact ⟨b, c, rfl, hs, hb, hlen, hc⟩

theorem frame_concat (b c : List Byte) (x : Byte) : frame b c ++ [x] = frame b (c ++ [x]) := by
  simp [frame]

/-! ## The scan, phase by phase -/

/-- `/` restarts from any state, even inside the CRC field. -/
theorem scanByte_slash (s : Locals) : scanByte s slash = .inl ⟨true, false, 0, [slash]⟩ := rfl

theorem scanByte_outside {x : Byte} (hx : x ≠ slash) : scanByte {} x = .inl {} := by
  simp [scanByte, hx]

theorem scanByte_bang (n : ℕ) (m : List Byte) :
    scanByte ⟨true, false, n, m⟩ bang = .inl ⟨true, true, 0, m ++ [bang]⟩ := rfl

theorem scanByte_body {x : Byte} (hx : x ≠ slash) (hb : x ≠ bang) (n : ℕ) (m : List Byte) :
    scanByte ⟨true, false, n, m⟩ x = .inl ⟨true, false, n, m ++ [x]⟩ := by
  simp [scanByte, hx, hb]

/-- In the CRC field a `!` is data. -/
theorem scanByte_crc {x : Byte} (hx : x ≠ slash) (n : ℕ) (m : List Byte) :
    scanByte ⟨true, true, n, m⟩ x =
      if n + 1 = crcSize then .inr (m ++ [x]) else .inl ⟨true, true, n + 1, m ++ [x]⟩ := by
  simp [scanByte, hx]

/-- One byte takes the description of the bytes before it to the description
of the bytes with it, and the call returns exactly when a frame has ended. -/
theorem scanByte_tracks {s : Locals} {w : List Byte} (x : Byte) (ht : Tracks s w) :
    (∃ s', scanByte s x = .inl s' ∧ Tracks s' (w ++ [x]) ∧ ¬ Ends IsFrame (w ++ [x])) ∨
    (∃ f, scanByte s x = .inr f ∧ IsFrame f ∧ f <:+ w ++ [x]) := by
  by_cases hx : x = slash
  · subst hx
    refine .inl ⟨_, scanByte_slash s, .body (by simp) (by simp), fun hends => ?_⟩
    obtain ⟨b, c, hf, _⟩ := ends_after_slash List.not_mem_nil hends
    simp [frame] at hf
  · have hx' : slash ∉ [x] := by simpa using Ne.symm hx
    cases ht with
    | outside hw =>
        have hwx : slash ∉ w ++ [x] := by simp [hw, Ne.symm hx]
        exact .inl ⟨_, scanByte_outside hx, .outside hwx, not_ends_of_no_slash hwx⟩
    | @body u b hs hb =>
        have hsx : slash ∉ b ++ [x] := by simp [hs, Ne.symm hx]
        have hends : ¬ Ends IsFrame (u ++ slash :: b ++ [x]) := by
          intro h
          rw [List.append_assoc, List.cons_append] at h
          exact not_isFrame_body hb (ends_after_slash hsx h)
        by_cases hxb : x = bang
        · subst hxb
          refine .inl ⟨_, scanByte_bang _ _, ?_, hends⟩
          have hcrc : Tracks ⟨true, true, 0, frame b []⟩ (u ++ frame b []) :=
            .crc hs hb List.not_mem_nil (by decide)
          simpa [frame] using hcrc
        · refine .inl ⟨_, scanByte_body hx hxb _ _, ?_, hends⟩
          have hbody : Tracks ⟨true, false, 0, slash :: (b ++ [x])⟩ (u ++ slash :: (b ++ [x])) :=
            .body hsx (by simp [hb, Ne.symm hxb])
          simpa using hbody
    | @crc u b c hs hb hc hlen =>
        have hcx : slash ∉ c ++ [x] := by simp [hc, Ne.symm hx]
        rw [scanByte_crc hx, frame_concat, List.append_assoc, frame_concat]
        by_cases hfull : c.length + 1 = crcSize
        · rw [if_pos hfull]
          refine .inr ⟨_, rfl, (isFrame_parts hb).mpr ⟨hs, hcx, ?_⟩, List.suffix_append _ _⟩
          rw [List.length_append, List.length_singleton, hfull]
        · rw [if_neg hfull]
          refine .inl ⟨_, rfl, ?_, fun hends => hfull ?_⟩
          · have hcrc : Tracks ⟨true, true, (c ++ [x]).length, frame b (c ++ [x])⟩
                (u ++ frame b (c ++ [x])) := .crc hs hb hcx (by simp; omega)
            simpa using hcrc
          · have hsuffix : slash ∉ b ++ bang :: (c ++ [x]) := by
              simp only [List.mem_append, List.mem_cons, not_or] at hcx ⊢
              exact ⟨hs, slash_ne_bang, hcx⟩
            have hframe := (isFrame_parts hb).mp (ends_after_slash hsuffix hends)
            simpa using hframe.2.2

/-- **The reader recognises the frame grammar.** -/
theorem scanByte_recognises : Recognises scanByte {} IsFrame Tracks where
  init := .outside List.not_mem_nil
  next := by
    intro s w x s' ht hs
    rcases scanByte_tracks x ht with ⟨s1, hs1, h⟩ | ⟨f, hf, _⟩
    · rw [hs] at hs1
      cases hs1
      exact h
    · rw [hs] at hf
      cases hf
  done := by
    intro s w x f ht hs
    rcases scanByte_tracks x ht with ⟨s1, hs1, _⟩ | ⟨g, hg, h⟩
    · rw [hs] at hs1
      cases hs1
    · rw [hs] at hg
      cases hg
      exact h

/-! ## What one call returns -/

/-- A call does not return while no prefix of the stream ends with a frame. -/
theorem hpRead_eq_none_iff (reads : List ReadResult) :
    hpRead reads = none ↔ Fresh IsFrame (delivered reads) := by
  rw [hpRead_eq_none, call_eq_none scanByte_recognises isFrame_code]
  rfl

/-- A call returns the first frame that ends in the stream. -/
theorem hpRead_eq_some {reads : List ReadResult} {u z f : List Byte}
    (hstream : delivered reads = u ++ z) (hfirst : FirstEnd IsFrame u f) :
    ∃ rest, hpRead reads = some (f, rest) := by
  obtain ⟨rest, hcall⟩ := call_eq_some scanByte_recognises isFrame_code hstream hfirst
  rw [← readLoop_call, Option.map_eq_some_iff] at hcall
  obtain ⟨⟨g, after⟩, hread, hg⟩ := hcall
  cases hg
  exact ⟨after, hread⟩

/-- A call returns inside the read in which a frame first ends, and leaves the
reads behind it. -/
theorem hpRead_eq_some_iff (reads rest : List ReadResult) (f : List Byte) :
    hpRead reads = some (f, rest) ↔
      ∃ pre r a b, reads = pre ++ r :: rest ∧ r.bytes = a ++ b ∧ a ≠ [] ∧
        FirstEnd IsFrame (delivered pre ++ a) f := by
  constructor
  · intro hread
    obtain ⟨pre, r, rfl⟩ := readLoop_rest hread
    have hcall : call scanByte {} ((pre ++ r :: rest).map ReadResult.bytes) =
        some (f, rest.map ReadResult.bytes) := by
      rw [← readLoop_call]
      exact congrArg (Option.map _) hread
    obtain ⟨pre', a, b, hcut, hne, hfirst⟩ :=
      call_some scanByte_recognises scanByte_recognises.init (fresh_nil isFrame_code) hcall
    rw [List.map_append, List.map_cons] at hcut
    obtain ⟨hpre, hchunk⟩ := List.append_inj' hcut (by simp)
    rw [List.cons.injEq] at hchunk
    refine ⟨pre, r, a, b, rfl, hchunk.1, hne, ?_⟩
    rw [← hpre] at hfirst
    exact hfirst
  · intro hcut
    obtain ⟨pre, r, a, b, rfl, hr, hne, hfirst⟩ := hcut
    have hcall : call scanByte {} ((pre ++ r :: rest).map ReadResult.bytes) =
        some (f, rest.map ReadResult.bytes) := by
      rw [List.map_append, List.map_cons, hr]
      exact call_of_firstEnd scanByte_recognises isFrame_code scanByte_recognises.init
        (fresh_nil isFrame_code) hne hfirst
    rw [← readLoop_call, Option.map_eq_some_iff] at hcall
    obtain ⟨⟨g, after⟩, hread, hg⟩ := hcall
    obtain ⟨rfl, hafter⟩ := Prod.mk.inj hg
    obtain ⟨pre', r', hsame⟩ := readLoop_rest hread
    have hlen : after.length = rest.length := by simpa using congrArg List.length hafter
    obtain ⟨_, htail⟩ := List.append_inj' hsame (by simp [hlen])
    rw [List.cons.injEq] at htail
    obtain ⟨-, rfl⟩ := htail
    exact hread

/-- The messages that calls can return are the frames. -/
theorem hpRead_returns_iff (f : List Byte) :
    (∃ reads rest, hpRead reads = some (f, rest)) ↔ IsFrame f := by
  constructor
  · intro hreturned
    obtain ⟨reads, rest, hread⟩ := hreturned
    have hcall : call scanByte {} (reads.map ReadResult.bytes) =
        some (f, rest.map ReadResult.bytes) := by
      rw [← readLoop_call]
      exact congrArg (Option.map _) hread
    obtain ⟨_, _, _, _, _, hfirst⟩ :=
      call_some scanByte_recognises scanByte_recognises.init (fresh_nil isFrame_code) hcall
    exact hfirst.word
  · intro hf
    have hfirst := (fresh_nil isFrame_code).firstEnd isFrame_code hf
    have hstream : delivered (oneByteReads f) = [] ++ f ++ [] := by simp
    obtain ⟨rest, hread⟩ := hpRead_eq_some hstream hfirst
    exact ⟨_, rest, hread⟩

end Hanport.HpSerialRead
