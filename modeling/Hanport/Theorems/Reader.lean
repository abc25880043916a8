import Hanport.Logic.CrcField
import Hanport.Logic.Frames
import Hanport.Model.Main

/-!
# One call of `hpRead`

What one call recognises, what the validator makes of the frames it returns,
and what it does when the port goes dead.
-/

namespace Hanport.HpSerialRead

open Lib.Ascii Lib.Scanner Lib.MarkerCode

/-- **One call recognises the frame grammar.** For every sequence of reads: the
call has not returned as long as no prefix of the delivered bytes ends with a
frame, and it returns `f` exactly behind the shortest such prefix, whose frame
`f` is: the call stops inside the read that completes this prefix. -/
theorem hpRead_recognises (reads : List ReadResult) :
    (hpRead reads = none ↔ ∀ p, p <+: delivered reads → ¬ Ends IsFrame p) ∧
    ∀ f rest, hpRead reads = some (f, rest) ↔
      ∃ pre r a b, reads = pre ++ r :: rest ∧ r.bytes = a ++ b ∧ a ≠ [] ∧
        FirstEnd IsFrame (delivered pre ++ a) f :=
  ⟨hpRead_eq_none_iff reads, fun f rest => hpRead_eq_some_iff reads rest f⟩

/-! ## The frame in the validator -/

open HanportMessageValidator

/-- From any state of the reader, a `/` and a body leave it in the body. -/
theorem feed_body (s : Locals) {b : List Byte} (hs : slash ∉ b) (hb : bang ∉ b) :
    feed scanByte s (slash :: b) = .running ⟨true, false, 0, slash :: b⟩ := by
  have hbody : ∀ x m : List Byte, slash ∉ x → bang ∉ x →
      feed scanByte ⟨true, false, 0, m⟩ x = .running ⟨true, false, 0, m ++ x⟩ := by
    intro x
    induction x with
    | nil =>
        intro m _ _
        rw [feed, List.append_nil]
    | cons y x ih =>
        intro m hsx hbx
        simp only [List.mem_cons, not_or] at hsx hbx
        rw [feed, scanByte_body (Ne.symm hsx.1) (Ne.symm hbx.1)]
        simpa using ih (m ++ [y]) hsx.2 hbx.2
  rw [feed, scanByte_slash]
  exact hbody b [slash] hs hb

/-- The field is missing iff nothing is left of it without CR and LF. -/
theorem lessNewlines_eq_nil_iff (c : List Byte) :
    lessNewlines c = [] ↔ ∀ b ∈ c, b = '\r'.toUInt8 ∨ b = '\n'.toUInt8 := by
  unfold lessNewlines
  rw [List.filter_eq_nil_iff]
  refine forall₂_congr fun b _ => ?_
  rw [decide_eq_true_iff, not_and_or, not_not, not_not]

theorem extractCrc_missing_iff (raw : List Byte) (pos : ℕ) :
    extractCrc raw pos = .error "invalid data format, missing CRC value" ↔
      crcString raw pos = [] := by
  unfold extractCrc
  constructor
  · intro h
    by_contra hne
    rw [if_neg hne] at h
    split at h
    · cases h
    · rw [Except.error.injEq] at h
      exact absurd h (by decide)
  · intro h
    rw [if_pos h]

/-- Behind the cut, the constructor fails exactly as `extract_crc` does. -/
theorem new_eq_error_iff {raw data : List Byte} {pos : ℕ}
    (hm : extractMessage raw = .ok (pos, data)) (e : String) :
    new raw = .error e ↔ extractCrc raw pos = .error e := by
  unfold new
  split
  · rename_i e' he
    rw [hm] at he
    cases he
  · rename_i pos' data' hd
    rw [hm] at hd
    cases hd
    split
    · rename_i e' he
      rw [he, Except.error.injEq, Except.error.injEq]
    · rename_i crc hc
      exact ⟨nofun, fun h => by
        rw [hc] at h
        cases h⟩

/-- `extract_crc` never reports a missing `!`. -/
theorem extractCrc_ne_no_bang (raw : List Byte) (pos : ℕ) :
    extractCrc raw pos ≠ .error "no '!' found invalid dataformat" := by
  intro h
  unfold extractCrc at h
  split at h
  · rw [Except.error.injEq] at h
    exact absurd h (by decide)
  · split at h
    · cases h
    · rw [Except.error.injEq] at h
      exact absurd h (by decide)

/-- The first `try` block of `main` reports a missing `!` only when the
constructor does. -/
theorem new_of_validate_no_bang {raw : List Byte}
    (h : (Main.validate raw).2 = .error "no '!' found invalid dataformat") :
    new raw = .error "no '!' found invalid dataformat" := by
  cases hv : new raw with
  | error e =>
      simp only [Main.validate, hv, Except.error.injEq] at h ⊢
      exact h
  | ok v =>
      simp only [Main.validate, hv] at h
      split at h
      · have hchars := congrArg String.toList (Except.error.inj h)
        simp [toString] at hchars
      · unfold messageToStringArr at h
        split at h
        · exact absurd (Except.error.inj h) (by decide)
        · cases h

/-- **The reader and the validator agree on the frame.** For every `f` that a
call can return: it ends with a `!` at index `f.length - 5` and four bytes `c`;
whatever its state before `f`, the reader leaves the body with this `!`; the
validator cuts here without an error, and its CRC is what `std::stoi` reads from
`c` less CR and LF, missing iff all of `c` is CR or LF. In `main` no frame is refused for a missing
`!`. -/
theorem validator_reads_frame (f : List Byte) (hf : ∃ reads rest, hpRead reads = some (f, rest)) :
    ∃ m c, f = m ++ [bang] ++ c ∧ m.length = f.length - 5 ∧ c.length = 4 ∧
      (∀ s, feed scanByte s m = .running ⟨true, false, 0, m⟩ ∧
        feed scanByte s (m ++ [bang]) = .running ⟨true, true, 0, m ++ [bang]⟩) ∧
      extractMessage f = .ok (m.length, m ++ [bang]) ∧
      crcString f m.length = lessNewlines c ∧
      (∀ crc, extractCrc f m.length = .ok crc ↔
        ∃ n, Lib.Strtol.stoi16 (lessNewlines c) = .ok n ∧ crc = BitVec.ofInt 16 n) ∧
      (new f = .error "invalid data format, missing CRC value" ↔
        ∀ b ∈ c, b = '\r'.toUInt8 ∨ b = '\n'.toUInt8) ∧
      new f ≠ .error "no '!' found invalid dataformat" ∧
      (Main.validate f).2 ≠ .error "no '!' found invalid dataformat" := by
  obtain ⟨b, c, rfl, hs, hb, hlen, -⟩ := (hpRead_returns_iff f).mp hf
  have hbody : bang ∉ slash :: b := by
    simp only [List.mem_cons, not_or]
    exact ⟨slash_ne_bang.symm, hb⟩
  have hm : extractMessage (frame b c) = .ok ((slash :: b).length, slash :: b ++ [bang]) :=
    extractMessage_eq hbody c
  have hcrc : crcString (frame b c) (slash :: b).length = lessNewlines c :=
    crcString_eq (slash :: b) c
  have hno : new (frame b c) ≠ .error "no '!' found invalid dataformat" := fun h =>
    extractCrc_ne_no_bang _ _ ((new_eq_error_iff hm _).mp h)
  refine ⟨slash :: b, c, by simp [frame], ?_, hlen, fun s => ⟨feed_body s hs hb, ?_⟩, hm, hcrc,
    fun crc => ?_, ?_, hno, fun h => hno (new_of_validate_no_bang h)⟩
  · simp [frame, hlen, crcSize]
  · rw [feed_append, feed_body s hs hb]
    show feed scanByte _ [bang] = _
    rw [feed, scanByte_bang]
    rfl
  · rw [extractCrc_eq_ok_iff, hcrc]
  · rw [new_eq_error_iff hm, extractCrc_missing_iff, hcrc, lessNewlines_eq_nil_iff]

/-- The frame `/!` with four line ends behind it: the CRC is missing. -/
theorem validator_reads_frame_line_ends :
    new (ascii "/!\r\n\r\n") = .error "invalid data format, missing CRC value" := by
  obtain ⟨m, c, hf, -, hlen, -, -, -, -, hmissing, -, -⟩ := validator_reads_frame
    (ascii "/!\r\n\r\n") ⟨oneByteReads (ascii "/!\r\n\r\n"), [], rfl⟩
  have hc : c = ascii "\r\n\r\n" := by
    have hsplit : ascii "/!" ++ ascii "\r\n\r\n" = m ++ [bang] ++ c := hf
    exact (List.append_inj' hsplit (by rw [hlen]; rfl)).2.symm
  rw [hmissing, hc]
  simp [ascii]

/-! ## A dead port -/

/-- The first `k` results of `read()` on a port. -/
def firstReads (port : ℕ → ReadResult) (k : ℕ) : List ReadResult := (List.range k).map port

/-- From read `n` on the port gives 0 or -1 only. -/
def DeadFrom (port : ℕ → ReadResult) (n : ℕ) : Prop :=
  ∀ k, n ≤ k → ∃ i h, port k = .nothing i h ∧ (i = 0 ∨ i = -1)

/-- A dead port delivers nothing more. -/
theorem delivered_dead {port : ℕ → ReadResult} {n : ℕ} (hdead : DeadFrom port n) (j : ℕ) :
    delivered (firstReads port (n + j)) = delivered (firstReads port n) := by
  induction j with
  | zero => rfl
  | succ j ih =>
      obtain ⟨i, h, hport, -⟩ := hdead (n + j) (Nat.le_add_right n j)
      rw [← ih]
      simp [firstReads, delivered, ← Nat.add_assoc, List.range_succ, hport, ReadResult.bytes]

theorem delivered_firstReads_mono (port : ℕ → ReadResult) {j k : ℕ} (h : j ≤ k) :
    delivered (firstReads port j) <+: delivered (firstReads port k) := by
  obtain ⟨d, rfl⟩ := Nat.exists_eq_add_of_le h
  refine ⟨delivered ((List.range d).map fun i => port (j + i)), ?_⟩
  simp [firstReads, delivered, List.range_add, Function.comp_def]

/-- **On a dead port a call returns iff a frame was delivered.** For every port
that is dead after `n` reads: the call finishes after finitely many reads iff
some prefix of the bytes delivered ends with a frame. It finishes only with a
frame among these bytes; a `read()` that fails is made again, and there is no
other exit. -/
theorem hpRead_finishes_iff (port : ℕ → ReadResult) (n : ℕ) (hdead : DeadFrom port n) :
    ((∃ k f rest, hpRead (firstReads port k) = some (f, rest)) ↔
      ∃ p, p <+: delivered (firstReads port n) ∧ Ends IsFrame p) ∧
    ∀ k f rest, hpRead (firstReads port k) = some (f, rest) →
      IsFrame f ∧ f <:+: delivered (firstReads port n) := by
  have hstream : ∀ k, delivered (firstReads port k) <+: delivered (firstReads port n) := by
    intro k
    have hmono := delivered_firstReads_mono port (Nat.le_add_left k n)
    rwa [delivered_dead hdead] at hmono
  have hfound : ∀ {k f rest}, hpRead (firstReads port k) = some (f, rest) →
      ∃ p, p <+: delivered (firstReads port n) ∧ IsFrame f ∧ f <:+ p := by
    intro k f rest hread
    obtain ⟨pre, r, a, b, hreads, hr, -, hfirst⟩ := (hpRead_eq_some_iff _ _ _).mp hread
    have hp : delivered pre ++ a <+: delivered (firstReads port k) := by
      rw [hreads]
      exact ⟨b ++ delivered rest, by simp [delivered, hr]⟩
    exact ⟨_, hp.trans (hstream k), hfirst.word, hfirst.suffix⟩
  refine ⟨⟨?_, ?_⟩, ?_⟩
  · intro hfinishes
    obtain ⟨k, f, rest, hread⟩ := hfinishes
    obtain ⟨p, hp, hf, hsuffix⟩ := hfound hread
    exact ⟨p, hp, f, hf, hsuffix⟩
  · intro hends
    obtain ⟨p, hp, hends⟩ := hends
    have hsome : hpRead (firstReads port n) ≠ none := by
      intro hnone
      exact (hpRead_eq_none_iff _).mp hnone p hp hends
    obtain ⟨⟨f, rest⟩, hread⟩ := Option.ne_none_iff_exists'.mp hsome
    exact ⟨n, f, rest, hread⟩
  · intro k f rest hread
    obtain ⟨p, hp, hf, hsuffix⟩ := hfound hread
    exact ⟨hf, hsuffix.isInfix.trans hp.isInfix⟩

/-- A port that delivers the frame `/!0000` and dies. -/
theorem hpRead_finishes_after_frame :
    ∃ k f rest, hpRead (firstReads (fun k => if k = 0 then .chunk (ascii "/!0000") (by decide)
      else .nothing (-1) (by decide)) k) = some (f, rest) := by
  refine (hpRead_finishes_iff _ 1 fun k hk => ?_).1.mpr ?_
  · exact ⟨-1, by decide, if_neg (by omega), .inr rfl⟩
  · exact ⟨ascii "/!0000", List.prefix_refl _, ascii "/!0000",
      ⟨[], ascii "0000", rfl, by simp, by simp, rfl, by decide⟩, List.suffix_refl _⟩

/-- A port without a byte, whose every `read()` fails: the call never returns. -/
theorem hpRead_hangs :
    ¬ ∀ port n, DeadFrom port n → ∃ k f rest, hpRead (firstReads port k) = some (f, rest) := by
  intro hall
  have hdead : DeadFrom (fun _ => .nothing (-1) (by decide)) 0 := fun k _ =>
    ⟨-1, by decide, rfl, .inr rfl⟩
  obtain ⟨k, f, rest, hread⟩ := hall _ 0 hdead
  obtain ⟨pre, r, a, b, hreads, hr, hne, -⟩ := (hpRead_eq_some_iff _ _ _).mp hread
  have hmem : r ∈ firstReads (fun _ => .nothing (-1) (by decide)) k := by
    rw [hreads]
    simp
  obtain ⟨_, _, rfl⟩ := List.mem_map.mp hmem
  exact hne (List.append_eq_nil_iff.mp hr.symm).1

end Hanport.HpSerialRead
