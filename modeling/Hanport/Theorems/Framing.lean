import Hanport.Logic.Frames

/-!
# Which frames repeated calls of `hpRead` return

The framing state and the buffer live in one call, and a call returns in the
middle of a chunk, so what is behind a frame in the same `read()` result is
lost. Repeated calls return every frame of the stream iff no frame begins
there (`FrameBehind`); under that condition the cuts do not matter.
-/

namespace Hanport.HpSerialRead

open Lib.Ascii Lib.Scanner Lib.MarkerCode

/-- Some frame of the stream begins behind the last byte of another frame
inside one `read()` result: a frame ends with `a`, and a frame begins in the
rest `b` of that result. -/
def FrameBehind (reads : List ReadResult) : Prop :=
  ∃ pre r post a b, reads = pre ++ r :: post ∧ r.bytes = a ++ b ∧ a ≠ [] ∧
    Ends IsFrame (delivered pre ++ a) ∧
    ∃ i < b.length, Starts IsFrame (b.drop i ++ delivered post)

theorem frameBehind_iff (reads : List ReadResult) :
    FrameBehind reads ↔ WordBehind IsFrame [] (reads.map ReadResult.bytes) := by
  constructor
  · intro hbehind
    obtain ⟨pre, r, post, a, b, rfl, hr, hne, hends, hstart⟩ := hbehind
    refine ⟨pre.map ReadResult.bytes, a, b, post.map ReadResult.bytes, ?_, hne, hends, hstart⟩
    rw [List.map_append, List.map_cons, hr]
  · intro hbehind
    obtain ⟨pre, a, b, post, hmap, hne, hends, hstart⟩ := hbehind
    obtain ⟨pre', rest, rfl, rfl, hrest⟩ := List.map_eq_append_iff.mp hmap
    obtain ⟨r, post', rfl, hr, rfl⟩ := List.map_eq_cons_iff.mp hrest
    exact ⟨pre', r, post', a, b, rfl, hr, hne, hends, hstart⟩

/-- The one-byte cutting returns every frame of the stream. -/
theorem hpReadCalls_oneByteReads (n : ℕ) (stream : List Byte) :
    hpReadCalls n (oneByteReads stream) = (occurrences IsFrame stream).take n := by
  have hmap : (oneByteReads stream).map ReadResult.bytes = stream.map fun b => [b] := by
    simp [oneByteReads, ReadResult.bytes]
  rw [hpReadCalls_eq_calls, calls_eq_take, hmap,
    session_singletons scanByte_recognises isFrame_code]

/-- Repeated calls return all frames of the stream iff none is behind
another in one read. -/
theorem hpReadCalls_eq_occurrences_iff (reads : List ReadResult) :
    (∀ n, hpReadCalls n reads = (occurrences IsFrame (delivered reads)).take n) ↔
      ¬ FrameBehind reads := by
  have hsession := session_eq_occurrences_iff scanByte_recognises isFrame_code
    (reads.map ReadResult.bytes)
  have hsingle := session_singletons scanByte_recognises isFrame_code (delivered reads)
  rw [frameBehind_iff, ← hsession]
  show _ ↔ _ = occurrences IsFrame (delivered reads)
  rw [← hsingle, ← calls_eq_iff]
  refine forall_congr' fun n => ?_
  rw [hpReadCalls_eq_calls, calls_eq_take n ((delivered reads).map fun b => [b])]

/-- **Cut independence.** For every sequence of reads: the messages returned
by successive calls are those of the one-byte cutting, and they are all
frames of the stream, iff no frame begins behind another frame's last byte
inside one `read()` result. Against any other cutting of the stream that
satisfies the condition the same holds. -/
theorem hpRead_cut_independent_iff (reads : List ReadResult) :
    ((∀ n, hpReadCalls n reads = hpReadCalls n (oneByteReads (delivered reads))) ↔
      ¬ FrameBehind reads) ∧
    ((∀ n, hpReadCalls n reads = (occurrences IsFrame (delivered reads)).take n) ↔
      ¬ FrameBehind reads) ∧
    (∀ other, delivered other = delivered reads → ¬ FrameBehind other →
      ((∀ n, hpReadCalls n reads = hpReadCalls n other) ↔ ¬ FrameBehind reads)) := by
  have hall := hpReadCalls_eq_occurrences_iff reads
  refine ⟨?_, hall, ?_⟩
  · rw [← hall]
    exact forall_congr' fun n => by rw [hpReadCalls_oneByteReads]
  · intro other hsame hother
    rw [← hall]
    have hframes := (hpReadCalls_eq_occurrences_iff other).mpr hother
    exact forall_congr' fun n => by rw [hframes n, hsame]

/-- Two back-to-back frames in one read: the second frame is lost, while a
cut between them returns both. -/
theorem hpRead_cut_dependent :
    ¬ ∀ reads other : List ReadResult, delivered reads = delivered other →
      ∀ n, hpReadCalls n reads = hpReadCalls n other := by
  intro h
  have hlost := h [.chunk (ascii "/a!0000/b!1111") (by decide)]
    [.chunk (ascii "/a!0000") (by decide), .chunk (ascii "/b!1111") (by decide)]
    (by decide) 2
  exact absurd hlost (by decide)

end Hanport.HpSerialRead
