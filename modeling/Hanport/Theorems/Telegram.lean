import Hanport.Theorems.CrcField

/-!
# A telegram on its way through the reader and the validator

A telegram is the frame of a list of lines, each ended by a line feed, with
the CRC spelled behind the `!`. Whatever the noise before it and wherever
`read()` cuts the stream, the four stages (framing, cut at `!`, CRC, lines)
agree on it.
-/

namespace Hanport

open Lib.Ascii Lib.Getline HpSerialRead HanportMessageValidator

/-- The body of a telegram: its lines, each ended by a line feed. -/
def telegramBody (lines : List (List Byte)) : List Byte := lines.flatMap (· ++ [newline])

/-- A line that a telegram can carry. -/
def IsTelegramLine (l : List Byte) : Prop := slash ∉ l ∧ bang ∉ l ∧ newline ∉ l

section Body

variable {lines : List (List Byte)} (h : ∀ l ∈ lines, IsTelegramLine l)
include h

theorem slash_not_mem_telegramBody : slash ∉ telegramBody lines := by
  unfold telegramBody
  rw [List.mem_flatMap]
  intro hline
  obtain ⟨l, hl, hmem⟩ := hline
  rcases List.mem_append.mp hmem with hin | hin
  · exact (h l hl).1 hin
  · exact absurd (List.mem_singleton.mp hin) (by decide)

theorem bang_not_mem_telegramBody : bang ∉ telegramBody lines := by
  unfold telegramBody
  rw [List.mem_flatMap]
  intro hline
  obtain ⟨l, hl, hmem⟩ := hline
  rcases List.mem_append.mp hmem with hin | hin
  · exact (h l hl).2.1 hin
  · exact absurd (List.mem_singleton.mp hin) (by decide)

end Body

/-- A spelled CRC contains no `/`. -/
theorem slash_not_mem_of_spellsCrc {field : List Byte} {crc : BitVec 16}
    (h : SpellsCrc field crc) : slash ∉ field :=
  fun hmem => ne_of_isHexDigit (h.digit slash hmem) rfl rfl

/-- A telegram is a frame. -/
theorem isFrame_telegram {lines : List (List Byte)} {field : List Byte}
    (hl : ∀ l ∈ lines, IsTelegramLine l)
    (hc : SpellsCrc field (bodyCrc (telegramBody lines))) :
    IsFrame (frame (telegramBody lines) field) := by
  rw [isFrame_parts (bang_not_mem_telegramBody hl)]
  exact ⟨slash_not_mem_telegramBody hl, slash_not_mem_of_spellsCrc hc, hc.four⟩

/-- The message part of a telegram splits into its lines and the `!`. -/
theorem getlines_telegram {l0 : List Byte} {ls : List (List Byte)}
    (hl : ∀ l ∈ l0 :: ls, IsTelegramLine l) :
    getlines (slash :: telegramBody (l0 :: ls) ++ [bang]) =
      (slash :: l0) :: ls ++ [[bang]] := by
  have hlines : ∀ l ∈ (slash :: l0) :: ls, newline ∉ l := by
    intro l hmem
    rcases List.mem_cons.mp hmem with rfl | htail
    · rw [List.mem_cons, not_or]
      exact ⟨by decide, (hl l0 List.mem_cons_self).2.2⟩
    · exact (hl l (List.mem_cons_of_mem _ htail)).2.2
  have hlast : newline ∉ [bang] := by decide
  exact getlines_lines hlines (List.cons_ne_nil _ _) hlast

/-- **A correctly sent telegram is received intact.** Behind any noise on which
`hpRead` does not return, in any cutting of the stream, with the CRC in any
letter case: `hpRead` returns the frame, the constructor succeeds on it, the
CRCs agree, and the lines come out as they were sent. -/
theorem telegram_received {l0 : List Byte} {ls : List (List Byte)} {field noise after : List Byte}
    {reads : List ReadResult} (hl : ∀ l ∈ l0 :: ls, IsTelegramLine l)
    (hc : SpellsCrc field (bodyCrc (telegramBody (l0 :: ls))))
    (hnoise : hpRead (oneByteReads noise) = none)
    (hreads : delivered reads = noise ++ frame (telegramBody (l0 :: ls)) field ++ after) :
    (∃ rest, hpRead reads = some (frame (telegramBody (l0 :: ls)) field, rest)) ∧
    ∃ v, new (frame (telegramBody (l0 :: ls)) field) = .ok v ∧
      v.getCalculatedCrc = v.getTransmittedCrc ∧
      v.messageToStringArr = .ok ((slash :: l0) :: ls ++ [[bang]]) := by
  have hb := bang_not_mem_telegramBody hl
  constructor
  · have hfresh : Lib.MarkerCode.Fresh IsFrame noise := by
      have h := (hpRead_eq_none_iff (oneByteReads noise)).mp hnoise
      rwa [delivered_oneByteReads] at h
    exact hpRead_eq_some hreads (hfresh.firstEnd isFrame_code (isFrame_telegram hl hc))
  · obtain ⟨v, hv, hcrc⟩ := passes_of_spellsCrc hb hc
    refine ⟨v, hv, hcrc, ?_⟩
    have hbang : '!'.toUInt8 ∉ slash :: telegramBody (l0 :: ls) := by
      rw [List.mem_cons, not_or]
      exact ⟨slash_ne_bang.symm, hb⟩
    have hdata : v.hpMeterData = slash :: telegramBody (l0 :: ls) ++ [bang] := by
      have hext := v.extracted
      rw [new_eq_ok_iff.mp hv] at hext
      rw [show frame _ _ = (slash :: telegramBody (l0 :: ls)) ++ bang :: field from rfl,
        extractMessage_eq hbang, Except.ok.injEq, Prod.mk.injEq] at hext
      exact hext.2.symm
    rw [messageToStringArr_eq, hdata, getlines_telegram hl]

/-- The telegram of the lines `a` and `b` behind the noise `!/x`, cut inside
the frame. -/
theorem telegram_received_a_b :
    (∃ rest, hpRead [.chunk (ascii "!/x/a\nb") (by decide), .chunk (ascii "\n!E9dE") (by decide)] =
      some (ascii "/a\nb\n!E9dE", rest)) ∧
    ∃ v, new (ascii "/a\nb\n!E9dE") = .ok v ∧ v.getCalculatedCrc = v.getTransmittedCrc ∧
      v.messageToStringArr = .ok [ascii "/a", ascii "b", ascii "!"] := by
  have hl : ∀ l ∈ [ascii "a", ascii "b"], IsTelegramLine l := by
    unfold IsTelegramLine
    decide
  have hframe : frame (telegramBody [ascii "a", ascii "b"]) (ascii "E9dE") =
      ascii "/a\nb\n!E9dE" := by decide
  have hc : SpellsCrc (ascii "E9dE") (bodyCrc (telegramBody [ascii "a", ascii "b"])) :=
    ⟨rfl, List.all_eq_true.mp rfl, by decide +kernel⟩
  have hnoise : hpRead (oneByteReads (ascii "!/x")) = none := rfl
  have hreads : delivered [.chunk (ascii "!/x/a\nb") (by decide),
      .chunk (ascii "\n!E9dE") (by decide)] =
      ascii "!/x" ++ frame (telegramBody [ascii "a", ascii "b"]) (ascii "E9dE") ++ [] := rfl
  rw [← hframe]
  exact telegram_received hl hc hnoise hreads

end Hanport
