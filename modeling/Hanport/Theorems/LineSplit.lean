import Hanport.Model.HanportMessageValidator

/-!
# Splitting a message into its lines

`message_to_string_arr` splits the message part at its line feeds and drops
them. The part ends in `!`, so no empty last line is lost: joined by line feeds
the lines are the message part again.
-/

namespace Hanport.HanportMessageValidator

open Lib.Ascii Lib.Getline

/-- The raw message of an object: its message part up to the first `!`, and the
bytes behind. -/
theorem rawHpMessage_split (v : HanportMessageValidator) :
    ∃ body crc, v.rawHpMessage = body ++ '!'.toUInt8 :: crc ∧ '!'.toUInt8 ∉ body ∧
      v.hpMeterData = body ++ ['!'.toUInt8] := by
  have hext := v.extracted
  cases hfind : v.rawHpMessage.findIdx? (fun b => b = '!'.toUInt8) with
  | none =>
      unfold extractMessage at hext
      rw [hfind] at hext
      cases hext
  | some n =>
      obtain ⟨body, crc, hraw, -, hb⟩ := split_at_bang hfind
      rw [hraw, extractMessage_eq hb, Except.ok.injEq, Prod.mk.injEq] at hext
      exact ⟨body, crc, hraw, hb, hext.2.symm⟩

/-- **Line splitting loses nothing.** Of every raw message that the constructor
takes, `message_to_string_arr` gives lines without line feeds, which joined by
line feeds are the bytes of the message up to its first `!`. -/
theorem lines_join (raw : List Byte) (v : HanportMessageValidator) (h : new raw = .ok v) :
    ∃ lines body crc, v.messageToStringArr = .ok lines ∧
      (∀ line ∈ lines, newline ∉ line) ∧
      raw = body ++ '!'.toUInt8 :: crc ∧ '!'.toUInt8 ∉ body ∧
      [newline].intercalate lines = body ++ ['!'.toUInt8] := by
  rw [new_eq_ok_iff] at h
  obtain ⟨body, crc, hraw, hb, hdata⟩ := rawHpMessage_split v
  have hlast : v.hpMeterData.getLast? ≠ some newline := by
    rw [hdata, List.getLast?_concat]
    decide
  obtain ⟨hlines, hjoin⟩ := intercalate_getlines hlast
  refine ⟨getlines v.hpMeterData, body, crc, messageToStringArr_eq v, hlines, ?_, hb, ?_⟩
  · rw [← h, hraw]
  · rw [hjoin, hdata]

/-- A message with a CR, an empty line, a NUL and a byte above 127. -/
theorem lines_join_bytes :
    ∃ v lines body crc, new (ascii "/a\r\n\n" ++ [0, 200] ++ ascii "\n!0") = .ok v ∧
      v.messageToStringArr = .ok lines ∧ (∀ line ∈ lines, newline ∉ line) ∧
      ascii "/a\r\n\n" ++ [0, 200] ++ ascii "\n!0" = body ++ '!'.toUInt8 :: crc ∧
      '!'.toUInt8 ∉ body ∧ [newline].intercalate lines = body ++ ['!'.toUInt8] := by
  have hext : extractMessage (ascii "/a\r\n\n" ++ [0, 200] ++ ascii "\n!0") =
      .ok (8, ascii "/a\r\n\n" ++ [0, 200] ++ ascii "\n!") := rfl
  have htrans : extractCrc (ascii "/a\r\n\n" ++ [0, 200] ++ ascii "\n!0") 8 = .ok 0 := rfl
  have hnew := (new_eq_ok_iff (v := ⟨_, _, _, _, _, hext, htrans, rfl⟩)).mpr rfl
  obtain ⟨lines, body, crc, h⟩ := lines_join _ _ hnew
  exact ⟨_, lines, body, crc, hnew, h⟩

end Hanport.HanportMessageValidator
