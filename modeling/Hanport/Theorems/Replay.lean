import Hanport.Logic.LineWrites

/-!
# Replaying a telegram

What a line does depends on the line alone, so the second run makes the writes of
the first again, up to the same failing line. On the way it may set a field to a
value of an earlier line, but at its end every field is where the first run left
it.
-/

namespace Hanport.HpDataParser

open Lib Lib.Ascii

/-- **Replaying a telegram changes nothing.** A second `parse_message` on the
object that the first one left, complete or not, has the outcome of the first and
leaves the object unchanged. -/
theorem parseMessage_replay (stof : List Byte → Option Binary32) (parser : HpDataParser)
    (d : HpData) :
    (parser.parseMessage stof (parser.parseMessage stof d).1).2 = (parser.parseMessage stof d).2 ∧
      (parser.parseMessage stof (parser.parseMessage stof d).1).1 =
        (parser.parseMessage stof d).1 := by
  unfold parseMessage
  rw [parseLines_eq, parseLines_eq]
  exact ⟨rfl, HpData.writeAll_twice _ d⟩

end Hanport.HpDataParser
