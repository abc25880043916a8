import Hanport.Model.HpData

/-!
# `hpDataParser`

The parser of the lines of a telegram (hpDataParser.cpp). `std::stof` enters as
a parameter: `none` is an exception. Positions are cast to `int` and back as in
the source, with `npos` becoming -1. `parse_message` changes the object line by
line, so its result is the object together with the outcome, and an exception
leaves the object as the lines before it made it. `parse_time` is not called
anywhere and is left out.
-/

namespace Hanport

open Lib Lib.Ascii

/-- The object: a message of at least one line, as the constructor checks. -/
structure HpDataParser where
  messageArray : List (List Byte)
  nonempty : messageArray ≠ []

namespace HpDataParser

/-- The constructor. -/
def new (messageArray : List (List Byte)) : Except String HpDataParser :=
  if h : messageArray = [] then
    .error "object initialisation failed: message_array is empty"
  else .ok ⟨messageArray, h⟩

/-! ## `std::string` -/

/-- `find` of one byte; `none` is `npos`. -/
def find (line : List Byte) (c : Byte) : Option ℕ := line.findIdx? (fun b => b = c)

/-- `static_cast<int>` of a position; `npos` is `2^64 - 1`. -/
def toInt : Option ℕ → ℤ
  | some pos => (BitVec.ofNat 32 pos).toInt
  | none => -1

/-- `(int)std::string::npos` -/
def intNpos : ℤ := -1

/-- An `int` argument as a `size_t`. -/
def toSize (n : ℤ) : ℕ := (n % 2 ^ 64).toNat

/-- `substr` of `int` arguments; `none` is `std::out_of_range`. -/
def substr (line : List Byte) (pos count : ℤ) : Option (List Byte) :=
  if toSize pos ≤ line.length then some ((line.drop (toSize pos)).take (toSize count))
  else none

/-! ## The parser -/

/-- The branches of `parse_electricity_data` in their order: the OBIS code that
is compared and the field that is assigned. -/
def branches : List (String × Field) :=
  [("1-0:1.8.0", .activeEnergyImportTotal),
   ("1-0:2.8.0", .activeEnergyExportTotal),
   ("1-0:3.8.0", .reactiveEnergyImportTotal),
   ("1-0:4.8.0", .reactiveEnergyExportTotal),
   ("1-0:1.7.0", .activePowerImport),
   ("1-0:2.7.0", .activePowerExport),
   ("1-0:3.7.0", .reactivePowerImport),
   ("1-0:4.7.0", .reactivePowerExport),
   ("1-0:21.7.0", .l1ActivePowerImport),
   ("1-0:22.7.0", .l1ActivePowerExport),
   ("1-0:41.7.0", .l2ActivePowerImport),
   ("1-0:42.7.0", .l2ActivePowerExport),
   ("1-0:61.7.0", .l3ActivePowerImport),
   ("1-0:62.7.0", .l3ActivePowerExport),
   ("1-0:23.7.0", .l1ReactivePowerImport),
   ("1-0:24.7.0", .l1ReactivePowerExport),
   ("1-0:43.7.0", .l2ReactivePowerImport),
   ("1-0:44.7.0", .l2ReactivePowerExport),
   -- the comment of this branch says import
   ("1-0:63.7.0", .l3ReactivePowerExport),
   ("1-0:64.7.0", .l3ReactivePowerExport),
   ("1-0:32.7.0", .l1VoltageRms),
   ("1-0:52.7.0", .l2VoltageRms),
   ("1-0:72.7.0", .l3VoltageRms),
   ("1-0:31.7.0", .l1CurrentRms),
   ("1-0:51.7.0", .l2CurrentRms),
   ("1-0:71.7.0", .l3CurrentRms)]

/-- The field of the first branch that compares equal. -/
def target (obisCode : List Byte) : Option Field :=
  (branches.find? fun p => ascii p.1 = obisCode).map Prod.snd

/-- `line.substr(0, line.find('('))` -/
def obisCode (line : List Byte) : List Byte := line.takeWhile fun b => b ≠ '('.toUInt8

/-- The lines that `parse_message` skips: without `-`, or with the code of the
time stamp. -/
def Skipped (line : List Byte) : Prop :=
  '-'.toUInt8 ∉ line ∨ ascii "0-0:1.0.0" <:+: line

instance (line : List Byte) : Decidable (Skipped line) :=
  inferInstanceAs (Decidable (_ ∨ _))

section Parser

variable (stof : List Byte → Option Binary32)

/-- `set_value`: the value between `(` and `*`. -/
def setValue (line : List Byte) : Except String Binary32 :=
  let startPos := toInt (find line '('.toUInt8)
  if startPos = intNpos then .error "failed to locate '(' in value line"
  else
    let startPos := startPos + 1
    let endPos := toInt (find line '*'.toUInt8)
    if endPos = intNpos then .error "failed to locate '*' in value line"
    else
      let readXChars := endPos - startPos
      match (substr line startPos readXChars).bind stof with
      | some value => .ok value
      | none => .error "failed to convert string to float for value"

/-- `parse_electricity_data`; the notice about an unknown code is not
modelled. -/
def parseElectricityData (line code : List Byte) (dtObj : HpData) : Except String HpData :=
  match target code with
  | some f => (setValue stof line).map fun value => dtObj.set f value
  | none => .ok dtObj

/-- The loop of `parse_message` over the lines. -/
def parseLines : List (List Byte) → HpData → HpData × Except String Unit
  | [], dtObj => (dtObj, .ok ())
  | line :: rest, dtObj =>
      if Skipped line then parseLines rest dtObj
      else match parseElectricityData stof line (obisCode line) dtObj with
        | .ok dtObj' => parseLines rest dtObj'
        | .error e => (dtObj, .error e)

/-- `parse_message`: the object and the outcome. -/
def parseMessage (parser : HpDataParser) (dtObj : HpData) : HpData × Except String Unit :=
  parseLines stof parser.messageArray dtObj

end Parser

end HpDataParser

end Hanport
