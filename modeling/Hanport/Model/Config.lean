import Hanport.Lib.Getline
import Hanport.Lib.Store
import Hanport.Lib.Trim

/-!
# `Config`

The INI parser (config.cpp): sections, `key=value` pairs, and lines that it passes
over. The maps are functions to `Option`. A file that can be opened is its bytes;
the line number, which nothing reads, is left out.
-/

namespace Hanport

open Lib Lib.Ascii Lib.Getline

/-- The values of each section under their keys. -/
abbrev Config.Data : Type := List Byte → Option (List Byte → Option (List Byte))

structure Config where
  data : Config.Data := fun _ => none

namespace Config

def trim (s : List Byte) : List Byte := Trim.trim isSpace s

/-- `find` of one byte; `none` is `npos`. -/
def find (s : List Byte) (c : Byte) : Option ℕ := s.findIdx? (fun b => b = c)

/-- The loop over `;` and `#`: the earliest occurrence of either. -/
def commentPos (val : List Byte) : Option ℕ :=
  [';'.toUInt8, '#'.toUInt8].foldl
    (fun cpos c =>
      match find val c with
      | none => cpos
      | some p =>
          match cpos with
          | none => some p
          | some cpos => some (min cpos p))
    none

/-- The value without its inline comment. -/
def stripComment (val : List Byte) : List Byte :=
  match commentPos val with
  | none => val
  | some cpos => trim (val.take cpos)

/-- `data_[current_section][key] = val` -/
def Data.insert (data : Data) (currentSection key val : List Byte) : Data :=
  fun s =>
    if s = currentSection then
      some fun k => if k = key then some val else ((data s).getD fun _ => none) k
    else data s

/-- The locals of the loop that live across lines, and the maps. -/
structure Loading where
  currentSection : List Byte
  data : Data

/-- `[` in front and `]` at the back. -/
def isHeader (s : List Byte) : Bool :=
  s.head? = some '['.toUInt8 && s.getLast? = some ']'.toUInt8

/-- One pass of the loop. -/
def loadLine (p : Loading) (line : List Byte) : Loading :=
  let s := trim line
  if s = [] then p
  else if s.head? = some ';'.toUInt8 ∨ s.head? = some '#'.toUInt8 then p
  else if isHeader s then
    { p with currentSection := trim ((s.drop 1).take (s.length - 2)) }
  else
    match find s '='.toUInt8 with
    | none => p
    | some eq =>
        let key := trim (s.take eq)
        let val := trim (s.drop (eq + 1))
        let val := stripComment val
        { p with data := p.data.insert p.currentSection key val }

/-- `loadFromFile`; `none` is a file that cannot be opened, and the error is the text
that `err` is set to. -/
def loadFromFile (self : Config) (path : String) (file : Option (List Byte)) :
    Config × Except String Unit :=
  let self := { self with data := fun _ => none }
  match file with
  | none => (self, .error s!"Could not open config file: {path}")
  | some text =>
      ({ self with data := ((getlines text).foldl loadLine ⟨[], self.data⟩).data }, .ok ())

/-- `get` -/
def get (self : Config) (sec key defaultVal : List Byte) : List Byte :=
  match self.data sec with
  | none => defaultVal
  | some values =>
      match values key with
      | none => defaultVal
      | some val => val

end Config

end Hanport
