import Hanport.Lib.Ascii
import Hanport.Lib.Scanner

/-!
# `hpSerialRead`

The reader of the serial port (hpSerialRead.cpp). `hpRead` blocks in
`read()`, scans each chunk byte by byte for a frame `/ ... !` plus four CRC
bytes, and returns the frame in the middle of the chunk; the framing state
and the 256-byte buffer are locals of the call. `openPort` opens the device and
sets its attributes. The echo of each byte to standard output is not modelled.
-/

namespace Hanport.HpSerialRead

open Lib.Ascii Lib.Scanner

/-- What one `read(serial_fd, read_buff, 256)` gives: a result ≤ 0, or the
number of bytes it put into the buffer, as those bytes. -/
inductive ReadResult where
  | nothing (numOfBytes : Int) (h : numOfBytes ≤ 0)
  | chunk (bytes : List Byte) (h : 0 < bytes.length ∧ bytes.length ≤ 256)
  deriving DecidableEq

/-- The bytes a read delivers. -/
def ReadResult.bytes : ReadResult → List Byte
  | .nothing _ _ => []
  | .chunk bytes _ => bytes

/-- The byte stream that a sequence of reads delivers. -/
def delivered (reads : List ReadResult) : List Byte := (reads.map ReadResult.bytes).flatten

def crcSize : ℕ := 4

/-- The locals of one call of `hpRead`. -/
structure Locals where
  readingMessage : Bool := false
  endFound : Bool := false
  crcBytesRead : ℕ := 0
  message : List Byte := []
  deriving DecidableEq, Repr

/-- One pass of the `for` body: the locals after it, or the returned
message. -/
def scanByte (s : Locals) (byte : Byte) : Locals ⊕ List Byte :=
  if byte = '/'.toUInt8 then
    .inl { readingMessage := true, endFound := false, crcBytesRead := 0, message := [byte] }
  else if byte = '!'.toUInt8 ∧ s.readingMessage = true ∧ s.endFound = false then
    .inl { s with message := s.message ++ [byte], endFound := true, crcBytesRead := 0 }
  else if s.endFound = true then
    if s.crcBytesRead + 1 = crcSize then .inr (s.message ++ [byte])
    else .inl { s with message := s.message ++ [byte], crcBytesRead := s.crcBytesRead + 1 }
  else if s.readingMessage = true then
    .inl { s with message := s.message ++ [byte] }
  else .inl s

/-- The `while (true)` loop from given locals: the returned message and the
reads still to come, or `none` while the call has not returned. Bytes of a
chunk behind the returned message are lost with `read_buff`. -/
def readLoop (s : Locals) : List ReadResult → Option (List Byte × List ReadResult)
  | [] => none
  | .nothing _ _ :: reads => readLoop s reads
  | .chunk bytes _ :: reads =>
      match feed scanByte s bytes with
      | .running s' => readLoop s' reads
      | .returned message _ => some (message, reads)

def hpRead (reads : List ReadResult) : Option (List Byte × List ReadResult) :=
  readLoop {} reads

/-- The messages of the first `n` calls of `hpRead`, one after the other. -/
def hpReadCalls : ℕ → List ReadResult → List (List Byte)
  | 0, _ => []
  | n + 1, reads =>
      match hpRead reads with
      | none => []
      | some (message, rest) => message :: hpReadCalls n rest

/-- All messages that calls return on these reads; each call takes at least one. -/
def frames (reads : List ReadResult) : List (List Byte) := hpReadCalls reads.length reads

/-- The stream delivered one byte per `read()`. -/
def oneByteReads (stream : List Byte) : List ReadResult :=
  stream.map fun b => .chunk [b] (by simp)

@[simp] theorem delivered_oneByteReads (stream : List Byte) :
    delivered (oneByteReads stream) = stream := by
  simp [delivered, oneByteReads, Function.comp_def, ReadResult.bytes, ← List.flatMap_def]

/-! ## Opening the port -/

/-- `struct termios` -/
structure Termios where
  cIflag : BitVec 32
  cOflag : BitVec 32
  cCflag : BitVec 32
  cLflag : BitVec 32
  cLine : Byte
  cCc : Vector Byte 32
  cIspeed : BitVec 32
  cOspeed : BitVec 32
  deriving DecidableEq

/-! The flags and places of termios.h of Linux. -/

def ignbrk : BitVec 32 := 0o1
def brkint : BitVec 32 := 0o2
def parmrk : BitVec 32 := 0o10
def istrip : BitVec 32 := 0o40
def inlcr : BitVec 32 := 0o100
def igncr : BitVec 32 := 0o200
def icrnl : BitVec 32 := 0o400
def ixon : BitVec 32 := 0o2000
def ixany : BitVec 32 := 0o4000
def ixoff : BitVec 32 := 0o10000
def ibaud0 : BitVec 32 := 0o20000000000

def cbaud : BitVec 32 := 0o10017
def cbaudex : BitVec 32 := 0o10000
def csize : BitVec 32 := 0o60
def cs8 : BitVec 32 := 0o60
def cstopb : BitVec 32 := 0o100
def cread : BitVec 32 := 0o200
def parenb : BitVec 32 := 0o400
def clocal : BitVec 32 := 0o4000
def crtscts : BitVec 32 := 0o20000000000

def isig : BitVec 32 := 0o1
def icanon : BitVec 32 := 0o2

def vtime : ℕ := 5
def vmin : ℕ := 6

def b57600 : BitVec 32 := 0o10001
def b115200 : BitVec 32 := 0o10002
def maxBaud : BitVec 32 := 0o10017

def hpSetupCflag (tty : Termios) : Termios :=
  let tty := { tty with cCflag := tty.cCflag &&& ~~~parenb }
  let tty := { tty with cCflag := tty.cCflag &&& ~~~cstopb }
  let tty := { tty with cCflag := tty.cCflag &&& ~~~csize }
  let tty := { tty with cCflag := tty.cCflag ||| cs8 }
  let tty := { tty with cCflag := tty.cCflag &&& ~~~crtscts }
  { tty with cCflag := tty.cCflag ||| (cread ||| clocal) }

def hpSetupLflag (tty : Termios) : Termios :=
  let tty := { tty with cLflag := tty.cLflag &&& ~~~icanon }
  { tty with cLflag := tty.cLflag &&& ~~~isig }

def hpSetupIflag (tty : Termios) : Termios :=
  let tty := { tty with cIflag := tty.cIflag &&& ~~~(ixon ||| ixoff ||| ixany) }
  { tty with
    cIflag := tty.cIflag &&&
      ~~~(ignbrk ||| brkint ||| parmrk ||| istrip ||| inlcr ||| igncr ||| icrnl) }

def hpSetupCc (tty : Termios) : Termios :=
  { tty with cCc := (tty.cCc.set vtime 10).set vmin 1 }

/-- `cfsetispeed` of the GNU library before 2.42, less its result, which `setupPort` does not
look at. The control flags have one speed for both directions. -/
def cfsetispeed (tty : Termios) (speed : BitVec 32) : Termios :=
  if speed &&& ~~~cbaud ≠ 0 ∧ (speed < b57600 ∨ maxBaud < speed) then tty
  else
    let tty := { tty with cIspeed := speed }
    if speed = 0 then { tty with cIflag := tty.cIflag ||| ibaud0 }
    else
      let tty := { tty with cIflag := tty.cIflag &&& ~~~ibaud0 }
      let tty := { tty with cCflag := tty.cCflag &&& ~~~(cbaud ||| cbaudex) }
      { tty with cCflag := tty.cCflag ||| speed }

/-- What the calls on the device give: the descriptor of `open`, the attributes of
`tcgetattr`, and whether `tcsetattr` accepts the new ones. -/
structure PortEnv where
  serialFd : ℤ
  attributes : Option Termios
  accepted : Bool

/-- The attributes that `setupPort` sets, or the text of its exception. -/
def setupPort (env : PortEnv) : Except String Termios :=
  match env.attributes with
  | none => .error "Failed to get attributes for serial port"
  | some tty =>
      let tty := cfsetispeed
        (hpSetupCc (hpSetupIflag (hpSetupLflag (hpSetupCflag tty)))) b115200
      if env.accepted then .ok tty else .error "Failed to set attributes for serial port"

/-- `openPort` -/
def openPort (env : PortEnv) (serialPortPath : String) : Except String Termios :=
  if env.serialFd < 0 then .error s!"Failed to open serial port: {serialPortPath}"
  else setupPort env

/-! ## The reader as a scanner of chunks -/

/-- A read that delivers nothing is an empty chunk. -/
theorem readLoop_call (s : Locals) (reads : List ReadResult) :
    (readLoop s reads).map (Prod.map id (List.map ReadResult.bytes)) =
      call scanByte s (reads.map ReadResult.bytes) := by
  induction reads generalizing s with
  | nil => rfl
  | cons r reads ih =>
      cases r with
      | nothing k h => exact ih s
      | chunk bytes h =>
          rw [readLoop, List.map_cons, call, ReadResult.bytes]
          cases feed scanByte s bytes with
          | running s' => exact ih s'
          | returned message rest => rfl

theorem hpRead_eq_none {reads : List ReadResult} :
    hpRead reads = none ↔ call scanByte {} (reads.map ReadResult.bytes) = none := by
  rw [← readLoop_call, Option.map_eq_none_iff]
  rfl

/-- A call returns inside a read that it has consumed. -/
theorem readLoop_rest {s : Locals} {reads rest : List ReadResult} {message : List Byte}
    (h : readLoop s reads = some (message, rest)) : ∃ pre r, reads = pre ++ r :: rest := by
  induction reads generalizing s with
  | nil => cases h
  | cons r reads ih =>
      cases r with
      | nothing k hk =>
          obtain ⟨pre, r, rfl⟩ := ih h
          exact ⟨.nothing k hk :: pre, r, rfl⟩
      | chunk bytes hb =>
          rw [readLoop] at h
          cases hf : feed scanByte s bytes with
          | running s' =>
              rw [hf] at h
              obtain ⟨pre, r, rfl⟩ := ih h
              exact ⟨.chunk bytes hb :: pre, r, rfl⟩
          | returned m z =>
              rw [hf] at h
              cases h
              exact ⟨[], .chunk bytes hb, rfl⟩

theorem hpReadCalls_eq_calls (n : ℕ) (reads : List ReadResult) :
    hpReadCalls n reads = calls scanByte {} n (reads.map ReadResult.bytes) := by
  induction n generalizing reads with
  | zero => rfl
  | succ n ih =>
      rw [hpReadCalls, calls, ← readLoop_call]
      unfold hpRead
      cases readLoop {} reads with
      | none => rfl
      | some p => exact congrArg (p.1 :: ·) (ih p.2)

end Hanport.HpSerialRead
