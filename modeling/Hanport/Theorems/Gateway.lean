import Hanport.Lib.Boundaries
import Hanport.Logic.Gateway
import Hanport.Theorems.Checksum
import Hanport.Theorems.Exposure
import Hanport.Theorems.Telegram

/-!
# From the serial line to the publisher and the registers

Three results about the program as a whole. Noise on the line takes away no telegram
that begins with a read of its own; what the program hands to the publisher and to the
Modbus server is what the gateway shows for the frames of the line; and over a line
with noise and damaged telegrams it shows the intact telegrams and nothing else.
-/

namespace Hanport.HpSerialRead

open Lib.Ascii Lib.Scanner Lib.MarkerCode

/-! ## Noise -/

theorem frames_eq_session (reads : List ReadResult) :
    frames reads = session scanByte {} {} (reads.map ReadResult.bytes) := by
  unfold frames
  rw [hpReadCalls_eq_calls]
  exact calls_length _ (by rw [List.length_map])

/-- The first `n` calls return the first `n` frames. -/
theorem hpReadCalls_eq_take (n : ℕ) (reads : List ReadResult) :
    hpReadCalls n reads = (frames reads).take n := by
  rw [hpReadCalls_eq_calls, calls_eq_take, frames_eq_session]

theorem isFrame_of_mem_hpReadCalls {n : ℕ} {reads : List ReadResult} {f : List Byte}
    (h : f ∈ hpReadCalls n reads) : IsFrame f := by
  induction n generalizing reads with
  | zero => cases h
  | succ n ih =>
      rw [hpReadCalls] at h
      cases hr : hpRead reads with
      | none =>
          rw [hr] at h
          cases h
      | some p =>
          rw [hr] at h
          rcases List.mem_cons.mp h with rfl | htail
          · exact (hpRead_returns_iff p.1).mp ⟨reads, p.2, hr⟩
          · exact ih htail

theorem isFrame_of_mem_frames {reads : List ReadResult} {f : List Byte}
    (h : f ∈ frames reads) : IsFrame f :=
  isFrame_of_mem_hpReadCalls h

theorem restart_slash (s : Locals) : scanByte s slash = scanByte {} slash :=
  scanByte_slash s

/-- The chunks of noise and of the reads behind it. -/
def chunks (p : List ReadResult × List ReadResult) : List (List Byte) × List (List Byte) :=
  (p.1.map ReadResult.bytes, p.2.map ReadResult.bytes)

/-- Frames in reads of their own, among the frames of the reads around them. -/
theorem frames_segments (segments : List (List ReadResult × List ReadResult))
    (h : ∀ p ∈ segments, IsFrame (delivered p.2)) (after : List ReadResult) :
    frames ((segments.flatMap fun p => p.1 ++ p.2) ++ after) =
      (segments.flatMap fun p => frames p.1 ++ [delivered p.2]) ++ frames after := by
  have hwords : ∀ p ∈ segments.map chunks, IsFrame p.2.flatten := List.forall_mem_map.mpr h
  have hreads : ((segments.flatMap fun p => p.1 ++ p.2) ++ after).map ReadResult.bytes =
      ((segments.map chunks).flatMap fun p => p.1 ++ p.2) ++ after.map ReadResult.bytes := by
    simp [chunks, List.map_flatMap, List.flatMap_map]
  rw [frames_eq_session, hreads,
    session_segments scanByte_recognises isFrame_code hwords restart_slash, List.flatMap_map]
  simp only [chunks, ← frames_eq_session]
  rfl

/-- A frame among other reads. -/
theorem frames_around (before : List ReadResult) {reads : List ReadResult}
    (hframe : IsFrame (delivered reads)) (after : List ReadResult) :
    frames (before ++ reads ++ after) = frames before ++ [delivered reads] ++ frames after := by
  have hline := frames_segments [(before, reads)] (List.forall_mem_singleton.mpr hframe) after
  simpa only [List.flatMap_cons, List.flatMap_nil, List.append_nil] using hline

/-- A frame alone on the line. -/
theorem frames_alone {reads : List ReadResult} (hframe : IsFrame (delivered reads)) :
    frames reads = [delivered reads] := by
  have hline := frames_around [] hframe []
  rwa [List.nil_append, List.append_nil] at hline

/-- **Noise loses no telegram.** Frames that fill reads of their own, each behind any
reads whatever, are returned by successive calls in their order. In between come the
frames that the reads in front of each give on their own, and behind them those of the
rest. -/
theorem frames_behind_noise (segments : List (List ReadResult × List ReadResult))
    (h : ∀ p ∈ segments, IsFrame (delivered p.2)) (after : List ReadResult) (n : ℕ) :
    hpReadCalls n ((segments.flatMap fun p => p.1 ++ p.2) ++ after) =
      ((segments.flatMap fun p => frames p.1 ++ [delivered p.2]) ++ frames after).take n := by
  rw [hpReadCalls_eq_take, frames_segments segments h]

/-- Two frames in reads of their own, the second behind the beginning of a third. -/
theorem frames_behind_noise_two :
    hpReadCalls 3 ([.chunk (ascii "!/x") (by decide), .chunk (ascii "/a!00") (by decide),
        .chunk (ascii "00") (by decide), .chunk (ascii "/b!1") (by decide),
        .chunk (ascii "/c!2222") (by decide)] ++ []) =
      [ascii "/a!0000", ascii "/c!2222"] := by
  have hframe : ∀ p ∈ ([([.chunk (ascii "!/x") (by decide)],
        [.chunk (ascii "/a!00") (by decide), .chunk (ascii "00") (by decide)]),
      ([.chunk (ascii "/b!1") (by decide)], [.chunk (ascii "/c!2222") (by decide)])] :
        List (List ReadResult × List ReadResult)), IsFrame (delivered p.2) := by
    simp only [List.forall_mem_cons]
    exact ⟨⟨ascii "a", ascii "0000", rfl, by decide, by decide, rfl, by decide⟩,
      ⟨ascii "c", ascii "2222", rfl, by decide, by decide, rfl, by decide⟩, List.forall_mem_nil _⟩
  exact frames_behind_noise _ hframe [] 3

end Hanport.HpSerialRead

namespace Hanport.Main

open Lib Lib.Ascii Lib.BitPoly Lib.Getline HpModbuss HpSerialRead HanportMessageValidator
  HpDataParser

/-! ## Any line -/

/-- A start that hands over the initial object shows the initial snapshot. -/
theorem shown_of_handed_initial {log : List Event} (h : log.filterMap handed = [(.modbus, {})]) :
    log.filterMap shown = [(.modbus, ({} : Gateway).snapshot)] := by
  have hinitial : snapshotOf {} = ({} : Gateway).snapshot := by
    unfold snapshotOf Gateway.snapshot
    congr 1
    funext f
    cases f <;> rfl
  rw [filterMap_shown, h, ← hinitial]
  rfl

theorem shown_boot (env : Env) (port : BitVec 32) (startEnv : StartEnv) :
    (boot env port startEnv).2.filterMap shown = [(.modbus, ({} : Gateway).snapshot)] :=
  shown_of_handed_initial (handed_boot env port startEnv)

theorem arrivals_cyclesFrom (env : Env) (attempts : ℕ → ℕ → HpMqttPub.Attempt)
    (messages : List (List Byte)) :
    ((cyclesFrom attempts 0 messages).map fun c => arrival env c.message) =
      messages.map (arrival env) := by
  rw [← map_message_cyclesFrom attempts 0 messages, List.map_map, map_message_cyclesFrom]
  rfl

theorem heartbeat_program (env : Env) (port : BitVec 32) (startEnv : StartEnv)
    (attempts : ℕ → ℕ → HpMqttPub.Attempt) (reads : List ReadResult) :
    (program env port startEnv attempts reads).1.heartbeat =
      BitVec.ofNat 32 (frames reads).length := by
  have hcounted := Reactive.counted_run (counted_boot env port startEnv)
    (fun _ _ c h => counted_iteration env c h) (cyclesFrom attempts 0 (frames reads))
    (Nat.le_refl _)
  rw [List.take_length, length_cyclesFrom] at hcounted
  rw [program_eq]
  exact hcounted.heartbeat

/-- **The program is the gateway.** Whatever the reads of the serial port, however they
cut the stream, and whatever the publish attempts meet: the objects handed to the
publisher and to the Modbus server are, one by one, what the gateway shows for the
frames of the line, behind the initial values of the registers, and the locals of `main`
are its state. The frames are fewer than `2^31`, so that the `int` of the heartbeat counts
them. -/
theorem program_refines (env : Env) (port : BitVec 32) (startEnv : StartEnv)
    (attempts : ℕ → ℕ → HpMqttPub.Attempt) (reads : List ReadResult)
    (hsize : (frames reads).length < 2 ^ 31) :
    (program env port startEnv attempts reads).2.filterMap shown =
      (.modbus, ({} : Gateway).snapshot) :: Gateway.shows ((frames reads).map (arrival env)) ∧
    Represents (program env port startEnv attempts reads).1
      (Reactive.run Gateway.step {} ((frames reads).map (arrival env))).1 ∧
    (program env port startEnv attempts reads).1.heartbeat.toInt = (frames reads).length := by
  have hcount : (program env port startEnv attempts reads).1.heartbeat.toInt =
      (frames reads).length := by
    rw [heartbeat_program, toInt_ofNat_of_lt hsize]
  have hrun := Reactive.run_simulates (iteration_simulates env)
    (represents_boot env port startEnv) (cyclesFrom attempts 0 (frames reads))
  rw [arrivals_cyclesFrom] at hrun
  refine ⟨?_, ?_, hcount⟩
  · rw [program_eq, List.filterMap_append, shown_boot]
    exact congrArg _ hrun.2
  · rw [program_eq]
    exact hrun.1

/-- Noise, a telegram of 2 kWh in two reads, a failed read, and a frame that does not pass. -/
def fourReads : List ReadResult :=
  [.chunk (ascii "!x/\n1-0:1.8.0(2*k") (by decide), .chunk (ascii "Wh)\n!B3D3") (by decide),
    .nothing (-1) (by decide), .chunk (ascii "/a!0000") (by decide)]

theorem program_refines_two :
    (program bgsLokal 502 ⟨true, true, 3, none⟩ (fun _ _ => .delivered) fourReads).2.filterMap
        shown =
      (.modbus, ({} : Gateway).snapshot) ::
        Gateway.shows ((frames fourReads).map (arrival bgsLokal)) ∧
    Represents (program bgsLokal 502 ⟨true, true, 3, none⟩ (fun _ _ => .delivered) fourReads).1
      (Reactive.run Gateway.step {} ((frames fourReads).map (arrival bgsLokal))).1 ∧
    (program bgsLokal 502 ⟨true, true, 3, none⟩ (fun _ _ => .delivered)
      fourReads).1.heartbeat.toInt = 2 := by
  have htwo : frames fourReads = [ascii "/\n1-0:1.8.0(2*kWh)\n!B3D3", ascii "/a!0000"] := rfl
  have hline := program_refines bgsLokal 502 ⟨true, true, 3, none⟩ (fun _ _ => .delivered) fourReads
    (by rw [htwo]; decide)
  rwa [congrArg List.length htwo] at hline

/-! ## A line with noise and damaged telegrams -/

/-- The body arrives damaged, in a way that the CRC catches: no `/` and no `!` among its
bytes, and the differing bits within 16 positions, odd in number, or two that are less
than 32767 apart. -/
structure Damaged (sent arrived : List Byte) : Prop where
  length : sent.length = arrived.length
  differs : sent ≠ arrived
  noSlash : slash ∉ arrived
  noBang : bang ∉ arrived
  caught : (∃ a, ∀ k ∈ differing (messageBits sent) (messageBits arrived), a ≤ k ∧ k < a + 16) ∨
    Odd (differing (messageBits sent) (messageBits arrived)).card ∨
    ∃ i j, i < j ∧ j - i < 32767 ∧ differing (messageBits sent) (messageBits arrived) = {i, j}

/-- A damaged body has another CRC. -/
theorem Damaged.bodyCrc_ne {sent arrived : List Byte} (h : Damaged sent arrived) :
    bodyCrc sent ≠ bodyCrc arrived := by
  intro hcrc
  -- the `/` and the `!` around both bodies are the same
  have hsame := (calculateCrc_context h.length [slash] [bang]).mp hcrc
  rcases h.caught with ⟨a, hburst⟩ | hodd | ⟨i, j, hij, hnear, hpair⟩
  · exact crc_ne_of_burst h.length h.differs hburst hsame
  · exact crc_ne_of_odd h.length hodd hsame
  · exact crc_ne_of_pair h.length hij hnear hpair hsame

/-- A telegram on the line: reads before it that hold no usable frame, the lines it was
sent with, its CRC field, and the body with which it arrives in reads of its own. -/
structure Transmission where
  noise : List ReadResult
  reads : List ReadResult
  title : List Byte
  lines : List (List Byte)
  field : List Byte
  arrived : List Byte

namespace Transmission

/-- The body as it was sent. -/
def sent (t : Transmission) : List Byte := telegramBody (t.title :: t.lines)

structure Valid (t : Transmission) : Prop where
  noise : ∀ f ∈ frames t.noise, ¬ Passes f
  line : ∀ l ∈ t.title :: t.lines, IsTelegramLine l
  crc : SpellsCrc t.field (bodyCrc t.sent)
  delivers : delivered t.reads = frame t.arrived t.field
  intact_or_damaged : t.arrived = t.sent ∨ Damaged t.sent t.arrived

/-- What it is to the gateway: a cycle without a telegram for each frame of the noise, and
one with the values of its lines, up to the first that cannot be read, if it is intact. -/
def arrivals (env : Env) (t : Transmission) : List Arrival :=
  List.replicate (frames t.noise).length .unusable ++
    [if t.arrived = t.sent then
      .telegram ((t.lines.takeWhile (succeeds env.stof)).filterMap (lineWrite env.stof))
    else .unusable]

end Transmission

/-- No code of the table begins with `/`. -/
theorem target_slash (code : List Byte) : target (slash :: code) = none := by
  have hfirst : ∀ p ∈ branches, slash ∉ ascii p.1 := by
    intro p hp hmem
    have hall : branches.all (fun p => slash ∉ ascii p.1) = true := rfl
    exact of_decide_eq_true (List.all_eq_true.mp hall p hp) hmem
  unfold target
  rw [Option.map_eq_none_iff, List.find?_eq_none]
  intro p hp heq
  refine hfirst p hp ?_
  rw [of_decide_eq_true heq]
  exact List.mem_cons_self

/-- The first line of a telegram and its `!` write nothing. -/
theorem writes_of_telegram_lines (stof : List Byte → Option Binary32) (title : List Byte)
    (lines : List (List Byte)) :
    (((slash :: title) :: lines ++ [[bang]]).takeWhile (succeeds stof)).filterMap
        (lineWrite stof) =
      (lines.takeWhile (succeeds stof)).filterMap (lineWrite stof) := by
  have htitle : lineEffect stof (slash :: title) = .ok none := by
    have hcode : obisCode (slash :: title) = slash :: obisCode title := rfl
    unfold lineEffect
    rw [hcode, target_slash]
    exact ite_self _
  -- a line without `-` is skipped
  have hbang : lineEffect stof [bang] = .ok none := if_pos (.inl (by decide))
  have hsucceeds : succeeds stof (slash :: title) = true := by
    unfold HpDataParser.succeeds
    rw [htitle]
  have hlast : ([[bang]].takeWhile (succeeds stof)).filterMap (lineWrite stof) = [] := by
    simp [HpDataParser.succeeds, lineWrite, hbang]
  rw [List.cons_append, List.takeWhile_cons_of_pos hsucceeds, List.takeWhile_append]
  unfold lineWrite at hlast ⊢
  -- the `!` is read only if all lines before it could be
  split_ifs with hall
  · have hsame : lines.takeWhile (succeeds stof) = lines :=
      (List.takeWhile_prefix _).eq_of_length hall
    rw [List.filterMap_cons_none (by rw [htitle]), List.filterMap_append, hlast, hsame,
      List.append_nil]
  · rw [List.filterMap_cons_none (by rw [htitle])]

/-- The validator's message part of a frame. -/
theorem hpMeterData_frame {body field : List Byte} (hb : bang ∉ body)
    {v : HanportMessageValidator} (hv : new (frame body field) = .ok v) :
    v.hpMeterData = slash :: body ++ [bang] := by
  have hbang : '!'.toUInt8 ∉ slash :: body := by
    rw [List.mem_cons, not_or]
    exact ⟨slash_ne_bang.symm, hb⟩
  have hext := v.extracted
  rw [new_eq_ok_iff.mp hv, show frame body field = (slash :: body) ++ bang :: field from rfl,
    extractMessage_eq hbang, Except.ok.injEq, Prod.mk.injEq] at hext
  exact hext.2.symm

/-- A genuine telegram writes what its lines write. -/
theorem messageWrites_telegram (env : Env) {title : List Byte} {lines : List (List Byte)}
    {field : List Byte} (hl : ∀ l ∈ title :: lines, IsTelegramLine l)
    (hc : SpellsCrc field (bodyCrc (telegramBody (title :: lines)))) :
    messageWrites env (frame (telegramBody (title :: lines)) field) =
      (lines.takeWhile (succeeds env.stof)).filterMap (lineWrite env.stof) := by
  have hb := bang_not_mem_telegramBody hl
  obtain ⟨v, hv, hcrc⟩ := passes_of_spellsCrc hb hc
  have hlines : (validate (frame (telegramBody (title :: lines)) field)).2 =
      .ok ((slash :: title) :: lines ++ [[bang]]) := by
    unfold validate
    rw [hv]
    dsimp only
    rw [if_neg (not_not_intro hcrc), messageToStringArr_eq, hpMeterData_frame hb hv,
      getlines_telegram hl]
  unfold messageWrites
  rw [hlines]
  exact writes_of_telegram_lines env.stof title lines

theorem arrival_of_not_passes (env : Env) {f : List Byte} (hf : IsFrame f) (h : ¬ Passes f) :
    arrival env f = .unusable :=
  if_pos ⟨MarkerCode.word_ne_nil isFrame_code hf, h⟩

/-- Frames that do not pass are cycles without a telegram. -/
theorem arrivals_of_not_passes (env : Env) {reads : List ReadResult}
    (h : ∀ f ∈ frames reads, ¬ Passes f) :
    (frames reads).map (arrival env) = List.replicate (frames reads).length .unusable := by
  rw [List.eq_replicate_iff, List.length_map, and_iff_right rfl, List.forall_mem_map]
  exact fun f hf => arrival_of_not_passes env (isFrame_of_mem_frames hf) (h f hf)

namespace Transmission

theorem Valid.isFrame {t : Transmission} (h : t.Valid) : IsFrame (delivered t.reads) := by
  have hslash : slash ∉ t.arrived ∧ bang ∉ t.arrived := by
    rcases h.intact_or_damaged with heq | hdamaged
    · rw [heq]
      exact ⟨slash_not_mem_telegramBody h.line, bang_not_mem_telegramBody h.line⟩
    · exact ⟨hdamaged.noSlash, hdamaged.noBang⟩
  rw [h.delivers, isFrame_parts hslash.2]
  exact ⟨hslash.1, slash_not_mem_of_spellsCrc h.crc, h.crc.four⟩

/-- A damaged telegram does not pass. -/
theorem Valid.not_passes {t : Transmission} (h : t.Valid) (hdamaged : Damaged t.sent t.arrived) :
    ¬ Passes (frame t.arrived t.field) := by
  intro hpass
  obtain ⟨n, hn, hcrc⟩ := (passes_frame_iff hdamaged.noBang).mp hpass
  rw [stoi16_spelled h.crc, Except.ok.injEq] at hn
  apply hdamaged.bodyCrc_ne
  rw [← hcrc, ← hn]
  simp

/-- The gateway sees a transmission through its frames. -/
theorem Valid.arrivals_eq (env : Env) {t : Transmission} (h : t.Valid) :
    (frames t.noise ++ [delivered t.reads]).map (arrival env) = t.arrivals env := by
  unfold arrivals
  rw [List.map_append, arrivals_of_not_passes env h.noise, List.map_singleton]
  congr 2
  by_cases hintact : t.arrived = t.sent
  · have hpass : Passes (delivered t.reads) := by
      rw [h.delivers, hintact]
      exact passes_of_spellsCrc (bang_not_mem_telegramBody h.line) h.crc
    have hkept : ¬ Rejected (delivered t.reads) := fun hr => hr.2 hpass
    rw [if_pos hintact, arrival, if_neg hkept, h.delivers, hintact]
    exact congrArg Arrival.telegram (messageWrites_telegram env h.line h.crc)
  · -- the field is still that of the body as it was sent
    have hdamaged := h.intact_or_damaged.resolve_left hintact
    rw [if_neg hintact]
    refine arrival_of_not_passes env h.isFrame ?_
    rw [h.delivers]
    exact h.not_passes hdamaged

end Transmission

/-- **Over a noisy line.** Telegrams whose frames fill reads of their own, each behind any
reads that give no frame that passes, arrive intact or damaged by a short burst, in an odd
number of bits or in two near ones. They are shown one after the other: an intact one with
the values of its lines, the fields it does not set as they were, and the number of frames
so far; a damaged one is counted and shows nothing. What the publish attempts meet makes
no difference. -/
theorem program_over_noisy_line (env : Env) (port : BitVec 32) (startEnv : StartEnv)
    (attempts : ℕ → ℕ → HpMqttPub.Attempt) (transmissions : List Transmission)
    (h : ∀ t ∈ transmissions, t.Valid) (after : List ReadResult)
    (hafter : ∀ f ∈ frames after, ¬ Passes f) :
    (program env port startEnv attempts
        ((transmissions.flatMap fun t => t.noise ++ t.reads) ++ after)).2.filterMap shown =
      (.modbus, ({} : Gateway).snapshot) ::
        Gateway.shows (transmissions.flatMap fun t => t.arrivals env) := by
  have hframes : ∀ p ∈ transmissions.map fun t => (t.noise, t.reads), IsFrame (delivered p.2) :=
    List.forall_mem_map.mpr fun t ht => (h t ht).isFrame
  have hline := frames_segments _ hframes after
  simp only [List.flatMap_map] at hline
  -- what comes behind the last telegram is counted and shows nothing
  have harrivals : (frames ((transmissions.flatMap fun t => t.noise ++ t.reads) ++ after)).map
      (arrival env) = (transmissions.flatMap fun t => t.arrivals env) ++
        List.replicate (frames after).length .unusable := by
    rw [hline, List.map_append, List.map_flatMap, arrivals_of_not_passes env hafter]
    congr 1
    exact List.flatMap_congr fun t ht => (h t ht).arrivals_eq env
  rw [program_eq, List.filterMap_append, shown_boot,
    run_shows env (represents_boot env port startEnv), arrivals_cyclesFrom, harrivals]
  exact congrArg _ (Gateway.shows_append_unusable _ _)

/-- A reading of 2 kWh behind the beginning of a frame, and the same telegram with one
bit flipped: 3 kWh. -/
def twoTransmissions : List Transmission :=
  [⟨[.chunk (ascii "!/x") (by decide)], [.chunk (ascii "/\n1-0:1.8.0(2*kWh)\n!B3D3") (by decide)],
    [], [ascii "1-0:1.8.0(2*kWh)"], ascii "B3D3", ascii "\n1-0:1.8.0(2*kWh)\n"⟩,
   ⟨[], [.chunk (ascii "/\n1-0:1.8.0(3*kWh)\n!B3D3") (by decide)],
    [], [ascii "1-0:1.8.0(2*kWh)"], ascii "B3D3", ascii "\n1-0:1.8.0(3*kWh)\n"⟩]

set_option maxRecDepth 20000 in
/-- The first reading is shown, the second is not. -/
theorem program_over_noisy_line_two :
    (program bgsLokal 502 ⟨true, true, 3, none⟩ (fun _ _ => .notConnected)
        ((twoTransmissions.flatMap fun t => t.noise ++ t.reads) ++ [])).2.filterMap shown =
      (.modbus, ({} : Gateway).snapshot) ::
        Gateway.shows (twoTransmissions.flatMap fun t => t.arrivals bgsLokal) := by
  have hvalue : (bodyCrc (ascii "\n1-0:1.8.0(2*kWh)\n")).toNat = 0xB3D3 := by rfl
  have hcrc : SpellsCrc (ascii "B3D3") (bodyCrc (ascii "\n1-0:1.8.0(2*kWh)\n")) :=
    ⟨rfl, List.all_eq_true.mp rfl, hvalue.symm⟩
  have hodd : (differing (messageBits (ascii "\n1-0:1.8.0(2*kWh)\n"))
      (messageBits (ascii "\n1-0:1.8.0(3*kWh)\n"))).card = 1 := rfl
  have hdamaged : Damaged (ascii "\n1-0:1.8.0(2*kWh)\n") (ascii "\n1-0:1.8.0(3*kWh)\n") :=
    ⟨by decide, by decide, by decide, by decide, .inr (.inl (hodd ▸ odd_one))⟩
  have hline : ∀ l ∈ [[], ascii "1-0:1.8.0(2*kWh)"], IsTelegramLine l := by
    unfold IsTelegramLine
    decide
  have hquiet : ∀ noise : List ReadResult, frames noise = [] → ∀ f ∈ frames noise, ¬ Passes f := by
    intro noise hnone f hf
    rw [hnone] at hf
    cases hf
  have hvalid : ∀ t ∈ twoTransmissions, t.Valid := by
    unfold twoTransmissions
    rw [List.forall_mem_cons, List.forall_mem_singleton]
    exact ⟨⟨hquiet _ rfl, hline, hcrc, rfl, .inl rfl⟩,
      ⟨hquiet _ rfl, hline, hcrc, rfl, .inr hdamaged⟩⟩
  exact program_over_noisy_line bgsLokal 502 _ _ twoTransmissions hvalid [] (hquiet [] rfl)

end Hanport.Main
