import Hanport.Logic.MainLoop
import Hanport.Logic.SerialPort
import Hanport.Model.StartUp

/-!
# Which starts reach the loop

What the arguments ask for, when `main` returns and with which status, and exactly what
it needs to reach its loop. Neither the broker nor the Modbus server is among it.
-/

namespace Hanport.Main

open Lib Lib.Ascii HpModbuss HpSerialRead

/-! ## The command line -/

/-- Arguments that are read to their end, with the values of their `--config`. -/
inductive Consumed : List String → List String → Prop
  | nil : Consumed [] []
  | config {a value : String} {args values : List String} (ha : isConfigOption a = true)
      (h : Consumed args values) : Consumed (a :: value :: args) (value :: values)
  | other {a : String} {args values : List String} (hconfig : isConfigOption a = false)
      (hhelp : isHelpOption a = false) (h : Consumed args values) : Consumed (a :: args) values

/-- Help is asked for behind arguments that are read to their end. -/
def AsksHelp (args : List String) : Prop :=
  ∃ pre a post values, args = pre ++ a :: post ∧ Consumed pre values ∧ isHelpOption a = true

/-- The last argument is a `--config` without a value. -/
def MissesValue (args : List String) : Prop :=
  ∃ pre a values, args = pre ++ [a] ∧ Consumed pre values ∧ isConfigOption a = true

theorem isConfigOption_of_isHelpOption {a : String} (h : isHelpOption a = true) :
    isConfigOption a = false := by
  unfold isHelpOption at h
  rw [Bool.or_eq_true, decide_eq_true_iff, decide_eq_true_iff] at h
  rcases h with rfl | rfl <;> rfl

theorem commandLine_help {a : String} (ha : isHelpOption a = true) (path : String)
    (args : List String) : commandLine path (a :: args) = .help := by
  have hconfig := isConfigOption_of_isHelpOption ha
  cases args <;> simp [commandLine, hconfig, ha]

theorem commandLine_other {a : String} (hconfig : isConfigOption a = false)
    (hhelp : isHelpOption a = false) (path : String) (args : List String) :
    commandLine path (a :: args) = commandLine path args := by
  cases args <;> simp [commandLine, hconfig, hhelp]

/-- Arguments that are read leave the path of the last `--config`. -/
theorem commandLine_append {pre values : List String} (h : Consumed pre values) (path : String)
    (args : List String) :
    commandLine path (pre ++ args) = commandLine (values.getLastD path) args := by
  induction h generalizing path with
  | nil => rfl
  | config ha _ ih =>
      rw [List.cons_append, List.cons_append, commandLine, if_pos ha, ih, List.getLastD_cons]
  | other hconfig hhelp _ ih =>
      rw [List.cons_append, commandLine_other hconfig hhelp, ih]

theorem commandLine_of_consumed {args values : List String} (h : Consumed args values)
    (path : String) : commandLine path args = .run (values.getLastD path) := by
  have happend := commandLine_append h path []
  rw [List.append_nil] at happend
  rw [happend, commandLine]

theorem commandLine_of_missesValue {args : List String} (h : MissesValue args) (path : String) :
    commandLine path args = .missingValue := by
  obtain ⟨pre, a, values, rfl, hpre, ha⟩ := h
  rw [commandLine_append hpre, commandLine, if_pos ha]

theorem commandLine_of_asksHelp {args : List String} (h : AsksHelp args) (path : String) :
    commandLine path args = .help := by
  obtain ⟨pre, a, post, values, rfl, hpre, ha⟩ := h
  rw [commandLine_append hpre, commandLine_help ha]

/-- Every command line is one of the three. -/
theorem commandLine_cases (args : List String) :
    (∃ values, Consumed args values) ∨ MissesValue args ∨ AsksHelp args := by
  -- by the number of arguments: a `--config` takes two
  induction hn : args.length using Nat.strong_induction_on generalizing args with
  | _ n ih =>
      cases args with
      | nil => exact .inl ⟨[], .nil⟩
      | cons a args =>
          rw [List.length_cons] at hn
          by_cases hconfig : isConfigOption a = true
          · cases args with
            | nil => exact .inr (.inl ⟨[], a, [], rfl, .nil, hconfig⟩)
            | cons value args =>
                rw [List.length_cons] at hn
                rcases ih args.length (by omega) args rfl with ⟨values, h⟩ |
                  ⟨pre, b, values, rfl, h, hb⟩ | ⟨pre, b, post, values, rfl, h, hb⟩
                · exact .inl ⟨_, .config hconfig h⟩
                · exact .inr (.inl ⟨a :: value :: pre, b, _, rfl, .config hconfig h, hb⟩)
                · exact .inr (.inr ⟨a :: value :: pre, b, post, _, rfl, .config hconfig h, hb⟩)
          · rw [Bool.not_eq_true] at hconfig
            by_cases hhelp : isHelpOption a = true
            · exact .inr (.inr ⟨[], a, args, [], rfl, .nil, hhelp⟩)
            · rw [Bool.not_eq_true] at hhelp
              rcases ih args.length (by omega) args rfl with ⟨values, h⟩ |
                ⟨pre, b, values, rfl, h, hb⟩ | ⟨pre, b, post, values, rfl, h, hb⟩
              · exact .inl ⟨_, .other hconfig hhelp h⟩
              · exact .inr (.inl ⟨a :: pre, b, _, rfl, .other hconfig hhelp h, hb⟩)
              · exact .inr (.inr ⟨a :: pre, b, post, _, rfl, .other hconfig hhelp h, hb⟩)

/-! ## From the logger on -/

/-- The serial port can be opened and takes its attributes. -/
def Usable (env : PortEnv) : Prop :=
  0 ≤ env.serialFd ∧ env.attributes.isSome ∧ env.accepted = true

/-- What the configuration must come to for the loop to be reached, with the number of
the port. -/
structure Startable (w : World) (cfg : Config) (n : ℤ) : Prop where
  logger : w.logger (Setting.logPath.read cfg) = none
  client : w.client (text (Setting.brokerAddress.read cfg)) (text (Setting.clientId.read cfg)) = none
  port : Strtol.Reads10 (Setting.port.read cfg) n
  inInt : Strtol.InInt n
  serial : Usable (w.serial (cStr (Setting.serialPort.read cfg)))

/-- The publisher of a configuration. -/
def publisherOf (cfg : Config) : HpMqttPub where
  brokerAddress := text (Setting.brokerAddress.read cfg)
  clientId := text (Setting.clientId.read cfg)
  username := text (Setting.userName.read cfg)
  password := text (Setting.password.read cfg)
  willTopic := text (Setting.willTopic.read cfg)
  willMessage := text (Setting.willMessage.read cfg)
  site := text (Setting.site.read cfg)
  deviceId := text (Setting.deviceId.read cfg)
  hasCredentials := true
  hasWill := true

theorem makePublisher_eq (w : World) (cfg : Config) :
    makePublisher w cfg =
      match w.client (text (Setting.brokerAddress.read cfg)) (text (Setting.clientId.read cfg)) with
      | some what => .error what
      | none => .ok (publisherOf cfg) := by
  unfold makePublisher HpMqttPub.new
  dsimp only
  cases w.client (text (Setting.brokerAddress.read cfg)) (text (Setting.clientId.read cfg)) <;> rfl

theorem openPort_eq_ok_iff (env : PortEnv) (path : String) (tty : Termios) :
    openPort env path = .ok tty ↔
      0 ≤ env.serialFd ∧ env.accepted = true ∧ ∃ tty0, env.attributes = some tty0 ∧
        tty = setTty tty0 := by
  unfold openPort setupPort
  by_cases hfd : env.serialFd < 0
  · rw [if_pos hfd]
    exact iff_of_false (fun h => nomatch h) (fun h => absurd hfd (by omega))
  · rw [if_neg hfd]
    cases env.attributes with
    | none => exact iff_of_false (fun h => nomatch h) (fun ⟨_, _, _, h, _⟩ => nomatch h)
    | some tty0 =>
        cases haccepted : env.accepted with
        | false => exact iff_of_false (fun h => nomatch h) (fun ⟨_, h, _⟩ => nomatch h)
        | true =>
            constructor
            · rintro ⟨⟩
              exact ⟨by omega, rfl, tty0, rfl, rfl⟩
            · rintro ⟨-, -, tty1, ⟨⟩, rfl⟩
              rfl

theorem usable_iff (env : PortEnv) (path : String) :
    Usable env ↔ ∃ tty, openPort env path = .ok tty := by
  unfold Usable
  constructor
  · rintro ⟨hfd, hattributes, haccepted⟩
    obtain ⟨tty0, htty0⟩ := Option.isSome_iff_exists.mp hattributes
    exact ⟨_, (openPort_eq_ok_iff env path _).mpr ⟨hfd, haccepted, tty0, htty0, rfl⟩⟩
  · rintro ⟨tty, h⟩
    obtain ⟨hfd, haccepted, tty0, htty0, -⟩ := (openPort_eq_ok_iff env path tty).mp h
    exact ⟨hfd, by rw [htty0]; rfl, haccepted⟩

/-- What is there when the loop begins. -/
def runningOf (w : World) (cfg : Config) (n : ℤ) (tty : Termios) : Running :=
  let env : Env :=
    { stof := w.stof, wild := w.wild, site := text (Setting.site.read cfg),
      deviceId := text (Setting.deviceId.read cfg) }
  { env := env
    publisher := publisherOf cfg
    options := ((publisherOf cfg).connect w.broker).1
    port := BitVec.ofInt 32 n
    tty := tty
    state := (boot env (BitVec.ofInt 32 n) w.server).1 }

theorem startConfigured_looping {w : World} {cfg : Config} {n : ℤ} {tty : Termios}
    (h : Startable w cfg n)
    (hopen : openPort (w.serial (cStr (Setting.serialPort.read cfg)))
      (text (cStr (Setting.serialPort.read cfg))) = .ok tty) :
    ∃ log, startConfigured w cfg = (log, .looping (runningOf w cfg n tty)) ∧
      log.filterMap handed = [(.modbus, {})] := by
  have hport := (Strtol.stoi10_eq_ok_iff _ n).mpr ⟨h.port, h.inInt⟩
  unfold startConfigured
  simp only [h.logger, makePublisher_eq, h.client, hport, hopen]
  refine ⟨_, rfl, ?_⟩
  simp only [List.filterMap_append, handed_startServer, handed_initRegisters]
  cases ((publisherOf cfg).connect w.broker).2 <;> rfl

/-- A start that goes on to the loop was startable; no start of this part returns. -/
theorem startConfigured_cases (w : World) (cfg : Config) :
    (∃ n tty log, Startable w cfg n ∧
      openPort (w.serial (cStr (Setting.serialPort.read cfg)))
        (text (cStr (Setting.serialPort.read cfg))) = .ok tty ∧
      startConfigured w cfg = (log, .looping (runningOf w cfg n tty)) ∧
      log.filterMap handed = [(.modbus, {})]) ∨
    (¬ ∃ n, Startable w cfg n) ∧ ∃ log e, startConfigured w cfg = (log, .terminated e) := by
  -- in the order of `main`: the logger, the client, the port, the device
  by_cases hlogger : w.logger (Setting.logPath.read cfg) = none
  · by_cases hclient : w.client (text (Setting.brokerAddress.read cfg))
        (text (Setting.clientId.read cfg)) = none
    · cases hport : Strtol.stoi10 (Setting.port.read cfg) with
      | error e =>
          refine .inr ⟨?_, ?_⟩
          · rintro ⟨n, h⟩
            rw [(Strtol.stoi10_eq_ok_iff _ n).mpr ⟨h.port, h.inInt⟩] at hport
            cases hport
          · unfold startConfigured
            simp only [hlogger, makePublisher_eq, hclient, hport]
            exact ⟨_, _, rfl⟩
      | ok n =>
          obtain ⟨hreads, hint⟩ := (Strtol.stoi10_eq_ok_iff _ n).mp hport
          cases hopen : openPort (w.serial (cStr (Setting.serialPort.read cfg)))
              (text (cStr (Setting.serialPort.read cfg))) with
          | error what =>
              refine .inr ⟨?_, ?_⟩
              · rintro ⟨m, h⟩
                obtain ⟨tty, htty⟩ := (usable_iff _ _).mp h.serial
                rw [hopen] at htty
                cases htty
              · unfold startConfigured
                simp only [hlogger, makePublisher_eq, hclient, hport, hopen]
                exact ⟨_, _, rfl⟩
          | ok tty =>
              have hstart : Startable w cfg n :=
                ⟨hlogger, hclient, hreads, hint, (usable_iff _ _).mpr ⟨tty, hopen⟩⟩
              obtain ⟨log, hlog, hhanded⟩ := startConfigured_looping hstart hopen
              exact .inl ⟨n, tty, log, hstart, rfl, hlog, hhanded⟩
    · obtain ⟨what, hwhat⟩ := Option.ne_none_iff_exists'.mp hclient
      refine .inr ⟨fun ⟨_, h⟩ => hclient h.client, ?_⟩
      unfold startConfigured
      simp only [hlogger, makePublisher_eq, hwhat]
      exact ⟨_, _, rfl⟩
  · obtain ⟨what, hwhat⟩ := Option.ne_none_iff_exists'.mp hlogger
    refine .inr ⟨fun ⟨_, h⟩ => hlogger h.logger, ?_⟩
    unfold startConfigured
    simp only [hwhat]
    exact ⟨_, _, rfl⟩

/-! ## The whole start -/

variable {w : World} {name : String} {args : List String}
  {attempts : ℕ → ℕ → HpMqttPub.Attempt} {reads : List ReadResult}

/-- What a file says. -/
def configOf (file : List Byte) : Config where
  data := ((Getline.getlines file).foldl Config.loadLine ⟨[], fun _ => none⟩).data

/-- The file that is asked for, which is the one of the last `--config`. -/
def Configures (w : World) (args : List String) (file : Option (List Byte)) : Prop :=
  ∃ values, Consumed args values ∧ w.file (values.getLastD defaultConfigFilePath) = file

theorem main_of_asksHelp (h : AsksHelp args) :
    main w name args attempts reads =
      ([], .returned 0 s!"Usage: {name} [--config <config_file>]\n") := by
  unfold main startUp
  rw [commandLine_of_asksHelp h]

theorem main_of_missesValue (h : MissesValue args) :
    main w name args attempts reads = ([], .returned 1 "Missing value for --config\n") := by
  unfold main startUp
  rw [commandLine_of_missesValue h]

theorem main_of_no_file (h : Configures w args none) :
    ∃ text, main w name args attempts reads = ([], .returned 1 text) := by
  obtain ⟨values, hargs, hfile⟩ := h
  unfold main startUp
  rw [commandLine_of_consumed hargs]
  dsimp only
  rw [hfile]
  exact ⟨_, rfl⟩

theorem startUp_of_file {file : List Byte} (h : Configures w args (some file)) :
    startUp w name args = startConfigured w (configOf file) := by
  obtain ⟨values, hargs, hfile⟩ := h
  unfold startUp
  rw [commandLine_of_consumed hargs]
  dsimp only
  rw [hfile]
  rfl

/-- The loop runs on what is there when it begins. -/
theorem main_of_startable (name : String) (attempts : ℕ → ℕ → HpMqttPub.Attempt)
    (reads : List ReadResult) {file : List Byte} {n : ℤ} {tty : Termios}
    (hfile : Configures w args (some file)) (h : Startable w (configOf file) n)
    (hopen : openPort (w.serial (cStr (Setting.serialPort.read (configOf file))))
      (text (cStr (Setting.serialPort.read (configOf file)))) = .ok tty) :
    let r := runningOf w (configOf file) n tty
    let result := run r.env r.state (cyclesFrom attempts 0 (frames reads))
    ∃ log, main w name args attempts reads =
        (log ++ result.2, .looping { r with state := result.1 }) ∧
      log.filterMap handed = [(.modbus, {})] := by
  intro r result
  obtain ⟨log, hlog, hhanded⟩ := startConfigured_looping h hopen
  refine ⟨log, ?_, hhanded⟩
  unfold main
  rw [startUp_of_file hfile, hlog]
  dsimp only
  rw [loop_eq_run]
  rfl

/-- Every run of `main`: it returns, or an exception leaves it, or it loops. -/
theorem main_cases (w : World) (name : String) (args : List String)
    (attempts : ℕ → ℕ → HpMqttPub.Attempt) (reads : List ReadResult) :
    (AsksHelp args ∧ ∃ text, main w name args attempts reads = ([], .returned 0 text)) ∨
    ((MissesValue args ∨ Configures w args none) ∧
      ∃ text, main w name args attempts reads = ([], .returned 1 text)) ∨
    ∃ file, Configures w args (some file) ∧
      ((¬ ∃ n, Startable w (configOf file) n) ∧
        (∃ log e, main w name args attempts reads = (log, .terminated e)) ∨
      ∃ n, Startable w (configOf file) n ∧
        ∃ log r, main w name args attempts reads = (log, .looping r)) := by
  rcases commandLine_cases args with ⟨values, hargs⟩ | hargs | hargs
  · cases hfile : w.file (values.getLastD defaultConfigFilePath) with
    | none =>
        have hconfigures : Configures w args none := ⟨values, hargs, hfile⟩
        exact .inr (.inl ⟨.inr hconfigures, main_of_no_file hconfigures⟩)
    | some file =>
        have hconfigures : Configures w args (some file) := ⟨values, hargs, hfile⟩
        refine .inr (.inr ⟨file, hconfigures, ?_⟩)
        rcases startConfigured_cases w (configOf file) with
          ⟨n, tty, log, hstart, hopen, -, -⟩ | ⟨hno, log, e, hlog⟩
        · obtain ⟨log, hmain, -⟩ := main_of_startable name attempts reads hconfigures hstart hopen
          exact .inr ⟨n, hstart, _, _, hmain⟩
        · refine .inl ⟨hno, log, e, ?_⟩
          unfold main
          rw [startUp_of_file hconfigures, hlog]
  · exact .inr (.inl ⟨.inl hargs, _, main_of_missesValue hargs⟩)
  · exact .inl ⟨hargs, _, main_of_asksHelp hargs⟩

/-- **When `main` returns.** Whatever is outside of the program: with the status 0 iff
help is asked for, behind arguments that are read to their end, a `--help` that is the
value of a `--config` not among them; with the status 1 iff the last argument is a
`--config` without a value, or the file of the last `--config`, or the default one where
there is none, cannot be opened; and with no other. -/
theorem returns_iff (w : World) (name : String) (args : List String)
    (attempts : ℕ → ℕ → HpMqttPub.Attempt) (reads : List ReadResult) (status : ℕ) :
    (∃ log text, main w name args attempts reads = (log, .returned status text)) ↔
      status = 0 ∧ AsksHelp args ∨
        status = 1 ∧ (MissesValue args ∨ Configures w args none) := by
  constructor
  · rintro ⟨log, text, h⟩
    rcases main_cases w name args attempts reads with
      ⟨hargs, _, hmain⟩ | ⟨hargs, _, hmain⟩ |
        ⟨_, _, ⟨_, _, _, hmain⟩ | ⟨_, _, _, _, hmain⟩⟩
    · rw [hmain] at h
      cases h
      exact .inl ⟨rfl, hargs⟩
    · rw [hmain] at h
      cases h
      exact .inr ⟨rfl, hargs⟩
    · rw [hmain] at h
      cases h
    · rw [hmain] at h
      cases h
  · rintro (⟨rfl, hargs⟩ | ⟨rfl, hargs | hargs⟩)
    · exact ⟨_, _, main_of_asksHelp hargs⟩
    · exact ⟨_, _, main_of_missesValue hargs⟩
    · exact ⟨_, main_of_no_file hargs⟩

/-- Different files are not asked for. -/
theorem Configures.unique {file file' : Option (List Byte)} (h : Configures w args file)
    (h' : Configures w args file') : file = file' := by
  obtain ⟨values, hargs, rfl⟩ := h
  obtain ⟨values', hargs', rfl⟩ := h'
  have hrun := commandLine_of_consumed hargs defaultConfigFilePath
  rw [commandLine_of_consumed hargs', CommandLine.run.injEq] at hrun
  rw [hrun]

/-- **When `main` reaches its loop.** Iff its arguments are read to their end and name a
file that can be opened, and what this file says is enough: the log file and the client
can be had, the port begins with the digits of an `int`, and the serial port can be opened
and takes its attributes. The answer of the broker, and what the Modbus server meets, make
no difference, nor what comes over the line. -/
theorem loops_iff (w : World) (name : String) (args : List String)
    (attempts : ℕ → ℕ → HpMqttPub.Attempt) (reads : List ReadResult) :
    (∃ log r, main w name args attempts reads = (log, .looping r)) ↔
      ∃ file n, Configures w args (some file) ∧ Startable w (configOf file) n := by
  constructor
  · rintro ⟨log, r, h⟩
    rcases main_cases w name args attempts reads with
      ⟨_, _, hmain⟩ | ⟨_, _, hmain⟩ |
        ⟨file, hfile, ⟨_, _, _, hmain⟩ | ⟨n, hstart, _⟩⟩
    · rw [hmain] at h
      cases h
    · rw [hmain] at h
      cases h
    · rw [hmain] at h
      cases h
    · exact ⟨file, n, hfile, hstart⟩
  · rintro ⟨file, n, hfile, hstart⟩
    obtain ⟨tty, hopen⟩ := (usable_iff _ _).mp hstart.serial
    obtain ⟨log, hmain, -⟩ := main_of_startable name attempts reads hfile hstart hopen
    exact ⟨_, _, hmain⟩

end Hanport.Main
