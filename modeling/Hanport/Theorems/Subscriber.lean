import Hanport.Theorems.Publishing

/-!
# What a subscriber holds

A subscriber that keeps the last payload of each topic holds, under the topic of a
field, the value that the field had after the last cycle that delivered it. Failed
attempts and rejected messages leave every topic as it is, and no cycle touches any
other topic.
-/

namespace Hanport.Main

open Lib Lib.Ascii HpMqttPub

/-- The messages of a call whose attempts are delivered. -/
def deliveredOf (attempts : ℕ → Attempt) (messages : List Message) : List Message :=
  (messages.zipIdx.filter fun p => publish (attempts p.2)).map Prod.fst

/-- The messages that an event delivers. -/
def deliveries (attempts : ℕ → Attempt) : Event → List Message
  | .log _ _ => []
  | .publishAllData _ messages _ => deliveredOf attempts messages
  | .setFromHpData _ _ => []

/-- The messages that each cycle of a run delivers. -/
def cycleDeliveries (env : Env) : State → List Cycle → List (List Message)
  | _, [] => []
  | s, c :: cycles =>
      (iteration env s c).2.flatMap (deliveries c.attempts) ::
        cycleDeliveries env (iteration env s c).1 cycles

/-- The writes of messages to their topics. -/
def topicWrites (messages : List Message) : List (String × String) :=
  messages.map fun m => (m.topic, m.payload)

/-- What a subscriber of the topic holds after a run: the payload of the last message
that was delivered under it. -/
def holds (env : Env) (s : State) (cycles : List Cycle) (topic : String) : Option String :=
  Store.lastWrite (topicWrites (cycleDeliveries env s cycles).flatten) topic

/-! ## One cycle -/

/-- The topics do not depend on the data. -/
theorem map_fst_individualFields (data : HpData) :
    (individualFields data).map Prod.fst = (individualFields {}).map Prod.fst := by
  simp only [individualFields, List.map_cons, List.map_nil]

theorem map_topic_allMessages (env : Env) (data : HpData) :
    (allMessages env data).map Message.topic =
      ((individualFields {}).map Prod.fst).map (env.site ++ "/" ++ env.deviceId ++ ·) := by
  unfold allMessages fieldMessages
  rw [← map_fst_individualFields data, List.map_map, List.map_map]
  rfl

/-- The topics of the 27 fields are distinct, whatever the site and the device. -/
theorem topics_nodup (env : Env) (data : HpData) :
    ((allMessages env data).map Message.topic).Nodup := by
  have hnames : ((individualFields {}).map Prod.fst).Nodup := by simp [individualFields]
  rw [map_topic_allMessages]
  exact hnames.map fun _ _ h => (String.append_right_inj _).mp h

/-- A topic belongs to one index, in every cycle. -/
theorem index_of_topic (env : Env) (data data' : HpData) {i j : ℕ} {m m' : Message}
    (h : (allMessages env data)[i]? = some m) (h' : (allMessages env data')[j]? = some m') :
    m.topic = m'.topic ↔ i = j := by
  have htopic : ((allMessages env data).map Message.topic)[i]? = some m.topic := by
    rw [List.getElem?_map, h, Option.map_some]
  have htopic' : ((allMessages env data).map Message.topic)[j]? = some m'.topic := by
    rw [map_topic_allMessages, ← map_topic_allMessages env data', List.getElem?_map, h',
      Option.map_some]
  have hi := (List.getElem?_eq_some_iff.mp htopic).1
  constructor
  · intro heq
    exact (List.getElem?_inj hi (topics_nodup env data)).mp (by rw [htopic, htopic', heq])
  · rintro rfl
    rw [htopic, Option.some.injEq] at htopic'
    exact htopic'

/-- What is delivered are the messages whose attempts are. -/
theorem mem_deliveredOf_iff {attempts : ℕ → Attempt} {messages : List Message} {m : Message} :
    m ∈ deliveredOf attempts messages ↔
      ∃ i, messages[i]? = some m ∧ attempts i = .delivered := by
  unfold deliveredOf
  rw [List.mem_map]
  constructor
  · rintro ⟨⟨m', i⟩, hp, rfl⟩
    obtain ⟨hmem, hsent⟩ := List.mem_filter.mp hp
    exact ⟨i, List.mem_zipIdx_iff_getElem?.mp hmem, (publish_iff _).mp hsent⟩
  · rintro ⟨i, hm, hsent⟩
    exact ⟨(m, i), List.mem_filter.mpr
      ⟨List.mem_zipIdx_iff_getElem?.mpr hm, (publish_iff _).mpr hsent⟩, rfl⟩

/-- Under distinct topics, a topic gets the payload of its delivered message. -/
theorem lastWrite_delivered_iff {messages : List Message}
    (h : (messages.map Message.topic).Nodup) (attempts : ℕ → Attempt) (topic payload : String) :
    Store.lastWrite (topicWrites (deliveredOf attempts messages)) topic = some payload ↔
      ∃ i m, messages[i]? = some m ∧ attempts i = .delivered ∧ m.topic = topic ∧
        m.payload = payload := by
  -- what is delivered keeps its order, and its topics stay distinct
  have hsub : (deliveredOf attempts messages).Sublist messages := by
    have hfilter := (List.filter_sublist (p := fun p : Message × ℕ => publish (attempts p.2))
      (l := messages.zipIdx)).map Prod.fst
    rwa [List.zipIdx_map_fst] at hfilter
  have hnodup : ((topicWrites (deliveredOf attempts messages)).map Prod.fst).Nodup := by
    unfold topicWrites
    rw [List.map_map]
    exact h.sublist (hsub.map Message.topic)
  rw [Store.lastWrite_eq_some_iff_mem hnodup, topicWrites, List.mem_map]
  constructor
  · rintro ⟨m, hm, heq⟩
    obtain ⟨i, hi, hsent⟩ := mem_deliveredOf_iff.mp hm
    rw [Prod.mk.injEq] at heq
    exact ⟨i, m, hi, hsent, heq.1, heq.2⟩
  · rintro ⟨i, m, hi, hsent, rfl, rfl⟩
    exact ⟨m, mem_deliveredOf_iff.mpr ⟨i, hi, hsent⟩, rfl⟩

theorem deliveries_notes (attempts : ℕ → Attempt) {log : List Event} (h : ∀ x ∈ log, IsNote x) :
    log.flatMap (deliveries attempts) = [] := by
  rw [List.flatMap_eq_nil_iff]
  intro x hx
  have hnote := h x hx
  cases x with
  | log level text => rfl
  | publishAllData data messages success => exact hnote.elim
  | setFromHpData data startAddress => exact hnote.elim

/-- A cycle delivers what it attempts with success, of the data object as it leaves it. -/
theorem deliveries_iteration (env : Env) (s : State) (c : Cycle) :
    (iteration env s c).2.flatMap (deliveries c.attempts) =
      if Rejected c.message then []
      else deliveredOf c.attempts (allMessages env (iteration env s c).1.dataObj) := by
  by_cases hr : Rejected c.message
  · obtain ⟨log, hit, hlog⟩ := rejected_iteration env s hr
    rw [hit, if_pos hr]
    exact deliveries_notes _ hlog
  · obtain ⟨log, hit, hlog⟩ := not_rejected_iteration env s hr
    have hexposed : (exposed env s (received env s c.message)).dataObj =
        received env s c.message := rfl
    rw [hit, if_neg hr, List.flatMap_append, deliveries_notes _ hlog, hexposed]
    unfold exposing
    rw [publishAllData_eq]
    simp [deliveries]

/-! ## Runs -/

/-- What cycle `n` of a run delivers. -/
theorem getElem?_cycleDeliveries (env : Env) (s : State) (cycles : List Cycle) (n : ℕ) :
    (cycleDeliveries env s cycles)[n]? =
      cycles[n]?.map fun c =>
        if Rejected c.message then []
        else deliveredOf c.attempts
          (allMessages env (run env s (cycles.take (n + 1))).1.dataObj) := by
  induction cycles generalizing s n with
  | nil => rfl
  | cons c cycles ih =>
      rw [cycleDeliveries]
      cases n with
      | zero =>
          rw [List.getElem?_cons_zero, List.getElem?_cons_zero, deliveries_iteration]
          rfl
      | succ n =>
          rw [List.getElem?_cons_succ, List.getElem?_cons_succ, ih]
          rfl

/-- A cycle leaves the topic of a field alone iff its message is rejected or the attempt
of the field fails. -/
theorem cycle_misses_iff (env : Env) (c : Cycle) (data data' : HpData) {i : ℕ} {m : Message}
    (h : (allMessages env data)[i]? = some m) :
    Store.lastWrite (topicWrites (if Rejected c.message then []
        else deliveredOf c.attempts (allMessages env data'))) m.topic = none ↔
      Rejected c.message ∨ c.attempts i ≠ .delivered := by
  by_cases hr : Rejected c.message
  · rw [if_pos hr]
    exact iff_of_true rfl (.inl hr)
  · rw [if_neg hr, or_iff_right hr, ← not_iff_not, ← ne_eq, Option.ne_none_iff_exists', not_not]
    constructor
    · rintro ⟨payload, hlast⟩
      obtain ⟨j, m', hj, hsent, htopic, -⟩ :=
        (lastWrite_delivered_iff (topics_nodup env data') _ _ _).mp hlast
      rwa [← (index_of_topic env data' data hj h).mp htopic]
    · intro hsent
      have hi : i < (allMessages env data').length := by
        rw [length_allMessages, ← length_allMessages env data]
        exact (List.getElem?_eq_some_iff.mp h).1
      have hm' := List.getElem?_eq_getElem hi
      refine ⟨_, (lastWrite_delivered_iff (topics_nodup env data') _ _ _).mpr
        ⟨i, _, hm', hsent, ?_, rfl⟩⟩
      exact (index_of_topic env data' data hm' h).mpr rfl

/-- **What a subscriber holds.** After every run, under every pattern of failing
publishes, a topic holds a payload iff it is the one that some field was rendered with in
a cycle that delivered it, and no later cycle delivered this field. -/
theorem subscriber_holds_iff (env : Env) (s : State) (cycles : List Cycle)
    (topic payload : String) :
    holds env s cycles topic = some payload ↔
      ∃ n c i m, cycles[n]? = some c ∧ ¬ Rejected c.message ∧ c.attempts i = .delivered ∧
        (allMessages env (run env s (cycles.take (n + 1))).1.dataObj)[i]? = some m ∧
        m.topic = topic ∧ m.payload = payload ∧
        ∀ n' c', n < n' → cycles[n']? = some c' →
          Rejected c'.message ∨ c'.attempts i ≠ .delivered := by
  unfold holds
  rw [show topicWrites (cycleDeliveries env s cycles).flatten =
    ((cycleDeliveries env s cycles).map topicWrites).flatten from List.map_flatten,
    Store.lastWrite_flatten_eq_some_iff]
  simp only [List.getElem?_map, getElem?_cycleDeliveries, Option.map_map, Option.map_eq_some_iff]
  constructor
  · rintro ⟨n, ws, ⟨c, hc, rfl⟩, hlast, hlater⟩
    by_cases hr : Rejected c.message
    · simp only [Function.comp_apply, if_pos hr] at hlast
      cases hlast
    · simp only [Function.comp_apply, if_neg hr] at hlast
      obtain ⟨i, m, hm, hsent, rfl, rfl⟩ :=
        (lastWrite_delivered_iff (topics_nodup env _) _ _ _).mp hlast
      -- a later cycle has no write under the topic, so it misses the field
      refine ⟨n, c, i, m, hc, hr, hsent, hm, rfl, rfl, fun n' c' hn hc' => ?_⟩
      exact (cycle_misses_iff env c' _ _ hm).mp (hlater n' _ hn ⟨c', hc', rfl⟩)
  · rintro ⟨n, c, i, m, hc, hr, hsent, hm, rfl, rfl, hlater⟩
    refine ⟨n, _, ⟨c, hc, rfl⟩, ?_, ?_⟩
    · simp only [Function.comp_apply, if_neg hr]
      exact (lastWrite_delivered_iff (topics_nodup env _) _ _ _).mpr ⟨i, m, hm, hsent, rfl, rfl⟩
    · rintro n' ws' hn ⟨c', hc', rfl⟩
      exact (cycle_misses_iff env c' _ _ hm).mpr (hlater n' c' hn hc')

end Hanport.Main
