import QustomKeyboard.Can.Receiver
import QustomKeyboard.Can.Sender
import QustomKeyboard.Theory.Machine

/-!
# Waking up the worker

The worker thread waits until it is notified (`isNotificationPending`), looks at
the received bytes, sends what is in the transmit queue, and then clears the
notification. Bytes and frames may arrive between any two of these steps, and
notify it (`canWorker`).

The notification is cleared after the work, not before it. If nothing arrives
too late for the round of the worker, it never waits with work left undone
(`no_lost_wakeup`); a late arrival is notified for nothing, and waits with the
worker (`late_arrival_waits`), until the timeout or the next arrival.
-/

namespace QustomKeyboard

open Theory

/-- Where the worker is in the loop of `WorkerThread`. -/
inductive WorkerPc
  /-- At the `wait_until` on the condition variable. -/
  | wait
  /-- Before `ProcessReceivedFrames`. -/
  | process
  /-- In the loop of `SendPendingCanFrames`. -/
  | send
  /-- Before `is_notification_pending = false`. -/
  | clear
  deriving DecidableEq

/-- What the worker and its producers share, and where the worker is. -/
structure WorkerState where
  rx : RxState rxCircBuffSize
  /-- How many bytes, at the end of the buffer, have arrived since
      `ProcessReceivedFrames` has last looked at it. -/
  unexamined : ℕ
  txQueue : List CanData
  isNotificationPending : Bool
  pc : WorkerPc
  deriving DecidableEq

/-- What may happen: an arrival, a step of the worker, or the timeout of its wait. -/
inductive WorkerEvent
  | onDataReceived (data : List UInt8)
  | addToTxQueue (frameId : UInt32) (dataLen : UInt8) (data : Option (List UInt8))
  | worker
  | timeout
  deriving DecidableEq

namespace WorkerState

/-- Nothing has arrived yet. -/
def empty : WorkerState := ⟨.empty, 0, [], false, .wait⟩

/-- `CanSerialPort::NotifiyMainThread`. -/
def notifiyMainThread (s : WorkerState) : WorkerState := { s with isNotificationPending := true }

/-- `CanSerialPort::OnDataReceived`. -/
def onDataReceived (s : WorkerState) (data : List UInt8) : WorkerState :=
  notifiyMainThread
    { s with
      rx := s.rx.onDataReceived data
      unexamined := min rxCircBuffSize (s.unexamined + data.length) }

section

variable (s : WorkerState) (data : List UInt8)

@[simp] theorem pc_onDataReceived : (s.onDataReceived data).pc = s.pc := by
  rw [onDataReceived, notifiyMainThread]

@[simp] theorem txQueue_onDataReceived : (s.onDataReceived data).txQueue = s.txQueue := by
  rw [onDataReceived, notifiyMainThread]

@[simp] theorem unexamined_onDataReceived :
    (s.onDataReceived data).unexamined =
      min rxCircBuffSize (s.unexamined + data.length) := rfl

@[simp] theorem size_onDataReceived :
    (s.onDataReceived data).rx.circBuff.size =
      min rxCircBuffSize (s.rx.circBuff.size + data.length) :=
  s.rx.circBuff.size_insertEnd data

@[simp] theorem isNotificationPending_onDataReceived :
    (s.onDataReceived data).isNotificationPending = true := rfl

end

/-- `CanSerialPort::AddToTxQueue`. -/
def addToTxQueue (s : WorkerState) (frameId : UInt32) (dataLen : UInt8)
    (data : Option (List UInt8)) : Option WorkerState :=
  if data = none ∨ dataLen = 0 then some s
  else (QustomKeyboard.addToTxQueue s.txQueue frameId dataLen data).toOption.map fun queue =>
    notifiyMainThread { s with txQueue := queue }

/-- The next step of the worker. -/
def worker (crc16Modbus : List UInt8 → UInt16) (s : WorkerState) : Option WorkerState :=
  match s.pc with
  | .wait => if s.isNotificationPending then some { s with pc := .process } else none
  | .process => (processReceivedFrames crc16Modbus (s.rx.circBuff.size + 1) s.rx).map fun rx =>
      { s with rx := rx, unexamined := 0, pc := .send }
  | .send =>
    match s.txQueue with
    | [] => some { s with pc := .clear }
    | _ :: queue => some { s with txQueue := queue }
  | .clear => some { s with isNotificationPending := false, pc := .wait }

/-- The wait ends without a notification. -/
def timeout (s : WorkerState) : Option WorkerState :=
  if s.pc = .wait then some { s with pc := .process } else none

end WorkerState

variable (crc16Modbus : List UInt8 → UInt16)

/-- The interleavings of the worker and the arrivals. -/
def canWorker : Machine WorkerState WorkerEvent where
  init := .empty
  step s
    | .onDataReceived data => some (s.onDataReceived data)
    | .addToTxQueue frameId dataLen data => s.addToTxQueue frameId dataLen data
    | .worker => s.worker crc16Modbus
    | .timeout => s.timeout

/-! ## The steps -/

/-- The steps, spelled out. -/
inductive WorkerStep (s : WorkerState) : WorkerEvent → WorkerState → Prop
  | onDataReceived {data : List UInt8} :
      WorkerStep s (.onDataReceived data) (s.onDataReceived data)
  /-- A frame without data is ignored. -/
  | ignored {i : UInt32} {l : UInt8} {v : Option (List UInt8)} :
      v = none ∨ l = 0 → WorkerStep s (.addToTxQueue i l v) s
  | enqueued {i : UInt32} {l : UInt8} {v : Option (List UInt8)} {d : CanData} :
      ¬(v = none ∨ l = 0) →
      WorkerStep s (.addToTxQueue i l v)
        (.notifiyMainThread { s with txQueue := pushTx s.txQueue d })
  | notified : s.pc = .wait → s.isNotificationPending = true →
      WorkerStep s .worker { s with pc := .process }
  | processed : s.pc = .process →
      WorkerStep s .worker
        { s with rx := s.rx.scanned crc16Modbus, unexamined := 0, pc := .send }
  | sent {d : CanData} {queue : List CanData} : s.pc = .send → s.txQueue = d :: queue →
      WorkerStep s .worker { s with txQueue := queue }
  | sentAll : s.pc = .send → s.txQueue = [] → WorkerStep s .worker { s with pc := .clear }
  | cleared : s.pc = .clear →
      WorkerStep s .worker { s with isNotificationPending := false, pc := .wait }
  | timeout : s.pc = .wait → WorkerStep s .timeout { s with pc := .process }

variable {crc16Modbus}

/-- Every step of the machine is one of these. -/
theorem workerStep_of_step {s t : WorkerState} {e : WorkerEvent}
    (h : (canWorker crc16Modbus).step s e = some t) : WorkerStep crc16Modbus s e t := by
  cases e with
  | onDataReceived data => exact Option.some.inj h ▸ .onDataReceived
  | addToTxQueue i l v =>
    replace h : s.addToTxQueue i l v = some t := h
    rw [WorkerState.addToTxQueue] at h
    split at h
    · rename_i hv
      exact Option.some.inj h ▸ .ignored hv
    · rename_i hv
      obtain ⟨queue, hqueue, rfl⟩ := Option.map_eq_some_iff.1 h
      rw [addToTxQueue, if_neg hv] at hqueue
      cases hd : CanData.new i l v with
      | error _ => rw [hd] at hqueue; cases hqueue
      | ok d =>
        rw [hd] at hqueue
        obtain rfl : pushTx s.txQueue d = queue := Option.some.inj hqueue
        exact .enqueued hv
  | worker =>
    replace h : s.worker crc16Modbus = some t := h
    rw [WorkerState.worker] at h
    split at h
    · rename_i hpc
      split at h
      · rename_i hpending
        exact Option.some.inj h ▸ .notified hpc hpending
      · cases h
    · rename_i hpc
      rw [processReceivedFrames_eq crc16Modbus (Nat.lt_succ_self _)] at h
      exact Option.some.inj h ▸ .processed hpc
    · rename_i hpc
      split at h
      · rename_i hqueue
        exact Option.some.inj h ▸ .sentAll hpc hqueue
      · rename_i hqueue
        exact Option.some.inj h ▸ .sent hpc hqueue
    · rename_i hpc
      exact Option.some.inj h ▸ .cleared hpc
  | timeout =>
    replace h : s.timeout = some t := h
    rw [WorkerState.timeout] at h
    split at h
    · rename_i hpc
      exact Option.some.inj h ▸ .timeout hpc
    · cases h

/-! ## No lost wake-up -/

/-- The worker is blocked in its wait. -/
def WorkerState.Blocked (s : WorkerState) : Prop :=
  s.pc = .wait ∧ s.isNotificationPending = false

/-- There is nothing to do: no frame is to be sent, all bytes have been looked
    at since they have arrived, and they do not make up a packet. -/
def WorkerState.Quiet (s : WorkerState) : Prop :=
  s.txQueue = [] ∧ s.unexamined = 0 ∧ s.rx.circBuff.size < sizeofUartCanData

instance (s : WorkerState) : Decidable s.Blocked := inferInstanceAs (Decidable (_ ∧ _))

instance (s : WorkerState) : Decidable s.Quiet := inferInstanceAs (Decidable (_ ∧ _ ∧ _))

/-- The worker is past its look at the buffer, in this round. -/
def WorkerState.HasLooked (s : WorkerState) : Prop := s.pc = .send ∨ s.pc = .clear

instance (s : WorkerState) : Decidable s.HasLooked := inferInstanceAs (Decidable (_ ∨ _))

/-- The event is an arrival that is too late for this round of the worker: of
    bytes after it has looked at the buffer, or of a frame after it has found the
    queue empty. -/
def Late (s : WorkerState) : WorkerEvent → Prop
  | .onDataReceived data => data ≠ [] ∧ s.HasLooked
  | .addToTxQueue _ dataLen data => ¬(data = none ∨ dataLen = 0) ∧ s.pc = .clear
  | .worker => False
  | .timeout => False

instance (s : WorkerState) : DecidablePred (Late s)
  | .onDataReceived _ => inferInstanceAs (Decidable (_ ∧ _))
  | .addToTxQueue _ dataLen data =>
    inferInstanceAs (Decidable (¬(data = none ∨ dataLen = 0) ∧ _))
  | .worker => inferInstanceAs (Decidable False)
  | .timeout => inferInstanceAs (Decidable False)

/-- The event is in time. -/
def InTime (s : WorkerState) (e : WorkerEvent) : Prop := ¬Late s e

instance (s : WorkerState) (e : WorkerEvent) : Decidable (InTime s e) :=
  inferInstanceAs (Decidable (¬_))

/-- The bytes in the buffer are those that an earlier look has left, too few for
    a packet, and those that have arrived since. -/
def Examined (s : WorkerState) : Prop := s.rx.circBuff.size < sizeofUartCanData + s.unexamined

instance (s : WorkerState) : Decidable (Examined s) := inferInstanceAs (Decidable (_ < _))

/-- The invariant of the work: what is done of it, by where the worker is. -/
structure WorkDone (s : WorkerState) : Prop where
  looked : s.HasLooked → s.unexamined = 0
  sent : s.pc = .clear → s.txQueue = []
  waiting : s.Blocked → s.unexamined = 0 ∧ s.txQueue = []

theorem Examined.step {s t : WorkerState} {e : WorkerEvent} (hs : Examined s)
    (h : WorkerStep crc16Modbus s e t) : Examined t := by
  cases h with
  | @onDataReceived data =>
    simp only [Examined, sizeofUartCanData, WorkerState.size_onDataReceived,
      WorkerState.unexamined_onDataReceived] at hs ⊢
    omega
  | processed hpc => exact (frameScanner crc16Modbus).residue_length_lt _
  | ignored | enqueued | notified | sent | sentAll | cleared | timeout => exact hs

/-- An event in time keeps the work done. -/
theorem WorkDone.step {s t : WorkerState} {e : WorkerEvent} (hs : WorkDone s) (hok : InTime s e)
    (h : WorkerStep crc16Modbus s e t) : WorkDone t := by
  cases h with
  | ignored _ => exact hs
  | @onDataReceived data =>
    refine ⟨fun hlooked => ?_, fun hclear => ?_, fun hblocked => ?_⟩
    · -- Only bytes that come before the look are in time, or none at all.
      rw [WorkerState.HasLooked, WorkerState.pc_onDataReceived] at hlooked
      have hnil : data = [] := of_not_not fun hne => hok ⟨hne, hlooked⟩
      rw [WorkerState.unexamined_onDataReceived, hs.looked hlooked, hnil]
      rfl
    · rw [WorkerState.pc_onDataReceived] at hclear
      rw [WorkerState.txQueue_onDataReceived, hs.sent hclear]
    · simp [WorkerState.Blocked] at hblocked
  | @enqueued i l v d hv =>
    refine ⟨hs.looked, fun hclear => ?_, fun hblocked => ?_⟩
    · exact absurd (And.intro hv hclear) hok
    · simp [WorkerState.Blocked, WorkerState.notifiyMainThread] at hblocked
  | notified _ _ | timeout _ =>
    exact ⟨by simp [WorkerState.HasLooked], by simp, by simp [WorkerState.Blocked]⟩
  | processed _ => exact ⟨fun _ => rfl, by simp, by simp [WorkerState.Blocked]⟩
  | sent hpc _ =>
    exact ⟨hs.looked, by simp [hpc], by simp [WorkerState.Blocked, hpc]⟩
  | sentAll hpc hqueue =>
    exact ⟨fun _ => hs.looked (.inl hpc), fun _ => hqueue, by simp [WorkerState.Blocked]⟩
  | cleared hpc =>
    exact ⟨by simp [WorkerState.HasLooked], by simp,
      fun _ => ⟨hs.looked (.inr hpc), hs.sent hpc⟩⟩

/-- In every interleaving without late arrivals, the worker only waits when there
    is nothing to do. -/
theorem no_lost_wakeup {s : WorkerState} (h : (canWorker crc16Modbus).Reachable InTime s)
    (hblocked : s.Blocked) : s.Quiet := by
  have hempty : Examined (canWorker crc16Modbus).init := by
    show Examined .empty
    decide
  have hexamined : Examined s :=
    h.invariant hempty fun hs _ hst => Examined.step hs (workerStep_of_step hst)
  have hinit : WorkDone (canWorker crc16Modbus).init :=
    ⟨fun _ => rfl, fun _ => rfl, fun _ => ⟨rfl, rfl⟩⟩
  have hdone : WorkDone s :=
    h.invariant hinit fun hs hok hst => WorkDone.step hs hok (workerStep_of_step hst)
  obtain ⟨hzero, hqueue⟩ := hdone.waiting hblocked
  rw [Examined, hzero] at hexamined
  exact ⟨hqueue, hzero, hexamined⟩

/-- A byte and a frame arrive, and one round of the worker takes care of them. -/
def timelyRun : List WorkerEvent :=
  [.onDataReceived [0xDE], .addToTxQueue 0x123 1 (some [0xAA])] ++ List.replicate 5 .worker

theorem no_lost_wakeup_sample :
    ∃ s, (canWorker modbusCrc).run (canWorker modbusCrc).init timelyRun = some s ∧
      s.Blocked ∧ s.Quiet := by
  have hrun : ∃ s, (canWorker modbusCrc).run (canWorker modbusCrc).init timelyRun = some s ∧
      s.Blocked := by decide +kernel
  obtain ⟨s, hs, hblocked⟩ := hrun
  exact ⟨s, hs, hblocked, no_lost_wakeup ⟨timelyRun, .of_meets (by decide +kernel) hs⟩ hblocked⟩

/-- A frame arrives when the worker has sent the one before it, and is about to
    clear the notification. -/
def lateRun : List WorkerEvent :=
  [.addToTxQueue 0x123 1 (some [0xAA])] ++ List.replicate 4 .worker ++
    [.addToTxQueue 0x123 1 (some [0xBB]), .worker]

/-- The worker waits with the second frame in the queue. -/
theorem late_frame_waits :
    ¬∀ s, (canWorker modbusCrc).Reachable Free s → s.Blocked → s.Quiet := by
  intro h
  have hrun : ∃ s, (canWorker modbusCrc).run (canWorker modbusCrc).init lateRun = some s ∧
      s.Blocked ∧ ¬s.Quiet := by decide +kernel
  obtain ⟨s, hs, hblocked, hwork⟩ := hrun
  exact hwork (h s (.of_run hs) hblocked)

/-! ## Late arrivals -/

/-- The loop of `SendPendingCanFrames`, left alone, empties the queue. -/
theorem run_send {s : WorkerState} (hpc : s.pc = .send) :
    (canWorker crc16Modbus).run s (List.replicate (s.txQueue.length + 1) .worker) =
      some { s with txQueue := [], pc := .clear } := by
  obtain ⟨rx, unexamined, queue, pending, pc⟩ := s
  obtain rfl : pc = .send := hpc
  induction queue with
  | nil => rfl
  | cons d queue ih => exact ih

/-- Left alone at the end of its round, the worker waits with what there is to do. -/
theorem run_clear {s : WorkerState} (hpc : s.pc = .clear)
    (hwork : s.unexamined ≠ 0 ∨ s.txQueue ≠ []) :
    ∃ u, (canWorker crc16Modbus).run s [.worker] = some u ∧ u.Blocked ∧ ¬u.Quiet := by
  obtain ⟨rx, unexamined, queue, pending, pc⟩ := s
  obtain rfl : pc = .clear := hpc
  exact ⟨_, rfl, ⟨rfl, rfl⟩, fun h => hwork.elim (absurd h.2.1) (absurd h.1)⟩

/-- After a late arrival, the worker only has to go on to wait with work left. -/
theorem late_arrival_waits {s t : WorkerState} {e : WorkerEvent} (hlate : Late s e)
    (hst : (canWorker crc16Modbus).step s e = some t) :
    ∃ n u, (canWorker crc16Modbus).run t (List.replicate n .worker) = some u ∧
      u.Blocked ∧ ¬u.Quiet := by
  cases workerStep_of_step hst with
  | @onDataReceived data =>
    have hpos : 0 < data.length := List.length_pos_of_ne_nil hlate.1
    have hwork : (s.onDataReceived data).unexamined ≠ 0 := by
      rw [WorkerState.unexamined_onDataReceived, rxCircBuffSize]
      omega
    rcases hlate.2 with hpc | hpc
    all_goals rw [← s.pc_onDataReceived data] at hpc
    · -- The worker first sends what is in the queue.
      obtain ⟨u, hu, hblocked, hquiet⟩ := @run_clear crc16Modbus
        { s.onDataReceived data with txQueue := [], pc := .clear } rfl (.inl hwork)
      refine ⟨(s.onDataReceived data).txQueue.length + 1 + 1, u, ?_, hblocked, hquiet⟩
      rw [List.replicate_succ', Machine.run_append, run_send hpc]
      exact hu
    · exact ⟨1, run_clear hpc (.inl hwork)⟩
  | ignored hv => exact absurd hv hlate.1
  | enqueued hv => exact ⟨1, run_clear hlate.2 (.inr (pushTx_ne_nil _ _))⟩
  | notified | processed | sent | sentAll | cleared | timeout => exact hlate.elim

end QustomKeyboard
