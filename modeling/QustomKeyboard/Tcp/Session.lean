import QustomKeyboard.Theory.Machine

/-!
# A TCP session

A session sends its messages one at a time: while a write is in progress, further
messages are kept pending (`sendAsync`), and a timer is armed for them. The next
message is taken from the pending ones when the write is done (`handleWrite`),
and also when the timer expires (`handleTransferTimer`).

The handlers are called by asio, one at a time, each operation completing once
(`tcpSession`): a write that has been started completes, with an error or
without; a wait for the timer completes after the timer has expired, or, with an
error, after it has been cancelled by arming the timer again. What has been
received is made sense of by the executor of the session, of which only the
answer is seen here.

Messages are told apart by when they were given to the session, and the state
carries what has become of them (`accepted`, `started`, `completed`).
-/

namespace QustomKeyboard

open Theory

/-- A message to be sent, given to the session after `seq` others. -/
structure Message where
  seq : ℕ
  text : String
  deriving DecidableEq

/-- The answer of an executor to what has been received. -/
structure TcpMessageReturn where
  /-- The session is to be closed, after the response. -/
  close : Bool
  /-- Not looked at by the session. -/
  handled : Bool
  /-- Empty if there is none. -/
  response : String
  deriving DecidableEq

/-- A session, and what asio holds for it. -/
structure SessionState where
  pendingMessages : List Message
  /-- The message in the buffer of the writes, if there has been one. -/
  sentData : Option Message
  writeInProgress : Bool
  isClosePending : Bool
  /-- The socket is open. -/
  isOpen : Bool
  /-- The read has not completed yet. -/
  reading : Bool
  /-- The messages whose writes have not completed yet. -/
  writing : List Message
  /-- The timer is armed, and has not expired yet. -/
  timerArmed : Bool
  /-- How many waits for the timer are to complete after it has expired. -/
  waitsExpired : ℕ
  /-- How many waits for the timer are to complete with an error. -/
  waitsAborted : ℕ
  /-- Given to `SendAsync` by a caller other than the session itself. -/
  accepted : List Message
  /-- Given to `async_write`. -/
  started : List Message
  /-- Written without an error. -/
  completed : List Message
  deriving DecidableEq

namespace SessionState

/-- A session that has just been started. -/
def empty : SessionState where
  pendingMessages := []
  sentData := none
  writeInProgress := false
  isClosePending := false
  isOpen := true
  reading := true
  writing := []
  timerArmed := false
  waitsExpired := 0
  waitsAborted := 0
  accepted := []
  started := []
  completed := []

/-- `transferTimer.expires_from_now`, and then `async_wait`: a wait that has not
    expired yet is cancelled. -/
def armTimer (s : SessionState) : SessionState :=
  { s with
    waitsAborted := if s.timerArmed then s.waitsAborted + 1 else s.waitsAborted
    timerArmed := true }

/-- `async_write` of the buffer. -/
def asyncWrite (s : SessionState) (m : Message) : SessionState :=
  { s with writing := s.writing ++ [m], started := s.started ++ [m] }

/-- `Session::SendAsync`. -/
def sendAsync (s : SessionState) (buffer : Message) : SessionState :=
  if s.writeInProgress then
    armTimer { s with pendingMessages := s.pendingMessages ++ [buffer] }
  else
    asyncWrite { s with sentData := some buffer, writeInProgress := true } buffer

/-- `Session::StopAsync`, as far as the session itself is concerned. -/
def stopAsync (s : SessionState) : SessionState :=
  if s.isOpen then { s with isOpen := false } else s

/-- Take note of a new message. -/
def accept (s : SessionState) (m : Message) : SessionState :=
  { s with accepted := s.accepted ++ [m] }

/-- A call of `SendAsync` by a caller, with a new message. -/
def send (s : SessionState) (text : String) : SessionState :=
  let m : Message := ⟨s.accepted.length, text⟩
  (s.accept m).sendAsync m

/-- What `HandleTransferTimer` and `HandleWrite` do without an error. -/
def sendNext (s : SessionState) : SessionState :=
  match s.pendingMessages with
  | m :: _ =>
    let s := s.sendAsync m
    { s with pendingMessages := s.pendingMessages.tail }
  | [] => if s.isClosePending then s.stopAsync else s

/-- `Session::HandleTransferTimer`. -/
def handleTransferTimer (s : SessionState) (error : Bool) : SessionState :=
  if !error then s.sendNext else s

/-- `Session::HandleWrite`. -/
def handleWrite (s : SessionState) (error : Bool) : SessionState :=
  let s := { s with writeInProgress := false }
  if !error then s.sendNext else { s with pendingMessages := [] }

/-- `Session::HandleRead`, given the answer of the executor. -/
def handleRead (s : SessionState) (error : Bool) (ret : TcpMessageReturn) : SessionState :=
  if !error then
    if ret.response ≠ "" then
      let s := s.send ret.response
      if ret.close then { s with isClosePending := true } else s
    else
      if ret.close then s.stopAsync else s
  else s

end SessionState

/-- What may happen: a broadcast, the timer expiring, and the completion handlers. -/
inductive SessionEvent
  | broadcastMessage (msg : String)
  | timerExpires
  | handleRead (error : Bool) (ret : TcpMessageReturn)
  | handleWrite (error : Bool)
  | handleTransferTimer (error : Bool)
  deriving DecidableEq

/-- The next step of a session. -/
def SessionState.step (s : SessionState) : SessionEvent → Option SessionState
  | .broadcastMessage msg => some (s.send msg)
  | .timerExpires =>
    if s.timerArmed then
      some { s with timerArmed := false, waitsExpired := s.waitsExpired + 1 }
    else none
  | .handleRead error ret =>
    if s.reading then some (handleRead { s with reading := false } error ret) else none
  | .handleWrite error =>
    match s.writing with
    | [] => none
    | m :: writing =>
      let completed := if error then s.completed else s.completed ++ [m]
      some (handleWrite { s with writing := writing, completed := completed } error)
  | .handleTransferTimer false =>
    if 0 < s.waitsExpired then
      some (handleTransferTimer { s with waitsExpired := s.waitsExpired - 1 } false)
    else none
  | .handleTransferTimer true =>
    if 0 < s.waitsAborted then
      some (handleTransferTimer { s with waitsAborted := s.waitsAborted - 1 } true)
    else none

/-- The runs of a session. -/
def tcpSession : Machine SessionState SessionEvent where
  init := .empty
  step := SessionState.step

/-! ## The steps -/

/-- The steps, spelled out. -/
inductive SessionStep (s : SessionState) : SessionEvent → SessionState → Prop
  | broadcast {msg : String} : SessionStep s (.broadcastMessage msg) (s.send msg)
  | expired : s.timerArmed = true →
      SessionStep s .timerExpires
        { s with timerArmed := false, waitsExpired := s.waitsExpired + 1 }
  | read {error : Bool} {ret : TcpMessageReturn} : s.reading = true →
      SessionStep s (.handleRead error ret) (.handleRead { s with reading := false } error ret)
  | written {m : Message} {writing : List Message} : s.writing = m :: writing →
      SessionStep s (.handleWrite false)
        (.sendNext { s with
          writing := writing, completed := s.completed ++ [m], writeInProgress := false })
  | writeFailed {m : Message} {writing : List Message} : s.writing = m :: writing →
      SessionStep s (.handleWrite true)
        { s with writing := writing, writeInProgress := false, pendingMessages := [] }
  | timer : 0 < s.waitsExpired →
      SessionStep s (.handleTransferTimer false)
        (.sendNext { s with waitsExpired := s.waitsExpired - 1 })
  | timerAborted : 0 < s.waitsAborted →
      SessionStep s (.handleTransferTimer true) { s with waitsAborted := s.waitsAborted - 1 }

/-- Every step of the machine is one of these. -/
theorem sessionStep_of_step {s t : SessionState} {e : SessionEvent}
    (h : tcpSession.step s e = some t) : SessionStep s e t := by
  replace h : s.step e = some t := h
  unfold SessionState.step at h
  split at h
  · exact Option.some.inj h ▸ .broadcast
  · obtain ⟨harmed, h⟩ := Option.ite_none_right_eq_some.1 h
    exact Option.some.inj h ▸ .expired harmed
  · obtain ⟨hreading, h⟩ := Option.ite_none_right_eq_some.1 h
    exact Option.some.inj h ▸ .read hreading
  · rename_i error
    split at h
    · cases h
    · rename_i m writing hwriting
      obtain rfl := Option.some.inj h
      cases error with
      | false => exact .written hwriting
      | true => exact .writeFailed hwriting
  · obtain ⟨hwaits, h⟩ := Option.ite_none_right_eq_some.1 h
    exact Option.some.inj h ▸ .timer hwaits
  · obtain ⟨hwaits, h⟩ := Option.ite_none_right_eq_some.1 h
    exact Option.some.inj h ▸ .timerAborted hwaits

namespace SessionState

variable {s : SessionState}

/-- With a write in progress, a message is put behind the pending ones. -/
theorem sendAsync_of_busy (h : s.writeInProgress = true) (m : Message) :
    s.sendAsync m = armTimer { s with pendingMessages := s.pendingMessages ++ [m] } := if_pos h

/-- Otherwise it is written at once. -/
theorem sendAsync_of_free (h : s.writeInProgress = false) (m : Message) :
    s.sendAsync m = asyncWrite { s with sentData := some m, writeInProgress := true } m :=
  if_neg (by rw [h]; exact Bool.false_ne_true)

@[simp] theorem accepted_sendAsync (m : Message) : (s.sendAsync m).accepted = s.accepted := by
  rw [sendAsync]
  split <;> rfl

@[simp] theorem writeInProgress_sendAsync (m : Message) :
    (s.sendAsync m).writeInProgress = true := by
  rw [sendAsync]
  split
  · assumption
  · rfl

/-- A stopped session only has its socket closed. -/
theorem stopAsync_eq (s : SessionState) : s.stopAsync = { s with isOpen := false } := by
  rw [stopAsync]
  split
  · rfl
  · rename_i h
    rw [← Bool.eq_false_of_not_eq_true h]

/-- What comes of a read: nothing, the session is stopped, or a response is sent,
    after which the session may be to be closed. -/
theorem handleRead_cases (s : SessionState) (error : Bool) (ret : TcpMessageReturn) :
    s.handleRead error ret = s ∨ s.handleRead error ret = s.stopAsync ∨
      ∃ close, s.handleRead error ret = { s.send ret.response with isClosePending := close } := by
  rw [handleRead]
  split
  · split
    · cases ret.close with
      | true => exact .inr (.inr ⟨true, rfl⟩)
      | false => exact .inr (.inr ⟨_, rfl⟩)
    · cases ret.close with
      | true => exact .inr (.inl rfl)
      | false => exact .inl rfl
  · exact .inl rfl

theorem handleRead_of_response (s : SessionState) {ret : TcpMessageReturn}
    (h : ret.response ≠ "") :
    ∃ close, s.handleRead false ret = { s.send ret.response with isClosePending := close } := by
  rw [handleRead, if_pos Bool.not_false, if_pos h]
  cases ret.close with
  | true => exact ⟨true, rfl⟩
  | false => exact ⟨_, rfl⟩

@[simp] theorem accepted_stopAsync : s.stopAsync.accepted = s.accepted := by
  rw [stopAsync_eq]

/-- Without pending messages, there is nothing to be sent. -/
theorem sendNext_of_nil (h : s.pendingMessages = []) :
    s.sendNext = if s.isClosePending then s.stopAsync else s := by
  rw [sendNext, h]

/-- While a write is in progress, the front of the queue is put back behind the
    other messages. -/
theorem sendNext_of_busy {m : Message} {ms : List Message} (h : s.pendingMessages = m :: ms)
    (hbusy : s.writeInProgress = true) :
    s.sendNext = armTimer { s with pendingMessages := ms ++ [m] } := by
  rw [sendNext, h]
  show { s.sendAsync m with pendingMessages := (s.sendAsync m).pendingMessages.tail } = _
  rw [sendAsync_of_busy hbusy]
  simp [armTimer, h]

/-- Otherwise it is written. -/
theorem sendNext_of_free {m : Message} {ms : List Message} (h : s.pendingMessages = m :: ms)
    (hfree : s.writeInProgress = false) :
    s.sendNext = asyncWrite
      { s with sentData := some m, writeInProgress := true, pendingMessages := ms } m := by
  rw [sendNext, h]
  show { s.sendAsync m with pendingMessages := (s.sendAsync m).pendingMessages.tail } = _
  rw [sendAsync_of_free hfree]
  simp [asyncWrite, h]

/-- What is done next: nothing, or the session is stopped; or the front of the queue is put
    back behind the others, or written. -/
theorem sendNext_cases (s : SessionState) :
    s.pendingMessages = [] ∧ (s.sendNext = s ∨ s.sendNext = s.stopAsync) ∨
      ∃ m ms, s.pendingMessages = m :: ms ∧
        (s.writeInProgress = true ∧
            s.sendNext = armTimer { s with pendingMessages := ms ++ [m] } ∨
          s.writeInProgress = false ∧
            s.sendNext = asyncWrite
              { s with sentData := some m, writeInProgress := true, pendingMessages := ms } m) := by
  cases hpending : s.pendingMessages with
  | nil =>
    rw [sendNext_of_nil hpending]
    split
    · exact .inl ⟨rfl, .inr rfl⟩
    · exact .inl ⟨rfl, .inl rfl⟩
  | cons m ms =>
    refine .inr ⟨m, ms, rfl, ?_⟩
    rcases Bool.eq_false_or_eq_true s.writeInProgress with hbusy | hfree
    · exact .inl ⟨hbusy, sendNext_of_busy hpending hbusy⟩
    · exact .inr ⟨hfree, sendNext_of_free hpending hfree⟩

/-- The next message is none, and the session is stopped because its close is pending. -/
def StopsNext (s : SessionState) : Prop := s.pendingMessages = [] ∧ s.isClosePending = true

instance (s : SessionState) : Decidable s.StopsNext := inferInstanceAs (Decidable (_ ∧ _))

/-- This is when `sendNext` calls `StopAsync`. -/
theorem sendNext_of_stopsNext (h : s.StopsNext) : s.sendNext = s.stopAsync := by
  rw [sendNext_of_nil h.1, if_pos h.2]

@[simp] theorem accepted_sendNext : s.sendNext.accepted = s.accepted := by
  rw [sendNext]
  split
  · exact accepted_sendAsync _
  · split
    · exact accepted_stopAsync
    · rfl

/-! ### Stopping -/

@[simp] theorem isOpen_sendAsync (m : Message) : (s.sendAsync m).isOpen = s.isOpen := by
  rw [sendAsync]
  split <;> rfl

@[simp] theorem isOpen_send (text : String) : (s.send text).isOpen = s.isOpen :=
  isOpen_sendAsync _

theorem isOpen_sendNext : s.sendNext.isOpen = true ↔ s.isOpen = true ∧ ¬s.StopsNext := by
  by_cases hstops : s.StopsNext
  · rw [sendNext_of_stopsNext hstops, stopAsync_eq]
    exact iff_of_false Bool.false_ne_true fun h => h.2 hstops
  · rw [and_iff_left hstops, sendNext]
    split
    · exact Bool.eq_iff_iff.1 (isOpen_sendAsync _)
    · rename_i hpending
      rw [if_neg fun hclose => hstops ⟨hpending, hclose⟩]

/-- The handler that is called calls `StopAsync`. -/
def Stops (s : SessionState) : SessionEvent → Prop
  | .handleRead error ret => error = false ∧ ret.response = "" ∧ ret.close = true
  | .handleWrite error | .handleTransferTimer error => error = false ∧ s.StopsNext
  | _ => False

instance (s : SessionState) : ∀ e, Decidable (s.Stops e)
  | .handleRead _ _ | .handleWrite _ | .handleTransferTimer _ => inferInstanceAs (Decidable (_ ∧ _))
  | .broadcastMessage _ | .timerExpires => inferInstanceAs (Decidable False)

theorem isOpen_handleRead (error : Bool) (ret : TcpMessageReturn) :
    (s.handleRead error ret).isOpen = true ↔
      s.isOpen = true ∧ ¬s.Stops (.handleRead error ret) := by
  cases error with
  | true => exact (and_iff_left fun h => absurd h.1.symm Bool.false_ne_true).symm
  | false =>
    by_cases hresponse : ret.response = ""
    · cases hclose : ret.close with
      | true =>
        have hstops : s.Stops (.handleRead false ret) := ⟨rfl, hresponse, hclose⟩
        simp [handleRead, hresponse, hclose, stopAsync_eq, hstops]
      | false => simp [handleRead, hresponse, hclose, Stops]
    · cases hclose : ret.close <;> simp [handleRead, hresponse, hclose, Stops]

/-- The socket is only closed by a handler that calls `StopAsync`. -/
theorem isOpen_step {t : SessionState} {e : SessionEvent} (h : SessionStep s e t) :
    t.isOpen = true ↔ s.isOpen = true ∧ ¬s.Stops e := by
  cases h with
  | broadcast => simp [Stops]
  | expired _ => exact (and_iff_left id).symm
  | @read error ret _ => exact isOpen_handleRead (s := { s with reading := false }) error ret
  | written _ => simp [isOpen_sendNext, Stops, StopsNext]
  | writeFailed _ => simp [Stops]
  | timer _ => simp [isOpen_sendNext, Stops, StopsNext]
  | timerAborted _ => simp [Stops]

end SessionState

/-! ## One write at a time -/

/-- Messages are only pending while a write is in progress, and then there is
    just one write. -/
structure OneWrite (s : SessionState) : Prop where
  busy : s.pendingMessages ≠ [] → s.writeInProgress = true
  writing : s.writing.length = if s.writeInProgress then 1 else 0

namespace OneWrite

variable {s t : SessionState}

theorem pendingMessages_eq_nil (hs : OneWrite s) (hfree : s.writeInProgress = false) :
    s.pendingMessages = [] := by
  by_contra hne
  rw [hs.busy hne] at hfree
  cases hfree

theorem accept (hs : OneWrite s) (m : Message) : OneWrite (s.accept m) := ⟨hs.busy, hs.writing⟩

theorem sendAsync (hs : OneWrite s) (m : Message) : OneWrite (s.sendAsync m) := by
  have hlen := hs.writing
  refine ⟨fun _ => s.writeInProgress_sendAsync m, ?_⟩
  rw [SessionState.writeInProgress_sendAsync]
  cases hbusy : s.writeInProgress with
  | true =>
    rw [hbusy] at hlen
    rw [SessionState.sendAsync_of_busy hbusy]
    exact hlen
  | false =>
    rw [hbusy] at hlen
    rw [SessionState.sendAsync_of_free hbusy]
    show (s.writing ++ [m]).length = 1
    rw [List.length_append, hlen]
    rfl

theorem send (hs : OneWrite s) (text : String) : OneWrite (s.send text) :=
  (hs.accept _).sendAsync _

theorem stopAsync (hs : OneWrite s) : OneWrite s.stopAsync := by
  rw [SessionState.stopAsync_eq]
  exact ⟨hs.busy, hs.writing⟩

theorem handleRead (hs : OneWrite s) (error : Bool) (ret : TcpMessageReturn) :
    OneWrite (s.handleRead error ret) := by
  have hsend := hs.send ret.response
  obtain h | h | ⟨close, h⟩ := s.handleRead_cases error ret
  all_goals rw [h]
  · exact hs
  · exact hs.stopAsync
  · exact ⟨hsend.busy, hsend.writing⟩

/-- When the only write is done, the next one is started, if there is one. -/
theorem sendNext_of_free (hfree : s.writeInProgress = false) (hwriting : s.writing = []) :
    OneWrite s.sendNext := by
  have hnone (hpending : s.pendingMessages = []) : OneWrite s :=
    ⟨fun h => absurd hpending h, by rw [hfree, hwriting]; rfl⟩
  rcases s.sendNext_cases with ⟨hpending, h | h⟩ | ⟨m, ms, -, ⟨hbusy, h⟩ | ⟨-, h⟩⟩
  all_goals rw [h]
  · exact hnone hpending
  · exact (hnone hpending).stopAsync
  · rw [hfree] at hbusy
    cases hbusy
  · refine ⟨fun _ => rfl, ?_⟩
    show (s.writing ++ [m]).length = 1
    rw [hwriting]
    rfl

/-- When the timer expires, no write is started. -/
theorem sendNext (hs : OneWrite s) : OneWrite s.sendNext := by
  rcases s.sendNext_cases with ⟨-, h | h⟩ | ⟨m, ms, hpending, ⟨hbusy, h⟩ | ⟨hfree, h⟩⟩
  all_goals rw [h]
  · exact hs
  · exact hs.stopAsync
  · exact ⟨fun _ => hbusy, hs.writing⟩
  · rw [hs.busy (hpending ▸ List.cons_ne_nil m ms)] at hfree
    cases hfree

theorem writeInProgress_iff (hs : OneWrite s) : s.writeInProgress = true ↔ s.writing ≠ [] := by
  have hlen := hs.writing
  cases hbusy : s.writeInProgress with
  | true =>
    rw [hbusy] at hlen
    refine iff_of_true rfl fun hnil => ?_
    rw [hnil] at hlen
    cases hlen
  | false =>
    rw [hbusy] at hlen
    exact iff_of_false Bool.false_ne_true fun hne => hne (List.length_eq_zero_iff.1 hlen)

theorem writing_eq_nil_of_free (hs : OneWrite s) (hfree : s.writeInProgress = false) :
    s.writing = [] := by
  have hlen := hs.writing
  rw [hfree] at hlen
  exact List.length_eq_zero_iff.1 hlen

/-- The write that completes is the only one. -/
theorem writing_eq_nil (hs : OneWrite s) {m : Message} {writing : List Message}
    (h : s.writing = m :: writing) : writing = [] := by
  have hlen := hs.writing
  rw [h, List.length_cons] at hlen
  split at hlen
  · exact List.length_eq_zero_iff.1 (Nat.succ.inj hlen)
  · cases hlen

theorem step {e : SessionEvent} (hs : OneWrite s) (h : SessionStep s e t) : OneWrite t := by
  cases h with
  | broadcast => exact hs.send _
  | expired _ => exact ⟨hs.busy, hs.writing⟩
  | @read error ret _ =>
    exact handleRead (s := { s with reading := false }) ⟨hs.busy, hs.writing⟩ error ret
  | written hwriting => exact sendNext_of_free rfl (hs.writing_eq_nil hwriting)
  | writeFailed hwriting =>
    exact ⟨fun h => absurd rfl h, congrArg List.length (hs.writing_eq_nil hwriting)⟩
  | timer _ => exact sendNext (s := { s with waitsExpired := _ }) ⟨hs.busy, hs.writing⟩
  | timerAborted _ => exact ⟨hs.busy, hs.writing⟩

end OneWrite

/-- In every run, there is at most one write at a time. -/
theorem oneWrite_of_reachable {ok : SessionState → SessionEvent → Prop} {s : SessionState}
    (h : tcpSession.Reachable ok s) : OneWrite s := by
  have hinit : OneWrite tcpSession.init := ⟨fun h => absurd rfl h, rfl⟩
  exact h.invariant hinit fun hs _ hst => OneWrite.step hs (sessionStep_of_step hst)

end QustomKeyboard
