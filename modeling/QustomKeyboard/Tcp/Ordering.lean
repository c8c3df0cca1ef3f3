import QustomKeyboard.Tcp.Session
import QustomKeyboard.Theory.Log

/-!
# The order of the messages of a session

The pending messages are a queue, and when a write is done, the next message is
taken from its front. When the timer expires while a write is in progress, the
message at the front is put back behind the others (`sendNext_of_busy`), which
is harmless only as long as there are no others.

So the messages leave in the order in which they were given to the session if
the timer never finds two of them pending (`messages_leave_in_order`). If it does,
and the very next event is that the write completes, the order is broken
(`timer_breaks_order`). If the timer expires again before, the queue may have gone
round, and be in order again.
-/

namespace QustomKeyboard

open Theory

/-- The writes are started in the order in which the messages were given to the
    session: of two messages, the first is started before the second. -/
def LeavesInOrder (s : SessionState) : Prop :=
  ∀ m₁ m₂, Before m₁ m₂ s.accepted → m₂ ∈ s.started → Before m₁ m₂ s.started

/-- No write completes with an error. -/
def NoWriteError (_ : SessionState) (e : SessionEvent) : Prop := e ≠ .handleWrite true

instance (s : SessionState) (e : SessionEvent) : Decidable (NoWriteError s e) :=
  inferInstanceAs (Decidable (_ ≠ _))

/-- The timer does not expire upon two or more pending messages. -/
def TimerFindsFew (s : SessionState) (e : SessionEvent) : Prop :=
  e = .handleTransferTimer false → s.pendingMessages.length < 2

instance (s : SessionState) (e : SessionEvent) : Decidable (TimerFindsFew s e) :=
  inferInstanceAs (Decidable (_ → _))

/-- The invariant of the queue: the messages are started in the order in which
    they were given to the session, and the others are pending in this order. -/
structure Fifo (s : SessionState) : Prop where
  numbered : Numbered Message.seq s.accepted
  started_append : s.started ++ s.pendingMessages = s.accepted

namespace Fifo

variable {s t : SessionState}

theorem send (hs : Fifo s) (hw : OneWrite s) (text : String) : Fifo (s.send text) := by
  have hnum := hs.numbered.concat (a := ⟨s.accepted.length, text⟩) rfl
  rw [SessionState.send]
  generalize (⟨s.accepted.length, text⟩ : Message) = m at hnum ⊢
  refine ⟨(SessionState.accepted_sendAsync m).symm ▸ hnum, ?_⟩
  rw [SessionState.accepted_sendAsync]
  show _ = s.accepted ++ [m]
  rw [← hs.started_append]
  cases hbusy : s.writeInProgress with
  | true =>
    rw [SessionState.sendAsync_of_busy (s := s.accept m) hbusy]
    exact (List.append_assoc _ _ _).symm
  | false =>
    -- Nothing is pending, so the message is the next to be started.
    have hnil := hw.pendingMessages_eq_nil hbusy
    rw [SessionState.sendAsync_of_free (s := s.accept m) hbusy]
    show (s.started ++ [m]) ++ s.pendingMessages = _
    rw [hnil, List.append_nil, List.append_nil]

theorem stopAsync (hs : Fifo s) : Fifo s.stopAsync := by
  rw [SessionState.stopAsync_eq]
  exact ⟨hs.numbered, hs.started_append⟩

theorem handleRead (hs : Fifo s) (hw : OneWrite s) (error : Bool) (ret : TcpMessageReturn) :
    Fifo (s.handleRead error ret) := by
  have hsend := hs.send hw ret.response
  obtain h | h | ⟨close, h⟩ := s.handleRead_cases error ret
  all_goals rw [h]
  · exact hs
  · exact hs.stopAsync
  · exact ⟨hsend.numbered, hsend.started_append⟩

/-- The next message is the one at the front of the queue, unless it is put back
    behind others. -/
theorem sendNext (hs : Fifo s) (h : s.writeInProgress = false ∨ s.pendingMessages.length < 2) :
    Fifo s.sendNext := by
  have happ := hs.started_append
  rcases s.sendNext_cases with ⟨-, hnext | hnext⟩ | ⟨m, ms, hpending, ⟨hbusy, hnext⟩ | ⟨-, hnext⟩⟩
  all_goals rw [hnext]
  · exact hs
  · exact hs.stopAsync
  · -- The message is put back, but it is the only one.
    have hone : ms = [] := by
      rcases h with h | h
      · rw [hbusy] at h
        cases h
      · rw [hpending, List.length_cons] at h
        exact List.length_eq_zero_iff.1 (by omega)
    rw [hpending, hone] at happ
    rw [hone]
    exact ⟨hs.numbered, happ⟩
  · rw [hpending] at happ
    exact ⟨hs.numbered, by rw [← happ, List.append_cons]; rfl⟩

theorem step {e : SessionEvent} (hs : Fifo s) (hw : OneWrite s) (hok : NoWriteError s e)
    (hfew : TimerFindsFew s e) (h : SessionStep s e t) : Fifo t := by
  cases h with
  | broadcast => exact hs.send hw _
  | expired _ => exact ⟨hs.numbered, hs.started_append⟩
  | @read error ret _ =>
    exact handleRead (s := { s with reading := false }) ⟨hs.numbered, hs.started_append⟩
      ⟨hw.busy, hw.writing⟩ error ret
  | written _ => exact sendNext ⟨hs.numbered, hs.started_append⟩ (.inl rfl)
  | writeFailed _ => exact absurd rfl hok
  | timer _ => exact sendNext ⟨hs.numbered, hs.started_append⟩ (.inr (hfew rfl))
  | timerAborted _ => exact ⟨hs.numbered, hs.started_append⟩

/-- What has been started is a prefix of what has been given to the session. -/
theorem leavesInOrder (hs : Fifo s) : LeavesInOrder s := by
  intro m₁ m₂ hbefore hstarted
  have hnodup := hs.numbered.nodup
  rw [← hs.started_append] at hbefore hnodup
  exact hbefore.of_append hnodup hstarted

end Fifo

/-- No write fails, and the timer never finds two messages pending. -/
def Orderly (s : SessionState) (e : SessionEvent) : Prop := NoWriteError s e ∧ TimerFindsFew s e

instance (s : SessionState) (e : SessionEvent) : Decidable (Orderly s e) :=
  inferInstanceAs (Decidable (_ ∧ _))

theorem fifo_of_reachable {s : SessionState} (h : tcpSession.Reachable Orderly s) : Fifo s := by
  have hinit : OneWrite tcpSession.init ∧ Fifo tcpSession.init :=
    ⟨⟨fun h => absurd rfl h, rfl⟩, ⟨numbered_nil, rfl⟩⟩
  have hs := h.invariant (I := fun s => OneWrite s ∧ Fifo s) hinit fun ⟨hw, hs⟩ hok hst =>
    ⟨hw.step (sessionStep_of_step hst), hs.step hw hok.1 hok.2 (sessionStep_of_step hst)⟩
  exact hs.2

/-- In every run without write errors in which the timer never finds two messages
    pending, the messages leave in order. -/
theorem messages_leave_in_order {s : SessionState} (h : tcpSession.Reachable Orderly s) :
    LeavesInOrder s := (fifo_of_reachable h).leavesInOrder

/-- Two messages are sent, and the timer expires while the first is being written. -/
def timerRun : List SessionEvent :=
  [.broadcastMessage "a", .broadcastMessage "b", .timerExpires, .handleTransferTimer false,
    .handleWrite false]

theorem messages_leave_in_order_sample :
    ∃ s, tcpSession.run tcpSession.init timerRun = some s ∧
      s.started = [⟨0, "a"⟩, ⟨1, "b"⟩] ∧ LeavesInOrder s := by
  have hrun : ∃ s, tcpSession.run tcpSession.init timerRun = some s ∧
      s.started = [⟨0, "a"⟩, ⟨1, "b"⟩] := by decide +kernel
  obtain ⟨s, hs, hstarted⟩ := hrun
  exact ⟨s, hs, hstarted, messages_leave_in_order ⟨timerRun, .of_meets (by decide +kernel) hs⟩⟩

/-- Three messages are sent, and the timer expires while the first is being written. -/
def overtakingRun : List SessionEvent :=
  [.broadcastMessage "a", .broadcastMessage "b", .broadcastMessage "c", .timerExpires,
    .handleTransferTimer false, .handleWrite false]

/-- The third message is started before the second. -/
theorem overtaking : ¬∀ s, tcpSession.Reachable NoWriteError s → LeavesInOrder s := by
  intro h
  have hrun : ∃ s, tcpSession.run tcpSession.init overtakingRun = some s ∧
      s.accepted = [⟨0, "a"⟩, ⟨1, "b"⟩, ⟨2, "c"⟩] ∧ s.started = [⟨0, "a"⟩, ⟨2, "c"⟩] := by
    decide +kernel
  obtain ⟨s, hs, haccepted, hstarted⟩ := hrun
  have hbefore : Before ⟨1, "b"⟩ ⟨2, "c"⟩ s.accepted := by
    rw [haccepted]
    exact List.sublist_cons_self _ _
  have := h s ⟨overtakingRun, .of_meets (by decide +kernel) hs⟩ _ _ hbefore (by simp [hstarted])
  rw [hstarted] at this
  have hmem := this.subset List.mem_cons_self
  exact absurd hmem (by decide +kernel)

/-- When the timer has found two messages pending for the first time, the order is
    broken if the next event is the completion of the write. -/
theorem timer_breaks_order {s t : SessionState} (h : tcpSession.Reachable Orderly s)
    (htwo : 2 ≤ s.pendingMessages.length)
    (hst : tcpSession.step s (.handleTransferTimer false) = some t) :
    ∃ u, tcpSession.run t [.handleWrite false] = some u ∧ ¬LeavesInOrder u := by
  have hfifo := fifo_of_reachable h
  have hw := oneWrite_of_reachable h
  obtain ⟨m₁, m₂, ms, hpending⟩ : ∃ m₁ m₂ ms, s.pendingMessages = m₁ :: m₂ :: ms := by
    match hp : s.pendingMessages, htwo with
    | m₁ :: m₂ :: ms, _ => exact ⟨m₁, m₂, ms, rfl⟩
  have hbusy : s.writeInProgress = true := hw.busy (hpending ▸ List.cons_ne_nil _ _)
  obtain ⟨w, hwriting⟩ : ∃ w, s.writing = [w] := by
    have hlen := hw.writing
    rw [hbusy] at hlen
    exact List.length_eq_one_iff.1 hlen
  have hnodup := hfifo.numbered.nodup
  have happ := hfifo.started_append
  cases sessionStep_of_step hst with
  | timer hwaits =>
    obtain ⟨pending, data, busy, close, isOpen, reading, writing, armed, expired, aborted,
      accepted, started, completed⟩ := s
    obtain rfl : pending = m₁ :: m₂ :: ms := hpending
    obtain rfl : busy = true := hbusy
    obtain rfl : writing = [w] := hwriting
    obtain rfl : started ++ m₁ :: m₂ :: ms = accepted := happ
    refine ⟨_, rfl, fun hu => ?_⟩
    -- The second message is started, and the first one is still pending.
    have haccepted : Before m₁ m₂ (started ++ m₁ :: m₂ :: ms) :=
      (List.sublist_append_left [m₁, m₂] ms).trans (List.sublist_append_right started _)
    have hbefore : Before m₁ m₂ (started ++ [m₂]) :=
      hu m₁ m₂ haccepted (List.mem_append_right _ (List.mem_singleton_self m₂))
    rw [List.nodup_append, List.nodup_cons] at hnodup
    rcases List.mem_append.1 (hbefore.subset List.mem_cons_self) with hmem | hmem
    · exact hnodup.2.2 m₁ hmem m₁ List.mem_cons_self rfl
    · exact hnodup.2.1.1 (List.mem_singleton.1 hmem ▸ List.mem_cons_self)

end QustomKeyboard
