import QustomKeyboard.Tcp.Conservation

/-!
# Closing a session

A session that is to be closed after its response (`isClosePending`) is stopped
by the first handler that finds nothing pending. `HandleWrite` only runs when
the only write is done, and so it stops the session when everything has been
written. `HandleTransferTimer` does not look whether a write is in progress, and
may stop the session in the middle of it.

So the session never cuts off its own messages iff the timer never expires at
this point (`cleanClose_iff`).
-/

namespace QustomKeyboard

open Theory

variable {s t : SessionState}

namespace SessionState

/-- The state in which a handler goes on to the next message (`sendNext`). -/
def beforeNext (s : SessionState) : SessionEvent → Option SessionState
  | .handleWrite false =>
    match s.writing with
    | [] => none
    | m :: writing => some
      { s with writing := writing, completed := s.completed ++ [m], writeInProgress := false }
  | .handleTransferTimer false =>
    if 0 < s.waitsExpired then some { s with waitsExpired := s.waitsExpired - 1 } else none
  | _ => none

theorem step_of_beforeNext {s' : SessionState} {e : SessionEvent}
    (h : s.beforeNext e = some s') : tcpSession.step s e = some s'.sendNext := by
  show s.step e = _
  unfold beforeNext at h
  split at h
  · split at h
    · cases h
    · rename_i hwriting
      obtain rfl := Option.some.inj h
      simp only [SessionState.step, hwriting]
      rfl
  · obtain ⟨hwaits, h⟩ := Option.ite_none_right_eq_some.1 h
    obtain rfl := Option.some.inj h
    exact if_pos hwaits
  · cases h

end SessionState

/-- If the event makes a handler stop the session because its close is pending,
    there is no write in progress, and all messages given to it have been written. -/
def CleanClose (s : SessionState) (e : SessionEvent) : Prop :=
  ∀ s', s.beforeNext e = some s' → s'.StopsNext →
    s'.writing = [] ∧ s'.accepted.Perm s'.completed

/-- The timer does not expire in the middle of the last write of a session whose
    close is pending. -/
def TimerSparesLast (s : SessionState) (e : SessionEvent) : Prop :=
  e = .handleTransferTimer false → 0 < s.waitsExpired → s.StopsNext → s.writeInProgress = false

instance : ∀ s e, Decidable (CleanClose s e) := fun s e =>
  decidable_of_iff (∀ s' ∈ s.beforeNext e, s'.StopsNext →
    s'.writing = [] ∧ s'.accepted.Perm s'.completed) Iff.rfl

instance : ∀ s e, Decidable (TimerSparesLast s e) := fun _ _ =>
  inferInstanceAs (Decidable (_ → _ → _ → _))

/-- With nothing pending and no write in progress, everything has been written. -/
theorem Conserved.completed (hs : Conserved s) (hpending : s.pendingMessages = [])
    (hwriting : s.writing = []) : s.accepted.Perm s.completed := by
  rwa [Conserved, SessionState.held, hpending, hwriting, List.append_nil, List.append_nil] at hs

/-- `HandleWrite` closes cleanly, and `HandleTransferTimer` does iff there is no write. -/
theorem cleanClose_iff_timerSparesLast {e : SessionEvent} (hw : OneWrite s) (hs : Conserved s) :
    CleanClose s e ↔ TimerSparesLast s e := by
  constructor
  · rintro h rfl hwaits hstops
    obtain ⟨hnil, -⟩ := h { s with waitsExpired := s.waitsExpired - 1 } (if_pos hwaits) hstops
    exact Bool.eq_false_iff.2 fun hbusy => hw.writeInProgress_iff.1 hbusy hnil
  · intro h s' hs' hstops
    unfold SessionState.beforeNext at hs'
    split at hs'
    · split at hs'
      · cases hs'
      · rename_i m writing hwriting
        obtain rfl := Option.some.inj hs'
        -- The write that has completed was the only one.
        have hnil : writing = [] := hw.writing_eq_nil hwriting
        exact ⟨hnil, (hs.complete hwriting).completed hstops.1 hnil⟩
    · obtain ⟨hwaits, hs'⟩ := Option.ite_none_right_eq_some.1 hs'
      obtain rfl := Option.some.inj hs'
      have hnil := hw.writing_eq_nil_of_free (h rfl hwaits hstops)
      exact ⟨hnil, hs.completed hstops.1 hnil⟩
    · cases hs'

/-- In a run without write errors, the session never cuts off its messages when it
    closes itself iff the timer spares the last write. -/
theorem cleanClose_iff (es : List SessionEvent)
    (hok : tcpSession.Meets NoWriteError tcpSession.init es) :
    tcpSession.Meets CleanClose tcpSession.init es ↔
      tcpSession.Meets TimerSparesLast tcpSession.init es := by
  have hinit : OneWrite tcpSession.init ∧ Conserved tcpSession.init :=
    ⟨⟨fun h => absurd rfl h, rfl⟩, List.Perm.nil⟩
  refine Machine.meets_congr (I := fun s => OneWrite s ∧ Conserved s) ?_ ?_ hinit hok
  · exact fun ⟨hw, hs⟩ hok hst =>
      ⟨hw.step (sessionStep_of_step hst), hs.step hok (sessionStep_of_step hst)⟩
  · exact fun ⟨hw, hs⟩ _ => cleanClose_iff_timerSparesLast hw hs

/-- A session that sends its response and is closed when this has been written. -/
theorem cleanClose_iff_response :
    tcpSession.Meets CleanClose tcpSession.init
      [.handleRead false ⟨true, true, "r"⟩, .handleWrite false] :=
  (cleanClose_iff _ (by decide)).2 (by decide)

/-- While the response is being written, a timer that was armed for an earlier
    message finds nothing pending, and the session is closed. -/
theorem cutOff_response :
    ¬ ∀ es, tcpSession.Meets NoWriteError tcpSession.init es →
      tcpSession.Meets CleanClose tcpSession.init es := by
  refine fun h => absurd (h [.broadcastMessage "a", .broadcastMessage "b",
    .handleRead false ⟨true, true, "r"⟩, .timerExpires, .handleWrite false, .handleWrite false,
    .handleTransferTimer false] ?_) ?_
  · decide +kernel
  · decide +kernel

end QustomKeyboard
