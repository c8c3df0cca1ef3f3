import Mathlib.Data.List.Perm.Basic
import QustomKeyboard.Tcp.Ordering

/-!
# No message of a session is lost

The messages given to a session are completed, being written, or pending
(`SessionState.held`), whatever is moved between these by the handlers. The
timer puts a message back behind the others, and the same message is popped
from the front: nothing is lost, and nothing is doubled (`conservation`).

While a write is in progress, its buffer belongs to it (`OwnBuffer`).
-/

namespace QustomKeyboard

open Theory

variable {s t : SessionState}

namespace SessionState

/-- The messages the session knows of: completed, being written, and pending. -/
def held (s : SessionState) : List Message := s.completed ++ s.writing ++ s.pendingMessages

/-- A message that is sent is written or pending. -/
theorem held_sendAsync (s : SessionState) (m : Message) :
    (s.sendAsync m).held.Perm (s.held ++ [m]) := by
  cases hbusy : s.writeInProgress with
  | true =>
    rw [sendAsync_of_busy hbusy]
    exact List.Perm.of_eq (List.append_assoc _ _ _).symm
  | false =>
    rw [sendAsync_of_free hbusy]
    have hperm : ([m] ++ s.pendingMessages).Perm (s.pendingMessages ++ [m]) := List.perm_append_comm
    have := hperm.append_left (s.completed ++ s.writing)
    show (s.completed ++ (s.writing ++ [m]) ++ s.pendingMessages).Perm _
    simpa [held] using this

@[simp] theorem held_stopAsync (s : SessionState) : s.stopAsync.held = s.held := by
  rw [stopAsync_eq]
  rfl

/-- The handlers move the messages around, and keep them. -/
theorem held_sendNext (s : SessionState) : s.sendNext.held.Perm s.held := by
  rcases s.sendNext_cases with ⟨-, h | h⟩ | ⟨m, ms, hpending, ⟨-, h⟩ | ⟨-, h⟩⟩
  all_goals rw [h]
  · rw [held_stopAsync]
  · -- The front of the queue goes to its end.
    have hperm : (ms ++ [m]).Perm s.pendingMessages := hpending ▸ List.perm_append_singleton m ms
    exact hperm.append_left (s.completed ++ s.writing)
  · show (s.completed ++ (s.writing ++ [m]) ++ ms).Perm s.held
    exact List.Perm.of_eq (by simp [held, hpending])

end SessionState

/-! ## The messages -/

/-- The invariant of the messages: what has been given to the session is known to it. -/
def Conserved (s : SessionState) : Prop := s.accepted.Perm s.held

namespace Conserved

theorem send (hs : Conserved s) (text : String) : Conserved (s.send text) := by
  rw [SessionState.send]
  generalize (⟨s.accepted.length, text⟩ : Message) = m
  rw [Conserved, SessionState.accepted_sendAsync]
  exact (hs.append_right [m]).trans ((s.accept m).held_sendAsync m).symm

theorem handleRead (hs : Conserved s) (error : Bool) (ret : TcpMessageReturn) :
    Conserved (s.handleRead error ret) := by
  obtain h | h | ⟨close, h⟩ := s.handleRead_cases error ret
  all_goals rw [h]
  · exact hs
  · rw [Conserved, SessionState.accepted_stopAsync, SessionState.held_stopAsync]
    exact hs
  · exact hs.send ret.response

theorem sendNext (hs : Conserved s) : Conserved s.sendNext := by
  rw [Conserved, SessionState.accepted_sendNext]
  exact hs.trans s.held_sendNext.symm

/-- A message whose write is done is completed. -/
theorem complete (hs : Conserved s) {m : Message} {writing : List Message}
    (hwriting : s.writing = m :: writing) :
    Conserved { s with
      writing := writing, completed := s.completed ++ [m], writeInProgress := false } := by
  have hheld : s.held = s.completed ++ [m] ++ writing ++ s.pendingMessages := by
    simp [SessionState.held, hwriting]
  rw [Conserved, hheld] at hs
  exact hs

theorem step {e : SessionEvent} (hs : Conserved s) (hok : NoWriteError s e)
    (h : SessionStep s e t) : Conserved t := by
  cases h with
  | broadcast => exact hs.send _
  | expired _ | timerAborted _ => exact hs
  | read _ => exact handleRead (s := { s with reading := false }) hs _ _
  | written hwriting => exact (hs.complete hwriting).sendNext
  | writeFailed _ => exact absurd rfl hok
  | timer _ => exact sendNext (s := { s with waitsExpired := _ }) hs

end Conserved

/-! ## The buffer of the writes -/

/-- The buffer holds the message that is being written. -/
def OwnBuffer (s : SessionState) : Prop := ∀ m ∈ s.writing, s.sentData = some m

namespace OwnBuffer

theorem sendAsync (hs : OwnBuffer s) (hw : OneWrite s) (m : Message) :
    OwnBuffer (s.sendAsync m) := by
  cases hbusy : s.writeInProgress with
  | true =>
    rw [SessionState.sendAsync_of_busy hbusy]
    exact hs
  | false =>
    -- The buffer is free to be overwritten.
    have hnil := hw.writing_eq_nil_of_free hbusy
    rw [SessionState.sendAsync_of_free hbusy]
    intro m' hm'
    replace hm' : m' ∈ s.writing ++ [m] := hm'
    rw [hnil, List.nil_append, List.mem_singleton] at hm'
    rw [hm']
    rfl

theorem send (hs : OwnBuffer s) (hw : OneWrite s) (text : String) : OwnBuffer (s.send text) :=
  sendAsync (s := s.accept _) hs (hw.accept _) _

theorem stopAsync (hs : OwnBuffer s) : OwnBuffer s.stopAsync := by
  rw [SessionState.stopAsync_eq]
  exact hs

theorem handleRead (hs : OwnBuffer s) (hw : OneWrite s) (error : Bool) (ret : TcpMessageReturn) :
    OwnBuffer (s.handleRead error ret) := by
  obtain h | h | ⟨close, h⟩ := s.handleRead_cases error ret
  all_goals rw [h]
  · exact hs
  · exact hs.stopAsync
  · exact hs.send hw ret.response

theorem sendNext (hs : OwnBuffer s) (hfree : s.writeInProgress = false → s.writing = []) :
    OwnBuffer s.sendNext := by
  rcases s.sendNext_cases with ⟨-, h | h⟩ | ⟨m, ms, -, ⟨-, h⟩ | ⟨hbusy, h⟩⟩
  all_goals rw [h]
  · exact hs
  · exact hs.stopAsync
  · exact hs
  · intro m' hm'
    replace hm' : m' ∈ s.writing ++ [m] := hm'
    rw [hfree hbusy, List.nil_append, List.mem_singleton] at hm'
    rw [hm']
    rfl

theorem step {e : SessionEvent} (hs : OwnBuffer s) (hw : OneWrite s) (h : SessionStep s e t) :
    OwnBuffer t := by
  cases h with
  | broadcast => exact hs.send hw _
  | expired _ | timerAborted _ => exact hs
  | @read error ret _ =>
    exact handleRead (s := { s with reading := false }) hs ⟨hw.busy, hw.writing⟩ error ret
  | @written m writing hwriting =>
    have hnil := hw.writing_eq_nil hwriting
    refine sendNext (fun m' hm' => ?_) fun _ => hnil
    exact hs m' (hwriting ▸ List.mem_cons_of_mem m hm')
  | @writeFailed m writing hwriting =>
    exact fun m' hm' => hs m' (hwriting ▸ List.mem_cons_of_mem m hm')
  | timer _ => exact sendNext hs hw.writing_eq_nil_of_free

end OwnBuffer

/-- Sending a message leaves a write in progress, and its buffer, alone. -/
theorem send_of_busy (hbusy : s.writeInProgress = true) (text : String) :
    (s.send text).writing = s.writing ∧ (s.send text).sentData = s.sentData := by
  rw [SessionState.send, SessionState.sendAsync_of_busy (s := s.accept _) hbusy]
  exact ⟨rfl, rfl⟩

/-- So does what a handler does next. -/
theorem sendNext_kept (hbusy : s.writeInProgress = true) :
    s.sendNext.writing = s.writing ∧ s.sendNext.sentData = s.sentData := by
  rcases s.sendNext_cases with ⟨-, h | h⟩ | ⟨m, ms, -, ⟨-, h⟩ | ⟨hfree, -⟩⟩
  · rw [h]
    exact ⟨rfl, rfl⟩
  · rw [h, SessionState.stopAsync_eq]
    exact ⟨rfl, rfl⟩
  · rw [h]
    exact ⟨rfl, rfl⟩
  · rw [hbusy] at hfree
    cases hfree

/-- As long as it has not completed, a write keeps its buffer. -/
theorem sentData_kept {e : SessionEvent} (hw : OneWrite s) (hwriting : s.writing ≠ [])
    (hpending : ∀ error, e ≠ .handleWrite error) (h : SessionStep s e t) :
    t.writing = s.writing ∧ t.sentData = s.sentData := by
  have hbusy : s.writeInProgress = true := hw.writeInProgress_iff.2 hwriting
  cases h with
  | broadcast => exact send_of_busy hbusy _
  | expired _ | timerAborted _ => exact ⟨rfl, rfl⟩
  | @read error ret _ =>
    obtain h | h | ⟨close, h⟩ := { s with reading := false }.handleRead_cases error ret
    all_goals rw [h]
    · exact ⟨rfl, rfl⟩
    · rw [SessionState.stopAsync_eq]
      exact ⟨rfl, rfl⟩
    · exact send_of_busy (s := { s with reading := false }) hbusy ret.response
  | written _ => exact absurd rfl (hpending false)
  | writeFailed _ => exact absurd rfl (hpending true)
  | timer _ => exact sendNext_kept hbusy

/-! ## Conservation -/

/-- In every run without write errors: there is at most one write, and
    `writeInProgress` tells whether there is one; the buffer holds its message,
    and is left alone until it has completed; and the messages given to the
    session are those completed, that being written, and those pending. -/
theorem conservation {s : SessionState} (h : tcpSession.Reachable NoWriteError s) :
    s.writing.length ≤ 1 ∧ (s.writeInProgress = true ↔ s.writing ≠ []) ∧
      (∀ m ∈ s.writing, s.sentData = some m) ∧
      (∀ e t, tcpSession.step s e = some t → (∀ error, e ≠ .handleWrite error) →
        s.writing ≠ [] → t.writing = s.writing ∧ t.sentData = s.sentData) ∧
      s.accepted.Perm (s.completed ++ s.writing ++ s.pendingMessages) := by
  have hinit : OneWrite tcpSession.init ∧ OwnBuffer tcpSession.init ∧ Conserved tcpSession.init :=
    ⟨⟨fun h => absurd rfl h, rfl⟩, fun _ hm => absurd hm List.not_mem_nil, List.Perm.nil⟩
  have hs := h.invariant (I := fun s => OneWrite s ∧ OwnBuffer s ∧ Conserved s) hinit
    fun ⟨hw, hown, hs⟩ hok hst =>
      have hst := sessionStep_of_step hst
      ⟨hw.step hst, hown.step hw hst, hs.step hok hst⟩
  obtain ⟨hw, hown, hcons⟩ := hs
  refine ⟨?_, hw.writeInProgress_iff, hown, fun e t hst hpending hwriting => ?_, hcons⟩
  · rw [hw.writing]
    split <;> decide
  · exact sentData_kept hw hwriting hpending (sessionStep_of_step hst)

/-- Three messages are sent, the second is put back behind the third, and one of
    them is completed. -/
theorem conservation_sample : ∃ s, tcpSession.run tcpSession.init overtakingRun = some s ∧
    s.completed = [⟨0, "a"⟩] ∧ s.writing = [⟨2, "c"⟩] ∧ s.pendingMessages = [⟨1, "b"⟩] ∧
    s.accepted.Perm (s.completed ++ s.writing ++ s.pendingMessages) := by
  have hrun : ∃ s, tcpSession.run tcpSession.init overtakingRun = some s ∧
      s.completed = [⟨0, "a"⟩] ∧ s.writing = [⟨2, "c"⟩] ∧ s.pendingMessages = [⟨1, "b"⟩] := by
    decide +kernel
  obtain ⟨s, hs, hcompleted, hwriting, hpending⟩ := hrun
  have hcons := conservation ⟨overtakingRun, .of_meets (by decide +kernel) hs⟩
  exact ⟨s, hs, hcompleted, hwriting, hpending, hcons.2.2.2.2⟩

end QustomKeyboard
