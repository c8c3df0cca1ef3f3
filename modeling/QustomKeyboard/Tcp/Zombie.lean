import QustomKeyboard.Tcp.Server

/-!
# Zombie sessions

An open session is only stopped by one of its handlers, and a handler is only
called when an operation of the session completes. The read is started once
(`startAsync`), and not again; a write or a wait for the timer is started when there
is something to be sent. A handler may thus complete the last operation of its
session, start no other one, and leave the session open (`Abandons`): the session
stays registered, and nothing will stop it.

There are such sessions iff a handler abandons its session (`noZombie_iff`).
-/

namespace QustomKeyboard

open Theory

namespace SessionState

variable {s t : SessionState}

/-- How many operations are to complete: the read, the writes, and the waits for the
    timer, except for those that have been cancelled. -/
def outstanding (s : SessionState) : ℕ :=
  (if s.reading then 1 else 0) + s.writing.length + (if s.timerArmed then 1 else 0) +
    s.waitsExpired

/-- The handler that is called neither starts an operation, nor stops the session. -/
def Idles (s : SessionState) : SessionEvent → Prop
  | .handleRead error ret => error = true ∨ ret.response = "" ∧ ret.close = false
  | .handleWrite error => error = true ∨ s.pendingMessages = [] ∧ s.isClosePending = false
  | .handleTransferTimer error =>
    error = false ∧ s.pendingMessages = [] ∧ s.isClosePending = false
  | _ => False

instance (s : SessionState) : ∀ e, Decidable (s.Idles e)
  | .handleRead _ _ | .handleWrite _ => inferInstanceAs (Decidable (_ ∨ _))
  | .handleTransferTimer _ => inferInstanceAs (Decidable (_ ∧ _))
  | .broadcastMessage _ | .timerExpires => inferInstanceAs (Decidable False)

theorem outstanding_pos : 0 < s.outstanding ↔
    s.reading = true ∨ s.writing ≠ [] ∨ s.timerArmed = true ∨ 0 < s.waitsExpired := by
  rw [outstanding, ← List.length_pos_iff]
  cases s.reading <;> cases s.timerArmed <;> grind

/-- Whatever is sent is being written, or waits for the timer. -/
theorem outstanding_send (text : String) : 0 < (s.send text).outstanding := by
  rw [outstanding_pos, send, sendAsync]
  split
  · exact .inr (.inr (.inl rfl))
  · exact .inr (.inl (List.append_ne_nil_of_right_ne_nil _ (List.cons_ne_nil _ _)))

/-- So is the next message, if there is one. -/
theorem outstanding_sendNext {m : Message} {ms : List Message} (h : s.pendingMessages = m :: ms) :
    0 < s.sendNext.outstanding := by
  rw [outstanding_pos]
  cases hbusy : s.writeInProgress with
  | true =>
    rw [sendNext_of_busy h hbusy]
    exact .inr (.inr (.inl rfl))
  | false =>
    rw [sendNext_of_free h hbusy]
    exact .inr (.inl (List.append_ne_nil_of_right_ne_nil _ (List.cons_ne_nil _ _)))

/-- With nothing to be sent, and no close pending, there is nothing to be done. -/
theorem sendNext_of_idle (hpending : s.pendingMessages = []) (hclose : s.isClosePending = false) :
    s.sendNext = s := by
  rw [sendNext_of_nil hpending, hclose]
  rfl

/-- Otherwise something is sent, or the session is stopped. -/
theorem sendNext_of_not_idle (h : ¬(s.pendingMessages = [] ∧ s.isClosePending = false)) :
    s.sendNext.isOpen = false ∨ 0 < s.sendNext.outstanding := by
  cases hpending : s.pendingMessages with
  | nil =>
    have hclose : s.isClosePending = true := by simpa [hpending] using h
    left
    rw [sendNext_of_stopsNext ⟨hpending, hclose⟩, stopAsync_eq]
  | cons m ms => exact .inr (outstanding_sendNext hpending)

/-- A handler that idles only completes an operation. -/
theorem idle_step {e : SessionEvent} (h : SessionStep s e t) (hidle : s.Idles e) :
    t.isOpen = s.isOpen ∧ s.outstanding = t.outstanding + 1 := by
  cases h with
  | broadcast | expired _ => exact hidle.elim
  | @read error ret hreading =>
    have hkept :
        handleRead { s with reading := false } error ret = { s with reading := false } := by
      rcases hidle with rfl | ⟨hresponse, hclose⟩
      · rfl
      · simp [handleRead, hresponse, hclose]
    rw [hkept, outstanding, outstanding, hreading]
    exact ⟨rfl, by simp; omega⟩
  | @written m writing hwriting =>
    obtain ⟨hpending, hclose⟩ := hidle.resolve_left Bool.false_ne_true
    have hkept := sendNext_of_idle (s := { s with
      writing := writing, completed := s.completed ++ [m], writeInProgress := false })
      hpending hclose
    rw [hkept, outstanding, outstanding, hwriting]
    exact ⟨rfl, by simp; omega⟩
  | writeFailed hwriting =>
    rw [outstanding, outstanding, hwriting]
    exact ⟨rfl, by simp; omega⟩
  | timer hwaits =>
    obtain ⟨-, hpending, hclose⟩ := hidle
    have hkept := sendNext_of_idle (s := { s with waitsExpired := s.waitsExpired - 1 })
      hpending hclose
    rw [hkept, outstanding, outstanding]
    exact ⟨rfl, by simp; omega⟩
  | timerAborted _ => exact absurd hidle.1.symm Bool.false_ne_true

/-- Any other one leaves the session with an operation, or stopped. -/
theorem step_of_not_idle {e : SessionEvent} (h : SessionStep s e t) (hidle : ¬s.Idles e)
    (hs : 0 < s.outstanding) : t.isOpen = false ∨ 0 < t.outstanding := by
  cases h with
  | broadcast => exact .inr (outstanding_send _)
  | expired _ =>
    right
    rw [outstanding_pos]
    exact .inr (.inr (.inr (Nat.succ_pos _)))
  | @read error ret hreading =>
    obtain ⟨herror, hret⟩ := not_or.1 hidle
    obtain rfl := Bool.eq_false_of_not_eq_true herror
    by_cases hresponse : ret.response = ""
    -- Without a response, the answer must be to close the session.
    · have hclose : ret.close = true := by simpa [hresponse] using hret
      left
      simp [handleRead, hresponse, hclose, stopAsync_eq]
    · obtain ⟨close, h⟩ := { s with reading := false }.handleRead_of_response hresponse
      rw [h]
      exact .inr (outstanding_send (s := { s with reading := false }) ret.response)
  | written hwriting => exact sendNext_of_not_idle fun hnext => hidle (.inr hnext)
  | writeFailed hwriting => exact absurd (.inl rfl) hidle
  | timer hwaits => exact sendNext_of_not_idle fun hnext => hidle ⟨rfl, hnext⟩
  | timerAborted _ => exact .inr hs

end SessionState

variable {P : Type*} [LinearOrder P] {isEnabled : Bool} {s t : ServerState P}

/-- Every registered session whose socket is open has an operation to complete. -/
def NoZombie (s : ServerState P) : Prop :=
  ∀ p ∈ s.sessions, ∀ c, s.session p = some c → c.state.isOpen = true → 0 < c.state.outstanding

instance : DecidablePred (NoZombie (P := P)) := fun s =>
  decidable_of_iff (∀ p ∈ s.sessions, ∀ c ∈ s.session p, c.state.isOpen = true →
    0 < c.state.outstanding) Iff.rfl

/-- The last operation of a registered and open session completes, and the handler
    that is called neither starts another one nor stops the session. -/
def Abandons (s : ServerState P) : ServerEvent P → Prop
  | .session p e => p ∈ s.sessions ∧ ∃ c, s.session p = some c ∧ c.state.isOpen = true ∧
    c.state.outstanding = 1 ∧ c.state.Idles e
  | _ => False

instance (s : ServerState P) : ∀ e, Decidable (Abandons s e)
  | .session p e => decidable_of_iff (p ∈ s.sessions ∧ ∃ c ∈ s.session p,
      c.state.isOpen = true ∧ c.state.outstanding = 1 ∧ c.state.Idles e) Iff.rfl
  | .handleAccept _ _ _ | .broadcastMessage _ | .stopAsync => .isFalse id

namespace NoZombie

/-- Only the session that changes needs to be looked at. -/
theorem of_update (hs : NoZombie s) {p : P} {c : Session}
    (hsessions : t.sessions ⊆ insert p s.sessions)
    (hsession : t.session = Function.update s.session p (some c))
    (hc : p ∈ t.sessions → c.state.isOpen = true → 0 < c.state.outstanding) : NoZombie t := by
  intro q hq d hd hopen
  rw [hsession] at hd
  by_cases hqp : q = p
  · subst hqp
    rw [Function.update_self] at hd
    obtain rfl := Option.some.inj hd
    exact hc hq hopen
  · rw [Function.update_of_ne hqp] at hd
    exact hs q (Finset.mem_of_mem_insert_of_ne (hsessions hq) hqp) d hd hopen

theorem startAsync (hs : NoZombie s) (p : P) (remoteEndpoint : Option Endpoint) :
    NoZombie (s.startAsync p remoteEndpoint) := by
  cases remoteEndpoint with
  | none =>
    show NoZombie (s.setState p .accepted Session.accepted.state.stopAsync)
    rw [ServerState.setState_of_closed rfl rfl]
    refine hs.of_update (eraseFirst_subset.trans (Finset.subset_insert p _)) rfl fun _ hopen => ?_
    exact absurd hopen Bool.false_ne_true
  | some remoteEndpoint => exact hs.of_update subset_rfl rfl fun _ _ => Nat.one_pos

theorem setState (hs : NoZombie s) {p : P} {c : Session} {state : SessionState}
    (h : p ∈ s.sessions → state.isOpen = true → 0 < state.outstanding) :
    NoZombie (s.setState p c state) := by
  rw [ServerState.setState]
  split
  · exact hs.of_update (fun q hq => Finset.mem_insert_of_mem (eraseFirst_subset hq)) rfl
      fun hp => h (eraseFirst_subset hp)
  · exact hs.of_update (Finset.subset_insert p _) rfl h

/-- A handler leaves a zombie iff it abandons its session. -/
theorem setState_iff (hs : NoZombie s) {p : P} {c : Session} {e : SessionEvent}
    {state : SessionState} (hc : s.session p = some c) (hst : SessionStep c.state e state) :
    NoZombie (s.setState p c state) ↔ ¬Abandons s (.session p e) := by
  by_cases habandons : Abandons s (.session p e)
  · refine iff_of_false (fun ht => ?_) (not_not_intro habandons)
    obtain ⟨hp, d, hd, hopen, hlast, hidle⟩ := habandons
    obtain rfl := Option.some.inj (hc.symm.trans hd)
    -- The last operation is gone, and the session is still open and registered.
    obtain ⟨hkept, hcount⟩ := SessionState.idle_step hst hidle
    rw [ServerState.setState_of_open fun _ => hkept.trans hopen] at ht
    have hpos := ht p hp _ (Function.update_self ..) (hkept.trans hopen)
    replace hpos : 0 < state.outstanding := hpos
    omega
  · refine iff_of_true (hs.setState fun hp hopen => ?_) habandons
    have hcopen := ((SessionState.isOpen_step hst).1 hopen).1
    have hpos := hs p hp c hc hcopen
    by_cases hidle : c.state.Idles e
    -- Another operation is left, since the session is not abandoned.
    · obtain ⟨-, hcount⟩ := SessionState.idle_step hst hidle
      have hnot : c.state.outstanding ≠ 1 := fun hlast =>
        habandons ⟨hp, c, hc, hcopen, hlast, hidle⟩
      omega
    · rcases SessionState.step_of_not_idle hst hidle hpos with hclosed | hpos
      · rw [hclosed] at hopen
        cases hopen
      · exact hpos

/-- Nobody else leaves a zombie. -/
theorem step_iff {e : ServerEvent P} (hs : NoZombie s) (h : ServerStep s e t) :
    NoZombie t ↔ ¬Abandons s e := by
  cases h with
  | @accepted p remoteEndpoint _ => exact iff_of_true (hs.startAsync p remoteEndpoint) id
  | notAccepted => exact iff_of_true hs id
  | handler hc hst => exact hs.setState_iff hc hst
  | @broadcast msg =>
    refine iff_of_true ?_ id
    rw [ServerState.broadcastMessage]
    split
    · intro q hq d hd _
      replace hd :
        (if q ∈ s.sessions then (s.session q).map (Session.send msg) else _) = some d := hd
      rw [if_pos hq] at hd
      obtain ⟨c, -, rfl⟩ := Option.map_eq_some_iff.1 hd
      exact SessionState.outstanding_send msg
    · exact hs
  | stop =>
    refine iff_of_true ?_ id
    rw [ServerState.stopAsync]
    split
    · split
      · exact fun q hq => absurd hq (Finset.notMem_empty q)
      · exact hs
    · exact hs

end NoZombie

/-- There is no zombie all along a run iff no session is abandoned in it. -/
theorem noZombie_iff {es : List (ServerEvent P)}
    (hrun : (tcpServer P isEnabled).run (tcpServer P isEnabled).init es = some t) :
    (tcpServer P isEnabled).Always NoZombie (tcpServer P isEnabled).init es ↔
      (tcpServer P isEnabled).Meets (fun s e => ¬Abandons s e) (tcpServer P isEnabled).init es :=
  Machine.always_iff_meets (I := fun _ => True) (fun _ _ => trivial)
    (fun _ hs hst => hs.step_iff (serverStep_of_step hst)) trivial
    (fun q hq => absurd hq (Finset.notMem_empty q)) hrun

/-- A client that is answered, and whose session is then closed. -/
theorem noZombie_iff_answered :
    (tcpServer ℕ true).Always NoZombie (tcpServer ℕ true).init
      [.handleAccept false 1 (some ⟨"127.0.0.1", 50001, by decide⟩),
        .session 1 (.handleRead false ⟨true, true, "r"⟩), .session 1 (.handleWrite false)] := by
  have hrun : ((tcpServer ℕ true).run (tcpServer ℕ true).init
      [.handleAccept false 1 (some ⟨"127.0.0.1", 50001, by decide⟩),
        .session 1 (.handleRead false ⟨true, true, "r"⟩),
        .session 1 (.handleWrite false)]).isSome = true := by
    decide +kernel
  obtain ⟨t, ht⟩ := Option.isSome_iff_exists.1 hrun
  exact (noZombie_iff ht).2 (by decide +kernel)

/-- A client that disconnects before it has sent anything. -/
theorem disconnected_zombie :
    ¬∀ es t, (tcpServer ℕ true).run (tcpServer ℕ true).init es = some t →
      (tcpServer ℕ true).Always NoZombie (tcpServer ℕ true).init es := by
  intro h
  have hrun : ((tcpServer ℕ true).run (tcpServer ℕ true).init
      [.handleAccept false 1 (some ⟨"127.0.0.1", 50001, by decide⟩),
        .session 1 (.handleRead true ⟨false, false, ""⟩)]).isSome = true := by
    decide +kernel
  obtain ⟨t, ht⟩ := Option.isSome_iff_exists.1 hrun
  exact absurd (h _ t ht) (by decide +kernel)

end QustomKeyboard
