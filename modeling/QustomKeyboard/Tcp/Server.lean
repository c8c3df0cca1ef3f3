import QustomKeyboard.Tcp.Closing
import QustomKeyboard.Theory.OrderedSet

/-!
# The TCP server

The server keeps the set of its sessions, which are registered when they are
started (`startAsync`), and unregistered when they are stopped. The sessions
are told apart by their pointers, which are ordered in some way, and this is the
order of the set.

To unregister itself, a session searches the set for its own IP address, and
not for itself (`removeFromSessions`): if several clients have the same address,
it unregisters the first of their sessions. So the set is exact as long as every
session that is stopped is the first one of its address (`sessions_exact_iff`).
-/

namespace QustomKeyboard

open Theory

/-- What `remote_endpoint` finds out. The textual form of an address is not empty. -/
structure Endpoint where
  address : String
  port : UInt16
  address_ne : address ≠ ""

/-- A session object. -/
structure Session where
  sessionAddress : String
  sessionPort : UInt16
  state : SessionState

/-- A session whose socket has been accepted. -/
def Session.accepted : Session where
  sessionAddress := ""
  sessionPort := 0
  state := { SessionState.empty with reading := false }

/-- `SendAsync` of the session. -/
def Session.send (msg : String) (c : Session) : Session := { c with state := c.state.send msg }

/-- `StopAsync(false)` of the session. -/
def Session.stop (c : Session) : Session := { c with state := c.state.stopAsync }

/-- The server, and what has become of its sessions. -/
structure ServerState (P : Type*) where
  isEnabled : Bool
  /-- There is an acceptor. -/
  acceptor : Bool
  /-- The accept has not completed yet. -/
  accepting : Bool
  sessions : Finset P
  /-- The session objects. -/
  session : P → Option Session
  /-- The sessions that have been started successfully. -/
  started : Finset P
  /-- The sessions that have been stopped. -/
  stopped : Finset P

variable {P : Type*} [LinearOrder P]

namespace ServerState

/-- A server whose acceptor has just been created, if it is enabled. -/
def empty (isEnabled : Bool) : ServerState P where
  isEnabled := isEnabled
  acceptor := isEnabled
  accepting := isEnabled
  sessions := ∅
  session _ := none
  started := ∅
  stopped := ∅

/-- Whether the session `q` has the given address. -/
def hasAddress (s : ServerState P) (sessionAddress : String) (q : P) : Bool :=
  (s.session q).any fun c => c.sessionAddress = sessionAddress

/-- The loop of `Session::StopAsync`: the first session with the given address
    is erased. -/
def removeFromSessions (s : ServerState P) (sessionAddress : String) : Finset P :=
  eraseFirst s.sessions (s.hasAddress sessionAddress)

/-- The session `p`, so far `c`, is now in the state `state`. If this has closed its
    socket, `StopAsync` has been called, which unregisters the session. -/
def setState (s : ServerState P) (p : P) (c : Session) (state : SessionState) : ServerState P :=
  let s := { s with session := Function.update s.session p (some { c with state := state }) }
  if c.state.isOpen && !state.isOpen then
    { s with
      sessions := s.removeFromSessions c.sessionAddress
      stopped := insert p s.stopped }
  else s

/-- `Session::StartAsync` of a new session `p`. -/
def startAsync (s : ServerState P) (p : P) : Option Endpoint → ServerState P
  | none => s.setState p .accepted Session.accepted.state.stopAsync
  | some remoteEndpoint =>
    let c : Session :=
      { Session.accepted with
        sessionAddress := remoteEndpoint.address
        sessionPort := remoteEndpoint.port
        state := { Session.accepted.state with reading := true } }
    { s with
      session := Function.update s.session p (some c)
      sessions := insert p s.sessions
      started := insert p s.started }

/-- `Server::HandleAccept`, followed by `Server::StartAccept`. -/
def handleAccept (s : ServerState P) (error : Bool) (p : P) (remoteEndpoint : Option Endpoint) :
    ServerState P :=
  if s.acceptor then
    if !error then { s.startAsync p remoteEndpoint with accepting := true } else s
  else s

/-- `Server::BroadcastMessage`. -/
def broadcastMessage (s : ServerState P) (msg : String) : ServerState P :=
  if s.isEnabled then
    { s with
      session := fun q =>
        if q ∈ s.sessions then (s.session q).map (Session.send msg) else s.session q }
  else s

/-- `Server::StopAsync`. -/
def stopAsync (s : ServerState P) : ServerState P :=
  if s.isEnabled then
    if s.acceptor then
      { s with
        acceptor := false
        session := fun q => if q ∈ s.sessions then (s.session q).map Session.stop else s.session q
        stopped := s.stopped ∪ s.sessions
        sessions := ∅ }
    else s
  else s

end ServerState

/-- What may happen to the server and its sessions. -/
inductive ServerEvent (P : Type*)
  | handleAccept (error : Bool) (session : P) (remoteEndpoint : Option Endpoint)
  | session (p : P) (e : SessionEvent)
  | broadcastMessage (msg : String)
  | stopAsync

/-- The next step of the server. Accepting takes a new session object. -/
def ServerState.step (s : ServerState P) : ServerEvent P → Option (ServerState P)
  | .handleAccept error p remoteEndpoint =>
    if s.accepting ∧ s.session p = none then
      some (handleAccept { s with accepting := false } error p remoteEndpoint)
    else none
  | .session p e => (s.session p).bind fun c => (c.state.step e).map (s.setState p c)
  | .broadcastMessage msg => some (s.broadcastMessage msg)
  | .stopAsync => some s.stopAsync

/-- The runs of the server. -/
def tcpServer (P : Type*) [LinearOrder P] (isEnabled : Bool) :
    Machine (ServerState P) (ServerEvent P) where
  init := .empty isEnabled
  step := ServerState.step

/-! ## The steps -/

/-- The steps, spelled out. -/
inductive ServerStep (s : ServerState P) : ServerEvent P → ServerState P → Prop
  | accepted {p : P} {remoteEndpoint : Option Endpoint} : s.session p = none →
      ServerStep s (.handleAccept false p remoteEndpoint)
        { s.startAsync p remoteEndpoint with accepting := true }
  | notAccepted {error : Bool} {p : P} {remoteEndpoint : Option Endpoint} :
      ServerStep s (.handleAccept error p remoteEndpoint) { s with accepting := false }
  | handler {p : P} {c : Session} {e : SessionEvent} {state : SessionState} :
      s.session p = some c → SessionStep c.state e state →
      ServerStep s (.session p e) (s.setState p c state)
  | broadcast {msg : String} : ServerStep s (.broadcastMessage msg) (s.broadcastMessage msg)
  | stop : ServerStep s .stopAsync s.stopAsync

variable {isEnabled : Bool} {s t : ServerState P}

/-- Every step of the machine is one of these. -/
theorem serverStep_of_step {e : ServerEvent P} (h : (tcpServer P isEnabled).step s e = some t) :
    ServerStep s e t := by
  replace h : s.step e = some t := h
  cases e with
  | handleAccept error p remoteEndpoint =>
    obtain ⟨⟨-, hp⟩, h⟩ := Option.ite_none_right_eq_some.1 h
    obtain rfl := Option.some.inj h
    rw [ServerState.handleAccept]
    split
    · cases error with
      | true => exact .notAccepted
      | false => cases remoteEndpoint <;> exact .accepted hp
    · exact .notAccepted
  | session p e =>
    obtain ⟨c, hc, h⟩ := Option.bind_eq_some_iff.1 h
    obtain ⟨state, hst, rfl⟩ := Option.map_eq_some_iff.1 h
    exact .handler hc (sessionStep_of_step hst)
  | broadcastMessage msg => exact Option.some.inj h ▸ .broadcast
  | stopAsync => exact Option.some.inj h ▸ .stop

namespace ServerState

/-- The session is searched for iff it has closed its socket. -/
theorem setState_of_closed {p : P} {c : Session} {state : SessionState}
    (hopen : c.state.isOpen = true) (hclosed : state.isOpen = false) :
    s.setState p c state =
      { s with
        session := Function.update s.session p (some { c with state := state })
        sessions := removeFromSessions
          { s with session := Function.update s.session p (some { c with state := state }) }
          c.sessionAddress
        stopped := insert p s.stopped } := by
  rw [setState, hopen, hclosed]
  rfl

/-- Otherwise only its state changes. -/
theorem setState_of_open {p : P} {c : Session} {state : SessionState}
    (h : c.state.isOpen = true → state.isOpen = true) :
    s.setState p c state =
      { s with session := Function.update s.session p (some { c with state := state }) } := by
  rw [setState]
  refine if_neg fun hclosed => ?_
  obtain ⟨hopen, hclosed⟩ := Bool.and_eq_true_iff.1 hclosed
  rw [h hopen] at hclosed
  cases hclosed

end ServerState

/-! ## The session objects -/

/-- The invariant of the session objects: those of started sessions have an address,
    and the open ones are those that have been started and not been stopped. -/
structure Tracked (s : ServerState P) : Prop where
  sessions : s.sessions ⊆ s.started
  stopped : ∀ p ∈ s.stopped, s.session p ≠ none
  address : ∀ p ∈ s.started, ∃ c, s.session p = some c ∧ c.sessionAddress ≠ ""
  isOpen : ∀ p c, s.session p = some c → (c.state.isOpen = true ↔ p ∈ s.started \ s.stopped)

namespace Tracked

theorem started_of_session (hs : Tracked s) {p : P} (hp : s.session p = none) :
    p ∉ s.started ∧ p ∉ s.stopped := by
  refine ⟨fun hstarted => ?_, fun hstopped => hs.stopped p hstopped hp⟩
  obtain ⟨c, hc, -⟩ := hs.address p hstarted
  rw [hp] at hc
  cases hc

/-- A session object that is put in the place of another one, or is new. -/
theorem update (hs : Tracked s) {p : P} {c : Session} {sessions stopped : Finset P}
    (hsessions : sessions ⊆ s.sessions) (hstopped : ∀ q, q ≠ p → (q ∈ stopped ↔ q ∈ s.stopped))
    (haddress : p ∈ s.started → c.sessionAddress ≠ "")
    (hopen : c.state.isOpen = true ↔ p ∈ s.started \ stopped) :
    Tracked { s with
      session := Function.update s.session p (some c)
      sessions := sessions
      stopped := stopped } := by
  refine ⟨hsessions.trans hs.sessions, fun q hq => ?_, fun q hq => ?_, fun q d hd => ?_⟩
  -- Each part is about `p` itself, or about another session, which is as before.
  all_goals by_cases hqp : q = p
  · subst hqp
    simp
  · simpa [hqp] using hs.stopped q ((hstopped q hqp).1 hq)
  · subst hqp
    exact ⟨c, by simp, haddress hq⟩
  · simpa [hqp] using hs.address q hq
  · subst hqp
    obtain rfl : c = d := by simpa using hd
    exact hopen
  · have hd' : s.session q = some d := by simpa [hqp] using hd
    rw [hs.isOpen q d hd', Finset.mem_sdiff, Finset.mem_sdiff, hstopped q hqp]

/-- A session that has closed its socket is stopped. -/
theorem close (hs : Tracked s) {p : P} {c : Session} {state : SessionState}
    (haddress : p ∈ s.started → c.sessionAddress ≠ "") (hopen : c.state.isOpen = true)
    (hclosed : state.isOpen = false) : Tracked (s.setState p c state) := by
  rw [ServerState.setState_of_closed hopen hclosed]
  refine hs.update eraseFirst_subset (fun q hq => by simp [hq]) haddress ?_
  simp [hclosed]

theorem setState (hs : Tracked s) {p : P} {c : Session} {state : SessionState}
    (hc : s.session p = some c) (hst : state.isOpen = true → c.state.isOpen = true) :
    Tracked (s.setState p c state) := by
  have haddress : p ∈ s.started → c.sessionAddress ≠ "" := fun hp => by
    obtain ⟨d, hd, hne⟩ := hs.address p hp
    rwa [Option.some.inj (hc.symm.trans hd)]
  by_cases h : c.state.isOpen = true → state.isOpen = true
  · rw [ServerState.setState_of_open h]
    exact hs.update subset_rfl (fun _ _ => Iff.rfl) haddress
      (Iff.trans ⟨hst, h⟩ (hs.isOpen p c hc))
  · obtain ⟨hopen, hclosed⟩ := Classical.not_imp.1 h
    exact hs.close haddress hopen (Bool.eq_false_of_not_eq_true hclosed)

/-- A new session is registered, or stopped at once. -/
theorem startAsync (hs : Tracked s) {p : P} (hp : s.session p = none)
    (remoteEndpoint : Option Endpoint) : Tracked (s.startAsync p remoteEndpoint) := by
  obtain ⟨hstarted, hstopped⟩ := hs.started_of_session hp
  cases remoteEndpoint with
  | none =>
    show Tracked (s.setState p .accepted Session.accepted.state.stopAsync)
    exact hs.close (fun h => absurd h hstarted) rfl rfl
  | some remoteEndpoint =>
    refine ⟨Finset.insert_subset_insert p hs.sessions, fun q hq => ?_, fun q hq => ?_,
      fun q c hc => ?_⟩
    all_goals simp only [ServerState.startAsync] at *
    -- The new session is the only one that is not as before.
    all_goals by_cases hqp : q = p
    · exact absurd hq (hqp ▸ hstopped)
    · simpa [hqp] using hs.stopped q hq
    · subst hqp
      exact ⟨_, Function.update_self .., remoteEndpoint.address_ne⟩
    · have hq' : q ∈ s.started := by simpa [hqp] using hq
      simpa [hqp] using hs.address q hq'
    · subst hqp
      rw [Function.update_self] at hc
      obtain rfl := Option.some.inj hc
      simp [Session.accepted, SessionState.empty, hstopped]
    · have hc' : s.session q = some c := by simpa [hqp] using hc
      simp [hs.isOpen q c hc', hqp]

/-- The objects of the registered sessions change, and stay the same sessions. -/
theorem map (hs : Tracked s) {f : Session → Session} {sessions stopped : Finset P}
    (hsessions : sessions ⊆ s.sessions) (haddress : ∀ c, (f c).sessionAddress = c.sessionAddress)
    (hstopped : ∀ q ∈ stopped, s.session q ≠ none)
    (hopen : ∀ q c, s.session q = some c → q ∈ s.sessions →
      ((f c).state.isOpen = true ↔ q ∈ s.started \ stopped))
    (hkept : ∀ q, q ∉ s.sessions → (q ∈ stopped ↔ q ∈ s.stopped)) (acceptor : Bool) :
    Tracked { s with
      acceptor := acceptor
      session := fun q => if q ∈ s.sessions then (s.session q).map f else s.session q
      sessions := sessions
      stopped := stopped } := by
  refine ⟨hsessions.trans hs.sessions, fun q hq => ?_, fun q hq => ?_, fun q d hd => ?_⟩
  · show (if q ∈ s.sessions then (s.session q).map f else s.session q) ≠ none
    split
    · simpa using hstopped q hq
    · exact hstopped q hq
  · obtain ⟨c, hc, hne⟩ := hs.address q hq
    show ∃ d, (if q ∈ s.sessions then (s.session q).map f else s.session q) = some d ∧ _
    rw [hc]
    split
    · exact ⟨f c, rfl, by rwa [haddress]⟩
    · exact ⟨c, rfl, hne⟩
  · replace hd : (if q ∈ s.sessions then (s.session q).map f else s.session q) = some d := hd
    split at hd
    · rename_i hq
      obtain ⟨c, hc, rfl⟩ := Option.map_eq_some_iff.1 hd
      exact hopen q c hc hq
    · rename_i hq
      rw [hs.isOpen q d hd, Finset.mem_sdiff, Finset.mem_sdiff, hkept q hq]

theorem step {e : ServerEvent P} (hs : Tracked s) (h : ServerStep s e t) : Tracked t := by
  cases h with
  | @accepted p remoteEndpoint hp =>
    have hstart := hs.startAsync hp remoteEndpoint
    exact ⟨hstart.sessions, hstart.stopped, hstart.address, hstart.isOpen⟩
  | notAccepted => exact ⟨hs.sessions, hs.stopped, hs.address, hs.isOpen⟩
  | handler hc hst => exact hs.setState hc fun hopen => ((SessionState.isOpen_step hst).1 hopen).1
  | @broadcast msg =>
    rw [ServerState.broadcastMessage]
    split
    · refine hs.map (f := .send msg) subset_rfl (fun _ => rfl) hs.stopped (fun q c hc _ => ?_)
        (fun _ _ => Iff.rfl) _
      rw [← hs.isOpen q c hc]
      exact Bool.eq_iff_iff.1 (SessionState.isOpen_send msg)
    · exact hs
  | stop =>
    rw [ServerState.stopAsync]
    split
    · split
      · refine hs.map (f := .stop) (Finset.empty_subset _) (fun _ => rfl) (fun q hq => ?_)
          (fun q c _ hq => ?_) (fun q hq => ?_) _
        · rcases Finset.mem_union.1 hq with hq | hq
          · exact hs.stopped q hq
          · obtain ⟨c, hc, -⟩ := hs.address q (hs.sessions hq)
            exact hc ▸ Option.some_ne_none c
        · simp [Session.stop, SessionState.stopAsync_eq, hq]
        · simp [hq]
      · exact hs
    · exact hs

end Tracked

/-! ## The set of sessions -/

/-- The set of sessions is exact: it holds the sessions that have been started
    successfully and have not been stopped. -/
def Exact (s : ServerState P) : Prop := s.sessions = s.started \ s.stopped

instance : DecidablePred (Exact (P := P)) := fun s =>
  inferInstanceAs (Decidable (s.sessions = s.started \ s.stopped))

/-- A session that is stopped by one of its handlers is the first one in the set
    that has its address. -/
def StopsFirst (s : ServerState P) : ServerEvent P → Prop
  | .session p e => ∀ c, s.session p = some c → c.state.isOpen = true → c.state.Stops e →
    ∀ q ∈ s.sessions, q < p → s.hasAddress c.sessionAddress q = false
  | _ => True

instance (s : ServerState P) : ∀ e, Decidable (StopsFirst s e)
  | .session p e => decidable_of_iff (∀ c ∈ s.session p, c.state.isOpen = true →
      c.state.Stops e → ∀ q ∈ s.sessions, q < p → s.hasAddress c.sessionAddress q = false) Iff.rfl
  | .handleAccept _ _ _ | .broadcastMessage _ | .stopAsync => .isTrue trivial

/-- What is left of an exact set when `p` is stopped is exact iff it is `p` that
    has been removed, and this is so iff no session before `p` has its address. -/
theorem exact_setState_iff (hs : Tracked s) (hexact : Exact s) {p : P} {c : Session}
    {state : SessionState} (hc : s.session p = some c) (hopen : c.state.isOpen = true)
    (hclosed : state.isOpen = false) :
    Exact (s.setState p c state) ↔
      ∀ q ∈ s.sessions, q < p → s.hasAddress c.sessionAddress q = false := by
  have hp : p ∈ s.sessions := hexact ▸ (hs.isOpen p c hc).1 hopen
  have hsdiff : s.started \ insert p s.stopped = s.sessions.erase p := by
    rw [hexact, Finset.sdiff_insert, Finset.erase_eq]
  -- The session itself keeps its address.
  have hkept : ∀ q, ServerState.hasAddress
      { s with session := Function.update s.session p (some { c with state := state }) }
      c.sessionAddress q = s.hasAddress c.sessionAddress q := fun q => by
    by_cases hqp : q = p
    · subst hqp
      simp [ServerState.hasAddress, hc]
    · simp [ServerState.hasAddress, hqp]
  have hself : s.hasAddress c.sessionAddress p = true := by simp [ServerState.hasAddress, hc]
  rw [ServerState.setState_of_closed hopen hclosed, Exact]
  show ServerState.removeFromSessions _ _ = s.started \ insert p s.stopped ↔ _
  rw [ServerState.removeFromSessions, funext hkept, hsdiff]
  exact eraseFirst_eq_erase_iff hp hself

/-- A session that does not start does not unregister another one: it has no
    address yet, and they have. -/
theorem Exact.startAsync (hs : Tracked s) (hexact : Exact s) {p : P} (hp : s.session p = none)
    (remoteEndpoint : Option Endpoint) : Exact (s.startAsync p remoteEndpoint) := by
  obtain ⟨hstarted, hstopped⟩ := hs.started_of_session hp
  cases remoteEndpoint with
  | none =>
    show Exact (s.setState p .accepted Session.accepted.state.stopAsync)
    rw [ServerState.setState_of_closed rfl rfl]
    show ServerState.removeFromSessions _ "" = s.started \ insert p s.stopped
    rw [ServerState.removeFromSessions, eraseFirst_eq_self, hexact, Finset.sdiff_insert,
      Finset.erase_eq_of_notMem]
    · exact fun h => hstarted (Finset.mem_sdiff.1 h).1
    · intro q hq
      obtain ⟨c, hc, hne⟩ := hs.address q (hs.sessions hq)
      have hqp : q ≠ p := fun h => hstarted (h ▸ hs.sessions hq)
      simp [ServerState.hasAddress, hqp, hc, hne]
  | some remoteEndpoint =>
    show insert p s.sessions = insert p s.started \ s.stopped
    rw [Finset.insert_sdiff_of_notMem _ hstopped, ← hexact]

/-- A step keeps the set exact iff the session that it stops is the first one of
    its address. -/
theorem exact_step_iff {e : ServerEvent P} (hs : Tracked s) (hexact : Exact s)
    (h : ServerStep s e t) : Exact t ↔ StopsFirst s e := by
  cases h with
  | @accepted p remoteEndpoint hp =>
    exact iff_of_true (hexact.startAsync hs hp remoteEndpoint) trivial
  | notAccepted => exact iff_of_true hexact trivial
  | @handler p c e state hc hst =>
    have hstops := SessionState.isOpen_step hst
    have hfirst : StopsFirst s (.session p e) ↔ (c.state.isOpen = true → c.state.Stops e →
        ∀ q ∈ s.sessions, q < p → s.hasAddress c.sessionAddress q = false) :=
      ⟨fun h => h c hc, fun h d hd => Option.some.inj (hc.symm.trans hd) ▸ h⟩
    rw [hfirst]
    -- The set is only touched if the handler stops an open session.
    by_cases hclose : c.state.isOpen = true ∧ c.state.Stops e
    · have hclosed : state.isOpen = false :=
        Bool.eq_false_of_not_eq_true fun hopen => (hstops.1 hopen).2 hclose.2
      rw [exact_setState_iff hs hexact hc hclose.1 hclosed]
      exact ⟨fun h _ _ => h, fun h => h hclose.1 hclose.2⟩
    · refine iff_of_true ?_ fun hopen hstop => absurd ⟨hopen, hstop⟩ hclose
      rw [ServerState.setState_of_open fun hopen => hstops.2 ⟨hopen, fun h => hclose ⟨hopen, h⟩⟩]
      exact hexact
  | broadcast =>
    refine iff_of_true ?_ trivial
    rw [ServerState.broadcastMessage]
    split <;> exact hexact
  | stop =>
    refine iff_of_true ?_ trivial
    rw [ServerState.stopAsync]
    split
    · split
      · -- All those that have not been stopped are registered, and are stopped now.
        show ∅ = s.started \ (s.stopped ∪ s.sessions)
        rw [Finset.sdiff_union_distrib, ← hexact, Finset.inter_sdiff_self]
      · exact hexact
    · exact hexact

theorem tracked_empty : Tracked (ServerState.empty (P := P) isEnabled) := by
  refine ⟨subset_rfl, fun q hq => ?_, fun q hq => ?_, fun q c hc => ?_⟩
  · exact absurd hq (Finset.notMem_empty q)
  · exact absurd hq (Finset.notMem_empty q)
  · cases hc

/-- The set of the server is exact all along a run iff every session stopped in it
    is the first one of its address. -/
theorem sessions_exact_iff {es : List (ServerEvent P)}
    (hrun : (tcpServer P isEnabled).run (tcpServer P isEnabled).init es = some t) :
    (tcpServer P isEnabled).Always Exact (tcpServer P isEnabled).init es ↔
      (tcpServer P isEnabled).Meets StopsFirst (tcpServer P isEnabled).init es :=
  Machine.always_iff_meets (fun hs hst => Tracked.step hs (serverStep_of_step hst))
    (fun hs hexact hst => exact_step_iff hs hexact (serverStep_of_step hst))
    tracked_empty (Finset.empty_sdiff ∅).symm hrun

/-- Two clients with the same address, one after the other in the set. -/
def twoClients (remoteEndpoint : Endpoint) : List (ServerEvent ℕ) :=
  [.handleAccept false 1 (some remoteEndpoint), .handleAccept false 2 (some remoteEndpoint)]

/-- The session that is stopped is the first one of the two. -/
theorem sessions_exact_iff_first :
    (tcpServer ℕ true).Always Exact (tcpServer ℕ true).init
      (twoClients ⟨"127.0.0.1", 50001, by decide⟩ ++
        [.session 1 (.handleRead false ⟨true, true, ""⟩)]) := by
  have hrun : ((tcpServer ℕ true).run (tcpServer ℕ true).init
      (twoClients ⟨"127.0.0.1", 50001, by decide⟩ ++
        [.session 1 (.handleRead false ⟨true, true, ""⟩)])).isSome = true := by
    decide +kernel
  obtain ⟨t, ht⟩ := Option.isSome_iff_exists.1 hrun
  exact (sessions_exact_iff ht).2 (by decide +kernel)

/-- The session that is stopped is the second one of the two, and the first one is
    unregistered. -/
theorem unregisters_other :
    ¬∀ es t, (tcpServer ℕ true).run (tcpServer ℕ true).init es = some t →
      (tcpServer ℕ true).Always Exact (tcpServer ℕ true).init es := by
  intro h
  have hrun : ((tcpServer ℕ true).run (tcpServer ℕ true).init
      (twoClients ⟨"127.0.0.1", 50001, by decide⟩ ++
        [.session 2 (.handleRead false ⟨true, true, ""⟩)])).isSome = true := by
    decide +kernel
  obtain ⟨t, ht⟩ := Option.isSome_iff_exists.1 hrun
  exact absurd (h _ t ht) (by decide +kernel)

end QustomKeyboard
