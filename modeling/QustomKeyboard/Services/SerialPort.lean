import Mathlib.Data.List.Basic
import QustomKeyboard.Theory.Machine

/-!
# The switch of the serial port

`SerialPort` receives in a worker thread, which `Init` creates if the port is enabled, and
ends if it is not. The calls are those of one thread; they and the iterations of the
worker are the events of a machine (`serialPort`). To end the worker, `Init` tells it to
exit and waits for it; it returns when the worker has been joined, which does not take the
worker more than two iterations (`join_possible`).

That the worker has been told to exit (`toExit`) is never taken back, and so a worker that
is created after another one has been ended exits at once. The port follows its switch iff
this does not happen (`followsSwitch_iff`).
-/

namespace QustomKeyboard

open Theory

/-- Where the worker thread stands in `SerialPort::WorkerThread`. -/
inductive SerialWorker
  /-- Before the outer loop looks at `to_exit`. -/
  | closed
  /-- Before the inner loop looks at `to_exit`: the port is open. -/
  | opened
  /-- The function has returned. -/
  | finished
  deriving DecidableEq

/-- An iteration of the loop where the worker stands; `ok` tells whether the port can be
    opened, or that it has not been closed. -/
def SerialWorker.step (toExit ok : Bool) : SerialWorker → SerialWorker
  | .closed => if toExit then .finished else if ok then .opened else .closed
  | .opened => if toExit then .closed else if ok then .opened else .closed
  | .finished => .finished

structure SerialPort where
  isEnabled : Bool := true
  mWorker : Option SerialWorker := none
  toExit : Bool := false
  /-- `Init` waits for the worker to be joined. -/
  joining : Bool := false
  deriving DecidableEq

/-- What happens to the port. -/
inductive SerialEvent
  | setEnabled (enable : Bool)
  | init
  /-- The worker is joined, and `Init` returns. -/
  | joined
  /-- An iteration of the worker. -/
  | work (ok : Bool)
  deriving DecidableEq

/-- The worker only returns when it is told to. -/
theorem SerialWorker.step_eq_finished {toExit ok : Bool} {w : SerialWorker}
    (h : w.step toExit ok = .finished) : toExit = true ∨ w = .finished := by
  cases toExit <;> cases w <;> cases ok <;> simp [SerialWorker.step] at h ⊢

namespace SerialPort

variable (s : SerialPort)

/-- `SerialPort::DestroyWorkerThread`, up to where the worker is joined. -/
def destroyWorkerThread : SerialPort :=
  if s.mWorker.isSome then { s with toExit := true, joining := true } else s

/-- `SerialPort::Init`, up to where a worker is joined. -/
def init : SerialPort :=
  if s.isEnabled then { s with mWorker := some (s.mWorker.getD .closed) }
  else s.destroyWorkerThread

/-- The step of an event. While `Init` waits, there are no other calls. -/
def step : SerialEvent → Option SerialPort
  | .setEnabled enable => if s.joining then none else some { s with isEnabled := enable }
  | .init => if s.joining then none else some s.init
  | .joined =>
    if s.joining ∧ s.mWorker = some .finished then
      some { s with mWorker := none, joining := false }
    else none
  | .work ok =>
    match s.mWorker with
    | some w => some { s with mWorker := some (w.step s.toExit ok) }
    | none => none

/-- The worker is there and receives if the port is enabled, and else there is none. -/
def FollowsSwitch : Prop :=
  if s.isEnabled then (∃ w ∈ s.mWorker, w ≠ .finished) ∧ s.toExit = false else s.mWorker = none

instance : Decidable s.FollowsSwitch :=
  inferInstanceAs (Decidable (if s.isEnabled then (∃ w ∈ s.mWorker, w ≠ .finished) ∧ _ else _))

end SerialPort

/-- The calls of a `SerialPort`, and its worker. -/
def serialPort : Machine SerialPort SerialEvent where
  init := {}
  step := SerialPort.step

/-- `Init` returns: at once, or when the worker has been joined. -/
def Returns (e : SerialEvent) (t : SerialPort) : Prop := e = .init ∧ t.joining = false ∨ e = .joined

instance (e : SerialEvent) (t : SerialPort) : Decidable (Returns e t) :=
  inferInstanceAs (Decidable (_ ∨ _))

/-- If the event makes `Init` return, the port follows its switch then. -/
def ReturnsFollowing (s : SerialPort) (e : SerialEvent) : Prop :=
  ∀ t, serialPort.step s e = some t → Returns e t → t.FollowsSwitch

instance (s : SerialPort) (e : SerialEvent) : Decidable (ReturnsFollowing s e) :=
  decidable_of_iff (∀ t ∈ serialPort.step s e, Returns e t → t.FollowsSwitch) Iff.rfl

/-- Whether the port is enabled in each of the calls of `Init`, if it is `on` at first. -/
def switches (on : Bool) : List SerialEvent → List Bool
  | [] => []
  | .setEnabled enable :: es => switches enable es
  | .init :: es => on :: switches on es
  | .joined :: es => switches on es
  | .work _ :: es => switches on es

/-! ## The steps -/

/-- The steps, spelled out. -/
inductive SerialStep (s : SerialPort) : SerialEvent → SerialPort → Prop
  | setEnabled {enable : Bool} : s.joining = false →
      SerialStep s (.setEnabled enable) { s with isEnabled := enable }
  | enabled : s.joining = false → s.isEnabled = true →
      SerialStep s .init { s with mWorker := some (s.mWorker.getD .closed) }
  | disabled : s.joining = false → s.isEnabled = false → s.mWorker = none → SerialStep s .init s
  | told : s.joining = false → s.isEnabled = false → s.mWorker.isSome = true →
      SerialStep s .init { s with toExit := true, joining := true }
  | joined : s.joining = true → s.mWorker = some .finished →
      SerialStep s .joined { s with mWorker := none, joining := false }
  | work {w : SerialWorker} {ok : Bool} : s.mWorker = some w →
      SerialStep s (.work ok) { s with mWorker := some (w.step s.toExit ok) }

variable {s t : SerialPort} {e : SerialEvent}

/-- Every step of the machine is one of these. -/
theorem serialStep_of_step (h : serialPort.step s e = some t) : SerialStep s e t := by
  replace h : s.step e = some t := h
  cases e with
  | setEnabled enable =>
    obtain ⟨hfree, h⟩ := Option.ite_none_left_eq_some.1 h
    exact Option.some.inj h ▸ .setEnabled (Bool.eq_false_iff.2 hfree)
  | init =>
    obtain ⟨hfree, h⟩ := Option.ite_none_left_eq_some.1 h
    have hfree := Bool.eq_false_iff.2 hfree
    obtain rfl := Option.some.inj h
    rw [SerialPort.init, SerialPort.destroyWorkerThread]
    split_ifs with hon hworker
    · exact .enabled hfree hon
    · exact .told hfree (Bool.eq_false_iff.2 hon) hworker
    · exact .disabled hfree (Bool.eq_false_iff.2 hon) (by simpa using hworker)
  | joined =>
    obtain ⟨⟨hjoining, hworker⟩, h⟩ := Option.ite_none_right_eq_some.1 h
    exact Option.some.inj h ▸ .joined hjoining hworker
  | work ok =>
    rw [SerialPort.step] at h
    split at h
    · next w hw => exact Option.some.inj h ▸ .work hw
    · cases h

/-- The worker only returns when it has been told to, and `Init` only waits for a worker
    that has been told to exit, with the port disabled. -/
structure SerialInv (s : SerialPort) : Prop where
  told : s.mWorker = some .finished → s.toExit = true
  waits : s.joining = true → s.isEnabled = false ∧ s.toExit = true ∧ s.mWorker.isSome = true

theorem SerialInv.step (hs : SerialInv s) (h : serialPort.step s e = some t) : SerialInv t := by
  rcases serialStep_of_step h with hfree | ⟨hfree, -⟩ | hfree | ⟨-, hoff, hsome⟩ | - | ⟨hw⟩
  · exact ⟨hs.told, fun hjoining => absurd (hfree.symm.trans hjoining) Bool.false_ne_true⟩
  · refine ⟨fun hfinished => ?_, fun hjoining =>
      absurd (hfree.symm.trans hjoining) Bool.false_ne_true⟩
    -- A worker that has been created has not returned.
    rcases hworker : s.mWorker with _ | w
    · simp [hworker] at hfinished
    · exact hs.told (by simpa [hworker] using hfinished)
  · exact hs
  · exact ⟨fun _ => rfl, fun _ => ⟨hoff, rfl, hsome⟩⟩
  · exact ⟨(nofun), (nofun)⟩
  · refine ⟨fun hfinished => ?_, fun hjoining => ?_⟩
    · rcases SerialWorker.step_eq_finished (Option.some.inj hfinished) with htold | rfl
      · exact htold
      · exact hs.told hw
    · exact ⟨(hs.waits hjoining).1, (hs.waits hjoining).2.1, rfl⟩

theorem serialInv_init : SerialInv serialPort.init := ⟨(nofun), (nofun)⟩

/-! ## Joining the worker -/

/-- A worker that has been told to exit returns after two iterations at most, whatever
    happens to the port; and `Init` then returns. -/
theorem join_possible (hs : serialPort.Reachable Free s) (hjoining : s.joining = true) :
    ∃ n ≤ 2, ∀ oks : List Bool, oks.length = n →
      ∃ t, serialPort.run s (oks.map .work ++ [.joined]) = some t := by
  have hinv : SerialInv s := hs.invariant serialInv_init fun hs _ => hs.step
  obtain ⟨-, htold, hsome⟩ := hinv.waits hjoining
  obtain ⟨w, hw⟩ := Option.isSome_iff_exists.1 hsome
  obtain ⟨on, worker, toExit, joining⟩ := s
  obtain rfl : worker = some w := hw
  obtain rfl : toExit = true := htold
  obtain rfl : joining = true := hjoining
  cases w with
  | finished =>
    refine ⟨0, by decide, fun oks h => ?_⟩
    obtain rfl := List.length_eq_zero_iff.1 h
    exact ⟨_, rfl⟩
  | closed =>
    refine ⟨1, by decide, fun oks h => ?_⟩
    obtain ⟨a, rfl⟩ := List.length_eq_one_iff.1 h
    exact ⟨_, rfl⟩
  | opened =>
    refine ⟨2, by decide, fun oks h => ?_⟩
    obtain ⟨a, b, rfl⟩ := List.length_eq_two.1 h
    exact ⟨_, rfl⟩

/-! ## Following the switch -/

/-- The values of the switch in calls of `Init` that lead to a worker that exits at once. -/
def SerialPort.failing (s : SerialPort) : List Bool :=
  if s.toExit then [true] else if s.mWorker.isSome then [false, true] else [true, false, true]

theorem failing_of_told (h : s.toExit = true) : s.failing = [true] := if_pos h

theorem failing_of_worker (htold : s.toExit = false) (h : s.mWorker.isSome = true) :
    s.failing = [false, true] := by
  rw [SerialPort.failing, if_neg (by simp [htold]), if_pos h]

theorem failing_of_none (htold : s.toExit = false) (h : s.mWorker = none) :
    s.failing = [true, false, true] := by
  rw [SerialPort.failing, if_neg (by simp [htold]), if_neg (by simp [h])]

/-- What leads to a worker that exits at once begins with a call for the other position of the
    switch, if the worker is there, or if it is not there. -/
theorem sublist_cons_of_ne {a b : Bool} (h : a ≠ b) (l l' : List Bool) :
    (a :: l).Sublist (b :: l') ↔ (a :: l).Sublist l' := by
  rw [List.cons_sublist_cons', or_iff_left fun hab => h hab.1]

section

variable {l : List Bool}

/-- With the switch on there is a worker after the call. -/
theorem failing_sublist_on (htold : s.toExit = false) :
    s.failing.Sublist (true :: l) ↔ [false, true].Sublist l := by
  rcases hworker : s.mWorker with _ | w
  · rw [failing_of_none htold hworker, List.cons_sublist_cons]
  · rw [failing_of_worker htold (by rw [hworker]; rfl), sublist_cons_of_ne Bool.false_ne_true]

/-- With the switch off, a call tells the worker to exit. -/
theorem failing_sublist_off (h : s.mWorker.isSome = true) :
    s.failing.Sublist (false :: l) ↔ [true].Sublist l := by
  by_cases htold : s.toExit = true
  · rw [failing_of_told htold, sublist_cons_of_ne Bool.false_ne_true.symm]
  · rw [failing_of_worker (Bool.eq_false_iff.2 htold) h, List.cons_sublist_cons]

/-- Without a worker, such a call does nothing. -/
theorem failing_sublist_off_of_none (h : s.mWorker = none) :
    s.failing.Sublist (false :: l) ↔ s.failing.Sublist l := by
  by_cases htold : s.toExit = true
  · rw [failing_of_told htold, sublist_cons_of_ne Bool.false_ne_true.symm]
  · rw [failing_of_none (Bool.eq_false_iff.2 htold) h, sublist_cons_of_ne Bool.false_ne_true.symm]

theorem switches_init {on : Bool} (h : s.isEnabled = on) (es : List SerialEvent) :
    switches s.isEnabled (.init :: es) = on :: switches s.isEnabled es :=
  congrArg (· :: switches s.isEnabled es) h

end

theorem followsSwitch_of_on (h : s.isEnabled = true) :
    s.FollowsSwitch ↔ (∃ w ∈ s.mWorker, w ≠ .finished) ∧ s.toExit = false := by
  rw [SerialPort.FollowsSwitch, if_pos h]

theorem followsSwitch_of_off (h : s.isEnabled = false) : s.FollowsSwitch ↔ s.mWorker = none := by
  rw [SerialPort.FollowsSwitch, if_neg (by simp [h])]

/-- `Init` with the switch on leads to a worker that lives, unless one has been told to exit. -/
theorem followsSwitch_enabled (hs : SerialInv s) (hon : s.isEnabled = true) :
    SerialPort.FollowsSwitch { s with mWorker := some (s.mWorker.getD .closed) } ↔
      s.toExit = false := by
  refine (followsSwitch_of_on (s := { s with mWorker := some (s.mWorker.getD .closed) }) hon).trans
    ⟨And.right, fun htold => ⟨⟨_, rfl, fun h => ?_⟩, htold⟩⟩
  cases hworker : s.mWorker with
  | none => simp [hworker] at h
  | some w => exact Bool.false_ne_true (htold.symm.trans (hs.told (by simpa [hworker] using h)))

/-- The port does not follow its switch at an event, or later, iff the event is one of the
    calls that lead there, or these come later. -/
theorem failing_iff (hs : SerialInv s) (h : serialPort.step s e = some t)
    (es : List SerialEvent) :
    (Returns e t → t.FollowsSwitch) ∧ ¬t.failing.Sublist (switches t.isEnabled es) ↔
      ¬s.failing.Sublist (switches s.isEnabled (e :: es)) := by
  rcases serialStep_of_step h with - | ⟨hfree, hon⟩ | ⟨hfree, hoff, hnone⟩ | ⟨-, hoff, hsome⟩ |
    ⟨hjoining, -⟩ | ⟨hw⟩
  · -- `SetEnabled` is no call of `Init`.
    exact and_iff_right (by rintro (⟨⟨⟩, -⟩ | ⟨⟨⟩⟩))
  · have hreturns : Returns .init { s with mWorker := some (s.mWorker.getD .closed) } :=
      .inl ⟨rfl, hfree⟩
    rw [forall_prop_of_true hreturns, followsSwitch_enabled hs hon, switches_init hon]
    by_cases htold : s.toExit = true
    · rw [failing_of_told htold]
      exact iff_of_false (fun hfollows => Bool.false_ne_true (hfollows.1.symm.trans htold))
        (not_not.2 (by simp))
    · rw [Bool.not_eq_true] at htold
      have hfailing : SerialPort.failing { s with mWorker := some (s.mWorker.getD .closed) } =
          [false, true] := failing_of_worker htold rfl
      rw [and_iff_right htold, hfailing, failing_sublist_on htold]
  · -- Nothing happens: the worker is not there.
    rw [and_iff_right fun _ => (followsSwitch_of_off hoff).2 hnone, switches_init hoff,
      failing_sublist_off_of_none hnone]
  · -- `Init` has to wait.
    rw [and_iff_right (by rintro (⟨-, ⟨⟩⟩ | ⟨⟨⟩⟩)), failing_of_told rfl, switches_init hoff,
      failing_sublist_off hsome]
  · -- The worker is not there any more, as it should be.
    obtain ⟨hoff, htold, -⟩ := hs.waits hjoining
    have hfollows : SerialPort.FollowsSwitch { s with mWorker := none, joining := false } :=
      (followsSwitch_of_off (s := { s with mWorker := none, joining := false }) hoff).2 rfl
    have hfailing : SerialPort.failing { s with mWorker := none, joining := false } = [true] :=
      failing_of_told htold
    rw [and_iff_right fun _ => hfollows, hfailing, failing_of_told htold, switches]
  · refine (and_iff_right (by rintro (⟨⟨⟩, -⟩ | ⟨⟨⟩⟩))).trans ?_
    rw [switches, SerialPort.failing, SerialPort.failing, hw, Option.isSome_some,
      Option.isSome_some]

/-- In every run, the port follows its switch after each `Init` iff the switch is not on, off
    and on again in calls of `Init`. -/
theorem followsSwitch_iff (es : List SerialEvent) {s : SerialPort}
    (hrun : serialPort.run serialPort.init es = some s) :
    serialPort.Meets ReturnsFollowing serialPort.init es ↔
      ¬[true, false, true].Sublist (switches true es) := by
  -- What is to come leads to a worker that exits at once, or it does not, in every state.
  suffices h : ∀ s, SerialInv s → (∃ t, serialPort.run s es = some t) →
      (serialPort.Meets ReturnsFollowing s es ↔ ¬s.failing.Sublist (switches s.isEnabled es)) from
    h serialPort.init serialInv_init ⟨s, hrun⟩
  clear hrun
  induction es with
  | nil =>
    intro s _ _
    refine iff_of_true trivial ?_
    rw [SerialPort.failing]
    split_ifs <;> simp [switches]
  | cons e es ih =>
    rintro s hs ⟨u, hrun⟩
    obtain ⟨t, hst, hrun⟩ := Option.bind_eq_some_iff.1 hrun
    rw [Machine.meets_cons hst, ih t (hs.step hst) ⟨u, hrun⟩, ← failing_iff hs hst]
    refine and_congr_left fun _ => ⟨fun h => h t hst, fun h t' hst' => ?_⟩
    exact Option.some.inj (hst.symm.trans hst') ▸ h

/-- A port that is disabled while it receives. -/
theorem followsSwitch_disabled :
    serialPort.Meets ReturnsFollowing serialPort.init
      [.init, .work true, .setEnabled false, .init, .work true, .work true, .joined] ↔
    ¬[true, false, true].Sublist (switches true
      [.init, .work true, .setEnabled false, .init, .work true, .work true, .joined]) :=
  followsSwitch_iff _ (s := { isEnabled := false, toExit := true }) rfl

/-- A port that is enabled again: the worker is there, but it has been told to exit. -/
theorem not_followsSwitch_reenabled :
    (∃ s, serialPort.run serialPort.init
      [.init, .setEnabled false, .init, .work true, .joined, .setEnabled true, .init] = some s ∧
      s.mWorker = some .closed ∧ s.toExit = true) ∧
    ¬serialPort.Meets ReturnsFollowing serialPort.init
      [.init, .setEnabled false, .init, .work true, .joined, .setEnabled true, .init] := by
  decide

end QustomKeyboard
