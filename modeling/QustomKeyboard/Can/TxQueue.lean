import Mathlib.Data.List.Infix
import QustomKeyboard.Can.Sender
import QustomKeyboard.Theory.Log
import QustomKeyboard.Theory.Machine

/-!
# The transmit queue

`SendPendingCanFrames` takes the frames from the queue one by one, and it does
so in several steps: it looks whether there is a frame, reads the first one,
writes it to the port, tells the handler of it, and pops the queue. The pop is
not protected by the mutex, and any number of calls of `AddToTxQueue` may come
between two steps (`txQueue`).

The frames are told apart by when they were accepted, and every state carries
what has become of them (`accepted`, `written`, `dropped`, `removed`).

* The frames are written in the order in which they were accepted, none twice,
  and there is a frame to be popped at every pop (`written_in_order`).
* No frame is lost, as long as the queue does not overflow while the worker
  holds a frame (`no_frame_lost`); if it does, the pop removes a frame that has
  not been written (`overflow_loses_frame`).
-/

namespace QustomKeyboard

open Theory

/-- A frame accepted into the queue, after `seq` others. -/
structure TxFrame where
  seq : ℕ
  frame : CanData
  deriving DecidableEq

/-- Where the worker is in `SendPendingCanFrames`, with the frame it holds. -/
inductive TxPc
  /-- At the condition of the loop. -/
  | test
  /-- Before `m_TxQueue.front()`. -/
  | front
  /-- Before writing the frame to the port. -/
  | write (f : TxFrame)
  /-- Before `OnFrameSent`. -/
  | notify (f : TxFrame)
  /-- Before `m_TxQueue.pop()`. -/
  | pop (f : TxFrame)
  deriving DecidableEq

/-- The frame the worker holds: it has been read, and not popped yet. -/
@[simp] def TxPc.held : TxPc → Option TxFrame
  | test => none
  | front => none
  | write f => some f
  | notify f => some f
  | pop f => some f

/-- The queue and the worker, and what has become of the frames. -/
structure TxState where
  queue : List TxFrame
  pc : TxPc
  accepted : List TxFrame
  written : List TxFrame
  /-- Dropped by an overflow. -/
  dropped : List TxFrame
  /-- Popped by the worker. -/
  removed : List TxFrame
  deriving DecidableEq

/-- What may happen: a call of `AddToTxQueue`, or the next step of the worker. -/
inductive TxEvent
  | addToTxQueue (frameId : UInt32) (dataLen : UInt8) (data : Option (List UInt8))
  | worker
  deriving DecidableEq

namespace TxState

/-- Nothing accepted yet. -/
def empty : TxState := ⟨[], .test, [], [], [], []⟩

/-- Accept the frame `d`: the tail of `AddToTxQueue`. -/
def accept (s : TxState) (d : CanData) : TxState :=
  let f : TxFrame := ⟨s.accepted.length, d⟩
  { s with
    queue := pushTx s.queue f
    accepted := s.accepted ++ [f]
    dropped := s.dropped ++
      if txQueueMaxSize < (s.queue ++ [f]).length then s.queue.take 1 else [] }

/-- `CanSerialPort::AddToTxQueue`, in one step. -/
def addToTxQueue (s : TxState) (frameId : UInt32) (dataLen : UInt8) (data : Option (List UInt8)) :
    Option TxState :=
  if data = none ∨ dataLen = 0 then some s
  else (CanData.new frameId dataLen data).toOption.map s.accept

/-- The next step of the worker. -/
def worker (s : TxState) : Option TxState :=
  match s.pc with
  | .test => if s.queue = [] then some s else some { s with pc := .front }
  | .front => s.queue.head?.map fun f => { s with pc := .write f }
  -- `PrepareSendDataFormat` of the device returns a size, and sets `is_remove`.
  | .write f => some { s with pc := .notify f, written := s.written ++ [f] }
  | .notify f => some { s with pc := .pop f }
  | .pop _ => s.queue.head?.map fun f =>
      { s with pc := .test, queue := s.queue.tail, removed := s.removed ++ [f] }

end TxState

/-- The interleavings of `AddToTxQueue` and the worker. -/
def txQueue : Machine TxState TxEvent where
  init := .empty
  step s
    | .addToTxQueue frameId dataLen data => s.addToTxQueue frameId dataLen data
    | .worker => s.worker

/-- The frame to be written makes `PrepareSendDataFormat` return a size and set
    `is_remove`, whenever it returns. -/
theorem prepareSendDataFormat_removes {crc16Modbus : List UInt8 → UInt16} {d : CanData}
    {out : List UInt8} {maxSize : ℕ} {r : SendFormat}
    (h : prepareSendDataFormat crc16Modbus d out maxSize = .ok r) :
    r.size ≠ 0 ∧ r.removeFromQueue = true := by
  rw [prepareSendDataFormat] at h
  split at h
  · cases h
  · simp only [bind, Except.bind] at h
    repeat' split at h
    all_goals cases h
    exact ⟨Nat.succ_ne_zero _, rfl⟩

/-- The queue of the machine is that of `AddToTxQueue`. -/
theorem map_frame_addToTxQueue (s : TxState) (frameId : UInt32) (dataLen : UInt8)
    (data : Option (List UInt8)) :
    (s.addToTxQueue frameId dataLen data).map (fun t => t.queue.map TxFrame.frame) =
      (addToTxQueue (s.queue.map TxFrame.frame) frameId dataLen data).toOption := by
  rw [TxState.addToTxQueue, addToTxQueue]
  split
  · rfl
  · cases CanData.new frameId dataLen data with
    | error _ => rfl
    | ok d =>
      simp only [Except.toOption, Option.map_some, bind, Except.bind, TxState.accept, pushTx,
        List.length_append, List.length_map, List.length_singleton, pure, Except.pure]
      split <;> simp

/-! ## The steps -/

/-- The steps, spelled out. -/
inductive TxStep (s : TxState) : TxEvent → TxState → Prop
  /-- A frame without data is ignored. -/
  | ignored {i : UInt32} {l : UInt8} {v : Option (List UInt8)} :
      v = none ∨ l = 0 → TxStep s (.addToTxQueue i l v) s
  | enqueue {i : UInt32} {l : UInt8} {v : Option (List UInt8)} {f : TxFrame} :
      ¬(v = none ∨ l = 0) → f.seq = s.accepted.length → s.queue.length < txQueueMaxSize →
      TxStep s (.addToTxQueue i l v)
        { s with queue := s.queue ++ [f], accepted := s.accepted ++ [f] }
  | overflow {i : UInt32} {l : UInt8} {v : Option (List UInt8)} {f b : TxFrame}
      {bs : List TxFrame} :
      ¬(v = none ∨ l = 0) → f.seq = s.accepted.length → s.queue = b :: bs →
      txQueueMaxSize ≤ s.queue.length →
      TxStep s (.addToTxQueue i l v)
        { s with queue := bs ++ [f], accepted := s.accepted ++ [f], dropped := s.dropped ++ [b] }
  /-- `SendPendingCanFrames` returns, and is called again later. -/
  | idle : s.pc = .test → s.queue = [] → TxStep s .worker s
  | test : s.pc = .test → s.queue ≠ [] → TxStep s .worker { s with pc := .front }
  | front {f : TxFrame} {bs : List TxFrame} : s.pc = .front → s.queue = f :: bs →
      TxStep s .worker { s with pc := .write f }
  | write {f : TxFrame} : s.pc = .write f →
      TxStep s .worker { s with pc := .notify f, written := s.written ++ [f] }
  | notify {f : TxFrame} : s.pc = .notify f → TxStep s .worker { s with pc := .pop f }
  | pop {f b : TxFrame} {bs : List TxFrame} : s.pc = .pop f → s.queue = b :: bs →
      TxStep s .worker { s with pc := .test, queue := bs, removed := s.removed ++ [b] }

theorem txStep_accept {s : TxState} {i : UInt32} {l : UInt8} {v : Option (List UInt8)}
    (hv : ¬(v = none ∨ l = 0)) (d : CanData) : TxStep s (.addToTxQueue i l v) (s.accept d) := by
  have hlen (f : TxFrame) : (s.queue ++ [f]).length = s.queue.length + 1 := List.length_append
  obtain ⟨hlt, hq⟩ | ⟨b, bs, hs, hle, hq⟩ := pushTx_cases s.queue ⟨s.accepted.length, d⟩
  · rw [TxState.accept, hq, if_neg (by rw [hlen]; omega), List.append_nil]
    exact .enqueue hv rfl hlt
  · rw [TxState.accept, hq, if_pos (by rw [hlen]; omega), hs]
    exact .overflow hv rfl hs hle

/-- Every step of the machine is one of these. -/
theorem txStep_of_step {s t : TxState} {e : TxEvent} (h : txQueue.step s e = some t) :
    TxStep s e t := by
  cases e with
  | addToTxQueue i l v =>
    replace h : s.addToTxQueue i l v = some t := h
    rw [TxState.addToTxQueue] at h
    split at h
    · rename_i hv
      exact Option.some.inj h ▸ .ignored hv
    · rename_i hv
      obtain ⟨d, -, rfl⟩ := Option.map_eq_some_iff.1 h
      exact txStep_accept hv d
  | worker =>
    replace h : s.worker = some t := h
    rw [TxState.worker] at h
    split at h
    · rename_i hpc
      split at h
      · rename_i hnil
        exact Option.some.inj h ▸ .idle hpc hnil
      · rename_i hne
        exact Option.some.inj h ▸ .test hpc hne
    · rename_i hpc
      obtain ⟨f, hf, rfl⟩ := Option.map_eq_some_iff.1 h
      obtain ⟨bs, hbs⟩ := List.head?_eq_some_iff.1 hf
      exact .front hpc hbs
    · rename_i hpc
      exact Option.some.inj h ▸ .write hpc
    · rename_i hpc
      exact Option.some.inj h ▸ .notify hpc
    · rename_i hpc
      obtain ⟨b, hb, rfl⟩ := Option.map_eq_some_iff.1 h
      obtain ⟨bs, hbs⟩ := List.head?_eq_some_iff.1 hb
      rw [hbs]
      exact .pop hpc hbs

/-! ## The order of the frames -/

/-- The frame held to be written, as a list. -/
@[simp] def TxPc.toWrite : TxPc → List TxFrame
  | test => []
  | front => []
  | write f => [f]
  | notify _ => []
  | pop _ => []

/-- The front of the queue, as long as the worker holds a frame. -/
def TxState.front (s : TxState) : List TxFrame :=
  if s.pc.held = none then [] else s.queue.take 1

theorem TxState.front_sublist (s : TxState) : s.front.Sublist (s.queue.take 1) := by
  rw [TxState.front]
  split
  · exact List.nil_sublist _
  · exact List.Sublist.refl _

/-- The invariant of the order: the queue is a suffix of what has been accepted,
    and what has been written (or is about to) comes, in order, from the part
    before it, and from its front while the worker holds a frame. -/
structure InOrder (s : TxState) : Prop where
  numbered : Numbered TxFrame.seq s.accepted
  sublist : ∃ gone, s.accepted = gone ++ s.queue ∧
    (s.written ++ s.pc.toWrite).Sublist (gone ++ s.front)
  queue_ne_nil : s.pc ≠ .test → s.queue ≠ []

/-- Every step keeps the order. -/
theorem InOrder.step {s t : TxState} {e : TxEvent} (hs : InOrder s) (h : TxStep s e t) :
    InOrder t := by
  obtain ⟨hnum, ⟨gone, hacc, hsub⟩, hne⟩ := hs
  cases h with
  | ignored _ => exact ⟨hnum, ⟨gone, hacc, hsub⟩, hne⟩
  | idle _ _ => exact ⟨hnum, ⟨gone, hacc, hsub⟩, hne⟩
  | @enqueue i l v f hv hf hlt =>
    refine ⟨hnum.concat hf, ⟨gone, ?_, hsub.trans (List.Sublist.append_left ?_ gone)⟩,
      fun _ => List.concat_ne_nil _ _⟩
    · rw [hacc, List.append_assoc]
    · -- The front of the queue stays, or there was none.
      unfold TxState.front
      split
      · exact List.nil_sublist _
      · exact (List.IsPrefix.take (List.prefix_append s.queue [f]) 1).sublist
  | @overflow i l v f b bs hv hf hq hle =>
    refine ⟨hnum.concat hf, ⟨gone ++ [b], ?_, hsub.trans ?_⟩, fun _ => List.concat_ne_nil _ _⟩
    · rw [hacc, hq]
      simp
    · -- The dropped frame may be the one the worker holds: it is gone now.
      have hfront : s.front.Sublist [b] := by
        have := s.front_sublist
        rwa [hq] at this
      exact (hfront.append_left gone).trans (List.sublist_append_left _ _)
  | test hpc hq =>
    have hsub : s.written.Sublist gone := by simpa [TxState.front, hpc] using hsub
    exact ⟨hnum, ⟨gone, hacc, by simpa [TxState.front] using hsub⟩, fun _ => hq⟩
  | @front f bs hpc hq =>
    have hsub : s.written.Sublist gone := by simpa [TxState.front, hpc] using hsub
    refine ⟨hnum, ⟨gone, hacc, ?_⟩, fun _ => hq ▸ List.cons_ne_nil _ _⟩
    simpa [TxState.front, hq] using hsub
  | @write f hpc =>
    have hsub : (s.written ++ [f]).Sublist (gone ++ s.queue.take 1) := by
      simpa [TxState.front, hpc] using hsub
    refine ⟨hnum, ⟨gone, hacc, ?_⟩, fun _ => hne (by simp [hpc])⟩
    simpa [TxState.front] using hsub
  | @notify f hpc =>
    have hsub : s.written.Sublist (gone ++ s.queue.take 1) := by
      simpa [TxState.front, hpc] using hsub
    exact ⟨hnum, ⟨gone, hacc, by simpa [TxState.front] using hsub⟩, fun _ => hne (by simp [hpc])⟩
  | @pop f b bs hpc hq =>
    have hsub : s.written.Sublist (gone ++ [b]) := by simpa [TxState.front, hpc, hq] using hsub
    refine ⟨hnum, ⟨gone ++ [b], ?_, by simpa [TxState.front] using hsub⟩, fun h => absurd rfl h⟩
    rw [hacc, hq, List.append_assoc]
    rfl

theorem inOrder_of_reachable {s : TxState} (h : txQueue.Reachable Free s) : InOrder s := by
  have hinit : InOrder txQueue.init :=
    ⟨numbered_nil, ⟨[], rfl, List.Sublist.refl _⟩, fun h => absurd rfl h⟩
  exact h.invariant hinit fun hs _ hst => InOrder.step hs (txStep_of_step hst)

/-- In every interleaving, what is written to the port is a subsequence of what
    has been accepted, no frame is written twice, and the queue is not empty
    when it is popped. -/
theorem written_in_order {s : TxState} (h : txQueue.Reachable Free s) :
    s.written.Sublist s.accepted ∧ s.written.Nodup ∧ ∀ f, s.pc = .pop f → s.queue ≠ [] := by
  have hs := inOrder_of_reachable h
  obtain ⟨gone, hacc, hsub⟩ := hs.sublist
  have hfront : s.front.Sublist s.queue := s.front_sublist.trans (List.take_sublist _ _)
  have hwritten : s.written.Sublist s.accepted := by
    rw [hacc]
    exact (List.sublist_append_left _ _).trans (hsub.trans (hfront.append_left gone))
  exact ⟨hwritten, hs.numbered.nodup.sublist hwritten, fun f hf => hs.queue_ne_nil (by simp [hf])⟩

/-- A frame is added, written, and popped. -/
def sendRun : List TxEvent :=
  .addToTxQueue 0x123 1 (some [0xAA]) :: List.replicate 5 .worker

theorem written_in_order_sample :
    ∃ s, txQueue.run txQueue.init sendRun = some s ∧ s.written.length = 1 ∧
      s.written.Sublist s.accepted := by
  have hrun : ∃ s, txQueue.run txQueue.init sendRun = some s ∧ s.written.length = 1 := by decide
  obtain ⟨s, hs, hlen⟩ := hrun
  exact ⟨s, hs, hlen, (written_in_order ⟨sendRun, .of_run hs⟩).1⟩

/-! ## No lost frames -/

/-- Every accepted frame is in the queue, or has been written to the port, or was
    dropped by an overflow, and only written frames have been popped. -/
def NoneLost (s : TxState) : Prop :=
  (∀ f ∈ s.accepted, f ∈ s.queue ∨ f ∈ s.written ∨ f ∈ s.dropped) ∧
    ∀ f ∈ s.removed, f ∈ s.written

instance (s : TxState) : Decidable (NoneLost s) := inferInstanceAs (Decidable (_ ∧ _))

/-- The event is a call of `AddToTxQueue` that makes the queue overflow. -/
def Overflows (s : TxState) : TxEvent → Prop
  | .addToTxQueue _ dataLen data =>
    ¬(data = none ∨ dataLen = 0) ∧ txQueueMaxSize ≤ s.queue.length
  | .worker => False

instance (s : TxState) : DecidablePred (Overflows s)
  | .addToTxQueue _ dataLen data =>
    inferInstanceAs (Decidable (¬(data = none ∨ dataLen = 0) ∧ _))
  | .worker => inferInstanceAs (Decidable False)

/-- The queue does not overflow while the worker holds a frame. -/
def NoOverflowWhileHeld (s : TxState) (e : TxEvent) : Prop := Overflows s e → s.pc.held = none

instance (s : TxState) (e : TxEvent) : Decidable (NoOverflowWhileHeld s e) :=
  inferInstanceAs (Decidable (_ → _))

/-- The invariant of the frames: what is not in the queue any more has been
    written or dropped, and the frame the worker holds is the front of the queue. -/
structure Kept (s : TxState) : Prop where
  gone : ∃ gone, s.accepted = gone ++ s.queue ∧ ∀ f ∈ gone, f ∈ s.written ∨ f ∈ s.dropped
  removed : ∀ f ∈ s.removed, f ∈ s.written
  held : ∀ f, s.pc.held = some f → s.queue.head? = some f
  written : ∀ f, s.pc = .notify f ∨ s.pc = .pop f → f ∈ s.written

/-- A step at which the queue does not overflow while the worker holds a frame
    keeps the frames. -/
theorem Kept.step {s t : TxState} {e : TxEvent} (hs : Kept s) (hok : NoOverflowWhileHeld s e)
    (h : TxStep s e t) : Kept t := by
  obtain ⟨⟨gone, hacc, hgone⟩, hremoved, hheld, hwritten⟩ := hs
  cases h with
  | ignored _ => exact ⟨⟨gone, hacc, hgone⟩, hremoved, hheld, hwritten⟩
  | idle _ _ => exact ⟨⟨gone, hacc, hgone⟩, hremoved, hheld, hwritten⟩
  | @enqueue i l v f hv hf hlt =>
    refine ⟨⟨gone, ?_, hgone⟩, hremoved, fun g hg => ?_, hwritten⟩
    · rw [hacc, List.append_assoc]
    · rw [List.head?_append, hheld g hg]
      rfl
  | @overflow i l v f b bs hv hf hq hle =>
    -- The worker holds nothing, so nobody misses the dropped frame.
    have hnone : s.pc.held = none := hok ⟨hv, hle⟩
    refine ⟨⟨gone ++ [b], ?_, fun g hg => ?_⟩, hremoved, fun g hg => ?_, hwritten⟩
    · rw [hacc, hq]
      simp
    · rcases List.mem_append.1 hg with hg | hg
      · exact (hgone g hg).imp_right fun hd => List.mem_append_left _ hd
      · exact .inr (List.mem_append_right _ hg)
    · exact absurd (hnone.symm.trans hg) (Option.some_ne_none g).symm
  | test hpc hq => exact ⟨⟨gone, hacc, hgone⟩, hremoved, by simp, by simp⟩
  | @front f bs hpc hq =>
    refine ⟨⟨gone, hacc, hgone⟩, hremoved, fun g hg => ?_, by simp⟩
    exact hq ▸ hg
  | @write f hpc =>
    refine ⟨⟨gone, hacc, fun g hg => ?_⟩, fun g hg => ?_, fun g hg => ?_, fun g hg => ?_⟩
    · exact (hgone g hg).imp_left fun hw => List.mem_append_left _ hw
    · exact List.mem_append_left _ (hremoved g hg)
    · exact hheld g (hpc ▸ hg)
    · obtain rfl : f = g := by simpa using hg
      exact List.mem_append_right _ (List.mem_singleton_self _)
  | @notify f hpc =>
    refine ⟨⟨gone, hacc, hgone⟩, hremoved, fun g hg => hheld g (hpc ▸ hg), fun g hg => ?_⟩
    obtain rfl : f = g := by simpa using hg
    exact hwritten f (.inl hpc)
  | @pop f b bs hpc hq =>
    -- The popped frame is the one that has been held, and so written.
    obtain rfl : b = f := Option.some.inj ((congrArg List.head? hq).symm.trans
      (hheld f (congrArg TxPc.held hpc)))
    have hb : b ∈ s.written := hwritten b (.inr hpc)
    refine ⟨⟨gone ++ [b], ?_, fun g hg => ?_⟩, fun g hg => ?_, by simp, by simp⟩
    · rw [hacc, hq, List.append_assoc]
      rfl
    · rcases List.mem_append.1 hg with hg | hg
      · exact hgone g hg
      · exact .inl (List.mem_singleton.1 hg ▸ hb)
    · rcases List.mem_append.1 hg with hg | hg
      · exact hremoved g hg
      · exact List.mem_singleton.1 hg ▸ hb

theorem Kept.noneLost {s : TxState} (hs : Kept s) : NoneLost s := by
  obtain ⟨⟨gone, hacc, hgone⟩, hremoved, -, -⟩ := hs
  refine ⟨fun f hf => ?_, hremoved⟩
  rw [hacc] at hf
  rcases List.mem_append.1 hf with hf | hf
  · exact .inr (hgone f hf)
  · exact .inl hf

theorem kept_empty : Kept .empty :=
  ⟨⟨[], rfl, fun _ hf => absurd hf List.not_mem_nil⟩, fun _ hf => absurd hf List.not_mem_nil,
    by simp [TxState.empty], by simp [TxState.empty]⟩

/-- In every interleaving in which the queue never overflows while the worker
    holds a frame, no frame is lost. -/
theorem no_frame_lost {s : TxState} (h : txQueue.Reachable NoOverflowWhileHeld s) : NoneLost s := by
  have hkept : Kept s :=
    h.invariant kept_empty fun hs hok hst => Kept.step hs hok (txStep_of_step hst)
  exact hkept.noneLost

theorem no_frame_lost_sample :
    ∃ s, txQueue.run txQueue.init sendRun = some s ∧ s.removed = s.accepted ∧ NoneLost s := by
  have hrun : ∃ s, txQueue.run txQueue.init sendRun = some s ∧ s.removed = s.accepted := by decide
  obtain ⟨s, hs, hremoved⟩ := hrun
  exact ⟨s, hs, hremoved, no_frame_lost ⟨sendRun, .of_meets (by decide) hs⟩⟩

/-- The queue is filled, its first frame is read and written, one more frame makes
    the queue overflow, and the worker goes on to its pop. -/
def overflowRun : List TxEvent :=
  List.replicate 100 (.addToTxQueue 0x123 1 (some [0xAA])) ++ List.replicate 3 .worker ++
    [.addToTxQueue 0x123 1 (some [0xAA])] ++ List.replicate 2 .worker

/-- The pop removes the second frame, which has not been written. -/
theorem overflow_pops_unwritten :
    ¬∀ s, txQueue.Reachable Free s → NoneLost s := by
  intro h
  have hrun : ∃ s, txQueue.run txQueue.init overflowRun = some s ∧ ¬NoneLost s := by
    decide +kernel
  obtain ⟨s, hs, hlost⟩ := hrun
  exact hlost (h s (.of_run hs))

/-- Once the queue overflows while the worker holds a frame, the worker only has
    to go on to pop a frame that has not been written. -/
theorem overflow_loses_frame {s t : TxState} {e : TxEvent} (h : txQueue.Reachable Free s)
    (hover : Overflows s e) (hheld : s.pc.held ≠ none) (hst : txQueue.step s e = some t) :
    ∃ n u, txQueue.run t (List.replicate n .worker) = some u ∧ ¬NoneLost u := by
  have hs := inOrder_of_reachable h
  have hnodup := hs.numbered.nodup
  obtain ⟨gone, hacc, hsub⟩ := hs.sublist
  cases txStep_of_step hst with
  | ignored hv => exact absurd hv hover.1
  | enqueue _ _ hlt => exact absurd hlt (not_lt.2 hover.2)
  | @overflow i l v f b bs _ hf hq hle =>
    -- The next front `g` comes after everything that is written, or about to be.
    obtain ⟨g, bs, rfl⟩ : ∃ g bs', bs = g :: bs' := by
      cases bs with
      | nil => rw [hq] at hle; exact absurd hle (Nat.not_le.2 (Nat.one_lt_ofNat))
      | cons g bs => exact ⟨g, bs, rfl⟩
    have hg : g ∉ s.written ++ s.pc.toWrite := by
      intro hmem
      have hmem : g ∈ gone ++ [b] := by
        have := (s.front_sublist.append_left gone).subset (hsub.subset hmem)
        rwa [hq] at this
      rw [hacc, hq, List.append_cons, List.nodup_append] at hnodup
      exact hnodup.2.2 g hmem g List.mem_cons_self rfl
    rw [List.mem_append, not_or] at hg
    obtain ⟨queue, pc, accepted, written, dropped, removed⟩ := s
    cases pc with
    | test => exact absurd rfl hheld
    | front => exact absurd rfl hheld
    | write w =>
      refine ⟨3, _, rfl, fun hlost => ?_⟩
      rcases List.mem_append.1 (hlost.2 g (List.mem_append_right _ (List.mem_singleton_self _)))
        with hw | hw
      · exact hg.1 hw
      · exact hg.2 hw
    | notify w =>
      refine ⟨2, _, rfl, fun hlost => hg.1 ?_⟩
      exact hlost.2 g (List.mem_append_right _ (List.mem_singleton_self _))
    | pop w =>
      refine ⟨1, _, rfl, fun hlost => hg.1 ?_⟩
      exact hlost.2 g (List.mem_append_right _ (List.mem_singleton_self _))
  | idle | test | front | write | notify | pop => exact hover.elim

end QustomKeyboard
