import QustomKeyboard.Tcp.Session
import QustomKeyboard.Theory.Memory
import QustomKeyboard.Theory.Selection

/-!
# Receiving a command

A session reads once, as many bytes as there are but for no more than its
buffer has room for. `HandleRead` puts a terminator behind what has been read,
and the executor compares the buffer with the names of its commands, one after
the other, and runs the handler of the first one that is in front.

The comparisons take no notice of how much has been read. They are right
because the rest of the buffer is zero, and because no name is the beginning of
another, so that their order does not matter. The terminator, however, stands
outside of the buffer when this has been filled (`dispatches_iff`).
-/

namespace QustomKeyboard

open Theory

/-- `SESSION_RECV_BUF_LEN`. -/
abbrev sessionRecvBufLen : ℕ := 1024

/-- What a read without an error completes with. -/
structure Received where
  bytes : List Char
  length_le : bytes.length ≤ sessionRecvBufLen

/-- The buffer of the session, which was zero before the read. -/
def Received.buffer (r : Received) : List Char :=
  r.bytes ++ List.replicate (sessionRecvBufLen - r.bytes.length) '\x00'

/-- The handlers of the executor. -/
inductive Handler
  | airQualityData
  | openExplorer
  | graphs (fileOnDisk : String)
  deriving DecidableEq

/-- A command: its name, and the handler bound to it. -/
structure Command where
  name : List Char
  handler : Handler
  deriving DecidableEq

/-- `TcpMessageExecutor::m_cmds`. -/
def mCmds : List Command :=
  [⟨"MEAS_DATA".toList, .airQualityData⟩,
    ⟨"expw".toList, .openExplorer⟩,
    ⟨"GET /graphs".toList, .graphs "Temperature.html"⟩,
    ⟨"GET /Temperature".toList, .graphs "Temperature.html"⟩,
    ⟨"GET /Humidity".toList, .graphs "Humidity.html"⟩,
    ⟨"GET /CO2".toList, .graphs "CO2.html"⟩,
    ⟨"GET /VOC".toList, .graphs "VOC.html"⟩,
    ⟨"GET /PM25".toList, .graphs "PM25.html"⟩,
    ⟨"GET /PM10".toList, .graphs "PM10.html"⟩,
    ⟨"GET /Lux".toList, .graphs "Lux.html"⟩,
    ⟨"GET /CCT".toList, .graphs "CCT.html"⟩,
    ⟨"GET /Line%20Chart%20Multiple%20Axes_files/Chart.min.js.download".toList,
      .graphs "Chart.min.js.download"⟩,
    ⟨"GET /Line%20Chart%20Multiple%20Axes_files/utils.js.download".toList,
      .graphs "utils.js.download"⟩]

/-- `TCP_HTTP_HEADER`. -/
def tcpHttpHeader : String :=
  "HTTP/1.1 200 OK\r\n Content-type:text/html\r\n Connection: close\r\n\r\n"

/-- What the executor leaves: the command it has run, what this returns, and the buffer. -/
structure Processed where
  ran : Option Command
  answer : TcpMessageReturn
  recvData : List Char

/-- A handler, on a buffer of which `len` bytes have been received: what it returns, and
    the buffer after it. The files of the graphs are `graphFile`, if they can be opened. -/
def Handler.run (graphFile : String → Option String) (recvData : List Char) (len : ℕ) :
    Handler → Except Fault (TcpMessageReturn × List Char)
  | airQualityData => .ok ({ close := true, handled := true, response := "" }, recvData)
  | openExplorer => do
    let front ← load recvData 0 len
    let recvData ← store recvData 0 (front.map fun c => if c = '/' then '\\' else c)
    return ({ close := true, handled := true, response := "" }, recvData)
  | graphs fileOnDisk =>
    .ok ({ close := true, handled := true,
           response := tcpHttpHeader ++ (graphFile fileOnDisk).getD "" }, recvData)

/-- `TcpMessageExecutor::Process`, the commands being visited in the order `cmds`. -/
def process (graphFile : String → Option String) (recvData : List Char) (len : ℕ) :
    List Command → Except Fault Processed
  | [] => .ok
    { ran := none
      answer := { close := true, handled := false, response := "" }
      recvData := recvData }
  | cmd :: cmds => do
    -- `memcmp` on as many bytes as the name has.
    let front ← load recvData 0 cmd.name.length
    if front = cmd.name then
      let (answer, recvData) ← cmd.handler.run graphFile recvData len
      return { ran := some cmd, answer := answer, recvData := recvData }
    else process graphFile recvData len cmds

/-- What `Session::HandleRead` does with what has been received. -/
def handleReceived (graphFile : String → Option String) (cmds : List Command) (r : Received) :
    Except Fault Processed := do
  let recvData ← storeAt r.buffer r.bytes.length '\x00'
  process graphFile recvData r.bytes.length cmds

/-- What has been received is dispatched: all accesses are in range and, whatever the
    order of the commands, the one that runs is the one whose name has been received,
    and the session is to be closed without a response if there is none. -/
def Dispatches (r : Received) : Prop :=
  ∀ graphFile cmds, cmds.Perm mCmds → ∃ p, handleReceived graphFile cmds r = .ok p ∧
    (∀ c ∈ mCmds, p.ran = some c ↔ c.name <+: r.bytes) ∧
    ((∀ c ∈ mCmds, ¬c.name <+: r.bytes) →
      p.answer = { close := true, handled := false, response := "" })

/-! ## The names -/

theorem mCmds_names : ∀ c ∈ mCmds, '\x00' ∉ c.name ∧ c.name.length ≤ sessionRecvBufLen ∧
    ∀ d ∈ mCmds, c.name <+: d.name → c = d := by
  decide +kernel

/-- No name is the beginning of another, so that a text begins with one of them at most. -/
theorem mCmds_unique {bytes : List Char} {c d : Command} (hc : c ∈ mCmds) (hd : d ∈ mCmds)
    (hcb : c.name <+: bytes) (hdb : d.name <+: bytes) : c = d := by
  rcases List.prefix_or_prefix_of_prefix hcb hdb with h | h
  · exact (mCmds_names c hc).2.2 d hd h
  · exact ((mCmds_names d hd).2.2 c hc h).symm

/-! ## The comparisons -/

variable (graphFile : String → Option String) {r : Received}

@[simp] theorem Received.length_buffer (r : Received) : r.buffer.length = sessionRecvBufLen := by
  rw [buffer, List.length_append, List.length_replicate, Nat.add_sub_cancel' r.length_le]

/-- The terminator makes no difference, if there is room for it. -/
theorem store_terminator (hlen : r.bytes.length < sessionRecvBufLen) :
    storeAt r.buffer r.bytes.length '\x00' = .ok r.buffer := by
  obtain ⟨k, hk⟩ := Nat.exists_eq_add_of_lt hlen
  have hbuffer : r.buffer = r.bytes ++ '\x00' :: List.replicate k '\x00' := by
    rw [Received.buffer, hk, Nat.add_assoc, Nat.add_sub_cancel_left, List.replicate_succ]
  rw [hbuffer]
  exact storeAt_append_right r.bytes _ 0 '\x00'

/-- The buffer begins with a name iff what has been received does. -/
theorem take_buffer_eq_iff {name : List Char} (hname : '\x00' ∉ name) :
    r.buffer.take name.length = name ↔ name <+: r.bytes := by
  rw [eq_comm, ← List.prefix_iff_eq_take]
  refine ⟨fun h => ?_, fun h => h.trans (List.prefix_append _ _)⟩
  rcases Nat.le_total name.length r.bytes.length with hle | hle
  · exact List.prefix_of_prefix_length_le h (List.prefix_append _ _) hle
  · -- Otherwise the name goes on with what has not been received, which is zero.
    obtain ⟨t, rfl⟩ := List.prefix_of_prefix_length_le (List.prefix_append _ _) h hle
    rw [Received.buffer, List.prefix_append_right_inj] at h
    cases t with
    | nil => simp
    | cons a t =>
      have ha := List.eq_of_mem_replicate (h.subset List.mem_cons_self)
      exact absurd (List.mem_append_right _ (ha ▸ List.mem_cons_self)) hname

/-- Handlers access the buffer as far as it has been filled. -/
theorem Handler.run_ok (h : Handler) (r : Received) :
    ∃ answer recvData, h.run graphFile r.buffer r.bytes.length = .ok (answer, recvData) := by
  cases h with
  | airQualityData => exact ⟨_, _, rfl⟩
  | graphs fileOnDisk => exact ⟨_, _, rfl⟩
  | openExplorer =>
    have hlen : 0 + r.bytes.length ≤ r.buffer.length := by
      rw [Received.length_buffer, Nat.zero_add]
      exact r.length_le
    rw [run, load_of_le hlen]
    simp only [bind, Except.bind]
    rw [store, if_pos (by simp)]
    exact ⟨_, _, rfl⟩

/-- The first command whose name has been received is run. -/
theorem process_buffer {cmds : List Command} (hcmds : ∀ c ∈ cmds, c ∈ mCmds) :
    ∃ p, process graphFile r.buffer r.bytes.length cmds = .ok p ∧
      p.ran = cmds.find? (fun c => decide (c.name <+: r.bytes)) ∧
      (p.ran = none → p.answer = { close := true, handled := false, response := "" }) := by
  induction cmds with
  | nil => exact ⟨_, rfl, rfl, fun _ => rfl⟩
  | cons c cmds ih =>
    obtain ⟨hnul, hlen, -⟩ := mCmds_names c (hcmds c List.mem_cons_self)
    have hload : load r.buffer 0 c.name.length = .ok (r.buffer.take c.name.length) :=
      load_of_le (by rwa [Received.length_buffer, Nat.zero_add])
    rw [process, hload]
    simp only [bind, Except.bind, take_buffer_eq_iff hnul]
    by_cases hc : c.name <+: r.bytes
    · obtain ⟨answer, recvData, hrun⟩ := c.handler.run_ok graphFile r
      rw [if_pos hc, hrun,
        List.find?_cons_of_pos (p := fun c : Command => decide (c.name <+: r.bytes))
          (decide_eq_true hc)]
      exact ⟨_, rfl, rfl, fun h => absurd h (Option.some_ne_none c)⟩
    · rw [if_neg hc, List.find?_cons_of_neg (by simpa using hc)]
      exact ih fun d hd => hcmds d (List.mem_cons_of_mem c hd)

/-- What has been received is dispatched iff it leaves room for the terminator. -/
theorem dispatches_iff (r : Received) : Dispatches r ↔ r.bytes.length < sessionRecvBufLen := by
  constructor
  · intro h
    obtain ⟨p, hp, -⟩ := h (fun _ => none) mCmds (List.Perm.refl _)
    by_contra hlen
    rw [handleReceived, storeAt_of_le (by rw [Received.length_buffer]; omega)] at hp
    cases hp
  · intro hlen graphFile cmds hperm
    obtain ⟨p, hp, hran, hanswer⟩ := process_buffer graphFile (r := r)
      fun c hc => hperm.mem_iff.1 hc
    have hsome (c : Command) : p.ran = some c ↔ c ∈ mCmds ∧ c.name <+: r.bytes := by
      rw [hran, find?_eq_some_iff_of_unique, hperm.mem_iff, decide_eq_true_iff]
      intro c hc d hd hcb hdb
      exact mCmds_unique (hperm.mem_iff.1 hc) (hperm.mem_iff.1 hd) (of_decide_eq_true hcb)
        (of_decide_eq_true hdb)
    refine ⟨p, ?_, fun c hc => ?_, fun hnone => hanswer ?_⟩
    · rw [handleReceived, store_terminator hlen]
      exact hp
    · rw [hsome, and_iff_right hc]
    · rw [Option.eq_none_iff_forall_ne_some]
      exact fun c hc => hnone c ((hsome c).1 hc).1 ((hsome c).1 hc).2

/-- A read that fills the buffer. -/
def filled : Received where
  bytes := List.replicate sessionRecvBufLen 'A'
  length_le := Nat.le_of_eq List.length_replicate

/-- The terminator is stored behind the buffer. -/
theorem handleReceived_filled :
    handleReceived (fun _ => none) mCmds filled = .error .store := by
  rw [handleReceived, storeAt_of_le]
  · rfl
  · rw [Received.length_buffer]
    exact Nat.le_of_eq List.length_replicate.symm

end QustomKeyboard
