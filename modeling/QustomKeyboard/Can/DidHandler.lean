import QustomKeyboard.Can.DidGrid
import QustomKeyboard.Theory.Bytes

/-!
# Reading and writing DIDs

The worker of the DIDs asks for them one by one: in a round of its loop (`readRound`), it opens
an extended session and sends the request for the DID at the front of the queue. What the ECU
answers is any, and so is when the worker is stopped: the rounds of a run, and what is waited for
in them, are given as lists. Nothing is added to the queue while the loop is running.

A DID leaves the queue when it has been answered, positively or with a rejection. So, in every
run, the queue loses what has been answered from its front, or is given up
(`handleDidReading_queue`). If every request is answered, it is emptied in order
(`handleDidReading_drains`), and if the session is not, it is given up after some rounds
(`handleDidReading_gives_up`). But while the session is opened and the DID is not answered, the
others are never asked for (`handleDidReading_starves`).

What is stored of an answer is not always what has been sent: of the longer numbers, it is only
whether they are zero, or nothing, and the bytes of a text lack the last three
(`responseText_stored`).

A DID that is to be written is forgotten, whether or not the session could be opened for it
(`handleDidWriting_sent`).

How often a session is tried (`MAX_EXTENDED_SESSION_RETRIES`), and the texts of byte arrays
(`utils::ConvertHexBufferToString`), are not known. The characters stand for the bytes.
-/

namespace QustomKeyboard

open Theory

/-- What has been received, when it has been waited for: the buffer and its length. -/
structure IsoTpResponse where
  buffer : ℕ → UInt8
  len : UInt16

/-- The frame that opens an extended session. -/
def sessionFrame : List UInt8 := [0x10, 0x03]

/-- The frame of a service and a DID: `did >> 8 & 0xFF` and `did & 0xFF`. -/
def didFrame (service : UInt8) (did : UInt16) : List UInt8 :=
  [service, (did >>> 8 &&& 0xFF).toUInt8, (did &&& 0xFF).toUInt8]

/-- The worker, as far as it is about reading. -/
structure DidReader where
  /-- `m_PendingDidReads` -/
  pending : List UInt16
  didList : DidMap
  /-- `m_UpdatedDids` -/
  updated : List UInt16
  /-- The frames that have been sent to the ECU. -/
  sent : List (List UInt8)
  /-- `extended_session_retry_count` -/
  retryCount : UInt8

section

variable (hexText : List UInt8 → List Char) (maxRetries : ℕ)

/-- `std::string(m_IsoTpBuffer + 3, m_IsoTpBuffer + (m_IsoTpBufLen - 3))`, or nothing if it
    throws. -/
def responseBytes (r : IsoTpResponse) : Option (List UInt8) :=
  if 6 ≤ r.len.toNat then some ((List.range (r.len.toNat - 6)).map fun i => r.buffer (3 + i))
  else none

/-- The text of a value in `ProcessReadDidResponse`, or nothing if it throws. The bytes of a
    number are combined by `||`. -/
def responseText (e : DidEntry) (r : IsoTpResponse) : Option (List Char) :=
  match e.type with
  | .ui8 => some (hexadecimal (r.buffer 3).toNat)
  | .ui16 => some (hexadecimal (if r.buffer 3 ≠ 0 ∨ r.buffer 4 ≠ 0 then 1 else 0))
  | .ui32 => some (hexadecimal (if r.buffer 3 ≠ 0 ∨ r.buffer 4 ≠ 0 ∨ r.buffer 5 ≠ 0 ∨
      r.buffer 6 ≠ 0 then 1 else 0))
  | .ui64 | .invalid => some e.valueStr
  | .string => (responseBytes r).map (·.map fun b => Char.ofNat b.toNat)
  | .bytearray => (responseBytes r).map hexText

namespace DidReader

/-- `SendUdsFrameAndWaitForResponse` and `WaitForResponse`: the frame that is sent. The handler of
    the CAN frames is there: without it, nothing is sent, and nothing is received. -/
def send (s : DidReader) (frame : List UInt8) : DidReader := { s with sent := s.sent ++ [frame] }

/-- `m_UpdatedDids.push_back` -/
def report (s : DidReader) (did : UInt16) : DidReader := { s with updated := s.updated ++ [did] }

/-- What is written into an entry. -/
def set (s : DidReader) (did : UInt16) (r : DidReading) : DidReader :=
  { s with didList := s.didList.read did r }

/-- `m_PendingDidReads.pop_front` -/
def pop (s : DidReader) : DidReader := { s with pending := s.pending.tail }

/-- `did_it->nrc = nrc` -/
def setNrc (s : DidReader) (e : DidEntry) (nrc : UInt16) : DidReader :=
  s.set e.id ⟨e.valueStr, nrc, e.lastUpdate⟩

/-- `ProcessReadDidResponse`, or nothing if it throws. -/
def processReadDidResponse (s : DidReader) (e : DidEntry) (r : IsoTpResponse) (now : List Char) :
    Option DidReader := do
  let text ← responseText hexText e r
  return ((s.set e.id ⟨text, 0, some now⟩).pop).report e.id

/-- `ProcessRejectedNrc` -/
def processRejectedNrc (s : DidReader) (e : DidEntry) (nrc : UInt16) (now : List Char) :
    DidReader :=
  (s.set e.id ⟨e.valueStr, nrc, some now⟩).pop

/-- The loop that waits while the response is pending, over what is received until the worker is
    stopped. -/
def waitPending (e : DidEntry) (now : List Char) :
    List (Option IsoTpResponse) → DidReader → Option DidReader
  | [], s => some s
  | none :: _, s => some s
  | some r :: rs, s =>
    if r.buffer 0 = 0x62 then processReadDidResponse hexText s e r now
    else if r.buffer 1 = 0x22 ∧ r.buffer 2 = 0x78 then
      waitPending e now rs ((s.setNrc e 0x78).report e.id)
    else if r.buffer 2 = 0x10 then some (s.processRejectedNrc e 0x10 now)
    else if r.buffer 2 = 0x22 ∧ 0x11 ≤ r.buffer 2 ∧ r.buffer 2 ≤ 0x93 then
      some (s.set e.id ⟨e.valueStr, (r.buffer 2).toUInt16, some now⟩)
    else waitPending e now rs (s.report e.id)

end DidReader

/-- What happens in a round of the loop in `HandleDidReading`. -/
structure ReadRound where
  /-- Something has been received for the session. -/
  session : Bool
  /-- What has been received for the DID. -/
  read : Option IsoTpResponse
  /-- What has been received while the response was pending, until the worker was stopped. -/
  waits : List (Option IsoTpResponse)
  /-- The local time. -/
  now : List Char

namespace DidReader

/-- A DID is asked for: the worker, or nothing if it throws, or if there is no entry of the DID;
    and whether the loop goes on. -/
def askForDid (s : DidReader) (did : UInt16) (r : ReadRound) : Option (DidReader × Bool) := do
  let e ← s.didList.find did
  let s := send { s with retryCount := 0 } (didFrame 0x22 e.id)
  match r.read with
  | none => return (s, true)
  | some resp =>
    if resp.buffer 0 = 0x62 then
      return (← processReadDidResponse hexText s e resp r.now, true)
    else if resp.buffer 0 = 0x7F then
      if resp.buffer 1 = 0x22 ∧ resp.buffer 2 = 0x78 then
        return ((← waitPending hexText e r.now r.waits s).report did, true)
      else if resp.buffer 2 = 0x10 then
        return ((s.processRejectedNrc e 0x10 r.now).report did, true)
      else if resp.buffer 2 = 0x22 ∧ 0x11 ≤ resp.buffer 2 ∧ resp.buffer 2 ≤ 0x93 then
        return (s.set e.id ⟨e.valueStr, (resp.buffer 2).toUInt16, some r.now⟩, false)
      else
        return ((s.processRejectedNrc e (resp.buffer 2).toUInt16 r.now).report did, true)
    else return (s, true)

/-- There was no response for the session. -/
def retry (s : DidReader) : DidReader × Bool :=
  if maxRetries < (s.retryCount + 1).toNat then ({ s with pending := [], retryCount := 0 }, false)
  else ({ s with retryCount := s.retryCount + 1 }, true)

/-- A round of the loop, with the DID at the front of the queue. -/
def readRound (s : DidReader) (did : UInt16) (r : ReadRound) : Option (DidReader × Bool) :=
  let s := s.send sessionFrame
  if r.session then askForDid hexText s did r else some (s.retry maxRetries)

/-- `HandleDidReading`, over the rounds until the worker is stopped, from any count of the retries:
    the loop of the source begins with zero. -/
def handleDidReading : List ReadRound → DidReader → Option DidReader
  | [], s => some s
  | r :: rs, s =>
    match s.pending with
    | [] => some s
    | did :: _ => (readRound hexText maxRetries s did r).bind fun t =>
      if t.2 then handleDidReading rs t.1 else some t.1

end DidReader

end

/-! ## What a round can do -/

@[simp] theorem DidEntry.type_read (did : UInt16) (r : DidReading) (e : DidEntry) :
    (e.read did r).type = e.type := by
  rw [DidEntry.read]
  split_ifs <;> rfl

theorem DidMap.find_read (m : DidMap) (did : UInt16) (r : DidReading) (d : UInt16) :
    (m.read did r).find d = (m.find d).map (DidEntry.read did r) := by
  rw [DidMap.find, DidMap.read, List.find?_map, DidMap.find]
  congr 2
  funext e
  rw [Function.comp_apply, DidEntry.id_read]

theorem DidMap.find_read_of_ne {m : DidMap} {did d : UInt16} (h : d ≠ did) (r : DidReading) :
    (m.read did r).find d = m.find d := by
  rw [DidMap.find_read]
  cases he : m.find d with
  | none => rfl
  | some e =>
    have hid : e.id = d := by simpa using List.find?_some he
    rw [Option.map_some, DidEntry.read, if_neg (by rwa [hid])]

theorem DidMap.id_of_find {m : DidMap} {did : UInt16} {e : DidEntry} (h : m.find did = some e) :
    e.id = did := by
  simpa using List.find?_some h

namespace DidReader

variable {hexText : List UInt8 → List Char} {maxRetries : ℕ}

/-- Nothing changes for the other DIDs, and only this one is reported. -/
structure OnlyFor (did : UInt16) (s s' : DidReader) : Prop where
  find : ∀ d ≠ did, s'.didList.find d = s.didList.find d
  updated : ∃ new, s'.updated = s.updated ++ new ∧ ∀ d ∈ new, d = did

/-- The front may leave the queue, and only if it has been answered. -/
structure Serves (did : UInt16) (s s' : DidReader) : Prop extends OnlyFor did s s' where
  pending : s'.pending = s.pending ∨ s'.pending = s.pending.tail

variable {did : UInt16} {s s' s'' : DidReader}

namespace OnlyFor

theorem of_eq (hlist : s'.didList = s.didList) (hupdated : s'.updated = s.updated) :
    OnlyFor did s s' :=
  ⟨fun _ _ => by rw [hlist], [], by rw [hupdated, List.append_nil],
    fun _ hd => absurd hd List.not_mem_nil⟩

theorem refl (did : UInt16) (s : DidReader) : OnlyFor did s s := of_eq rfl rfl

theorem trans (h : OnlyFor did s s') (h' : OnlyFor did s' s'') : OnlyFor did s s'' := by
  obtain ⟨new, hnew, hall⟩ := h.updated
  obtain ⟨new', hnew', hall'⟩ := h'.updated
  refine ⟨fun d hd => (h'.find d hd).trans (h.find d hd), new ++ new', ?_, fun d hd => ?_⟩
  · rw [hnew', hnew, List.append_assoc]
  · exact (List.mem_append.1 hd).elim (hall d) (hall' d)

theorem report (h : OnlyFor did s s') : OnlyFor did s (s'.report did) :=
  h.trans ⟨fun _ _ => rfl, [did], rfl, fun _ => List.eq_of_mem_singleton⟩

theorem set (h : OnlyFor did s s') (r : DidReading) : OnlyFor did s (s'.set did r) :=
  h.trans ⟨fun _ hd => DidMap.find_read_of_ne hd r, [], (List.append_nil _).symm,
    fun _ hd => absurd hd List.not_mem_nil⟩

theorem pop (h : OnlyFor did s s') : OnlyFor did s s'.pop := ⟨h.find, h.updated⟩

end OnlyFor

/-- What is left of the queue after a response has been processed. -/
theorem exists_of_processReadDidResponse {e : DidEntry} {r : IsoTpResponse} {now : List Char}
    (h : processReadDidResponse hexText s e r now = some s') :
    ∃ text, responseText hexText e r = some text ∧
      s' = ((s.set e.id ⟨text, 0, some now⟩).pop).report e.id := by
  obtain ⟨text, htext, h⟩ := Option.bind_eq_some_iff.1 h
  exact ⟨text, htext, (Option.some.inj h).symm⟩

/-- While the response is pending, the front may be answered. -/
theorem serves_of_waitPending {e : DidEntry} {now : List Char}
    {rs : List (Option IsoTpResponse)} (h : waitPending hexText e now rs s = some s') :
    Serves e.id s s' := by
  induction rs generalizing s with
  | nil =>
    obtain rfl := Option.some.inj h
    exact ⟨.refl _ _, .inl rfl⟩
  | cons r rs ih =>
    cases r with
    | none =>
      obtain rfl := Option.some.inj h
      exact ⟨.refl _ _, .inl rfl⟩
    | some r =>
      rw [waitPending] at h
      split_ifs at h with h₀ h₁ h₂ h₃
      · obtain ⟨text, -, rfl⟩ := exists_of_processReadDidResponse h
        exact ⟨((OnlyFor.refl _ _).set _).pop.report, .inr rfl⟩
      · have hrest := ih h
        exact ⟨((OnlyFor.refl _ _).set _).report.trans hrest.toOnlyFor, hrest.pending⟩
      · obtain rfl := Option.some.inj h
        exact ⟨((OnlyFor.refl _ _).set _).pop, .inr rfl⟩
      · obtain rfl := Option.some.inj h
        exact ⟨(OnlyFor.refl _ _).set _, .inl rfl⟩
      · have hrest := ih h
        exact ⟨(OnlyFor.refl _ _).report.trans hrest.toOnlyFor, hrest.pending⟩

/-- Asking for the front serves it, and it is reported if it leaves the queue. -/
theorem serves_of_askForDid {r : ReadRound} {goesOn : Bool}
    (h : askForDid hexText s did r = some (s', goesOn)) :
    Serves did s s' ∧ (s'.pending = s.pending ∨ s.updated.length < s'.updated.length) := by
  obtain ⟨e, he, h⟩ := Option.bind_eq_some_iff.1 h
  obtain rfl := DidMap.id_of_find he
  have hsent : OnlyFor e.id s (send { s with retryCount := 0 } (didFrame 0x22 e.id)) :=
    .of_eq rfl rfl
  cases hread : r.read with
  | none =>
    simp only [hread] at h
    obtain ⟨rfl, -⟩ := Prod.mk.inj (Option.some.inj h)
    exact ⟨⟨hsent, .inl rfl⟩, .inl rfl⟩
  | some resp =>
    simp only [hread] at h
    split_ifs at h with h₀ h₁ h₂ h₃ h₄
    · obtain ⟨_, hprocess, h⟩ := Option.bind_eq_some_iff.1 h
      obtain ⟨text, -, rfl⟩ := exists_of_processReadDidResponse hprocess
      obtain ⟨rfl, -⟩ := Prod.mk.inj (Option.some.inj h)
      exact ⟨⟨(hsent.set _).pop.report, .inr rfl⟩,
        .inr (by simp [DidReader.report, send, set, pop])⟩
    · obtain ⟨t, hwait, h⟩ := Option.bind_eq_some_iff.1 h
      have hserves := serves_of_waitPending hwait
      obtain ⟨rfl, -⟩ := Prod.mk.inj (Option.some.inj h)
      obtain ⟨new, hnew, -⟩ := hserves.updated
      refine ⟨⟨(hsent.trans hserves.toOnlyFor).report, hserves.pending⟩, .inr ?_⟩
      rw [DidReader.report, hnew]
      simp [send]
    · obtain ⟨rfl, -⟩ := Prod.mk.inj (Option.some.inj h)
      exact ⟨⟨(hsent.set _).pop.report, .inr rfl⟩,
        .inr (by simp [DidReader.report, processRejectedNrc, send, set, pop])⟩
    · obtain ⟨rfl, -⟩ := Prod.mk.inj (Option.some.inj h)
      exact ⟨⟨hsent.set _, .inl rfl⟩, .inl rfl⟩
    · obtain ⟨rfl, -⟩ := Prod.mk.inj (Option.some.inj h)
      exact ⟨⟨(hsent.set _).pop.report, .inr rfl⟩,
        .inr (by simp [DidReader.report, processRejectedNrc, send, set, pop])⟩
    · obtain ⟨rfl, -⟩ := Prod.mk.inj (Option.some.inj h)
      exact ⟨⟨hsent, .inl rfl⟩, .inl rfl⟩

/-- A round serves the DID at the front, which is reported if it leaves the queue, or gives the
    queue up. -/
theorem cases_of_readRound {r : ReadRound} {goesOn : Bool}
    (h : readRound hexText maxRetries s did r = some (s', goesOn)) :
    Serves did s s' ∧ (s'.pending = s.pending ∨ s.updated.length < s'.updated.length) ∨
      OnlyFor did s s' ∧ s'.pending = [] ∧ goesOn = false := by
  rw [readRound] at h
  by_cases hsession : r.session = true
  · rw [if_pos hsession] at h
    obtain ⟨hserves, hreported⟩ := serves_of_askForDid h
    exact .inl ⟨⟨⟨hserves.find, hserves.updated⟩, hserves.pending⟩, hreported⟩
  · rw [if_neg hsession, retry] at h
    split_ifs at h
    · obtain ⟨rfl, rfl⟩ := Prod.mk.inj (Option.some.inj h)
      exact .inr ⟨.of_eq rfl rfl, rfl, rfl⟩
    · obtain ⟨rfl, rfl⟩ := Prod.mk.inj (Option.some.inj h)
      exact .inl ⟨⟨.of_eq rfl rfl, .inl rfl⟩, .inl rfl⟩

/-! ## Runs -/

/-- What a run has done: the DIDs `done` have left the queue `done ++ rest`, and have been
    reported in this order, with nothing reported but these and the front. -/
structure Ran (done rest : List UInt16) (s s' : DidReader) : Prop where
  split : s.pending = done ++ rest
  pending : s'.pending = rest ∨ s'.pending = []
  updated : ∃ new, s'.updated = s.updated ++ new ∧ done.Sublist new ∧
    ∀ d ∈ new, d ∈ done ∨ rest.head? = some d
  find : ∀ d, d ∉ done → rest.head? ≠ some d → s'.didList.find d = s.didList.find d

namespace Ran

variable {t : DidReader} {tl done rest : List UInt16}

theorem refl (s : DidReader) : Ran [] s.pending s s :=
  ⟨rfl, .inl rfl, ⟨[], (List.append_nil _).symm, List.nil_sublist _,
    fun _ hd => absurd hd List.not_mem_nil⟩, fun _ _ _ => rfl⟩

/-- A round that gives the queue up. -/
theorem of_given_up (hs : s.pending = did :: tl) (h : OnlyFor did s s')
    (hpending : s'.pending = []) : Ran [] s.pending s s' := by
  obtain ⟨new, hnew, hall⟩ := h.updated
  refine ⟨rfl, .inr hpending, ⟨new, hnew, List.nil_sublist _, fun d hd => .inr ?_⟩,
    fun d _ hd => ?_⟩
  · rw [hs, hall d hd, List.head?_cons]
  · exact h.find d fun heq => hd (by rw [hs, heq, List.head?_cons])

/-- A round that keeps the queue, before a run. -/
theorem of_kept (hs : s.pending = did :: tl) (h : OnlyFor did s t) (ht : t.pending = s.pending)
    (hrun : Ran done rest t s') : Ran done rest s s' := by
  obtain ⟨new, hnew, hall⟩ := h.updated
  obtain ⟨new', hnew', hsub, hall'⟩ := hrun.updated
  have hsplit : did :: tl = done ++ rest := by rw [← hs, ← ht, hrun.split]
  have hfront : did ∈ done ∨ rest.head? = some did := by
    cases done with
    | nil =>
      rw [List.nil_append] at hsplit
      exact .inr (by rw [← hsplit, List.head?_cons])
    | cons d done =>
      obtain ⟨rfl, -⟩ := List.cons.inj hsplit
      exact .inl List.mem_cons_self
  refine ⟨by rw [← ht, hrun.split], hrun.pending, ⟨new ++ new', ?_, ?_, fun d hd => ?_⟩,
    fun d hd hd' => ?_⟩
  · rw [hnew', hnew, List.append_assoc]
  · exact hsub.trans (List.sublist_append_right _ _)
  · rcases List.mem_append.1 hd with hd | hd
    · rwa [hall d hd]
    · exact hall' d hd
  · rw [hrun.find d hd hd']
    refine h.find d ?_
    rintro rfl
    exact hfront.elim hd hd'

/-- A round that has served the front, before a run. -/
theorem of_popped (hs : s.pending = did :: tl) (h : OnlyFor did s t) (ht : t.pending = tl)
    (hreported : s.updated.length < t.updated.length) (hrun : Ran done rest t s') :
    Ran (did :: done) rest s s' := by
  obtain ⟨new, hnew, hall⟩ := h.updated
  obtain ⟨new', hnew', hsub, hall'⟩ := hrun.updated
  have hmem : did ∈ new := by
    cases new with
    | nil =>
      rw [hnew, List.append_nil] at hreported
      exact absurd hreported (Nat.lt_irrefl _)
    | cons d new =>
      rw [← hall d List.mem_cons_self]
      exact List.mem_cons_self
  refine ⟨?_, hrun.pending, ⟨new ++ new', ?_, ?_, fun d hd => ?_⟩, fun d hd hd' => ?_⟩
  · rw [hs, List.cons_append, ← hrun.split, ht]
  · rw [hnew', hnew, List.append_assoc]
  · exact (List.singleton_sublist.2 hmem).append hsub
  · rcases List.mem_append.1 hd with hd | hd
    · exact .inl (by rw [hall d hd]; exact List.mem_cons_self)
    · exact (hall' d hd).imp_left (List.mem_cons_of_mem _)
  · rw [List.mem_cons, not_or] at hd
    rw [hrun.find d hd.2 hd', h.find d hd.1]

end Ran

/-- In every run, the queue loses what has been answered from its front, or is given up. -/
theorem handleDidReading_queue {rs : List ReadRound}
    (h : handleDidReading hexText maxRetries rs s = some s') : ∃ done rest, Ran done rest s s' := by
  induction rs generalizing s with
  | nil =>
    obtain rfl := Option.some.inj h
    exact ⟨[], s.pending, .refl s⟩
  | cons r rs ih =>
    cases hs : s.pending with
    | nil =>
      simp only [handleDidReading, hs] at h
      obtain rfl := Option.some.inj h
      exact ⟨[], s.pending, .refl s⟩
    | cons did tl =>
      simp only [handleDidReading, hs] at h
      obtain ⟨⟨t, goesOn⟩, hround, h⟩ := Option.bind_eq_some_iff.1 h
      rcases cases_of_readRound hround with ⟨hserves, hreported⟩ | ⟨honly, hempty, rfl⟩
      · have hrest : ∃ done rest, Ran done rest t s' := by
          cases goesOn with
          | false =>
            obtain rfl := Option.some.inj h
            exact ⟨[], t.pending, .refl t⟩
          | true => exact ih h
        obtain ⟨done, rest, hrun⟩ := hrest
        rcases hserves.pending with hkept | hpopped
        · exact ⟨done, rest, hrun.of_kept hs hserves.toOnlyFor hkept⟩
        · rw [hs, List.tail_cons] at hpopped
          refine ⟨did :: done, rest, hrun.of_popped hs hserves.toOnlyFor hpopped ?_⟩
          refine hreported.resolve_left fun hkept => ?_
          rw [hpopped, hs] at hkept
          exact List.cons_ne_self _ _ hkept.symm
      · obtain rfl := Option.some.inj h
        exact ⟨[], s.pending, .of_given_up hs honly hempty⟩

/-! ## Every DID is answered -/

/-- The round answers a DID of the type with a value: where the value is a text of bytes, it has
    three of them at least. -/
structure Positive (type : DidEntryType) (r : ReadRound) : Prop where
  session : r.session = true
  response : ∃ resp, r.read = some resp ∧ resp.buffer 0 = 0x62 ∧
    (type = .string ∨ type = .bytearray → 6 ≤ resp.len.toNat)

/-- The frames of a round. -/
def askFrames (did : UInt16) : List (List UInt8) := [sessionFrame, didFrame 0x22 did]

variable (hexText) in
theorem exists_responseText {e : DidEntry} {resp : IsoTpResponse}
    (h : e.type = .string ∨ e.type = .bytearray → 6 ≤ resp.len.toNat) :
    ∃ text, responseText hexText e resp = some text := by
  have hbytes (hlen : 6 ≤ resp.len.toNat) : ∃ bytes, responseBytes resp = some bytes :=
    ⟨_, if_pos hlen⟩
  cases htype : e.type with
  | string =>
    obtain ⟨bytes, hb⟩ := hbytes (h (.inl htype))
    exact ⟨_, by simp only [responseText, htype, hb]; rfl⟩
  | bytearray =>
    obtain ⟨bytes, hb⟩ := hbytes (h (.inr htype))
    exact ⟨_, by simp only [responseText, htype, hb]; rfl⟩
  | _ => exact ⟨_, by simp only [responseText, htype]; rfl⟩

/-- The front has been answered by a reading. -/
def answered (s : DidReader) (did : UInt16) (r : DidReading) : DidReader :=
  { s with
    pending := s.pending.tail
    didList := s.didList.read did r
    updated := s.updated ++ [did]
    sent := s.sent ++ askFrames did
    retryCount := 0 }

variable (maxRetries) in
/-- A round in which the front is answered. -/
theorem readRound_of_positive {e : DidEntry} {r : ReadRound} {resp : IsoTpResponse}
    {text : List Char} (he : s.didList.find did = some e) (h : Positive e.type r)
    (hread : r.read = some resp) (htext : responseText hexText e resp = some text) :
    readRound hexText maxRetries s did r = some (s.answered did ⟨text, 0, some r.now⟩, true) := by
  obtain ⟨resp', hread', hpositive, -⟩ := h.response
  obtain rfl := Option.some.inj (hread.symm.trans hread')
  obtain rfl := DidMap.id_of_find he
  rw [readRound, if_pos h.session, askForDid]
  change (s.didList.find e.id).bind _ = _
  rw [he]
  simp only [Option.bind_some, hread, if_pos hpositive]
  change (Option.bind (Option.bind (responseText hexText e resp) _) _) = _
  rw [htext]
  simp [answered, send, set, pop, report, askFrames]

/-- A reading of another DID makes no difference to the rounds that answer a queue. -/
theorem forall₂_positive_read {m : DidMap} {dids : List UInt16} {rs : List ReadRound}
    (did : UInt16) (r : DidReading)
    (h : List.Forall₂ (fun d q => ∃ e, m.find d = some e ∧ Positive e.type q) dids rs) :
    List.Forall₂ (fun d q => ∃ e, (m.read did r).find d = some e ∧ Positive e.type q) dids rs := by
  refine h.imp fun d q ⟨e, he, hpositive⟩ => ⟨e.read did r, ?_, ?_⟩
  · rw [DidMap.find_read, he, Option.map_some]
  · rwa [DidEntry.type_read]

/-- If every DID of the queue is answered, the queue is emptied in its order: every DID is asked
    for and reported once, and its entry gets the value that has been answered. -/
theorem handleDidReading_drains {rs more : List ReadRound}
    (h : List.Forall₂ (fun did r => ∃ e, s.didList.find did = some e ∧ Positive e.type r)
      s.pending rs) :
    ∃ s', handleDidReading hexText maxRetries (rs ++ more) s = some s' ∧ s'.pending = [] ∧
      s'.updated = s.updated ++ s.pending ∧ s'.sent = s.sent ++ s.pending.flatMap askFrames ∧
      (∀ d ∉ s.pending, s'.didList.find d = s.didList.find d) ∧
      (s.pending.Nodup → ∀ p ∈ s.pending.zip rs, ∀ e resp text,
        s.didList.find p.1 = some e → p.2.read = some resp →
        responseText hexText e resp = some text → s'.didList.find p.1 =
          some { e with valueStr := text, nrc := 0, lastUpdate := some p.2.now }) := by
  induction rs generalizing s with
  | nil =>
    obtain hs := List.forall₂_nil_right_iff.1 h
    rw [hs]
    refine ⟨s, ?_, hs, (List.append_nil _).symm, (List.append_nil _).symm, fun _ _ => rfl,
      fun _ p hp => absurd hp List.not_mem_nil⟩
    cases more with
    | nil => rfl
    | cons r more => simp only [List.nil_append, handleDidReading, hs]
  | cons r rs ih =>
    obtain ⟨did, dids, ⟨e, he, hpositive⟩, hrest, hs⟩ := List.forall₂_cons_right_iff.1 h
    obtain ⟨resp, hread, -, hlen⟩ := hpositive.response
    obtain ⟨text, htext⟩ := exists_responseText hexText hlen
    have hround := readRound_of_positive maxRetries he hpositive hread htext
    have hdids : (s.answered did ⟨text, 0, some r.now⟩).pending = dids := by
      rw [answered, hs, List.tail_cons]
    -- The rest of the queue is answered from the state after this round on.
    obtain ⟨s', hrun, hpending, hupdated, hsent, hkept, hvalues⟩ :=
      ih (s := s.answered did ⟨text, 0, some r.now⟩) (by
        rw [hdids]
        exact forall₂_positive_read did _ hrest)
    rw [hdids] at hupdated hsent hkept hvalues
    refine ⟨s', ?_, hpending, ?_, ?_, fun d hd => ?_, fun hnodup p hp e' resp' text' he' hread'
      htext' => ?_⟩
    · simp only [List.cons_append, handleDidReading, hs]
      rw [hround]
      exact hrun
    · rw [hupdated, hs, answered, List.append_assoc]
      rfl
    · rw [hsent, hs, answered, List.append_assoc]
      rfl
    · rw [hs, List.mem_cons, not_or] at hd
      rw [hkept d hd.2, answered, DidMap.find_read_of_ne hd.1]
    · rw [hs, List.nodup_cons] at hnodup
      rw [hs, List.zip_cons_cons, List.mem_cons] at hp
      rcases hp with rfl | hp
      · -- The entry of this round: no later round is for the same DID.
        obtain rfl := Option.some.inj (he'.symm.trans he)
        obtain rfl := Option.some.inj (hread'.symm.trans hread)
        obtain rfl := Option.some.inj (htext'.symm.trans htext)
        rw [hkept did hnodup.1, answered, DidMap.find_read, he, Option.map_some, DidEntry.read,
          if_pos (DidMap.id_of_find he)]
      · have hne : p.1 ≠ did := fun heq => hnodup.1 (heq ▸ (List.of_mem_zip hp).1)
        exact hvalues hnodup.2 p hp e' resp' text'
          (by rw [answered, DidMap.find_read_of_ne hne, he']) hread' htext'

/-! ## Nobody answers -/

variable (hexText) in
/-- The rounds in which the session is not opened are counted, until the queue is given up. -/
theorem handleDidReading_retries {rs : List ReadRound} {k : ℕ} (hs : s.pending ≠ [])
    (hretry : s.retryCount.toNat = k) (hk : k ≤ maxRetries) (hmax : maxRetries < 255)
    (h : ∀ r ∈ rs, r.session = false) :
    handleDidReading hexText maxRetries rs s = some (if k + rs.length ≤ maxRetries
      then { s with
        sent := s.sent ++ List.replicate rs.length sessionFrame
        retryCount := .ofNat (k + rs.length) }
      else { s with
        pending := []
        sent := s.sent ++ List.replicate (maxRetries + 1 - k) sessionFrame
        retryCount := 0 }) := by
  induction rs generalizing s k with
  | nil =>
    have hcount : UInt8.ofNat (k + 0) = s.retryCount := by
      rw [Nat.add_zero, ← hretry, UInt8.ofNat_toNat]
    rw [List.length_nil, if_pos (by omega), hcount, List.replicate_zero, List.append_nil]
    rfl
  | cons r rs ih =>
    rw [List.forall_mem_cons] at h
    obtain ⟨did, dids, hpending⟩ := List.exists_cons_of_ne_nil hs
    have hcount : (s.retryCount + 1).toNat = k + 1 := by
      have hadd : (s.retryCount + 1).toNat = (s.retryCount.toNat + 1) % 256 :=
        UInt8.toNat_add s.retryCount 1
      omega
    have hsession : ¬r.session = true := by simp [h.1]
    have hround : readRound hexText maxRetries s did r =
        some (if maxRetries < k + 1
          then ({ s.send sessionFrame with pending := [], retryCount := 0 }, false)
          else ({ s.send sessionFrame with retryCount := s.retryCount + 1 }, true)) := by
      rw [readRound, if_neg hsession, ← hcount]
      rfl
    simp only [handleDidReading, hpending]
    rw [List.length_cons]
    by_cases hlast : k = maxRetries
    · rw [if_pos (show maxRetries < k + 1 by omega)] at hround
      rw [hround, Option.bind_some, if_neg Bool.false_ne_true, if_neg (by omega),
        show maxRetries + 1 - k = 1 by omega]
      rfl
    · rw [if_neg (show ¬maxRetries < k + 1 by omega)] at hround
      rw [hround, Option.bind_some, if_pos rfl]
      refine (ih (s := { s.send sessionFrame with retryCount := s.retryCount + 1 }) hs hcount
        (by omega) h.2).trans ?_
      rw [show k + 1 + rs.length = k + (rs.length + 1) by omega]
      by_cases hle : k + (rs.length + 1) ≤ maxRetries
      · rw [if_pos hle, if_pos hle, List.replicate_succ, send, List.append_assoc, hpending]
        rfl
      · rw [if_neg hle, if_neg hle, show maxRetries + 1 - k = maxRetries + 1 - (k + 1) + 1 by omega,
          List.replicate_succ, send, List.append_assoc]
        rfl

/-- The queue is given up with the first session that is not opened after `maxRetries` ones, and
    not before. -/
theorem handleDidReading_gives_up {rs : List ReadRound} (hs : s.pending ≠ [])
    (hretry : s.retryCount = 0) (hmax : maxRetries < 255) (h : ∀ r ∈ rs, r.session = false) :
    handleDidReading hexText maxRetries rs s = some (if rs.length ≤ maxRetries
      then { s with
        sent := s.sent ++ List.replicate rs.length sessionFrame
        retryCount := .ofNat rs.length }
      else { s with
        pending := []
        sent := s.sent ++ List.replicate (maxRetries + 1) sessionFrame
        retryCount := 0 }) := by
  have hall := handleDidReading_retries hexText hs (by rw [hretry]; rfl)
    (Nat.zero_le maxRetries) hmax h
  rwa [Nat.zero_add] at hall

/-- While the session is opened and nothing is received for the DID at the front, or something
    that is no response to it, the worker asks for this DID for ever. -/
theorem handleDidReading_starves {rs : List ReadRound} {did : UInt16} {dids : List UInt16}
    (hs : s.pending = did :: dids) (hfind : did ∈ s.didList.ids)
    (h : ∀ r ∈ rs, r.session = true ∧
      ∀ resp ∈ r.read, resp.buffer 0 ≠ 0x62 ∧ resp.buffer 0 ≠ 0x7F) :
    handleDidReading hexText maxRetries rs s = some { s with
      sent := s.sent ++ (List.replicate rs.length (askFrames did)).flatten
      retryCount := if rs = [] then s.retryCount else 0 } := by
  obtain ⟨e, he⟩ := exists_find hfind
  obtain rfl := DidMap.id_of_find he
  induction rs generalizing s with
  | nil =>
    rw [List.length_nil, List.replicate_zero, List.flatten_nil, List.append_nil, if_pos rfl]
    rfl
  | cons r rs ih =>
    rw [List.forall_mem_cons] at h
    obtain ⟨⟨hsession, hread⟩, hrest⟩ := h
    have hround : readRound hexText maxRetries s e.id r =
        some ({ s with sent := s.sent ++ askFrames e.id, retryCount := 0 }, true) := by
      rw [readRound, if_pos hsession, askForDid]
      change (s.didList.find e.id).bind _ = _
      rw [he]
      cases hr : r.read with
      | none => simp [send, askFrames]
      | some resp =>
        obtain ⟨h₀, h₁⟩ := hread resp hr
        simp [h₀, h₁, send, askFrames]
    have := ih (s := { s with sent := s.sent ++ askFrames e.id, retryCount := 0 }) hrest hs hfind he
    simp only [handleDidReading, hs]
    rw [hround, Option.bind_some, if_pos rfl, this, if_neg (List.cons_ne_nil _ _),
      List.length_cons, List.replicate_succ, List.flatten_cons, List.append_assoc]
    by_cases hnil : rs = []
    · rw [if_pos hnil, hs]
    · rw [if_neg hnil, hs]

end DidReader

/-! ## Values -/

/-- The bytes of a response behind the service and the DID. -/
def dataBytes (r : IsoTpResponse) : List UInt8 :=
  (List.range (r.len.toNat - 3)).map fun i => r.buffer (3 + i)

/-- The text of the bytes as a value of the type: a number has its least significant byte first. -/
def valueText (hexText : List UInt8 → List Char) : DidEntryType → List UInt8 → List Char
  | .string, bs => bs.map fun b => Char.ofNat b.toNat
  | .bytearray, bs => hexText bs
  | _, bs => hexadecimal (ofLe bs)

/-- How many bytes the numbers of a type have. -/
def DidEntryType.width : DidEntryType → Option ℕ
  | .ui8 => some 1
  | .ui16 => some 2
  | .ui32 => some 4
  | .ui64 => some 8
  | .string | .bytearray | .invalid => none

theorem dataBytes_eq {r : IsoTpResponse} {n : ℕ} (h : r.len.toNat = n + 3) :
    dataBytes r = (List.range n).map fun i => r.buffer (3 + i) := by
  rw [dataBytes, h, Nat.add_sub_cancel]

theorem ofLe_ne_zero_iff (bs : List UInt8) : ofLe bs ≠ 0 ↔ ∃ b ∈ bs, b ≠ 0 := by
  induction bs with
  | nil => simp [ofLe]
  | cons b bs ih =>
    have hb : b.toNat = 0 ↔ b = 0 := UInt8.toNat_inj (b := 0)
    rw [List.exists_mem_cons_iff, ← ih, ofLe, ← not_iff_not, not_not, not_or, not_not, not_not,
      ← hb]
    omega

variable {hexText : List UInt8 → List Char} {e : DidEntry} {r : IsoTpResponse} {n : ℕ}

/-- What is stored for a number of two or four bytes: whether it is not zero. -/
theorem responseText_of_width (hwidth : e.type.width = some n) (hone : n ≠ 1) (height : n ≠ 8)
    (hlen : r.len.toNat = n + 3) :
    responseText hexText e r = some (hexadecimal (if ofLe (dataBytes r) ≠ 0 then 1 else 0)) := by
  rw [dataBytes_eq hlen]
  simp only [ofLe_ne_zero_iff]
  cases htype : e.type with
  | ui16 =>
    rw [htype] at hwidth
    obtain rfl := Option.some.inj hwidth
    simp [responseText, htype, List.range_succ]
  | ui32 =>
    rw [htype] at hwidth
    obtain rfl := Option.some.inj hwidth
    simp [responseText, htype, List.range_succ]
  | ui8 =>
    rw [htype] at hwidth
    exact absurd (Option.some.inj hwidth).symm hone
  | ui64 =>
    rw [htype] at hwidth
    exact absurd (Option.some.inj hwidth).symm height
  | _ =>
    rw [htype] at hwidth
    cases hwidth

/-- A number is stored as it has been sent iff it is a single byte, or it is zero or one, or it
    is one of eight bytes, for which nothing is stored, and has been there before. -/
theorem responseText_eq_number_iff (hwidth : e.type.width = some n) (hlen : r.len.toNat = n + 3) :
    responseText hexText e r = some (valueText hexText e.type (dataBytes r)) ↔
      n = 1 ∨ n < 8 ∧ ofLe (dataBytes r) ≤ 1 ∨
        n = 8 ∧ e.valueStr = valueText hexText e.type (dataBytes r) := by
  have hvalue : valueText hexText e.type (dataBytes r) = hexadecimal (ofLe (dataBytes r)) := by
    cases htype : e.type <;> first | rfl | (rw [htype] at hwidth; cases hwidth)
  rw [hvalue]
  by_cases hone : n = 1
  · subst hone
    refine iff_of_true ?_ (.inl rfl)
    have htype : e.type = .ui8 := by
      cases htype : e.type <;> rw [htype] at hwidth <;> first | rfl | cases hwidth
    rw [dataBytes_eq hlen]
    simp [responseText, htype, ofLe]
  rw [or_iff_right hone]
  by_cases height : n = 8
  · subst height
    have htype : e.type = .ui64 := by
      cases htype : e.type <;> rw [htype] at hwidth <;> first | rfl | cases hwidth
    rw [or_iff_right fun h => absurd h.1 (Nat.lt_irrefl 8), and_iff_right rfl, responseText, htype,
      Option.some.injEq]
  · have hlt : n < 8 := by
      cases htype : e.type <;> rw [htype] at hwidth <;> cases hwidth <;>
        first | decide | exact absurd rfl height
    rw [or_iff_left fun h => height h.1, and_iff_right hlt,
      responseText_of_width hwidth hone height hlen, Option.some.injEq]
    constructor
    · intro heq
      have := hexadecimal_inj heq
      split_ifs at this <;> omega
    · intro hle
      congr 1
      split_ifs <;> omega

/-- A text of bytes is stored without its last three ones, and there is an exception if it has
    less than these. -/
theorem responseText_of_bytes (htype : e.type = .string ∨ e.type = .bytearray)
    (hlen : 3 ≤ r.len.toNat) : responseText hexText e r = if 3 ≤ (dataBytes r).length
      then some (valueText hexText e.type ((dataBytes r).take ((dataBytes r).length - 3)))
      else none := by
  have hcount : (dataBytes r).length = r.len.toNat - 3 := by
    rw [dataBytes, List.length_map, List.length_range]
  have hbytes : responseBytes r = if 3 ≤ (dataBytes r).length
      then some ((dataBytes r).take ((dataBytes r).length - 3)) else none := by
    rw [responseBytes, hcount, dataBytes, ← List.map_take, List.take_range,
      show r.len.toNat - 3 - 3 = r.len.toNat - 6 by omega, Nat.min_eq_left (by omega)]
    split_ifs <;> first | rfl | omega
  rcases htype with htype | htype
  all_goals
    simp only [responseText, htype, hbytes]
    split_ifs <;> rfl

/-- What is stored of a response, for every type: a number as it has been sent iff it is a single
    byte, or zero or one, or one of eight bytes that has been there before; a text of bytes without
    its last three ones, or nothing if it has less than these; and what has been there before for
    an entry without a type. -/
theorem responseText_stored (hexText : List UInt8 → List Char) (e : DidEntry) (r : IsoTpResponse)
    (hlen : 3 ≤ r.len.toNat) :
    (∀ n, e.type.width = some n → r.len.toNat = n + 3 →
      (responseText hexText e r = some (valueText hexText e.type (dataBytes r)) ↔
        n = 1 ∨ n < 8 ∧ ofLe (dataBytes r) ≤ 1 ∨
          n = 8 ∧ e.valueStr = valueText hexText e.type (dataBytes r))) ∧
    (e.type = .string ∨ e.type = .bytearray → responseText hexText e r =
      if 3 ≤ (dataBytes r).length
        then some (valueText hexText e.type ((dataBytes r).take ((dataBytes r).length - 3)))
        else none) ∧
    (e.type = .invalid → responseText hexText e r = some e.valueStr) := by
  refine ⟨fun n => responseText_eq_number_iff, fun htype => responseText_of_bytes htype hlen,
    fun htype => ?_⟩
  rw [responseText, htype]

/-! ## Writing -/

/-- The worker, as far as it is about writing. -/
structure DidWriter where
  /-- `m_PendingDidWrites`: the values by their DIDs. -/
  pendingWrites : List (UInt16 × List UInt8)
  /-- The frames that have been sent to the ECU. -/
  sent : List (List UInt8)
  isAborted : Bool

/-- The loop of `HandleDidWriting` over the values, `opened` being the DIDs that something has
    been received for, when the session was opened. What is received for the values is only
    logged, and the loop that waits while the response of one is pending is taken to end. -/
def writeDids (opened : UInt16 → Bool) (pendingWrites : List (UInt16 × List UInt8))
    (sent : List (List UInt8)) : List (List UInt8) :=
  pendingWrites.foldl (fun sent p =>
    let sent := sent ++ [sessionFrame]
    if opened p.1 then sent ++ [didFrame 0x2E p.1 ++ p.2] else sent) sent

/-- `HandleDidWriting` -/
def handleDidWriting (opened : UInt16 → Bool) (isStopped : Bool) (s : DidWriter) : DidWriter :=
  let s := if 0 < s.pendingWrites.length ∧ ¬isStopped ∧ ¬s.isAborted
    then { s with pendingWrites := [], sent := writeDids opened s.pendingWrites s.sent } else s
  { s with isAborted := false }

/-- The frames for a value. -/
def writeFrames (opened : UInt16 → Bool) (p : UInt16 × List UInt8) : List (List UInt8) :=
  sessionFrame :: if opened p.1 then [didFrame 0x2E p.1 ++ p.2] else []

theorem writeDids_eq (opened : UInt16 → Bool) (pendingWrites : List (UInt16 × List UInt8))
    (sent : List (List UInt8)) :
    writeDids opened pendingWrites sent = sent ++ pendingWrites.flatMap (writeFrames opened) := by
  induction pendingWrites generalizing sent with
  | nil => rw [List.flatMap_nil, List.append_nil, writeDids, List.foldl_nil]
  | cons p pendingWrites ih =>
    simp only [writeDids] at ih ⊢
    rw [List.foldl_cons, ih, List.flatMap_cons, writeFrames]
    split_ifs <;> simp

/-- Unless the worker is stopped or aborted, every value is forgotten, and those have been sent,
    once, for which the session was opened. -/
theorem handleDidWriting_sent (opened : UInt16 → Bool) (isStopped : Bool) (s : DidWriter) :
    handleDidWriting opened isStopped s = if isStopped || s.isAborted
      then { s with isAborted := false }
      else ⟨[], s.sent ++ s.pendingWrites.flatMap (writeFrames opened), false⟩ := by
  rw [handleDidWriting, writeDids_eq]
  rcases s with ⟨_ | ⟨p, ps⟩, sent, aborted⟩ <;> cases isStopped <;> cases aborted <;> simp

/-! ## An ECU -/

/-- Two bytes that can be read. -/
def speedAndGear : DidMap where
  entries := [
    { id := 0x100, type := .ui8, name := "speed".toList },
    { id := 0x101, type := .ui8, name := "gear".toList }]
  sorted := List.pairwise_pair.2 (by decide)

/-- Both of them are asked for. -/
def bothAsked : DidReader := ⟨[0x100, 0x101], speedAndGear, [], [], 0⟩

/-- A positive response with this value. -/
def positiveResponse (value : UInt8) : IsoTpResponse :=
  ⟨fun i => if i = 0 then 0x62 else value, 4⟩

/-- A round with this response. -/
def positiveRound (value : UInt8) : ReadRound := ⟨true, some (positiveResponse value), [], []⟩

/-- A round in which the session is not opened. -/
def silentRound : ReadRound := ⟨false, none, [], []⟩

/-- A round in which the DID is not answered. -/
def unansweredRound : ReadRound := ⟨true, none, [], []⟩

namespace DidReader

theorem positive_positiveRound (value : UInt8) : Positive .ui8 (positiveRound value) :=
  ⟨rfl, _, rfl, rfl, fun h => by simp at h⟩

theorem handleDidReading_queue_two : ∃ done rest, Ran done rest bothAsked { bothAsked with
    pending := [0x101]
    didList := speedAndGear.read 0x100 ⟨['2', 'A'], 0, some []⟩
    updated := [0x100]
    sent := askFrames 0x100
    retryCount := 0 } :=
  handleDidReading_queue
    (show handleDidReading (fun _ => []) 3 [positiveRound 0x2A] bothAsked = _ from rfl)

theorem handleDidReading_drains_two :
    ∃ s', handleDidReading (fun _ => []) 3 ([positiveRound 0x2A, positiveRound 5] ++ []) bothAsked =
        some s' ∧ s'.pending = [] ∧ s'.updated = bothAsked.updated ++ bothAsked.pending ∧
      s'.sent = bothAsked.sent ++ bothAsked.pending.flatMap askFrames ∧
      (∀ d ∉ bothAsked.pending, s'.didList.find d = bothAsked.didList.find d) ∧
      (bothAsked.pending.Nodup →
        ∀ p ∈ bothAsked.pending.zip [positiveRound 0x2A, positiveRound 5], ∀ e resp text,
        bothAsked.didList.find p.1 = some e → p.2.read = some resp →
        responseText (fun _ => []) e resp = some text → s'.didList.find p.1 =
          some { e with valueStr := text, nrc := 0, lastUpdate := some p.2.now }) :=
  handleDidReading_drains (.cons ⟨_, rfl, positive_positiveRound 0x2A⟩
    (.cons ⟨_, rfl, positive_positiveRound 5⟩ .nil))

theorem handleDidReading_gives_up_two :
    handleDidReading (fun _ => []) 1 [silentRound, silentRound] bothAsked = some (if 2 ≤ 1
      then { bothAsked with
        sent := bothAsked.sent ++ List.replicate 2 sessionFrame
        retryCount := .ofNat 2 }
      else { bothAsked with
        pending := []
        sent := bothAsked.sent ++ List.replicate (1 + 1) sessionFrame
        retryCount := 0 }) :=
  handleDidReading_gives_up (List.cons_ne_nil _ _) rfl (by decide)
    (show ∀ r ∈ [silentRound, silentRound], r.session = false by simp [silentRound])

theorem handleDidReading_starves_two :
    handleDidReading (fun _ => []) 3 [unansweredRound, unansweredRound] bothAsked = some { bothAsked
      with
      sent := bothAsked.sent ++ (List.replicate 2 (askFrames 0x100)).flatten
      retryCount := if [unansweredRound, unansweredRound] = [] then bothAsked.retryCount else 0 } :=
  handleDidReading_starves rfl (by decide)
    (show ∀ r ∈ [unansweredRound, unansweredRound], r.session = true ∧
      ∀ resp ∈ r.read, resp.buffer 0 ≠ 0x62 ∧ resp.buffer 0 ≠ 0x7F by simp [unansweredRound])

end DidReader

theorem responseText_stored_two :
    (responseText (fun _ => []) { id := 0x102, type := .ui16, name := [] }
        ⟨fun i => if i = 0 then 0x62 else 1, 5⟩ =
      some (valueText (fun _ => []) .ui16 (dataBytes ⟨fun i => if i = 0 then 0x62 else 1, 5⟩)) ↔
      2 = 1 ∨ 2 < 8 ∧ ofLe (dataBytes ⟨fun i => if i = 0 then 0x62 else 1, 5⟩) ≤ 1 ∨
        2 = 8 ∧ [] =
          valueText (fun _ => []) .ui16 (dataBytes ⟨fun i => if i = 0 then 0x62 else 1, 5⟩)) ∧
    responseText (fun _ => []) { id := 0x103, type := .string, name := [] }
        ⟨fun i => UInt8.ofNat (0x40 + i), 8⟩ =
      if 3 ≤ (dataBytes ⟨fun i => UInt8.ofNat (0x40 + i), 8⟩).length
        then some (valueText (fun _ => []) .string
          ((dataBytes ⟨fun i => UInt8.ofNat (0x40 + i), 8⟩).take
            ((dataBytes ⟨fun i => UInt8.ofNat (0x40 + i), 8⟩).length - 3)))
        else none :=
  ⟨(responseText_stored (fun _ => []) { id := 0x102, type := .ui16, name := [] }
      ⟨fun i => if i = 0 then 0x62 else 1, 5⟩ (by decide)).1 2 rfl rfl,
    (responseText_stored (fun _ => []) { id := 0x103, type := .string, name := [] }
      ⟨fun i => UInt8.ofNat (0x40 + i), 8⟩ (by decide)).2.1 (.inl rfl)⟩

end QustomKeyboard
