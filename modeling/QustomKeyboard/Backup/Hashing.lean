import QustomKeyboard.Backup.Sha256
import QustomKeyboard.Theory.InputStream
import QustomKeyboard.Theory.Memory

/-!
# Hashing files

A backup reads every file, and its copy, in chunks of the size of a buffer, and
gives each chunk to the context of a digest (`hashFile`). The loop goes on as
long as the stream is good: there is no other sign of the end of the file.

Every byte is taken once and the loop comes to its end iff the file is empty, or
the buffer is not, and no chunk has 2³² bytes (`hashesOnce_iff`). The size of the
buffer is configured in MiB, and not checked: it is also empty if the size in
bytes wraps at 2⁶⁴.
-/

namespace QustomKeyboard

open Theory

/-- `hash_buf`, as allocated for the configured size: its bytes are not initialised, and
    less than 2⁶³, since there are no larger arrays. -/
structure HashBuf (hashBufSize : UInt64) where
  bytes : List UInt8
  length_eq : bytes.length = (hashBufSize * 1024 * 1024).toNat
  length_lt : bytes.length < 2 ^ 63

/-- The state of the loop over a file. -/
structure HashState where
  f : InputStream UInt8
  hashBuf : List UInt8
  ctx : Sha256Ctx
  /-- The ranges of bytes given to the context. -/
  fed : List (List UInt8)

/-- The state in which the loop over a file starts. -/
def HashState.start (hashBuf : List UInt8) (ctx : Sha256Ctx) (content : List UInt8) :
    HashState where
  f := (InputStream.ofList content).peek
  hashBuf := hashBuf
  ctx := ctx
  fed := []

/-- The body of the loop: a chunk of at most `size` bytes. -/
def hashChunk (fuel size : ℕ) (s : HashState) : Option HashState := do
  let (chunk, f) := s.f.read size
  let hashBuf ← (store s.hashBuf 0 chunk).toOption
  let ctx ← sha256Update fuel s.ctx hashBuf chunk.length
  return { f, hashBuf, ctx, fed := s.fed ++ [hashBuf.take chunk.length] }

/-- The hashing of a file by `DirectoryBackup::DoBackup`, with some fuel for its loops. -/
def hashFile (fuel : ℕ) (hashBuf : List UInt8) (ctx : Sha256Ctx) (content : List UInt8) :
    Option HashState :=
  whileLoop (fun s => s.f.good) (hashChunk fuel hashBuf.length) fuel (.start hashBuf ctx content)

/-- The hashing of a file comes to its end, and the ranges given to the context make up
    the file: the context has taken every byte of it once. -/
def HashesOnce {hashBufSize : UInt64} (buf : HashBuf hashBufSize) (content : List UInt8) : Prop :=
  ∀ ctx, ∃ fuel s, hashFile fuel buf.bytes ctx content = some s ∧ s.fed.flatten = content ∧
    s.ctx = content.foldl Sha256Ctx.push ctx

variable {fuel size : ℕ} {s : HashState}

/-- A chunk of less than 2³² bytes is taken. -/
theorem hashChunk_of_lt (hbuf : s.hashBuf.length = size) (hlt : (s.f.read size).1.length < 2 ^ 32)
    (hfuel : (s.f.read size).1.length < fuel) :
    hashChunk fuel size s = some
      { f := (s.f.read size).2
        hashBuf := (s.f.read size).1 ++ s.hashBuf.drop (s.f.read size).1.length
        ctx := (s.f.read size).1.foldl Sha256Ctx.push s.ctx
        fed := s.fed ++ [(s.f.read size).1] } := by
  have hle := InputStream.length_read_le s.f size
  rw [hashChunk]
  generalize s.f.read size = r at *
  obtain ⟨chunk, f⟩ := r
  have hstore : store s.hashBuf 0 chunk = .ok (chunk ++ s.hashBuf.drop chunk.length) := by
    rw [store, if_pos (by simp only at hle; omega)]
    simp
  have hupdate : sha256Update fuel s.ctx (chunk ++ s.hashBuf.drop chunk.length) chunk.length =
      some (chunk.foldl Sha256Ctx.push s.ctx) := by
    rw [sha256Update_of_lt hlt (by simp) hfuel, List.take_left]
  simp only [hstore, Except.toOption, Option.bind_eq_bind, Option.bind_some, hupdate,
    List.take_left]
  rfl

/-- A longer one never is. -/
theorem hashChunk_of_le (hle : 2 ^ 32 ≤ (s.f.read size).1.length) :
    hashChunk fuel size s = none := by
  rw [hashChunk]
  generalize s.f.read size = r at *
  obtain ⟨chunk, f⟩ := r
  simp only [sha256Update_of_le hle, Option.bind_eq_bind, Option.bind_none]
  exact Option.bind_fun_none _

/-! ## The loop -/

/-- What has been taken of the file is followed by what is left of it, and nothing is left
    when the stream is not good. -/
structure HashInv (size : ℕ) (ctx : Sha256Ctx) (content : List UInt8) (s : HashState) : Prop where
  length_hashBuf : s.hashBuf.length = size
  content_eq : s.fed.flatten ++ s.f.rest = content
  ctx_eq : s.ctx = s.fed.flatten.foldl Sha256Ctx.push ctx
  rest_eq : s.f.good = false → s.f.rest = []

variable {ctx : Sha256Ctx} {content : List UInt8}

/-- A chunk is taken behind the ones before. -/
theorem HashInv.step (hs : HashInv size ctx content s) (hgood : s.f.good = true)
    (hlt : (s.f.read size).1.length < 2 ^ 32) (hfuel : (s.f.read size).1.length < fuel) :
    ∃ t, hashChunk fuel size s = some t ∧ HashInv size ctx content t ∧ t.f = (s.f.read size).2 := by
  have happend := InputStream.read_append s.f size
  refine ⟨_, hashChunk_of_lt hs.length_hashBuf hlt hfuel, ⟨?_, ?_, ?_, ?_⟩, rfl⟩
  · have hle := InputStream.length_read_le s.f size
    have hlen := hs.length_hashBuf
    rw [List.length_append, List.length_drop]
    omega
  · rw [List.flatten_append, List.flatten_singleton, List.append_assoc, happend, hs.content_eq]
  · rw [List.flatten_append, List.flatten_singleton, List.foldl_append, ← hs.ctx_eq]
  · exact InputStream.rest_read_of_not_good hgood

theorem start_of_ne_nil {hashBuf : List UInt8} (hcontent : content ≠ []) :
    HashState.start hashBuf ctx content =
      { f := InputStream.ofList content, hashBuf := hashBuf, ctx := ctx, fed := [] } := by
  rw [HashState.start, InputStream.peek_ofList hcontent]

theorem HashInv.start {hashBuf : List UInt8} (hcontent : content ≠ []) :
    HashInv hashBuf.length ctx content (.start hashBuf ctx content) := by
  rw [start_of_ne_nil hcontent]
  exact ⟨rfl, rfl, rfl, fun h => absurd h Bool.true_eq_false_eq_False⟩

/-- The loop over a file takes it as a whole, if chunks are neither empty nor too long. -/
theorem exists_hashFile {hashBuf : List UInt8}
    (h : content = [] ∨
      0 < hashBuf.length ∧ (hashBuf.length < 2 ^ 32 ∨ content.length < 2 ^ 32))
    (ctx : Sha256Ctx) :
    ∃ s, hashFile (content.length + 2) hashBuf ctx content = some s ∧
      s.fed.flatten = content ∧ s.ctx = content.foldl Sha256Ctx.push ctx ∧
      s.hashBuf.length = hashBuf.length := by
  rcases eq_or_ne content [] with rfl | hcontent
  · exact ⟨_, rfl, rfl, rfl, rfl⟩
  obtain ⟨hsize, hlt⟩ := h.resolve_left hcontent
  have hloop : ∃ s, hashFile (content.length + 2) hashBuf ctx content = some s ∧
      HashInv hashBuf.length ctx content s ∧ s.f.good = false := by
    refine whileLoop_total (v := fun s => s.f.rest.length + s.f.good.toNat) (fun s hs hgood => ?_)
      (HashInv.start hcontent) ?_
    · -- No chunk is longer than what is left, and so than the file.
      have hrest : (s.f.read hashBuf.length).1.length +
          (s.f.read hashBuf.length).2.rest.length = s.f.rest.length := by
        rw [← List.length_append, InputStream.read_append]
      have hall := congrArg List.length hs.content_eq
      rw [List.length_append] at hall
      have hle := InputStream.length_read_le s.f hashBuf.length
      have hfuel : (s.f.read hashBuf.length).1.length < content.length + 2 := by omega
      obtain ⟨t, ht, hinv, hf⟩ := hs.step hgood (by omega) hfuel
      exact ⟨t, ht, hinv, by rw [hf]; exact InputStream.read_lt hgood hsize⟩
    · rw [start_of_ne_nil hcontent]
      exact Nat.lt_succ_self _
  obtain ⟨s, hs, hinv, hgood⟩ := hloop
  have hall := hinv.content_eq
  rw [hinv.rest_eq hgood, List.append_nil] at hall
  exact ⟨s, hs, hall, by rw [hinv.ctx_eq, hall], hinv.length_hashBuf⟩

/-- An empty buffer leaves the stream as it is, and good. -/
theorem hashFile_of_empty (hcontent : content ≠ []) (fuel : ℕ) (ctx : Sha256Ctx) :
    hashFile fuel [] ctx content = none := by
  refine whileLoop_eq_none (I := fun s : HashState => s.f.good = true) (fun s hs => hs)
    (fun s t hs hst => ?_) fuel ?_
  · rw [hashChunk, List.length_nil, InputStream.read_zero hs] at hst
    obtain ⟨buf, -, hst⟩ := Option.bind_eq_some_iff.1 hst
    obtain ⟨ctx, -, hst⟩ := Option.bind_eq_some_iff.1 hst
    rw [← Option.some.inj hst]
    exact hs
  · rw [start_of_ne_nil hcontent]
    rfl

/-- The first chunk is too long. -/
theorem hashFile_of_le {hashBuf : List UInt8} (hbuf : 2 ^ 32 ≤ hashBuf.length)
    (hcontent : 2 ^ 32 ≤ content.length) (fuel : ℕ) (ctx : Sha256Ctx) :
    hashFile fuel hashBuf ctx content = none := by
  have hne : content ≠ [] := List.ne_nil_of_length_pos (by omega)
  cases fuel with
  | zero => rfl
  | succ fuel =>
    have hgood : (InputStream.ofList content).good = true := rfl
    rw [hashFile, start_of_ne_nil hne, whileLoop, if_pos hgood, hashChunk_of_le]
    · rfl
    · show 2 ^ 32 ≤ (content.take hashBuf.length).length
      rw [List.length_take]
      omega

/-- Otherwise it does not come to its end. -/
theorem of_hashFile_eq_some {hashBuf : List UInt8}
    (h : hashFile fuel hashBuf ctx content = some s) :
    content = [] ∨
      0 < hashBuf.length ∧ (hashBuf.length < 2 ^ 32 ∨ content.length < 2 ^ 32) := by
  rcases eq_or_ne content [] with hnil | hne
  · exact .inl hnil
  refine .inr ⟨?_, ?_⟩
  · by_contra hzero
    rw [List.length_eq_zero_iff.1 (Nat.eq_zero_of_not_pos hzero), hashFile_of_empty hne] at h
    cases h
  · by_contra hnot
    obtain ⟨hbuf, hcontent⟩ := not_or.1 hnot
    rw [hashFile_of_le (Nat.not_lt.1 hbuf) (Nat.not_lt.1 hcontent)] at h
    cases h

/-- Every byte of the file is taken once, and the loop comes to its end, iff the file is
    empty, or the buffer is not and no chunk is too long. -/
theorem hashesOnce_iff {hashBufSize : UInt64} (buf : HashBuf hashBufSize) (content : List UInt8) :
    HashesOnce buf content ↔ content = [] ∨
      0 < buf.bytes.length ∧ (buf.bytes.length < 2 ^ 32 ∨ content.length < 2 ^ 32) := by
  constructor
  · intro h
    obtain ⟨fuel, s, hs, -⟩ := h default
    exact of_hashFile_eq_some hs
  · intro h ctx
    obtain ⟨s, hs, hfed, hctx, -⟩ := exists_hashFile h ctx
    exact ⟨_, s, hs, hfed, hctx⟩

/-- The buffer for a configured size of 0. -/
def emptyBuf : HashBuf 0 := ⟨[], rfl, by decide⟩

/-- The loop over a file of one byte does not come to an end. -/
theorem not_hashesOnce_emptyBuf : ¬HashesOnce emptyBuf [7] := fun h => by
  obtain ⟨fuel, s, hs, -⟩ := h default
  rw [emptyBuf, hashFile_of_empty (List.cons_ne_nil _ _)] at hs
  cases hs

end QustomKeyboard
