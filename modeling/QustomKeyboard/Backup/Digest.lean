import QustomKeyboard.Backup.Copying
import QustomKeyboard.Theory.MerkleDamgard

/-!
# What a digest tells

The context of a digest takes bytes one by one, and so compresses the blocks of what it has taken
(`Sha256Ctx.Has`). At the end, it pads the rest: the digest is that of the padded message, in
whatever ranges it has been given (`sha256_ranges`).

A backup compares the digest of all files of the source, one behind another, with that of the
copies that it reads back. If these are not the same bytes, the digests differ, or the chains of
the two collide (`sameDigests_or_collide`). It is not told where a file ends.
-/

namespace QustomKeyboard

open Theory

/-- The state of an initialised context. -/
def sha256Start : Sha256State := (sha256Init default).state

/-- The words of a state, the most significant bytes first. -/
def Sha256State.bytes (s : Sha256State) : List UInt8 :=
  [s.a, s.b, s.c, s.d, s.e, s.f, s.g, s.h].flatMap fun w => (toLe 4 w.toNat).reverse

/-- The digest of a message: that of its padded blocks. -/
def sha256Digest (message : List UInt8) : List UInt8 :=
  ((paddedBlocks 64 8 message).foldl sha256Transform sha256Start).bytes

/-- The bytes of a state determine it. -/
theorem Sha256State.bytes_injective : Function.Injective Sha256State.bytes := by
  intro s t h
  have hword {x y : UInt32} (hxy : (toLe 4 x.toNat).reverse = (toLe 4 y.toNat).reverse) : x = y :=
    UInt32.toNat_inj.1 (toLe_injective x.toNat_lt y.toNat_lt (List.reverse_injective hxy))
  have hlen (x y : UInt32) :
      (toLe 4 x.toNat).reverse.length = (toLe 4 y.toNat).reverse.length := by simp
  rcases s with ⟨a, b, c, d, e, f, g, h⟩
  rcases t with ⟨a', b', c', d', e', f', g', h'⟩
  simp only [bytes, List.flatMap_cons, List.flatMap_nil] at h
  obtain ⟨ha, h⟩ := List.append_inj h (hlen _ _)
  obtain ⟨hb, h⟩ := List.append_inj h (hlen _ _)
  obtain ⟨hc, h⟩ := List.append_inj h (hlen _ _)
  obtain ⟨hd, h⟩ := List.append_inj h (hlen _ _)
  obtain ⟨he, h⟩ := List.append_inj h (hlen _ _)
  obtain ⟨hf, h⟩ := List.append_inj h (hlen _ _)
  obtain ⟨hg, h⟩ := List.append_inj h (hlen _ _)
  obtain ⟨hh, -⟩ := List.append_inj h (hlen _ _)
  rw [hword ha, hword hb, hword hc, hword hd, hword he, hword hf, hword hg, hword hh]

/-! ## Contexts -/

/-- What a context is, that has taken these bytes: the whole blocks have been compressed, and the
    rest is in its data. -/
structure Sha256Ctx.Has (ctx : Sha256Ctx) (bytes : List UInt8) : Prop where
  datalen_eq : (ctx.datalen : ℕ) = bytes.length % 64
  bitlen_eq : ctx.bitlen = .ofNat (512 * (bytes.length / 64))
  state_eq : ctx.state =
    (blocks 64 (bytes.length / 64) bytes).foldl sha256Transform sha256Start
  take_eq : ctx.data.toList.take ctx.datalen = bytes.drop (bytes.length / 64 * 64)

theorem sha256Init_has (ctx : Sha256Ctx) : (sha256Init ctx).Has [] where
  datalen_eq := rfl
  bitlen_eq := rfl
  state_eq := rfl
  take_eq := by rw [sha256Init, Fin.val_zero, List.take_zero, List.drop_nil]

section

variable {ctx : Sha256Ctx} {bytes : List UInt8}

/-- The whole blocks, and what is behind them. -/
theorem blocks_take_append (bytes rest : List UInt8) (m : ℕ) :
    blocks 64 (bytes.length / 64 + m) (bytes ++ rest) = blocks 64 (bytes.length / 64) bytes ++
      blocks 64 m (bytes.drop (bytes.length / 64 * 64) ++ rest) := by
  have hle : bytes.length / 64 * 64 ≤ bytes.length := Nat.div_mul_le_self _ _
  have hlen : (bytes.take (bytes.length / 64 * 64)).length = bytes.length / 64 * 64 := by
    rw [List.length_take, Nat.min_eq_left hle]
  conv_lhs => rw [← List.take_append_drop (bytes.length / 64 * 64) bytes]
  rw [List.length_append, hlen, List.length_drop, Nat.add_sub_cancel' hle, List.append_assoc,
    blocks_append hlen]
  congr 1
  conv_rhs => rw [← List.take_append_drop (bytes.length / 64 * 64) bytes]
  rw [List.length_append, hlen, List.length_drop, Nat.add_sub_cancel' hle,
    blocks_append_left hlen.ge]

/-- A byte is taken behind the others. -/
theorem Sha256Ctx.Has.push (h : ctx.Has bytes) (b : UInt8) : (ctx.push b).Has (bytes ++ [b]) := by
  obtain ⟨hdatalen, hbitlen, hstate, htake⟩ := h
  have hset := take_succ_set ctx.data ctx.datalen b
  rw [htake] at hset
  have hlen : (bytes ++ [b]).length = bytes.length + 1 := List.length_append
  have hlt := Nat.mod_lt bytes.length (show 64 > 0 by decide)
  unfold Sha256Ctx.push
  split
  · rename_i hroom
    have hdiv : (bytes ++ [b]).length / 64 = bytes.length / 64 := by omega
    refine ⟨?_, ?_, ?_, ?_⟩
    · change (ctx.datalen : ℕ) + 1 = _
      omega
    · rw [hdiv]
      exact hbitlen
    · rw [hdiv, blocks_append_left (Nat.div_mul_le_self _ _)]
      exact hstate
    · rw [hdiv, List.drop_append_of_le_length (Nat.div_mul_le_self _ _)]
      exact hset
  · -- The block is full.
    rename_i hfull
    have hdiv : (bytes ++ [b]).length / 64 = bytes.length / 64 + 1 := by omega
    have hall : (ctx.data.set ctx.datalen b).toList.take (ctx.datalen + 1) =
        (ctx.data.set ctx.datalen b).toList :=
      List.take_of_length_le (by rw [Vector.length_toList]; exact Nat.not_lt.1 hfull)
    rw [hall] at hset
    refine ⟨?_, ?_, ?_, ?_⟩
    · change 0 = _
      omega
    · change ctx.bitlen + 512 = _
      rw [hdiv, hbitlen, Nat.mul_succ, UInt64.ofNat_add]
      rfl
    · rw [hdiv, blocks_take_append, blocks_one, List.foldl_append, ← hset, ← hstate]
      · rfl
      · rw [List.length_append, List.length_drop, List.length_singleton]
        omega
    · change [] = _
      rw [hdiv, List.drop_eq_nil_of_le (by omega)]

theorem Sha256Ctx.Has.foldl_push {rest : List UInt8} (h : ctx.Has bytes) :
    (rest.foldl Sha256Ctx.push ctx).Has (bytes ++ rest) := by
  induction rest generalizing ctx bytes with
  | nil => rwa [List.append_nil]
  | cons b rest ih =>
    have := ih (h.push b)
    rwa [List.append_assoc, List.singleton_append] at this

/-- The bytes of an integer that is too large are those of its remainder. -/
theorem toLe_mod (n x : ℕ) : toLe n (x % 256 ^ n) = toLe n x := by
  have := toLe_ofLe (toLe n x)
  rwa [length_toLe, ofLe_toLe] at this

theorem zeros_eq (n : ℕ) :
    zeros 64 8 n = if n % 64 < 56 then 55 - n % 64 else 119 - n % 64 := by
  rw [zeros]
  split_ifs <;> omega

/-- The rest, with the padding, makes up one or two blocks. -/
theorem paddedBlocks_eq (bytes : List UInt8) :
    paddedBlocks 64 8 bytes = blocks 64 (bytes.length / 64) bytes ++
      blocks 64 (if bytes.length % 64 < 56 then 1 else 2)
        (bytes.drop (bytes.length / 64 * 64) ++ 0x80 ::
          (List.replicate (zeros 64 8 bytes.length) 0 ++ (toLe 8 (8 * bytes.length)).reverse)) := by
  have hcount : (pad 64 8 bytes).length / 64 =
      bytes.length / 64 + if bytes.length % 64 < 56 then 1 else 2 := by
    rw [length_pad, zeros_eq]
    split_ifs <;> omega
  rw [paddedBlocks, hcount, pad, blocks_take_append]

/-- The last blocks of a context, with the rest and the length. -/
theorem sha256Final_of_eq {rest length : List UInt8}
    (hrest : ctx.data.toList.take ctx.datalen = rest)
    (hlength : (toLe 8 (ctx.bitlen + .ofNat (ctx.datalen * 8)).toNat).reverse = length) :
    sha256Final ctx = (if (ctx.datalen : ℕ) < 56 then
      sha256Transform ctx.state
        (rest ++ [0x80] ++ List.replicate (56 - (rest ++ [0x80]).length) 0 ++ length)
    else sha256Transform (sha256Transform ctx.state
        (rest ++ [0x80] ++ List.replicate (64 - (rest ++ [0x80]).length) 0))
      (List.replicate 56 0 ++ length)).bytes := by
  subst hrest hlength
  rfl

/-- The digest of a context is that of what it has taken. -/
theorem Sha256Ctx.Has.sha256Final_eq (h : ctx.Has bytes) :
    sha256Final ctx = sha256Digest bytes := by
  obtain ⟨hdatalen, hbitlen, hstate, htake⟩ := h
  have hlt := Nat.mod_lt bytes.length (show 64 > 0 by decide)
  have hlength : (toLe 8 (ctx.bitlen + .ofNat (ctx.datalen * 8)).toNat).reverse =
      (toLe 8 (8 * bytes.length)).reverse := by
    rw [hbitlen, hdatalen, ← UInt64.ofNat_add, UInt64.toNat_ofNat',
      show 2 ^ 64 = 256 ^ 8 by rfl, toLe_mod]
    congr 2
    omega
  have hrest : (bytes.drop (bytes.length / 64 * 64)).length = bytes.length % 64 := by
    rw [List.length_drop]
    omega
  rw [sha256Final_of_eq htake hlength, sha256Digest, paddedBlocks_eq, List.foldl_append, ← hstate,
    zeros_eq, hdatalen]
  by_cases hroom : bytes.length % 64 < 56
  · rw [if_pos hroom, if_pos hroom, if_pos hroom, blocks_one]
    · rw [List.length_append, hrest, List.length_singleton,
        show 56 - (bytes.length % 64 + 1) = 55 - bytes.length % 64 by omega, List.append_assoc,
        List.append_assoc]
      rfl
    · simp only [List.length_append, List.length_cons, List.length_replicate, List.length_reverse,
        length_toLe, hrest]
      omega
  · -- There is no room for the length in the block of the mark.
    rw [if_neg hroom, if_neg hroom, if_neg hroom,
      show 119 - bytes.length % 64 = 63 - bytes.length % 64 + 56 by omega, List.replicate_add]
    have hsplit : bytes.drop (bytes.length / 64 * 64) ++ 0x80 ::
        (List.replicate (63 - bytes.length % 64) 0 ++ List.replicate 56 0 ++
          (toLe 8 (8 * bytes.length)).reverse) =
        (bytes.drop (bytes.length / 64 * 64) ++ [0x80] ++
          List.replicate (63 - bytes.length % 64) 0) ++
        (List.replicate 56 0 ++ (toLe 8 (8 * bytes.length)).reverse) := by simp
    rw [hsplit, show 2 = 1 + 1 from rfl, blocks_append, blocks_one, blocks_one, List.foldl_append,
      List.length_append, hrest, List.length_singleton,
      show 64 - (bytes.length % 64 + 1) = 63 - bytes.length % 64 by omega]
    · rfl
    · simp
    · simp [hrest]
      omega
    · simp [hrest]
      omega

end

theorem sha256Final_push (bytes : List UInt8) (ctx : Sha256Ctx) :
    sha256Final (bytes.foldl Sha256Ctx.push (sha256Init ctx)) = sha256Digest bytes :=
  (sha256Init_has ctx).foldl_push.sha256Final_eq

/-! ## Ranges -/

/-- The ranges are given to a context one by one. -/
def sha256Ranges (ctx : Sha256Ctx) (ranges : List (List UInt8)) : Option Sha256Ctx :=
  ranges.foldlM (fun ctx r => sha256Update (r.length + 1) ctx r r.length) ctx

/-- The ranges are taken iff none of them has 2³² bytes. -/
theorem sha256Ranges_eq (ranges : List (List UInt8)) (ctx : Sha256Ctx) :
    sha256Ranges ctx ranges = if ∀ r ∈ ranges, r.length < 2 ^ 32
      then some (ranges.flatten.foldl Sha256Ctx.push ctx) else none := by
  induction ranges generalizing ctx with
  | nil => rfl
  | cons r ranges ih =>
    rw [sha256Ranges, List.foldlM_cons, List.flatten_cons, List.foldl_append]
    simp only [List.forall_mem_cons]
    rcases Nat.lt_or_ge r.length (2 ^ 32) with hlt | hle
    · rw [sha256Update_of_lt hlt le_rfl (Nat.lt_succ_self _), List.take_length]
      simp only [hlt, true_and]
      exact ih _
    · rw [sha256Update_of_le hle, if_neg fun h => Nat.not_lt.2 hle h.1]
      rfl

/-- However a message is split into ranges, its digest is that of its padded blocks, unless a
    range has 2³² bytes. What has been left in the context does not matter. -/
theorem sha256_ranges (ctx : Sha256Ctx) (ranges : List (List UInt8)) :
    (sha256Ranges (sha256Init ctx) ranges).map sha256Final =
      if ∀ r ∈ ranges, r.length < 2 ^ 32 then some (sha256Digest ranges.flatten) else none := by
  rw [sha256Ranges_eq]
  split_ifs
  · rw [Option.map_some, sha256Final_push]
  · rfl

/-! ## Comparing -/

/-- The comparison of the digests in `DirectoryBackup::DoBackup`, after the first run: of files
    of the source, and of their copies as they are read back. -/
def sameDigests (hashBuf : List UInt8) (ctxFrom ctxTo : Sha256Ctx)
    (files : List (List UInt8 × List UInt8)) : Option Bool := do
  let s ← files.foldlM (fun s f => do
      let to_ ← hashFile (f.2.length + 2) s.1 s.2.2 f.2
      let from_ ← hashFile (f.1.length + 2) to_.hashBuf s.2.1 f.1
      return (from_.hashBuf, from_.ctx, to_.ctx))
    (hashBuf, sha256Init ctxFrom, sha256Init ctxTo)
  return sha256Final s.2.1 = sha256Final s.2.2

/-- The contexts take all files, and all copies. -/
theorem exists_sameDigests {hashBuf : List UInt8} {files : List (List UInt8 × List UInt8)}
    (hread : ∀ f ∈ files, BackupJob.Readable hashBuf.length f.1 ∧
      BackupJob.Readable hashBuf.length f.2) (ctxFrom ctxTo : Sha256Ctx) :
    ∃ buf : List UInt8, files.foldlM (fun s f => do
        let to_ ← hashFile (f.2.length + 2) s.1 s.2.2 f.2
        let from_ ← hashFile (f.1.length + 2) to_.hashBuf s.2.1 f.1
        return (from_.hashBuf, from_.ctx, to_.ctx)) (hashBuf, ctxFrom, ctxTo) =
      some (buf, (files.flatMap Prod.fst).foldl Sha256Ctx.push ctxFrom,
        (files.flatMap Prod.snd).foldl Sha256Ctx.push ctxTo) := by
  induction files generalizing hashBuf ctxFrom ctxTo with
  | nil => exact ⟨hashBuf, rfl⟩
  | cons f files ih =>
    rw [List.forall_mem_cons] at hread
    obtain ⟨⟨hsource, hcopy⟩, hrest⟩ := hread
    obtain ⟨to_, hto, -, hctxTo, hlenTo⟩ := exists_hashFile hcopy ctxTo
    obtain ⟨from_, hfrom, -, hctxFrom, hlenFrom⟩ :=
      exists_hashFile (show BackupJob.Readable to_.hashBuf.length f.1 by rwa [hlenTo]) ctxFrom
    have hlen : from_.hashBuf.length = hashBuf.length := hlenFrom.trans hlenTo
    obtain ⟨buf, hbuf⟩ := ih (by rwa [hlen]) from_.ctx to_.ctx
    refine ⟨buf, ?_⟩
    rw [List.foldlM_cons, List.flatMap_cons, List.flatMap_cons, List.foldl_append,
      List.foldl_append, ← hctxTo, ← hctxFrom, hto]
    change Option.bind (Option.bind (hashFile _ _ _ _) _) _ = _
    rw [hfrom]
    exact hbuf

/-- The digests are the same if all copies, one behind another, are the same bytes as the files.
    Else they differ, or the two chains collide. Only lengths that differ by a multiple of 2⁶¹ are
    not told apart. -/
theorem sameDigests_or_collide {hashBuf : List UInt8} {files : List (List UInt8 × List UInt8)}
    (hread : ∀ f ∈ files, BackupJob.Readable hashBuf.length f.1 ∧
      BackupJob.Readable hashBuf.length f.2)
    (hlen : (files.flatMap Prod.fst).length % 2 ^ 61 = (files.flatMap Prod.snd).length % 2 ^ 61 →
      (files.flatMap Prod.fst).length = (files.flatMap Prod.snd).length)
    (ctxFrom ctxTo : Sha256Ctx) :
    ∃ same, sameDigests hashBuf ctxFrom ctxTo files = some same ∧
      (files.flatMap Prod.fst = files.flatMap Prod.snd → same = true) ∧
      (same = true → files.flatMap Prod.fst = files.flatMap Prod.snd ∨
        Collide sha256Transform sha256Start (paddedBlocks 64 8 (files.flatMap Prod.fst))
          (paddedBlocks 64 8 (files.flatMap Prod.snd))) := by
  obtain ⟨buf, hbuf⟩ := exists_sameDigests hread (sha256Init ctxFrom) (sha256Init ctxTo)
  refine ⟨decide (sha256Digest (files.flatMap Prod.fst) =
    sha256Digest (files.flatMap Prod.snd)), ?_, fun h => ?_, fun h => ?_⟩
  · rw [sameDigests, hbuf]
    simp only [Option.bind_eq_bind, Option.bind_some, sha256Final_push]
    rfl
  · rw [h]
    exact decide_eq_true rfl
  · refine eq_or_collide_of_pad (by decide) (by decide) (fun h => hlen ?_)
      (Sha256State.bytes_injective (of_decide_eq_true h))
    omega

/-- Two files, of which the second has got a byte of the first in the copies. -/
def movedFiles : List (List UInt8 × List UInt8) := [([1, 2], [1]), ([3], [2, 3])]

theorem sameDigests_or_collide_moved :
    ∃ same, sameDigests [0, 0] default default movedFiles = some same ∧
      (movedFiles.flatMap Prod.fst = movedFiles.flatMap Prod.snd → same = true) ∧
      (same = true → movedFiles.flatMap Prod.fst = movedFiles.flatMap Prod.snd ∨
        Collide sha256Transform sha256Start (paddedBlocks 64 8 (movedFiles.flatMap Prod.fst))
          (paddedBlocks 64 8 (movedFiles.flatMap Prod.snd))) :=
  sameDigests_or_collide (by simp [movedFiles, BackupJob.Readable]) (fun _ => rfl) default default

end QustomKeyboard
