import QustomKeyboard.Theory.Bytes
import Mathlib

/-!
# Iterated compression

A message is hashed block by block, each of them being compressed into the value of the chain
so far. For this, the message is padded to whole blocks (`pad`): a mark and zeros follow it, and
its length in bits.

If two messages are hashed to the same value, either they are the same, or the two chains give a
collision of the compression (`eq_or_collide_of_pad`): since the last block tells the length, one
can go back from the end until the chains come together by different blocks.
-/

namespace Theory

/-! ## Blocks -/

section

variable {α : Type*} {B n m : ℕ} {l l' : List α}

/-- The first `n` blocks of `B` items. -/
def blocks (B : ℕ) : ℕ → List α → List (List α)
  | 0, _ => []
  | n + 1, l => l.take B :: blocks B n (l.drop B)

@[simp] theorem length_blocks (B n : ℕ) (l : List α) : (blocks B n l).length = n := by
  induction n generalizing l with
  | zero => rfl
  | succ n ih => rw [blocks, List.length_cons, ih]

/-- Whole blocks make up the list. -/
theorem flatten_blocks (h : l.length = n * B) : (blocks B n l).flatten = l := by
  induction n generalizing l with
  | zero =>
    rw [Nat.zero_mul] at h
    rw [List.eq_nil_of_length_eq_zero h]
    rfl
  | succ n ih =>
    rw [blocks, List.flatten_cons, ih, List.take_append_drop]
    rw [List.length_drop, h, Nat.succ_mul, Nat.add_sub_cancel]

/-- Whole blocks are followed by those of the rest. -/
theorem blocks_append (h : l.length = n * B) (m : ℕ) (l' : List α) :
    blocks B (n + m) (l ++ l') = blocks B n l ++ blocks B m l' := by
  induction n generalizing l with
  | zero =>
    rw [Nat.zero_mul] at h
    rw [List.eq_nil_of_length_eq_zero h, Nat.zero_add]
    rfl
  | succ n ih =>
    rw [Nat.succ_mul] at h
    rw [Nat.add_right_comm, blocks, blocks, List.take_append_of_le_length (by omega),
      List.drop_append_of_le_length (by omega), ih (by rw [List.length_drop]; omega),
      List.cons_append]

theorem blocks_one (h : l.length = B) : blocks B 1 l = [l] := by
  rw [blocks, blocks, List.take_of_length_le h.le]

/-- The blocks do not depend on what follows them. -/
theorem blocks_append_left (h : n * B ≤ l.length) (l' : List α) :
    blocks B n (l ++ l') = blocks B n l := by
  induction n generalizing l with
  | zero => rfl
  | succ n ih =>
    rw [Nat.succ_mul] at h
    rw [blocks, blocks, List.take_append_of_le_length (by omega),
      List.drop_append_of_le_length (by omega), ih (by rw [List.length_drop]; omega)]

end

/-! ## Chains -/

section

variable {σ β : Type*} {f : σ → β → σ} {s : σ} {bs cs : List β}

/-- Somewhere in the two chains, different values and blocks are compressed into the same. -/
def Collide (f : σ → β → σ) (s : σ) (bs cs : List β) : Prop :=
  ∃ front b front' c, front ++ [b] <+: bs ∧ front' ++ [c] <+: cs ∧
    (front.foldl f s, b) ≠ (front'.foldl f s, c) ∧
    f (front.foldl f s) b = f (front'.foldl f s) c

/-- Chains collide if they begin with ones that do. -/
theorem Collide.of_prefix {bs' cs' : List β} (h : Collide f s bs cs) (hb : bs <+: bs')
    (hc : cs <+: cs') : Collide f s bs' cs' := by
  obtain ⟨front, b, front', c, hbs, hcs, hne, heq⟩ := h
  exact ⟨front, b, front', c, hbs.trans hb, hcs.trans hc, hne, heq⟩

/-- Chains of the same value end with a collision, if their last blocks are different. -/
theorem collide_of_ne {b c : β} (heq : (bs ++ [b]).foldl f s = (cs ++ [c]).foldl f s)
    (hne : (bs.foldl f s, b) ≠ (cs.foldl f s, c)) : Collide f s (bs ++ [b]) (cs ++ [c]) := by
  rw [List.foldl_concat, List.foldl_concat] at heq
  exact ⟨bs, b, cs, c, List.prefix_rfl, List.prefix_rfl, hne, heq⟩

/-- Chains of the same length and the same value are the same, or collide. -/
theorem eq_or_collide (hlen : bs.length = cs.length) (heq : bs.foldl f s = cs.foldl f s) :
    bs = cs ∨ Collide f s bs cs := by
  induction bs using List.reverseRecOn generalizing cs with
  | nil => exact .inl (List.eq_nil_of_length_eq_zero hlen.symm).symm
  | append_singleton bs b ih =>
    rcases List.eq_nil_or_concat' cs with rfl | ⟨cs, c, rfl⟩
    · rw [List.length_append] at hlen
      cases hlen
    by_cases hne : (bs.foldl f s, b) = (cs.foldl f s, c)
    · obtain ⟨hvalue, rfl⟩ := Prod.mk.inj hne
      rw [List.length_append, List.length_append] at hlen
      rcases ih (Nat.add_right_cancel hlen) hvalue with rfl | hcollide
      · exact .inl rfl
      · exact .inr (hcollide.of_prefix (List.prefix_append _ _) (List.prefix_append _ _))
    · exact .inr (collide_of_ne heq hne)

end

/-! ## Padding -/

variable {B w : ℕ} {l l' : List UInt8}

/-- How many zeros fill a block up to the length, behind `n` bytes and the mark. -/
def zeros (B w n : ℕ) : ℕ := (B - (n + 1 + w) % B) % B

/-- The message with a mark, zeros, and its length in bits of `w` bytes: whole blocks of `B`
    bytes. -/
def pad (B w : ℕ) (l : List UInt8) : List UInt8 :=
  l ++ 0x80 :: (List.replicate (zeros B w l.length) 0 ++ (toLe w (8 * l.length)).reverse)

theorem length_pad (B w : ℕ) (l : List UInt8) :
    (pad B w l).length = l.length + 1 + zeros B w l.length + w := by
  simp [pad]
  omega

theorem dvd_length_pad (hB : 0 < B) (w : ℕ) (l : List UInt8) : B ∣ (pad B w l).length := by
  rw [length_pad, zeros, Nat.dvd_iff_mod_eq_zero]
  have hlt := Nat.mod_lt (l.length + 1 + w) hB
  rcases Nat.eq_zero_or_pos ((l.length + 1 + w) % B) with hzero | hpos
  · rw [hzero, Nat.sub_zero, Nat.mod_self, Nat.add_zero, hzero]
  · rw [Nat.mod_eq_of_lt (Nat.sub_lt hB hpos), Nat.add_right_comm,
      show l.length + 1 + w + (B - (l.length + 1 + w) % B) =
        B * ((l.length + 1 + w) / B) + B by
          have := Nat.div_add_mod (l.length + 1 + w) B
          omega, Nat.mul_add_mod_self_left, Nat.mod_self]

/-- Nothing but the message is padded to this. -/
theorem eq_of_pad_eq (hlen : l.length = l'.length) (h : pad B w l = pad B w l') : l = l' :=
  (List.append_inj h hlen).1

/-- The blocks of a padded message. -/
def paddedBlocks (B w : ℕ) (l : List UInt8) : List (List UInt8) :=
  blocks B ((pad B w l).length / B) (pad B w l)

theorem flatten_paddedBlocks (hB : 0 < B) (w : ℕ) (l : List UInt8) :
    (paddedBlocks B w l).flatten = pad B w l :=
  flatten_blocks (Nat.div_mul_cancel (dvd_length_pad hB w l)).symm

/-- The last block ends with the length. -/
theorem exists_concat_paddedBlocks (hB : 0 < B) (hw : w ≤ B) (l : List UInt8) :
    ∃ front last, paddedBlocks B w l = front ++ [last] ∧
      (toLe w (8 * l.length)).reverse <:+ last := by
  obtain ⟨n, hn⟩ := dvd_length_pad hB w l
  have hlen := length_pad B w l
  have hpos : n ≠ 0 := by
    rintro rfl
    omega
  obtain ⟨n, rfl⟩ := Nat.exists_eq_succ_of_ne_zero hpos
  have hfront : ((pad B w l).take (n * B)).length = n * B := by
    rw [List.length_take, hn, Nat.mul_succ, Nat.mul_comm n]
    omega
  have hlast : ((pad B w l).drop (n * B)).length = B := by
    rw [List.length_drop, hn, Nat.mul_succ, Nat.mul_comm n]
    omega
  refine ⟨blocks B n ((pad B w l).take (n * B)), (pad B w l).drop (n * B), ?_, ?_⟩
  · rw [paddedBlocks, hn, Nat.mul_div_cancel_left _ hB, ← blocks_one hlast, ← blocks_append hfront,
      List.take_append_drop]
  · -- Both are ends of the padded message, and the length is the shorter one.
    have hend : (toLe w (8 * l.length)).reverse <:+ pad B w l :=
      ⟨l ++ 0x80 :: List.replicate (zeros B w l.length) 0, by simp [pad]⟩
    refine List.suffix_of_suffix_length_le hend (List.drop_suffix _ _) ?_
    rw [hlast, List.length_reverse, length_toLe]
    exact hw

/-- Messages that are hashed to the same value are the same, or their chains collide, unless
    their lengths are told in the same way but different. -/
theorem eq_or_collide_of_pad {σ : Type*} {f : σ → List UInt8 → σ} {s : σ} (hB : 0 < B)
    (hw : w ≤ B) (hlen : 8 * l.length % 256 ^ w = 8 * l'.length % 256 ^ w → l.length = l'.length)
    (heq : (paddedBlocks B w l).foldl f s = (paddedBlocks B w l').foldl f s) :
    l = l' ∨ Collide f s (paddedBlocks B w l) (paddedBlocks B w l') := by
  by_cases hsame : l.length = l'.length
  · have hcount : (paddedBlocks B w l).length = (paddedBlocks B w l').length := by
      rw [paddedBlocks, paddedBlocks, length_blocks, length_blocks, length_pad, length_pad, hsame]
    refine (eq_or_collide hcount heq).imp_left fun hblocks => ?_
    have hpad := congrArg List.flatten hblocks
    rw [flatten_paddedBlocks hB, flatten_paddedBlocks hB] at hpad
    exact eq_of_pad_eq hsame hpad
  · -- The last blocks are different, as the lengths at their ends are.
    obtain ⟨front, last, hl, hend⟩ := exists_concat_paddedBlocks hB hw l
    obtain ⟨front', last', hl', hend'⟩ := exists_concat_paddedBlocks hB hw l'
    rw [hl, hl'] at heq ⊢
    refine .inr (collide_of_ne heq fun h => ?_)
    obtain ⟨-, rfl⟩ := Prod.mk.inj h
    have htold := List.suffix_of_suffix_length_le hend hend' (by simp)
    have htold := htold.eq_of_length (by simp)
    rw [List.reverse_inj] at htold
    apply hsame
    apply hlen
    rw [← ofLe_toLe, ← ofLe_toLe, htold]

end Theory
