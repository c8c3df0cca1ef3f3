import Mathlib.Data.List.Infix
import Mathlib.Data.List.Forall2
import Mathlib.Data.List.Pairwise
import Mathlib.Tactic.Linarith

/-!
# Resynchronising scanners

A *scanner* reads a stream from its front through a window of fixed width. If
the window opens with the scanner's pattern, the whole window is consumed, and
may emit an output; otherwise a single element is dropped. It stops as soon as
less than a window is left: that is its residue.

What a scan consumes never depends on what it emits, so a stream can be cut
anywhere:

* `scan_append`: scanning a stream is scanning a prefix of it, and then the
  residue together with the rest;
* `scan_backed`: the outputs come from disjoint windows, in their order, and
  `mem_scan_iff` tells at which positions the scan looks (`Stop`);
* `scan_overrun`: whatever stands before a boundary, the scan is back within
  less than a window after it;
* `sublist_scan_iff`: the packets after a stray residue all come out iff the
  residue `Realigns` with them.
-/

namespace Theory

/-- A scanner: the pattern opening a packet, the width of its packets, and the
    output of a packet, if it has one. -/
structure Scanner (α β : Type*) where
  /-- The pattern opening a packet. -/
  pattern : List α
  /-- The width of a packet. -/
  width : ℕ
  /-- The output of a packet. -/
  emit : List α → Option β
  pattern_ne_nil : pattern ≠ []
  pattern_length_le : pattern.length ≤ width

namespace Scanner

variable {α β : Type*} [DecidableEq α] (S : Scanner α β)

omit [DecidableEq α] in
theorem width_pos : 0 < S.width :=
  (List.length_pos_of_ne_nil S.pattern_ne_nil).trans_le S.pattern_length_le

/-- What is consumed at the front of `s`: a packet, or a single element. -/
def advance (s : List α) : ℕ := if S.pattern <+: s then S.width else 1

/-- What is emitted at the front of `s`. -/
def output (s : List α) : List β :=
  if S.pattern <+: s then (S.emit (s.take S.width)).toList else []

theorem advance_of_hit {s : List α} (h : S.pattern <+: s) : S.advance s = S.width := if_pos h

theorem advance_of_miss {s : List α} (h : ¬S.pattern <+: s) : S.advance s = 1 := if_neg h

theorem output_of_hit {s : List α} (h : S.pattern <+: s) :
    S.output s = (S.emit (s.take S.width)).toList := if_pos h

theorem output_of_miss {s : List α} (h : ¬S.pattern <+: s) : S.output s = [] := if_neg h

theorem advance_pos (s : List α) : 0 < S.advance s := by
  have := S.width_pos
  rw [advance]
  split <;> omega

theorem advance_le (s : List α) : S.advance s ≤ S.width := by
  have := S.width_pos
  rw [advance]
  split <;> omega

/-! ## Scans -/

/-- The outputs and the residue of a scan looking at most `n` times. -/
def scanFuel : ℕ → List α → List β × List α
  | 0, s => ([], s)
  | n + 1, s =>
    if S.width ≤ s.length then
      let r := scanFuel n (s.drop (S.advance s))
      (S.output s ++ r.1, r.2)
    else ([], s)

/-- The outputs and the residue of the scan of `s`. -/
def scan (s : List α) : List β × List α := S.scanFuel s.length s

/-- A scan looks at most once for each element of the stream. -/
theorem scanFuel_of_le {n m : ℕ} {s : List α} (hn : s.length ≤ n) (hm : s.length ≤ m) :
    S.scanFuel n s = S.scanFuel m s := by
  have hw := S.width_pos
  induction n generalizing m s with
  | zero =>
    cases m with
    | zero => rfl
    | succ m => rw [scanFuel, scanFuel, if_neg (by omega)]
  | succ n ih =>
    cases m with
    | zero => rw [scanFuel, scanFuel, if_neg (by omega)]
    | succ m =>
      have ha := S.advance_pos s
      rw [scanFuel, scanFuel]
      split
      · rw [ih (m := m) (by rw [List.length_drop]; omega) (by rw [List.length_drop]; omega)]
      · rfl

/-- Less than a window is left alone. -/
theorem scan_of_lt {s : List α} (h : s.length < S.width) : S.scan s = ([], s) := by
  rw [scan]
  cases hs : s.length with
  | zero => rfl
  | succ n => rw [scanFuel, if_neg (by omega)]

theorem scan_nil : S.scan [] = ([], []) := rfl

/-- From a full window on, the scan consumes its front and goes on. -/
theorem scan_of_le {s : List α} (h : S.width ≤ s.length) :
    S.scan s = (S.output s ++ (S.scan (s.drop (S.advance s))).1,
      (S.scan (s.drop (S.advance s))).2) := by
  have hw := S.width_pos
  have ha := S.advance_pos s
  obtain ⟨n, hn⟩ : ∃ n, s.length = n + 1 := ⟨s.length - 1, by omega⟩
  have hd : (s.drop (S.advance s)).length ≤ n := by rw [List.length_drop]; omega
  conv_lhs => rw [scan, hn, scanFuel, if_pos h]
  rw [S.scanFuel_of_le hd le_rfl]
  rfl

/-- Induction along a scan. -/
theorem scan_induction {P : List α → Prop} (stop : ∀ s, s.length < S.width → P s)
    (go : ∀ s, S.width ≤ s.length → P (s.drop (S.advance s)) → P s) (s : List α) : P s := by
  induction hn : s.length using Nat.strong_induction_on generalizing s with
  | h n ih =>
    rcases Nat.lt_or_ge s.length S.width with hlt | hle
    · exact stop s hlt
    · have hw := S.width_pos
      have ha := S.advance_pos s
      exact go s hle (ih _ (by rw [List.length_drop]; omega) _ rfl)

/-- The residue is a suffix of the stream. -/
theorem residue_suffix (s : List α) : (S.scan s).2 <:+ s := by
  induction s using S.scan_induction with
  | stop s h => rw [S.scan_of_lt h]
  | go s h ih =>
    rw [S.scan_of_le h]
    exact ih.trans (List.drop_suffix _ _)

/-- The residue is less than a window. -/
theorem residue_length_lt (s : List α) : (S.scan s).2.length < S.width := by
  induction s using S.scan_induction with
  | stop s h => rwa [S.scan_of_lt h]
  | go s h ih => rwa [S.scan_of_le h]

/-- Every output takes a window of the stream. -/
theorem length_scan_mul_le (s : List α) : (S.scan s).1.length * S.width ≤ s.length := by
  induction s using S.scan_induction with
  | stop s h => rw [S.scan_of_lt h]; simp
  | go s h ih =>
    rw [S.scan_of_le h, List.length_append, Nat.add_mul]
    rw [List.length_drop] at ih
    have hout : (S.output s).length * S.width ≤ S.advance s := by
      by_cases hit : S.pattern <+: s
      · rw [S.output_of_hit hit, S.advance_of_hit hit]
        cases S.emit (s.take S.width) <;> simp
      · rw [S.output_of_miss hit]; simp
    have := S.advance_le s
    omega

/-! ## Cutting a stream -/

omit [DecidableEq α] in
/-- Whether the front of a full window is a packet does not depend on what
    follows the window. -/
theorem hit_append_iff {s : List α} (h : S.width ≤ s.length) (t : List α) :
    S.pattern <+: s ++ t ↔ S.pattern <+: s :=
  ⟨fun hp => List.prefix_of_prefix_length_le hp (List.prefix_append s t)
    (S.pattern_length_le.trans h), fun hp => hp.trans (List.prefix_append s t)⟩

theorem advance_append {s : List α} (h : S.width ≤ s.length) (t : List α) :
    S.advance (s ++ t) = S.advance s := by
  simp only [advance, S.hit_append_iff h]

theorem output_append {s : List α} (h : S.width ≤ s.length) (t : List α) :
    S.output (s ++ t) = S.output s := by
  simp only [output, S.hit_append_iff h, List.take_append_of_le_length h]

/-- A stream can be cut anywhere: its scan is that of the prefix, and then that
    of the residue followed by the rest. -/
theorem scan_append (s t : List α) :
    S.scan (s ++ t) = ((S.scan s).1 ++ (S.scan ((S.scan s).2 ++ t)).1,
      (S.scan ((S.scan s).2 ++ t)).2) := by
  induction s using S.scan_induction with
  | stop s h => simp [S.scan_of_lt h]
  | go s h ih =>
    have hle : S.width ≤ (s ++ t).length := by rw [List.length_append]; omega
    rw [S.scan_of_le hle, S.scan_of_le h, S.advance_append h, S.output_append h,
      List.drop_append_of_le_length ((S.advance_le s).trans h), ih, List.append_assoc]

/-- Scanning again what was left finds nothing. -/
theorem scan_residue (s : List α) : S.scan (S.scan s).2 = ([], (S.scan s).2) :=
  S.scan_of_lt (S.residue_length_lt s)

/-- A packet in front is consumed at once. -/
theorem scan_packet {w : List α} (hw : w.length = S.width) (hit : S.pattern <+: w) (t : List α) :
    S.scan (w ++ t) = ((S.emit w).toList ++ (S.scan t).1, (S.scan t).2) := by
  have hle : S.width ≤ w.length := hw.ge
  have hout : S.output w = (S.emit w).toList := by
    rw [S.output_of_hit hit, ← hw, List.take_length]
  have hrest : (w ++ t).drop (S.advance w) = t := by
    rw [S.advance_of_hit hit, ← hw, List.drop_left]
  rw [S.scan_of_le (by rw [List.length_append]; omega), S.output_append hle, S.advance_append hle,
    hout, hrest]

/-- Elements at which the pattern does not start are dropped one by one. -/
theorem scan_skip {g t : List α} (ht : S.width ≤ t.length)
    (hmiss : ∀ i < g.length, ¬S.pattern <+: (g ++ t).drop i) : S.scan (g ++ t) = S.scan t := by
  induction g with
  | nil => rfl
  | cons a g ih =>
    have h0 : ¬S.pattern <+: a :: (g ++ t) := hmiss 0 (Nat.succ_pos _)
    have hle : S.width ≤ (a :: (g ++ t)).length := by
      simp only [List.length_cons, List.length_append]
      omega
    rw [List.cons_append, S.scan_of_le hle, S.output_of_miss h0, S.advance_of_miss h0,
      List.drop_one, List.tail_cons, List.nil_append]
    exact ih fun i hi => hmiss (i + 1) (Nat.succ_lt_succ hi)

/-- A stream without the pattern emits nothing. -/
theorem scan_of_not_infix {g : List α} (hg : ¬S.pattern <:+: g) : (S.scan g).1 = [] := by
  induction g using S.scan_induction with
  | stop s h => rw [S.scan_of_lt h]
  | go s h ih =>
    rw [S.scan_of_le h, S.output_of_miss fun hp => hg hp.isInfix, List.nil_append]
    exact ih fun hin => hg (hin.trans (List.drop_suffix _ _).isInfix)

/-- Whatever stands before a boundary, the scan comes back within less than a
    window after it. -/
theorem scan_overrun (J : List α) {t : List α} (ht : S.width ≤ t.length) :
    ∃ (out : List β) (o : ℕ), o < S.width ∧
      S.scan (J ++ t) = (out ++ (S.scan (t.drop o)).1, (S.scan (t.drop o)).2) := by
  have hw := S.width_pos
  induction hn : J.length using Nat.strong_induction_on generalizing J with
  | h n ih =>
    have hle : S.width ≤ (J ++ t).length := by rw [List.length_append]; omega
    have ha := S.advance_pos (J ++ t)
    have ha' := S.advance_le (J ++ t)
    rcases Nat.lt_or_ge J.length (S.advance (J ++ t)) with hlt | hge
    · -- The step from inside `J` crosses the boundary (or `J` is empty).
      rcases Nat.eq_zero_or_pos J.length with h0 | hpos
      · rw [List.length_eq_zero_iff.1 h0]
        exact ⟨[], 0, hw, rfl⟩
      · refine ⟨S.output (J ++ t), S.advance (J ++ t) - J.length, by omega, ?_⟩
        rw [S.scan_of_le hle, List.drop_append, List.drop_eq_nil_of_le hlt.le, List.nil_append]
    · obtain ⟨out, o, ho, hscan⟩ := ih (J.drop (S.advance (J ++ t))).length
        (by rw [List.length_drop]; omega) _ rfl
      refine ⟨S.output (J ++ t) ++ out, o, ho, ?_⟩
      rw [S.scan_of_le hle, List.drop_append_of_le_length hge, hscan, List.append_assoc]

/-! ## Where a scan looks -/

/-- The scan of `s` looks at the position `i`: it starts at the front, and goes
    on from a position by what it consumes there. -/
inductive Stop (s : List α) : ℕ → Prop
  | start : Stop s 0
  | next {i : ℕ} : Stop s i → i + S.width ≤ s.length → Stop s (i + S.advance (s.drop i))

/-- After its first look, the scan looks where that of the rest does. -/
theorem stop_iff {s : List α} (h : S.width ≤ s.length) {i : ℕ} :
    S.Stop s i ↔ i = 0 ∨ ∃ j, i = S.advance s + j ∧ S.Stop (s.drop (S.advance s)) j := by
  have ha := (S.advance_le s).trans h
  constructor
  · intro hi
    induction hi with
    | start => exact .inl rfl
    | next hi hle ih =>
      rcases ih with rfl | ⟨j, rfl, hj⟩
      · exact .inr ⟨0, by simp, .start⟩
      · refine .inr ⟨_, ?_, .next hj (by rw [List.length_drop]; omega)⟩
        rw [List.drop_drop, Nat.add_assoc]
  · rintro (rfl | ⟨j, rfl, hj⟩)
    · exact .start
    · induction hj with
      | start => simpa using (Stop.next (S := S) (s := s) .start (by omega))
      | next hj hle ih =>
        rw [List.length_drop] at hle
        have := ih.next (S := S) (by omega)
        rwa [← List.drop_drop, Nat.add_assoc] at this

/-- The outputs are those of the windows the scan looks at. -/
theorem mem_scan_iff {s : List α} {b : β} :
    b ∈ (S.scan s).1 ↔ ∃ i, S.Stop s i ∧ i + S.width ≤ s.length ∧ b ∈ S.output (s.drop i) := by
  induction s using S.scan_induction with
  | stop s h =>
    rw [S.scan_of_lt h]
    exact ⟨fun hb => absurd hb List.not_mem_nil, fun ⟨i, _, hi, _⟩ => by omega⟩
  | go s h ih =>
    have ha := (S.advance_le s).trans h
    rw [S.scan_of_le h, List.mem_append, ih]
    constructor
    · rintro (hb | ⟨j, hj, hle, hb⟩)
      · exact ⟨0, .start, by omega, hb⟩
      · rw [List.length_drop] at hle
        rw [List.drop_drop] at hb
        exact ⟨_, (S.stop_iff h).2 (.inr ⟨j, rfl, hj⟩), by omega, hb⟩
    · rintro ⟨i, hi, hle, hb⟩
      rcases (S.stop_iff h).1 hi with rfl | ⟨j, rfl, hj⟩
      · exact .inl hb
      · exact .inr ⟨j, hj, by rw [List.length_drop]; omega, by rwa [List.drop_drop]⟩

/-- The outputs `out` come, in order, from pairwise disjoint packets of `s`, at
    the positions `offs`. -/
def Backed (s : List α) (offs : List ℕ) (out : List β) : Prop :=
  offs.Pairwise (fun i j => i + S.width ≤ j) ∧
    List.Forall₂ (fun i b => i + S.width ≤ s.length ∧ S.pattern <+: s.drop i ∧
      S.emit ((s.drop i).take S.width) = some b) offs out

omit [DecidableEq α] in
/-- Packets of a suffix are packets of the stream. -/
theorem Backed.of_drop {s : List α} {a : ℕ} {offs : List ℕ} {out : List β} (ha : a ≤ s.length)
    (h : S.Backed (s.drop a) offs out) : S.Backed s (offs.map (a + ·)) out := by
  refine ⟨List.pairwise_map.2 (h.1.imp fun hij => by omega), List.forall₂_map_left_iff.2 ?_⟩
  refine h.2.imp fun i b ⟨hle, hit, hb⟩ => ?_
  rw [List.length_drop] at hle
  rw [List.drop_drop] at hit hb
  exact ⟨by omega, hit, hb⟩

/-- Every scan is backed: its outputs come from disjoint packets of the stream. -/
theorem scan_backed (s : List α) : ∃ offs, S.Backed s offs (S.scan s).1 := by
  induction s using S.scan_induction with
  | stop s h => exact ⟨[], .nil, by rw [S.scan_of_lt h]; exact .nil⟩
  | go s h ih =>
    obtain ⟨offs, ho⟩ := ih
    have hrest := Backed.of_drop S ((S.advance_le s).trans h) ho
    rw [S.scan_of_le h]
    by_cases hit : S.pattern <+: s
    · rw [S.output_of_hit hit]
      cases he : S.emit (s.take S.width) with
      | none => exact ⟨_, hrest⟩
      | some b =>
        refine ⟨0 :: offs.map (S.advance s + ·), List.pairwise_cons.2 ⟨?_, hrest.1⟩,
          .cons ⟨by omega, hit, he⟩ hrest.2⟩
        intro j hj
        obtain ⟨k, _, rfl⟩ := List.mem_map.1 hj
        rw [S.advance_of_hit hit]; omega
    · rw [S.output_of_miss hit]
      exact ⟨_, hrest⟩

/-! ## Unbordered patterns -/

/-- No proper suffix of `p` is a prefix of it: two occurrences never overlap. -/
def Unbordered (p : List α) : Prop := ∀ k < p.length, 0 < k → ¬p.drop k <+: p

instance (p : List α) : Decidable (Unbordered p) :=
  inferInstanceAs (Decidable (∀ k < p.length, 0 < k → ¬p.drop k <+: p))

omit [DecidableEq α] in
/-- An unbordered pattern does not start in a run without it, even right before
    another occurrence of it. -/
theorem miss_of_unbordered {p g t : List α} (hp : Unbordered p) (hg : ¬p <:+: g) (ht : p <+: t) :
    ∀ i < g.length, ¬p <+: (g ++ t).drop i := by
  intro i hi hit
  rw [List.drop_append_of_le_length hi.le] at hit
  have hlen : (g.drop i).length = g.length - i := List.length_drop
  rcases Nat.lt_or_ge (g.drop i).length p.length with hlt | hge
  · -- The occurrence straddles the end of `g`: its part after it is a border.
    obtain ⟨u, hu⟩ := hit
    have hsplit : p = g.drop i ++ p.drop (g.drop i).length := by
      rw [← List.take_append_drop (g.drop i).length p]
      congr 1
      · have := congrArg (List.take (g.drop i).length) hu
        rwa [List.take_append_of_le_length hlt.le, List.take_left] at this
      · simp
    refine hp _ hlt (by omega) (List.prefix_of_prefix_length_le ⟨u, ?_⟩ ht (by simp))
    have := congrArg (List.drop (g.drop i).length) hu
    rwa [List.drop_append_of_le_length hlt.le, List.drop_left] at this
  · exact hg ((List.prefix_of_prefix_length_le hit (List.prefix_append _ _) hge).isInfix.trans
      (List.drop_suffix _ _).isInfix)

/-- A run without the pattern in front of a packet is skipped. -/
theorem scan_garbage {g t : List α} (hp : Unbordered S.pattern) (hg : ¬S.pattern <:+: g)
    (ht : S.pattern <+: t) (hle : S.width ≤ t.length) : S.scan (g ++ t) = S.scan t :=
  S.scan_skip hle (miss_of_unbordered hp hg ht)

/-! ## Packets after a stray residue -/

/-- `w` is a packet with the output `b`. -/
structure Packet (w : List α) (b : β) : Prop where
  length_eq : w.length = S.width
  hit : S.pattern <+: w
  emit_eq : S.emit w = some b

variable {S}

/-- Packets back to back all come out. -/
theorem scan_packets {ws : List (List α)} {bs : List β} (h : List.Forall₂ S.Packet ws bs)
    (t : List α) : S.scan (ws.flatten ++ t) = (bs ++ (S.scan t).1, (S.scan t).2) := by
  induction h with
  | nil => rfl
  | cons hw _ ih =>
    rw [List.flatten_cons, List.append_assoc, S.scan_packet hw.length_eq hw.hit, ih, hw.emit_eq]
    rfl

/-- A miss in front of a packet drops one element. -/
theorem scan_stray_miss {a : α} {g w t : List α} (hw : w.length = S.width)
    (hit : ¬S.pattern <+: a :: (g ++ w)) :
    S.scan (a :: g ++ (w ++ t)) = S.scan (g ++ (w ++ t)) := by
  have hlen : S.width ≤ (a :: (g ++ w)).length := by
    simp only [List.length_cons, List.length_append]
    omega
  have hmiss : ¬S.pattern <+: a :: (g ++ w) ++ t := fun h => hit ((S.hit_append_iff hlen t).1 h)
  have hx : a :: g ++ (w ++ t) = a :: (g ++ w) ++ t := by simp
  rw [hx, S.scan_of_le (by rw [List.length_append]; omega), S.output_of_miss hmiss,
    S.advance_of_miss hmiss]
  simp

/-- A hit in front of a packet `w` takes a window reaching into `w`, and leaves
    the end of `w` as the new stray. -/
theorem scan_stray_hit {g w t : List α} (hw : w.length = S.width) (hg : g.length ≤ S.width)
    (hit : S.pattern <+: g ++ w) :
    S.scan (g ++ (w ++ t)) = ((S.emit ((g ++ w).take S.width)).toList ++
      (S.scan (w.drop (S.width - g.length) ++ t)).1,
      (S.scan (w.drop (S.width - g.length) ++ t)).2) := by
  have hlen : S.width ≤ (g ++ w).length := by rw [List.length_append]; omega
  have hdrop : (g ++ w).drop S.width = w.drop (S.width - g.length) := by
    rw [List.drop_append, List.drop_eq_nil_of_le hg, List.nil_append]
  rw [← List.append_assoc, S.scan_of_le (by rw [List.length_append]; omega),
    S.output_append hlen, S.advance_append hlen, S.output_of_hit hit, S.advance_of_hit hit,
    List.drop_append_of_le_length hlen, hdrop]

variable (S) in
/-- The stray `g` before the packets `ws` costs none of them: the scan gets
    through it without meeting the pattern, or else the window it then takes is
    (by chance) the next packet all over again, and the end of that packet costs
    none of the following ones. -/
inductive Realigns : List α → List (List α) → Prop
  | aligned {ws : List (List α)} : Realigns [] ws
  | done {g : List α} : Realigns g []
  | skip {a : α} {g w : List α} {ws : List (List α)} :
      ¬S.pattern <+: a :: (g ++ w) → Realigns g (w :: ws) → Realigns (a :: g) (w :: ws)
  | again {g w : List α} {ws : List (List α)} : S.pattern <+: g ++ w →
      (g ++ w).take S.width = w → Realigns (w.drop (S.width - g.length)) ws → Realigns g (w :: ws)

omit [DecidableEq α] in
/-- A stray without the pattern costs nothing. -/
theorem realigns_of_not_infix {g w : List α} {ws : List (List α)} (hp : Unbordered S.pattern)
    (hg : ¬S.pattern <:+: g) (hw : S.pattern <+: w) : S.Realigns g (w :: ws) := by
  induction g with
  | nil => exact .aligned
  | cons a g ih =>
    refine .skip (miss_of_unbordered hp hg hw 0 (Nat.succ_pos _)) (ih fun h => hg ?_)
    exact h.trans (List.suffix_cons a g).isInfix

omit [DecidableEq α] in
/-- A stray opening with the pattern costs nothing iff the window it takes is
    the next packet again, whose end then costs nothing. -/
theorem realigns_iff_of_hit {g w : List α} {ws : List (List α)} (hg : S.pattern <+: g) :
    S.Realigns g (w :: ws) ↔
      (g ++ w).take S.width = w ∧ S.Realigns (w.drop (S.width - g.length)) ws := by
  have hit : S.pattern <+: g ++ w := hg.trans (List.prefix_append _ _)
  refine ⟨fun h => ?_, fun h => .again hit h.1 h.2⟩
  cases h with
  | aligned => exact absurd (List.prefix_nil.1 hg) S.pattern_ne_nil
  | skip hmiss _ => exact absurd hit hmiss
  | again _ htake hrest => exact ⟨htake, hrest⟩

theorem sublist_scan_of_realigns {g : List α} {ws : List (List α)} {bs : List β}
    (h : S.Realigns g ws) (hg : g.length < S.width) (hws : List.Forall₂ S.Packet ws bs) :
    bs.Sublist (S.scan (g ++ ws.flatten)).1 := by
  induction h generalizing bs with
  | @aligned ws =>
    have := scan_packets hws []
    rw [List.append_nil] at this
    rw [List.nil_append, this]
    exact List.sublist_append_left _ _
  | done =>
    cases hws
    exact List.nil_sublist _
  | @skip a g w ws hmiss _ ih =>
    cases hws with
    | cons hw hws =>
      rw [List.flatten_cons, scan_stray_miss hw.length_eq hmiss, ← List.flatten_cons]
      exact ih (by rw [List.length_cons] at hg; omega) (.cons hw hws)
  | @again g w ws hit htake _ ih =>
    cases hws with
    | cons hw hws =>
      rw [List.flatten_cons, scan_stray_hit hw.length_eq hg.le hit, htake, hw.emit_eq]
      refine List.Sublist.cons_cons _ (ih ?_ hws)
      rw [List.length_drop, hw.length_eq]; omega

omit [DecidableEq α] in
theorem length_flatten_packets {ws : List (List α)} {bs : List β}
    (hws : List.Forall₂ S.Packet ws bs) : ws.flatten.length = bs.length * S.width := by
  induction hws with
  | nil => simp
  | cons hw _ ih =>
    rw [List.flatten_cons, List.length_append, hw.length_eq, ih, List.length_cons, Nat.succ_mul,
      Nat.add_comm]

/-- There is no room for more than `n` packets in `n` of them and a stray. -/
theorem length_scan_le {g : List α} {ws : List (List α)} {bs : List β} (hg : g.length < S.width)
    (hws : List.Forall₂ S.Packet ws bs) : (S.scan (g ++ ws.flatten)).1.length ≤ bs.length := by
  have hmul := S.length_scan_mul_le (g ++ ws.flatten)
  rw [List.length_append, length_flatten_packets hws] at hmul
  by_contra hlt
  have := Nat.mul_le_mul_right S.width (Nat.succ_le_of_lt (not_le.1 hlt))
  rw [Nat.succ_mul] at this
  omega

/-- A stray opening with the pattern costs nothing only if the window it takes
    has the output of the packet it eats into. -/
theorem sublist_of_stray_hit {g w : List α} {ws : List (List α)} {b : β} {bs : List β}
    (hw : w.length = S.width) (hws : List.Forall₂ S.Packet ws bs) (hg : g.length < S.width)
    (hit : S.pattern <+: g ++ w) (hsub : (b :: bs).Sublist (S.scan (g ++ (w :: ws).flatten)).1) :
    S.emit ((g ++ w).take S.width) = some b ∧
      bs.Sublist (S.scan (w.drop (S.width - g.length) ++ ws.flatten)).1 := by
  have hstray : (w.drop (S.width - g.length)).length < S.width := by rw [List.length_drop]; omega
  have hroom := length_scan_le hstray hws
  rw [List.flatten_cons, scan_stray_hit hw hg.le hit] at hsub
  cases he : S.emit ((g ++ w).take S.width) with
  | none =>
    rw [he] at hsub
    have := hsub.length_le
    simp only [Option.toList_none, List.nil_append, List.length_cons] at this
    omega
  | some c =>
    rw [he, Option.toList_some, List.singleton_append] at hsub
    rcases List.sublist_cons_iff.1 hsub with hrest | ⟨_, hc, hrest⟩
    · have := hrest.length_le
      rw [List.length_cons] at this
      omega
    · obtain ⟨rfl, rfl⟩ := List.cons.inj hc
      exact ⟨rfl, hrest⟩

/-- A stray shorter than a window costs none of the packets after it exactly
    when it realigns with them, provided packets are told apart by their outputs. -/
theorem sublist_scan_iff (hinj : ∀ {w w' : List α} {b : β}, S.Packet w b → S.Packet w' b → w = w')
    {g : List α} {ws : List (List α)} {bs : List β} (hg : g.length < S.width)
    (hws : List.Forall₂ S.Packet ws bs) :
    bs.Sublist (S.scan (g ++ ws.flatten)).1 ↔ S.Realigns g ws := by
  refine ⟨fun hsub => ?_, fun h => sublist_scan_of_realigns h hg hws⟩
  induction hws generalizing g with
  | nil => exact .done
  | @cons w b ws bs hw hws ih =>
    induction g with
    | nil => exact .aligned
    | cons a g ihg =>
      by_cases hit : S.pattern <+: a :: g ++ w
      · obtain ⟨he, hrest⟩ := sublist_of_stray_hit hw.length_eq hws hg hit hsub
        have htake : (a :: g ++ w).take S.width = w := by
          refine hinj ⟨?_, List.prefix_take_iff.2 ⟨hit, S.pattern_length_le⟩, he⟩ hw
          rw [List.length_take, List.length_append, hw.length_eq]; omega
        refine .again hit htake (ih ?_ hrest)
        rw [List.length_drop, hw.length_eq]; omega
      · rw [List.flatten_cons, scan_stray_miss hw.length_eq hit, ← List.flatten_cons] at hsub
        exact .skip hit (ihg (by rw [List.length_cons] at hg; omega) hsub)

end Scanner

end Theory
