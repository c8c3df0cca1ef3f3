import Mathlib.Data.List.Basic

/-!
# Lines of a text file

A file that is read as text is not read as it is under Windows: a carriage return in
front of a line feed is dropped, and the file ends at the first control-Z (`textMode`).
It is then read line by line (`getLines`).

A file of texts, each with a line feed behind it, is read back as these texts, apart from
carriage returns at their ends, if the texts have neither line feeds nor control-Z
(`getLines_textMode`). And no line that is read has any (`notMem_of_mem_getLines`).
-/

namespace Theory

/-- A file as it is read in text mode. -/
def textMode : List Char → List Char
  | [] => []
  | '\r' :: '\n' :: l => '\n' :: textMode l
  | c :: l => if c = '\x1a' then [] else c :: textMode l

/-- `std::getline`, until the stream fails. -/
def getLines : List Char → List (List Char)
  | [] => []
  | c :: l =>
    if c = '\n' then [] :: getLines l
    else
      match getLines l with
      | [] => [[c]]
      | u :: us => (c :: u) :: us

/-- The text without a carriage return at its end. -/
def dropCr : List Char → List Char
  | [] => []
  | ['\r'] => []
  | c :: l => c :: dropCr l

theorem dropCr_isPrefix (u : List Char) : dropCr u <+: u := by
  fun_induction dropCr u with
  | case1 => exact List.nil_prefix
  | case2 => exact List.nil_prefix
  | case3 c l _ ih => exact List.cons_prefix_cons.2 ⟨rfl, ih⟩

theorem dropCr_of_ne {u : List Char} (h : u.getLast? ≠ some '\r') : dropCr u = u := by
  fun_induction dropCr u with
  | case1 => rfl
  | case2 => exact absurd rfl h
  | case3 c l hcr ih =>
    rcases l with _ | ⟨d, l⟩
    · rfl
    · rw [ih (by rwa [List.getLast?_cons_cons] at h)]

theorem dropCr_ne_of_eq {u : List Char} (h : u.getLast? = some '\r') : dropCr u ≠ u := by
  fun_induction dropCr u with
  | case1 => exact absurd h (by simp)
  | case2 => simp
  | case3 c l hcr ih =>
    rcases l with _ | ⟨d, l⟩
    · exact absurd (Option.some.inj h) fun hc => hcr hc rfl
    · rw [List.getLast?_cons_cons] at h
      exact fun heq => ih h (List.cons.inj heq).2

theorem textMode_cons {c : Char} {l : List Char} (hc : c ≠ '\x1a')
    (h : c = '\r' → l.head? ≠ some '\n') : textMode (c :: l) = c :: textMode l := by
  rw [textMode, if_neg hc]
  rintro l' rfl rfl
  exact h rfl rfl

/-- A text with a line feed behind it is read, less a carriage return at its end. -/
theorem textMode_append {u : List Char} (hnl : '\n' ∉ u) (hz : '\x1a' ∉ u) (l : List Char) :
    textMode (u ++ '\n' :: l) = dropCr u ++ '\n' :: textMode l := by
  have hend : textMode ('\n' :: l) = '\n' :: textMode l :=
    textMode_cons (by decide) fun h => absurd h (by decide)
  fun_induction dropCr u with
  | case1 => exact hend
  | case2 => rfl
  | case3 c u hcr ih =>
    rw [List.mem_cons, not_or] at hnl hz
    rw [List.cons_append, textMode_cons (Ne.symm hz.1), ih hnl.2 hz.2, List.cons_append]
    -- A carriage return that is not the last character has no line feed behind it.
    rintro rfl
    rcases u with _ | ⟨d, u⟩
    · exact absurd rfl (hcr rfl)
    · rw [List.cons_append, List.head?_cons]
      exact fun hd => hnl.2 (List.mem_cons.2 (.inl (Option.some.inj hd).symm))

theorem notMem_textMode (l : List Char) : '\x1a' ∉ textMode l := by
  fun_induction textMode l with
  | case1 => exact List.not_mem_nil
  | case2 l ih => simpa using ih
  | case3 => exact List.not_mem_nil
  | case4 c l _ hc ih => exact fun h => (List.mem_cons.1 h).elim (Ne.symm hc) ih

theorem getLines_append {u : List Char} (hnl : '\n' ∉ u) (l : List Char) :
    getLines (u ++ '\n' :: l) = u :: getLines l := by
  induction u with
  | nil => rw [List.nil_append, getLines, if_pos rfl]
  | cons c u ih =>
    rw [List.mem_cons, not_or] at hnl
    rw [List.cons_append, getLines, if_neg (Ne.symm hnl.1), ih hnl.2]

/-- The characters of a line are those of the file, and no line feeds. -/
theorem mem_of_mem_getLines {l u : List Char} (hu : u ∈ getLines l) {c : Char} (hc : c ∈ u) :
    c ∈ l ∧ c ≠ '\n' := by
  induction l generalizing u c with
  | nil => exact absurd hu List.not_mem_nil
  | cons d l ih =>
    rw [getLines] at hu
    split_ifs at hu with hd
    · rcases List.mem_cons.1 hu with rfl | hu
      · exact absurd hc List.not_mem_nil
      · exact (ih hu hc).imp_left (List.mem_cons_of_mem d)
    · split at hu
      -- The character begins the last line, or is put in front of the first one.
      · obtain rfl := List.mem_singleton.1 hu
        obtain rfl := List.mem_singleton.1 hc
        exact ⟨List.mem_cons_self, hd⟩
      · next v vs hvs =>
        rw [hvs] at ih
        rcases List.mem_cons.1 hu with rfl | hu
        · rcases List.mem_cons.1 hc with rfl | hc
          · exact ⟨List.mem_cons_self, hd⟩
          · exact (ih List.mem_cons_self hc).imp_left (List.mem_cons_of_mem d)
        · exact (ih (List.mem_cons_of_mem v hu) hc).imp_left (List.mem_cons_of_mem d)

/-- No line has a line feed or a control-Z. -/
theorem notMem_of_mem_getLines {l u : List Char} (hu : u ∈ getLines (textMode l)) :
    '\n' ∉ u ∧ '\x1a' ∉ u :=
  ⟨fun h => (mem_of_mem_getLines hu h).2 rfl,
    fun h => notMem_textMode l (mem_of_mem_getLines hu h).1⟩

/-- Texts without line feeds are the lines of their file. -/
theorem getLines_textMode {us : List (List Char)} (h : ∀ u ∈ us, '\n' ∉ u ∧ '\x1a' ∉ u) :
    getLines (textMode (us.flatMap (· ++ ['\n']))) = us.map dropCr := by
  induction us with
  | nil => rfl
  | cons u us ih =>
    rw [List.forall_mem_cons] at h
    have hnl : '\n' ∉ dropCr u := fun hmem => h.1.1 ((dropCr_isPrefix u).subset hmem)
    rw [List.flatMap_cons, List.append_assoc, List.singleton_append,
      textMode_append h.1.1 h.1.2, getLines_append hnl, ih h.2, List.map_cons]

end Theory
