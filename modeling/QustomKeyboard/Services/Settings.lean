import QustomKeyboard.Can.DidGrid
import QustomKeyboard.Theory.Split
import Mathlib

/-!
# The used pages

The settings hold which pages of the window are used, as a text: their names, separated by commas.
It is read by looking for each of the names, in any case. No name occurs in another one, nor does
one reach over a comma, so any choice of pages is got back (`parseUsedPages_roundTrip`).
-/

namespace QustomKeyboard

open Theory

/-- The pages, in the order in which they are written. -/
inductive Page
  | main
  | config
  | wxeditor
  | mapConverter
  | escaper
  | debug
  | structParser
  | fileBrowser
  | cmdExecutor
  | can
  | did
  | modbusMaster
  | log
  deriving DecidableEq

namespace Page

/-- The name of a page in the settings. -/
def text : Page → List Char
  | main => ['M', 'a', 'i', 'n']
  | config => ['C', 'o', 'n', 'f', 'i', 'g']
  | wxeditor => ['w', 'x', 'E', 'd', 'i', 't', 'o', 'r']
  | mapConverter => ['M', 'a', 'p']
  | escaper => ['S', 't', 'r', 'i', 'n', 'g', 'E', 's', 'c', 'a', 'p', 'e', 'r']
  | debug => ['D', 'e', 'b', 'u', 'g']
  | structParser => ['S', 't', 'r', 'u', 'c', 't', 'P', 'a', 'r', 's', 'e', 'r']
  | fileBrowser => ['F', 'i', 'l', 'e', 'B', 'r', 'o', 'w', 's', 'e', 'r']
  | cmdExecutor => ['C', 'm', 'd', 'E', 'x', 'e', 'c', 'u', 't', 'o', 'r']
  | can => ['C', 'a', 'n', 'S', 'e', 'n', 'd', 'e', 'r']
  | did => ['D', 'i', 'd']
  | modbusMaster => ['M', 'o', 'd', 'b', 'u', 's', 'M', 'a', 's', 't', 'e', 'r']
  | log => ['L', 'o', 'g']

def all : List Page :=
  [main, config, wxeditor, mapConverter, escaper, debug, structParser, fileBrowser, cmdExecutor,
    can, did, modbusMaster, log]

theorem mem_all (p : Page) : p ∈ all := by
  cases p <;> simp [all]

end Page

/-- `UsedPages`: a bit for each page. -/
abbrev UsedPages := Page → Bool

/-- `Settings::ParseUsedPagesFromString` -/
def parseUsedPagesFromString (input : List Char) : UsedPages :=
  fun p => DidTab.icontains input p.text

/-- What is put behind the name of a page. -/
def pageSeparator : List Char := [',', ' ']

/-- `Settings::ParseUsedPagesToString` -/
def parseUsedPagesToString (input : UsedPages) : List Char :=
  let pages := Page.all.foldl
    (fun pages p => if input p then pages ++ p.text ++ pageSeparator else pages) []
  if pages.length > 2 then pages.dropLast.dropLast else pages

theorem foldl_pages (input : UsedPages) (ps : List Page) (pages : List Char) :
    ps.foldl (fun pages p => if input p then pages ++ p.text ++ pageSeparator else pages) pages =
      pages ++ (ps.filter input).flatMap fun p => p.text ++ pageSeparator := by
  induction ps generalizing pages with
  | nil => exact (List.append_nil _).symm
  | cons p ps ih =>
    rw [List.foldl_cons, ih]
    cases hp : input p with
    | true => rw [if_pos rfl, List.filter_cons_of_pos hp, List.flatMap_cons, List.append_assoc,
        List.append_assoc, List.append_assoc]
    | false => rw [if_neg Bool.false_ne_true, List.filter_cons_of_neg (by simp [hp])]

/-- The text, with a last separator, is the names with theirs. -/
theorem parseUsedPagesToString_append (input : UsedPages) (h : Page.all.filter input ≠ []) :
    parseUsedPagesToString input ++ pageSeparator =
      (Page.all.filter input).flatMap fun p => p.text ++ pageSeparator := by
  obtain ⟨front, p, hp⟩ := (List.eq_nil_or_concat' _).resolve_left h
  rw [parseUsedPagesToString, foldl_pages, List.nil_append, hp, List.flatMap_append,
    List.flatMap_singleton, ← List.append_assoc]
  generalize hnames : front.flatMap (fun p => p.text ++ pageSeparator) ++ p.text = names
  have hne : names ≠ [] := by
    rw [← hnames]
    cases p <;> simp [Page.text]
  have hlast : (names ++ pageSeparator).dropLast.dropLast = names := by
    change (names ++ [',', ' ']).dropLast.dropLast = names
    rw [List.append_cons, List.dropLast_concat, List.dropLast_concat]
  have hlen : (names ++ pageSeparator).length > 2 := by
    rw [List.length_append]
    exact Nat.lt_add_of_pos_left (List.length_pos_iff.2 hne)
  change (if (names ++ pageSeparator).length > 2 then _ else _) ++ _ = _
  rw [if_pos hlen, hlast]

/-- A name occurs in no other one, in any case. -/
theorem icontains_text (p q : Page) : DidTab.icontains q.text p.text = decide (q = p) := by
  have hall : ∀ q ∈ Page.all, ∀ p ∈ Page.all,
      DidTab.icontains q.text p.text = decide (q = p) := by decide +kernel
  exact hall q q.mem_all p p.mem_all

/-- No separator is found in a name. -/
theorem notMem_text (p : Page) :
    ∀ c ∈ pageSeparator.map Char.toUpper, c ∉ p.text.map Char.toUpper := by
  have hall : ∀ p ∈ Page.all, (pageSeparator.map Char.toUpper).all
      (fun c => !(p.text.map Char.toUpper).contains c) = true := by decide +kernel
  intro c hc hmem
  have := List.all_eq_true.1 (hall p p.mem_all) c hc
  rw [List.contains_iff_mem.2 hmem] at this
  cases this

/-- The pages that are read are those that have been written. -/
theorem parseUsedPages_roundTrip (input : UsedPages) :
    parseUsedPagesFromString (parseUsedPagesToString input) = input := by
  funext p
  have hname : p.text.map Char.toUpper ≠ [] := by
    cases p <;> exact List.cons_ne_nil _ _
  have hsep : pageSeparator.map Char.toUpper ≠ [] := List.cons_ne_nil _ _
  rw [parseUsedPagesFromString, Bool.eq_iff_iff, DidTab.icontains, decide_eq_true_iff]
  by_cases hnone : Page.all.filter input = []
  · rw [parseUsedPagesToString, foldl_pages, hnone]
    exact iff_of_false (mt List.infix_nil.1 hname) (List.filter_eq_nil_iff.1 hnone p p.mem_all)
  · have hnames : (parseUsedPagesToString input ++ pageSeparator).map Char.toUpper =
        ((Page.all.filter input).map fun q => q.text.map Char.toUpper).flatMap
          (· ++ pageSeparator.map Char.toUpper) := by
      rw [parseUsedPagesToString_append input hnone, List.map_flatMap, List.flatMap_map]
      simp only [List.map_append]
    rw [← infix_append_sep_iff hname (notMem_text p), ← List.map_append, hnames,
      infix_flatMap_append_iff hname hsep (notMem_text p)]
    -- The name that it occurs in is its own.
    constructor
    · rintro ⟨_, ht, hinfix⟩
      obtain ⟨q, hq, rfl⟩ := List.mem_map.1 ht
      have hcontains : DidTab.icontains q.text p.text = true := decide_eq_true hinfix
      rw [icontains_text, decide_eq_true_iff] at hcontains
      rw [← hcontains]
      exact (List.mem_filter.1 hq).2
    · exact fun hp => ⟨_, List.mem_map_of_mem (List.mem_filter.2 ⟨p.mem_all, hp⟩), List.infix_rfl⟩

end QustomKeyboard
