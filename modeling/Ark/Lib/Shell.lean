import Mathlib.Data.List.DropRight
import Ark.Lib.Python

/- What a shell script does with texts: what `$(…)` gives, `grep -q`, the fields of a
   line, and `${text%1*}`.

   A value that is printed with a line break after it, and read again by a program that
   does not mind blanks around it, is the value (`strip_substitute`); and of several
   lines that are read as one number, one is that number (`strip_lines`). -/
namespace Ark.Lib.Shell
open Ark.Lib.Python (isSpace strip strip_append_left strip_append_right mem_strip parseInt
  parseInt_congr parseInt_noBreak)

/-- A text without the character 0, which no variable holds. -/
def dropNul (text : List Char) : List Char := text.filter fun c => c ≠ Char.ofNat 0

/-- `$(…)` of a command that prints `text`. -/
def substitute (text : List Char) : List Char := (dropNul text).rdropWhile fun c => c = '\n'

/-- `grep -q`, of a part without line breaks. -/
def shows (part text : List Char) : Bool := part <:+: text

def isBlank (c : Char) : Bool := c = ' ' ∨ c = '\t' ∨ c = '\n'

/-- The field `$1` of a line. -/
def firstField (line : List Char) : List Char :=
  (line.dropWhile isBlank).takeWhile fun c => !isBlank c

/-- What stands after it. -/
def afterFirstField (line : List Char) : List Char :=
  (line.dropWhile isBlank).dropWhile fun c => !isBlank c

/-- The lines of a text, with or without a line break at its end. -/
def splitLines (text : List Char) : List (List Char) :=
  text.foldr (fun c lines =>
    if c = '\n' then [] :: lines
    else
      match lines with
      | [] => [[c]]
      | line :: lines => (c :: line) :: lines) []

/-- `${text%c*}`: what stands before the last `c`. -/
def beforeLast (c : Char) (text : List Char) : List Char :=
  match text.reverse.dropWhile fun d => d ≠ c with
  | [] => text
  | _ :: before => before.reverse

/-- Lines, each with its line break. -/
def unlines (lines : List (List Char)) : List Char := lines.flatMap fun line => line ++ ['\n']

theorem shows_extends {part text text' : List Char} (h : text <+: text')
    (hshows : shows part text = true) : shows part text' = true := by
  have hpart : part <:+: text := of_decide_eq_true hshows
  exact decide_eq_true (hpart.trans h.isInfix)

theorem filter_ne_self {c : Char} {line : List Char} (h : c ∉ line) :
    line.filter (fun d => d ≠ c) = line := by
  apply List.filter_eq_self.mpr
  intro d hd
  apply decide_eq_true
  intro heq
  exact h (heq ▸ hd)

/-- `$(…)` takes away nothing but line breaks. -/
theorem substitute_append (text : List Char) :
    ∃ breaks, dropNul text = substitute text ++ breaks ∧ ∀ c ∈ breaks, c = '\n' := by
  refine ⟨(dropNul text).rtakeWhile fun c => c = '\n',
    (List.rdropWhile_append_rtakeWhile ..).symm, ?_⟩
  intro c hc
  simpa using List.mem_rtakeWhile_imp hc

theorem strip_substitute (text : List Char) : strip (substitute text) = strip (dropNul text) := by
  obtain ⟨breaks, hsplit, hbreaks⟩ := substitute_append text
  have hblank : ∀ c ∈ breaks, isSpace c = true := by
    intro c hc
    rw [hbreaks c hc]
    decide
  rw [hsplit, strip_append_right hblank]

/-- A line that a program prints is what the variable holds. -/
theorem substitute_line {line : List Char} (hnul : Char.ofNat 0 ∉ line) (hbreak : '\n' ∉ line) :
    substitute (unlines [line]) = line := by
  have hkeep : dropNul line = line := filter_ne_self hnul
  have htext : dropNul (unlines [line]) = line ++ ['\n'] := by
    have hlines : unlines [line] = line ++ ['\n'] := by simp [unlines]
    rw [hlines]
    unfold dropNul at hkeep ⊢
    rw [List.filter_append, hkeep]
    rfl
  unfold substitute
  rw [htext, List.rdropWhile_concat_pos _ _ _ (by decide)]
  apply List.rdropWhile_eq_self_iff.mpr
  intro hne hlast
  exact hbreak (of_decide_eq_true hlast ▸ List.getLast_mem hne)

theorem dropNul_unlines (lines : List (List Char)) :
    dropNul (unlines lines) = unlines (lines.map dropNul) := by
  induction lines with
  | nil => rfl
  | cons line lines ih =>
    unfold unlines dropNul at ih ⊢
    rw [List.flatMap_cons, List.filter_append, List.filter_append, ih]
    rfl

theorem filter_unlines {lines : List (List Char)} (h : ∀ line ∈ lines, '\n' ∉ line) :
    (unlines lines).filter (fun c => c ≠ '\n') = lines.flatten := by
  induction lines with
  | nil => rfl
  | cons line lines ih =>
    obtain ⟨hline, hlines⟩ := List.forall_mem_cons.mp h
    have hcons : unlines (line :: lines) = line ++ '\n' :: unlines lines := by simp [unlines]
    rw [hcons, List.filter_append, filter_ne_self hline, List.filter_cons_of_neg (by simp),
      ih hlines, List.flatten_cons]

/-- Line breaks apart, a variable holds what is in the lines. -/
theorem filter_substitute {lines : List (List Char)} (hnul : ∀ line ∈ lines, Char.ofNat 0 ∉ line)
    (hbreak : ∀ line ∈ lines, '\n' ∉ line) :
    (substitute (unlines lines)).filter (fun c => c ≠ '\n') = lines.flatten := by
  obtain ⟨breaks, hsplit, hbreaks⟩ := substitute_append (unlines lines)
  have hkeep : lines.map dropNul = lines := by
    conv_rhs => rw [← List.map_id lines]
    exact List.map_congr_left fun line hline => filter_ne_self (hnul line hline)
  have hnone : breaks.filter (fun c => c ≠ '\n') = [] := by
    apply List.filter_eq_nil_iff.mpr
    intro c hc
    simp [hbreaks c hc]
  rw [dropNul_unlines, hkeep] at hsplit
  calc (substitute (unlines lines)).filter (fun c => c ≠ '\n')
      = (substitute (unlines lines) ++ breaks).filter (fun c => c ≠ '\n') := by
        rw [List.filter_append, hnone, List.append_nil]
    _ = (unlines lines).filter (fun c => c ≠ '\n') := by rw [← hsplit]
    _ = lines.flatten := filter_unlines hbreak

/-- Lines that hold no line break between their blanks have all but blanks in one line. -/
theorem strip_lines {lines : List (List Char)} (hbreak : '\n' ∉ strip (unlines lines))
    (hne : strip (unlines lines) ≠ []) :
    ∃ line ∈ lines, strip line = strip (unlines lines) := by
  induction lines with
  | nil => exact absurd rfl hne
  | cons line lines ih =>
    have hcons : unlines (line :: lines) = line ++ '\n' :: unlines lines := by
      simp [unlines]
    rw [hcons] at hbreak hne ⊢
    by_cases hblank : ∀ c ∈ line, isSpace c = true
    · -- the text is in a later line
      have hstrip : strip (line ++ '\n' :: unlines lines) = strip (unlines lines) := by
        rw [List.append_cons]
        apply strip_append_left
        intro c hc
        cases List.mem_append.mp hc with
        | inl hc => exact hblank c hc
        | inr hc =>
          rw [List.mem_singleton.mp hc]
          decide
      rw [hstrip] at hbreak hne ⊢
      obtain ⟨later, hlater, heq⟩ := ih hbreak hne
      exact ⟨later, List.mem_cons_of_mem line hlater, heq⟩
    · by_cases hrest : ∀ c ∈ unlines lines, isSpace c = true
      · refine ⟨line, List.mem_cons_self, (strip_append_right ?_).symm⟩
        intro c hc
        cases List.mem_cons.mp hc with
        | inl hc =>
          rw [hc]
          decide
        | inr hc => exact hrest c hc
      · -- the break is between the two, and nothing strips it
        simp only [not_forall] at hblank hrest
        obtain ⟨x, hx, hxs⟩ := hblank
        obtain ⟨y, hy, hys⟩ := hrest
        exact absurd (mem_strip hx hy (Bool.eq_false_of_not_eq_true hxs)
          (Bool.eq_false_of_not_eq_true hys)) hbreak

theorem strip_line (line : List Char) :
    strip (substitute (unlines [line])) = strip (dropNul line) := by
  have hlines : unlines [dropNul line] = dropNul line ++ ['\n'] := by simp [unlines]
  rw [strip_substitute, dropNul_unlines, List.map_singleton, hlines]
  apply strip_append_right
  intro c hc
  rw [List.mem_singleton.mp hc]
  decide

/-- Of lines that Python reads as one number, one reads as that number. -/
theorem parseInt_lines {unicode : Char → Option Nat} {lines : List (List Char)} {n : Int}
    (h : parseInt unicode (substitute (unlines lines)) = some n) :
    ∃ line ∈ lines, parseInt unicode (substitute (unlines [line])) = some n := by
  obtain ⟨hbreak, hne⟩ := parseInt_noBreak h
  rw [strip_substitute, dropNul_unlines] at hbreak hne
  obtain ⟨line', hline', hstrip⟩ := strip_lines hbreak hne
  obtain ⟨line, hline, hdrop⟩ := List.mem_map.mp hline'
  refine ⟨line, hline, ?_⟩
  rw [← h]
  apply parseInt_congr
  rw [strip_line, hdrop, hstrip, strip_substitute, dropNul_unlines]

/-- A variable holds no character 0. -/
theorem noNul_substitute (text : List Char) : Char.ofNat 0 ∉ substitute text := by
  intro hnul
  have hkept := (List.mem_filter.mp ((List.rdropWhile_prefix _ _).subset hnul)).2
  exact of_decide_eq_true hkept rfl

theorem beforeLast_subset {c : Char} {text : List Char} : ∀ d ∈ beforeLast c text, d ∈ text := by
  intro d hd
  unfold beforeLast at hd
  split at hd
  · exact hd
  · rename_i first before heq
    apply List.mem_reverse.mp
    apply (List.dropWhile_sublist fun d => d ≠ c).subset
    rw [heq]
    exact List.mem_cons_of_mem first (List.mem_reverse.mp hd)

/-! ## Lines and fields -/

theorem splitLines_cons {line rest : List Char} (h : '\n' ∉ line) :
    splitLines (line ++ '\n' :: rest) = line :: splitLines rest := by
  induction line with
  | nil => rfl
  | cons c line ih =>
    obtain ⟨hc, hline⟩ := List.ne_and_not_mem_of_not_mem_cons h
    have hstep : splitLines (c :: (line ++ '\n' :: rest)) =
        match splitLines (line ++ '\n' :: rest) with
        | [] => [[c]]
        | line :: lines => (c :: line) :: lines := if_neg (Ne.symm hc)
    rw [List.cons_append, hstep, ih hline]

theorem splitLines_unlines {lines : List (List Char)} (h : ∀ line ∈ lines, '\n' ∉ line) :
    splitLines (unlines lines) = lines := by
  induction lines with
  | nil => rfl
  | cons line lines ih =>
    obtain ⟨hline, hlines⟩ := List.forall_mem_cons.mp h
    have hcons : unlines (line :: lines) = line ++ '\n' :: unlines lines := by simp [unlines]
    rw [hcons, splitLines_cons hline, ih hlines]

section Fields
variable {word rest line : List Char}

theorem dropWhile_blank (hne : word ≠ []) (hword : ∀ c ∈ word, isBlank c = false) :
    (word ++ rest).dropWhile isBlank = word ++ rest := by
  cases word with
  | nil => exact absurd rfl hne
  | cons c cs =>
    rw [List.cons_append, List.dropWhile_cons_of_neg (by simp [hword c List.mem_cons_self])]

/-- A line that begins with a word and a blank has the word for its first field. -/
theorem firstField_word (hne : word ≠ []) (hword : ∀ c ∈ word, isBlank c = false) :
    firstField (word ++ ' ' :: rest) = word := by
  unfold firstField
  rw [dropWhile_blank hne hword, List.takeWhile_append_of_pos (by simpa using hword),
    List.takeWhile_cons_of_neg (by decide), List.append_nil]

theorem afterFirstField_word (hne : word ≠ []) (hword : ∀ c ∈ word, isBlank c = false) :
    afterFirstField (word ++ ' ' :: rest) = ' ' :: rest := by
  unfold afterFirstField
  rw [dropWhile_blank hne hword, List.dropWhile_append_of_pos (by simpa using hword),
    List.dropWhile_cons_of_neg (by decide)]

theorem firstField_subset : ∀ c ∈ firstField line, c ∈ line ∧ isBlank c = false := by
  intro c hc
  have hmem := (List.takeWhile_prefix _).subset hc
  refine ⟨(List.dropWhile_sublist isBlank).subset hmem, ?_⟩
  simpa using List.mem_takeWhile_imp hc

theorem firstField_ne_nil (h : ∃ c ∈ line, isBlank c = false) : firstField line ≠ [] := by
  obtain ⟨c, hc, hblank⟩ := h
  unfold firstField
  cases hrest : line.dropWhile isBlank with
  | nil =>
    have hall := List.dropWhile_eq_nil_iff.mp hrest c hc
    rw [hblank] at hall
    exact absurd hall (by decide)
  | cons d rest =>
    have hd : isBlank d = false := by
      have := List.head?_dropWhile_not isBlank line
      rw [hrest] at this
      simpa using this
    rw [List.takeWhile_cons_of_pos (by simp [hd])]
    exact List.cons_ne_nil d _

end Fields
end Ark.Lib.Shell
