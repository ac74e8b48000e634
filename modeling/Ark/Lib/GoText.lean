import Mathlib.Algebra.Group.Nat.Defs
import Mathlib.Data.List.Infix
import Ark.Lib.Positional

/- Go strings: bytes, which need not be valid UTF-8.

   `TrimSpace` takes white space off both ends, rune by rune (`trimStart`, on the
   reversed text for the end). A rune of white space is recognised by its UTF-8
   bytes, which nothing else can start or end with, so a text that is not valid
   UTF-8 needs no case of its own.

   `ParseUint` reads decimal digits into a 64-bit word and stops where the next digit
   does not fit. That it stops exactly for the numerals from 2^64 on is
   `parseUint_eq_some`. -/
namespace Ark.Lib.Go
open Ark.Lib.Positional

abbrev Text := List UInt8

/-- The bytes of a literal. -/
def ascii (s : String) : Text := s.toList.map fun c => UInt8.ofNat c.toNat

/-! ## White space -/

/-- The runes of `unicode.IsSpace`. -/
def spaces : List Text :=
  [[0x09], [0x0a], [0x0b], [0x0c], [0x0d], [0x20], [0xc2, 0x85], [0xc2, 0xa0],
   [0xe1, 0x9a, 0x80], [0xe2, 0x80, 0x80], [0xe2, 0x80, 0x81], [0xe2, 0x80, 0x82],
   [0xe2, 0x80, 0x83], [0xe2, 0x80, 0x84], [0xe2, 0x80, 0x85], [0xe2, 0x80, 0x86],
   [0xe2, 0x80, 0x87], [0xe2, 0x80, 0x88], [0xe2, 0x80, 0x89], [0xe2, 0x80, 0x8a],
   [0xe2, 0x80, 0xa8], [0xe2, 0x80, 0xa9], [0xe2, 0x80, 0xaf], [0xe2, 0x81, 0x9f],
   [0xe3, 0x80, 0x80]]

/-- A round takes one rune off, so the length of the text is fuel enough. -/
def trimStart (spaces : List Text) : Nat → Text → Text
  | 0, s => s
  | fuel + 1, s =>
    match spaces.find? (·.isPrefixOf s) with
    | some space => trimStart spaces fuel (s.drop space.length)
    | none => s

/-- `strings.TrimSpace`. -/
def trimSpace (s : Text) : Text :=
  let s := trimStart spaces s.length s
  (trimStart (spaces.map List.reverse) s.length s.reverse).reverse

section Trimming
variable {spaces : List Text}

theorem trimStart_suffix (fuel : Nat) (s : Text) : trimStart spaces fuel s <:+ s := by
  induction fuel generalizing s with
  | zero => exact List.suffix_refl s
  | succ fuel ih =>
    unfold trimStart
    split
    · exact (ih _).trans (List.drop_suffix _ s)
    · exact List.suffix_refl s

/-- What is left does not start with white space. -/
theorem not_prefix_trimStart (hne : [] ∉ spaces) {fuel : Nat} {s : Text} (hfuel : s.length ≤ fuel)
    {space : Text} (hspace : space ∈ spaces) : ¬ space <+: trimStart spaces fuel s := by
  induction fuel generalizing s with
  | zero =>
    intro hpre
    rw [trimStart, List.eq_nil_of_length_eq_zero (by omega : s.length = 0)] at hpre
    rw [List.prefix_nil.mp hpre] at hspace
    exact hne hspace
  | succ fuel ih =>
    unfold trimStart
    split
    case h_1 found hfound =>
      have hlen : 0 < found.length := by
        apply List.length_pos_iff.mpr
        intro hnil
        rw [hnil] at hfound
        exact hne (List.mem_of_find?_eq_some hfound)
      apply ih
      rw [List.length_drop]
      omega
    case h_2 hfound =>
      intro hpre
      have hnot := List.find?_eq_none.mp hfound space hspace
      exact hnot (List.isPrefixOf_iff_prefix.mpr hpre)

theorem trimStart_eq_self {fuel : Nat} {s : Text} (h : ∀ space ∈ spaces, ¬ space <+: s) :
    trimStart spaces fuel s = s := by
  cases fuel with
  | zero => rfl
  | succ fuel =>
    have hnone : spaces.find? (·.isPrefixOf s) = none := by
      apply List.find?_eq_none.mpr
      intro space hspace hpre
      exact h space hspace (List.isPrefixOf_iff_prefix.mp hpre)
    rw [trimStart, hnone]

end Trimming

theorem trimSpace_begins (s : Text) : trimSpace s <+: trimStart spaces s.length s := by
  rw [← List.reverse_suffix, trimSpace, List.reverse_reverse]
  exact trimStart_suffix _ _

/-- A trimmed text has no white space at either end. -/
theorem trimSpace_trimmed (s : Text) {space : Text} (hspace : space ∈ spaces) :
    ¬ space <+: trimSpace s ∧ ¬ space <:+ trimSpace s := by
  constructor
  · intro hpre
    exact not_prefix_trimStart (by decide) (Nat.le_refl _) hspace (hpre.trans (trimSpace_begins s))
  · intro hsuf
    rw [← List.reverse_prefix, trimSpace, List.reverse_reverse] at hsuf
    have hlen : (trimStart spaces s.length s).reverse.length ≤
        (trimStart spaces s.length s).length := by simp
    exact not_prefix_trimStart (by decide) hlen (List.mem_map_of_mem hspace) hsuf

theorem trimSpace_eq_self {s : Text}
    (h : ∀ space ∈ spaces, ¬ space <+: s ∧ ¬ space <:+ s) : trimSpace s = s := by
  have hstart : trimStart spaces s.length s = s := by
    apply trimStart_eq_self
    intro space hspace
    exact (h space hspace).1
  have hend : trimStart (spaces.map List.reverse) s.length s.reverse = s.reverse := by
    apply trimStart_eq_self
    intro rev hrev
    obtain ⟨space, hspace, hrev⟩ := List.mem_map.mp hrev
    rw [← hrev, List.reverse_prefix]
    exact (h space hspace).2
  simp only [trimSpace, hstart, hend, List.reverse_reverse]

theorem trimSpace_trimSpace (s : Text) : trimSpace (trimSpace s) = trimSpace s := by
  apply trimSpace_eq_self
  intro space hspace
  exact trimSpace_trimmed s hspace

/-! ## Decimal numerals -/

def isDigit (c : UInt8) : Bool := 0x30 ≤ c && c ≤ 0x39

/-- The value of decimal digits, after `n`. -/
def readDecimal (n : Nat) (s : Text) : Nat := s.foldl (fun n c => 10 * n + (c.toNat - 0x30)) n

/-- `maxUint64/10 + 1`: ten times as much does not fit. -/
def cutoff : UInt64 := 1844674407370955162

/-- The loop of `ParseUint`; `none` for a syntax error and for a number out of range. -/
def parseDigits (n : UInt64) : Text → Option UInt64
  | [] => some n
  | c :: rest =>
    if isDigit c then
      if n ≥ cutoff then none
      else
        let n := n * 10
        let n1 := n + (c - 0x30).toUInt64
        if n1 < n then none else parseDigits n1 rest
    else none

/-- `strconv.ParseUint(s, 10, 64)`. -/
def parseUint (s : Text) : Option UInt64 := if s = [] then none else parseDigits 0 s

theorem le_readDecimal (n : Nat) (s : Text) : n ≤ readDecimal n s := by
  induction s generalizing n with
  | nil => exact Nat.le_refl n
  | cons c s ih =>
    have hstep := ih (10 * n + (c.toNat - 0x30))
    show n ≤ readDecimal (10 * n + (c.toNat - 0x30)) s
    omega

theorem isDigit_iff {c : UInt8} : isDigit c = true ↔ 0x30 ≤ c.toNat ∧ c.toNat ≤ 0x39 := by
  simp [isDigit, UInt8.le_iff_toNat_le]

/-- A round of the loop: it goes on exactly when the next digit fits. -/
theorem parseDigits_cons {n : UInt64} {c : UInt8} (rest : Text) (hc : isDigit c = true) :
    (2 ^ 64 ≤ 10 * n.toNat + (c.toNat - 0x30) ∧ parseDigits n (c :: rest) = none) ∨
      ∃ n1 : UInt64, n1.toNat = 10 * n.toNat + (c.toNat - 0x30) ∧
        parseDigits n (c :: rest) = parseDigits n1 rest := by
  obtain ⟨hlow, hhigh⟩ := isDigit_iff.mp hc
  have hzero : (0x30 : UInt8) ≤ c := UInt8.le_iff_toNat_le.mpr hlow
  have hd : (c - 0x30).toUInt64.toNat = c.toNat - 0x30 := by
    rw [UInt8.toNat_toUInt64, UInt8.toNat_sub_of_le _ _ hzero]
    rfl
  rw [parseDigits, if_pos hc]
  by_cases hcut : n ≥ cutoff
  case pos =>
    left
    rw [if_pos hcut]
    have hn : cutoff.toNat ≤ n.toNat := UInt64.le_iff_toNat_le.mp hcut
    have hcutoff : cutoff.toNat = 1844674407370955162 := rfl
    exact ⟨by omega, rfl⟩
  case neg =>
    rw [if_neg hcut]
    have hn : n.toNat < 1844674407370955162 := by
      have := mt UInt64.le_iff_toNat_le.mpr hcut
      have hcutoff : cutoff.toNat = 1844674407370955162 := rfl
      omega
    have hmul : (n * 10).toNat = 10 * n.toNat := by
      rw [UInt64.toNat_mul]
      show n.toNat * 10 % 2 ^ 64 = 10 * n.toNat
      omega
    have hadd : (n * 10 + (c - 0x30).toUInt64).toNat =
        (10 * n.toNat + (c.toNat - 0x30)) % 2 ^ 64 := by
      rw [UInt64.toNat_add, hmul, hd]
    have hlt : n * 10 + (c - 0x30).toUInt64 < n * 10 ↔ 2 ^ 64 ≤ 10 * n.toNat + (c.toNat - 0x30) := by
      rw [UInt64.lt_iff_toNat_lt, hadd, hmul]
      omega
    by_cases hover : 2 ^ 64 ≤ 10 * n.toNat + (c.toNat - 0x30)
    case pos =>
      left
      exact ⟨hover, if_pos (hlt.mpr hover)⟩
    case neg =>
      right
      refine ⟨n * 10 + (c - 0x30).toUInt64, ?_, if_neg (mt hlt.mp hover)⟩
      rw [hadd]
      omega

theorem parseDigits_eq_some {n : UInt64} {s : Text} {m : UInt64} :
    parseDigits n s = some m ↔ s.all isDigit ∧ m.toNat = readDecimal n.toNat s := by
  induction s generalizing n with
  | nil =>
    rw [parseDigits, Option.some.injEq, ← UInt64.toNat_inj]
    simp [readDecimal, eq_comm]
  | cons c rest ih =>
    rw [List.all_cons, Bool.and_eq_true]
    show _ ↔ _ ∧ m.toNat = readDecimal (10 * n.toNat + (c.toNat - 0x30)) rest
    by_cases hc : isDigit c = true
    case neg => simp [parseDigits, hc]
    case pos =>
      rcases parseDigits_cons rest hc with ⟨hover, hstop⟩ | ⟨n1, hn1, hgo⟩
      · have hle := le_readDecimal (10 * n.toNat + (c.toNat - 0x30)) rest
        have hm := m.toNat_lt
        rw [hstop]
        constructor
        · intro h
          cases h
        · intro h
          omega
      · rw [hgo, ih, hn1]
        simp [hc]

/-- **`ParseUint` reads exactly the decimal numerals below 2^64**, each to its value. -/
theorem parseUint_eq_some {s : Text} {m : UInt64} :
    parseUint s = some m ↔ s ≠ [] ∧ s.all isDigit ∧ m.toNat = readDecimal 0 s := by
  unfold parseUint
  split
  case isTrue h => simp [h]
  case isFalse h =>
    rw [parseDigits_eq_some]
    simp [h]

/-! ### Numerals without leading zeros -/

/-- `[1-9][0-9]*`. -/
def isNumeral : Text → Bool
  | [] => false
  | c :: rest => 0x31 ≤ c && c ≤ 0x39 && rest.all isDigit

theorem isNumeral_cons {c : UInt8} {rest : Text} :
    isNumeral (c :: rest) = true ↔
      (0x31 ≤ c.toNat ∧ c.toNat ≤ 0x39) ∧ ∀ d ∈ rest, isDigit d = true := by
  simp [isNumeral, UInt8.le_iff_toNat_le]

theorem isNumeral_digits {s : Text} (h : isNumeral s = true) : s ≠ [] ∧ s.all isDigit = true := by
  cases s with
  | nil => cases h
  | cons c rest =>
    obtain ⟨⟨hlow, hhigh⟩, hrest⟩ := isNumeral_cons.mp h
    have hc : isDigit c = true := isDigit_iff.mpr ⟨by omega, hhigh⟩
    refine ⟨List.cons_ne_nil c rest, ?_⟩
    rw [List.all_cons, hc, Bool.true_and, List.all_eq_true]
    exact hrest

theorem readDecimal_eq_value (s : Text) :
    readDecimal 0 s = value 10 (s.map fun c => c.toNat - 0x30) := by
  rw [readDecimal, value, List.foldl_map]

/-- The digits of a numeral, the first one not zero. -/
theorem isNumeral_value {s : Text} (h : isNumeral s = true) :
    ∃ d ds, s.map (fun c => c.toNat - 0x30) = d :: ds ∧ 0 < d ∧ ∀ x ∈ d :: ds, x < 10 := by
  cases s with
  | nil => cases h
  | cons c rest =>
    obtain ⟨⟨hlow, hhigh⟩, hrest⟩ := isNumeral_cons.mp h
    rw [List.map_cons]
    have hpos : 0 < c.toNat - 0x30 := by omega
    refine ⟨_, _, rfl, hpos, ?_⟩
    intro x hx
    rcases List.mem_cons.mp hx with hx | hx
    · omega
    · obtain ⟨d, hd, hx⟩ := List.mem_map.mp hx
      have := isDigit_iff.mp (hrest d hd)
      omega

theorem readDecimal_pos {s : Text} (h : isNumeral s = true) : 0 < readDecimal 0 s := by
  obtain ⟨d, ds, hs, hd, _⟩ := isNumeral_value h
  rw [readDecimal_eq_value, hs]
  have hpow : 0 < 10 ^ ds.length := Nat.pow_pos (by omega)
  exact Nat.lt_of_lt_of_le hpow (pow_length_le_value hd)

/-- Digits are what the decimal form of their value is, at their length. -/
theorem decimal_readDecimal {s : Text} (h : s.all isDigit = true) :
    decimal s.length (readDecimal 0 s) = s := by
  have hdigit := List.all_eq_true.mp h
  have hds : ∀ d ∈ s.map (fun c => c.toNat - 0x30), d < 10 := by
    intro d hd
    obtain ⟨c, hc, hd⟩ := List.mem_map.mp hd
    have := isDigit_iff.mp (hdigit c hc)
    omega
  have hback := digits_value _ hds
  rw [List.length_map] at hback
  rw [decimal, write, readDecimal_eq_value, hback, List.map_map]
  calc s.map ((fun d => UInt8.ofNat (48 + d)) ∘ fun c => c.toNat - 0x30)
      = s.map id := by
        apply List.map_congr_left
        intro c hc
        have hlow := (isDigit_iff.mp (hdigit c hc)).1
        show UInt8.ofNat (48 + (c.toNat - 0x30)) = c
        rw [Nat.add_sub_cancel' hlow, UInt8.ofNat_toNat]
    _ = s := List.map_id s

/-- A number has one numeral. -/
theorem readDecimal_injective {s t : Text} (hs : isNumeral s = true) (ht : isNumeral t = true)
    (h : readDecimal 0 s = readDecimal 0 t) : s = t := by
  obtain ⟨d, ds, hsd, hd, hds⟩ := isNumeral_value hs
  obtain ⟨e, es, hte, he, hes⟩ := isNumeral_value ht
  have hlen : s.length = t.length := by
    have hvalue := h
    rw [readDecimal_eq_value, readDecimal_eq_value, hsd, hte] at hvalue
    calc s.length
        = (d :: ds).length := by rw [← hsd, List.length_map]
      _ = (e :: es).length := length_eq_of_value_eq hd he hds hes hvalue
      _ = t.length := by rw [← hte, List.length_map]
  rw [← decimal_readDecimal (isNumeral_digits hs).2, h, hlen,
    decimal_readDecimal (isNumeral_digits ht).2]

end Ark.Lib.Go
