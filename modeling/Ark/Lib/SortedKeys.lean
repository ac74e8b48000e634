import Mathlib.Algebra.Ring.Nat
import Mathlib.Data.List.Forall2
import Mathlib.Data.List.Lex
import Mathlib.Order.Hom.Basic
import Ark.Lib.GoText
import Ark.Lib.KeySet

/- Keys of a store that is sorted by bytes.

   A key is a text of numerals of fixed widths (`layout`), or such a text and more after
   it. Texts of one layout compare as the lists of their numbers do (`layout_lt_iff`), and
   are read back to them (`readLayout_layout`). The keys up to and including those that
   start with a text are, among keys whose first field is as long, those whose first
   field is at most the text (`untilPrefix_append`).

   A store is the image of an abstract one, when the keys of its entries are in the
   order of the entries: `KeySet.map` commutes with each operation. -/
namespace Ark.Lib

/-- Bytes in the order of their numbers. -/
instance byteOrder : LinearOrder UInt8 where
  le_refl _ := UInt8.le_refl _
  le_trans _ _ _ := UInt8.le_trans
  le_antisymm _ _ := UInt8.le_antisymm
  le_total _ _ := UInt8.le_total _ _
  lt_iff_le_not_ge a b := by
    rw [UInt8.lt_iff_toNat_lt, UInt8.le_iff_toNat_le, UInt8.le_iff_toNat_le]
    omega
  toDecidableLE := inferInstance

namespace SortedKeys
open Positional Go

/-! ## Layouts -/

/-- Numerals of the given widths, each with what follows it. -/
def layout : List (Nat × Text) → List Nat → Text
  | (w, sep) :: ls, v :: vs => decimal w v ++ (sep ++ layout ls vs)
  | _, _ => []

def readLayout : List (Nat × Text) → Text → Option (List Nat × Text)
  | [], s => some ([], s)
  | (w, sep) :: ls, s =>
    let digits := s.take w
    if digits.length = w ∧ digits.all isDigit ∧ sep.isPrefixOf (s.drop w) then
      (readLayout ls (s.drop (w + sep.length))).map fun (vs, rest) =>
        (readDecimal 0 digits :: vs, rest)
    else none

/-- The numbers fit the widths. -/
abbrev Fit (ls : List (Nat × Text)) (vs : List Nat) : Prop :=
  List.Forall₂ (fun l v => v < 10 ^ l.1) ls vs

theorem length_layout {ls : List (Nat × Text)} {vs : List Nat} (h : Fit ls vs) :
    (layout ls vs).length = (ls.map fun l => l.1 + l.2.length).sum := by
  induction h with
  | nil => rfl
  | cons _ _ ih => simp [layout, decimal, ih, Nat.add_assoc]

theorem decimal_injective {w m n : Nat} (hm : m < 10 ^ w) (hn : n < 10 ^ w)
    (h : decimal w m = decimal w n) : m = n :=
  write_injective rising_decimal (by decide) hm hn h

/-- **Texts of one layout are in the order of their numbers.** -/
theorem layout_lt_iff {ls : List (Nat × Text)} {us vs : List Nat} (hus : Fit ls us)
    (hvs : Fit ls vs) : layout ls us < layout ls vs ↔ us < vs := by
  induction hus generalizing vs with
  | nil =>
    cases hvs
    simp
  | @cons l u ls us hu hus ih =>
    cases hvs with
    | @cons _ v _ vs hv hvs =>
      have heq : decimal l.1 u = decimal l.1 v ↔ u = v := by
        constructor
        · exact decimal_injective hu hv
        · intro h
          rw [h]
      have hsep : l.2 ++ layout ls us < l.2 ++ layout ls vs ↔ us < vs := by
        rw [append_lt_append_iff rfl, ih hvs]
        simp
      have hfield : decimal l.1 u < decimal l.1 v ↔ u < v :=
        write_lt_iff rising_decimal (by decide) hu hv
      -- the first numerals are equally long: they decide, unless they are the same
      show decimal l.1 u ++ (l.2 ++ layout ls us) < decimal l.1 v ++ (l.2 ++ layout ls vs) ↔ _
      rw [append_lt_append_iff (by simp [decimal]), hfield, heq, hsep, List.cons_lt_cons_iff]

theorem all_isDigit_decimal (w n : Nat) : (decimal w n).all isDigit = true := by
  rw [List.all_eq_true]
  intro c hc
  obtain ⟨d, hd, hc⟩ := List.mem_map.mp hc
  have hlt : d < 10 := lt_of_mem_digits (by decide) hd
  rw [← hc, isDigit_iff, UInt8.toNat_ofNat_of_lt' (by omega : 48 + d < 256)]
  omega

theorem readDecimal_decimal {w n : Nat} (hn : n < 10 ^ w) : readDecimal 0 (decimal w n) = n := by
  rw [readDecimal_eq_value, decimal, write, List.map_map]
  have hmap : (digits 10 w n).map ((fun c : UInt8 => c.toNat - 0x30) ∘ fun d => UInt8.ofNat (48 + d)) =
      (digits 10 w n).map id := by
    apply List.map_congr_left
    intro d hd
    have hlt : d < 10 := lt_of_mem_digits (by decide) hd
    show (UInt8.ofNat (48 + d)).toNat - 0x30 = d
    rw [UInt8.toNat_ofNat_of_lt' (by omega : 48 + d < 256)]
    omega
  rw [hmap, List.map_id, value_digits_of_lt hn]

theorem readLayout_layout {ls : List (Nat × Text)} {vs : List Nat} (h : Fit ls vs) (rest : Text) :
    readLayout ls (layout ls vs ++ rest) = some (vs, rest) := by
  induction h with
  | nil => rfl
  | @cons l v ls vs hv _ ih =>
    obtain ⟨w, sep⟩ := l
    have hlen : (decimal w v).length = w := length_write
    have htext : layout ((w, sep) :: ls) (v :: vs) ++ rest =
        decimal w v ++ (sep ++ (layout ls vs ++ rest)) := by
      rw [layout, List.append_assoc, List.append_assoc]
    have hdrop : (decimal w v ++ (sep ++ (layout ls vs ++ rest))).drop (w + sep.length) =
        layout ls vs ++ rest := by
      rw [← List.drop_drop, List.drop_left' hlen, List.drop_left]
    have hread : readDecimal 0 (decimal w v) = v := readDecimal_decimal hv
    rw [htext, readLayout]
    simp only [List.take_left' hlen, List.drop_left' hlen, hdrop, ih, hread, hlen,
      all_isDigit_decimal, List.isPrefixOf_iff_prefix.mpr (List.prefix_append _ _)]
    rfl

/-! ## Ranges -/

/-- Everything before the text, and what starts with it. -/
def untilPrefix (text key : Text) : Bool := decide (key < text) || text.isPrefixOf key

theorem untilPrefix_append {text field rest : Text} (h : field.length = text.length) :
    untilPrefix text (field ++ rest) = true ↔ field < text ∨ field = text := by
  -- a key that starts with the text is not before it, whatever comes after the field
  have hlt : field ++ rest < text ↔ field < text := by
    have happend : field ++ rest < text ++ [] ↔ field < text ∨ field = text ∧ rest < [] :=
      append_lt_append_iff h
    rw [List.append_nil] at happend
    rw [happend]
    simp
  have hpre : text.isPrefixOf (field ++ rest) = true ↔ field = text := by
    rw [List.isPrefixOf_iff_prefix]
    constructor
    · intro hpre
      exact (List.append_inj_left hpre.choose_spec h.symm).symm
    · intro heq
      rw [heq]
      exact List.prefix_append _ _
  rw [untilPrefix, Bool.or_eq_true, decide_eq_true_eq, hlt, hpre]

end SortedKeys

/-! ## Images of key sets -/

namespace KeySet
variable {α β : Type} [LinearOrder α] [LinearOrder β] (f : α ↪o β)

/-- The keys of the entries. -/
def map (s : KeySet α) : KeySet β where
  keys := s.keys.map f
  sorted := by
    rw [List.pairwise_map]
    exact s.sorted.imp fun h => f.strictMono h

theorem ext {s t : KeySet α} (h : s.keys = t.keys) : s = t := by
  cases s
  cases t
  cases h
  rfl

theorem insertKey_map (k : α) (l : List α) :
    insertKey (f k) (l.map f) = (insertKey k l).map f := by
  induction l with
  | nil => rfl
  | cons x l ih =>
    rw [List.map_cons, insertKey, insertKey, ih]
    simp only [f.lt_iff_lt, f.injective.eq_iff]
    split
    · rfl
    · split <;> rfl

theorem map_set (s : KeySet α) (k : α) : (s.set k).map f = (s.map f).set (f k) :=
  ext (insertKey_map f k s.keys).symm

theorem map_remove (s : KeySet α) (k : α) : (s.remove k).map f = (s.map f).remove (f k) := by
  apply ext
  show (s.keys.filter (· ≠ k)).map f = (s.keys.map f).filter (· ≠ f k)
  rw [List.filter_map]
  congr 1
  apply List.filter_congr
  intro x _
  simp [f.injective.eq_iff]

theorem filter_map (s : KeySet α) (p : β → Bool) :
    (s.map f).filter p = (s.filter fun k => p (f k)).map f := List.filter_map

end KeySet

end Ark.Lib
