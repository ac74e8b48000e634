import Ark.Lib.Bech32
import Ark.Lib.Positional

/- Why a bech32 checksum is right, and why it is the only one.

   A step of the checksum is linear in exclusive or (`polymodStep_xor`), and so is
   a run over a list of values (`foldl_polymodStep_xor`). Started at zero, a run over six
   symbols only shifts them in: it gives their value in base 32 (`run_symbols`), since no
   bit comes as far as the taps. So six symbols at the end of a text add their
   value to what the text followed by six zeros gives (`polymod_append`), and the
   remainder is 1 for exactly one choice of them (`polymod_eq_one_iff`), which is the one
   that `checksum` makes. -/
namespace Ark.Lib.Bech32
open Positional

/-! ## Linearity -/

/-- What the bits above the register put into it. -/
def taps (chk : Nat) : Nat :=
  generator.zipIdx.foldr (fun g c => (if chk.testBit (25 + g.2) then g.1 else 0) ^^^ c) 0

theorem foldl_tap (chk : Nat) (l : List (Nat × Nat)) (init : Nat) :
    l.foldl (fun c g => if (chk >>> 25 >>> g.2) &&& 1 = 1 then c ^^^ g.1 else c) init =
      init ^^^ l.foldr (fun g c => (if chk.testBit (25 + g.2) then g.1 else 0) ^^^ c) 0 := by
  induction l generalizing init with
  | nil => simp
  | cons g l ih =>
    have hbit : (chk >>> 25 >>> g.2) &&& 1 = 1 ↔ chk.testBit (25 + g.2) = true := by
      rw [← Nat.shiftRight_add, Nat.and_one_is_mod, Nat.testBit_eq_decide_div_mod_eq,
        decide_eq_true_iff, Nat.shiftRight_eq_div_pow]
    rw [List.foldl_cons, List.foldr_cons, ih]
    by_cases h : chk.testBit (25 + g.2) = true
    · rw [if_pos (hbit.mpr h), if_pos h, Nat.xor_assoc]
    · rw [if_neg (mt hbit.mp h), if_neg h, Nat.zero_xor]

theorem polymodStep_eq (chk value : Nat) :
    polymodStep chk value = ((chk &&& 0x1ffffff) <<< 5 ^^^ value) ^^^ taps chk :=
  foldl_tap chk _ _

theorem taps_xor (a b : Nat) : taps (a ^^^ b) = taps a ^^^ taps b := by
  have hfold : ∀ l : List (Nat × Nat),
      l.foldr (fun g c => (if (a ^^^ b).testBit (25 + g.2) then g.1 else 0) ^^^ c) 0 =
        l.foldr (fun g c => (if a.testBit (25 + g.2) then g.1 else 0) ^^^ c) 0 ^^^
          l.foldr (fun g c => (if b.testBit (25 + g.2) then g.1 else 0) ^^^ c) 0 := by
    intro l
    induction l with
    | nil => simp
    | cons g l ih =>
      have hbit : (if (a ^^^ b).testBit (25 + g.2) then g.1 else 0) =
          (if a.testBit (25 + g.2) then g.1 else 0) ^^^
            (if b.testBit (25 + g.2) then g.1 else 0) := by
        rw [Nat.testBit_xor]
        cases a.testBit (25 + g.2) <;> cases b.testBit (25 + g.2) <;> simp
      rw [List.foldr_cons, List.foldr_cons, List.foldr_cons, ih, hbit]
      ac_rfl
  exact hfold _

theorem polymodStep_xor (a b u v : Nat) :
    polymodStep (a ^^^ b) (u ^^^ v) = polymodStep a u ^^^ polymodStep b v := by
  rw [polymodStep_eq, polymodStep_eq, polymodStep_eq, taps_xor, Nat.and_xor_distrib_right,
    Nat.shiftLeft_xor_distrib]
  ac_rfl

theorem foldl_polymodStep_xor {us vs : List Nat} (h : us.length = vs.length) (a b : Nat) :
    (List.zipWith (· ^^^ ·) us vs).foldl polymodStep (a ^^^ b) =
      us.foldl polymodStep a ^^^ vs.foldl polymodStep b := by
  induction us generalizing vs a b with
  | nil =>
    rw [List.eq_nil_of_length_eq_zero h.symm]
    rfl
  | cons u us ih =>
    cases vs with
    | nil => cases h
    | cons v vs =>
      rw [List.zipWith_cons_cons, List.foldl_cons, polymodStep_xor, ih (by simpa using h)]
      rfl

/-! ## Six symbols -/

theorem taps_of_lt {n : Nat} (hn : n < 2 ^ 25) : taps n = 0 := by
  have hbit : ∀ i, n.testBit (25 + i) = false := by
    intro i
    apply Nat.testBit_lt_two_pow
    exact Nat.lt_of_lt_of_le hn (Nat.pow_le_pow_right (by decide) (by omega))
  simp [taps, hbit, generator]

/-- Below the taps a step shifts the value in. -/
theorem polymodStep_of_lt {n v : Nat} (hn : n < 2 ^ 25) (hv : v < 32) :
    polymodStep n v = 32 * n + v := by
  have hmask : n &&& 0x1ffffff = n := Nat.and_two_pow_sub_one_of_lt_two_pow hn
  rw [polymodStep_eq, taps_of_lt hn, hmask, Nat.xor_zero]
  apply Nat.eq_of_testBit_eq
  intro j
  rw [Nat.testBit_xor, Nat.testBit_shiftLeft, Nat.testBit_two_pow_mul_add (i := 5) n hv]
  by_cases hj : j < 5
  · have hnot : ¬ 5 ≤ j := by omega
    simp [hj, hnot]
  · have hge : 5 ≤ j := by omega
    have hvj : v.testBit j = false := by
      apply Nat.testBit_lt_two_pow
      exact Nat.lt_of_lt_of_le hv (Nat.pow_le_pow_right (n := 2) (by decide) hge)
    simp [hj, hge, hvj]

theorem run_symbols {ds : List Nat} (hds : ∀ d ∈ ds, d < 32) (hlen : ds.length ≤ 6) :
    ds.foldl polymodStep 0 = value 32 ds := by
  induction ds using List.reverseRecOn with
  | nil => rfl
  | append_singleton ds d ih =>
    rw [List.length_append, List.length_singleton] at hlen
    have hrest : ∀ x ∈ ds, x < 32 := by
      intro x hx
      exact hds x (List.mem_append_left _ hx)
    -- at most five symbols so far, which is below the taps
    have hlt : value 32 ds < 2 ^ 25 := by
      calc value 32 ds
          < 32 ^ ds.length := value_lt hrest (by decide)
        _ ≤ 32 ^ 5 := Nat.pow_le_pow_right (by decide) (by omega)
    rw [List.foldl_append, ih hrest (by omega), List.foldl_cons, List.foldl_nil,
      polymodStep_of_lt hlt (hds d (by simp)), value_append]

theorem zipWith_xor_zeros (ds : List Nat) :
    List.zipWith (· ^^^ ·) (List.replicate ds.length 0) ds = ds := by
  induction ds with
  | nil => rfl
  | cons d ds ih =>
    rw [List.length_cons, List.replicate_succ, List.zipWith_cons_cons, ih, Nat.zero_xor]

/-- Six symbols add their value to the remainder. -/
theorem polymod_append (values : List Nat) {ds : List Nat} (hds : ∀ d ∈ ds, d < 32)
    (hlen : ds.length = 6) :
    polymod (values ++ ds) = polymod (values ++ List.replicate 6 0) ^^^ value 32 ds := by
  have hzip := zipWith_xor_zeros ds
  rw [hlen] at hzip
  have hzeros : (List.replicate 6 0).length = ds.length := by rw [hlen, List.length_replicate]
  -- a run over the symbols is a run over zeros and one from zero, by exclusive or
  have hxor := foldl_polymodStep_xor hzeros (polymod values) 0
  rw [hzip, Nat.xor_zero, run_symbols hds (by omega)] at hxor
  rw [polymod, polymod, List.foldl_append, List.foldl_append]
  exact hxor

/-! ## The remainder 1 -/

theorem taps_lt (chk : Nat) : taps chk < 2 ^ 30 := by
  have hfold : ∀ l : List (Nat × Nat), (∀ g ∈ l, g.1 < 2 ^ 30) →
      l.foldr (fun g c => (if chk.testBit (25 + g.2) then g.1 else 0) ^^^ c) 0 < 2 ^ 30 := by
    intro l hl
    induction l with
    | nil => simp
    | cons g l ih =>
      rw [List.foldr_cons]
      apply Nat.xor_lt_two_pow
      · have hg := hl g List.mem_cons_self
        split
        · exact hg
        · decide
      · apply ih
        intro x hx
        exact hl x (List.mem_cons_of_mem _ hx)
  exact hfold _ (by decide)

/-- Values of five bits leave a register of thirty. -/
theorem polymodStep_lt {chk v : Nat} (hv : v < 32) : polymodStep chk v < 2 ^ 30 := by
  rw [polymodStep_eq]
  apply Nat.xor_lt_two_pow _ (taps_lt chk)
  apply Nat.xor_lt_two_pow
  · have hmask : chk &&& 0x1ffffff < 2 ^ 25 := Nat.and_lt_two_pow chk (by decide)
    rw [Nat.shiftLeft_eq]
    omega
  · omega

theorem polymod_zeros_lt (values : List Nat) : polymod (values ++ List.replicate 6 0) < 2 ^ 30 := by
  have hsplit : values ++ List.replicate 6 0 = (values ++ List.replicate 5 0) ++ [0] := by simp
  rw [hsplit, polymod, List.foldl_append]
  exact polymodStep_lt (by decide)

theorem polymod_eq_one_iff (values : List Nat) {ds : List Nat} (hds : ∀ d ∈ ds, d < 32)
    (hlen : ds.length = 6) :
    polymod (values ++ ds) = 1 ↔
      ds = digits 32 6 (polymod (values ++ List.replicate 6 0) ^^^ 1) := by
  have hlt : polymod (values ++ List.replicate 6 0) ^^^ 1 < 32 ^ 6 :=
    Nat.xor_lt_two_pow (polymod_zeros_lt values) (by decide)
  rw [polymod_append values hds hlen]
  constructor
  · intro h
    have hvalue : value 32 ds = polymod (values ++ List.replicate 6 0) ^^^ 1 := by
      rw [← h, ← Nat.xor_assoc, Nat.xor_self, Nat.zero_xor]
    rw [← hvalue, ← hlen, digits_value ds hds]
  · intro h
    rw [h, value_digits_of_lt hlt, ← Nat.xor_assoc, Nat.xor_self, Nat.zero_xor]

theorem checksum_val (hrp : List Char) (data : List Symbol) :
    (checksum hrp data).map Fin.val = digits 32 6
      (polymod (hrpExpand hrp ++ data.map Fin.val ++ List.replicate 6 0) ^^^ 1) := by
  rw [checksum, digits_eq_map, List.map_map]
  generalize polymod (hrpExpand hrp ++ data.map Fin.val ++ List.replicate 6 0) ^^^ 1 = mod
  simp [List.range_succ, Nat.shiftRight_eq_div_pow]

/-- The checksum of a text is the one that leaves the remainder 1. -/
theorem polymod_checksum_iff (hrp : List Char) (data : List Symbol) {w : List Symbol}
    (hlen : w.length = 6) :
    polymod (hrpExpand hrp ++ data.map Fin.val ++ w.map Fin.val) = 1 ↔ w = checksum hrp data := by
  rw [polymod_eq_one_iff _ val_lt_of_mem (by simp [hlen]), ← checksum_val]
  exact List.map_inj_right fun _ _ => Fin.ext

theorem length_checksum (hrp : List Char) (data : List Symbol) : (checksum hrp data).length = 6 := by
  simp [checksum]

theorem polymod_checksum (hrp : List Char) (data : List Symbol) :
    polymod (hrpExpand hrp ++ data.map Fin.val ++ (checksum hrp data).map Fin.val) = 1 :=
  (polymod_checksum_iff hrp data (length_checksum hrp data)).mpr rfl

end Ark.Lib.Bech32
