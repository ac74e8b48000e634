import Mathlib.Data.List.Sort
import Ark.DistrClaim

/- `sdk.Coins` as the SDK has them: the coin functions with which the parameters of
   `add-genesis-account` are met. The lists need not be valid; they are those of a command
   line and of a genesis file.

   Valid coins are known by the amount of each denom (`ext`), and `Coins.Add` adds these
   amounts as long as none of them overflows (`addCoins_spec`, `exists_addCoins`). A
   lookup halves the list, so it finds a denom where the denoms are sorted
   (`amountOf_eq`). -/
namespace Ark.Coins
open Ark.Lib
open Ark.Sdk (Coin validateDenom)
open Ark.DistrClaim (sdkCoins addCoins fitsInt addCoins_valid)

/-- `Coins.Validate` passes. -/
def isValid (coins : List Coin) : Bool :=
  decide (Amounts.Sorted coins) && coins.all fun coin => validateDenom coin.1 && decide (0 < coin.2)

/-- `Coins.Sort`. -/
def sort (coins : List Coin) : List Coin := coins.insertionSort (·.1 ≤ ·.1)

/-- `Coins.Equal`. -/
def equal (a b : List Coin) : Bool := a.length = b.length ∧ sort a = sort b

/-- `Coins.IsZero`. -/
def isZero (coins : List Coin) : Bool := coins.all (·.2 = 0)

/-- `Coins.IsAllPositive`. -/
def isAllPositive (coins : List Coin) : Bool := !coins.isEmpty && coins.all (0 < ·.2)

/-- `Coins.Find`, on a list of at most this length. -/
def findWithin : Nat → String → List Coin → Option Coin
  | 0, _, _ => none
  | n + 1, denom, coins =>
    match coins.drop (coins.length / 2) with
    | [] => none
    | coin :: rest =>
      if denom < coin.1 then findWithin n denom (coins.take (coins.length / 2))
      else if denom = coin.1 then some coin
      else findWithin n denom rest

/-- `Coins.AmountOf`: `none` where it panics. -/
def amountOf (coins : List Coin) (denom : String) : Option Int :=
  if validateDenom denom then some ((findWithin coins.length denom coins).elim 0 Prod.snd) else none

/-- A coin that is greater than the amount of its denom in `b`, unless that is zero. -/
def anyGT (b : List Coin) : List Coin → Option Bool
  | [] => some false
  | coin :: a =>
    match amountOf b coin.1 with
    | none => none
    -- a denom that `b` lacks is passed over
    | some amt => if coin.2 > amt ∧ amt ≠ 0 then some true else anyGT b a

/-- `Coins.IsAnyGT`. -/
def isAnyGT (a b : List Coin) : Option Bool := if b = [] then some false else anyGT b a

/-- No coin is greater than the amount of its denom in `b`. -/
def noneGT (b : List Coin) : List Coin → Option Bool
  | [] => some true
  | coin :: a =>
    match amountOf b coin.1 with
    | none => none
    | some amt => if coin.2 > amt then some false else noneGT b a

/-- `Coins.IsAllLTE`. -/
def isAllLTE (a b : List Coin) : Option Bool :=
  if a = [] then some true else if b = [] then some false else noneGT b a

/-! ## Valid coins -/

variable {a b coins : List Coin}

theorem isValid_iff : isValid coins = true ↔ sdkCoins.IsValid coins := by
  unfold isValid
  rw [Bool.and_eq_true, decide_eq_true_eq, List.all_eq_true]
  simp only [Bool.and_eq_true, decide_eq_true_eq]
  rfl

theorem valid_nil : sdkCoins.IsValid [] := Ark.DistrClaim.sdkCoins_lawful.empty_valid

theorem amount_nonneg (h : sdkCoins.IsValid coins) (denom : String) :
    0 ≤ Amounts.amountOf coins denom :=
  Ark.DistrClaim.sdkCoins_lawful.amountOf_nonneg coins denom h

theorem ext (ha : sdkCoins.IsValid a) (hb : sdkCoins.IsValid b)
    (h : ∀ denom, Amounts.amountOf a denom = Amounts.amountOf b denom) : a = b := by
  have hne : ∀ {l : List Coin}, sdkCoins.IsValid l → ∀ coin ∈ l, coin.2 ≠ 0 := by
    intro l hl coin hcoin
    have hpos := (hl.2 coin hcoin).2
    omega
  exact Amounts.ext ha.1 hb.1 (hne ha) (hne hb) h

/-! ## Sorting -/

theorem perm_sort (coins : List Coin) : (sort coins).Perm coins := List.perm_insertionSort _ _

theorem sort_of_valid (h : sdkCoins.IsValid coins) : sort coins = coins := by
  apply List.Pairwise.insertionSort_eq
  exact h.1.imp le_of_lt

/-- Valid coins compare as they are. -/
theorem equal_iff (ha : sdkCoins.IsValid a) (hb : sdkCoins.IsValid b) :
    equal a b = true ↔ a = b := by
  rw [equal, decide_eq_true_eq, sort_of_valid ha, sort_of_valid hb]
  constructor
  · intro h
    exact h.2
  · intro h
    exact ⟨congrArg List.length h, h⟩

/-! ## Lookup -/

theorem findWithin_eq {n : Nat} (denom : String) (h : Amounts.Sorted coins)
    (hlen : coins.length ≤ n) :
    (findWithin n denom coins).elim 0 Prod.snd = Amounts.amountOf coins denom := by
  induction n generalizing coins with
  | zero =>
    have hnil : coins = [] := List.eq_nil_of_length_eq_zero (Nat.le_zero.mp hlen)
    rw [hnil]
    rfl
  | succ n ih =>
    unfold findWithin
    cases hrest : coins.drop (coins.length / 2) with
    | nil =>
      have hdrop : coins.length ≤ coins.length / 2 := List.drop_eq_nil_iff.mp hrest
      have hnil : coins = [] := List.eq_nil_of_length_eq_zero (by omega)
      rw [hnil]
      rfl
    | cons coin rest =>
      have hsplit : coins = coins.take (coins.length / 2) ++ coin :: rest := by
        rw [← hrest, List.take_append_drop]
      have hlength := congrArg List.length hsplit
      rw [List.length_append, List.length_cons] at hlength
      have hsorted := h
      rw [hsplit] at hsorted
      obtain ⟨hfront, hback, hcross⟩ := List.pairwise_append.mp hsorted
      obtain ⟨hcoin, hrestSorted⟩ := List.pairwise_cons.mp hback
      -- the denom is before the middle, at it, or after it
      by_cases hlt : denom < coin.1
      · have hafter : ∀ e ∈ coin :: rest, denom < e.1 := by
          intro e he
          cases List.mem_cons.mp he with
          | inl he => rw [he]; exact hlt
          | inr he => exact lt_trans hlt (hcoin e he)
        simp only [if_pos hlt]
        rw [ih hfront (by omega)]
        conv_rhs => rw [hsplit]
        exact (Amounts.amountOf_append_of_lt hafter).symm
      · by_cases heq : denom = coin.1
        · simp only [if_neg hlt, if_pos heq]
          rw [heq]
          have hmem : coin ∈ coins := by
            rw [hsplit]
            exact List.mem_append_right _ List.mem_cons_self
          exact (Amounts.amountOf_of_mem h hmem).symm
        · have hgt : coin.1 < denom := lt_of_le_of_ne (not_lt.mp hlt) (Ne.symm heq)
          simp only [if_neg hlt, if_neg heq]
          rw [ih hrestSorted (by omega)]
          conv_rhs => rw [hsplit]
          have hbefore : ∀ e ∈ coins.take (coins.length / 2), e.1 < denom := by
            intro e he
            exact lt_trans (hcross e he coin List.mem_cons_self) hgt
          rw [Amounts.amountOf_append_of_gt hbefore, Amounts.amountOf, if_neg (ne_of_lt hgt)]

theorem amountOf_eq {denom : String} (h : Amounts.Sorted coins) (hdenom : validateDenom denom) :
    amountOf coins denom = some (Amounts.amountOf coins denom) := by
  rw [amountOf, if_pos hdenom, findWithin_eq denom h (Nat.le_refl _)]

theorem anyGT_false_iff (ha : ∀ coin ∈ a, validateDenom coin.1 = true) (hb : Amounts.Sorted b) :
    anyGT b a = some false ↔
      ∀ coin ∈ a, Amounts.amountOf b coin.1 ≠ 0 → coin.2 ≤ Amounts.amountOf b coin.1 := by
  induction a with
  | nil => simp [anyGT]
  | cons coin a ih =>
    obtain ⟨hcoin, ha⟩ := List.forall_mem_cons.mp ha
    rw [List.forall_mem_cons, ← ih ha, anyGT, amountOf_eq hb hcoin]
    by_cases hgt : coin.2 > Amounts.amountOf b coin.1 ∧ Amounts.amountOf b coin.1 ≠ 0
    · simp only [if_pos hgt]
      constructor
      · intro h
        cases h
      · intro h
        exact absurd (h.1 hgt.2) (not_le.mpr hgt.1)
    · simp only [if_neg hgt]
      constructor
      · intro h
        refine ⟨?_, h⟩
        intro hne
        exact not_lt.mp fun hlt => hgt ⟨hlt, hne⟩
      · intro h
        exact h.2

/-! ## Sums -/

theorem addCoins_spec {sum : List Coin} (ha : sdkCoins.IsValid a) (hb : sdkCoins.IsValid b)
    (h : addCoins a b = some sum) :
    sdkCoins.IsValid sum ∧
      (∀ denom, Amounts.amountOf sum denom =
        Amounts.amountOf a denom + Amounts.amountOf b denom) ∧
      ∀ denom, fitsInt (Amounts.amountOf sum denom) = true := by
  obtain ⟨hvalid, hsum⟩ := addCoins_valid ha hb h
  refine ⟨hvalid, fun denom => Ark.DistrClaim.sdkCoins_lawful.amountOf_add a b sum denom ha hb h, ?_⟩
  intro denom
  unfold addCoins at h
  simp only at h
  split at h
  · rename_i hchecks
    by_cases hzero : Amounts.amountOf sum denom = 0
    · rw [hzero]
      decide
    · have hmem := Amounts.mem_of_amountOf_ne hzero
      rw [hsum] at hmem
      rw [hsum]
      exact hchecks.2.2 _ hmem
  · cases h

theorem exists_addCoins (ha : sdkCoins.IsValid a) (hb : sdkCoins.IsValid b)
    (h : ∀ denom, fitsInt (Amounts.amountOf a denom + Amounts.amountOf b denom) = true) :
    ∃ sum, addCoins a b = some sum := by
  have hsum : Amounts.Sorted (Amounts.add [] a) := Amounts.sorted_add List.Pairwise.nil
  have hfits : ∀ coin ∈ Amounts.add (Amounts.add [] a) b, fitsInt coin.2 = true := by
    intro coin hcoin
    have hamount := Amounts.amountOf_of_mem (Amounts.sorted_add hsum) hcoin
    rw [Amounts.amountOf_add hsum hb.1, Amounts.amountOf_add List.Pairwise.nil ha.1] at hamount
    rw [← hamount]
    have h := h coin.1
    rw [← Int.zero_add (Amounts.amountOf a coin.1)] at h
    exact h
  unfold addCoins
  simp only
  rw [if_pos ⟨ha.1.imp le_of_lt, hb.1.imp le_of_lt, hfits⟩]
  exact ⟨_, rfl⟩

end Ark.Coins
