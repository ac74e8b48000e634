import Mathlib.Algebra.Order.BigOperators.Group.List
import Ark.GenAccounts

/- When the two states of a genesis are valid.

   Valid coins are known by the amount of each denom (`Sdk.Lawful.ext`). A list of accounts
   is valid whatever their order and numbers are (`validateAuth_congr`), and stays so with
   a new account at an address of its own (`validateAuth_append`). In a valid bank state
   the amounts of the balances are not negative, and where they are all zero the balances
   are empty (`coins_eq_nil`). -/
namespace Ark.GenAccounts
open Ark.Lib Ark.Lib.Checks Ark.Sdk
open Ark.Gov (Fault)
open Ark.DistrClaim (fitsInt)

variable {AuthParams Other BankRest : Type} {sdk : Sdk AuthParams Other BankRest}

@[simp] theorem parseCoins_ok {failure text : String} {coins : List Coin} :
    parseCoins sdk failure text = .ok coins ↔ sdk.parseCoinsNormalized text = .ok coins := by
  unfold parseCoins
  cases sdk.parseCoinsNormalized text with
  | ok coins => simp
  | error e => simp

@[simp] theorem wrapError_ok {failure : String} {res : Except Fault Unit} {u : Unit} :
    wrapError failure res = .ok u ↔ res = .ok u := by
  unfold wrapError
  split
  · simp
  · rfl

/-! ## Coins -/

namespace Sdk.Lawful
variable {a b coins sum : List Coin} (hsdk : sdk.Lawful)
include hsdk

theorem amount_nonneg (h : sdk.isValid coins = true) (denom : String) :
    0 ≤ Amounts.amountOf coins denom := by
  by_cases hzero : Amounts.amountOf coins denom = 0
  · rw [hzero]
  · have hmem := Amounts.mem_of_amountOf_ne hzero
    exact le_of_lt (hsdk.valid_pos coins h _ hmem)

/-- Valid coins with the same amounts are the same. -/
theorem ext (ha : sdk.isValid a = true) (hb : sdk.isValid b = true)
    (h : ∀ denom, Amounts.amountOf a denom = Amounts.amountOf b denom) : a = b :=
  Amounts.ext (hsdk.valid_sorted a ha) (hsdk.valid_sorted b hb)
    (fun coin hcoin => ne_of_gt (hsdk.valid_pos a ha coin hcoin))
    (fun coin hcoin => ne_of_gt (hsdk.valid_pos b hb coin hcoin)) h

theorem eq_nil_iff (h : sdk.isValid coins = true) :
    coins = [] ↔ ∀ denom, Amounts.amountOf coins denom = 0 := by
  constructor
  · rintro rfl denom
    rfl
  · intro hzero
    exact hsdk.ext h hsdk.nil_valid hzero

/-- What `IsAnyGT` leaves open: denoms the other list does not name. -/
theorem amount_le_iff (ha : sdk.isValid a = true) (hb : sdk.isValid b = true)
    (h : sdk.isAnyGT a b = .ok false) :
    (∀ denom, Amounts.amountOf a denom ≤ Amounts.amountOf b denom) ↔
      ∀ coin ∈ a, coin.1 ∈ b.map Prod.fst := by
  constructor
  · intro hle coin hcoin
    have hpos := hsdk.valid_pos a ha coin hcoin
    have hle := hle coin.1
    rw [Amounts.amountOf_of_mem (hsdk.valid_sorted a ha) hcoin] at hle
    have hmem := Amounts.mem_of_amountOf_ne (ne_of_gt (lt_of_lt_of_le hpos hle))
    exact List.mem_map.mpr ⟨_, hmem, rfl⟩
  · intro hnames denom
    by_cases hzero : Amounts.amountOf a denom = 0
    · rw [hzero]
      exact hsdk.amount_nonneg hb denom
    · have hmem := Amounts.mem_of_amountOf_ne hzero
      obtain ⟨coin, hcoin, hname⟩ := List.mem_map.mp (hnames _ hmem)
      have hname : coin.1 = denom := hname
      have hne : Amounts.amountOf b denom ≠ 0 := by
        rw [← hname, Amounts.amountOf_of_mem (hsdk.valid_sorted b hb) hcoin]
        exact ne_of_gt (hsdk.valid_pos b hb coin hcoin)
      exact hsdk.isAnyGT_false a b ha hb h _ hmem hne

/-- Added to nothing, coins stay what they are. -/
theorem add_nil (hb : sdk.isValid b = true) (h : sdk.add [] b = .ok sum) : sum = b := by
  obtain ⟨hvalid, hamount⟩ := hsdk.add_ok [] b sum hsdk.nil_valid hb h
  apply hsdk.ext hvalid hb
  intro denom
  rw [hamount]
  exact Int.zero_add _

/-- An amount of a sum fits. -/
theorem fits_of_add (ha : sdk.isValid a = true) (hb : sdk.isValid b = true)
    (h : sdk.add a b = .ok sum) (denom : String) :
    fitsInt (Amounts.amountOf sum denom) = true := by
  rw [(hsdk.add_ok a b sum ha hb h).2]
  exact (hsdk.add_iff a b ha hb).mp ⟨sum, h⟩ denom

theorem sort_eq_nil : sdk.sort coins = [] ↔ coins = [] := by
  constructor
  · intro hsort
    exact (hsort ▸ hsdk.sort_perm coins).nil_eq.symm
  · rintro rfl
    exact (hsdk.sort_perm []).eq_nil

end Sdk.Lawful

/-! ## Accounts -/

@[simp] theorem address_withNumber (acc : GenesisAccount Other) (number : Nat) :
    (acc.withNumber number).address = acc.address := by
  cases acc <;> rfl

@[simp] theorem originalVesting_withNumber (acc : GenesisAccount Other) (number : Nat) :
    (acc.withNumber number).originalVesting = acc.originalVesting := by
  cases acc <;> rfl

/-- Numbers do not count among addresses. -/
theorem map_getAddress_withNumber (hsdk : sdk.Lawful) (accs : List (GenesisAccount Other)) :
    (accs.map (·.withNumber 0)).map sdk.getAddress = accs.map sdk.getAddress := by
  rw [List.map_map]
  apply List.map_congr_left
  intro acc _
  exact hsdk.getAddress_withNumber acc 0

theorem contains_eq_false (hsdk : sdk.Lawful) {accs : List (GenesisAccount Other)} {addr : Address} :
    sdk.contains accs addr = false ↔ addr ∉ accs.map sdk.getAddress := by
  rw [← Bool.not_eq_true, hsdk.contains_iff]

/-- Valid accounts, by their addresses. -/
theorem validateAuth_nodup (hsdk : sdk.Lawful) {auth : AuthGenesis AuthParams Other}
    (h : sdk.validateAuth auth = .ok ()) : (auth.accounts.map sdk.getAddress).Nodup := by
  obtain ⟨_, hnodup, _⟩ := (hsdk.validateAuth_iff auth).mp h
  apply List.Nodup.of_map sdk.codec.string
  rw [List.map_map]
  exact hnodup

/-- Order and numbers do not count. -/
theorem validateAuth_congr (hsdk : sdk.Lawful) {params : AuthParams}
    {accs accs' : List (GenesisAccount Other)}
    (h : (accs.map (·.withNumber 0)).Perm (accs'.map (·.withNumber 0))) :
    sdk.validateAuth ⟨params, accs⟩ = .ok () ↔ sdk.validateAuth ⟨params, accs'⟩ = .ok () := by
  have hnumberless : ∀ l : List (GenesisAccount Other), sdk.validateAuth ⟨params, l⟩ = .ok () ↔
      sdk.validateParams params = true ∧
        ((l.map (·.withNumber 0)).map fun acc => sdk.codec.string (sdk.getAddress acc)).Nodup ∧
        ∀ acc ∈ l.map (·.withNumber 0), sdk.validateAccount acc = .ok () := by
    intro l
    rw [hsdk.validateAuth_iff, List.map_map, List.forall_mem_map]
    simp only [Function.comp_def, hsdk.getAddress_withNumber, hsdk.validateAccount_withNumber]
  rw [hnumberless, hnumberless, (h.map _).nodup_iff]
  simp only [h.mem_iff]

theorem validateAuth_append (hsdk : sdk.Lawful) {params : AuthParams}
    {accs : List (GenesisAccount Other)} {acc : GenesisAccount Other}
    (haccs : sdk.validateAuth ⟨params, accs⟩ = .ok ()) (hacc : sdk.validateAccount acc = .ok ())
    (hnew : sdk.contains accs (sdk.getAddress acc) = false) :
    sdk.validateAuth ⟨params, accs ++ [acc]⟩ = .ok () := by
  obtain ⟨hparams, hnodup, hall⟩ := (hsdk.validateAuth_iff _).mp haccs
  rw [hsdk.validateAuth_iff]
  simp only [List.map_append, List.map_singleton]
  refine ⟨hparams, ?_, ?_⟩
  · rw [List.nodup_append_comm]
    refine List.nodup_cons.mpr ⟨?_, hnodup⟩
    intro hmem
    obtain ⟨x, hx, hname⟩ := List.mem_map.mp hmem
    have haddr : sdk.getAddress x = sdk.getAddress acc := hsdk.codec.string_injective _ _ hname
    exact (contains_eq_false hsdk).mp hnew (List.mem_map.mpr ⟨x, hx, haddr⟩)
  · intro x hx
    cases List.mem_append.mp hx with
    | inl hx => exact hall x hx
    | inr hx => rw [List.mem_singleton.mp hx]; exact hacc

/-! ## Balances -/

theorem amountIn_perm {balances balances' : List Balance} (h : balances.Perm balances')
    (denom : String) : amountIn balances denom = amountIn balances' denom :=
  (h.map _).sum_eq

theorem amountIn_nonneg {balances : List Balance} {denom : String}
    (h : ∀ balance ∈ balances, 0 ≤ Amounts.amountOf balance.coins denom) :
    0 ≤ amountIn balances denom := by
  apply List.sum_nonneg
  intro amount hamount
  obtain ⟨balance, hbalance, rfl⟩ := List.mem_map.mp hamount
  exact h balance hbalance

theorem fitsInt_of_le {m n : Int} (hm : 0 ≤ m) (hmn : m ≤ n) (h : fitsInt n = true) :
    fitsInt m = true := by
  unfold fitsInt at *
  rw [decide_eq_true_eq] at *
  omega

theorem coins_eq_nil (hsdk : sdk.Lawful) {balances : List Balance}
    (h : ∀ balance ∈ balances, sdk.isValid balance.coins = true)
    (hzero : ∀ denom, amountIn balances denom = 0) : ∀ balance ∈ balances, balance.coins = [] := by
  induction balances with
  | nil => exact fun _ hmem => absurd hmem List.not_mem_nil
  | cons balance balances ih =>
    obtain ⟨hvalid, hrest⟩ := List.forall_mem_cons.mp h
    have hparts : ∀ denom, Amounts.amountOf balance.coins denom = 0 ∧ amountIn balances denom = 0 := by
      intro denom
      have hhead := hsdk.amount_nonneg hvalid denom
      have htail := amountIn_nonneg fun balance hmem => hsdk.amount_nonneg (hrest balance hmem) denom
      have hsum : Amounts.amountOf balance.coins denom + amountIn balances denom = 0 := hzero denom
      omega
    rw [List.forall_mem_cons]
    exact ⟨(hsdk.eq_nil_iff hvalid).mpr fun denom => (hparts denom).1,
      ih hrest fun denom => (hparts denom).2⟩

theorem amountIn_of_nil {balances : List Balance} (h : ∀ balance ∈ balances, balance.coins = [])
    (denom : String) : amountIn balances denom = 0 := by
  induction balances with
  | nil => rfl
  | cons balance balances ih =>
    obtain ⟨hbalance, hrest⟩ := List.forall_mem_cons.mp h
    show Amounts.amountOf balance.coins denom + amountIn balances denom = 0
    rw [hbalance, ih hrest]
    rfl

end Ark.GenAccounts
