import Mathlib.Data.Multiset.ZeroCons
import Ark.GenAccounts.SmallSdk

/- What one run of `add-genesis-account` does to a valid genesis.

   The auth state stays valid. The command checks less than the bank state needs: an
   address that has coins but no account gets a second balance, a supply that is empty
   becomes the new coins alone (`supply_replaced`), and a vesting amount is not compared
   with the denoms that the balance lacks (`vesting_unmatched`). `Admissible` is what is
   left open, and the genesis is kept exactly then (`addGenesisAccount_kept_iff`). -/
namespace Ark.GenAccounts
open Ark.Lib Ark.Lib.Checks Ark.Sdk
open Ark.Gov (Fault)
open Ark.DistrClaim (fitsInt)

variable {AuthParams Other BankRest : Type} {sdk : Sdk AuthParams Other BankRest}

/-- Everything of the old genesis is kept, and one account and its balance are added. -/
structure Kept (sdk : Sdk AuthParams Other BankRest) (g : Genesis AuthParams Other BankRest)
    (addr : Address) (g' : Genesis AuthParams Other BankRest) : Prop where
  auth_valid : sdk.validateAuth g'.auth = .ok ()
  bank_valid : sdk.validateBank g'.bank = .ok ()
  addresses : (g'.bank.balances.map Balance.address).Nodup
  supply : g'.bank.supply = [] ∨
    ∀ denom, Amounts.amountOf g'.bank.supply denom = amountIn g'.bank.balances denom
  added : ∃ (acc : GenesisAccount Other) (balance : Balance),
    acc.address = sdk.codec.string addr ∧ balance.address = sdk.codec.string addr ∧
    (g'.auth.accounts.map (·.withNumber 0)).Perm ((acc :: g.auth.accounts).map (·.withNumber 0)) ∧
    g'.bank.balances.Perm (balance :: g.bank.balances) ∧
    ∀ denom, Amounts.amountOf acc.originalVesting denom ≤ Amounts.amountOf balance.coins denom

/-- What the command does not check. -/
structure Admissible (sdk : Sdk AuthParams Other BankRest) (g : Genesis AuthParams Other BankRest)
    (addr : Address) (coins vestingAmt : List Coin) : Prop where
  coins_valid : sdk.isValid (sdk.sort coins) = true
  fresh : sdk.codec.string addr ∉ g.bank.balances.map Balance.address
  supply : g.bank.supply ≠ [] ∨ coins = [] ∨ ∀ balance ∈ g.bank.balances, balance.coins = []
  vesting : ∀ coin ∈ vestingAmt, 0 < coin.2 → coin.1 ∈ coins.map Prod.fst

/-! ## The bank state -/

/-- The bank state after one more balance and as much more supply. -/
theorem added_validate_iff (hsdk : sdk.Lawful) {bank : BankGenesis BankRest}
    {balances : List Balance} {supply coins : List Coin} {text : String} {addr : Address}
    (hbank : sdk.validateBank bank = .ok ())
    (hparses : sdk.codec.accAddressFromBech32 text = .ok addr)
    (hadd : sdk.add bank.supply coins = .ok supply)
    (hperm : balances.Perm (⟨text, coins⟩ :: bank.balances)) :
    sdk.validateBank ⟨balances, supply, bank.rest⟩ = .ok () ↔
      sdk.isValid coins = true ∧ text ∉ bank.balances.map Balance.address ∧
        (bank.supply ≠ [] ∨ coins = [] ∨ ∀ balance ∈ bank.balances, balance.coins = []) := by
  obtain ⟨hrest, hnodup, hall, hfits, hsupply⟩ := (hsdk.validateBank_iff bank).mp hbank
  have hsum : ∀ denom, amountIn balances denom =
      Amounts.amountOf coins denom + amountIn bank.balances denom := fun denom =>
    amountIn_perm hperm denom
  have hsupplyValid : sdk.isValid bank.supply = true := by
    cases hsupply with
    | inl hnil => rw [hnil]; exact hsdk.nil_valid
    | inr h => exact h.1
  rw [hsdk.validateBank_iff]
  simp only
  constructor
  · intro h
    obtain ⟨_, hnodup', hall', _, hsupply'⟩ := h
    have hvalid : sdk.isValid coins = true := (hall' _ (hperm.mem_iff.mpr List.mem_cons_self)).1
    refine ⟨hvalid, ?_, ?_⟩
    · exact (List.nodup_cons.mp ((hperm.map Balance.address).nodup_iff.mp hnodup')).1
    · by_cases hnil : bank.supply = []
      · rw [hnil] at hadd
        rw [hsdk.add_nil hvalid hadd] at hsupply'
        cases hsupply' with
        | inl hempty => exact .inr (.inl hempty)
        | inr h =>
          -- the coins are the sum of all balances, so there is nothing in the others
          refine .inr (.inr (coins_eq_nil hsdk (fun balance hmem => (hall balance hmem).1) ?_))
          intro denom
          have htotal := h.2 denom
          rw [hsum] at htotal
          omega
      · exact .inl hnil
  · intro h
    obtain ⟨hvalid, hfresh, hcond⟩ := h
    obtain ⟨hvalid', hamount⟩ := hsdk.add_ok _ _ _ hsupplyValid hvalid hadd
    have hnodup' : (balances.map Balance.address).Nodup :=
      (hperm.map Balance.address).nodup_iff.mpr (List.nodup_cons.mpr ⟨hfresh, hnodup⟩)
    have hall' : ∀ balance ∈ balances, sdk.isValid balance.coins = true ∧
        ∃ addr, sdk.codec.accAddressFromBech32 balance.address = .ok addr := by
      intro balance hbalance
      cases List.mem_cons.mp (hperm.mem_iff.mp hbalance) with
      | inl heq => rw [heq]; exact ⟨hvalid, addr, hparses⟩
      | inr hmem => exact hall balance hmem
    -- a supply that is the sum stays the sum
    have hkept : (∀ denom, Amounts.amountOf supply denom = amountIn balances denom) →
        (∀ denom, fitsInt (amountIn balances denom) = true) ∧
          (supply = [] ∨ sdk.isValid supply = true ∧
            ∀ denom, Amounts.amountOf supply denom = amountIn balances denom) := by
      intro heq
      refine ⟨?_, .inr ⟨hvalid', heq⟩⟩
      intro denom
      rw [← heq]
      exact hsdk.fits_of_add hsupplyValid hvalid hadd denom
    refine ⟨hrest, hnodup', hall', ?_⟩
    by_cases hnil : bank.supply = []
    · rw [hnil] at hadd
      have hnew : supply = coins := hsdk.add_nil hvalid hadd
      cases hcond.resolve_left (fun hne => hne hnil) with
      | inl hcoins =>
        refine ⟨?_, .inl (hnew.trans hcoins)⟩
        intro denom
        have hold : amountIn balances denom = amountIn bank.balances denom := by
          rw [hsum, hcoins]
          exact Int.zero_add _
        rw [hold]
        exact hfits denom
      | inr hempty =>
        apply hkept
        intro denom
        rw [hnew, hsum, amountIn_of_nil hempty, Int.add_zero]
    · apply hkept
      intro denom
      rw [hamount, hsum, (hsupply.resolve_left hnil).2, Int.add_comm]

/-! ## The new account -/

theorem exceeds_ok {originalVesting balance : List Coin}
    (h : exceeds sdk originalVesting balance = .ok false) :
    sdk.isAnyGT originalVesting balance = .ok false := by
  unfold exceeds at h
  split at h
  · cases h
  · exact h

/-- What a new account vests, and what it was compared with. -/
theorem newGenAccount_spec (hsdk : sdk.Lawful) {addr : Address} {balance vestingAmt : List Coin}
    {flags : Flags} {acc : GenesisAccount Other}
    (h : newGenAccount sdk addr balance vestingAmt flags = .ok acc) :
    acc.address = sdk.codec.string addr ∧
      (sdk.isZero vestingAmt = true ∧ acc.originalVesting = [] ∨
        acc.originalVesting = sdk.sort vestingAmt ∧ sdk.isValid (sdk.sort vestingAmt) = true ∧
          sdk.isAnyGT (sdk.sort vestingAmt) balance = .ok false) := by
  have haddr := hsdk.newBaseAccount_address addr
  unfold newGenAccount at h
  by_cases hzero : sdk.isZero vestingAmt = true
  · simp only [if_pos hzero] at h
    cases h
    exact ⟨haddr, .inl ⟨hzero, rfl⟩⟩
  · simp only [if_neg hzero, bind_ok, failIf_ok, Bool.not_eq_true] at h
    obtain ⟨bva, hnew, refused, hrefused, _, hnot, h⟩ := h
    obtain ⟨hbase, horiginal, hvalid⟩ := hsdk.newBaseVestingAccount_ok _ _ _ _ hnew
    rw [hnot, horiginal] at hrefused
    have hany := exceeds_ok hrefused
    split at h
    · cases h
      exact ⟨(congrArg BaseAccount.address hbase).trans haddr, .inr ⟨horiginal, hvalid, hany⟩⟩
    · split at h
      · cases h
        exact ⟨(congrArg BaseAccount.address hbase).trans haddr, .inr ⟨horiginal, hvalid, hany⟩⟩
      · cases h

theorem vesting_le_iff (hsdk : sdk.Lawful) {addr : Address} {balance vestingAmt : List Coin}
    {flags : Flags} {acc : GenesisAccount Other} (hbalance : sdk.isValid balance = true)
    (h : newGenAccount sdk addr balance vestingAmt flags = .ok acc) :
    (∀ denom, Amounts.amountOf acc.originalVesting denom ≤ Amounts.amountOf balance denom) ↔
      ∀ coin ∈ vestingAmt, 0 < coin.2 → coin.1 ∈ balance.map Prod.fst := by
  cases (newGenAccount_spec hsdk h).2 with
  | inl hbase =>
    constructor
    · intro _ coin hcoin hpos
      have hzero := (hsdk.isZero_iff vestingAmt).mp hbase.1 coin hcoin
      omega
    · intro _ denom
      rw [hbase.2]
      exact hsdk.amount_nonneg hbalance denom
  | inr hvesting =>
    obtain ⟨horiginal, hvalid, hany⟩ := hvesting
    rw [horiginal, hsdk.amount_le_iff hvalid hbalance hany]
    constructor
    · intro hnames coin hcoin _
      exact hnames coin ((hsdk.sort_perm vestingAmt).mem_iff.mpr hcoin)
    · intro hnames coin hcoin
      exact hnames coin ((hsdk.sort_perm vestingAmt).mem_iff.mp hcoin)
        (hsdk.valid_pos _ hvalid coin hcoin)

/-! ## The command -/

theorem accountAddress_parses (hsdk : sdk.Lawful) {arg : String} {addr : Address}
    (h : accountAddress sdk arg = .ok addr) :
    sdk.codec.accAddressFromBech32 (sdk.codec.string addr) = .ok addr := by
  unfold accountAddress at h
  split at h
  · rename_i parsed hparse
    cases h
    exact hsdk.codec.parse_string arg addr hparse
  · exact hsdk.keyring_string arg addr h

/-- What a run that succeeds has checked, and what it writes. -/
theorem addGenesisAccount_ok {flags : Flags} {arg0 arg1 : String} {addr : Address}
    {coins vestingAmt : List Coin} {g g' : Genesis AuthParams Other BankRest}
    (haddr : accountAddress sdk arg0 = .ok addr) (hcoins : sdk.parseCoinsNormalized arg1 = .ok coins)
    (hvesting : sdk.parseCoinsNormalized flags.vestingAmt = .ok vestingAmt) :
    addGenesisAccount sdk flags arg0 arg1 (.ok g) = .ok g' ↔
      ∃ acc supply, newGenAccount sdk addr (sdk.sort coins) vestingAmt flags = .ok acc ∧
        sdk.validateAccount acc = .ok () ∧ sdk.contains g.auth.accounts addr = false ∧
        sdk.add g.bank.supply (sdk.sort coins) = .ok supply ∧
        g' = ⟨⟨g.auth.params, sdk.sanitizeGenesisAccounts (g.auth.accounts ++ [acc])⟩,
          ⟨sdk.sanitizeGenesisBalances
            (g.bank.balances ++ [⟨sdk.codec.string addr, sdk.sort coins⟩]), supply, g.bank.rest⟩⟩ := by
  unfold addGenesisAccount
  simp only [bind_ok, parseCoins_ok, haddr, hcoins, hvesting, Except.ok.injEq, exists_eq_left',
    wrapError_ok, failIf_ok, pure_ok, Bool.not_eq_true]
  constructor
  · intro h
    obtain ⟨acc, hacc, _, hvalidate, _, hnew, supply, hsupply, hg'⟩ := h
    exact ⟨acc, supply, hacc, hvalidate, hnew, hsupply, hg'.symm⟩
  · intro h
    obtain ⟨acc, supply, hacc, hvalidate, hnew, hsupply, hg'⟩ := h
    exact ⟨acc, hacc, (), hvalidate, (), hnew, supply, hsupply, hg'.symm⟩

theorem head_eq_of_perm {α : Type} {a b : α} {l : List α} (h : (a :: l).Perm (b :: l)) : a = b := by
  have hcons : a ::ₘ (l : Multiset α) = b ::ₘ l := Multiset.coe_eq_coe.mpr h
  exact (Multiset.cons_inj_left _).mp hcons

/-- **When the command keeps a genesis valid.** -/
theorem addGenesisAccount_kept_iff (hsdk : sdk.Lawful) {flags : Flags} {arg0 arg1 : String}
    {addr : Address} {coins vestingAmt : List Coin} {g g' : Genesis AuthParams Other BankRest}
    (hauth : sdk.validateAuth g.auth = .ok ()) (hbank : sdk.validateBank g.bank = .ok ())
    (haddr : accountAddress sdk arg0 = .ok addr) (hcoins : sdk.parseCoinsNormalized arg1 = .ok coins)
    (hvesting : sdk.parseCoinsNormalized flags.vestingAmt = .ok vestingAmt)
    (h : addGenesisAccount sdk flags arg0 arg1 (.ok g) = .ok g') :
    Kept sdk g addr g' ↔ Admissible sdk g addr coins vestingAmt := by
  obtain ⟨acc, supply, hacc, hvalidate, hnew, hsupply, hg'⟩ :=
    (addGenesisAccount_ok haddr hcoins hvesting).mp h
  have hparses := accountAddress_parses hsdk haddr
  have haccAddr := (newGenAccount_spec hsdk hacc).1
  -- the accounts are the old ones and the new one, the balances too
  have haccs : (g'.auth.accounts.map (·.withNumber 0)).Perm
      ((acc :: g.auth.accounts).map (·.withNumber 0)) := by
    rw [hg']
    exact (hsdk.accounts_perm _).trans ((List.perm_append_singleton acc _).map _)
  have hbalances : g'.bank.balances.Perm
      (⟨sdk.codec.string addr, sdk.sort coins⟩ :: g.bank.balances) := by
    rw [hg']
    exact (hsdk.balances_perm _).trans (List.perm_append_singleton _ _)
  have hauth' : sdk.validateAuth g'.auth = .ok () := by
    rw [hg', validateAuth_congr hsdk (hsdk.accounts_perm _)]
    refine validateAuth_append hsdk hauth hvalidate ?_
    rw [hsdk.getAddress_eq acc addr (haccAddr ▸ hparses)]
    exact hnew
  have hbank' : sdk.validateBank g'.bank = .ok () ↔ sdk.isValid (sdk.sort coins) = true ∧
      sdk.codec.string addr ∉ g.bank.balances.map Balance.address ∧
        (g.bank.supply ≠ [] ∨ sdk.sort coins = [] ∨
          ∀ balance ∈ g.bank.balances, balance.coins = []) := by
    rw [hg'] at hbalances ⊢
    exact added_validate_iff hsdk hbank hparses hsupply hbalances
  -- sorting changes neither the denoms nor whether there are any
  have hnames : ∀ denom, denom ∈ (sdk.sort coins).map Prod.fst ↔ denom ∈ coins.map Prod.fst :=
    fun _ => ((hsdk.sort_perm coins).map Prod.fst).mem_iff
  constructor
  · intro hkept
    obtain ⟨hvalid, hfresh, hcond⟩ := hbank'.mp hkept.bank_valid
    refine ⟨hvalid, hfresh, by rwa [hsdk.sort_eq_nil] at hcond, ?_⟩
    obtain ⟨acc', balance', _, _, haccs', hbalances', hle⟩ := hkept.added
    -- the new entries are the ones the command built
    have hacc' : acc'.withNumber 0 = acc.withNumber 0 :=
      head_eq_of_perm (haccs'.symm.trans haccs)
    have hbalance' : balance' = ⟨sdk.codec.string addr, sdk.sort coins⟩ :=
      head_eq_of_perm (hbalances'.symm.trans hbalances)
    rw [hbalance', ← originalVesting_withNumber acc' 0, hacc', originalVesting_withNumber,
      vesting_le_iff hsdk hvalid hacc] at hle
    intro coin hcoin hpos
    exact (hnames coin.1).mp (hle coin hcoin hpos)
  · intro hadm
    have hbank' := hbank'.mpr
      ⟨hadm.coins_valid, hadm.fresh, by rw [hsdk.sort_eq_nil]; exact hadm.supply⟩
    obtain ⟨_, hnodup, _, _, hsupply'⟩ := (hsdk.validateBank_iff _).mp hbank'
    refine ⟨hauth', hbank', hnodup, hsupply'.imp_right And.right, acc, _, haccAddr, rfl, haccs,
      hbalances, ?_⟩
    rw [vesting_le_iff hsdk hadm.coins_valid hacc]
    intro coin hcoin hpos
    exact (hnames coin.1).mpr (hadm.vesting coin hcoin hpos)

/-! ## Two runs -/

def account (n : Nat) : Address := List.replicate 20 (UInt8.ofNat n)

theorem account_parses (n : Nat) :
    arkCodec.accAddressFromBech32 (arkCodec.string (account n)) = .ok (account n) := by
  rw [arkCodec_parse, arkCodec_string, String.toList_ofList]
  exact parseAccAddress_print (by simp [verifyAddressLen, account])

theorem parsed_account (n : Nat) : parsed (arkCodec.string (account n)) = account n := by
  rw [parsed, account_parses]

/-- No supply, and these balances. -/
def genesisOf (balances : List Balance) : Genesis Unit Unit Unit :=
  ⟨⟨(), []⟩, ⟨balances, [], ()⟩⟩

theorem accountAddress_account (n : Nat) :
    accountAddress smallSdk (arkCodec.string (account n)) = .ok (account n) := by
  have hparses : smallSdk.codec.accAddressFromBech32 (arkCodec.string (account n)) =
    .ok (account n) := account_parses n
  rw [accountAddress, hparses]

theorem genesisOf_auth (balances : List Balance) :
    smallSdk.validateAuth (genesisOf balances).auth = .ok () := rfl

def written (balances : List Balance) (supply : List Coin) (acc : GenesisAccount Unit) :
    Genesis Unit Unit Unit :=
  ⟨⟨(), [acc]⟩, ⟨balances ++ [⟨arkCodec.string (account 2), [("uark", 10)]⟩], supply, ()⟩⟩

def baseAccount : BaseAccount := ⟨arkCodec.string (account 2), none, 0, 0⟩

/-- Another address has coins, and there is no supply: the supply becomes the new coins. -/
theorem supply_replaced :
    let g := genesisOf [⟨arkCodec.string (account 1), [("uark", 7)]⟩]
    let g' := written g.bank.balances [("uark", 10)] (.base baseAccount)
    smallSdk.validateAuth g.auth = .ok () ∧ smallSdk.validateBank g.bank = .ok () ∧
      addGenesisAccount smallSdk ⟨0, 0, ""⟩ (arkCodec.string (account 2)) "10uark" (.ok g) = .ok g' ∧
      ¬ Kept smallSdk g (account 2) g' := by
  have hvalid : smallSdk.isValid [("uark", 7)] = true := by decide +kernel
  -- the first account's balance comes first
  have hsorted : sortBalances [⟨arkCodec.string (account 1), [("uark", 7)]⟩,
      ⟨arkCodec.string (account 2), [("uark", 10)]⟩] = [⟨arkCodec.string (account 1), [("uark", 7)]⟩,
      ⟨arkCodec.string (account 2), [("uark", 10)]⟩] := by
    apply List.Pairwise.insertionSort_eq
    rw [List.pairwise_pair, parsed_account, parsed_account]
    decide
  refine ⟨genesisOf_auth _, ?_, ?_, ?_⟩
  · rw [smallSdk_lawful.validateBank_iff]
    refine ⟨rfl, List.nodup_singleton _, ?_, fun denom => ?_, .inl rfl⟩
    · exact List.forall_mem_singleton.mpr ⟨hvalid, account 1, account_parses 1⟩
    · show fitsInt (Amounts.amountOf [("uark", (7 : Int))] denom + 0) = true
      unfold Amounts.amountOf
      split
      · decide
      · rfl
  · rw [addGenesisAccount_ok (accountAddress_account 2) rfl rfl]
    refine ⟨.base baseAccount, [("uark", 10)], rfl, rfl, rfl, rfl, ?_⟩
    have hcodec : smallSdk.codec = arkCodec := rfl
    have hcoins : smallSdk.sort [("uark", 10)] = [("uark", 10)] := rfl
    have hsanitize : smallSdk.sanitizeGenesisBalances = sortBalances := rfl
    simp only [genesisOf, List.singleton_append, hcodec, hcoins, hsanitize, hsorted]
    rfl
  · intro hkept
    cases hkept.supply with
    | inl hnil => cases hnil
    | inr hamount => exact absurd (hamount "uark") (by decide)

/-- The balance has none of the denom that vests. -/
theorem vesting_unmatched :
    let g := genesisOf []
    let g' := written [] [("uark", 10)] (.delayedVesting ⟨baseAccount, [("uatom", 5)], [], [], 100⟩)
    addGenesisAccount smallSdk ⟨0, 100, "5uatom"⟩ (arkCodec.string (account 2)) "10uark" (.ok g) =
        .ok g' ∧
      ¬ Kept smallSdk g (account 2) g' := by
  have hrun : addGenesisAccount smallSdk ⟨0, 100, "5uatom"⟩ (arkCodec.string (account 2)) "10uark"
      (.ok (genesisOf [])) = .ok (written [] [("uark", 10)]
        (.delayedVesting ⟨baseAccount, [("uatom", 5)], [], [], 100⟩)) := by
    unfold addGenesisAccount
    rw [accountAddress_account]
    rfl
  have hcoins : smallSdk.parseCoinsNormalized "10uark" = .ok [("uark", 10)] := rfl
  have hvesting : smallSdk.parseCoinsNormalized "5uatom" = .ok [("uatom", 5)] := rfl
  refine ⟨hrun, ?_⟩
  rw [addGenesisAccount_kept_iff smallSdk_lawful (genesisOf_auth []) rfl (accountAddress_account 2)
    hcoins hvesting hrun]
  intro hadm
  exact absurd (hadm.vesting ("uatom", 5) List.mem_cons_self (by decide)) (by decide)

end Ark.GenAccounts
