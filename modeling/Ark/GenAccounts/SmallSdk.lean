import Mathlib.Data.List.Sort
import Ark.Coins
import Ark.GenAccounts.Validity

/- An SDK with which the parameters of the command are met.

   Coins are `Ark.Coins`, addresses the chain's. The accounts' checks and the two
   validations of a genesis are written out as the SDK has them: `validateGenAccounts` and
   `validateBalances` go through a list with the addresses that were seen, the latter with
   the sum so far. There are no keys, three coin lists parse, accounts come without numbers
   of their own and are numbered in their order, and balances are sorted by address.
   `smallSdk_lawful` says that this is an SDK as the command relies on it. -/
namespace Ark.GenAccounts
open Ark.Lib Ark.Lib.Checks Ark.Sdk Ark.Coins
open Ark.Gov (Fault)
open Ark.DistrClaim (sdkCoins addCoins fitsInt)

def orPanic {α : Type} (text : String) : Option α → Except Fault α
  | some a => .ok a
  | none => .error (.panic text)

@[simp] theorem orPanic_ok {α : Type} {text : String} {x : Option α} {a : α} :
    orPanic text x = .ok a ↔ x = some a := by
  cases x with
  | none => simp [orPanic]
  | some b => simp [orPanic]

/-! ## Accounts -/

/-- No address where the text does not parse. -/
def parsed (text : String) : Address :=
  match arkCodec.accAddressFromBech32 text with
  | .ok addr => addr
  | .error _ => []

def BaseAccount.validate (acc : BaseAccount) : Except Fault Unit :=
  match acc.pubKey with
  | none => .ok ()
  | some pubKey =>
    if acc.address = "" then .ok ()
    else
      match arkCodec.accAddressFromBech32 acc.address with
      | .error e => .error (.err e.text)
      | .ok accAddr =>
        failIf (pubKey.address ≠ accAddr) (.err "account address and pubkey address do not match")

def BaseVestingAccount.validate (acc : BaseVestingAccount) : Except Fault Unit := do
  failIf (acc.endTime < 0) (.err "end time cannot be negative")
  failIf (isValid acc.originalVesting = false ∨ isAllPositive acc.originalVesting = false)
    (.err "invalid coins")
  let within ← orPanic "AmountOf" (isAllLTE acc.delegatedVesting acc.originalVesting)
  failIf (within = false)
    (.err "delegated vesting amount cannot be greater than original vesting amount")
  acc.baseAccount.validate

def GenesisAccount.validate : GenesisAccount Unit → Except Fault Unit
  | base acc => acc.validate
  | continuousVesting acc startTime => do
    failIf (startTime ≥ acc.endTime) (.err "vesting start-time cannot be before end-time")
    acc.validate
  | delayedVesting acc => acc.validate
  | other _ _ _ => .ok ()

def newBaseVestingAccount (baseAccount : BaseAccount) (originalVesting : List Coin) (endTime : Int) :
    Except Fault BaseVestingAccount := do
  let acc : BaseVestingAccount := ⟨baseAccount, originalVesting, [], [], endTime⟩
  acc.validate
  pure acc

/-- `ValidateGenAccounts`, with the addresses that were seen. -/
def validateGenAccounts : List String → List (GenesisAccount Unit) → Except Fault Unit
  | _, [] => .ok ()
  | addrMap, acc :: accs => do
    let addrStr := arkCodec.string (parsed acc.address)
    failIf (addrStr ∈ addrMap)
      (.err s!"duplicate account found in genesis state; address: {addrStr}")
    acc.validate
    validateGenAccounts (addrStr :: addrMap) accs

/-! ## Balances -/

def Balance.validate (balance : Balance) : Except Fault Unit :=
  match arkCodec.accAddressFromBech32 balance.address with
  | .error e => .error (.err e.text)
  | .ok _ => failIf (isValid balance.coins = false) (.err "invalid coins")

/-- The loop over the balances, with the addresses that were seen and the sum so far. -/
def validateBalances : List String → List Coin → List Balance → Except Fault (List Coin)
  | _, totalSupply, [] => .ok totalSupply
  | seenBalances, totalSupply, balance :: balances => do
    failIf (balance.address ∈ seenBalances)
      (.err s!"duplicate balance for address {balance.address}")
    balance.validate
    let totalSupply ← orPanic "Add" (addCoins totalSupply balance.coins)
    validateBalances (balance.address :: seenBalances) totalSupply balances

def BankGenesis.validate (bank : BankGenesis Unit) : Except Fault Unit := do
  let totalSupply ← validateBalances [] [] bank.balances
  -- an empty supply is the sum that was computed
  if bank.supply = [] then .ok ()
  else do
    failIf (isValid bank.supply = false) (.err "invalid coins")
    failIf (equal bank.supply totalSupply = false) (.err "genesis supply is incorrect")

/-- `SanitizeGenesisBalances`. -/
def sortBalances (balances : List Balance) : List Balance :=
  balances.insertionSort fun x y =>
    (parsed y.address).lex (parsed x.address) (fun a b => Nat.blt a.toNat b.toNat) = false

/-- `SanitizeGenesisAccounts`, of accounts without numbers of their own. -/
def numberAccounts (accs : List (GenesisAccount Unit)) : List (GenesisAccount Unit) :=
  accs.mapIdx fun number acc => acc.withNumber number

def smallSdk : Sdk Unit Unit Unit where
  codec := arkCodec
  keyring _ := .error (.err "key not found")
  parseCoinsNormalized text :=
    match text with
    | "" => .ok []
    | "10uark" => .ok [("uark", 10)]
    | "5uatom" => .ok [("uatom", 5)]
    | _ => .error "invalid decimal coin expression"
  sort := sort
  isZero := isZero
  isValid := isValid
  isAnyGT a b := orPanic "AmountOf" (isAnyGT a b)
  add a b := orPanic "Add" (addCoins a b)
  newBaseAccount addr := ⟨arkCodec.string addr, none, 0, 0⟩
  newBaseVestingAccount := newBaseVestingAccount
  getAddress acc := parsed acc.address
  validateAccount := GenesisAccount.validate
  contains accs addr := accs.any fun acc => parsed acc.address = addr
  sanitizeGenesisAccounts := numberAccounts
  sanitizeGenesisBalances := sortBalances
  validateParams _ := true
  validateAuth auth := validateGenAccounts [] auth.accounts
  validateRest _ := true
  validateBank := BankGenesis.validate

/-! ## The two validations -/

theorem validateGenAccounts_ok {addrMap : List String} {accs : List (GenesisAccount Unit)} :
    validateGenAccounts addrMap accs = .ok () ↔
      (accs.map fun acc => arkCodec.string (parsed acc.address)).Nodup ∧
        (∀ acc ∈ accs, arkCodec.string (parsed acc.address) ∉ addrMap) ∧
        ∀ acc ∈ accs, acc.validate = .ok () := by
  induction accs generalizing addrMap with
  | nil => simp [validateGenAccounts]
  | cons acc accs ih =>
    rw [validateGenAccounts, List.map_cons, List.nodup_cons, List.forall_mem_cons,
      List.forall_mem_cons]
    simp only [bind_ok, failIf_ok, ih, List.mem_cons, not_or]
    constructor
    · intro h
      obtain ⟨_, hseen, _, hacc, hnodup, hfresh, hall⟩ := h
      refine ⟨⟨?_, hnodup⟩, ⟨hseen, fun x hx => (hfresh x hx).2⟩, hacc, hall⟩
      intro hmem
      obtain ⟨x, hx, hname⟩ := List.mem_map.mp hmem
      exact (hfresh x hx).1 hname
    · intro h
      obtain ⟨⟨hnew, hnodup⟩, ⟨hseen, hfresh⟩, hacc, hall⟩ := h
      refine ⟨(), hseen, (), hacc, hnodup, ?_, hall⟩
      intro x hx
      exact ⟨fun hname => hnew (List.mem_map.mpr ⟨x, hx, hname⟩), hfresh x hx⟩

theorem Balance.validate_ok {balance : Balance} :
    balance.validate = .ok () ↔ isValid balance.coins = true ∧
      ∃ addr, arkCodec.accAddressFromBech32 balance.address = .ok addr := by
  unfold Balance.validate
  cases arkCodec.accAddressFromBech32 balance.address with
  | error e => simp
  | ok addr => simp

theorem valid_of_validate {balance : Balance} (h : balance.validate = .ok ()) :
    sdkCoins.IsValid balance.coins := isValid_iff.mp (Balance.validate_ok.mp h).1

theorem fitsInt_nil (denom : String) : fitsInt (Amounts.amountOf ([] : List Coin) denom) = true := by
  rw [Amounts.amountOf]
  decide

theorem validateBalances_spec {seenBalances : List String} {total sum : List Coin}
    {balances : List Balance} (htotal : sdkCoins.IsValid total)
    (hfits : ∀ denom, fitsInt (Amounts.amountOf total denom) = true)
    (h : validateBalances seenBalances total balances = .ok sum) :
    (balances.map Balance.address).Nodup ∧
      (∀ balance ∈ balances, balance.address ∉ seenBalances) ∧
      (∀ balance ∈ balances, balance.validate = .ok ()) ∧ sdkCoins.IsValid sum ∧
      ∀ denom, fitsInt (Amounts.amountOf sum denom) = true ∧
        Amounts.amountOf sum denom = Amounts.amountOf total denom + amountIn balances denom := by
  induction balances generalizing seenBalances total with
  | nil =>
    cases h
    simp [htotal, hfits, amountIn]
  | cons balance balances ih =>
    rw [validateBalances] at h
    simp only [bind_ok, failIf_ok, orPanic_ok] at h
    obtain ⟨_, hseen, _, hbalance, total', hadd, h⟩ := h
    have hvalid := valid_of_validate hbalance
    obtain ⟨htotal', hamount, hfits'⟩ := addCoins_spec htotal hvalid hadd
    obtain ⟨hnodup, hfresh, hall, hsum, hamounts⟩ := ih htotal' hfits' h
    refine ⟨?_, ?_, List.forall_mem_cons.mpr ⟨hbalance, hall⟩, hsum, ?_⟩
    · refine List.nodup_cons.mpr ⟨?_, hnodup⟩
      intro hmem
      obtain ⟨x, hx, hname⟩ := List.mem_map.mp hmem
      exact hfresh x hx (hname ▸ List.mem_cons_self)
    · refine List.forall_mem_cons.mpr ⟨hseen, ?_⟩
      intro x hx hmem
      exact hfresh x hx (List.mem_cons_of_mem _ hmem)
    · intro denom
      refine ⟨(hamounts denom).1, ?_⟩
      rw [(hamounts denom).2, hamount, Int.add_assoc]
      rfl

theorem exists_validateBalances {seenBalances : List String} {total : List Coin}
    {balances : List Balance} (htotal : sdkCoins.IsValid total)
    (hnodup : (balances.map Balance.address).Nodup)
    (hfresh : ∀ balance ∈ balances, balance.address ∉ seenBalances)
    (hall : ∀ balance ∈ balances, balance.validate = .ok ())
    (hfits : ∀ denom, fitsInt (Amounts.amountOf total denom + amountIn balances denom) = true) :
    ∃ sum, validateBalances seenBalances total balances = .ok sum := by
  induction balances generalizing seenBalances total with
  | nil => exact ⟨total, rfl⟩
  | cons balance balances ih =>
    obtain ⟨hnew, hnodup⟩ := List.nodup_cons.mp hnodup
    obtain ⟨hseen, hfresh⟩ := List.forall_mem_cons.mp hfresh
    obtain ⟨hbalance, hall⟩ := List.forall_mem_cons.mp hall
    have hvalid := valid_of_validate hbalance
    have hsplit : ∀ denom, amountIn (balance :: balances) denom =
        Amounts.amountOf balance.coins denom + amountIn balances denom := fun _ => rfl
    -- what is added first is at most what is there in the end
    obtain ⟨total', hadd⟩ := exists_addCoins htotal hvalid fun denom => by
      have hhead := amount_nonneg hvalid denom
      have hzero := amount_nonneg htotal denom
      have htail := amountIn_nonneg fun x hx => amount_nonneg (valid_of_validate (hall x hx)) denom
      apply fitsInt_of_le _ _ (hfits denom)
      · omega
      · rw [hsplit]
        omega
    obtain ⟨htotal', hamount, _⟩ := addCoins_spec htotal hvalid hadd
    obtain ⟨sum, hsum⟩ : ∃ sum,
        validateBalances (balance.address :: seenBalances) total' balances = .ok sum := by
      apply ih htotal' hnodup _ hall
      · intro denom
        rw [hamount, Int.add_assoc, ← hsplit]
        exact hfits denom
      · intro x hx hmem
        cases List.mem_cons.mp hmem with
        | inl hname => exact hnew (List.mem_map.mpr ⟨x, hx, hname⟩)
        | inr hmem => exact hfresh x hx hmem
    refine ⟨sum, ?_⟩
    rw [validateBalances]
    simp only [bind_ok, failIf_ok, orPanic_ok]
    exact ⟨(), hseen, (), hbalance, total', hadd, hsum⟩

theorem BankGenesis.validate_ok {bank : BankGenesis Unit} :
    bank.validate = .ok () ↔ (bank.balances.map Balance.address).Nodup ∧
      (∀ balance ∈ bank.balances, balance.validate = .ok ()) ∧
      (∀ denom, fitsInt (amountIn bank.balances denom) = true) ∧
      (bank.supply = [] ∨ isValid bank.supply = true ∧
        ∀ denom, Amounts.amountOf bank.supply denom = amountIn bank.balances denom) := by
  have hzero : ∀ denom, Amounts.amountOf ([] : List Coin) denom + amountIn bank.balances denom =
      amountIn bank.balances denom := fun _ => Int.zero_add _
  unfold BankGenesis.validate
  simp only [bind_ok]
  constructor
  · intro h
    obtain ⟨sum, hsum, hsupply⟩ := h
    obtain ⟨hnodup, _, hall, hvalid, hamounts⟩ := validateBalances_spec valid_nil fitsInt_nil hsum
    refine ⟨hnodup, hall, ?_, ?_⟩
    · intro denom
      rw [← hzero, ← (hamounts denom).2]
      exact (hamounts denom).1
    · by_cases hnil : bank.supply = []
      · exact .inl hnil
      · rw [if_neg hnil] at hsupply
        simp only [bind_ok, failIf_ok, Bool.not_eq_false] at hsupply
        obtain ⟨_, hsupplyValid, hequal⟩ := hsupply
        refine .inr ⟨hsupplyValid, ?_⟩
        intro denom
        rw [(equal_iff (isValid_iff.mp hsupplyValid) hvalid).mp hequal, (hamounts denom).2, hzero]
  · intro h
    obtain ⟨hnodup, hall, hfits, hsupply⟩ := h
    obtain ⟨sum, hsum⟩ : ∃ sum, validateBalances [] [] bank.balances = .ok sum := by
      apply exists_validateBalances valid_nil hnodup (fun _ _ => List.not_mem_nil) hall
      intro denom
      rw [hzero]
      exact hfits denom
    refine ⟨sum, hsum, ?_⟩
    by_cases hnil : bank.supply = []
    · rw [if_pos hnil]
    · rw [if_neg hnil]
      obtain ⟨hsupplyValid, hamount⟩ := hsupply.resolve_left hnil
      obtain ⟨_, _, _, hvalid, hamounts⟩ := validateBalances_spec valid_nil fitsInt_nil hsum
      simp only [bind_ok, failIf_ok, Bool.not_eq_false]
      refine ⟨(), hsupplyValid, (equal_iff (isValid_iff.mp hsupplyValid) hvalid).mpr ?_⟩
      apply ext (isValid_iff.mp hsupplyValid) hvalid
      intro denom
      rw [hamount, (hamounts denom).2, hzero]

/-! ## The parameters are met -/

theorem withNumber_withNumber (acc : GenesisAccount Unit) (number number' : Nat) :
    (acc.withNumber number).withNumber number' = acc.withNumber number' := by
  cases acc <;> rfl

theorem newBaseVestingAccount_spec {baseAccount : BaseAccount} {coins : List Coin} {endTime : Int}
    {acc : BaseVestingAccount} (h : newBaseVestingAccount baseAccount coins endTime = .ok acc) :
    acc.baseAccount = baseAccount ∧ acc.originalVesting = coins ∧ isValid coins = true := by
  simp only [newBaseVestingAccount, BaseVestingAccount.validate, bind_ok, failIf_ok, pure_ok, not_or,
    Bool.not_eq_false] at h
  obtain ⟨_, ⟨_, _, _, ⟨hvalid, _⟩, _⟩, rfl⟩ := h
  exact ⟨rfl, rfl, hvalid⟩

theorem isAnyGT_false {a b : List Coin} (ha : isValid a = true) (hb : isValid b = true)
    (h : isAnyGT a b = some false) :
    ∀ coin ∈ a, Amounts.amountOf b coin.1 ≠ 0 → coin.2 ≤ Amounts.amountOf b coin.1 := by
  have hdenoms : ∀ coin ∈ a, validateDenom coin.1 = true := fun coin hcoin =>
    ((isValid_iff.mp ha).2 coin hcoin).1
  unfold isAnyGT at h
  by_cases hnil : b = []
  · rw [hnil]
    exact fun coin _ hne => absurd rfl hne
  · rw [if_neg hnil] at h
    exact (anyGT_false_iff hdenoms (isValid_iff.mp hb).1).mp h

theorem smallSdk_lawful : smallSdk.Lawful where
  codec := arkCodec_lawful
  keyring_string _ _ h := by cases h
  sort_perm := perm_sort
  isZero_iff coins := by simp [smallSdk, isZero]
  nil_valid := isValid_iff.mpr valid_nil
  valid_sorted coins h := (isValid_iff.mp h).1
  valid_pos coins h coin hcoin := ((isValid_iff.mp h).2 coin hcoin).2
  isAnyGT_false a b ha hb h := isAnyGT_false ha hb (orPanic_ok.mp h)
  add_ok a b sum ha hb h := by
    obtain ⟨hvalid, hamount, _⟩ :=
      addCoins_spec (isValid_iff.mp ha) (isValid_iff.mp hb) (orPanic_ok.mp h)
    exact ⟨isValid_iff.mpr hvalid, hamount⟩
  add_iff a b ha hb := by
    constructor
    · intro h denom
      obtain ⟨sum, h⟩ := h
      obtain ⟨_, hamount, hfits⟩ :=
        addCoins_spec (isValid_iff.mp ha) (isValid_iff.mp hb) (orPanic_ok.mp h)
      rw [← hamount]
      exact hfits denom
    · intro hfits
      obtain ⟨sum, h⟩ := exists_addCoins (isValid_iff.mp ha) (isValid_iff.mp hb) hfits
      exact ⟨sum, orPanic_ok.mpr h⟩
  newBaseAccount_address _ := rfl
  newBaseVestingAccount_ok _ _ _ _ h := newBaseVestingAccount_spec h
  getAddress_eq acc addr h := by
    show parsed acc.address = addr
    have hparse : arkCodec.accAddressFromBech32 acc.address = .ok addr := h
    rw [parsed, hparse]
  contains_iff accs addr := by simp [smallSdk]
  getAddress_withNumber acc number := by
    show parsed (acc.withNumber number).address = parsed acc.address
    rw [address_withNumber]
  validateAccount_withNumber acc _ := by cases acc <;> rfl
  accounts_perm accs := by
    have hmap : (numberAccounts accs).map (·.withNumber 0) = accs.map (·.withNumber 0) := by
      apply List.ext_getElem
      · simp [numberAccounts]
      · simp [numberAccounts, withNumber_withNumber]
    show ((numberAccounts accs).map (·.withNumber 0)).Perm _
    rw [hmap]
  balances_perm balances := List.perm_insertionSort _ balances
  validateAuth_iff auth := by
    show validateGenAccounts [] auth.accounts = .ok () ↔ _
    rw [validateGenAccounts_ok]
    simp [smallSdk]
  validateBank_iff bank := by
    show bank.validate = .ok () ↔ _
    rw [BankGenesis.validate_ok]
    simp only [Balance.validate_ok]
    exact (and_iff_right rfl).symm

end Ark.GenAccounts
