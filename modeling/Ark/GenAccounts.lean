import Ark.DistrClaim
import Ark.Lib.Checks

/- `arkd add-genesis-account` (`cmd/arkd/cmd/genaccounts.go`): one account, vesting or not,
   and its balance are added to a genesis file.

   The file is taken at its decoded auth and bank states; the codec between the two and the
   modules the command passes on are left out. What is written is what `ExportGenesisFile`
   gets. Account types the command does not build are an address, a number and data that is
   not looked into (`GenesisAccount.other`).

   All that the command asks of the SDK is a parameter (`Sdk`): coin lists, the accounts'
   constructors and checks, the keyring, the two functions that order the lists, and the
   two validations of a genesis, which the command itself does not call. `Sdk.Lawful` is
   what the code relies on.

   Correspondence (Go ↔ Lean):
     `sdk.AccAddressFromBech32(args[0])`, `kr.Key`   ↔ `accountAddress`
     `genAccount`                                    ↔ `newGenAccount`
     `coins.Sort()`, `IsZero`, `IsAnyGT`, `Add`      ↔ `Sdk.sort`, `isZero`, `isAnyGT`, `add`
     `accs.Contains(addr)`                           ↔ `Sdk.contains`
     `authtypes.ValidateGenesis`                     ↔ `Sdk.validateAuth`
     `banktypes.GenesisState.Validate`               ↔ `Sdk.validateBank`
     `RunE`                                          ↔ `addGenesisAccount` -/
namespace Ark.GenAccounts
open Ark.Lib Ark.Lib.Checks Ark.Sdk
open Ark.Gov (Fault)
open Ark.DistrClaim (fitsInt)

/-! ## Accounts -/

/-- What the code reads of a public key. -/
structure PubKey where
  address : Address
  deriving DecidableEq

structure BaseAccount where
  address : String
  pubKey : Option PubKey
  accountNumber : Nat
  sequence : Nat
  deriving DecidableEq

structure BaseVestingAccount where
  baseAccount : BaseAccount
  originalVesting : List Coin
  delegatedFree : List Coin
  delegatedVesting : List Coin
  endTime : Int
  deriving DecidableEq

inductive GenesisAccount (Other : Type)
  | base (acc : BaseAccount)
  | continuousVesting (acc : BaseVestingAccount) (startTime : Int)
  | delayedVesting (acc : BaseVestingAccount)
  | other (address : String) (accountNumber : Nat) (data : Other)
  deriving DecidableEq

namespace GenesisAccount
variable {Other : Type}

def address : GenesisAccount Other → String
  | base acc => acc.address
  | continuousVesting acc _ => acc.baseAccount.address
  | delayedVesting acc => acc.baseAccount.address
  | other address _ _ => address

/-- `SetAccountNumber`. -/
def withNumber (number : Nat) : GenesisAccount Other → GenesisAccount Other
  | base acc => base { acc with accountNumber := number }
  | continuousVesting acc startTime =>
    continuousVesting { acc with baseAccount := { acc.baseAccount with accountNumber := number } }
      startTime
  | delayedVesting acc =>
    delayedVesting { acc with baseAccount := { acc.baseAccount with accountNumber := number } }
  | other address _ data => other address number data

/-- What the account vests, of the types the command builds. -/
def originalVesting : GenesisAccount Other → List Coin
  | base _ => []
  | continuousVesting acc _ => acc.originalVesting
  | delayedVesting acc => acc.originalVesting
  | other _ _ _ => []

end GenesisAccount

structure Balance where
  address : String
  coins : List Coin
  deriving DecidableEq

structure AuthGenesis (AuthParams Other : Type) where
  params : AuthParams
  accounts : List (GenesisAccount Other)

structure BankGenesis (BankRest : Type) where
  balances : List Balance
  supply : List Coin
  rest : BankRest

structure Genesis (AuthParams Other BankRest : Type) where
  auth : AuthGenesis AuthParams Other
  bank : BankGenesis BankRest

/-- The amount of a denom in all balances. -/
def amountIn (balances : List Balance) (denom : String) : Int :=
  (balances.map fun balance => Amounts.amountOf balance.coins denom).sum

/-! ## The SDK -/

structure Sdk (AuthParams Other BankRest : Type) where
  codec : AddressCodec
  /-- The address of the key of a name. -/
  keyring : String → Except Fault Address
  parseCoinsNormalized : String → Except String (List Coin)
  /-- `Coins.Sort`. -/
  sort : List Coin → List Coin
  /-- `Coins.IsZero`. -/
  isZero : List Coin → Bool
  /-- `Coins.IsValid`. -/
  isValid : List Coin → Bool
  /-- `Coins.IsAnyGT`. -/
  isAnyGT : List Coin → List Coin → Except Fault Bool
  /-- `Coins.Add`. -/
  add : List Coin → List Coin → Except Fault (List Coin)
  /-- `NewBaseAccount`, without a public key, with number and sequence 0. -/
  newBaseAccount : Address → BaseAccount
  newBaseVestingAccount : BaseAccount → List Coin → Int → Except Fault BaseVestingAccount
  getAddress : GenesisAccount Other → Address
  /-- An account's `Validate`. -/
  validateAccount : GenesisAccount Other → Except Fault Unit
  /-- `GenesisAccounts.Contains`. -/
  contains : List (GenesisAccount Other) → Address → Bool
  sanitizeGenesisAccounts : List (GenesisAccount Other) → List (GenesisAccount Other)
  sanitizeGenesisBalances : List Balance → List Balance
  /-- What auth's validation checks of the parameters. -/
  validateParams : AuthParams → Bool
  validateAuth : AuthGenesis AuthParams Other → Except Fault Unit
  /-- What bank's validation checks of parameters, send-enabled entries and metadata. -/
  validateRest : BankRest → Bool
  validateBank : BankGenesis BankRest → Except Fault Unit

/-- What the code relies on. -/
structure Sdk.Lawful {AuthParams Other BankRest : Type} (sdk : Sdk AuthParams Other BankRest) :
    Prop where
  codec : sdk.codec.Lawful
  /-- The address of a key prints as a text that parses to it. -/
  keyring_string : ∀ name addr, sdk.keyring name = .ok addr →
    sdk.codec.accAddressFromBech32 (sdk.codec.string addr) = .ok addr
  sort_perm : ∀ coins, (sdk.sort coins).Perm coins
  isZero_iff : ∀ coins, sdk.isZero coins = true ↔ ∀ coin ∈ coins, coin.2 = 0
  nil_valid : sdk.isValid [] = true
  /-- Valid coins are in the order of their denoms, each once, and positive. -/
  valid_sorted : ∀ coins, sdk.isValid coins = true → Amounts.Sorted coins
  valid_pos : ∀ coins, sdk.isValid coins = true → ∀ coin ∈ coins, 0 < coin.2
  /-- Denoms that the second list does not have are not compared. -/
  isAnyGT_false : ∀ a b, sdk.isValid a = true → sdk.isValid b = true → sdk.isAnyGT a b = .ok false →
    ∀ coin ∈ a, Amounts.amountOf b coin.1 ≠ 0 → coin.2 ≤ Amounts.amountOf b coin.1
  /-- Valid coins are added denom by denom, unless an amount overflows. -/
  add_ok : ∀ a b sum, sdk.isValid a = true → sdk.isValid b = true → sdk.add a b = .ok sum →
    sdk.isValid sum = true ∧ ∀ denom,
      Amounts.amountOf sum denom = Amounts.amountOf a denom + Amounts.amountOf b denom
  add_iff : ∀ a b, sdk.isValid a = true → sdk.isValid b = true →
    ((∃ sum, sdk.add a b = .ok sum) ↔
      ∀ denom, fitsInt (Amounts.amountOf a denom + Amounts.amountOf b denom) = true)
  newBaseAccount_address : ∀ addr, (sdk.newBaseAccount addr).address = sdk.codec.string addr
  /-- A vesting account is the base account and the coins it is given, which it checks. -/
  newBaseVestingAccount_ok : ∀ base coins endTime acc,
    sdk.newBaseVestingAccount base coins endTime = .ok acc →
      acc.baseAccount = base ∧ acc.originalVesting = coins ∧ sdk.isValid coins = true
  getAddress_eq : ∀ acc addr, sdk.codec.accAddressFromBech32 acc.address = .ok addr →
    sdk.getAddress acc = addr
  contains_iff : ∀ accs addr, sdk.contains accs addr = true ↔ addr ∈ accs.map sdk.getAddress
  /-- The number of an account is not part of its address, and no check reads it. -/
  getAddress_withNumber : ∀ acc number, sdk.getAddress (acc.withNumber number) = sdk.getAddress acc
  validateAccount_withNumber : ∀ acc number,
    sdk.validateAccount (acc.withNumber number) = sdk.validateAccount acc
  /-- It gives new numbers and another order. -/
  accounts_perm : ∀ accs, ((sdk.sanitizeGenesisAccounts accs).map (·.withNumber 0)).Perm
    (accs.map (·.withNumber 0))
  /-- It only sorts. -/
  balances_perm : ∀ balances, (sdk.sanitizeGenesisBalances balances).Perm balances
  /-- Accounts are valid one by one, and no two have one address. -/
  validateAuth_iff : ∀ auth, sdk.validateAuth auth = .ok () ↔
    sdk.validateParams auth.params = true ∧
      (auth.accounts.map fun acc => sdk.codec.string (sdk.getAddress acc)).Nodup ∧
      ∀ acc ∈ auth.accounts, sdk.validateAccount acc = .ok ()
  /-- No address has two balances, balances are valid one by one and their sum does not overflow,
  and a supply that is not empty is valid and that sum. -/
  validateBank_iff : ∀ bank, sdk.validateBank bank = .ok () ↔
    sdk.validateRest bank.rest = true ∧ (bank.balances.map Balance.address).Nodup ∧
      (∀ balance ∈ bank.balances, sdk.isValid balance.coins = true ∧
        ∃ addr, sdk.codec.accAddressFromBech32 balance.address = .ok addr) ∧
      (∀ denom, fitsInt (amountIn bank.balances denom) = true) ∧
      (bank.supply = [] ∨ sdk.isValid bank.supply = true ∧
        ∀ denom, Amounts.amountOf bank.supply denom = amountIn bank.balances denom)

variable {AuthParams Other BankRest : Type} (sdk : Sdk AuthParams Other BankRest)

/-! ## The command -/

structure Flags where
  vestingStart : Int
  vestingEnd : Int
  vestingAmt : String

/-- An address, or the name of a key. -/
def accountAddress (arg : String) : Except Fault Address :=
  match sdk.codec.accAddressFromBech32 arg with
  | .ok addr => .ok addr
  | .error _ => sdk.keyring arg

def parseCoins (failure text : String) : Except Fault (List Coin) :=
  match sdk.parseCoinsNormalized text with
  | .ok coins => .ok coins
  | .error e => .error (.err s!"{failure}: {e}")

/-- `true` where the vesting amount is refused. -/
def exceeds (originalVesting balance : List Coin) : Except Fault Bool :=
  if sdk.isZero balance = true ∧ sdk.isZero originalVesting = false then .ok true
  else sdk.isAnyGT originalVesting balance

def newGenAccount (addr : Address) (balance vestingAmt : List Coin) (flags : Flags) :
    Except Fault (GenesisAccount Other) :=
  let baseAccount := sdk.newBaseAccount addr
  if sdk.isZero vestingAmt = true then .ok (.base baseAccount)
  else do
    let acc ← sdk.newBaseVestingAccount baseAccount (sdk.sort vestingAmt) flags.vestingEnd
    let refused ← exceeds sdk acc.originalVesting balance
    failIf (refused = true) (.err "vesting amount cannot be greater than total amount")
    if flags.vestingStart ≠ 0 ∧ flags.vestingEnd ≠ 0 then
      .ok (.continuousVesting acc flags.vestingStart)
    else if flags.vestingEnd ≠ 0 then .ok (.delayedVesting acc)
    else
      .error (.err "invalid vesting parameters; must supply start and end time or end time")

def wrapError (failure : String) : Except Fault Unit → Except Fault Unit
  | .error (.err e) => .error (.err s!"{failure}: {e}")
  | res => res

/-- The genesis that is written, of the one that was read. -/
def addGenesisAccount (flags : Flags) (arg0 arg1 : String)
    (genFile : Except String (Genesis AuthParams Other BankRest)) :
    Except Fault (Genesis AuthParams Other BankRest) := do
  let addr ← accountAddress sdk arg0
  let coins ← parseCoins sdk "failed to parse coins" arg1
  let vestingAmt ← parseCoins sdk "failed to parse vesting amount" flags.vestingAmt
  let balances : Balance := ⟨sdk.codec.string addr, sdk.sort coins⟩
  let genAccount ← newGenAccount sdk addr balances.coins vestingAmt flags
  wrapError "failed to validate new genesis account" (sdk.validateAccount genAccount)
  match genFile with
  | .error e => .error (.err s!"failed to unmarshal genesis state: {e}")
  | .ok genesis => do
    failIf (sdk.contains genesis.auth.accounts addr = true)
      (.err s!"cannot add account at existing address {sdk.codec.string addr}")
    let accs := sdk.sanitizeGenesisAccounts (genesis.auth.accounts ++ [genAccount])
    -- the address is not looked for among the balances
    let bankBalances := sdk.sanitizeGenesisBalances (genesis.bank.balances ++ [balances])
    let supply ← sdk.add genesis.bank.supply balances.coins
    pure ⟨{ genesis.auth with accounts := accs },
      { genesis.bank with balances := bankBalances, supply := supply }⟩

end Ark.GenAccounts
