import Mathlib.Algebra.Ring.Int.Defs
import Mathlib.Algebra.Ring.Nat
import Ark.Gov
import Ark.Lib.Amounts
import Ark.Lib.Effect
import Ark.Sdk

/- The precompile that claims staking rewards and converts them
   (`app/precompiles/distrclaim`, `app/evmutil`), step by step.

   The keepers, the erc20 message server and the EVM are not this repository's code.
   A call of one of them returns and leaves a chain behind: that of a keeper with a
   result or an error, that of the EVM also with the gas that is left over. They act
   on the chain only; `contract.Gas` is a word of the caller's frame and changes where
   the precompile charges it.

   Next to chain and gas the state records what was asked of the keepers and what
   they answered (`calls`), each static call with the gas it was given (`probes`),
   and the logs. What the precompile writes to the logger is left out.

   `sdk.Coins` is a parameter too (`CoinSets`), with what the code relies on as
   `CoinSets.Lawful`; `sdkCoins` are lists in the order of their denoms.

   Correspondence (Go ↔ Lean):
     `if err != nil { return nil, err }`             ↔ `orFail`, `ask`
     `nil` for `*vm.EVM`, for `res` of an EVM call   ↔ `none`
     `contract.Caller()`, `contract.Gas`             ↔ `caller`, `World.gas`
     `p.addrCdc.BytesToString`                       ↔ `Precompile.bytesToString`
     `addr.Hex()`, `common.IsHexAddress`             ↔ `Precompile.codec`
     `cmn.ErrInvalidDelegator` and the like          ↔ `Formats` -/
namespace Ark.DistrClaim
open Ark.Lib Ark.Lib.Effect Ark.Sdk
open Ark.Gov (Fault)

abbrev Bytes := List UInt8

/-- `common.Address`. -/
structure EthAddress where
  bytes : Address
  length_eq : bytes.length = 20
  deriving DecidableEq

/-- `common.BytesToAddress`. -/
def EthAddress.ofBytes (bytes : Bytes) : EthAddress :=
  ⟨bytesToAddress bytes, bytesToAddress_length bytes⟩

def EthAddress.zero : EthAddress := .ofBytes []

/-- `common.LeftPadBytes(addr.Bytes(), 32)`. -/
def EthAddress.leftPad32 (addr : EthAddress) : Bytes := List.replicate 12 0 ++ addr.bytes

/-- The 32 bytes of a word, most significant first. -/
def bytes32 (n : Nat) : Bytes :=
  (List.range 32).reverse.map fun i => UInt8.ofNat (n / 256 ^ i)

/-! ## Coins -/

/-- What the code uses of `sdk.Coins`. -/
structure CoinSets (Coins : Type) where
  /-- `sdk.Coins{}`. -/
  empty : Coins
  /-- `none` where `Coins.Add` panics. -/
  add : Coins → Coins → Option Coins
  validateDenom : String → Bool
  amountOfNoDenomValidation : Coins → String → Int
  IsValid : Coins → Prop

/-- What the code relies on: valid coins are added denom by denom. -/
structure CoinSets.Lawful {Coins : Type} (c : CoinSets Coins) : Prop where
  empty_valid : c.IsValid c.empty
  amountOf_empty : ∀ denom, c.amountOfNoDenomValidation c.empty denom = 0
  add_valid : ∀ a b sum, c.IsValid a → c.IsValid b → c.add a b = some sum → c.IsValid sum
  amountOf_add : ∀ a b sum denom, c.IsValid a → c.IsValid b → c.add a b = some sum →
    c.amountOfNoDenomValidation sum denom =
      c.amountOfNoDenomValidation a denom + c.amountOfNoDenomValidation b denom
  amountOf_nonneg : ∀ a denom, c.IsValid a → 0 ≤ c.amountOfNoDenomValidation a denom

/-- `Coins.AmountOf`: `none` where it panics. -/
def CoinSets.amountOf {Coins : Type} (c : CoinSets Coins) (coins : Coins) (denom : String) :
    Option Int :=
  if c.validateDenom denom then some (c.amountOfNoDenomValidation coins denom) else none

/-! ### Lists in the order of the denoms -/

/-- Amounts have at most 256 bits. -/
def fitsInt (n : Int) : Bool := n.natAbs < 2 ^ 256

/-- `Coins.Add`: coins out of order and amounts that overflow make it panic. -/
def addCoins (a b : List (String × Int)) : Option (List (String × Int)) :=
  let sum := Amounts.add (Amounts.add [] a) b
  if a.Pairwise (·.1 ≤ ·.1) ∧ b.Pairwise (·.1 ≤ ·.1) ∧ ∀ coin ∈ sum, fitsInt coin.2 then
    some (sum.filter (·.2 ≠ 0))
  else none

def sdkCoins : CoinSets (List (String × Int)) where
  empty := []
  add := addCoins
  validateDenom := validateDenom
  amountOfNoDenomValidation := Amounts.amountOf
  IsValid coins := Amounts.Sorted coins ∧ ∀ coin ∈ coins, validateDenom coin.1 ∧ 0 < coin.2

theorem addCoins_valid {a b sum : List (String × Int)} (ha : sdkCoins.IsValid a)
    (hb : sdkCoins.IsValid b) (h : addCoins a b = some sum) :
    sdkCoins.IsValid sum ∧ sum = Amounts.add (Amounts.add [] a) b := by
  have hsorted : Amounts.Sorted (Amounts.add (Amounts.add [] a) b) :=
    Amounts.sorted_add (Amounts.sorted_add List.Pairwise.nil)
  have hall : ∀ coin ∈ Amounts.add (Amounts.add [] a) b, validateDenom coin.1 ∧ 0 < coin.2 := by
    have hpos : ∀ (k : String) (m n : Int), validateDenom k ∧ 0 < m → validateDenom k ∧ 0 < n →
        validateDenom k ∧ 0 < m + n := by
      intro k m n hm hn
      exact ⟨hm.1, by omega⟩
    apply Amounts.forall_add (p := fun k n => validateDenom k ∧ 0 < n) hpos _ hb.2
    exact Amounts.forall_add (p := fun k n => validateDenom k ∧ 0 < n) hpos nofun ha.2
  have hfilter : (Amounts.add (Amounts.add [] a) b).filter (·.2 ≠ 0) =
      Amounts.add (Amounts.add [] a) b := by
    apply List.filter_eq_self.mpr
    intro coin hcoin
    have := (hall coin hcoin).2
    exact decide_eq_true (by omega)
  unfold addCoins at h
  simp only [hfilter] at h
  split at h
  · rw [← Option.some.inj h]
    exact ⟨⟨hsorted, hall⟩, rfl⟩
  · cases h

theorem sdkCoins_lawful : sdkCoins.Lawful where
  empty_valid := ⟨List.Pairwise.nil, nofun⟩
  amountOf_empty _ := rfl
  add_valid a b sum ha hb h := (addCoins_valid ha hb h).1
  amountOf_add a b sum denom ha hb h := by
    show Amounts.amountOf sum denom = Amounts.amountOf a denom + Amounts.amountOf b denom
    calc Amounts.amountOf sum denom
        = Amounts.amountOf (Amounts.add (Amounts.add [] a) b) denom := by
          rw [(addCoins_valid ha hb h).2]
      _ = Amounts.amountOf (Amounts.add [] a) denom + Amounts.amountOf b denom :=
          Amounts.amountOf_add (Amounts.sorted_add List.Pairwise.nil) hb.1
      _ = 0 + Amounts.amountOf a denom + Amounts.amountOf b denom := by
          rw [Amounts.amountOf_add List.Pairwise.nil ha.1]
          rfl
      _ = Amounts.amountOf a denom + Amounts.amountOf b denom := by rw [Int.zero_add]
  amountOf_nonneg a denom ha := by
    have hpos := ha.2
    clear ha
    show 0 ≤ Amounts.amountOf a denom
    induction a with
    | nil => exact Int.le_refl 0
    | cons coin a ih =>
      unfold Amounts.amountOf
      split
      · exact Int.le_of_lt (hpos coin List.mem_cons_self).2
      · exact ih fun x hx => hpos x (List.mem_cons_of_mem coin hx)

/-! ## State -/

structure MsgConvertCoin where
  denom : String
  amount : Int
  receiver : String
  sender : String
  deriving DecidableEq

/-- What is asked of the keepers, with the answer. -/
inductive Call (Coins : Type) where
  | maxValidators (res : Except String UInt32)
  | getDelegatorWithdrawAddr (delAddr : Address) (res : Except String Address)
  /-- The operators of the validators. -/
  | getDelegatorValidators (delAddr : Address) (maxRetrieve : UInt32)
      (res : Except String (List String))
  | withdrawDelegationRewards (delAddr valAddr : Address) (res : Except String Coins)
  | convertCoin (msg : MsgConvertCoin) (res : Except String Unit)

/-- The call was answered with an error. -/
def Call.failed {Coins : Type} : Call Coins → Bool
  | .maxValidators res => !res.toBool
  | .getDelegatorWithdrawAddr _ res => !res.toBool
  | .getDelegatorValidators _ _ res => !res.toBool
  | .withdrawDelegationRewards _ _ res => !res.toBool
  | .convertCoin _ res => !res.toBool

/-- What a static call returns. -/
structure StaticResult where
  ret : Bytes
  left : UInt64
  err : Option String

/-- A static call, with the gas it was given. -/
structure Probe where
  supplied : UInt64
  result : StaticResult

structure Log where
  address : EthAddress
  topics : List Bytes
  data : Bytes
  blockNumber : UInt64

structure World (σ Coins : Type) where
  chain : σ
  gas : UInt64
  calls : List (Call Coins)
  probes : List Probe
  logs : List Log

/-- The EVM that runs the precompile. -/
structure Evm (σ : Type) where
  staticCall : EthAddress → EthAddress → Bytes → UInt64 → σ → StaticResult × σ
  hasStateDB : Bool

/-- `CallEVMWithData(from, to, data, commit, gasCap)`: the bytes that the call returned and the
error. -/
structure EvmKeeper (σ : Type) where
  callEVMWithData : EthAddress → EthAddress → Bytes → Bool → Nat → σ →
    (Option Bytes × Option String) × σ

abbrev KeeperM (σ α : Type) := EStateM String σ α

abbrev ClaimM (σ Coins α : Type) := EStateM Fault (World σ Coins) α

/-- The texts of the errors of `precompiles/common`, and what the verb `%q` prints as it is. -/
structure Formats where
  /-- `strconv.IsPrint`. -/
  isPrint : Char → Bool
  errInvalidDelegator : String → String
  errInvalidType : String → String → String → String
  errRequesterIsNotMsgSender : String → String → String

structure ClaimRewardsAndConvertCoinCall where
  delegator : EthAddress
  maxRetrieve : UInt32
  denom : String

structure Precompile (σ Coins : Type) where
  contractAddress : EthAddress
  codec : AddressCodec
  bytesToString : Address → Except String String
  valAddressFromBech32 : String → Except String Address
  coins : CoinSets Coins
  formats : Formats
  maxValidators : KeeperM σ UInt32
  getDelegatorWithdrawAddr : Address → KeeperM σ Address
  getDelegatorValidators : Address → UInt32 → KeeperM σ (List String)
  withdrawDelegationRewards : Address → Address → KeeperM σ Coins
  convertCoin : MsgConvertCoin → KeeperM σ Unit
  evmKeeper : EvmKeeper σ
  /-- `ClaimRewardsAndConvertCoinCall.Decode`, `ClaimRewardsAndConvertCoinReturn.Encode`. -/
  decode : Bytes → Except String ClaimRewardsAndConvertCoinCall
  encode : Int → Except String Bytes
  /-- `arguments.Pack(denom, amount)`. -/
  pack : String → Int → Except String Bytes
  claimRewardsAndConvertCoinEventID : Bytes

section
variable {σ Coins α : Type}

def orFail : Except String α → ClaimM σ Coins α
  | .ok a => pure a
  | .error err => throw (.err err)

def orPanic (text : String) : Option α → ClaimM σ Coins α
  | some a => pure a
  | none => throw (.panic text)

/-- Ask a keeper, and stop with its error. -/
def ask (record : Except String α → Call Coins) (op : KeeperM σ α) : ClaimM σ Coins α := fun w =>
  match op w.chain with
  | .ok a chain => .ok a { w with chain := chain, calls := w.calls ++ [record (.ok a)] }
  | .error err chain =>
    .error (.err err) { w with chain := chain, calls := w.calls ++ [record (.error err)] }

@[simp] theorem orFail_ok {x : Except String α} {a : α} {s t : World σ Coins} :
    orFail x s = .ok a t ↔ x = .ok a ∧ s = t := by
  cases x with
  | ok b => simp [orFail]
  | error e => simp [orFail]

@[simp] theorem orPanic_ok {text : String} {x : Option α} {a : α} {s t : World σ Coins} :
    orPanic text x s = .ok a t ↔ x = some a ∧ s = t := by
  cases x with
  | some b => simp [orPanic]
  | none => simp [orPanic]

theorem ask_ok {record : Except String α → Call Coins} {op : KeeperM σ α} {a : α}
    {s t : World σ Coins} :
    ask record op s = .ok a t ↔ ∃ chain, op s.chain = .ok a chain ∧
      t = { s with chain := chain, calls := s.calls ++ [record (.ok a)] } := by
  unfold ask
  cases op s.chain with
  | ok b chain =>
    constructor
    · intro h
      cases h
      exact ⟨chain, rfl, rfl⟩
    · intro ⟨_, hop, ht⟩
      cases hop
      rw [ht]
  | error e chain => simp

end

/-! ## The wrapper -/

def minWithdrawAmountWad : Int := 1000000000000
def gasCapERC20WrapperUnderlying : UInt64 := 200000
def gasCapERC20WrapperWithdrawTo : Nat := 500000

/-- The selector of `underlying()`. -/
def selectorUnderlyingGetter : Bytes := [0x6f, 0x30, 0x7d, 0xc3]

/-- The selector of `withdrawTo(address,uint256)`. -/
def selectorWithdrawToAddressUint256 : Bytes := [0x20, 0x5c, 0x28, 0x78]

structure ERC20WrapperMethodError where
  method : String
  err : String
  deriving DecidableEq

def ERC20WrapperMethodError.error (e : ERC20WrapperMethodError) : String :=
  if e.method = "" then s!"erc20 wrapper call failed: {e.err}"
  else s!"erc20 wrapper {e.method} failed: {e.err}"

def wrapERC20WrapperUnderlyingError (err : String) : ERC20WrapperMethodError :=
  ⟨"underlying()", err⟩

def wrapERC20WrapperWithdrawToError (err : String) : ERC20WrapperMethodError :=
  ⟨"withdrawTo(address,uint256)", err⟩

def erc20WrapperUnderlyingCallData : Bytes := selectorUnderlyingGetter

def erc20WrapperWithdrawToCallData (receiver : EthAddress) (amountWad : Int) : Except String Bytes :=
  if amountWad ≤ 0 then .error "invalid withdraw amount"
  else if amountWad ≥ 2 ^ 256 then .error "withdraw amount overflows uint256"
  else .ok (selectorWithdrawToAddressUint256 ++ receiver.leftPad32 ++ bytes32 amountWad.toNat)

def decodeABIAddress32 (ret : Bytes) : Except String EthAddress :=
  if ret.length < 32 then .error "returned short data"
  else
    let addr := EthAddress.ofBytes ((ret.take 32).drop 12)
    if addr = .zero then .error "returned zero address" else .ok addr

section
variable {σ Coins : Type}

def erc20WrapperWithdrawToViaEVMCaller (keeper : EvmKeeper σ)
    (sender wrapper receiver : EthAddress) (amountWad : Int) (chain : σ) : (Option Bytes × Option String) × σ :=
  match erc20WrapperWithdrawToCallData receiver amountWad with
  | .error err => ((none, some err), chain)
  | .ok data =>
    let ((res, err), chain) :=
      keeper.callEVMWithData sender wrapper data true gasCapERC20WrapperWithdrawTo chain
    match res, err with
    | none, some err => ((none, some (wrapERC20WrapperWithdrawToError err).error), chain)
    | none, none =>
      ((none, some (wrapERC20WrapperWithdrawToError "nil response from EVM call").error), chain)
    | some ret, some err =>
      ((some ret, some (wrapERC20WrapperWithdrawToError err).error), chain)
    | some ret, none => ((some ret, none), chain)

/-- `contract.UseGas`: `none` where it returns false. -/
def World.useGas (w : World σ Coins) (gas : UInt64) : Option (World σ Coins) :=
  if w.gas < gas then none else some { w with gas := w.gas - gas }

/-- `vm.ErrOutOfGas`, or an error of the wrapper. -/
inductive ProbeError where
  | outOfGas
  | wrapper (e : ERC20WrapperMethodError)
  deriving DecidableEq

/-- The gas that the probe is given. -/
def World.probeGas (w : World σ Coins) : UInt64 :=
  if w.gas > gasCapERC20WrapperUnderlying then gasCapERC20WrapperUnderlying else w.gas

/-- What comes after the static call. -/
def settleProbe (gas : UInt64) (res : StaticResult) (w : World σ Coins) :
    Except ProbeError EthAddress × World σ Coins :=
  match res.err with
  | some err => (.error (.wrapper (wrapERC20WrapperUnderlyingError err)), w)
  | none =>
    let used := gas - res.left
    match (if used > 0 then w.useGas used else some w) with
    | none => (.error .outOfGas, w)
    | some w =>
      match decodeABIAddress32 res.ret with
      | .error err => (.error (.wrapper (wrapERC20WrapperUnderlyingError err)), w)
      | .ok underlying => (.ok underlying, w)

def evmGetUnderlyingERC20Wrapper (evm : Evm σ) (caller wrapper : EthAddress)
    (w : World σ Coins) : Except ProbeError EthAddress × World σ Coins :=
  let gas := w.probeGas
  let data := erc20WrapperUnderlyingCallData
  let out := evm.staticCall caller wrapper data gas w.chain
  settleProbe gas out.1 { w with chain := out.2, probes := w.probes ++ [⟨gas, out.1⟩] }

variable (p : Precompile σ Coins)

def Precompile.parseERC20DenomAddress (denom : String) : Except String EthAddress :=
  let text := quote p.formats.isPrint denom
  let addrStr := if denom.startsWith "erc20:" then (denom.drop 6).toString else denom
  if addrStr = "" then .error s!"invalid erc20 denom: {text}"
  else
    let addrStr := if addrStr.startsWith "0x" then addrStr else "0x" ++ addrStr
    if p.codec.isHexAddress addrStr = false then .error s!"invalid erc20 denom address: {text}"
    else
      let addr := EthAddress.ofBytes (p.codec.hexToAddress addrStr)
      if addr = .zero then .error s!"invalid erc20 denom address: {text}" else .ok addr

def Precompile.tryUnwrapWrapper (evm : Option (Evm σ)) (caller : EthAddress) (denom : String)
    (amountWad : Int) (w : World σ Coins) : World σ Coins :=
  match evm with
  | none => w
  | some evm =>
    if denom.startsWith "erc20:" = false then w
    else if amountWad < minWithdrawAmountWad then w
    else
      match p.parseERC20DenomAddress denom with
      | .error _ => w
      | .ok wrapperAddr =>
        -- only wrappers that answer `underlying()` are unwrapped
        match evmGetUnderlyingERC20Wrapper evm caller wrapperAddr w with
        | (.error _, w) => w
        | (.ok _, w) =>
          let (_, chain) := erc20WrapperWithdrawToViaEVMCaller p.evmKeeper caller wrapperAddr
            caller amountWad w.chain
          { w with chain := chain }

/-- An unwrapping changes nothing, or it probes a wrapper, and whatever it does then is done to the
chain. -/
theorem Precompile.tryUnwrapWrapper_cases (evm : Option (Evm σ)) (caller : EthAddress)
    (denom : String) (amountWad : Int) (w : World σ Coins) :
    p.tryUnwrapWrapper evm caller denom amountWad w = w ∨
      ∃ vm wrapper chain, evm = some vm ∧ p.tryUnwrapWrapper evm caller denom amountWad w =
        { (evmGetUnderlyingERC20Wrapper vm caller wrapper w).2 with chain := chain } := by
  cases evm with
  | none => exact .inl rfl
  | some vm =>
    unfold Precompile.tryUnwrapWrapper
    by_cases herc20 : denom.startsWith "erc20:" = false
    · simp [herc20]
    · by_cases hmin : amountWad < minWithdrawAmountWad
      · simp [herc20, hmin]
      · cases p.parseERC20DenomAddress denom with
        | error err => simp [herc20, hmin]
        | ok wrapper =>
          right
          simp only [herc20, hmin, if_false]
          cases hout : evmGetUnderlyingERC20Wrapper vm caller wrapper w with
          | mk res w' =>
            cases res with
            | error err =>
              refine ⟨vm, wrapper, w'.chain, rfl, ?_⟩
              rw [hout]
              rfl
            | ok underlying =>
              refine ⟨vm, wrapper, (erc20WrapperWithdrawToViaEVMCaller p.evmKeeper caller wrapper
                caller amountWad w'.chain).2, rfl, ?_⟩
              rw [hout]
              rfl

/-! ## Claim and convert -/

/-- The body of the loop over the validators. -/
def Precompile.withdrawFrom (delegatorAddr : EthAddress) (totalCoins : Coins)
    (operatorAddress : String) : ClaimM σ Coins Coins := do
  let valAddr ← orFail (p.valAddressFromBech32 operatorAddress)
  let coins ← ask (.withdrawDelegationRewards delegatorAddr.bytes valAddr)
    (p.withdrawDelegationRewards delegatorAddr.bytes valAddr)
  orPanic "Coins.Add" (p.coins.add totalCoins coins)

/-- The checks before anything is withdrawn; the text of the delegator's address. -/
def Precompile.checkDelegator (delegatorAddr : EthAddress) (maxRetrieve : UInt32)
    (caller : EthAddress) : ClaimM σ Coins String := do
  let maxVals ← ask .maxValidators p.maxValidators
  throwIf (maxRetrieve > maxVals) (.err <| s!"maxRetrieve ({maxRetrieve}) parameter exceeds " ++
    s!"the maximum number of validators ({maxVals})")
  throwIf (caller ≠ delegatorAddr) (.err <| p.formats.errRequesterIsNotMsgSender
    (p.codec.hexText caller.bytes) (p.codec.hexText delegatorAddr.bytes))
  let delegatorBech32 ← orFail (p.bytesToString delegatorAddr.bytes)
  let withdrawAddrSdk ← ask (.getDelegatorWithdrawAddr delegatorAddr.bytes)
    (p.getDelegatorWithdrawAddr delegatorAddr.bytes)
  let withdrawAddrBech32 ← orFail (p.bytesToString withdrawAddrSdk)
  throwIf (withdrawAddrBech32 ≠ delegatorBech32) (.err <|
    s!"withdraw address {withdrawAddrBech32} must equal delegator {delegatorBech32}")
  return delegatorBech32

/-- What comes after the withdrawals: a positive amount is converted, then unwrapped. -/
def Precompile.convertTotal (delegatorAddr : EthAddress) (delegatorBech32 denom : String)
    (evm : Option (Evm σ)) (caller : EthAddress) (totalCoins : Coins) : ClaimM σ Coins Int := do
  let amount ← orPanic "invalid denom" (p.coins.amountOf totalCoins denom)
  if amount > 0 then do
    let msg : MsgConvertCoin :=
      { denom, amount, receiver := p.codec.hexText delegatorAddr.bytes, sender := delegatorBech32 }
    ask (.convertCoin msg) (p.convertCoin msg)
    modify (p.tryUnwrapWrapper evm caller denom amount)
    return amount
  else
    return 0

def Precompile.claimRewardsAndConvertCoin (delegatorAddr : EthAddress) (maxRetrieve : UInt32)
    (denom : String) (evm : Option (Evm σ)) (caller : EthAddress) : ClaimM σ Coins Int := do
  let delegatorBech32 ← p.checkDelegator delegatorAddr maxRetrieve caller
  let validators ← ask (.getDelegatorValidators delegatorAddr.bytes maxRetrieve)
    (p.getDelegatorValidators delegatorAddr.bytes maxRetrieve)
  let totalCoins ← validators.foldlM (p.withdrawFrom delegatorAddr) p.coins.empty
  p.convertTotal delegatorAddr delegatorBech32 denom evm caller totalCoins

def topicAddress (addr : EthAddress) : Bytes := addr.leftPad32

def Precompile.emitClaimRewardsAndConvertCoinEvent (blockHeight : Int) (evm : Option (Evm σ))
    (delegator : EthAddress) (denom : String) (amount : Int) : ClaimM σ Coins Unit :=
  match evm with
  | none => return ()
  | some evm => do
    if evm.hasStateDB = false then return ()
    let packed ← orFail (p.pack denom amount)
    let blockHeight := if blockHeight < 0 then 0 else blockHeight
    let log : Log :=
      { address := p.contractAddress
        topics := [p.claimRewardsAndConvertCoinEventID, topicAddress delegator]
        data := packed
        blockNumber := .ofInt blockHeight }
    modify fun w => { w with logs := w.logs ++ [log] }

def Precompile.runClaimRewardsAndConvertCoin (blockHeight : Int) (input : Bytes)
    (evm : Option (Evm σ)) (caller : EthAddress) : ClaimM σ Coins Bytes := do
  let call ← orFail (p.decode input)
  throwIf (call.delegator = .zero)
    (.err (p.formats.errInvalidDelegator (p.codec.hexText call.delegator.bytes)))
  throwIf (call.denom = "") (.err (p.formats.errInvalidType "denom" "string" call.denom))
  let amount ← p.claimRewardsAndConvertCoin call.delegator call.maxRetrieve call.denom evm caller
  p.emitClaimRewardsAndConvertCoinEvent blockHeight evm call.delegator call.denom amount
  orFail (p.encode amount)

end
end Ark.DistrClaim
