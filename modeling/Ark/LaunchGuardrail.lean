import Mathlib.Algebra.Ring.Nat
import Mathlib.Data.Fintype.Basic
import Mathlib.Logic.Function.Basic
import Ark.Lib.CallTree
import Ark.Lib.Checks

/- The LaunchGuardrail vault.

   A frame of the vault runs in a world: the vault's storage, its native balance,
   what every token contract says the vault holds, the block timestamp and the
   logs. Everything else on the chain is outside: while outside code has control
   it can force ether into the vault, move the vault's tokens, and call back.

   `uint256` arithmetic is checked: an addition that does not fit reverts. A call
   to a function that is not payable with value reverts, and so does a call that
   matches no function. A static call (`balanceOf`) gives its callee no way to
   change the world, so only its answer is part of the message; a frame may also
   run out of gas after all it did. A call of the vault to itself always fails:
   with empty data it meets `receive`, with other data no function.

   Correspondence (Solidity ↔ Lean):
     `msg.sender`, `msg.value`, the selector and arguments ↔ `Message`
     `address(this).balance`                                ↔ `World.balance`
     `token.balanceOf(address(this))`                       ↔ `World.held`
     `block.timestamp`                                      ↔ `World.now`
     `_unlocked`                                            ↔ `Storage.unlocked`
     `modifier nonReentrant`                                ↔ `nonReentrant` -/
namespace Ark.LaunchGuardrail
open Ark.Lib.CallTree Ark.Lib.Checks

def addressSize : Nat := 2 ^ 160

instance : NeZero addressSize := ⟨by decide⟩

abbrev Address := Fin addressSize

def uint256Size : Nat := 2 ^ 256

instance : NeZero uint256Size := ⟨by decide⟩

abbrev Uint256 := Fin uint256Size

/-- One day, in seconds. -/
def epochDuration : Nat := 86400

inductive Revert where
  | unauthorized
  | onlyPendingOwner
  | contractPaused
  | contractNotPaused
  | zeroDeposit
  | zeroAddress
  | zeroLimit
  | invalidLimits (maxPerTx dailyLimit globalTvl : Uint256)
  | exceedsPerTxLimit (attempted limit : Uint256)
  | exceedsDailyAccountLimit (account : Address) (attempted limit : Uint256)
  | exceedsGlobalTvlCap (currentTvl attempted maxTvl : Uint256)
  | reentrancyGuardReentrantCall
  | transferFailed
  | insufficientVaultBalance (requested available : Nat)
  /-- The panic of a checked addition. -/
  | overflow
  | message (text : String)
  /-- No data: no such function, value to one that is not payable, an answer that does not
  decode. -/
  | empty
  | outOfGas
  deriving DecidableEq

inductive Event where
  | nativeDeposited (user : Address) (amount newTvl : Uint256) (epoch : Nat)
  | tokenDeposited (user token : Address) (amount newTvl : Uint256) (epoch : Nat)
  | nativeWithdrawn (recipient : Address) (amount : Uint256)
  | tokenWithdrawn (token recipient : Address) (amount : Uint256)
  | emergencyPaused (triggeredBy : Address)
  | emergencyUnpaused (triggeredBy : Address)
  | limitsUpdated (newGlobalTvlCap newMaxPerTxLimit newDailyAccountLimit : Uint256)
  | guardianUpdated (oldGuardian newGuardian : Address)
  | ownershipTransferStarted (previousOwner newOwner : Address)
  | ownershipTransferred (previousOwner newOwner : Address)
  deriving DecidableEq

structure UserDepositWindow where
  currentEpoch : Nat
  depositedInEpoch : Uint256
  totalCumulative : Uint256
  deriving DecidableEq

structure Storage where
  owner : Address
  pendingOwner : Address
  emergencyGuardian : Address
  paused : Bool
  globalTvlCap : Uint256
  maxPerTxLimit : Uint256
  dailyAccountLimit : Uint256
  totalDepositedNative : Uint256
  totalDepositedTokens : Address → Uint256
  nativeDepositWindows : Address → UserDepositWindow
  /-- By user, then by token. -/
  tokenDepositWindows : Address → Address → UserDepositWindow
  unlocked : Nat

structure World where
  storage : Storage
  balance : Nat
  held : Address → Nat
  now : Nat
  logs : List (Nat × Event)
  /-- What `withdrawNative` has sent out. -/
  sent : Nat

/-! ## Calls -/

/-- The external functions, and the calls that match none. -/
inductive Fn where
  | deposit
  | depositToken (token : Address) (amount : Uint256)
  | emergencyPause
  | unpause
  | setLimits (newGlobalTvlCap newMaxPerTxLimit newDailyAccountLimit : Uint256)
  | withdrawNative (recipient : Address) (amount : Uint256)
  | withdrawToken (token recipient : Address) (amount : Uint256)
  | setGuardian (newGuardian : Address)
  | transferOwnership (newOwner : Address)
  | acceptOwnership
  /-- A getter or a view function. -/
  | view
  | receive
  | unknown
  deriving DecidableEq

structure Message where
  sender : Address
  value : Uint256
  fn : Fn
  /-- What a token answers to `balanceOf(address(this))`; `none` when it reverts. -/
  balanceOf : World → Option Uint256 := fun _ => none
  outOfGas : Bool := false

/-- The calls the vault makes. -/
inductive Outgoing where
  | send (recipient : Address) (amount : Uint256)
  | transfer (token recipient : Address) (amount : Uint256)
  | transferFrom (token sender recipient : Address) (amount : Uint256)
  deriving DecidableEq

def Outgoing.callee : Outgoing → Address
  | .send recipient _ => recipient
  | .transfer token _ _ => token
  | .transferFrom token _ _ _ => token

def Outgoing.value : Outgoing → Nat
  | .send _ amount => amount.val
  | _ => 0

structure Reply where
  success : Bool
  data : List UInt8 := []

/-- What outside code can do to the world without the vault. -/
inductive Outside where
  | forceEther (amount : Nat)
  /-- A token contract changes what it says the vault holds. -/
  | setHeld (token : Address) (f : Nat → Nat)

abbrev Guardrail (α : Type) := Code World Outgoing Reply Revert α

def storage : Guardrail Storage := fun w => .ret w.storage w

def world : Guardrail World := Code.get

def setStorage (s : Storage) : Guardrail Unit := Code.modify fun w => { w with storage := s }

def emit (e : Event) : Guardrail Unit :=
  Code.modify fun w => { w with logs := w.logs ++ [(w.now, e)] }

def revert {α : Type} (e : Revert) : Guardrail α := Code.revert e

/-- Solidity's `if (c) revert e;`. -/
def revertIf (c : Prop) [Decidable c] (e : Revert) : Guardrail Unit :=
  if c then revert e else pure ()

def liftExcept {α : Type} : Except Revert α → Guardrail α
  | .ok a => pure a
  | .error e => revert e

/-- Solidity's `+` on `uint256`. -/
def checkedAdd (a b : Uint256) : Except Revert Uint256 :=
  if h : a.val + b.val < uint256Size then .ok ⟨a.val + b.val, h⟩ else .error .overflow

/-- `abi.decode(data, (bool))`. -/
def decodeBool (data : List UInt8) : Option Bool :=
  match data.take 31, data[31]? with
  | word, some b =>
    if word.all (· = 0) then
      if b = 0 then some false else if b = 1 then some true else none
    else none
  | _, none => none

/-! ## Modifiers -/

def onlyOwner (m : Message) : Guardrail Unit := do
  let s ← storage
  revertIf (m.sender ≠ s.owner) .unauthorized

def onlyGuardianOrOwner (m : Message) : Guardrail Unit := do
  let s ← storage
  revertIf (m.sender ≠ s.owner ∧ m.sender ≠ s.emergencyGuardian) .unauthorized

def whenNotPaused : Guardrail Unit := do
  let s ← storage
  revertIf (s.paused = true) .contractPaused

def whenPaused : Guardrail Unit := do
  let s ← storage
  revertIf (s.paused = false) .contractNotPaused

def setUnlocked (n : Nat) : Guardrail Unit :=
  Code.modify fun w => { w with storage := { w.storage with unlocked := n } }

/-- A guarded body starts once the mutex is taken. -/
def nonReentrant (body : Guardrail Unit) : Guardrail Unit := do
  let s ← storage
  revertIf (s.unlocked ≠ 1) .reentrancyGuardReentrantCall
  setUnlocked 0
  fun w => .body ((do body; setUnlocked 1 : Guardrail Unit) w)

/-! ## Deposits -/

def validateLimits (globalCap perTx daily : Uint256) : Except Revert Unit := do
  failIf (globalCap = 0 ∨ perTx = 0 ∨ daily = 0) .zeroLimit
  failIf (daily < perTx ∨ globalCap < daily) (.invalidLimits perTx daily globalCap)

/-- The checks on a deposit, in order, and the total and window it leaves. -/
def charge (s : Storage) (now : Nat) (user : Address) (amount currentTvl : Uint256)
    (window : UserDepositWindow) : Except Revert (Uint256 × UserDepositWindow) := do
  failIf (amount = 0) .zeroDeposit
  failIf (s.maxPerTxLimit < amount) (.exceedsPerTxLimit amount s.maxPerTxLimit)
  let newTvl ← checkedAdd currentTvl amount
  failIf (s.globalTvlCap < newTvl) (.exceedsGlobalTvlCap currentTvl amount s.globalTvlCap)
  let currentEpoch := now / epochDuration
  let currentEpochDeposited :=
    if window.currentEpoch = currentEpoch then window.depositedInEpoch else 0
  let depositedInEpoch ← checkedAdd currentEpochDeposited amount
  failIf (s.dailyAccountLimit < depositedInEpoch)
    (.exceedsDailyAccountLimit user depositedInEpoch s.dailyAccountLimit)
  let totalCumulative ← checkedAdd window.totalCumulative amount
  pure (newTvl, ⟨currentEpoch, depositedInEpoch, totalCumulative⟩)

/-- The storage after the state mutations of `deposit`. -/
def Storage.withNative (s : Storage) (user : Address) (newTvl : Uint256)
    (window : UserDepositWindow) : Storage :=
  { s with
    nativeDepositWindows := Function.update s.nativeDepositWindows user window
    totalDepositedNative := newTvl }

/-- The storage after the state mutations of `depositToken`. -/
def Storage.withToken (s : Storage) (user token : Address) (newTvl : Uint256)
    (window : UserDepositWindow) : Storage :=
  { s with
    tokenDepositWindows := Function.update s.tokenDepositWindows user
      (Function.update (s.tokenDepositWindows user) token window)
    totalDepositedTokens := Function.update s.totalDepositedTokens token newTvl }

def deposit (m : Message) : Guardrail Unit := do
  whenNotPaused
  nonReentrant do
    let w ← world
    let s := w.storage
    let (newTvl, window) ← liftExcept
      (charge s w.now m.sender m.value s.totalDepositedNative (s.nativeDepositWindows m.sender))
    setStorage (s.withNative m.sender newTvl window)
    emit (.nativeDeposited m.sender m.value newTvl window.currentEpoch)

/-- `_safeTransfer` and `_safeTransferFrom` after the call: no data, or a `bool` that is true. -/
def requireTransferred (r : Reply) : Guardrail Unit := do
  revertIf (r.success = false) .transferFailed
  if 0 < r.data.length then
    match decodeBool r.data with
    | none => revert .empty
    | some false => revert .transferFailed
    | some true => pure ()

section Vault
-- `this` is the vault's own address
variable (this : Address)

def safeTransfer (token recipient : Address) (amount : Uint256) : Guardrail Unit := do
  let r ← Code.callOut (.transfer token recipient amount)
  requireTransferred r

def safeTransferFrom (token sender recipient : Address) (amount : Uint256) : Guardrail Unit := do
  let r ← Code.callOut (.transferFrom token sender recipient amount)
  requireTransferred r

def depositToken (m : Message) (token : Address) (amount : Uint256) : Guardrail Unit := do
  whenNotPaused
  nonReentrant do
    revertIf (token = 0) .zeroAddress
    let w ← world
    let s := w.storage
    let (newTvl, window) ← liftExcept
      (charge s w.now m.sender amount (s.totalDepositedTokens token)
        (s.tokenDepositWindows m.sender token))
    setStorage (s.withToken m.sender token newTvl window)
    safeTransferFrom token m.sender this amount
    emit (.tokenDeposited m.sender token amount newTvl window.currentEpoch)

/-! ## Administration -/

def emergencyPause (m : Message) : Guardrail Unit := do
  onlyGuardianOrOwner m
  whenNotPaused
  let s ← storage
  setStorage { s with paused := true }
  emit (.emergencyPaused m.sender)

def unpause (m : Message) : Guardrail Unit := do
  onlyOwner m
  whenPaused
  let s ← storage
  setStorage { s with paused := false }
  emit (.emergencyUnpaused m.sender)

def setLimits (m : Message) (newGlobalTvlCap newMaxPerTxLimit newDailyAccountLimit : Uint256) :
    Guardrail Unit := do
  onlyOwner m
  liftExcept (validateLimits newGlobalTvlCap newMaxPerTxLimit newDailyAccountLimit)
  let s ← storage
  setStorage { s with
    globalTvlCap := newGlobalTvlCap
    maxPerTxLimit := newMaxPerTxLimit
    dailyAccountLimit := newDailyAccountLimit }
  emit (.limitsUpdated newGlobalTvlCap newMaxPerTxLimit newDailyAccountLimit)

def withdrawNative (m : Message) (recipient : Address) (amount : Uint256) : Guardrail Unit := do
  onlyOwner m
  nonReentrant do
    revertIf (recipient = 0) .zeroAddress
    let w ← world
    revertIf (w.balance < amount.val) (.insufficientVaultBalance amount.val w.balance)
    let r ← Code.callOut (.send recipient amount)
    revertIf (r.success = false) .transferFailed
    emit (.nativeWithdrawn recipient amount)

/-- `IERC20(token).balanceOf(address(this))`. -/
def balanceOf (m : Message) (token : Address) : Guardrail Uint256 := do
  let w ← world
  match if token = this then none else m.balanceOf w with
  | none => revert .empty
  | some tokenBal => pure tokenBal

def withdrawToken (m : Message) (token recipient : Address) (amount : Uint256) :
    Guardrail Unit := do
  onlyOwner m
  nonReentrant do
    revertIf (token = 0 ∨ recipient = 0) .zeroAddress
    let tokenBal ← balanceOf this m token
    revertIf (tokenBal < amount) (.insufficientVaultBalance amount.val tokenBal.val)
    safeTransfer token recipient amount
    emit (.tokenWithdrawn token recipient amount)

def setGuardian (m : Message) (newGuardian : Address) : Guardrail Unit := do
  onlyOwner m
  revertIf (newGuardian = 0) .zeroAddress
  let s ← storage
  emit (.guardianUpdated s.emergencyGuardian newGuardian)
  setStorage { s with emergencyGuardian := newGuardian }

def transferOwnership (m : Message) (newOwner : Address) : Guardrail Unit := do
  onlyOwner m
  revertIf (newOwner = 0) .zeroAddress
  let s ← storage
  setStorage { s with pendingOwner := newOwner }
  emit (.ownershipTransferStarted s.owner newOwner)

def acceptOwnership (m : Message) : Guardrail Unit := do
  let s ← storage
  revertIf (m.sender ≠ s.pendingOwner) .onlyPendingOwner
  emit (.ownershipTransferred s.owner s.pendingOwner)
  setStorage { s with owner := s.pendingOwner, pendingOwner := 0 }

/-! ## Views -/

def getUserRemainingDailyLimit (w : World) (user : Address) : Nat :=
  let window := w.storage.nativeDepositWindows user
  let deposited := if window.currentEpoch = w.now / epochDuration then window.depositedInEpoch else 0
  if w.storage.dailyAccountLimit ≤ deposited then 0
  else w.storage.dailyAccountLimit.val - deposited.val

def getTokenUserRemainingDailyLimit (w : World) (user token : Address) : Nat :=
  let window := w.storage.tokenDepositWindows user token
  let deposited := if window.currentEpoch = w.now / epochDuration then window.depositedInEpoch else 0
  if w.storage.dailyAccountLimit ≤ deposited then 0
  else w.storage.dailyAccountLimit.val - deposited.val

def getRemainingTvlCapacity (w : World) : Nat :=
  if w.storage.globalTvlCap ≤ w.storage.totalDepositedNative then 0
  else w.storage.globalTvlCap.val - w.storage.totalDepositedNative.val

def getTokenRemainingTvlCapacity (w : World) (token : Address) : Nat :=
  let currentTvl := w.storage.totalDepositedTokens token
  if w.storage.globalTvlCap ≤ currentTvl then 0 else w.storage.globalTvlCap.val - currentTvl.val

/-! ## The vault -/

def Fn.payable : Fn → Bool
  | .deposit => true
  | .receive => true
  | _ => false

def dispatch (m : Message) : Guardrail Unit :=
  match m.fn with
  | .deposit => deposit m
  | .depositToken token amount => depositToken this m token amount
  | .emergencyPause => emergencyPause m
  | .unpause => unpause m
  | .setLimits globalCap perTx daily => setLimits m globalCap perTx daily
  | .withdrawNative recipient amount => withdrawNative m recipient amount
  | .withdrawToken token recipient amount => withdrawToken this m token recipient amount
  | .setGuardian newGuardian => setGuardian m newGuardian
  | .transferOwnership newOwner => transferOwnership m newOwner
  | .acceptOwnership => acceptOwnership m
  | .view => pure ()
  | .receive => revert (.message "Use deposit() function")
  | .unknown => revert .empty

/-- A frame: the value arrives, the function runs, and the gas may not suffice. -/
def code (m : Message) : Guardrail Unit := do
  revertIf (m.value ≠ 0 ∧ m.fn.payable = false) .empty
  Code.modify fun w => { w with balance := w.balance + m.value.val }
  dispatch this m
  revertIf (m.outOfGas = true) .outOfGas

def Outside.apply (w : World) : Outside → World
  | .forceEther amount => { w with balance := w.balance + amount }
  | .setHeld token f => { w with held := Function.update w.held token (f (w.held token)) }

def vault : Contract World Outgoing Reply Revert Message Outside where
  code := code this
  refused c := if c.callee = this then some ⟨false, []⟩ else none
  enter c w := { w with balance := w.balance - c.value, sent := w.sent + c.value }
  failed r := !r.success
  apply o w := o.apply w

/-- The transactions of a chain, each with its block's timestamp. -/
abbrev History := List (Nat × Script Reply Message Outside)

/-- The run of a history: outside code has control between the frames of each transaction. -/
def play : History → World → World × List (Obs World Message)
  | [], w => (w, [])
  | (time, x) :: H, w =>
    let r := (vault this).run x { w with now := time }
    let q := play H r.1
    (q.1, r.2 ++ q.2)

end Vault

/-- The storage a constructor that succeeds leaves. -/
def Storage.initial (owner guardian : Address) (cap perTx daily : Uint256) : Storage where
  owner := owner
  pendingOwner := 0
  emergencyGuardian := guardian
  paused := false
  globalTvlCap := cap
  maxPerTxLimit := perTx
  dailyAccountLimit := daily
  totalDepositedNative := 0
  totalDepositedTokens := fun _ => 0
  nativeDepositWindows := fun _ => ⟨0, 0, 0⟩
  tokenDepositWindows := fun _ _ => ⟨0, 0, 0⟩
  unlocked := 1

/-- The constructor: the storage and the events it leaves. -/
def construct (initialOwner initialGuardian : Address)
    (initialGlobalTvlCap initialMaxPerTxLimit initialDailyAccountLimit : Uint256) :
    Except Revert (Storage × List Event) := do
  failIf (initialOwner = 0 ∨ initialGuardian = 0) .zeroAddress
  validateLimits initialGlobalTvlCap initialMaxPerTxLimit initialDailyAccountLimit
  pure
    (.initial initialOwner initialGuardian initialGlobalTvlCap initialMaxPerTxLimit
      initialDailyAccountLimit,
     [.ownershipTransferred 0 initialOwner, .guardianUpdated 0 initialGuardian,
      .limitsUpdated initialGlobalTvlCap initialMaxPerTxLimit initialDailyAccountLimit])

/-- A vault that was just constructed, on a chain where its address may already hold funds. -/
def Deployed (w : World) : Prop :=
  ∃ owner guardian cap perTx daily events,
    construct owner guardian cap perTx daily = .ok (w.storage, events) ∧
    w.logs = events.map (fun e => (w.now, e)) ∧ w.sent = 0

end Ark.LaunchGuardrail
