import Ark.Ante
import Ark.Sanction.Screening

/- What the ante handler lets through.

   On each route the decorators before the blacklist check hand over to it with the
   same transaction and an unchanged blacklist (`Passive`), so a transaction the
   handler lets through has passed the check: on the Cosmos route it is clean, on
   the EVM route every sender is (`newAnteHandler_screens`). -/
namespace Ark.Ante
open Ark.Sdk Ark.Lib Ark.Sanction

variable {W Rest Msg FeemarketParams EvmParams : Type}

/-- What is relied on: a chain of decorators wraps them in order, and those before the blacklist
check let nothing through but by way of the next one, and leave the blacklist alone. -/
structure Passive (options : HandlerOptions W Rest Msg FeemarketParams EvmParams) : Prop where
  chain : ∀ d ds, options.chain (d :: ds) = chainAnteDecorators (d :: ds)
  rejectMessages : AnteDecorator.PassesOn options.blacklistAccounts options.rejectMessages
  authzLimiter : ∀ typeURLs,
    AnteDecorator.PassesOn options.blacklistAccounts (options.authzLimiter typeURLs)
  setUpContext : AnteDecorator.PassesOn options.blacklistAccounts options.setUpContext
  limitSimulationGas : AnteDecorator.PassesOn options.blacklistAccounts options.limitSimulationGas
  countTX : AnteDecorator.PassesOn options.blacklistAccounts options.countTX
  gasRegister : AnteDecorator.PassesOn options.blacklistAccounts options.gasRegister
  circuitBreaker : AnteDecorator.PassesOn options.blacklistAccounts options.circuitBreaker

/-- A decorator runs `next`, once, with what it was given, and does nothing else. -/
def HandsOver (d : AnteDecorator W Rest Msg) (tx : Tx Msg) (w : W) : Prop :=
  ∀ ctx simulate next, d ctx tx simulate next w = next ctx tx simulate w

/-- A decorator returns an error, and `next` does not run. -/
def Rejects (d : AnteDecorator W Rest Msg) (tx : Tx Msg) (w : W) : Prop :=
  ∃ err, ∀ ctx simulate next, d ctx tx simulate next w = ((ctx, some err), w)

theorem checkThenNext_handsOver {checks : W → Tx Msg → Except Err Unit} {tx : Tx Msg} {w : W}
    (h : checks w tx = .ok ()) :
    HandsOver (checkThenNext checks : AnteDecorator W Rest Msg) tx w :=
  fun ctx simulate next => checkThenNext_ok h ctx simulate next

/-- Checks that agree on two transactions accept both or reject both. -/
theorem checkThenNext_cases {checks : W → Tx Msg → Except Err Unit} {tx tx' : Tx Msg} {w : W}
    {d : AnteDecorator W Rest Msg} (hd : d = checkThenNext checks)
    (h : checks w tx = .ok () ↔ checks w tx' = .ok ()) :
    (HandsOver d tx w ∧ HandsOver d tx' w) ∨ (Rejects d tx w ∧ Rejects d tx' w) := by
  subst hd
  cases hc : checks w tx with
  | ok u => exact .inl ⟨checkThenNext_handsOver hc, checkThenNext_handsOver (h.mp hc)⟩
  | error err =>
    cases hc' : checks w tx' with
    | ok u =>
      rw [h.mpr hc'] at hc
      cases hc
    | error err' =>
      exact .inr ⟨⟨err, checkThenNext_error hc⟩, ⟨err', checkThenNext_error hc'⟩⟩

section
variable {options : HandlerOptions W Rest Msg FeemarketParams EvmParams} {w : W}

/-- The blacklist check of the Cosmos route. -/
theorem newCosmosAnteHandler_screens (hp : Passive options) (hcodec : options.codec.Lawful)
    (hcanon : Canonical options.codec (options.blacklistAccounts w)) {ctx ctx₀ : Context Rest}
    {w₀ : W} {tx : Tx Msg} {simulate : Bool}
    (h : AnteHandler.Passes (newCosmosAnteHandler options ctx₀ w₀) ctx tx simulate w) :
    Readable options.types tx ∧
      Clean options.types options.codec (options.blacklistAccounts w) tx := by
  unfold newCosmosAnteHandler at h
  simp only [hp.chain] at h
  have hbefore : ∀ d ∈ [options.rejectMessages, options.authzLimiter
      ["/cosmos.evm.vm.v1.MsgEthereumTx", "/cosmos.vesting.v1beta1.MsgCreateVestingAccount"],
      options.setUpContext, options.limitSimulationGas, options.countTX, options.gasRegister,
      options.circuitBreaker], AnteDecorator.PassesOn options.blacklistAccounts d := by
    intro d hd
    simp only [List.mem_cons, List.not_mem_nil, or_false] at hd
    rcases hd with rfl | rfl | rfl | rfl | rfl | rfl | rfl
    · exact hp.rejectMessages
    · exact hp.authzLimiter _
    · exact hp.setUpContext
    · exact hp.limitSimulationGas
    · exact hp.countTX
    · exact hp.gasRegister
    · exact hp.circuitBreaker
  obtain ⟨ctx', simulate', w', hview, hcheck⟩ := passes_after hbefore h
  have hok := checkThenNext_passes hcheck
  rw [hview] at hok
  exact (blacklistChecks_ok hcanon hcodec).mp hok

/-- The blacklist check of the EVM route. -/
theorem newEVMAnteHandler_screens (hp : Passive options) (hcodec : options.codec.Lawful)
    (hcanon : Canonical options.codec (options.blacklistAccounts w)) {ctx ctx₀ : Context Rest}
    {w₀ : W} {tx : Tx Msg} {simulate : Bool}
    (h : AnteHandler.Passes (newEVMAnteHandler options ctx₀ w₀) ctx tx simulate w) :
    EvmClean options.types options.codec (options.blacklistAccounts w) tx := by
  have hbefore : ∀ d ∈ [options.circuitBreaker],
      AnteDecorator.PassesOn options.blacklistAccounts d := by
    intro d hd
    rw [List.mem_singleton.mp hd]
    exact hp.circuitBreaker
  obtain ⟨rest, hrest⟩ : ∃ rest, newEVMAnteHandler options ctx₀ w₀ = chainAnteDecorators
      ([options.circuitBreaker] ++ evmBlacklistCheckDecorator options.codec options.types
        options.blacklistAccounts :: rest) := by
    unfold newEVMAnteHandler
    cases options.pendingTxListener with
    | none => exact ⟨_, hp.chain _ _⟩
    | some listener => exact ⟨_, hp.chain _ _⟩
  rw [hrest] at h
  obtain ⟨ctx', simulate', w', hview, hcheck⟩ := passes_after hbefore h
  have hok := checkThenNext_passes hcheck
  rw [hview] at hok
  exact (evmBlacklistChecks_ok hcanon hcodec).mp hok

/-- The blacklist check of the handler, whatever the route. -/
theorem newAnteHandler_screens (hp : Passive options) (hcodec : options.codec.Lawful)
    (hcanon : Canonical options.codec (options.blacklistAccounts w)) {ctx : Context Rest}
    {tx : Option (Tx Msg)} {simulate : Bool}
    (h : (newAnteHandler options ctx tx simulate w).1.2 = none) : ∃ t, tx = some t ∧
      (∀ typeURL, firstExtensionOption t = some typeURL →
        typeURL = extensionOptionsEthereumTx ∨ typeURL = extensionOptionDynamicFeeTx) ∧
      (firstExtensionOption t = some extensionOptionsEthereumTx →
        EvmClean options.types options.codec (options.blacklistAccounts w) t) ∧
      (firstExtensionOption t ≠ some extensionOptionsEthereumTx → Readable options.types t ∧
        Clean options.types options.codec (options.blacklistAccounts w) t) := by
  cases tx with
  | none => cases h
  | some t =>
    refine ⟨t, rfl, ?_⟩
    unfold newAnteHandler at h
    cases hfirst : firstExtensionOption t with
    | none =>
      simp only [hfirst] at h
      refine ⟨nofun, nofun, fun _ => ?_⟩
      exact newCosmosAnteHandler_screens hp hcodec hcanon h
    | some typeURL =>
      simp only [hfirst] at h
      -- the first extension option picks the route
      by_cases heth : typeURL = extensionOptionsEthereumTx
      · rw [if_pos heth] at h
        refine ⟨fun url hurl => .inl ?_, fun _ => ?_, fun hno => absurd (congrArg some heth) hno⟩
        · rw [← Option.some.inj hurl]
          exact heth
        · exact newEVMAnteHandler_screens hp hcodec hcanon h
      · rw [if_neg heth] at h
        by_cases hdyn : typeURL = extensionOptionDynamicFeeTx
        · rw [if_pos hdyn] at h
          refine ⟨fun url hurl => .inr ?_, fun he => absurd (Option.some.inj he) heth, fun _ => ?_⟩
          · rw [← Option.some.inj hurl]
            exact hdyn
          · exact newCosmosAnteHandler_screens hp hcodec hcanon h
        · rw [if_neg hdyn] at h
          cases h

end

/-! ## A small chain -/

/-- Messages of a small chain: a transfer, an authz wrapper, an Ethereum transaction. -/
inductive SmallMsg where
  | send (sender : Address)
  | exec (grantee : Address) (msgs : List SmallMsg)
  | ethereum (sender : Address)

def smallTypes : MsgTypes SmallMsg where
  msgExec
    | .exec _ msgs => some (.ok msgs)
    | _ => none
  getMsgV1Signers
    | .send sender => .ok [sender]
    | .exec grantee _ => .ok [grantee]
    | .ethereum sender => .ok [sender]
  unpackEthMsg
    | .ethereum sender => .ok sender
    | _ => .error (.wrap errUnknownRequest "invalid message type")

def handOver : AnteDecorator (KeySet String) Unit SmallMsg :=
  fun ctx tx simulate next w => next ctx tx simulate w

/-- A chain whose other decorators hand over, and whose only store is the blacklist. -/
def smallOptions : HandlerOptions (KeySet String) Unit SmallMsg Unit Unit where
  chain := chainAnteDecorators
  feeMarketParams _ _ := ()
  evmParams _ _ := ()
  dynamicFeeChecker := true
  types := smallTypes
  codec := arkCodec
  blacklistAccounts := id
  rejectMessages := handOver
  authzLimiter _ := handOver
  setUpContext := handOver
  limitSimulationGas := handOver
  countTX := handOver
  gasRegister := handOver
  circuitBreaker := handOver
  extensionOptions := handOver
  validateBasic := handOver
  txTimeoutHeight := handOver
  validateMemo := handOver
  minGasPrice _ := handOver
  consumeGasForTxSize := handOver
  deductFee _ := handOver
  setPubKey := handOver
  validateSigCount := handOver
  sigGasConsume := handOver
  sigVerification := handOver
  incrementSequence := handOver
  redundantRelay := handOver
  gasWanted _ := handOver
  evmMono _ _ := handOver
  pendingTxListener := none

theorem handOver_passesOn : AnteDecorator.PassesOn (id : KeySet String → KeySet String) handOver :=
  fun ctx _ simulate _ w h => ⟨ctx, simulate, w, rfl, h⟩

theorem smallOptions_passive : Passive smallOptions where
  chain _ _ := rfl
  rejectMessages := handOver_passesOn
  authzLimiter _ := handOver_passesOn
  setUpContext := handOver_passesOn
  limitSimulationGas := handOver_passesOn
  countTX := handOver_passesOn
  gasRegister := handOver_passesOn
  circuitBreaker := handOver_passesOn

def account (n : UInt8) : Address := List.replicate 20 n

/-- Account 1 is blacklisted. -/
def smallBlacklist : KeySet String := KeySet.empty.set (arkCodec.string (account 1))

theorem account_parses (n : UInt8) :
    arkCodec.accAddressFromBech32 (arkCodec.string (account n)) = .ok (account n) := by
  rw [arkCodec_parse, arkCodec_string, String.toList_ofList]
  apply parseAccAddress_print
  simp [verifyAddressLen, account]

theorem smallBlacklist_canonical : Canonical arkCodec smallBlacklist := by
  intro key hkey
  have hone : key = arkCodec.string (account 1) := by
    simpa [smallBlacklist, KeySet.mem_set] using hkey
  rw [hone]
  exact ⟨account 1, account_parses 1, rfl⟩

/-- Account 2 acts for account 1, inside a `MsgExec`. -/
def hiddenTx : Tx SmallMsg where
  getMsgs := [.send (account 2), .exec (account 2) [.send (account 1)]]
  sigTx := some (.ok [account 2])
  feeTx := some none
  extensionOptionsTx := some []

/-- A transfer of account 2, with account 3 paying the fee. -/
def plainTx : Tx SmallMsg where
  getMsgs := [.send (account 2)]
  sigTx := some (.ok [account 2])
  feeTx := some (some (account 3))
  extensionOptionsTx := none

theorem account_blacklisted {n : UInt8} :
    Blacklisted arkCodec smallBlacklist (account n) ↔ n = 1 := by
  rw [smallBlacklist_canonical.blacklisted_iff arkCodec_lawful, smallBlacklist, KeySet.mem_set]
  constructor
  · intro h
    have haccount : account n = account 1 := by
      apply arkCodec_lawful.string_injective
      simpa using h
    exact (List.replicate_inj.mp haccount).2.resolve_left (by decide)
  · intro h
    rw [h]
    exact .inl rfl

theorem plainTx_readable : Readable smallTypes plainTx where
  signers := ⟨_, rfl⟩
  inner msg hmsg getMessages hexec := by
    rw [List.mem_singleton.mp hmsg] at hexec
    cases hexec

theorem plainTx_clean : Clean smallTypes arkCodec smallBlacklist plainTx where
  signers signers hs signer hsigner := by
    cases hs
    rw [List.mem_singleton.mp hsigner, account_blacklisted]
    decide
  feeGranter granter hg := by
    cases hg
    rw [account_blacklisted]
    decide
  single := by decide
  nested msg hmsg innerMsgs hexec := by
    rw [List.mem_singleton.mp hmsg] at hexec
    cases hexec
  granter msg hmsg innerMsgs hexec := by
    rw [List.mem_singleton.mp hmsg] at hexec
    cases hexec

/-- Over a blacklist of canonical keys: a transaction the handler lets through has a route, and
nobody it acts for is blacklisted; a clean transaction whose signers can be looked up is handed to
the next decorator; and the order of the messages does not matter. -/
theorem no_blacklisted_actor (options : HandlerOptions W Rest Msg FeemarketParams EvmParams)
    (hp : Passive options) (hcodec : options.codec.Lawful) (w : W)
    (hcanon : Canonical options.codec (options.blacklistAccounts w)) :
    (∀ ctx tx simulate, (newAnteHandler options ctx tx simulate w).1.2 = none → ∃ t, tx = some t ∧
      (∀ typeURL, firstExtensionOption t = some typeURL →
        typeURL = extensionOptionsEthereumTx ∨ typeURL = extensionOptionDynamicFeeTx) ∧
      (firstExtensionOption t = some extensionOptionsEthereumTx →
        EvmClean options.types options.codec (options.blacklistAccounts w) t) ∧
      (firstExtensionOption t ≠ some extensionOptionsEthereumTx → Readable options.types t ∧
        Clean options.types options.codec (options.blacklistAccounts w) t)) ∧
    (∀ tx, Readable options.types tx →
      Clean options.types options.codec (options.blacklistAccounts w) tx →
      HandsOver (blacklistCheckDecorator options.codec options.types options.blacklistAccounts :
        AnteDecorator W Rest Msg) tx w) ∧
    ∀ tx tx', Reordered tx tx' → ∀ d : AnteDecorator W Rest Msg,
      d = blacklistCheckDecorator options.codec options.types options.blacklistAccounts ∨
      d = evmBlacklistCheckDecorator options.codec options.types options.blacklistAccounts →
      (HandsOver d tx w ∧ HandsOver d tx' w) ∨ (Rejects d tx w ∧ Rejects d tx' w) := by
  refine ⟨fun ctx tx simulate h => newAnteHandler_screens hp hcodec hcanon h, ?_, ?_⟩
  · intro tx hread hclean
    exact checkThenNext_handsOver ((blacklistChecks_ok hcanon hcodec).mpr ⟨hread, hclean⟩)
  · intro tx tx' hr d hd
    cases hd with
    | inl hd =>
      apply checkThenNext_cases hd
      rw [blacklistChecks_ok hcanon hcodec, blacklistChecks_ok hcanon hcodec]
      constructor
      · intro h
        exact ⟨h.1.reorder hr, h.2.reorder hr⟩
      · intro h
        exact ⟨h.1.reorder hr.symm, h.2.reorder hr.symm⟩
    | inr hd =>
      apply checkThenNext_cases hd
      rw [evmBlacklistChecks_ok hcanon hcodec, evmBlacklistChecks_ok hcanon hcodec]
      constructor
      · intro h
        exact h.reorder hr
      · intro h
        exact h.reorder hr.symm

/-- On a chain that lets everything else through, the hidden granter is found, and a plain
transfer is handed over. -/
theorem hiddenTx_rejected :
    (newAnteHandler smallOptions ⟨"ark-1", ()⟩ (some hiddenTx) false smallBlacklist).1.2 ≠ none ∧
    HandsOver (blacklistCheckDecorator arkCodec smallTypes id :
      AnteDecorator (KeySet String) Unit SmallMsg) plainTx smallBlacklist := by
  obtain ⟨hscreen, hhand, _⟩ := no_blacklisted_actor smallOptions smallOptions_passive
    arkCodec_lawful smallBlacklist smallBlacklist_canonical
  refine ⟨fun h => ?_, hhand plainTx plainTx_readable plainTx_clean⟩
  obtain ⟨t, ht, _, _, hcosmos⟩ := hscreen _ _ _ h
  cases ht
  have hclean := (hcosmos nofun).2
  apply hclean.granter (.exec (account 2) [.send (account 1)]) (by simp [hiddenTx])
    [.send (account 1)] rfl (.send (account 1)) (by simp) (account 1) [] rfl
  exact account_blacklisted.mpr rfl

end Ark.Ante
