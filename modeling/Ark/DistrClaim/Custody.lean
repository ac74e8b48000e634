import Ark.DistrClaim.Execute

/- In whose name the precompile acts. Whatever the call data, and however it ends, an
   execution takes the chain through acts of the caller's only (`Precompile.Acts`): what
   it asks of the keepers and of the EVM names the caller as delegator, sender and
   receiver. A call for another delegator gets no further than `MaxValidators`
   (`perform_foreign`), since what it decodes is compared with the caller before anything
   else is asked.

   So what only an account's own acts can change stays as it is over any calls that others
   make, and over calls of the account's own contracts that name somebody else
   (`custody`). -/
namespace Ark.DistrClaim
open Ark.Lib Ark.Lib.Effect Ark.Sdk
open Ark.Gov (Fault)

section
variable {σ Coins : Type}

/-- One call of a keeper or of the EVM in the name of `caller`; a call that fails may have changed
the chain all the same. -/
inductive Precompile.Acts (p : Precompile σ Coins) (evm : Option (Evm σ)) (caller : EthAddress) :
    σ → σ → Prop
  | maxValidators (s : σ) : p.Acts evm caller s (observe id (p.maxValidators s)).2
  | getDelegatorWithdrawAddr (s : σ) :
    p.Acts evm caller s (observe id (p.getDelegatorWithdrawAddr caller.bytes s)).2
  | getDelegatorValidators (maxRetrieve : UInt32) (s : σ) :
    p.Acts evm caller s (observe id (p.getDelegatorValidators caller.bytes maxRetrieve s)).2
  | withdrawDelegationRewards (valAddr : Address) (s : σ) :
    p.Acts evm caller s (observe id (p.withdrawDelegationRewards caller.bytes valAddr s)).2
  | convertCoin (msg : MsgConvertCoin) (s : σ) :
    0 < msg.amount → msg.receiver = p.codec.hexText caller.bytes →
    p.bytesToString caller.bytes = .ok msg.sender →
    p.Acts evm caller s (observe id (p.convertCoin msg s)).2
  | underlying (vm : Evm σ) (wrapper : EthAddress) (gas : UInt64) (s : σ) :
    evm = some vm →
    p.Acts evm caller s (vm.staticCall caller wrapper erc20WrapperUnderlyingCallData gas s).2
  | withdrawTo (wrapper : EthAddress) (amountWad : Int) (data : Bytes) (s : σ) :
    erc20WrapperWithdrawToCallData caller amountWad = .ok data →
    p.Acts evm caller s
      (p.evmKeeper.callEVMWithData caller wrapper data true gasCapERC20WrapperWithdrawTo s).2

variable {p : Precompile σ Coins} {evm : Option (Evm σ)} {caller : EthAddress}

/-! ## Calls out -/

theorem ask_moves {α : Type} {R : σ → σ → Prop} {op : KeeperM σ α}
    (record : Except String α → Call Coins) (h : ∀ s, R s (observe id (op s)).2) :
    Moves World.chain R (ask record op) := by
  intro w
  have hop := h w.chain
  unfold ask
  cases hrun : op w.chain with
  | ok a chain =>
    rw [hrun] at hop
    exact .single hop
  | error err chain =>
    rw [hrun] at hop
    exact .single hop

theorem orFail_moves {α : Type} {R : σ → σ → Prop} (x : Except String α) :
    Moves World.chain R (orFail x : ClaimM σ Coins α) := by
  cases x with
  | ok a => exact .pure' a
  | error err => exact .throw' _

theorem orPanic_moves {α : Type} {R : σ → σ → Prop} (text : String) (x : Option α) :
    Moves World.chain R (orPanic text x : ClaimM σ Coins α) := by
  cases x with
  | some a => exact .pure' a
  | none => exact .throw' _

theorem settleProbe_chain (gas : UInt64) (res : StaticResult) (w : World σ Coins) :
    (settleProbe gas res w).2.chain = w.chain := by
  obtain ⟨left, h⟩ := settleProbe_eq gas res w
  rw [h]

theorem evmGetUnderlyingERC20Wrapper_chain (vm : Evm σ) (caller wrapper : EthAddress)
    (w : World σ Coins) :
    (evmGetUnderlyingERC20Wrapper vm caller wrapper w).2.chain =
      (vm.staticCall caller wrapper erc20WrapperUnderlyingCallData w.probeGas w.chain).2 :=
  settleProbe_chain _ _ _

theorem erc20WrapperWithdrawToViaEVMCaller_chain {keeper : EvmKeeper σ}
    {sender wrapper receiver : EthAddress} {amountWad : Int} {data : Bytes} (s : σ)
    (hdata : erc20WrapperWithdrawToCallData receiver amountWad = .ok data) :
    (erc20WrapperWithdrawToViaEVMCaller keeper sender wrapper receiver amountWad s).2 =
      (keeper.callEVMWithData sender wrapper data true gasCapERC20WrapperWithdrawTo s).2 := by
  unfold erc20WrapperWithdrawToViaEVMCaller
  rw [hdata]
  simp only
  split <;> rfl

/-- The tokens are withdrawn by the caller and for the caller. -/
theorem erc20WrapperWithdrawToViaEVMCaller_acts (p : Precompile σ Coins) (evm : Option (Evm σ))
    (caller wrapper : EthAddress) (amountWad : Int) (s : σ) :
    Relation.ReflTransGen (p.Acts evm caller) s
      (erc20WrapperWithdrawToViaEVMCaller p.evmKeeper caller wrapper caller amountWad s).2 := by
  cases hdata : erc20WrapperWithdrawToCallData caller amountWad with
  | error err =>
    unfold erc20WrapperWithdrawToViaEVMCaller
    rw [hdata]
  | ok data =>
    rw [erc20WrapperWithdrawToViaEVMCaller_chain s hdata]
    exact .single (.withdrawTo wrapper amountWad data s hdata)

theorem tryUnwrapWrapper_acts (p : Precompile σ Coins) (evm : Option (Evm σ))
    (caller : EthAddress) (denom : String) (amountWad : Int) (w : World σ Coins) :
    Relation.ReflTransGen (p.Acts evm caller) w.chain
      (p.tryUnwrapWrapper evm caller denom amountWad w).chain := by
  cases evm with
  | none => exact .refl
  | some vm =>
    unfold Precompile.tryUnwrapWrapper
    by_cases herc20 : denom.startsWith "erc20:" = false
    · simp only [herc20, if_true]
      exact .refl
    · by_cases hmin : amountWad < minWithdrawAmountWad
      · simp only [if_neg herc20, if_pos hmin]
        exact .refl
      · simp only [if_neg herc20, if_neg hmin]
        cases p.parseERC20DenomAddress denom with
        | error err => exact .refl
        | ok wrapper =>
          have hchain := evmGetUnderlyingERC20Wrapper_chain vm caller wrapper w
          have hprobe : p.Acts (some vm) caller w.chain _ :=
            .underlying vm wrapper w.probeGas w.chain rfl
          rw [← hchain] at hprobe
          simp only
          cases hout : evmGetUnderlyingERC20Wrapper vm caller wrapper w with
          | mk res w' =>
            rw [hout] at hprobe
            cases res with
            | error err => exact .single hprobe
            | ok underlying =>
              exact .head hprobe
                (erc20WrapperWithdrawToViaEVMCaller_acts p (some vm) caller wrapper amountWad
                  w'.chain)

/-! ## The claim -/

theorem checkDelegator_caller {delegatorAddr : EthAddress} {maxRetrieve : UInt32}
    {delegatorBech32 : String} {s t : World σ Coins}
    (h : p.checkDelegator delegatorAddr maxRetrieve caller s = .ok delegatorBech32 t) :
    delegatorAddr = caller ∧ p.bytesToString caller.bytes = .ok delegatorBech32 := by
  unfold Precompile.checkDelegator at h
  obtain ⟨maxVals, s₁, _, h⟩ := bind_ok.mp h
  obtain ⟨_, s₂, _, h⟩ := bind_ok.mp h
  obtain ⟨_, s₃, hthrow, h⟩ := bind_ok.mp h
  obtain ⟨text, s₄, htext, h⟩ := bind_ok.mp h
  obtain ⟨_, s₅, _, h⟩ := bind_ok.mp h
  obtain ⟨_, s₆, _, h⟩ := bind_ok.mp h
  obtain ⟨_, s₇, _, h⟩ := bind_ok.mp h
  have hcaller := Decidable.not_not.mp (throwIf_ok.mp hthrow).1
  rw [hcaller, ← (pure_ok.mp h).1]
  exact ⟨rfl, (orFail_ok.mp htext).1⟩

/-- What is asked before the caller is known to be the delegator is `MaxValidators`. -/
theorem checkDelegator_acts (p : Precompile σ Coins) (evm : Option (Evm σ))
    (delegatorAddr : EthAddress) (maxRetrieve : UInt32) (caller : EthAddress) :
    Moves World.chain (p.Acts evm caller) (p.checkDelegator delegatorAddr maxRetrieve caller) := by
  refine .bind' (ask_moves _ .maxValidators) fun maxVals _ _ _ => ?_
  refine .bind' (.throwIf' _ _) fun _ _ _ _ => ?_
  refine .bind' (.throwIf' _ _) fun _ s t hthrow => ?_
  rw [← Decidable.not_not.mp (throwIf_ok.mp hthrow).1]
  refine .bind' (orFail_moves _) fun _ _ _ _ => ?_
  refine .bind' (ask_moves _ .getDelegatorWithdrawAddr) fun _ _ _ _ => ?_
  refine .bind' (orFail_moves _) fun _ _ _ _ => ?_
  exact .bind' (.throwIf' _ _) fun _ _ _ _ => .pure' _

theorem withdrawFrom_acts (p : Precompile σ Coins) (evm : Option (Evm σ)) (caller : EthAddress)
    (totalCoins : Coins) (operator : String) :
    Moves World.chain (p.Acts evm caller) (p.withdrawFrom caller totalCoins operator) :=
  .bind' (orFail_moves _) fun valAddr _ _ _ =>
    .bind' (ask_moves _ (.withdrawDelegationRewards valAddr)) fun _ _ _ _ => orPanic_moves _ _

theorem convertTotal_acts (p : Precompile σ Coins) (evm : Option (Evm σ)) (caller : EthAddress)
    {delegatorBech32 : String} (hbech32 : p.bytesToString caller.bytes = .ok delegatorBech32)
    (denom : String) (totalCoins : Coins) :
    Moves World.chain (p.Acts evm caller)
      (p.convertTotal caller delegatorBech32 denom evm caller totalCoins) := by
  refine .bind' (orPanic_moves _ _) fun amount _ _ _ => ?_
  by_cases hpos : amount > 0
  · rw [if_pos hpos]
    refine .bind' (ask_moves _ fun s => .convertCoin _ s hpos rfl hbech32) fun _ _ _ _ => ?_
    refine .bind' ?_ fun _ _ _ _ => .pure' _
    exact tryUnwrapWrapper_acts p evm caller denom amount
  · rw [if_neg hpos]
    exact .pure' _

theorem claimRewardsAndConvertCoin_acts (p : Precompile σ Coins) (evm : Option (Evm σ))
    (delegatorAddr : EthAddress) (maxRetrieve : UInt32) (denom : String) (caller : EthAddress) :
    Moves World.chain (p.Acts evm caller)
      (p.claimRewardsAndConvertCoin delegatorAddr maxRetrieve denom evm caller) := by
  refine .bind' (checkDelegator_acts p evm _ _ caller) fun delegatorBech32 _ _ hcheck => ?_
  obtain ⟨hcaller, hbech32⟩ := checkDelegator_caller hcheck
  rw [hcaller]
  refine .bind' (ask_moves _ (.getDelegatorValidators maxRetrieve)) fun operators _ _ _ => ?_
  refine .bind' (.foldlM' (withdrawFrom_acts p evm caller) operators _) fun totalCoins _ _ _ => ?_
  exact convertTotal_acts p evm caller hbech32 denom totalCoins

theorem emitClaimRewardsAndConvertCoinEvent_acts (p : Precompile σ Coins) {R : σ → σ → Prop}
    (blockHeight : Int) (evm : Option (Evm σ)) (delegator : EthAddress) (denom : String)
    (amount : Int) :
    Moves World.chain R
      (p.emitClaimRewardsAndConvertCoinEvent blockHeight evm delegator denom amount) := by
  unfold Precompile.emitClaimRewardsAndConvertCoinEvent
  cases evm with
  | none => exact .pure' ()
  | some vm =>
    simp only
    split
    · exact .pure' ()
    · exact .bind' (orFail_moves _) fun packed _ _ _ w => .refl

theorem perform_acts (p : Precompile σ Coins) (blockHeight : Int)
    (call : ClaimRewardsAndConvertCoinCall) (evm : Option (Evm σ)) (caller : EthAddress) :
    Moves World.chain (p.Acts evm caller) (p.perform blockHeight call evm caller) := by
  refine .bind' (.throwIf' _ _) fun _ _ _ _ => .bind' (.throwIf' _ _) fun _ _ _ _ => ?_
  refine .bind' (claimRewardsAndConvertCoin_acts p evm _ _ _ caller) fun amount _ _ _ => ?_
  refine .bind' (emitClaimRewardsAndConvertCoinEvent_acts p _ _ _ _ _) fun _ _ _ _ => ?_
  exact orFail_moves _

theorem checkDelegator_foreign (p : Precompile σ Coins) {delegatorAddr : EthAddress}
    (maxRetrieve : UInt32) (hforeign : delegatorAddr ≠ caller) (w : World σ Coins) :
    ∃ fault w', p.checkDelegator delegatorAddr maxRetrieve caller w = .error fault w' ∧
      w'.chain = (observe id (p.maxValidators w.chain)).2 := by
  unfold Precompile.checkDelegator
  cases hask : ask .maxValidators p.maxValidators w with
  | error fault w' =>
    refine ⟨fault, w', bind_eq_of_error hask, ?_⟩
    unfold ask at hask
    cases hop : p.maxValidators w.chain with
    | ok maxVals chain => simp [hop] at hask
    | error err chain =>
      simp only [hop] at hask
      cases hask
      rfl
  | ok maxVals w' =>
    obtain ⟨chain, hop, hw'⟩ := ask_ok.mp hask
    have hchain : w'.chain = (observe id (p.maxValidators w.chain)).2 := by
      rw [hop, hw']
      rfl
    rw [bind_eq_of_ok hask]
    by_cases hmax : maxRetrieve > maxVals
    · rw [throwIf_pos hmax]
      exact ⟨_, w', rfl, hchain⟩
    · rw [throwIf_neg hmax, throwIf_pos (Ne.symm hforeign)]
      exact ⟨_, w', rfl, hchain⟩

/-- A call for somebody else asks for `MaxValidators` at most, and fails. -/
theorem perform_foreign (p : Precompile σ Coins) (blockHeight : Int)
    {call : ClaimRewardsAndConvertCoinCall} (evm : Option (Evm σ))
    (hforeign : call.delegator ≠ caller) (w : World σ Coins) :
    ∃ fault w', p.perform blockHeight call evm caller w = .error fault w' ∧
      (w'.chain = w.chain ∨ w'.chain = (observe id (p.maxValidators w.chain)).2) := by
  unfold Precompile.perform
  by_cases hzero : call.delegator = .zero
  · rw [throwIf_pos hzero]
    exact ⟨_, w, rfl, .inl rfl⟩
  · by_cases hdenom : call.denom = ""
    · rw [throwIf_neg hzero, throwIf_pos hdenom]
      exact ⟨_, w, rfl, .inl rfl⟩
    · obtain ⟨fault, w', hcheck, hchain⟩ := checkDelegator_foreign p call.maxRetrieve hforeign w
      rw [throwIf_neg hzero, throwIf_neg hdenom]
      exact ⟨fault, w', bind_eq_of_error (bind_eq_of_error hcheck), .inr hchain⟩

/-- The codec has no part in the acts. -/
theorem acts_of_speaking {lib : GoAbi} {s t : σ} (h : (p.speaking lib).Acts evm caller s t) :
    p.Acts evm caller s t := by
  cases h with
  | maxValidators => exact .maxValidators s
  | getDelegatorWithdrawAddr => exact .getDelegatorWithdrawAddr s
  | getDelegatorValidators maxRetrieve => exact .getDelegatorValidators maxRetrieve s
  | withdrawDelegationRewards valAddr => exact .withdrawDelegationRewards valAddr s
  | convertCoin msg _ hpos hreceiver hsender => exact .convertCoin msg s hpos hreceiver hsender
  | underlying vm wrapper gas _ hevm => exact .underlying vm wrapper gas s hevm
  | withdrawTo wrapper amountWad data _ hdata => exact .withdrawTo wrapper amountWad data s hdata

theorem execute_acts (p : Precompile σ Coins) (lib : GoAbi) (blockHeight : Int) (input : Bytes)
    (evm : Option (Evm σ)) (caller : EthAddress) (readOnly : Bool) :
    Moves World.chain (p.Acts evm caller)
      ((p.speaking lib).execute blockHeight input evm caller readOnly) := by
  intro w
  cases execute_cases p lib blockHeight input evm caller readOnly w with
  | inl h =>
    obtain ⟨call, _, h⟩ := h
    rw [h]
    exact Relation.ReflTransGen.mono (fun _ _ => acts_of_speaking) _ _
      (perform_acts (p.speaking lib) blockHeight call evm caller w)
  | inr h =>
    obtain ⟨_, fault, h⟩ := h
    rw [h]
    exact .refl

/-! ## Runs -/

/-- A call of the precompile. -/
structure Invocation (σ : Type) where
  blockHeight : Int
  input : Bytes
  evm : Option (Evm σ)
  caller : EthAddress
  readOnly : Bool

def Precompile.run (p : Precompile σ Coins) (i : Invocation σ) : ClaimM σ Coins Bytes :=
  p.execute i.blockHeight i.input i.evm i.caller i.readOnly

/-- The call leads from one chain to another, with whatever gas it is given; one that fails may be
reverted. -/
def Precompile.Invoked (p : Precompile σ Coins) (s : σ) (i : Invocation σ) (t : σ) : Prop :=
  ∃ w : World σ Coins, w.chain = s ∧
    (t = (observe World.chain (p.run i w)).2 ∨ t = s ∧ ∃ fault w', p.run i w = .error fault w')

/-- The delegator calls for itself, in a context in which it may write. -/
def Invocation.Own (lib : GoAbi) (x : EthAddress) (i : Invocation σ) : Prop :=
  i.caller = x ∧ i.readOnly = false ∧ ∃ call, Asks lib i.input call ∧ call.delegator = x

/-- An execution that changes what only `x`'s own acts can change is a call of `x` for itself. -/
theorem own_of_change {lib : GoAbi} {x : EthAddress} {τ : Type} {holdings : σ → τ}
    (hread : ∀ s, holdings (observe id (p.maxValidators s)).2 = holdings s) {i : Invocation σ}
    (hframe : i.caller ≠ x → ∀ s t, p.Acts i.evm i.caller s t → holdings t = holdings s)
    {s t : σ} (h : (p.speaking lib).Invoked s i t) (hchanged : holdings t ≠ holdings s) :
    i.Own lib x := by
  obtain ⟨w, hw, h⟩ := h
  have ht : t = (observe World.chain ((p.speaking lib).run i w)).2 := by
    cases h with
    | inl h => exact h
    | inr h => exact absurd (congrArg holdings h.1) hchanged
  rw [ht, ← hw] at hchanged
  have hcaller : i.caller = x := by
    by_contra hne
    have hacts := execute_acts p lib i.blockHeight i.input i.evm i.caller i.readOnly w
    apply hchanged
    refine Relation.ReflTransGen.head_induction_on hacts rfl fun hact _ ih => ?_
    rw [ih, hframe hne _ _ hact]
  unfold Precompile.run at hchanged
  cases execute_cases p lib i.blockHeight i.input i.evm i.caller i.readOnly w with
  | inr hrefused =>
    obtain ⟨_, fault, hrun⟩ := hrefused
    rw [hrun] at hchanged
    exact absurd rfl hchanged
  | inl hrun =>
    obtain ⟨call, ⟨hwrite, hcall⟩, hrun⟩ := hrun
    refine ⟨hcaller, hwrite, call, hcall, ?_⟩
    by_contra hforeign
    rw [← hcaller] at hforeign
    obtain ⟨fault, w', hperform, hchain⟩ :=
      perform_foreign (p.speaking lib) i.blockHeight i.evm hforeign w
    rw [hrun, hperform] at hchanged
    apply hchanged
    cases hchain with
    | inl hsame => exact congrArg holdings hsame
    | inr hasked => exact (congrArg holdings hasked).trans (hread w.chain)

/-- Whatever an execution is given, and however it ends, it takes the chain through acts in the
name of its caller. So over any run of calls of the precompile, what neither a look at the number
of validators nor an act of another caller changes stays as it is, unless the account itself calls
for itself. -/
theorem custody (p : Precompile σ Coins) (lib : GoAbi) :
    (∀ (i : Invocation σ) (w : World σ Coins),
      Relation.ReflTransGen (p.Acts i.evm i.caller) w.chain
        (observe World.chain ((p.speaking lib).run i w)).2) ∧
    ∀ (x : EthAddress) {τ : Type} (holdings : σ → τ) (is : List (Invocation σ)),
      (∀ s, holdings (observe id (p.maxValidators s)).2 = holdings s) →
      (∀ i ∈ is, i.caller ≠ x → ∀ s t, p.Acts i.evm i.caller s t → holdings t = holdings s) →
      ∀ s t, Steps (p.speaking lib).Invoked s is t → holdings t ≠ holdings s →
        ∃ i ∈ is, i.Own lib x := by
  refine ⟨fun i w => execute_acts p lib _ _ _ _ _ w, ?_⟩
  intro x τ holdings is hread hframe s t h hchanged
  by_contra hnone
  apply hchanged
  refine h.invariant (fun u => holdings u = holdings s) ?_ rfl
  intro u i v hi hu hstep
  by_contra hv
  have hown := own_of_change hread (hframe i hi) hstep fun h => hv (h.trans hu)
  exact hnone ⟨i, hi, hown⟩

end

/-! ## Two delegators -/

/-- The chain keeps a list of the delegators whose rewards were withdrawn. -/
def ledgerPrecompile : Precompile (List Address) (List (String × Int)) where
  contractAddress := samplePrecompile.contractAddress
  codec := arkCodec
  bytesToString := samplePrecompile.bytesToString
  valAddressFromBech32 := samplePrecompile.valAddressFromBech32
  coins := sdkCoins
  formats := samplePrecompile.formats
  maxValidators := pure 100
  getDelegatorWithdrawAddr := pure
  getDelegatorValidators _ _ := pure [operatorAddress 1]
  withdrawDelegationRewards delAddr _ := do
    modify (delAddr :: ·)
    return [("aom", 3)]
  convertCoin _ := pure ()
  evmKeeper :=
    { callEVMWithData := fun _ _ _ _ _ chain => ((none, some "execution reverted"), chain) }
  decode := samplePrecompile.decode
  encode := samplePrecompile.encode
  pack := samplePrecompile.pack
  claimRewardsAndConvertCoinEventID := samplePrecompile.claimRewardsAndConvertCoinEventID

def claimOf (n : UInt8) : ClaimRewardsAndConvertCoinCall :=
  { delegator := .ofBytes [n], maxRetrieve := 5, denom := "aom" }

/-- Account `n` claims its rewards. -/
def ownClaim (n : UInt8) : Invocation (List Address) where
  blockHeight := 1
  input := claimRewardsAndConvertCoinSelector ++ (claimOf n).words ++ []
  evm := none
  caller := .ofBytes [n]
  readOnly := false

def ledgerStart (chain : List Address) : World (List Address) (List (String × Int)) :=
  { chain, gas := 1000000, calls := [], probes := [], logs := [] }

theorem ownClaim_invoked {n : UInt8} {chain chain' : List Address}
    (h : (observe World.chain ((ledgerPrecompile.speaking goAbi).perform 1 (claimOf n) none
      (.ofBytes [n]) (ledgerStart chain))).2 = chain') :
    (ledgerPrecompile.speaking goAbi).Invoked chain (ownClaim n) chain' := by
  have hshort : Short "aom" := by
    unfold Short
    decide
  refine ⟨ledgerStart chain, rfl, .inl ?_⟩
  rw [← h]
  exact congrArg (fun r => (observe World.chain r).2)
    (execute_asked (asks_encoded goAbi_lawful (claimOf n) hshort []) 1 none _ _).symm

theorem ledger_frame {caller x : EthAddress} (hne : caller ≠ x) {s t : List Address}
    (h : ledgerPrecompile.Acts none caller s t) : t.count x.bytes = s.count x.bytes := by
  cases h with
  | maxValidators => rfl
  | getDelegatorWithdrawAddr => rfl
  | getDelegatorValidators maxRetrieve => rfl
  | withdrawDelegationRewards valAddr =>
    have hbytes : caller.bytes ≠ x.bytes := by
      intro h
      apply hne
      cases caller
      cases x
      simpa using h
    exact List.count_cons_of_ne hbytes
  | convertCoin msg => rfl
  | underlying vm wrapper gas _ hevm => cases hevm
  | withdrawTo wrapper amountWad data => rfl

set_option maxRecDepth 4000 in
/-- Account 5 claims, then account 9: the second withdrawal is account 9's own. -/
theorem ledger_own :
    ∃ i ∈ [ownClaim 5, ownClaim 9], i.Own goAbi (.ofBytes [9]) := by
  have h₅ : (ledgerPrecompile.speaking goAbi).Invoked [] (ownClaim 5)
      [(EthAddress.ofBytes [5]).bytes] := ownClaim_invoked rfl
  have h₉ : (ledgerPrecompile.speaking goAbi).Invoked [(EthAddress.ofBytes [5]).bytes] (ownClaim 9)
      [(EthAddress.ofBytes [9]).bytes, (EthAddress.ofBytes [5]).bytes] := ownClaim_invoked rfl
  refine (custody ledgerPrecompile goAbi).2 (.ofBytes [9])
    (fun s => s.count (EthAddress.ofBytes [9]).bytes) [ownClaim 5, ownClaim 9] (fun _ => rfl) ?_
    [] _ (.cons h₅ (.cons h₉ (.nil _))) (by decide)
  intro i hi hne s t hact
  have hevm : i.evm = none := by
    rcases List.mem_cons.mp hi with h | h
    · rw [h]
      rfl
    · rw [List.mem_singleton.mp h]
      rfl
  rw [hevm] at hact
  exact ledger_frame hne hact

end Ark.DistrClaim
