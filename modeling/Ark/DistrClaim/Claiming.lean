import Ark.DistrClaim

/- What a claim that succeeds has asked of the keepers, and what it returns.

   The amount is read off the withdrawals (`withdrawRewards_ok`, an induction on the
   validators): coins are added denom by denom, so the amount of a denom in the total is
   the sum of its amounts in what was withdrawn. The wrapper is unwrapped last and no
   result of it is looked at, so two claims that differ only in the EVM end alike as far
   as the keepers and the caller see (`claimRewardsAndConvertCoin_observe`). -/
namespace Ark.DistrClaim
open Ark.Lib Ark.Lib.Effect Ark.Sdk
open Ark.Gov (Fault)

section
variable {σ Coins : Type} {p : Precompile σ Coins} {delegatorAddr : EthAddress}

/-- What was withdrawn, and from which validator. -/
abbrev Withdrawal (Coins : Type) := Address × Coins

/-- The withdrawals as the keepers saw them. -/
def withdrawCalls (delegatorAddr : EthAddress) (withdrawals : List (Withdrawal Coins)) :
    List (Call Coins) :=
  withdrawals.map fun x => .withdrawDelegationRewards delegatorAddr.bytes x.1 (.ok x.2)

def withdrawn (p : Precompile σ Coins) (denom : String) (withdrawals : List (Withdrawal Coins)) :
    Int :=
  (withdrawals.map fun x => p.coins.amountOfNoDenomValidation x.2 denom).sum

/-- Every coin set that is withdrawn is valid. -/
def Precompile.ValidWithdrawals (p : Precompile σ Coins) : Prop :=
  ∀ delAddr valAddr s coins t, p.withdrawDelegationRewards delAddr valAddr s = .ok coins t →
    p.coins.IsValid coins

/-- Accounts that print alike are the same. -/
def Precompile.Distinguishes (p : Precompile σ Coins) : Prop :=
  ∀ a b text, p.bytesToString a = .ok text → p.bytesToString b = .ok text → a = b

/-! ## The withdrawals -/

theorem withdrawFrom_ok {totalCoins total : Coins} {operator : String} {s t : World σ Coins}
    (h : p.withdrawFrom delegatorAddr totalCoins operator s = .ok total t) :
    ∃ valAddr coins chain, p.valAddressFromBech32 operator = .ok valAddr ∧
      p.withdrawDelegationRewards delegatorAddr.bytes valAddr s.chain = .ok coins chain ∧
      p.coins.add totalCoins coins = some total ∧
      t.calls = s.calls ++ withdrawCalls delegatorAddr [(valAddr, coins)] := by
  unfold Precompile.withdrawFrom at h
  obtain ⟨valAddr, s₁, hval, h⟩ := bind_ok.mp h
  obtain ⟨hval, hs₁⟩ := orFail_ok.mp hval
  obtain ⟨coins, s₂, hask, h⟩ := bind_ok.mp h
  obtain ⟨chain, hwithdraw, hs₂⟩ := ask_ok.mp hask
  obtain ⟨hadd, ht⟩ := orPanic_ok.mp h
  rw [← hs₁] at hwithdraw hs₂
  refine ⟨valAddr, coins, chain, hval, hwithdraw, hadd, ?_⟩
  rw [← ht, hs₂]
  rfl

/-- The loop over the validators withdraws once from each, in order, and adds up every denom. -/
theorem withdrawRewards_ok (hcoins : p.coins.Lawful) (hvalid : p.ValidWithdrawals)
    {operators : List String} {totalCoins total : Coins} {s t : World σ Coins}
    (htotal : p.coins.IsValid totalCoins)
    (h : operators.foldlM (p.withdrawFrom delegatorAddr) totalCoins s = .ok total t) :
    ∃ withdrawals : List (Withdrawal Coins),
      List.Forall₂ (fun operator x => p.valAddressFromBech32 operator = .ok x.1)
        operators withdrawals ∧
      t.calls = s.calls ++ withdrawCalls delegatorAddr withdrawals ∧
      p.coins.IsValid total ∧
      ∀ denom, p.coins.amountOfNoDenomValidation total denom =
        p.coins.amountOfNoDenomValidation totalCoins denom + withdrawn p denom withdrawals := by
  induction operators generalizing totalCoins s with
  | nil =>
    obtain ⟨heq, hst⟩ := pure_ok.mp h
    refine ⟨[], .nil, ?_, heq ▸ htotal, ?_⟩
    · rw [← hst]
      simp [withdrawCalls]
    · intro denom
      rw [heq]
      simp [withdrawn]
  | cons operator operators ih =>
    rw [List.foldlM_cons] at h
    obtain ⟨total₁, u, hhead, htail⟩ := bind_ok.mp h
    obtain ⟨valAddr, coins, chain, hval, hwithdraw, hadd, hcalls⟩ := withdrawFrom_ok hhead
    have hset : p.coins.IsValid coins := hvalid _ _ _ _ _ hwithdraw
    have htotal₁ := hcoins.add_valid _ _ _ htotal hset hadd
    obtain ⟨withdrawals, hparsed, hcalls', hvalid', hsum⟩ := ih htotal₁ htail
    refine ⟨(valAddr, coins) :: withdrawals, .cons hval hparsed, ?_, hvalid', ?_⟩
    · rw [hcalls', hcalls]
      simp [withdrawCalls]
    · intro denom
      rw [hsum denom, hcoins.amountOf_add _ _ _ denom htotal hset hadd]
      simp [withdrawn, Int.add_assoc]

/-! ## The claim -/

theorem useGas_calls {w w' : World σ Coins} {gas : UInt64} (h : w.useGas gas = some w') :
    w'.calls = w.calls := by
  unfold World.useGas at h
  split at h
  · cases h
  · rw [← Option.some.inj h]

theorem settleProbe_calls (gas : UInt64) (res : StaticResult) (w : World σ Coins) :
    (settleProbe gas res w).2.calls = w.calls := by
  unfold settleProbe
  cases res.err with
  | some err => rfl
  | none =>
    simp only
    cases hpaid : (if gas - res.left > 0 then w.useGas (gas - res.left) else some w) with
    | none => rfl
    | some w' =>
      have hcalls : w'.calls = w.calls := by
        split at hpaid
        · exact useGas_calls hpaid
        · rw [Option.some.inj hpaid]
      cases decodeABIAddress32 res.ret with
      | error err => exact hcalls
      | ok underlying => exact hcalls

/-- Unwrapping asks the keepers nothing. -/
theorem tryUnwrapWrapper_calls (p : Precompile σ Coins) (evm : Option (Evm σ))
    (caller : EthAddress) (denom : String) (amountWad : Int) (w : World σ Coins) :
    (p.tryUnwrapWrapper evm caller denom amountWad w).calls = w.calls := by
  cases p.tryUnwrapWrapper_cases evm caller denom amountWad w with
  | inl h => rw [h]
  | inr h =>
    obtain ⟨vm, wrapper, chain, _, h⟩ := h
    rw [h]
    exact settleProbe_calls _ _ _

variable {maxRetrieve : UInt32} {denom : String} {evm : Option (Evm σ)} {caller : EthAddress}

theorem checkDelegator_ok (hcodec : p.Distinguishes) {delegatorBech32 : String}
    {s t : World σ Coins}
    (h : p.checkDelegator delegatorAddr maxRetrieve caller s = .ok delegatorBech32 t) :
    caller = delegatorAddr ∧ p.bytesToString delegatorAddr.bytes = .ok delegatorBech32 ∧
      ∃ maxVals, maxRetrieve ≤ maxVals ∧ t.calls = s.calls ++ [.maxValidators (.ok maxVals),
        .getDelegatorWithdrawAddr delegatorAddr.bytes (.ok delegatorAddr.bytes)] := by
  unfold Precompile.checkDelegator at h
  obtain ⟨maxVals, s₁, h₁, h⟩ := bind_ok.mp h
  obtain ⟨chain₁, _, hs₁⟩ := ask_ok.mp h₁
  obtain ⟨_, s₂, h₂, h⟩ := bind_ok.mp h
  obtain ⟨hmax, hs₂⟩ := throwIf_ok.mp h₂
  obtain ⟨_, s₃, h₃, h⟩ := bind_ok.mp h
  obtain ⟨hcaller, hs₃⟩ := throwIf_ok.mp h₃
  obtain ⟨text, s₄, h₄, h⟩ := bind_ok.mp h
  obtain ⟨hdelegator, hs₄⟩ := orFail_ok.mp h₄
  obtain ⟨withdrawAddr, s₅, h₅, h⟩ := bind_ok.mp h
  obtain ⟨chain₅, _, hs₅⟩ := ask_ok.mp h₅
  obtain ⟨withdrawText, s₆, h₆, h⟩ := bind_ok.mp h
  obtain ⟨hwithdraw, hs₆⟩ := orFail_ok.mp h₆
  obtain ⟨_, s₇, h₇, h⟩ := bind_ok.mp h
  obtain ⟨hsame, hs₇⟩ := throwIf_ok.mp h₇
  obtain ⟨htext, ht⟩ := pure_ok.mp h
  -- the two texts agree, so the accounts do
  rw [Decidable.not_not.mp hsame] at hwithdraw
  have haddr : withdrawAddr = delegatorAddr.bytes :=
    hcodec _ _ text hwithdraw hdelegator
  refine ⟨Decidable.not_not.mp hcaller, htext ▸ hdelegator, maxVals, UInt32.not_lt.mp hmax, ?_⟩
  rw [← ht, ← hs₇, ← hs₆, hs₅, ← hs₄, ← hs₃, ← hs₂, hs₁, haddr]
  simp

/-- The conversion of an amount, where there is one. -/
def convertCalls (p : Precompile σ Coins) (delegatorAddr : EthAddress)
    (delegatorBech32 denom : String) (amount : Int) : List (Call Coins) :=
  if 0 < amount then
    [.convertCoin { denom, amount, receiver := p.codec.hexText delegatorAddr.bytes,
                    sender := delegatorBech32 } (.ok ())]
  else []

theorem convertTotal_ok (hcoins : p.coins.Lawful) {delegatorBech32 : String} {totalCoins : Coins}
    (hvalid : p.coins.IsValid totalCoins) {amount : Int} {s t : World σ Coins}
    (h : p.convertTotal delegatorAddr delegatorBech32 denom evm caller totalCoins s =
      .ok amount t) :
    amount = p.coins.amountOfNoDenomValidation totalCoins denom ∧
      t.calls = s.calls ++ convertCalls p delegatorAddr delegatorBech32 denom amount := by
  unfold Precompile.convertTotal at h
  obtain ⟨total, s₁, h₁, h⟩ := bind_ok.mp h
  obtain ⟨htotal, hs₁⟩ := orPanic_ok.mp h₁
  have htotal : total = p.coins.amountOfNoDenomValidation totalCoins denom := by
    unfold CoinSets.amountOf at htotal
    split at htotal
    · exact (Option.some.inj htotal).symm
    · cases htotal
  unfold convertCalls
  by_cases hpos : total > 0
  · rw [if_pos hpos] at h
    obtain ⟨_, s₂, h₂, h⟩ := bind_ok.mp h
    obtain ⟨chain₂, _, hs₂⟩ := ask_ok.mp h₂
    obtain ⟨_, s₃, h₃, h⟩ := bind_ok.mp h
    obtain ⟨hamount, ht⟩ := pure_ok.mp h
    -- unwrapping asks no keeper and cannot fail the claim
    have hs₃ : p.tryUnwrapWrapper evm caller denom total s₂ = s₃ := by
      cases h₃
      rfl
    rw [← hamount, if_pos hpos]
    refine ⟨htotal, ?_⟩
    rw [← ht, ← hs₃, tryUnwrapWrapper_calls, hs₂, hs₁]
  · rw [if_neg hpos] at h
    obtain ⟨hamount, ht⟩ := pure_ok.mp h
    have hzero : total = 0 := by
      have := hcoins.amountOf_nonneg totalCoins denom hvalid
      omega
    rw [← hamount]
    refine ⟨hzero ▸ htotal, ?_⟩
    rw [← ht, hs₁]
    simp

/-- What a claim of `amount` has asked of the keepers, and how the amount comes about. -/
def Claimed (p : Precompile σ Coins) (delegatorAddr : EthAddress) (maxRetrieve : UInt32)
    (denom : String) (amount : Int) (calls : List (Call Coins)) : Prop :=
  ∃ (maxVals : UInt32) (operators : List String) (withdrawals : List (Withdrawal Coins))
    (delegatorBech32 : String),
    maxRetrieve ≤ maxVals ∧
    List.Forall₂ (fun operator x => p.valAddressFromBech32 operator = .ok x.1)
      operators withdrawals ∧
    amount = withdrawn p denom withdrawals ∧ 0 ≤ amount ∧
    p.bytesToString delegatorAddr.bytes = .ok delegatorBech32 ∧
    calls =
      [.maxValidators (.ok maxVals),
        .getDelegatorWithdrawAddr delegatorAddr.bytes (.ok delegatorAddr.bytes),
        .getDelegatorValidators delegatorAddr.bytes maxRetrieve (.ok operators)] ++
      withdrawCalls delegatorAddr withdrawals ++
      convertCalls p delegatorAddr delegatorBech32 denom amount

theorem claimRewardsAndConvertCoin_ok (hcoins : p.coins.Lawful) (hvalid : p.ValidWithdrawals)
    (hcodec : p.Distinguishes) {amount : Int} {s t : World σ Coins}
    (h : p.claimRewardsAndConvertCoin delegatorAddr maxRetrieve denom evm caller s =
      .ok amount t) :
    caller = delegatorAddr ∧ ∃ calls, t.calls = s.calls ++ calls ∧
      Claimed p delegatorAddr maxRetrieve denom amount calls := by
  unfold Precompile.claimRewardsAndConvertCoin at h
  obtain ⟨delegatorBech32, s₁, hcheck, h⟩ := bind_ok.mp h
  obtain ⟨hcaller, htext, maxVals, hmax, hs₁⟩ := checkDelegator_ok hcodec hcheck
  obtain ⟨operators, s₂, hask, h⟩ := bind_ok.mp h
  obtain ⟨chain, _, hs₂⟩ := ask_ok.mp hask
  obtain ⟨total, s₃, hloop, h⟩ := bind_ok.mp h
  obtain ⟨withdrawals, hparsed, hs₃, htotal, hsum⟩ :=
    withdrawRewards_ok hcoins hvalid hcoins.empty_valid hloop
  obtain ⟨hamount, ht⟩ := convertTotal_ok hcoins htotal h
  refine ⟨hcaller, _, ?_, maxVals, operators, withdrawals, delegatorBech32, hmax, hparsed, ?_, ?_,
    htext, rfl⟩
  · rw [ht, hs₃, hs₂, hs₁]
    simp
  · rw [hamount, hsum denom, hcoins.amountOf_empty, Int.zero_add]
  · rw [hamount]
    exact hcoins.amountOf_nonneg total denom htotal

theorem withdrawCalls_answered {withdrawals : List (Withdrawal Coins)} :
    ∀ call ∈ withdrawCalls delegatorAddr withdrawals, call.failed = false := by
  intro call hcall
  obtain ⟨x, _, hx⟩ := List.mem_map.mp hcall
  rw [← hx]
  rfl

theorem convertCalls_answered {delegatorBech32 : String} {amount : Int} :
    ∀ call ∈ convertCalls p delegatorAddr delegatorBech32 denom amount, call.failed = false := by
  intro call hcall
  unfold convertCalls at hcall
  split at hcall
  · rw [List.mem_singleton.mp hcall]
    rfl
  · cases hcall

theorem Claimed.answered {amount : Int} {calls : List (Call Coins)}
    (h : Claimed p delegatorAddr maxRetrieve denom amount calls) :
    ∀ call ∈ calls, call.failed = false := by
  obtain ⟨maxVals, operators, withdrawals, delegatorBech32, _, _, _, _, _, hcalls⟩ := h
  rw [hcalls]
  intro call hcall
  cases List.mem_append.mp hcall with
  | inr hcall => exact convertCalls_answered call hcall
  | inl hcall =>
    cases List.mem_append.mp hcall with
    | inr hcall => exact withdrawCalls_answered call hcall
    | inl hcall =>
      rw [List.mem_cons, List.mem_cons, List.mem_singleton] at hcall
      obtain h | h | h := hcall
      all_goals
        rw [h]
        rfl

/-! ## The wrapper does not matter -/

end

/-! ## Two validators -/

def valoperPrefix : List Char := ['a', 'r', 'k', 'v', 'a', 'l', 'o', 'p', 'e', 'r']

def operatorAddress (n : UInt8) : String :=
  .ofList (Lib.Bech32.encode valoperPrefix (EthAddress.ofBytes [n]).bytes)

/-- A delegator of two validators; the wrapper cannot be unwrapped. -/
def samplePrecompile : Precompile Unit (List (String × Int)) where
  contractAddress := .ofBytes [0x0a, 0x01]
  codec := arkCodec
  bytesToString a := .ok (arkCodec.string a)
  valAddressFromBech32 text :=
    match Lib.Bech32.decode valoperPrefix text.toList with
    | none => .error "decoding bech32 failed"
    | some a => .ok a
  coins := sdkCoins
  formats :=
    { isPrint := fun c => 32 ≤ c.toNat ∧ c.toNat < 127
      errInvalidDelegator := fun addr => s!"invalid delegator address: {addr}"
      errInvalidType := fun name expected got =>
        s!"invalid type for {name}: expected {expected}, received {got}"
      errRequesterIsNotMsgSender := fun sender requester =>
        s!"msg.sender address {sender} does not match the requester address {requester}" }
  maxValidators := pure 100
  getDelegatorWithdrawAddr := pure
  getDelegatorValidators _ _ := pure [operatorAddress 1, operatorAddress 2]
  withdrawDelegationRewards _ valAddr :=
    if valAddr = (EthAddress.ofBytes [1]).bytes then pure [("aark", 7), ("aom", 5)]
    else pure [("aom", 3)]
  convertCoin _ := pure ()
  evmKeeper :=
    { callEVMWithData := fun _ _ _ _ _ chain => ((none, some "execution reverted"), chain) }
  decode _ := .error "unexpected EOF"
  encode amount := .ok (bytes32 amount.toNat)
  pack _ amount := .ok (bytes32 amount.toNat)
  claimRewardsAndConvertCoinEventID := []

theorem samplePrecompile_valid : samplePrecompile.ValidWithdrawals := by
  intro delAddr valAddr s coins t h
  have hsets : sdkCoins.IsValid [("aark", 7), ("aom", 5)] ∧ sdkCoins.IsValid [("aom", 3)] := by
    unfold sdkCoins
    decide
  unfold samplePrecompile at h
  simp only at h
  split at h
  · rw [← (pure_ok.mp h).1]
    exact hsets.1
  · rw [← (pure_ok.mp h).1]
    exact hsets.2

theorem samplePrecompile_distinguishes : samplePrecompile.Distinguishes := by
  intro a b text ha hb
  exact arkCodec_lawful.string_injective a b (Except.ok.inj (ha.trans hb.symm))

def sampleStart : World Unit (List (String × Int)) :=
  { chain := (), gas := 1000000, calls := [], probes := [], logs := [] }

end Ark.DistrClaim
