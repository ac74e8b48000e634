import Ark.DistrClaim

/- What the wrapper probe pays. The gas of a static call is charged after the call, and
   a call that returns an error ends the probe before that: the contract keeps the gas
   that a failing call burned (`evmGetUnderlyingERC20Wrapper_probe`). So a probe is paid
   for when its call is `Harmless`, and only then (`pays_iff`). -/
namespace Ark.DistrClaim

/-- The gas that a static call burned. -/
def Probe.burned (probe : Probe) : Nat := probe.supplied.toNat - probe.result.left.toNat

/-- The call returned no error, or burned nothing. -/
def Probe.Harmless (probe : Probe) : Prop :=
  probe.result.err = none ∨ probe.result.left = probe.supplied

/-- Not more gas is left over than was given. -/
def Evm.Bounded {σ : Type} (evm : Evm σ) : Prop :=
  ∀ caller addr data gas chain, (evm.staticCall caller addr data gas chain).1.left ≤ gas

section
variable {σ Coins : Type} {evm : Evm σ} {caller wrapper : EthAddress} {w : World σ Coins}

theorem probeGas_le (w : World σ Coins) : w.probeGas ≤ w.gas := by
  unfold World.probeGas
  split
  · exact UInt64.le_of_lt ‹_›
  · exact UInt64.le_refl w.gas

/-! ## One probe -/

theorem settleProbe_err {gas : UInt64} {res : StaticResult} {err : String}
    (herr : res.err = some err) :
    settleProbe gas res w = (.error (.wrapper (wrapERC20WrapperUnderlyingError err)), w) := by
  unfold settleProbe
  rw [herr]

/-- A call without an error is charged; nothing that comes after it changes the gas. -/
theorem settleProbe_ok {gas : UInt64} {res : StaticResult} (herr : res.err = none)
    (hleft : res.left ≤ gas) (hgas : gas ≤ w.gas) :
    ∃ out : Except ERC20WrapperMethodError EthAddress,
      settleProbe gas res w = (out.mapError .wrapper, { w with gas := w.gas - (gas - res.left) }) ∧
        (w.gas - (gas - res.left)).toNat + (gas.toNat - res.left.toNat) = w.gas.toNat := by
  have hleft' := UInt64.le_iff_toNat_le.mp hleft
  have hgas' := UInt64.le_iff_toNat_le.mp hgas
  have hused : (gas - res.left).toNat = gas.toNat - res.left.toNat :=
    UInt64.toNat_sub_of_le gas res.left hleft
  have hle : gas - res.left ≤ w.gas := UInt64.le_iff_toNat_le.mpr (by omega)
  have hpaid : (if gas - res.left > 0 then w.useGas (gas - res.left) else some w) =
      some { w with gas := w.gas - (gas - res.left) } := by
    by_cases hpos : gas - res.left > 0
    · rw [if_pos hpos]
      unfold World.useGas
      rw [if_neg (UInt64.not_lt.mpr hle)]
    · rw [if_neg hpos]
      have hzero : gas - res.left = 0 := UInt64.le_antisymm (UInt64.not_lt.mp hpos) (by simp)
      rw [hzero, UInt64.sub_zero]
  refine ⟨(decodeABIAddress32 res.ret).mapError wrapERC20WrapperUnderlyingError, ?_, ?_⟩
  · unfold settleProbe
    rw [herr]
    simp only [hpaid]
    cases decodeABIAddress32 res.ret with
    | ok underlying => rfl
    | error err => rfl
  · rw [UInt64.toNat_sub_of_le _ _ hle]
    omega

/-- The static call of a probe. -/
def World.probe (evm : Evm σ) (caller wrapper : EthAddress) (w : World σ Coins) : Probe :=
  ⟨w.probeGas, (evm.staticCall caller wrapper erc20WrapperUnderlyingCallData w.probeGas w.chain).1⟩

/-- From `w` to `w'` the contract pays for the static calls in `probes`, exactly. -/
def World.Pays (w w' : World σ Coins) (probes : List Probe) : Prop :=
  w'.gas.toNat + (probes.map Probe.burned).sum = w.gas.toNat

theorem pays_nil {w' : World σ Coins} (h : w'.gas = w.gas) : w.Pays w' [] := by
  unfold World.Pays
  rw [h]
  simp

/-- What a probe records, and what the contract has left after it. -/
theorem evmGetUnderlyingERC20Wrapper_probe (hevm : evm.Bounded) (caller wrapper : EthAddress)
    (w : World σ Coins) :
    let probe := w.probe evm caller wrapper
    let out := evmGetUnderlyingERC20Wrapper evm caller wrapper w
    out.2.probes = w.probes ++ [probe] ∧ out.1 ≠ .error .outOfGas ∧
      (probe.result.err = none → w.Pays out.2 [probe]) ∧
      (probe.result.err ≠ none → out.2.gas = w.gas) := by
  intro probe out
  have hleft : probe.result.left ≤ w.probeGas := hevm caller wrapper _ w.probeGas w.chain
  have hout : out = settleProbe w.probeGas probe.result
      { w with
        chain :=
          (evm.staticCall caller wrapper erc20WrapperUnderlyingCallData w.probeGas w.chain).2
        probes := w.probes ++ [probe] } := rfl
  cases herr : probe.result.err with
  | some err =>
    rw [hout, settleProbe_err herr]
    refine ⟨rfl, ?_, fun h => absurd h (Option.some_ne_none err), fun _ => rfl⟩
    intro h
    cases Except.error.inj h
  | none =>
    obtain ⟨res, hres, hgas⟩ := settleProbe_ok (w := { w with
      chain := (evm.staticCall caller wrapper erc20WrapperUnderlyingCallData w.probeGas w.chain).2
      probes := w.probes ++ [probe] }) herr hleft (probeGas_le w)
    rw [hout, hres]
    refine ⟨rfl, ?_, fun _ => ?_, fun h => absurd rfl h⟩
    · intro h
      cases res with
      | ok underlying => cases h
      | error err => cases Except.error.inj h
    · unfold World.Pays
      rw [List.map_singleton, List.sum_singleton]
      exact hgas

/-- A call is paid for where it is harmless, and only there. -/
theorem pays_iff {w' : World σ Coins} {probe : Probe} (hleft : probe.result.left ≤ probe.supplied)
    (hok : probe.result.err = none → w.Pays w' [probe])
    (herr : probe.result.err ≠ none → w'.gas = w.gas) :
    w.Pays w' [probe] ↔ probe.Harmless := by
  have hleft' := UInt64.le_iff_toNat_le.mp hleft
  constructor
  · intro hpays
    by_cases h : probe.result.err = none
    · exact .inl h
    · right
      unfold World.Pays Probe.burned at hpays
      rw [herr h, List.map_singleton, List.sum_singleton] at hpays
      exact UInt64.toNat_inj.mp (by omega)
  · intro hharmless
    by_cases h : probe.result.err = none
    · exact hok h
    · have hall : probe.result.left = probe.supplied := hharmless.resolve_left h
      have hnone : probe.burned = 0 := by
        unfold Probe.burned
        rw [hall, Nat.sub_self]
      unfold World.Pays
      rw [herr h, List.map_singleton, List.sum_singleton, hnone, Nat.add_zero]

theorem World.Pays.le {w' : World σ Coins} {probes : List Probe} (h : w.Pays w' probes) :
    w'.gas ≤ w.gas := by
  unfold World.Pays at h
  exact UInt64.le_iff_toNat_le.mpr (by omega)

/-! ## Unwrapping -/

/-- An unwrapping probes once, or not at all; the gas is what the probe left. -/
theorem tryUnwrapWrapper_probes (p : Precompile σ Coins) (evm : Option (Evm σ))
    (caller : EthAddress) (denom : String) (amountWad : Int) (w : World σ Coins) :
    ((p.tryUnwrapWrapper evm caller denom amountWad w).probes = w.probes ∧
      (p.tryUnwrapWrapper evm caller denom amountWad w).gas = w.gas) ∨
    ∃ vm wrapper, evm = some vm ∧
      (p.tryUnwrapWrapper evm caller denom amountWad w).probes =
        (evmGetUnderlyingERC20Wrapper vm caller wrapper w).2.probes ∧
      (p.tryUnwrapWrapper evm caller denom amountWad w).gas =
        (evmGetUnderlyingERC20Wrapper vm caller wrapper w).2.gas := by
  cases p.tryUnwrapWrapper_cases evm caller denom amountWad w with
  | inl h => exact .inl ⟨by rw [h], by rw [h]⟩
  | inr h =>
    obtain ⟨vm, wrapper, chain, hvm, h⟩ := h
    exact .inr ⟨vm, wrapper, hvm, by rw [h], by rw [h]⟩

/-- A probe is paid for exactly where its call returns no error or burns nothing; the gas never
underflows and the probe is never out of gas. So an unwrapping pays for its static calls exactly
where each of them is harmless. -/
theorem probe_pays_iff_harmless (evm : Option (Evm σ)) (hevm : ∀ vm ∈ evm, vm.Bounded) :
    (∀ vm ∈ evm, ∀ (caller wrapper : EthAddress) (w : World σ Coins),
      let out := evmGetUnderlyingERC20Wrapper vm caller wrapper w
      (w.Pays out.2 [w.probe vm caller wrapper] ↔ (w.probe vm caller wrapper).Harmless) ∧
        out.2.gas ≤ w.gas ∧ out.1 ≠ .error .outOfGas) ∧
    ∀ (p : Precompile σ Coins) (caller : EthAddress) (denom : String) (amountWad : Int)
      (w : World σ Coins),
      let w' := p.tryUnwrapWrapper evm caller denom amountWad w
      ∃ probes, w'.probes = w.probes ++ probes ∧
        (w.Pays w' probes ↔ ∀ probe ∈ probes, probe.Harmless) := by
  have hprobe : ∀ vm ∈ evm, ∀ (caller wrapper : EthAddress) (w w' : World σ Coins),
      w'.gas = (evmGetUnderlyingERC20Wrapper vm caller wrapper w).2.gas →
      (w.Pays w' [w.probe vm caller wrapper] ↔ (w.probe vm caller wrapper).Harmless) := by
    intro vm hvm caller wrapper w w' hgas
    obtain ⟨_, _, hok, herr⟩ := evmGetUnderlyingERC20Wrapper_probe (hevm vm hvm) caller wrapper w
    apply pays_iff (hevm vm hvm caller wrapper _ w.probeGas w.chain)
    · intro h
      unfold World.Pays
      rw [hgas]
      exact hok h
    · intro h
      exact hgas.trans (herr h)
  constructor
  · intro vm hvm caller wrapper w
    obtain ⟨_, hoog, hok, herr⟩ :=
      evmGetUnderlyingERC20Wrapper_probe (hevm vm hvm) caller wrapper w
    refine ⟨hprobe vm hvm caller wrapper w _ rfl, ?_, hoog⟩
    by_cases h : (w.probe vm caller wrapper).result.err = none
    · exact (hok h).le
    · exact UInt64.le_of_eq (herr h)
  · intro p caller denom amountWad w
    cases tryUnwrapWrapper_probes p evm caller denom amountWad w with
    | inl h =>
      refine ⟨[], by rw [h.1, List.append_nil], ?_⟩
      simp [pays_nil h.2]
    | inr h =>
      obtain ⟨vm, wrapper, hvm, hprobes, hgas⟩ := h
      obtain ⟨hrecord, _⟩ := evmGetUnderlyingERC20Wrapper_probe (hevm vm hvm) caller wrapper w
      refine ⟨[w.probe vm caller wrapper], hprobes.trans hrecord, ?_⟩
      rw [hprobe vm hvm caller wrapper w _ hgas]
      simp

end

/-! ## A wrapper that fails -/

/-- Every static call burns all its gas and returns `ret` and `err`. -/
def drainingEvm (ret : Bytes) (err : Option String) : Evm Unit where
  staticCall _ _ _ _ chain := (⟨ret, 0, err⟩, chain)
  hasStateDB := true

theorem drainingEvm_bounded (ret : Bytes) (err : Option String) :
    (drainingEvm ret err).Bounded := by
  intro caller addr data gas chain
  exact UInt64.le_iff_toNat_le.mpr (Nat.zero_le gas.toNat)

/-- A contract with 300000 gas. -/
def richCaller : World Unit Unit :=
  { chain := (), gas := 300000, calls := [], probes := [], logs := [] }

/-- `underlying()` runs into an invalid opcode: 200000 gas are burned and nothing is paid. -/
theorem probe_free_on_error :
    let evm := drainingEvm [] (some "invalid opcode: INVALID")
    let out := evmGetUnderlyingERC20Wrapper evm .zero .zero richCaller
    evm.Bounded ∧ (richCaller.probe evm .zero .zero).burned = 200000 ∧ out.2.gas = 300000 ∧
      ¬ richCaller.Pays out.2 [richCaller.probe evm .zero .zero] := by
  refine ⟨drainingEvm_bounded _ _, by decide, by decide, ?_⟩
  unfold World.Pays
  decide

/-- `underlying()` answers with an address, and the 200000 gas it burned are paid. -/
theorem probe_pays_iff_harmless_answer :
    let evm := drainingEvm (List.replicate 31 0 ++ [1]) none
    let out := evmGetUnderlyingERC20Wrapper evm .zero .zero richCaller
    out.2.gas = 100000 ∧ richCaller.Pays out.2 [richCaller.probe evm .zero .zero] := by
  intro evm out
  have hevm : ∀ vm ∈ some evm, vm.Bounded := by
    intro vm hvm
    rw [← Option.some.inj hvm]
    exact drainingEvm_bounded _ _
  obtain ⟨hprobe, _⟩ := @probe_pays_iff_harmless _ Unit (some evm) hevm
  exact ⟨by decide, (hprobe evm rfl .zero .zero richCaller).1.mpr (.inl rfl)⟩

end Ark.DistrClaim
