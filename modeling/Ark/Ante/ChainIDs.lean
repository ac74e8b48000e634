import Ark.Ante

/- Signatures under two chain ids.

   A chain accepts sign documents for its own id and for the id with "-evm-" in the
   place of the last hyphen. The second id determines the first, since the part
   after a last hyphen has none (`evmCosmosChainID_injective`), so two chains accept
   one sign document only when the id of one is an accepted id of the other. -/
namespace Ark.Ante
open Ark.Sdk

/-! ## The second id -/

theorem lastHyphen_none {l : List Char} : lastHyphen l = none ↔ '-' ∉ l := by
  induction l with
  | nil => simp [lastHyphen]
  | cons c rest ih =>
    rw [lastHyphen, List.mem_cons, not_or, ← ih]
    cases lastHyphen rest with
    | some i => simp
    | none =>
      by_cases hc : c = '-'
      · simp [hc]
      · simp [hc, Ne.symm hc]

theorem lastHyphen_append (name : List Char) {version : List Char} (h : '-' ∉ version) :
    lastHyphen (name ++ '-' :: version) = some name.length := by
  induction name with
  | nil =>
    rw [List.nil_append, lastHyphen, lastHyphen_none.mpr h]
    rfl
  | cons c name ih =>
    rw [List.cons_append, lastHyphen, ih]
    rfl

/-- The last hyphen splits the text, and none follows it. -/
theorem lastHyphen_some {l : List Char} {i : Nat} (h : lastHyphen l = some i) :
    l = l.take i ++ '-' :: l.drop (i + 1) ∧ '-' ∉ l.drop (i + 1) := by
  induction l generalizing i with
  | nil => cases h
  | cons c rest ih =>
    rw [lastHyphen] at h
    cases hrest : lastHyphen rest with
    -- a later hyphen takes precedence
    | some j =>
      rw [hrest] at h
      cases h
      obtain ⟨hsplit, hno⟩ := ih hrest
      refine ⟨?_, by simpa using hno⟩
      rw [List.take_succ_cons, List.drop_succ_cons, List.cons_append, ← hsplit]
    | none =>
      rw [hrest] at h
      by_cases hc : c = '-'
      · rw [if_pos hc] at h
        cases h
        refine ⟨by simp [hc], ?_⟩
        simpa using lastHyphen_none.mp hrest
      · rw [if_neg hc] at h
        cases h

/-- A text has one split at a hyphen that none follows. -/
theorem split_unique {name name' version version' : List Char} (h : '-' ∉ version)
    (h' : '-' ∉ version') (he : name ++ '-' :: version = name' ++ '-' :: version') :
    name = name' ∧ version = version' := by
  have hlen := lastHyphen_append name h
  rw [he, lastHyphen_append name' h', Option.some.injEq] at hlen
  obtain ⟨hname, hrest⟩ := List.append_inj he hlen.symm
  exact ⟨hname, (List.cons.inj hrest).2⟩

theorem evm_infix : "-evm-".toList = ['-', 'e', 'v', 'm', '-'] := rfl

theorem evmCosmosChainID_eq {c d : String} : evmCosmosChainID c = some d ↔
    ∃ name version, '-' ∉ version ∧ c.toList = name ++ '-' :: version ∧
      d.toList = (name ++ ['-', 'e', 'v', 'm']) ++ '-' :: version := by
  unfold evmCosmosChainID
  rw [Option.map_eq_some_iff]
  constructor
  · intro ⟨i, hi, hd⟩
    obtain ⟨hsplit, hno⟩ := lastHyphen_some hi
    refine ⟨_, _, hno, hsplit, ?_⟩
    rw [← hd, String.toList_ofList, evm_infix]
    simp
  · intro ⟨name, version, hno, hc, hd⟩
    refine ⟨name.length, ?_, ?_⟩
    · rw [hc]
      exact lastHyphen_append name hno
    · apply String.toList_injective
      rw [String.toList_ofList, hd, hc, evm_infix, List.take_left]
      simp

/-- The two ids as the chain spells them. -/
theorem evmCosmosChainID_spelled {c d : String} : evmCosmosChainID c = some d ↔
    ∃ name version, '-' ∉ version.toList ∧ c = name ++ "-" ++ version ∧
      d = name ++ "-evm-" ++ version := by
  rw [evmCosmosChainID_eq]
  constructor
  · intro ⟨name, version, hno, hc, hd⟩
    refine ⟨String.ofList name, String.ofList version, by simpa using hno, ?_, ?_⟩
    · apply String.toList_injective
      rw [hc]
      simp
    · apply String.toList_injective
      rw [hd]
      simp
  · intro ⟨name, version, hno, hc, hd⟩
    refine ⟨name.toList, version.toList, hno, ?_, ?_⟩
    · rw [hc]
      simp
    · rw [hd]
      simp

theorem evmCosmosChainID_injective {c c' d : String} (h : evmCosmosChainID c = some d)
    (h' : evmCosmosChainID c' = some d) : c = c' := by
  obtain ⟨name, version, hno, hc, hd⟩ := evmCosmosChainID_eq.mp h
  obtain ⟨name', version', hno', hc', hd'⟩ := evmCosmosChainID_eq.mp h'
  obtain ⟨hname, hversion⟩ := split_unique hno hno' (hd.symm.trans hd')
  apply String.toList_injective
  rw [hc, hc', hversion, List.append_cancel_right hname]

/-- The ids of the sign documents that a chain accepts. -/
def acceptedIDs (chainID : String) : List String := chainID :: (evmCosmosChainID chainID).toList

theorem mem_acceptedIDs {c x : String} :
    x ∈ acceptedIDs c ↔ x = c ∨ evmCosmosChainID c = some x := by
  simp [acceptedIDs, eq_comm]

/-- Two chains, neither of whose ids is made from the other's, accept no id in common. -/
theorem acceptedIDs_disjoint {c c' : String} (hne : c ≠ c') (h : evmCosmosChainID c ≠ some c')
    (h' : evmCosmosChainID c' ≠ some c) (x : String) :
    ¬ (x ∈ acceptedIDs c ∧ x ∈ acceptedIDs c') := by
  rw [mem_acceptedIDs, mem_acceptedIDs]
  intro ⟨hx, hx'⟩
  cases hx with
  | inl hx =>
    subst hx
    cases hx' with
    | inl hx' => exact hne hx'
    | inr hx' => exact h' hx'
  | inr hx =>
    cases hx' with
    | inl hx' => exact h (hx' ▸ hx)
    | inr hx' => exact hne (evmCosmosChainID_injective hx hx')

/-! ## The decorator -/

section
variable {W Rest Msg : Type} {verify : Context Rest → Tx Msg → Bool → W → Option Err}

/-- The signatures verify under the id of the context, or fail as unauthorized and verify under
the second id. -/
def Accepts (verify : Context Rest → Tx Msg → Bool → W → Option Err) (ctx : Context Rest)
    (tx : Tx Msg) (simulate : Bool) (w : W) : Prop :=
  verify ctx tx simulate w = none ∨ ∃ err d, verify ctx tx simulate w = some err ∧
    err.isOf errUnauthorized = true ∧ evmCosmosChainID ctx.chainID = some d ∧
    verify (ctx.withChainID d) tx simulate w = none

theorem multiChainID_accepts {ctx : Context Rest} {tx : Tx Msg} {simulate : Bool} {w : W}
    (h : Accepts verify ctx tx simulate w) (next : AnteHandler W Rest Msg) :
    multiChainIDDecorator (sigVerificationDecorator verify) ctx tx simulate next w =
      next ctx tx simulate w := by
  unfold multiChainIDDecorator sigVerificationDecorator
  obtain hv | ⟨err, d, hv, hunauthorized, hd, hv'⟩ := h
  · simp only [hv, noOpNext]
  · simp only [hv, hunauthorized, Bool.true_eq_false, if_false, hd, hv', noOpNext]

theorem multiChainID_rejects {ctx : Context Rest} {tx : Tx Msg} {simulate : Bool} {w : W}
    (h : ¬ Accepts verify ctx tx simulate w) :
    ∃ err, ∀ next : AnteHandler W Rest Msg,
      multiChainIDDecorator (sigVerificationDecorator verify) ctx tx simulate next w =
        ((ctx, some err), w) := by
  unfold Accepts at h
  unfold multiChainIDDecorator sigVerificationDecorator
  cases hv : verify ctx tx simulate w with
  | none => exact absurd (.inl hv) h
  | some err1 =>
    simp only
    cases hu : err1.isOf errUnauthorized with
    | false => exact ⟨err1, fun next => by simp⟩
    | true =>
      simp only [Bool.true_eq_false, if_false]
      cases hd : evmCosmosChainID ctx.chainID with
      | none => exact ⟨err1, fun next => rfl⟩
      | some d =>
        simp only
        cases hv' : verify (ctx.withChainID d) tx simulate w with
        | none => exact absurd (.inr ⟨err1, d, hv, hu, hd, hv'⟩) h
        | some err => exact ⟨_, fun next => rfl⟩

/-- Verification succeeds only under the chain id that a transaction was signed for. -/
def BindsChainID (verify : Context Rest → Tx Msg → Bool → W → Option Err)
    (signDoc : Tx Msg → String) : Prop :=
  ∀ ctx tx w, verify ctx tx false w = none → ctx.chainID = signDoc tx

theorem Accepts.signDoc {signDoc : Tx Msg → String} (hbind : BindsChainID verify signDoc)
    {ctx : Context Rest} {tx : Tx Msg} {w : W} (h : Accepts verify ctx tx false w) :
    signDoc tx ∈ acceptedIDs ctx.chainID := by
  rw [mem_acceptedIDs]
  obtain hv | ⟨_, d, _, _, hd, hv⟩ := h
  · exact .inl (hbind ctx tx w hv).symm
  · have hid : d = signDoc tx := hbind _ tx w hv
    exact .inr (hid ▸ hd)

end

/-- Whatever the verification does with a context and a transaction: the decorator runs `next`, once
and in the context it was given, exactly when the signatures verify under the chain's id, or fail as
unauthorized and verify under the second id; otherwise it returns an error and `next` does not run.
The second id determines the first. When the signatures verify under one chain id only, the one that
`signDoc` gives, no transaction is accepted on two chains neither of whose ids is made from the
other. -/
theorem two_chain_ids {W Rest Msg : Type}
    (verify : Context Rest → Tx Msg → Bool → W → Option Err) (signDoc : Tx Msg → String)
    (hbind : BindsChainID verify signDoc) :
    (∀ ctx tx simulate w,
      (Accepts verify ctx tx simulate w ∧ ∀ next,
        multiChainIDDecorator (sigVerificationDecorator verify) ctx tx simulate next w =
          next ctx tx simulate w) ∨
      (¬ Accepts verify ctx tx simulate w ∧ ∃ err, ∀ next,
        multiChainIDDecorator (sigVerificationDecorator verify) ctx tx simulate next w =
          ((ctx, some err), w))) ∧
    (∀ c d, evmCosmosChainID c = some d ↔ ∃ name version, '-' ∉ version.toList ∧
      c = name ++ "-" ++ version ∧ d = name ++ "-evm-" ++ version) ∧
    (∀ c c' d, evmCosmosChainID c = some d → evmCosmosChainID c' = some d → c = c') ∧
    ∀ c c', c ≠ c' → evmCosmosChainID c ≠ some c' → evmCosmosChainID c' ≠ some c →
      (∀ x, ¬ (x ∈ acceptedIDs c ∧ x ∈ acceptedIDs c')) ∧
      ∀ ctx ctx' tx w w', ctx.chainID = c → ctx'.chainID = c' →
        ¬ (Accepts verify ctx tx false w ∧ Accepts verify ctx' tx false w') := by
  refine ⟨?_, fun c d => evmCosmosChainID_spelled, fun c c' d => evmCosmosChainID_injective, ?_⟩
  · intro ctx tx simulate w
    by_cases h : Accepts verify ctx tx simulate w
    · exact .inl ⟨h, multiChainID_accepts h⟩
    · exact .inr ⟨h, multiChainID_rejects h⟩
  · intro c c' hne h h'
    have hdisjoint := acceptedIDs_disjoint hne h h'
    refine ⟨hdisjoint, fun ctx ctx' tx w w' hc hc' ⟨ha, ha'⟩ => ?_⟩
    apply hdisjoint (signDoc tx)
    rw [← hc, ← hc']
    exact ⟨ha.signDoc hbind, ha'.signDoc hbind⟩

/-! ## A verification that binds the chain id -/

/-- The type URL stands for the chain id that the transaction was signed for. -/
def signDocID (tx : Tx Unit) : String := (tx.extensionOptionsTx.getD []).headD ""

def verifyID (ctx : Context Unit) (tx : Tx Unit) (simulate : Bool) (_ : Unit) : Option Err :=
  if simulate = true ∨ ctx.chainID = signDocID tx then none
  else some (.wrap errUnauthorized "signature verification failed")

def signedFor (chainID : String) : Tx Unit := ⟨[()], none, none, some [chainID]⟩

theorem verifyID_binds : BindsChainID verifyID signDocID := by
  intro ctx tx w h
  by_contra hne
  simp [verifyID, hne] at h

/-- A transaction signed for the second id is accepted on its chain, in the chain's own context,
and on no other chain. -/
theorem two_chain_ids_small :
    (∀ next, multiChainIDDecorator (sigVerificationDecorator verifyID) ⟨"ark-local-1", ()⟩
      (signedFor "ark-local-evm-1") false next () =
        next ⟨"ark-local-1", ()⟩ (signedFor "ark-local-evm-1") false ()) ∧
    ¬ Accepts verifyID ⟨"other-1", ()⟩ (signedFor "ark-local-evm-1") false () := by
  obtain ⟨hnext, hspelled, _, hreplay⟩ := two_chain_ids verifyID signDocID verifyID_binds
  have hsecond : evmCosmosChainID "ark-local-1" = some "ark-local-evm-1" := by
    apply (hspelled _ _).mpr
    exact ⟨"ark-local", "1", by decide, rfl, rfl⟩
  have hother : evmCosmosChainID "other-1" = some "other-evm-1" := by
    apply (hspelled _ _).mpr
    exact ⟨"other", "1", by decide, rfl, rfl⟩
  have haccepts : Accepts verifyID ⟨"ark-local-1", ()⟩ (signedFor "ark-local-evm-1") false () := by
    apply Or.inr
    exact ⟨_, "ark-local-evm-1", rfl, rfl, hsecond, rfl⟩
  constructor
  · obtain ⟨_, hruns⟩ | ⟨hno, _⟩ := hnext ⟨"ark-local-1", ()⟩ (signedFor "ark-local-evm-1") false ()
    · exact hruns
    · exact absurd haccepts hno
  · intro hother'
    have hno := (hreplay "ark-local-1" "other-1" (by decide) (by rw [hsecond]; decide)
      (by rw [hother]; decide)).2
    exact hno _ _ _ () () rfl rfl ⟨haccepts, hother'⟩

end Ark.Ante
