import Ark.Ante.Routes
import Ark.Sanction.Spelling

/- The two messages as set operations.

   The keeper's loops read the set they write, so an account that a message repeats is
   refused as one that is in the set already (or no longer). `normalizeAll` is what both
   loops make of a list of texts; in its terms a message is a set operation with a
   condition (`addToBlacklist_iff`, `removeFromBlacklist_iff`): nothing is repeated, and
   all of it is absent, or all of it is present. -/
namespace Ark.Sanction
open Ark.Sdk Ark.Lib Ark.Lib.Checks Ark.Ante

/-- The keys of a list of texts, in their order; an error when one of them has none. -/
def normalizeAll (codec : AddressCodec) (accounts : List String) : Except Err (List String) :=
  accounts.mapM (normalizeAddress codec)

section
variable {codec : AddressCodec} {account key : String} {accounts keys : List String}
  {s s' : State}

/-! ## Normalized lists -/

theorem normalizeAll_nil : normalizeAll codec [] = .ok keys ↔ keys = [] := by
  unfold normalizeAll
  rw [List.mapM_nil, pure_ok, eq_comm]

theorem normalizeAll_cons : normalizeAll codec (account :: accounts) = .ok keys ↔
    ∃ key rest, normalizeAddress codec account = .ok key ∧
      normalizeAll codec accounts = .ok rest ∧ keys = key :: rest := by
  unfold normalizeAll
  simp only [List.mapM_cons, bind_ok, pure_ok]
  constructor
  · intro h
    obtain ⟨key, hkey, rest, hrest, he⟩ := h
    exact ⟨key, rest, hkey, hrest, he.symm⟩
  · intro h
    obtain ⟨key, rest, hkey, hrest, he⟩ := h
    exact ⟨key, hkey, rest, hrest, he.symm⟩

/-- A list is normalized when each of its texts is. -/
theorem exists_normalizeAll : (∃ keys, normalizeAll codec accounts = .ok keys) ↔
    ∀ account ∈ accounts, ∃ key, normalizeAddress codec account = .ok key := by
  induction accounts with
  | nil => simp [normalizeAll_nil]
  | cons account accounts ih =>
    rw [List.forall_mem_cons, ← ih]
    constructor
    · intro ⟨keys, h⟩
      obtain ⟨key, rest, hkey, hrest, _⟩ := normalizeAll_cons.mp h
      exact ⟨⟨key, hkey⟩, ⟨rest, hrest⟩⟩
    · intro ⟨⟨key, hkey⟩, ⟨rest, hrest⟩⟩
      exact ⟨key :: rest, normalizeAll_cons.mpr ⟨key, rest, hkey, hrest, rfl⟩⟩

/-- An account's printed form is normalized to itself. -/
theorem normalizeAll_printed {a : Address} (hcodec : codec.Lawful)
    (h : codec.accAddressFromBech32 (codec.string a) = .ok a) :
    normalizeAll codec [codec.string a] = .ok [codec.string a] := by
  have hkey := normalizeAddress_ok.mpr ⟨a, names_of_parse hcodec h, rfl⟩
  exact normalizeAll_cons.mpr ⟨_, [], hkey, normalizeAll_nil.mpr rfl, rfl⟩

/-! ## The two loops -/

/-- A loop that refuses a key or applies `op` to the set. Where `op` makes only the key itself
unacceptable, the loop ends well when no key is repeated and each was acceptable before. -/
theorem foldlM_keys {step : State → String → Except Err State} {op : KeySet String → String →
    KeySet String} (accepts : KeySet String → String → Prop)
    (hstep : ∀ {s account s'}, step s account = .ok s' ↔
      ∃ key, normalizeAddress codec account = .ok key ∧ accepts s.blacklistAccounts key ∧
        { s with blacklistAccounts := op s.blacklistAccounts key } = s')
    (haccepts : ∀ set key k, accepts (op set key) k ↔ accepts set k ∧ k ≠ key) :
    accounts.foldlM step s = .ok s' ↔
      ∃ keys, normalizeAll codec accounts = .ok keys ∧ keys.Nodup ∧
        (∀ key ∈ keys, accepts s.blacklistAccounts key) ∧
        s' = { s with blacklistAccounts := keys.foldl op s.blacklistAccounts } := by
  induction accounts generalizing s with
  | nil =>
    simp only [normalizeAll_nil, exists_eq_left, List.nodup_nil, List.not_mem_nil, true_and]
    rw [List.foldlM_nil, pure_ok, eq_comm]
    simp
  | cons account accounts ih =>
    rw [List.foldlM_cons, bind_ok]
    constructor
    · intro h
      obtain ⟨_, hfirst, hrest⟩ := h
      obtain ⟨key, hkey, hnew, he⟩ := hstep.mp hfirst
      rw [← he] at hrest
      obtain ⟨keys, hkeys, hnodup, hall, hs'⟩ := ih.mp hrest
      -- the later keys are acceptable after `key`, so they are not `key`
      have hlater : ∀ k ∈ keys, accepts s.blacklistAccounts k ∧ k ≠ key :=
        fun k hk => (haccepts _ key k).mp (hall k hk)
      refine ⟨key :: keys, normalizeAll_cons.mpr ⟨key, keys, hkey, hkeys, rfl⟩, ?_, ?_, hs'⟩
      · exact List.nodup_cons.mpr ⟨fun hin => (hlater key hin).2 rfl, hnodup⟩
      · exact List.forall_mem_cons.mpr ⟨hnew, fun k hk => (hlater k hk).1⟩
    · intro h
      obtain ⟨keys, hkeys, hnodup, hall, hs'⟩ := h
      obtain ⟨key, rest, hkey, hrest, he⟩ := normalizeAll_cons.mp hkeys
      rw [he] at hnodup hall hs'
      obtain ⟨hnew, hnodup⟩ := List.nodup_cons.mp hnodup
      obtain ⟨hfirst, hall⟩ := List.forall_mem_cons.mp hall
      refine ⟨_, hstep.mpr ⟨key, hkey, hfirst, rfl⟩, ih.mpr ⟨rest, hrest, hnodup, ?_, hs'⟩⟩
      intro k hk
      refine (haccepts _ key k).mpr ⟨hall k hk, ?_⟩
      intro he
      exact hnew (he ▸ hk)

theorem addToBlacklist_iff : addToBlacklist codec accounts s = .ok s' ↔
    ∃ keys, normalizeAll codec accounts = .ok keys ∧ keys.Nodup ∧
      (∀ key ∈ keys, key ∉ s.blacklistAccounts) ∧
      s' = { s with blacklistAccounts := keys.foldl KeySet.set s.blacklistAccounts } := by
  unfold addToBlacklist
  apply foldlM_keys fun set key => key ∉ set
  · intro s account s'
    simp only [bind_ok, failIf_ok, pure_ok, exists_and_left, exists_const]
  · intro set key k
    rw [KeySet.mem_set, not_or]
    exact and_comm

theorem removeFromBlacklist_iff : removeFromBlacklist codec accounts s = .ok s' ↔
    ∃ keys, normalizeAll codec accounts = .ok keys ∧ keys.Nodup ∧
      (∀ key ∈ keys, key ∈ s.blacklistAccounts) ∧
      s' = { s with blacklistAccounts := keys.foldl KeySet.remove s.blacklistAccounts } := by
  unfold removeFromBlacklist
  apply foldlM_keys fun set key => key ∈ set
  · intro s account s'
    simp only [bind_ok, failIf_ok, pure_ok, not_not, exists_and_left, exists_const]
  · intro set key k
    exact KeySet.mem_remove

/-- What was added is removed again, under the same keys in any order. -/
theorem foldl_remove_set {blacklist : KeySet String} {added removed : List String}
    (hperm : removed.Perm added) (habsent : ∀ key ∈ added, key ∉ blacklist) :
    removed.foldl KeySet.remove (added.foldl KeySet.set blacklist) = blacklist := by
  apply KeySet.ext_mem
  intro k
  have hset : k ∈ added.foldl KeySet.set blacklist ↔ k ∈ blacklist ∨ ∃ j ∈ added, id j = k :=
    KeySet.mem_foldl_set (f := id)
  rw [KeySet.mem_foldl_remove, hset, hperm.mem_iff]
  constructor
  · intro ⟨hin, hnot⟩
    cases hin with
    | inl hin => exact hin
    | inr hin =>
      obtain ⟨j, hj, he⟩ := hin
      exact absurd (he ▸ hj) hnot
  · intro hin
    exact ⟨.inl hin, fun hadded => habsent k hadded hin⟩

/-! ## The stateless check -/

/-- The check of an account and the keeper's normalization accept the same texts. -/
theorem validateBlacklistMessage_iff {authority : String} :
    validateBlacklistMessage codec authority accounts = .ok () ↔
      (∃ a, codec.accAddressFromBech32 authority = .ok a) ∧ accounts ≠ [] ∧
        ∀ account ∈ accounts, ∃ key, normalizeAddress codec account = .ok key := by
  unfold validateBlacklistMessage
  cases hauthority : codec.accAddressFromBech32 authority with
  | error err => simp
  | ok a =>
    simp only [bind_ok, failIf_ok, forM_ok, Except.ok.injEq, exists_eq', true_and, exists_const,
      List.length_eq_zero_iff]
    apply and_congr_right
    intro _
    apply forall₂_congr
    intro account _
    unfold normalizeAddress
    by_cases hhex : hasHexAddressPrefix account = true
    · rw [if_pos hhex, if_pos hhex, failIf_ok]
      by_cases hvalid : codec.isHexAddress account = true
      · simp [hvalid]
      · simp [hvalid]
    · rw [if_neg hhex, if_neg hhex]
      cases codec.accAddressFromBech32 account with
      | error err => simp
      | ok addr => simp

variable {authority : String}

theorem addBlacklistAccounts_iff
    (hauthority : ∃ a, codec.accAddressFromBech32 authority = .ok a) :
    addBlacklistAccounts codec authority ⟨authority, accounts⟩ s = .ok s' ↔
      accounts ≠ [] ∧ addToBlacklist codec accounts s = .ok s' := by
  unfold addBlacklistAccounts
  simp only [bind_ok, failIf_ok, ne_eq, not_not]
  constructor
  · intro h
    obtain ⟨_, hvalid, _, _, hadd⟩ := h
    exact ⟨(validateBlacklistMessage_iff.mp hvalid).2.1, hadd⟩
  · intro h
    obtain ⟨hne, hadd⟩ := h
    obtain ⟨keys, hkeys, _⟩ := addToBlacklist_iff.mp hadd
    have hvalid := validateBlacklistMessage_iff.mpr
      ⟨hauthority, hne, exists_normalizeAll.mp ⟨keys, hkeys⟩⟩
    exact ⟨(), hvalid, (), trivial, hadd⟩

theorem removeBlacklistAccounts_iff
    (hauthority : ∃ a, codec.accAddressFromBech32 authority = .ok a) :
    removeBlacklistAccounts codec authority ⟨authority, accounts⟩ s = .ok s' ↔
      accounts ≠ [] ∧ removeFromBlacklist codec accounts s = .ok s' := by
  unfold removeBlacklistAccounts
  simp only [bind_ok, failIf_ok, ne_eq, not_not]
  constructor
  · intro h
    obtain ⟨_, hvalid, _, _, hremove⟩ := h
    exact ⟨(validateBlacklistMessage_iff.mp hvalid).2.1, hremove⟩
  · intro h
    obtain ⟨hne, hremove⟩ := h
    obtain ⟨keys, hkeys, _⟩ := removeFromBlacklist_iff.mp hremove
    have hvalid := validateBlacklistMessage_iff.mpr
      ⟨hauthority, hne, exists_normalizeAll.mp ⟨keys, hkeys⟩⟩
    exact ⟨(), hvalid, (), trivial, hremove⟩

/-- A removal undoes an addition of the same keys, in any order and spelling. -/
theorem removeBlacklistAccounts_undoes
    (hauthority : ∃ a, codec.accAddressFromBech32 authority = .ok a)
    {respelled added removed : List String}
    (hadd : addBlacklistAccounts codec authority ⟨authority, accounts⟩ s = .ok s')
    (hadded : normalizeAll codec accounts = .ok added)
    (hremoved : normalizeAll codec respelled = .ok removed) (hperm : removed.Perm added) :
    removeBlacklistAccounts codec authority ⟨authority, respelled⟩ s' = .ok s := by
  obtain ⟨hne, hadd⟩ := (addBlacklistAccounts_iff hauthority).mp hadd
  obtain ⟨keys, hkeys, hnodup, habsent, hs'⟩ := addToBlacklist_iff.mp hadd
  rw [hadded, Except.ok.injEq] at hkeys
  rw [← hkeys] at hnodup habsent hs'
  rw [removeBlacklistAccounts_iff hauthority, removeFromBlacklist_iff]
  constructor
  · -- a list without texts has no keys, and the list that was added has some
    intro hnil
    rw [hnil, normalizeAll_nil] at hremoved
    rw [hremoved, List.nil_perm] at hperm
    cases accounts with
    | nil => exact hne rfl
    | cons account accounts =>
      obtain ⟨_, _, _, _, he⟩ := normalizeAll_cons.mp hadded
      rw [hperm] at he
      exact absurd he (List.cons_ne_nil _ _).symm
  · refine ⟨removed, hremoved, hperm.nodup_iff.mpr hnodup, ?_, ?_⟩
    · intro key hkey
      rw [hs']
      exact KeySet.mem_foldl_set (f := id) |>.mpr (.inr ⟨key, hperm.mem_iff.mp hkey, rfl⟩)
    · rw [hs', foldl_remove_set hperm habsent]

end

/-! ## Set operations -/

/-- The messages of the authority add and remove exactly the accounts they list. -/
theorem blacklist_updates (codec : AddressCodec) (authority : String)
    (hauthority : ∃ a, codec.accAddressFromBech32 authority = .ok a) (s : State)
    (accounts : List String) :
    -- an addition: it succeeds on new keys, each listed once, and gives the union
    ((∃ s', addBlacklistAccounts codec authority ⟨authority, accounts⟩ s = .ok s') ↔
      accounts ≠ [] ∧ ∃ keys, normalizeAll codec accounts = .ok keys ∧ keys.Nodup ∧
        ∀ key ∈ keys, key ∉ s.blacklistAccounts) ∧
    (∀ s', addBlacklistAccounts codec authority ⟨authority, accounts⟩ s = .ok s' →
      ∃ keys, normalizeAll codec accounts = .ok keys ∧ s'.params = s.params ∧
        ∀ key, key ∈ s'.blacklistAccounts ↔ key ∈ s.blacklistAccounts ∨ key ∈ keys) ∧
    -- a removal: it succeeds on keys of the set, each listed once, and gives the difference
    ((∃ s', removeBlacklistAccounts codec authority ⟨authority, accounts⟩ s = .ok s') ↔
      accounts ≠ [] ∧ ∃ keys, normalizeAll codec accounts = .ok keys ∧ keys.Nodup ∧
        ∀ key ∈ keys, key ∈ s.blacklistAccounts) ∧
    (∀ s', removeBlacklistAccounts codec authority ⟨authority, accounts⟩ s = .ok s' →
      ∃ keys, normalizeAll codec accounts = .ok keys ∧ s'.params = s.params ∧
        ∀ key, key ∈ s'.blacklistAccounts ↔ key ∈ s.blacklistAccounts ∧ key ∉ keys) ∧
    -- an addition is undone by a removal of the same accounts, in any order and spelling
    (∀ s' respelled added removed,
      addBlacklistAccounts codec authority ⟨authority, accounts⟩ s = .ok s' →
      normalizeAll codec accounts = .ok added → normalizeAll codec respelled = .ok removed →
      removed.Perm added →
      removeBlacklistAccounts codec authority ⟨authority, respelled⟩ s' = .ok s) ∧
    -- the stateless check of an account is the keeper's
    ∀ account, validateBlacklistMessage codec authority [account] = .ok () ↔
      ∃ key, normalizeAddress codec account = .ok key := by
  refine ⟨?_, ?_, ?_, ?_, ?_, ?_⟩
  · simp only [addBlacklistAccounts_iff hauthority, addToBlacklist_iff, exists_and_left]
    apply and_congr_right
    intro _
    constructor
    · intro ⟨_, keys, hkeys, hnodup, habsent, _⟩
      exact ⟨keys, hkeys, hnodup, habsent⟩
    · intro ⟨keys, hkeys, hnodup, habsent⟩
      exact ⟨_, keys, hkeys, hnodup, habsent, rfl⟩
  · intro s' h
    obtain ⟨keys, hkeys, _, _, hs'⟩ :=
      addToBlacklist_iff.mp ((addBlacklistAccounts_iff hauthority).mp h).2
    refine ⟨keys, hkeys, by rw [hs'], fun key => ?_⟩
    rw [hs']
    apply Iff.trans (KeySet.mem_foldl_set (f := id))
    simp
  · simp only [removeBlacklistAccounts_iff hauthority, removeFromBlacklist_iff, exists_and_left]
    apply and_congr_right
    intro _
    constructor
    · intro ⟨_, keys, hkeys, hnodup, hpresent, _⟩
      exact ⟨keys, hkeys, hnodup, hpresent⟩
    · intro ⟨keys, hkeys, hnodup, hpresent⟩
      exact ⟨_, keys, hkeys, hnodup, hpresent, rfl⟩
  · intro s' h
    obtain ⟨keys, hkeys, _, _, hs'⟩ :=
      removeFromBlacklist_iff.mp ((removeBlacklistAccounts_iff hauthority).mp h).2
    refine ⟨keys, hkeys, by rw [hs'], fun key => ?_⟩
    rw [hs']
    exact KeySet.mem_foldl_remove
  · intro s' respelled added removed hadd hadded hremoved hperm
    exact removeBlacklistAccounts_undoes hauthority hadd hadded hremoved hperm
  · intro account
    rw [validateBlacklistMessage_iff]
    simp [hauthority]

/-- Account 2 is added and removed by account 9. -/
theorem blacklist_updates_account :
    removeBlacklistAccounts arkCodec (arkCodec.string (account 9))
      ⟨arkCodec.string (account 9), [arkCodec.string (account 2)]⟩
      { State.fresh with blacklistAccounts := KeySet.empty.set (arkCodec.string (account 2)) } =
        .ok State.fresh := by
  have h := blacklist_updates arkCodec (arkCodec.string (account 9)) ⟨_, account_parses 9⟩
    State.fresh [arkCodec.string (account 2)]
  have hnames : normalizeAll arkCodec [arkCodec.string (account 2)] =
      .ok [arkCodec.string (account 2)] :=
    normalizeAll_printed (a := account 2) arkCodec_lawful (account_parses 2)
  apply h.2.2.2.2.1 _ _ _ _ _ hnames hnames (List.Perm.refl _)
  apply (addBlacklistAccounts_iff ⟨_, account_parses 9⟩).mpr
  refine ⟨List.cons_ne_nil _ _, addToBlacklist_iff.mpr ⟨_, hnames, List.nodup_singleton _, ?_, rfl⟩⟩
  intro key _
  exact KeySet.not_mem_empty key

/-- A removal of no accounts meets the condition, and is refused. -/
theorem removeBlacklistAccounts_nil :
    (∃ keys, normalizeAll arkCodec [] = .ok keys ∧ keys.Nodup ∧
      ∀ key ∈ keys, key ∈ State.fresh.blacklistAccounts) ∧
    ¬ ∃ s', removeBlacklistAccounts arkCodec (arkCodec.string (account 9))
      ⟨arkCodec.string (account 9), []⟩ State.fresh = .ok s' := by
  refine ⟨⟨[], normalizeAll_nil.mpr rfl, List.nodup_nil, nofun⟩, ?_⟩
  intro ⟨s', h⟩
  exact ((removeBlacklistAccounts_iff ⟨_, account_parses 9⟩).mp h).1 rfl

end Ark.Sanction
