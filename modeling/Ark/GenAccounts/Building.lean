import Mathlib.Algebra.Order.BigOperators.Group.List
import Ark.GenAccounts.Adding

/- A genesis that is built by many runs of `add-genesis-account`.

   The command reads its genesis file three times: for the address among the accounts, for
   the sum with the supply, and for the lists it appends to. What it adds is settled before
   (`Command.entry`). So whether all of some commands go through depends on what they add
   together (`Addable`), and not on their order, and neither does what they write, but for
   the order of the lists and the numbers of the accounts (`built_in_any_order`).

   Where every balance is an account's and the supply is stated (`Complete`), the genesis
   stays valid through any commands with valid coins: what one run can break it breaks
   only where a balance has no account or a supply is left out. -/
namespace Ark.GenAccounts
open Ark.Lib Ark.Lib.Checks Ark.Sdk
open Ark.Gov (Fault)
open Ark.DistrClaim (fitsInt)

variable {AuthParams Other BankRest : Type}

/-- `arkd add-genesis-account` with its two arguments. -/
structure Command where
  flags : Flags
  account : String
  coins : String

/-- What a command adds to a genesis. -/
structure Entry (Other : Type) where
  addr : Address
  account : GenesisAccount Other
  coins : List Coin

section
variable (sdk : Sdk AuthParams Other BankRest)

/-- The file after the commands, of which the first that fails is the last. -/
def build (g : Genesis AuthParams Other BankRest) (cmds : List Command) :
    Except Fault (Genesis AuthParams Other BankRest) :=
  cmds.foldlM (fun g c => addGenesisAccount sdk c.flags c.account c.coins (.ok g)) g

/-- What the command does before it opens the file. -/
def Command.entry (c : Command) : Except Fault (Entry Other) := do
  let addr ← accountAddress sdk c.account
  let coins ← parseCoins sdk "failed to parse coins" c.coins
  let vestingAmt ← parseCoins sdk "failed to parse vesting amount" c.flags.vestingAmt
  let account ← newGenAccount sdk addr (sdk.sort coins) vestingAmt c.flags
  wrapError "failed to validate new genesis account" (sdk.validateAccount account)
  pure { addr, account, coins := sdk.sort coins }

def Entry.balance (e : Entry Other) : Balance := ⟨sdk.codec.string e.addr, e.coins⟩

/-- What the commands add that can be read. -/
def entries (cmds : List Command) : List (Entry Other) :=
  cmds.filterMap fun c => (c.entry sdk).toOption

/-- The amount of a denom in all entries. -/
def amountAdded (es : List (Entry Other)) (denom : String) : Int :=
  (es.map fun e => Amounts.amountOf e.coins denom).sum

/-- No coin that the command parses was truncated to nothing. -/
def Command.ValidCoins (c : Command) : Prop :=
  ∀ coins, sdk.parseCoinsNormalized c.coins = .ok coins →
    sdk.isValid (sdk.sort coins) = true

/-- A valid genesis in which every balance is an account's and the supply is stated. -/
structure Complete (g : Genesis AuthParams Other BankRest) : Prop where
  auth : sdk.validateAuth g.auth = .ok ()
  bank : sdk.validateBank g.bank = .ok ()
  owned : ∀ balance ∈ g.bank.balances, ∃ acc ∈ g.auth.accounts,
    sdk.codec.string (sdk.getAddress acc) = balance.address
  supply : ∀ denom, Amounts.amountOf g.bank.supply denom = amountIn g.bank.balances denom

/-- The genesis `g'` is `g` with the entries. -/
structure Added (g : Genesis AuthParams Other BankRest) (es : List (Entry Other))
    (g' : Genesis AuthParams Other BankRest) : Prop where
  params : g'.auth.params = g.auth.params
  rest : g'.bank.rest = g.bank.rest
  accounts : (g'.auth.accounts.map (·.withNumber 0)).Perm
    ((es.map Entry.account ++ g.auth.accounts).map (·.withNumber 0))
  balances : g'.bank.balances.Perm (es.map (Entry.balance sdk) ++ g.bank.balances)
  supply : ∀ denom, Amounts.amountOf g'.bank.supply denom =
    Amounts.amountOf g.bank.supply denom + amountAdded es denom

/-- The commands can be read, are about accounts of their own, and overflow no supply. -/
structure Addable (g : Genesis AuthParams Other BankRest) (cmds : List Command) : Prop where
  read : ∀ c ∈ cmds, ∃ e, c.entry sdk = .ok e
  distinct : ((entries sdk cmds).map Entry.addr).Nodup
  fresh : ∀ e ∈ entries sdk cmds, sdk.contains g.auth.accounts e.addr = false
  fits : ∀ denom,
    fitsInt (Amounts.amountOf g.bank.supply denom + amountAdded (entries sdk cmds) denom) = true

end

/-- The same genesis, but for the order of its lists and the numbers of its accounts. -/
structure SameUpToOrder (g g' : Genesis AuthParams Other BankRest) : Prop where
  params : g'.auth.params = g.auth.params
  rest : g'.bank.rest = g.bank.rest
  accounts : (g'.auth.accounts.map (·.withNumber 0)).Perm (g.auth.accounts.map (·.withNumber 0))
  balances : g'.bank.balances.Perm g.bank.balances
  supply : g'.bank.supply = g.bank.supply

variable {sdk : Sdk AuthParams Other BankRest} {g g' g'' : Genesis AuthParams Other BankRest}
  {c : Command} {cmds : List Command} {e : Entry Other} {es es' : List (Entry Other)}

/-! ## One command -/

/-- A run adds the command's entry, if its address is new and the supply does not overflow. -/
theorem addGenesisAccount_ok_iff :
    addGenesisAccount sdk c.flags c.account c.coins (.ok g) = .ok g' ↔
      ∃ e supply, c.entry sdk = .ok e ∧ sdk.contains g.auth.accounts e.addr = false ∧
        sdk.add g.bank.supply e.coins = .ok supply ∧
        g' = ⟨⟨g.auth.params, sdk.sanitizeGenesisAccounts (g.auth.accounts ++ [e.account])⟩,
          ⟨sdk.sanitizeGenesisBalances (g.bank.balances ++ [e.balance sdk]), supply,
            g.bank.rest⟩⟩ := by
  unfold addGenesisAccount Command.entry
  simp only [bind_ok, parseCoins_ok, wrapError_ok, failIf_ok, pure_ok,
    Bool.not_eq_true]
  constructor
  · intro h
    obtain ⟨addr, haddr, coins, hcoins, vestingAmt, hvesting, acc, hacc, _, hvalidate, _, hnew,
      supply, hsupply, hg'⟩ := h
    exact ⟨⟨addr, acc, sdk.sort coins⟩, supply,
      ⟨addr, haddr, coins, hcoins, vestingAmt, hvesting, acc, hacc, (), hvalidate, rfl⟩, hnew,
      hsupply, hg'.symm⟩
  · intro h
    obtain ⟨e, supply, ⟨addr, haddr, coins, hcoins, vestingAmt, hvesting, acc, hacc, _, hvalidate,
      he⟩, hnew, hsupply, hg'⟩ := h
    cases he
    exact ⟨addr, haddr, coins, hcoins, vestingAmt, hvesting, acc, hacc, (), hvalidate, (), hnew,
      supply, hsupply, hg'.symm⟩

/-- What an entry is known by. -/
theorem Command.entry_spec (hsdk : sdk.Lawful) (h : c.entry sdk = .ok e) :
    sdk.codec.accAddressFromBech32 (sdk.codec.string e.addr) = .ok e.addr ∧
      sdk.getAddress e.account = e.addr ∧ sdk.validateAccount e.account = .ok () ∧
      (c.ValidCoins sdk → sdk.isValid e.coins = true) := by
  unfold Command.entry at h
  simp only [bind_ok, parseCoins_ok, wrapError_ok, pure_ok] at h
  obtain ⟨addr, haddr, coins, hcoins, _, _, acc, hacc, _, hvalidate, he⟩ := h
  cases he
  have hparses := accountAddress_parses hsdk haddr
  have hacc' := (newGenAccount_spec hsdk hacc).1
  exact ⟨hparses, hsdk.getAddress_eq acc addr (hacc' ▸ hparses), hvalidate,
    fun hvalid => hvalid coins hcoins⟩

/-! ## What was added -/

theorem amountAdded_singleton (e : Entry Other) (denom : String) :
    amountAdded [e] denom = Amounts.amountOf e.coins denom := Int.add_zero _

theorem amountAdded_cons (e : Entry Other) (es : List (Entry Other)) (denom : String) :
    amountAdded (e :: es) denom = Amounts.amountOf e.coins denom + amountAdded es denom := rfl

theorem amountAdded_perm (h : es.Perm es') (denom : String) :
    amountAdded es denom = amountAdded es' denom := (h.map _).sum_eq

theorem Added.refl (g : Genesis AuthParams Other BankRest) : Added sdk g [] g :=
  ⟨rfl, rfl, .refl _, .refl _, fun _ => (Int.add_zero _).symm⟩

theorem Added.cons (h : Added sdk g [e] g') (h' : Added sdk g' es g'') :
    Added sdk g (e :: es) g'' := by
  refine ⟨h'.params.trans h.params, h'.rest.trans h.rest, ?_, ?_, fun denom => ?_⟩
  · refine h'.accounts.trans ?_
    rw [List.map_append]
    refine (h.accounts.append_left _).trans ?_
    simp only [List.map_append, List.map_cons, List.map_nil, List.cons_append, List.nil_append]
    exact List.perm_middle
  · refine h'.balances.trans ((h.balances.append_left _).trans ?_)
    simp only [List.map_cons, List.map_nil, List.cons_append, List.nil_append]
    exact List.perm_middle
  · rw [h'.supply, h.supply, amountAdded_singleton, amountAdded_cons, Int.add_assoc]

/-- The addresses of the accounts. -/
theorem Added.addresses (hsdk : sdk.Lawful) (h : Added sdk g es g')
    (hes : ∀ e ∈ es, sdk.getAddress e.account = e.addr) :
    (g'.auth.accounts.map sdk.getAddress).Perm
      (es.map Entry.addr ++ g.auth.accounts.map sdk.getAddress) := by
  have haddrs : (es.map Entry.account).map sdk.getAddress = es.map Entry.addr := by
    rw [List.map_map]
    exact List.map_congr_left hes
  have hperm := h.accounts.map sdk.getAddress
  rwa [map_getAddress_withNumber hsdk, map_getAddress_withNumber hsdk, List.map_append, haddrs]
    at hperm

/-! ## Complete genesis states -/

theorem Complete.supply_valid (hsdk : sdk.Lawful) (hg : Complete sdk g) :
    sdk.isValid g.bank.supply = true := by
  obtain ⟨_, _, _, _, hsupply⟩ := (hsdk.validateBank_iff _).mp hg.bank
  cases hsupply with
  | inl hnil =>
    rw [hnil]
    exact hsdk.nil_valid
  | inr h => exact h.1

/-- A run on a complete genesis leaves a complete one, with the entry in it. -/
theorem Complete.add (hsdk : sdk.Lawful) (hg : Complete sdk g) (he : c.entry sdk = .ok e)
    (hcoins : c.ValidCoins sdk)
    (h : addGenesisAccount sdk c.flags c.account c.coins (.ok g) = .ok g') :
    Complete sdk g' ∧ Added sdk g [e] g' := by
  obtain ⟨e', supply, he', hnew, hsupply, hg'⟩ := addGenesisAccount_ok_iff.mp h
  rw [he] at he'
  cases he'
  obtain ⟨hparses, haddr, hvalidate, hvalid⟩ := Command.entry_spec hsdk he
  obtain ⟨_, _, hall, _, _⟩ := (hsdk.validateBank_iff _).mp hg.bank
  have haccounts : (g'.auth.accounts.map (·.withNumber 0)).Perm
      ((e.account :: g.auth.accounts).map (·.withNumber 0)) := by
    rw [hg']
    exact (hsdk.accounts_perm _).trans ((List.perm_append_singleton e.account _).map _)
  have hbalances : g'.bank.balances.Perm (e.balance sdk :: g.bank.balances) := by
    rw [hg']
    exact (hsdk.balances_perm _).trans (List.perm_append_singleton _ _)
  obtain ⟨_, hamount⟩ := hsdk.add_ok _ _ _ (hg.supply_valid hsdk) (hvalid hcoins) hsupply
  have hadded : Added sdk g [e] g' := by
    refine ⟨by rw [hg'], by rw [hg'], haccounts, hbalances, fun denom => ?_⟩
    rw [hg', amountAdded_singleton]
    exact hamount denom
  refine ⟨⟨?_, ?_, ?_, ?_⟩, hadded⟩
  · rw [hg', validateAuth_congr hsdk (hsdk.accounts_perm _)]
    exact validateAuth_append hsdk hg.auth hvalidate (haddr ▸ hnew)
  · rw [hg'] at hbalances ⊢
    refine (added_validate_iff hsdk hg.bank hparses hsupply hbalances).mpr ⟨hvalid hcoins, ?_, ?_⟩
    · -- an address with a balance has an account
      intro hmem
      obtain ⟨balance, hbalance, hname⟩ := List.mem_map.mp hmem
      obtain ⟨acc, hacc, hstr⟩ := hg.owned balance hbalance
      have hsame : sdk.getAddress acc = e.addr :=
        hsdk.codec.string_injective _ _ (hstr.trans hname)
      exact (contains_eq_false hsdk).mp hnew (List.mem_map.mpr ⟨acc, hacc, hsame⟩)
    · by_cases hnil : g.bank.supply = []
      · refine .inr (.inr (coins_eq_nil hsdk (fun balance hmem => (hall balance hmem).1) fun denom => ?_))
        rw [← hg.supply denom, hnil]
        rfl
      · exact .inl hnil
  · intro balance hbalance
    have hstrs := haccounts.map fun acc => sdk.codec.string (sdk.getAddress acc)
    simp only [List.map_map, Function.comp_def, hsdk.getAddress_withNumber] at hstrs
    have hfound : balance.address ∈
        (e.account :: g.auth.accounts).map fun acc => sdk.codec.string (sdk.getAddress acc) := by
      rcases List.mem_cons.mp (hbalances.mem_iff.mp hbalance) with rfl | hold
      · exact List.mem_map.mpr ⟨e.account, List.mem_cons_self, by rw [haddr]; rfl⟩
      · obtain ⟨acc, hacc, hstr⟩ := hg.owned balance hold
        exact List.mem_map.mpr ⟨acc, List.mem_cons_of_mem _ hacc, hstr⟩
    exact List.mem_map.mp (hstrs.mem_iff.mpr hfound)
  · intro denom
    rw [hadded.supply, hg.supply, amountIn_perm hbalances, amountAdded_singleton]
    exact Int.add_comm _ _

/-! ## Many commands -/

theorem entries_cons (he : c.entry sdk = .ok e) :
    entries sdk (c :: cmds) = e :: entries sdk cmds :=
  List.filterMap_cons_some (by rw [he]; rfl)

theorem entry_of_mem (he : e ∈ entries sdk cmds) : ∃ c ∈ cmds, c.entry sdk = .ok e := by
  obtain ⟨c, hc, hsome⟩ := List.mem_filterMap.mp he
  refine ⟨c, hc, ?_⟩
  cases hentry : c.entry sdk with
  | error fault =>
    rw [hentry] at hsome
    cases hsome
  | ok e' =>
    rw [hentry] at hsome
    cases hsome
    rfl

theorem length_entries (hread : ∀ c ∈ cmds, ∃ e, c.entry sdk = .ok e) :
    (entries sdk cmds).length = cmds.length := by
  induction cmds with
  | nil => rfl
  | cons c cmds ih =>
    obtain ⟨⟨e, he⟩, hread⟩ := List.forall_mem_cons.mp hread
    rw [entries_cons he, List.length_cons, List.length_cons, ih hread]

theorem build_cons {h : Genesis AuthParams Other BankRest} :
    build sdk g (c :: cmds) = .ok h ↔
      ∃ g', addGenesisAccount sdk c.flags c.account c.coins (.ok g) = .ok g' ∧
        build sdk g' cmds = .ok h := by
  unfold build
  rw [List.foldlM_cons, bind_ok]

/-- Commands that all go through leave a complete genesis, with what they add in it. -/
theorem Complete.build (hsdk : sdk.Lawful) (hg : Complete sdk g)
    (hcoins : ∀ c ∈ cmds, c.ValidCoins sdk) (h : build sdk g cmds = .ok g') :
    Complete sdk g' ∧ Added sdk g (entries sdk cmds) g' ∧
      ∀ c ∈ cmds, ∃ e, c.entry sdk = .ok e := by
  induction cmds generalizing g with
  | nil =>
    cases h
    exact ⟨hg, .refl _, fun c hc => absurd hc List.not_mem_nil⟩
  | cons c cmds ih =>
    obtain ⟨g₁, hadd, hrest⟩ := build_cons.mp h
    obtain ⟨hc, hcmds⟩ := List.forall_mem_cons.mp hcoins
    obtain ⟨e, _, he, _⟩ := addGenesisAccount_ok_iff.mp hadd
    obtain ⟨hg₁, hadded⟩ := hg.add hsdk he hc hadd
    obtain ⟨hg', hadded', hread⟩ := ih hg₁ hcmds hrest
    rw [entries_cons he]
    exact ⟨hg', hadded.cons hadded', List.forall_mem_cons.mpr ⟨⟨e, he⟩, hread⟩⟩

theorem addrs_of_entries (hsdk : sdk.Lawful) :
    ∀ e ∈ entries sdk cmds, sdk.getAddress e.account = e.addr := by
  intro e he
  obtain ⟨c, _, hc⟩ := entry_of_mem he
  exact (Command.entry_spec hsdk hc).2.1

theorem amountAdded_nonneg (hsdk : sdk.Lawful) (hcoins : ∀ c ∈ cmds, c.ValidCoins sdk)
    (denom : String) : 0 ≤ amountAdded (entries sdk cmds) denom := by
  apply List.sum_nonneg
  intro amount hamount
  obtain ⟨e, he, rfl⟩ := List.mem_map.mp hamount
  obtain ⟨c, hc, hentry⟩ := entry_of_mem he
  exact hsdk.amount_nonneg ((Command.entry_spec hsdk hentry).2.2.2 (hcoins c hc)) denom

/-- What commands that went through were. -/
theorem Added.addable (hsdk : sdk.Lawful) (hg' : Complete sdk g')
    (h : Added sdk g (entries sdk cmds) g') (hread : ∀ c ∈ cmds, ∃ e, c.entry sdk = .ok e) :
    Addable sdk g cmds := by
  have hnodup := (h.addresses hsdk (addrs_of_entries hsdk)).nodup_iff.mp (validateAuth_nodup hsdk hg'.auth)
  obtain ⟨hdistinct, _, hdisjoint⟩ := List.nodup_append'.mp hnodup
  obtain ⟨_, _, _, hfits, _⟩ := (hsdk.validateBank_iff _).mp hg'.bank
  refine ⟨hread, hdistinct, fun e he => ?_, fun denom => ?_⟩
  · exact (contains_eq_false hsdk).mpr (hdisjoint (List.mem_map.mpr ⟨e, he, rfl⟩))
  · rw [← h.supply, hg'.supply]
    exact hfits denom

/-- What is left to add after the first command. -/
theorem Addable.rest (hsdk : sdk.Lawful) (h : Addable sdk g (c :: cmds)) (he : c.entry sdk = .ok e)
    (hadded : Added sdk g [e] g') : Addable sdk g' cmds := by
  obtain ⟨_, hread⟩ := List.forall_mem_cons.mp h.read
  have hdistinct := h.distinct
  have hfresh := h.fresh
  have hfits := h.fits
  rw [entries_cons he] at hdistinct hfresh hfits
  obtain ⟨hnew, hdistinct⟩ := List.nodup_cons.mp hdistinct
  have haddrs := hadded.addresses hsdk fun e' he' => by
    rw [List.mem_singleton.mp he']
    exact (Command.entry_spec hsdk he).2.1
  refine ⟨hread, hdistinct, fun e' he' => ?_, fun denom => ?_⟩
  · rw [contains_eq_false hsdk, haddrs.mem_iff, List.map_singleton, List.singleton_append,
      List.mem_cons, not_or]
    exact ⟨fun hsame => hnew (List.mem_map.mpr ⟨e', he', hsame⟩),
      (contains_eq_false hsdk).mp (hfresh e' (List.mem_cons_of_mem e he'))⟩
  · rw [hadded.supply, amountAdded_singleton, Int.add_assoc, ← amountAdded_cons]
    exact hfits denom

/-- Commands that can be added are: each finds its address free and room for its coins, since
those after it only add more. -/
theorem Addable.build (hsdk : sdk.Lawful) (hg : Complete sdk g)
    (hcoins : ∀ c ∈ cmds, c.ValidCoins sdk) (h : Addable sdk g cmds) :
    ∃ g', build sdk g cmds = .ok g' := by
  induction cmds generalizing g with
  | nil => exact ⟨g, rfl⟩
  | cons c cmds ih =>
    obtain ⟨e, he⟩ := h.read c List.mem_cons_self
    obtain ⟨hc, hcmds⟩ := List.forall_mem_cons.mp hcoins
    have hvalid := (Command.entry_spec hsdk he).2.2.2 hc
    have hfree : sdk.contains g.auth.accounts e.addr = false :=
      h.fresh e (by rw [entries_cons he]; exact List.mem_cons_self)
    have hsupplyValid := hg.supply_valid hsdk
    obtain ⟨supply, hsupply⟩ : ∃ supply, sdk.add g.bank.supply e.coins = .ok supply := by
      rw [hsdk.add_iff _ _ hsupplyValid hvalid]
      intro denom
      have hold := hsdk.amount_nonneg hsupplyValid denom
      have hone := hsdk.amount_nonneg hvalid denom
      have hothers := amountAdded_nonneg hsdk hcmds denom
      apply fitsInt_of_le _ _ (h.fits denom)
      · omega
      · rw [entries_cons he, amountAdded_cons]
        omega
    obtain ⟨g₁, hadd⟩ : ∃ g₁, addGenesisAccount sdk c.flags c.account c.coins (.ok g) = .ok g₁ :=
      ⟨_, addGenesisAccount_ok_iff.mpr ⟨e, supply, he, hfree, hsupply, rfl⟩⟩
    obtain ⟨hg₁, hadded⟩ := hg.add hsdk he hc hadd
    obtain ⟨g', hbuild⟩ := ih hg₁ hcmds (h.rest hsdk he hadded)
    exact ⟨g', build_cons.mpr ⟨g₁, hadd, hbuild⟩⟩

/-! ## The order of the commands -/

theorem Addable.perm {cmds' : List Command} (h : Addable sdk g cmds) (hperm : cmds.Perm cmds') :
    Addable sdk g cmds' := by
  have hentries : (entries sdk cmds).Perm (entries sdk cmds') := hperm.filterMap _
  refine ⟨fun c hc => h.read c (hperm.mem_iff.mpr hc), ?_, fun e he => ?_, fun denom => ?_⟩
  · exact (hentries.map _).nodup_iff.mp h.distinct
  · exact h.fresh e (hentries.mem_iff.mpr he)
  · rw [← amountAdded_perm hentries]
    exact h.fits denom

theorem Added.sameUpToOrder (hsdk : sdk.Lawful) (hg' : Complete sdk g') (hg'' : Complete sdk g'')
    (h : Added sdk g es g') (h' : Added sdk g es' g'') (hperm : es.Perm es') :
    SameUpToOrder g' g'' := by
  refine ⟨h'.params.trans h.params.symm, h'.rest.trans h.rest.symm, ?_, ?_, ?_⟩
  · refine h'.accounts.trans (.trans ?_ h.accounts.symm)
    exact ((hperm.symm.map _).append_right _).map _
  · refine h'.balances.trans (.trans ?_ h.balances.symm)
    exact (hperm.symm.map _).append_right _
  · apply hsdk.ext (hg''.supply_valid hsdk) (hg'.supply_valid hsdk)
    intro denom
    rw [h'.supply, h.supply, amountAdded_perm hperm]

/-- **A genesis is built in any order.** Commands with valid coins all go through on a complete
genesis exactly when they can be read, are about accounts of their own, and overflow no supply.
They leave a complete genesis again, with an account and a balance of each in it; and in any other
order they go through as well, and leave the same genesis up to the order of its lists. -/
theorem built_in_any_order (hsdk : sdk.Lawful) (hg : Complete sdk g)
    (hcoins : ∀ c ∈ cmds, c.ValidCoins sdk) :
    ((∃ g', build sdk g cmds = .ok g') ↔ Addable sdk g cmds) ∧
    ∀ g', build sdk g cmds = .ok g' →
      Complete sdk g' ∧ Added sdk g (entries sdk cmds) g' ∧
      (entries sdk cmds).length = cmds.length ∧
      ∀ cmds', cmds.Perm cmds' → ∃ g'', build sdk g cmds' = .ok g'' ∧ SameUpToOrder g' g'' := by
  have haddable : ∀ g', build sdk g cmds = .ok g' → Addable sdk g cmds := by
    intro g' h
    obtain ⟨hg', hadded, hread⟩ := hg.build hsdk hcoins h
    exact hadded.addable hsdk hg' hread
  refine ⟨⟨fun h => ?_, fun h => h.build hsdk hg hcoins⟩, fun g' h => ?_⟩
  · obtain ⟨g', h⟩ := h
    exact haddable g' h
  · obtain ⟨hg', hadded, hread⟩ := hg.build hsdk hcoins h
    refine ⟨hg', hadded, length_entries hread, fun cmds' hperm => ?_⟩
    have hcoins' : ∀ c ∈ cmds', c.ValidCoins sdk := fun c hc => hcoins c (hperm.mem_iff.mpr hc)
    obtain ⟨g'', h''⟩ := ((haddable g' h).perm hperm).build hsdk hg hcoins'
    obtain ⟨hg'', hadded', _⟩ := hg.build hsdk hcoins' h''
    exact ⟨g'', h'', hadded.sameUpToOrder hsdk hg' hg'' hadded' (hperm.filterMap _)⟩

/-! ## Two accounts -/

/-- Ten `uark` for an account. -/
def grant (n : Nat) : Command := ⟨⟨0, 0, ""⟩, arkCodec.string (account n), "10uark"⟩

def granted (n : Nat) : Entry Unit :=
  ⟨account n, .base ⟨arkCodec.string (account n), none, 0, 0⟩, [("uark", 10)]⟩

theorem grant_entry (n : Nat) : (grant n).entry smallSdk = .ok (granted n) := by
  unfold Command.entry grant
  simp only
  rw [accountAddress_account]
  rfl

theorem grant_valid (n : Nat) : (grant n).ValidCoins smallSdk := by
  intro coins hcoins
  cases hcoins
  decide +kernel

theorem entries_grants : entries smallSdk [grant 1, grant 2] = [granted 1, granted 2] := by
  rw [entries_cons (grant_entry 1), entries_cons (grant_entry 2)]
  rfl

theorem noAccounts_complete : Complete smallSdk (genesisOf []) where
  auth := genesisOf_auth []
  bank := rfl
  owned _ hbalance := absurd hbalance List.not_mem_nil
  supply _ := rfl

theorem grants_addable : Addable smallSdk (genesisOf []) [grant 1, grant 2] := by
  refine ⟨?_, ?_, fun _ _ => rfl, fun denom => ?_⟩
  · simp only [List.forall_mem_cons]
    exact ⟨⟨_, grant_entry 1⟩, ⟨_, grant_entry 2⟩, fun _ hc => absurd hc List.not_mem_nil⟩
  · rw [entries_grants]
    decide
  · rw [entries_grants]
    by_cases hdenom : "uark" = denom
    · subst hdenom
      decide
    · have hzero : Amounts.amountOf [("uark", (10 : Int))] denom = 0 := by
        simp [Amounts.amountOf, hdenom]
      show fitsInt (0 + (Amounts.amountOf [("uark", (10 : Int))] denom +
        (Amounts.amountOf [("uark", (10 : Int))] denom + 0))) = true
      rw [hzero]
      rfl

/-- Both orders leave the two accounts. -/
theorem twoAccounts_built :
    ∃ g' g'', build smallSdk (genesisOf []) [grant 1, grant 2] = .ok g' ∧
      build smallSdk (genesisOf []) [grant 2, grant 1] = .ok g'' ∧ SameUpToOrder g' g'' := by
  have hcoins : ∀ c ∈ [grant 1, grant 2], c.ValidCoins smallSdk := by
    simp only [List.forall_mem_cons]
    exact ⟨grant_valid 1, grant_valid 2, fun _ hc => absurd hc List.not_mem_nil⟩
  obtain ⟨hiff, hall⟩ := built_in_any_order smallSdk_lawful noAccounts_complete hcoins
  obtain ⟨g', h⟩ := hiff.mpr grants_addable
  obtain ⟨_, _, _, horders⟩ := hall g' h
  obtain ⟨g'', h'', hsame⟩ := horders [grant 2, grant 1] (.swap _ _ _)
  exact ⟨g', g'', h, h'', hsame⟩

end Ark.GenAccounts
