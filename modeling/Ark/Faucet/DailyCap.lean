import Ark.Faucet
import Ark.Lib.Checks

/- The daily cap, against what really leaves the wallet.

   The state file has an entry for every request that `broadcast_and_confirm` returned for
   (`Confirmed`). As long as each transfer that is ever committed belongs to such a
   request, the entries of an address account for its transfers, and every window of a
   day fits the cap (`transfers_within_cap`): the invariant `Accounts` holds the entries
   that were ever written next to those the state file still has. An address is written
   in one way only (`normalizeAddress_spells`), so an account has one list of entries.

   A transfer that is committed after the faucet gave up on it has no entry, and the cap
   is exceeded (`late_transfers_exceed_cap`). -/
namespace Ark.Faucet
open Ark.Lib Ark.Lib.Python Ark.Lib.Quota Ark.Lib.Checks Ark.Sdk

/-! ## One spelling -/

theorem isLowerAlnum_toLower {c : Char} (h : isLowerAlnum c = true) : c.toLower = c := by
  unfold isLowerAlnum at h
  have h := of_decide_eq_true h
  unfold Char.toLower
  apply dif_neg
  -- `Z` lies between the digits and the small letters
  intro hupper
  simp only [Char.le_def, UInt32.le_iff_toNat_le] at h hupper
  have h9 : ('9' : Char).val.toNat = 57 := rfl
  have ha : ('a' : Char).val.toNat = 97 := rfl
  have hA : ('A' : Char).val.toNat = 65 := rfl
  have hZ : ('Z' : Char).val.toNat = 90 := rfl
  omega

/-- Both branches of `normalize_address` end in lower case. -/
theorem normalizeAddress_lower {raw addr : String} (h : normalizeAddress raw = some addr) :
    addr.toList.map Char.toLower = addr.toList := by
  unfold normalizeAddress at h
  simp only at h
  split at h
  · rw [← Option.some.inj h, String.toList_ofList]
    exact Bech32.map_toLower (Bech32.encode_lowerCase bech32Prefix_lowerCase _)
  · split at h
    · rename_i _ hmatch
      rw [← Option.some.inj h, String.toList_ofList]
      unfold matchesBech32 at hmatch
      simp only [Bool.and_eq_true] at hmatch
      obtain ⟨⟨hhead, _⟩, hdata⟩ := hmatch
      obtain ⟨data, hdrop⟩ := List.isPrefixOf_iff_prefix.mp hhead
      rw [← hdrop, List.drop_left] at hdata
      rw [← hdrop, List.map_append]
      have hlower : data.map Char.toLower = data.map id := by
        apply List.map_congr_left
        intro c hc
        exact isLowerAlnum_toLower (List.all_eq_true.mp hdata c hc)
      rw [hlower, List.map_id]
      rfl
    · cases h

/-- The key of an account in the state file. -/
def keyOf (a : Address) : String := .ofList (Bech32.encode bech32Prefix a)

/-- Whoever receives a transfer to an address that was let through, has it for key. -/
theorem normalizeAddress_spells {raw addr : String} {a : Address}
    (h : normalizeAddress raw = some addr)
    (ha : arkCodec.accAddressFromBech32 addr = .ok a) : addr = keyOf a := by
  rw [arkCodec_parse] at ha
  have hspells := Bech32.decode_spells (parseAccAddress_ok.mp ha).2.1
  unfold keyOf
  rw [hspells, normalizeAddress_lower h, String.ofList_toList]

/-! ## Confirmation -/

/-- The code is 0 in what a command printed. -/
def CodeZero (data : Json) : Prop :=
  ∃ fields, data = .obj fields ∧ ((fields.lookup "code").getD (.int 1)).pyEq (.int 0) = true

/-- The broadcast was accepted, and one of the attempts to find the transaction said that it
succeeded. -/
structure Confirmed (arkd : Arkd) : Prop where
  priced : ∃ price, arkd.gasPrice = .ok price
  accepted : ∃ result data txhash, arkd.send = .ok result ∧ result.stdout = .ok data ∧
    CodeZero data ∧ subscript data "txhash" = .ok txhash
  found : ∃ i < 15, (∀ j < i, ∃ q, arkd.query j = .ok q ∧ q.returncode ≠ 0) ∧
    ∃ q qdata, arkd.query i = .ok q ∧ q.returncode = 0 ∧ q.stdout = .ok qdata ∧ CodeZero qdata

theorem checkCode_ok {data : Json} {otherwise : String} {u : Unit} :
    checkCode data otherwise = .ok u ↔ CodeZero data := by
  unfold checkCode CodeZero
  cases data with
  | obj fields =>
    simp only [Json.get, lift, bind, Except.bind, Json.obj.injEq, exists_eq_left']
    cases ((fields.lookup "code").getD (.int 1)).pyEq (.int 0) with
    | true => simp [pure, Except.pure]
    | false => simp [throw, throwThe, MonadExceptOf.throw]
  | _ => simp [Json.get, lift, bind, Except.bind]

/-- An attempt that finds the transaction, after some that did not. -/
theorem confirm_ok {query : Nat → Except Raised Completed} {txhash : Json} {n i : Nat} :
    (∃ out, confirm query txhash n i = .ok out) ↔
      ∃ k < n, (∀ j < k, ∃ q, query (i + j) = .ok q ∧ q.returncode ≠ 0) ∧
        ∃ q qdata, query (i + k) = .ok q ∧ q.returncode = 0 ∧ q.stdout = .ok qdata ∧
          CodeZero qdata := by
  induction n generalizing i with
  | zero => simp [confirm]
  | succ n ih =>
    unfold confirm
    constructor
    · intro ⟨out, h⟩
      obtain ⟨q, hq, h⟩ := bind_ok.mp h
      -- the first attempt decides, or all are one later
      by_cases hrc : q.returncode = 0
      · rw [if_pos hrc] at h
        obtain ⟨qdata, hdata, h⟩ := bind_ok.mp h
        obtain ⟨_, hcode, _⟩ := bind_ok.mp h
        exact ⟨0, Nat.succ_pos n, nofun, q, qdata, hq, hrc, hdata, checkCode_ok.mp hcode⟩
      · rw [if_neg hrc] at h
        obtain ⟨k, hk, hearlier, hfound⟩ := ih.mp ⟨out, h⟩
        refine ⟨k + 1, by omega, ?_, ?_⟩
        · intro j hj
          cases j with
          | zero => exact ⟨q, hq, hrc⟩
          | succ j =>
            have := hearlier j (by omega)
            rwa [Nat.add_right_comm] at this
        · rwa [Nat.add_right_comm] at hfound
    · intro ⟨k, hk, hearlier, hfound⟩
      cases k with
      | zero =>
        obtain ⟨q, qdata, hq, hrc, hdata, hcode⟩ := hfound
        refine ⟨txhash, bind_ok.mpr ⟨q, hq, ?_⟩⟩
        rw [if_pos hrc]
        exact bind_ok.mpr ⟨qdata, hdata, bind_ok.mpr ⟨(), checkCode_ok.mpr hcode, rfl⟩⟩
      | succ k =>
        obtain ⟨q, hq, hrc⟩ := hearlier 0 (Nat.succ_pos k)
        have hrest : ∃ out, confirm query txhash n (i + 1) = .ok out := by
          refine ih.mpr ⟨k, by omega, ?_, ?_⟩
          · intro j hj
            have := hearlier (j + 1) (by omega)
            rwa [← Nat.add_assoc, Nat.add_right_comm] at this
          · rwa [← Nat.add_assoc, Nat.add_right_comm] at hfound
        obtain ⟨out, hout⟩ := hrest
        refine ⟨out, bind_ok.mpr ⟨q, hq, ?_⟩⟩
        rwa [if_neg hrc]

theorem broadcastData_ok {result : Completed} {data : Json} :
    broadcastData result = .ok data ↔ result.stdout = .ok data := by
  unfold broadcastData
  cases result.stdout with
  | ok d => rfl
  | error e =>
    cases e with
    | jsonDecodeError => simp
    | _ => rfl

/-- `broadcast_and_confirm` returns exactly where the transfer is confirmed. -/
theorem broadcastAndConfirm_ok {arkd : Arkd} :
    (∃ txhash, broadcastAndConfirm arkd = .ok txhash) ↔ Confirmed arkd := by
  unfold broadcastAndConfirm
  constructor
  · intro ⟨out, h⟩
    obtain ⟨price, hprice, h⟩ := bind_ok.mp h
    obtain ⟨result, hresult, h⟩ := bind_ok.mp h
    obtain ⟨data, hdata, h⟩ := bind_ok.mp h
    obtain ⟨_, hcode, h⟩ := bind_ok.mp h
    obtain ⟨txhash, hhash, h⟩ := bind_ok.mp h
    obtain ⟨k, hk, hearlier, hfound⟩ := confirm_ok.mp ⟨out, h⟩
    simp only [Nat.zero_add] at hearlier hfound
    exact ⟨⟨price, hprice⟩, ⟨result, data, txhash, hresult, broadcastData_ok.mp hdata,
      checkCode_ok.mp hcode, hhash⟩, k, hk, hearlier, hfound⟩
  · intro ⟨⟨price, hprice⟩, ⟨result, data, txhash, hresult, hdata, hcode, hhash⟩, k, hk,
      hearlier, hfound⟩
    obtain ⟨out, hout⟩ : ∃ out, confirm arkd.query txhash 15 0 = .ok out := by
      refine confirm_ok.mpr ⟨k, hk, ?_, ?_⟩
      · simpa only [Nat.zero_add] using hearlier
      · simpa only [Nat.zero_add] using hfound
    exact ⟨out, bind_ok.mpr ⟨price, hprice, bind_ok.mpr ⟨result, hresult, bind_ok.mpr ⟨data,
      broadcastData_ok.mpr hdata, bind_ok.mpr ⟨(), checkCode_ok.mpr hcode, bind_ok.mpr ⟨txhash,
        hhash, hout⟩⟩⟩⟩⟩⟩

/-! ## One request -/

theorem readAddress_ok {r : Request} {addr : String} (h : readAddress r = .ok addr) :
    ∃ raw, normalizeAddress raw = some addr := by
  unfold readAddress at h
  split at h
  · cases h
  · split at h
    · cases h
    · cases h
    · cases h
    · split at h
      · cases h
      · rename_i haddr
        rw [← pure_ok.mp h]
        exact ⟨_, haddr⟩
    · cases h

theorem room_ok {c : Config} {s : State} {addr : String} {now : ℚ} {entries : List Entry} :
    c.room s addr now = .ok entries ↔ prune day now (s addr) = entries ∧
      total (prune day now (s addr)) + c.amountEsp ≤ c.dailyCapEsp := by
  unfold Config.room
  by_cases hfull : total (prune day now (s addr)) + c.amountEsp > c.dailyCapEsp
  · simp [hfull, Int.not_le.mpr hfull]
  · simp [hfull, Int.not_lt.mp hfull]

/-- A request that is turned away changes nothing; another one writes an entry where its transfer
is confirmed, and its transfer may be committed either way. -/
theorem step_cases (c : Config) (w : World) (r : Request) :
    step c w r = w ∨
    ∃ raw addr, normalizeAddress raw = some addr ∧
      total (prune day r.now (w.state addr)) + c.amountEsp ≤ c.dailyCapEsp ∧
      (step c w r).transfers = w.transfers ++ (c.sent addr r).toList ∧
      ((Confirmed r.arkd ∧ (step c w r).state = Function.update w.state addr
          (prune day r.now (w.state addr) ++ [(r.now, c.amountEsp)])) ∨
        (¬ Confirmed r.arkd ∧ (step c w r).state = w.state)) := by
  unfold step doPost transfer
  cases hread : readAddress r with
  | error answer =>
    left
    simp
  | ok addr =>
    cases hroom : c.room w.state addr r.now with
    | error answer =>
      left
      simp [hroom]
    | ok entries =>
      right
      obtain ⟨raw, hraw⟩ := readAddress_ok hread
      obtain ⟨hentries, hfits⟩ := room_ok.mp hroom
      refine ⟨raw, addr, hraw, hfits, by simp [hroom], ?_⟩
      rw [← broadcastAndConfirm_ok, hentries]
      simp only [hroom]
      cases hsend : broadcastAndConfirm r.arkd with
      | ok txhash => exact .inl ⟨⟨txhash, rfl⟩, rfl⟩
      | error e =>
        right
        refine ⟨by simp, ?_⟩
        cases e with
        | faucetError value => rfl
        | _ => rfl

/-! ## All requests -/

/-- The transfers to an account. -/
def World.transfersTo (w : World) (a : Address) : List Entry :=
  (w.transfers.filter fun x => x.receiver = a).map fun x => (x.time, x.amount)

/-- The entries that were ever written: each fitted the cap, the state file still has the recent
ones, and they account for the transfers. -/
structure Accounts (c : Config) (now : ℚ) (w : World) (written : String → List Entry) : Prop where
  admitted : ∀ key, Admitted day c.dailyCapEsp (written key)
  past : ∀ key, ∀ x ∈ written key, x.1 ≤ now
  tracks : ∀ key, Tracks day now (w.state key) (written key)
  transfers : ∀ a, (w.transfersTo a).Sublist (written (keyOf a))

theorem Accounts.later {c : Config} {now now' : ℚ} {w : World} {written : String → List Entry}
    (h : Accounts c now w written) (hnow : now ≤ now') : Accounts c now' w written where
  admitted := h.admitted
  past key x hx := le_trans (h.past key x hx) hnow
  tracks key := (h.tracks key).later hnow
  transfers := h.transfers

theorem sent_amount {c : Config} {addr : String} {r : Request} {x : Transfer}
    (h : c.sent addr r = some x) : arkCodec.accAddressFromBech32 addr = .ok x.receiver ∧
      r.arkd.committed = true ∧ x.time = r.now ∧ x.amount = c.amountEsp := by
  unfold Config.sent at h
  split at h
  · rename_i _ _ _ _ haddr
    split at h
    · rename_i hcommitted
      rw [← Option.some.inj h]
      exact ⟨haddr, hcommitted, rfl, rfl⟩
    · cases h
  · cases h

/-- What a request sends, it sends to the account that its address is the key of. -/
theorem sent_key {c : Config} {raw addr : String} {r : Request}
    (hraw : normalizeAddress raw = some addr) {x : Transfer} (h : c.sent addr r = some x) :
    addr = keyOf x.receiver :=
  normalizeAddress_spells hraw (sent_amount h).1

/-- A request that is given up on, and so never committed, changes nothing. -/
theorem step_unconfirmed {c : Config} {w : World} {r : Request} {addr : String}
    (hnot : ¬ Confirmed r.arkd) (hconfirmed : r.arkd.committed = true → Confirmed r.arkd)
    (htransfers : (step c w r).transfers = w.transfers ++ (c.sent addr r).toList)
    (hstate : (step c w r).state = w.state) : step c w r = w := by
  have hnone : c.sent addr r = none := by
    cases hx : c.sent addr r with
    | none => rfl
    | some x => exact absurd (hconfirmed (sent_amount hx).2.1) hnot
  rw [hnone, Option.toList_none, List.append_nil] at htransfers
  cases hstep : step c w r
  cases w
  rw [hstep] at htransfers hstate
  simp only at htransfers hstate
  rw [htransfers, hstate]

/-- With an entry written for its address, a request's transfer is accounted for. -/
theorem transfersTo_sublist {c : Config} {w w' : World} {r : Request} {raw addr : String}
    (hraw : normalizeAddress raw = some addr)
    (htransfers : w'.transfers = w.transfers ++ (c.sent addr r).toList)
    {written : String → List Entry} {a : Address}
    (h : (w.transfersTo a).Sublist (written (keyOf a))) :
    (w'.transfersTo a).Sublist
      (Function.update written addr (written addr ++ [(r.now, c.amountEsp)]) (keyOf a)) := by
  have hkeep : (written (keyOf a)).Sublist
      (Function.update written addr (written addr ++ [(r.now, c.amountEsp)]) (keyOf a)) := by
    by_cases hkey : keyOf a = addr
    · rw [hkey, Function.update_self]
      exact List.sublist_append_left _ _
    · rw [Function.update_of_ne hkey]
  rw [World.transfersTo, htransfers, List.filter_append, List.map_append]
  cases hx : c.sent addr r with
  | none =>
    simp only [Option.toList_none, List.filter_nil, List.map_nil, List.append_nil]
    exact h.trans hkeep
  | some x =>
    by_cases hreceiver : x.receiver = a
    · -- the account's one key got the entry
      have hkey : keyOf a = addr := by
        rw [← hreceiver]
        exact (sent_key hraw hx).symm
      obtain ⟨_, _, htime, hamount⟩ := sent_amount hx
      have hnew : ([x].filter fun x => x.receiver = a).map (fun x => (x.time, x.amount)) =
          [(r.now, c.amountEsp)] := by
        simp [hreceiver, htime, hamount]
      rw [hkey, Function.update_self, Option.toList_some, hnew]
      exact (hkey ▸ h).append (List.Sublist.refl _)
    · have hnone : [x].filter (fun x => x.receiver = a) = [] := by
        simp [hreceiver]
      rw [Option.toList_some, hnone, List.map_nil, List.append_nil]
      exact h.trans hkeep

theorem step_accounts {c : Config} (hamount : 0 ≤ c.amountEsp) {w : World} {r : Request}
    {written : String → List Entry} (h : Accounts c r.now w written)
    (hconfirmed : r.arkd.committed = true → Confirmed r.arkd) :
    ∃ written', Accounts c r.now (step c w r) written' := by
  cases step_cases c w r with
  | inl hsame =>
    rw [hsame]
    exact ⟨written, h⟩
  | inr hsent =>
    obtain ⟨raw, addr, hraw, hfits, htransfers, hstate⟩ := hsent
    cases hstate with
    | inr hstate =>
      rw [step_unconfirmed hstate.1 hconfirmed htransfers hstate.2]
      exact ⟨written, h⟩
    | inl hstate =>
      -- the entry that the handler appends is the one that is accounted for
      refine ⟨Function.update written addr (written addr ++ [(r.now, c.amountEsp)]), ?_, ?_, ?_, ?_⟩
      · apply (Function.forall_update_iff written fun _ => Admitted day c.dailyCapEsp).mpr
        refine ⟨?_, fun key _ => h.admitted key⟩
        apply (h.admitted addr).snoc (h.past addr) hamount
        rw [← h.tracks addr r.now le_rfl]
        exact hfits
      · apply (Function.forall_update_iff written fun _ entries => ∀ x ∈ entries, x.1 ≤ r.now).mpr
        refine ⟨?_, fun key _ => h.past key⟩
        intro x hx
        cases List.mem_append.mp hx with
        | inl hx => exact h.past addr x hx
        | inr hx => rw [List.mem_singleton.mp hx]
      · intro key
        rw [hstate.2]
        by_cases hkey : key = addr
        · rw [hkey, Function.update_self, Function.update_self]
          exact (h.tracks addr).snoc _
        · rw [Function.update_of_ne hkey, Function.update_of_ne hkey]
          exact h.tracks key
      · intro a
        exact transfersTo_sublist hraw htransfers (h.transfers a)

theorem run_accounts {c : Config} (hamount : 0 ≤ c.amountEsp) {rs : List Request}
    (htimes : rs.Pairwise fun r r' => r.now ≤ r'.now)
    (hconfirmed : ∀ r ∈ rs, r.arkd.committed = true → Confirmed r.arkd) {w : World} {now : ℚ}
    {written : String → List Entry} (h : Accounts c now w written)
    (hnow : ∀ r ∈ rs, now ≤ r.now) :
    ∃ now' written', Accounts c now' (rs.foldl (step c) w) written' := by
  induction rs generalizing w now written with
  | nil => exact ⟨now, written, h⟩
  | cons r rs ih =>
    obtain ⟨hlater, hrest⟩ := List.pairwise_cons.mp htimes
    obtain ⟨written', h'⟩ := step_accounts hamount (h.later (hnow r List.mem_cons_self))
      (hconfirmed r List.mem_cons_self)
    exact ih hrest (fun r' hr' => hconfirmed r' (List.mem_cons_of_mem r hr')) h' hlater

theorem start_accounts (c : Config) (now : ℚ) :
    Accounts c now ⟨fun _ => [], []⟩ fun _ => [] where
  admitted _ := .nil
  past _ := nofun
  tracks _ _ _ := rfl
  transfers _ := List.Sublist.refl []

theorem run_amounts (c : Config) (rs : List Request) :
    ∀ x ∈ (run c rs).transfers, x.amount = c.amountEsp := by
  suffices ∀ w : World, (∀ x ∈ w.transfers, x.amount = c.amountEsp) →
      ∀ x ∈ (rs.foldl (step c) w).transfers, x.amount = c.amountEsp from this _ nofun
  induction rs with
  | nil => exact fun _ h => h
  | cons r rs ih =>
    intro w hw
    apply ih (step c w r)
    intro x hx
    cases step_cases c w r with
    | inl hsame => exact hw x (hsame ▸ hx)
    | inr hsent =>
      obtain ⟨_, addr, _, _, htransfers, _⟩ := hsent
      rw [htransfers] at hx
      cases List.mem_append.mp hx with
      | inl hx => exact hw x hx
      | inr hx => exact (sent_amount (Option.mem_toList.mp hx)).2.2.2

/-- As long as only transfers that were confirmed are ever committed, no account gets more than
the cap in any day: `t` is the start of the day, and a request counts at its own time. -/
theorem transfers_within_cap (c : Config) (hcap : 0 ≤ c.dailyCapKash) (rs : List Request)
    (htimes : rs.Pairwise fun r r' => r.now ≤ r'.now)
    (hconfirmed : ∀ r ∈ rs, r.arkd.committed = true → Confirmed r.arkd) (a : Address) (t : ℚ) :
    total (window day t ((run c rs).transfersTo a)) ≤ c.dailyCapEsp := by
  have hcapEsp : 0 ≤ c.dailyCapEsp := by
    unfold Config.dailyCapEsp
    exact mul_nonneg hcap (pow_nonneg (by decide) 18)
  by_cases hamount : 0 ≤ c.amountEsp
  · obtain ⟨now, hnow⟩ : ∃ now : ℚ, ∀ r ∈ rs, now ≤ r.now := by
      cases rs with
      | nil => exact ⟨0, List.forall_mem_nil _⟩
      | cons r rs =>
        refine ⟨r.now, List.forall_mem_cons.mpr ⟨le_rfl, (List.pairwise_cons.mp htimes).1⟩⟩
    obtain ⟨now', written, h⟩ :=
      run_accounts hamount htimes hconfirmed (start_accounts c now) hnow
    calc total (window day t ((run c rs).transfersTo a))
        ≤ total (window day t (written (keyOf a))) := by
          apply total_le_of_sublist ((h.transfers a).filter _)
          intro x hx
          exact (h.admitted (keyOf a)).nonneg x (List.mem_filter.mp hx).1
      _ ≤ c.dailyCapEsp := (h.admitted (keyOf a)).window_le hcapEsp t
  · -- a negative amount: nothing adds up to anything
    have hle : total (window day t ((run c rs).transfersTo a)) ≤ 0 := by
      apply total_nonpos
      intro x hx
      obtain ⟨y, hy, hyx⟩ := List.mem_map.mp (List.mem_filter.mp hx).1
      have := run_amounts c rs y (List.mem_filter.mp hy).1
      rw [← hyx]
      show y.amount ≤ 0
      omega
    exact Int.le_trans hle hcapEsp

/-! ## Transfers that are late -/

def defaultConfig : Config where
  amountKash := 10
  dailyCapKash := 50
  printer := { str := fun _ => "", repr := fun _ => "" }

/-- The broadcast is accepted and the transfer committed; every attempt to find it ends alike. -/
def arkdWith (attempt : Completed) : Arkd where
  gasPrice := .ok 1000000001
  send := .ok ⟨.ok (.obj [("code", .int 0), ("txhash", .str "C0FFEE")]), "", 0⟩
  query _ := .ok attempt
  committed := true

def notFound : Completed := ⟨.error .jsonDecodeError, "tx not found", 1⟩

def found : Completed := ⟨.ok (.obj [("code", .int 0)]), "", 0⟩

theorem arkdWith_found : Confirmed (arkdWith found) where
  priced := ⟨_, rfl⟩
  accepted := ⟨_, _, _, rfl, rfl, ⟨_, rfl, rfl⟩, rfl⟩
  found := ⟨0, by decide, nofun, found, _, rfl, rfl, rfl, _, rfl, rfl⟩

/-- A request for the account of 20 bytes 17, in hex. -/
def requestAt (attempt : Completed) (now : ℕ) : Request where
  path := "/faucet"
  body := .ok (.obj [("address", .str ("0x" ++ .ofList (List.replicate 40 '1')))])
  now := now
  arkd := arkdWith attempt

def lucky : Address := List.replicate 20 17

/-- Six requests in six seconds, each given up on and committed later: 60 KASH of a cap of 50. -/
theorem late_transfers_exceed_cap :
    let rs := (List.range 6).map (requestAt notFound)
    total (window day 0 ((run defaultConfig rs).transfersTo lucky)) = 60 * 10 ^ 18 ∧
      defaultConfig.dailyCapEsp < total (window day 0 ((run defaultConfig rs).transfersTo lucky)) := by
  decide +kernel

/-- Six confirmed requests: the sixth is turned away, and the other five fit the cap. -/
theorem transfers_within_cap_six :
    let rs := (List.range 6).map (requestAt found)
    (run defaultConfig rs).transfers.length = 5 ∧
      total (window day 0 ((run defaultConfig rs).transfersTo lucky)) ≤
        defaultConfig.dailyCapEsp := by
  intro rs
  refine ⟨by decide +kernel, ?_⟩
  apply transfers_within_cap defaultConfig (by decide) rs (by decide +kernel)
  intro r hr _
  obtain ⟨now, _, hnow⟩ := List.mem_map.mp hr
  rw [← hnow]
  exact arkdWith_found

end Ark.Faucet
