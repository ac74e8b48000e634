import Ark.Faucet.DailyCap

/- When an address that was turned away may come back.

   A 429 tells the client to retry after a number of seconds, which is read off the
   oldest entry that still counts. The entries of an address stand in the order of their
   times, are all of the configured amount, and never come to more than the cap
   (`Ledger`), so that the room which is missing is there as soon as that one entry is a
   day old. Until then nothing that anybody sends changes the entries of the address
   (`turnedAway_kept`). So the number is exact: whoever comes back earlier is turned away
   again, and whoever waits one second longer is served (`retry_exact`). -/
namespace Ark.Faucet
open Ark.Lib Ark.Lib.Python Ark.Lib.Quota

variable {c : Config} {s : State} {r : Request} {addr : String} {now : ℚ}

/-! ## The entries of an address -/

/-- What holds of every list of entries in the state file. -/
structure Ledger (c : Config) (now : ℚ) (entries : List Entry) : Prop where
  ordered : entries.Pairwise fun e e' => e.1 ≤ e'.1
  past : ∀ e ∈ entries, e.1 ≤ now
  amounts : ∀ e ∈ entries, e.2 = c.amountEsp
  within : 0 ≤ c.dailyCapEsp → total entries ≤ c.dailyCapEsp

theorem Ledger.later {entries : List Entry} (h : Ledger c now entries) {later : ℚ}
    (hnow : now ≤ later) : Ledger c later entries :=
  ⟨h.ordered, fun e he => le_trans (h.past e he) hnow, h.amounts, h.within⟩

/-- An entry for which there is room is added. -/
theorem Ledger.snoc {entries : List Entry} (h : Ledger c now entries)
    (hfits : total (prune day now entries) + c.amountEsp ≤ c.dailyCapEsp) :
    Ledger c now (prune day now entries ++ [(now, c.amountEsp)]) := by
  have hsub : ∀ e ∈ prune day now entries, e ∈ entries := fun e he => (List.mem_filter.mp he).1
  refine ⟨?_, ?_, ?_, ?_⟩
  · refine List.pairwise_append.mpr ⟨h.ordered.filter _, List.pairwise_singleton _ _, ?_⟩
    intro e he e' he'
    rw [List.mem_singleton.mp he']
    exact h.past e (hsub e he)
  · intro e he
    rcases List.mem_append.mp he with he | he
    · exact h.past e (hsub e he)
    · rw [List.mem_singleton.mp he]
  · intro e he
    rcases List.mem_append.mp he with he | he
    · exact h.amounts e (hsub e he)
    · rw [List.mem_singleton.mp he]
  · rw [total_append, total_singleton]
    exact fun _ => hfits

/-- A request leaves the state file, or writes an entry for its address. -/
theorem doPost_state (c : Config) (s : State) (r : Request) : (doPost c s r).2 = s ∨
    ∃ addr, readAddress r = .ok addr ∧ Confirmed r.arkd ∧
      total (prune day r.now (s addr)) + c.amountEsp ≤ c.dailyCapEsp ∧
      (doPost c s r).2 =
        Function.update s addr (prune day r.now (s addr) ++ [(r.now, c.amountEsp)]) := by
  unfold doPost
  cases hread : readAddress r with
  | error answer => exact .inl rfl
  | ok addr =>
    cases hroom : c.room s addr r.now with
    | error answer =>
      left
      simp [hroom]
    | ok entries =>
      obtain ⟨hentries, hfits⟩ := room_ok.mp hroom
      simp only [hroom]
      cases hsend : broadcastAndConfirm r.arkd with
      | ok txhash =>
        right
        exact ⟨addr, rfl, broadcastAndConfirm_ok.mp ⟨txhash, hsend⟩, hfits, by rw [hentries]⟩
      | error e =>
        left
        cases e with
        | faucetError value => rfl
        | _ => rfl

theorem doPost_ledger (h : ∀ key, Ledger c r.now (s key)) (key : String) :
    Ledger c r.now ((doPost c s r).2 key) := by
  rcases doPost_state c s r with hsame | ⟨addr, _, _, hfits, hstate⟩
  · rw [hsame]
    exact h key
  · rw [hstate]
    by_cases hkey : key = addr
    · subst hkey
      rw [Function.update_self]
      exact (h key).snoc hfits
    · rw [Function.update_of_ne hkey]
      exact h key

/-- After any requests in order, every address has a ledger. -/
theorem run_ledger {rs : List Request} (htimes : rs.Pairwise fun r r' => r.now ≤ r'.now) {now : ℚ}
    (hnow : ∀ r ∈ rs, r.now ≤ now) (key : String) : Ledger c now ((run c rs).state key) := by
  induction rs using List.reverseRecOn generalizing now key with
  | nil => exact ⟨.nil, nofun, nofun, id⟩
  | append_singleton rs r ih =>
    obtain ⟨hrs, _, hlast⟩ := List.pairwise_append.mp htimes
    have hbefore := ih hrs fun q hq => hlast q hq r (List.mem_singleton.mpr rfl)
    have hrun : (run c (rs ++ [r])).state = (doPost c (run c rs).state r).2 := by
      unfold run
      rw [List.foldl_append]
      rfl
    rw [hrun]
    exact (doPost_ledger hbefore key).later (hnow r (by simp))

/-! ## Being turned away -/

def cappedError (c : Config) : String :=
  s!"daily cap of {c.dailyCapKash} KASH reached for this address"

/-- The request is answered with a 429 that says to come back in `n` seconds. -/
def TurnedAway (c : Config) (s : State) (r : Request) (n : Int) : Prop :=
  (doPost c s r).1 = .ok ⟨429, [("error", .str (cappedError c)), ("retry_after_seconds", .int n)]⟩

/-- There is no room for an entry. -/
def Full (c : Config) (entries : List Entry) : Prop :=
  c.dailyCapEsp < total entries + c.amountEsp

theorem doPost_full (hread : readAddress r = .ok addr)
    (hfull : Full c (prune day r.now (s addr))) (hcap : c.amountEsp ≤ c.dailyCapEsp) :
    ∃ e rest, prune day r.now (s addr) = e :: rest ∧ (doPost c s r).2 = s ∧
      TurnedAway c s r (truncate (86400 - (r.now - e.1))) := by
  cases hentries : prune day r.now (s addr) with
  | nil =>
    rw [hentries] at hfull
    have hempty : c.dailyCapEsp < 0 + c.amountEsp := hfull
    omega
  | cons e rest =>
    have hroom : c.room s addr r.now = .error (.ok ⟨429, [("error", .str (cappedError c)),
        ("retry_after_seconds", .int (truncate (86400 - (r.now - e.1))))]⟩) := by
      rw [hentries] at hfull
      unfold Config.room
      simp only [hentries]
      exact if_pos hfull
    refine ⟨e, rest, rfl, ?_, ?_⟩
    · simp only [doPost, hread, hroom]
    · simp only [TurnedAway, doPost, hread, hroom]

/-- Only who finds no room is answered with a 429. -/
theorem turnedAway_full {n : Int} (hread : readAddress r = .ok addr) (h : TurnedAway c s r n) :
    Full c (prune day r.now (s addr)) := by
  by_contra hroom
  have hfits : total (prune day r.now (s addr)) + c.amountEsp ≤ c.dailyCapEsp := not_lt.mp hroom
  have hentries := room_ok.mpr ⟨rfl, hfits⟩
  unfold TurnedAway doPost at h
  simp only [hread, hentries] at h
  cases hsend : broadcastAndConfirm r.arkd with
  | ok txhash => simp [hsend] at h
  | error e =>
    rw [hsend] at h
    cases e <;> simp at h

/-- Who finds room is served when the transfer is confirmed. -/
theorem doPost_served (hread : readAddress r = .ok addr)
    (hroom : ¬ Full c (prune day r.now (s addr))) (hconfirmed : Confirmed r.arkd) :
    ∃ txhash, (doPost c s r).1 = .ok ⟨200, [("address", .str addr),
      ("amount_kash", .int c.amountKash), ("tx_hash", txhash)]⟩ := by
  have hentries := room_ok.mpr ⟨rfl, not_lt.mp hroom⟩
  obtain ⟨txhash, hsend⟩ := broadcastAndConfirm_ok.mpr hconfirmed
  exact ⟨txhash, by simp [doPost, hread, hentries, hsend]⟩

/-! ## Coming back -/

/-- While the oldest entry that counts is not a day old, no other one is. -/
theorem prune_kept {entries rest : List Entry} {e : Entry} (h : Ledger c now entries)
    (hold : prune day now entries = e :: rest) {later : ℚ} (hnow : now ≤ later)
    (hyoung : later - e.1 < day) : prune day later entries = e :: rest := by
  rw [← prune_prune hnow, hold]
  apply List.filter_eq_self.mpr
  intro x hx
  have hle : e.1 ≤ x.1 := by
    have hordered : (e :: rest).Pairwise fun e e' => e.1 ≤ e'.1 := hold ▸ h.ordered.filter _
    rcases List.mem_cons.mp hx with rfl | hx
    · exact le_rfl
    · exact (List.pairwise_cons.mp hordered).1 x hx
  apply decide_eq_true
  linarith

/-- Of an amount below zero there is always room for one more. -/
theorem amount_nonneg_of_full {entries : List Entry} (h : Ledger c now entries)
    (hcap : c.amountEsp ≤ c.dailyCapEsp) (hfull : Full c (prune day now entries)) :
    0 ≤ c.amountEsp := by
  by_contra hneg
  have hnonpos : total (prune day now entries) ≤ 0 := by
    apply total_nonpos
    intro e he
    rw [h.amounts e (List.mem_filter.mp he).1]
    exact (not_le.mp hneg).le
  unfold Full at hfull
  omega

/-- Once it is, there is room. -/
theorem prune_room {entries rest : List Entry} {e : Entry} (hamount : 0 ≤ c.amountEsp)
    (hcap : c.amountEsp ≤ c.dailyCapEsp) (h : Ledger c now entries)
    (hold : prune day now entries = e :: rest) {later : ℚ} (hnow : now ≤ later)
    (haged : day ≤ later - e.1) : ¬ Full c (prune day later entries) := by
  have hsub : ∀ x ∈ e :: rest, x ∈ entries := fun x hx =>
    (List.mem_filter.mp (hold ▸ hx : x ∈ prune day now entries)).1
  have hpos : ∀ x ∈ entries, 0 ≤ x.2 := fun x hx => (h.amounts x hx).symm ▸ hamount
  have hlater : prune day later entries = prune day later rest := by
    rw [← prune_prune hnow, hold]
    exact List.filter_cons_of_neg (by simpa using haged)
  -- what is left of the entries, and the oldest one beside it, fit the cap
  have hrest : total (prune day later rest) ≤ total rest :=
    total_le_of_sublist List.filter_sublist fun x hx => hpos x (hsub x (List.mem_cons_of_mem e hx))
  have hall : total (e :: rest) ≤ total entries := by
    rw [← hold]
    exact total_le_of_sublist List.filter_sublist hpos
  have hcons : total (e :: rest) = c.amountEsp + total rest := by
    rw [← h.amounts e (hsub e List.mem_cons_self)]
    simp [total]
  have hwithin := h.within (le_trans hamount hcap)
  unfold Full
  rw [hlater]
  omega

/-- The seconds that a 429 gives, and when the oldest entry is a day old. -/
theorem truncate_bounds {x : ℚ} (hpos : 0 < x) :
    (0 ≤ truncate x ∧ (truncate x : ℚ) ≤ x) ∧ x < truncate x + 1 := by
  unfold truncate
  rw [if_neg (not_lt.mpr hpos.le)]
  exact ⟨⟨Int.floor_nonneg.mpr hpos.le, Int.floor_le x⟩, Int.lt_floor_add_one x⟩

/-- A request whose address is not read is answered with another code. -/
theorem readAddress_code {reply : Reply} (h : readAddress r = .error (.ok reply)) :
    reply.code = 404 ∨ reply.code = 400 := by
  unfold readAddress at h
  split at h
  · cases h
    exact .inl rfl
  · split at h
    · cases h
      exact .inr rfl
    · cases h
      exact .inr rfl
    · cases h
    · split at h
      · cases h
        exact .inr rfl
      · cases h
    · cases h

theorem turnedAway_read {n : Int} (h : TurnedAway c s r n) : ∃ addr, readAddress r = .ok addr := by
  cases hread : readAddress r with
  | ok addr => exact ⟨addr, rfl⟩
  | error answer =>
    have hanswer : answer = .ok ⟨429, [("error", .str (cappedError c)),
        ("retry_after_seconds", .int n)]⟩ := by
      simpa only [TurnedAway, doPost, hread] using h
    rw [hanswer] at hread
    rcases readAddress_code hread with hcode | hcode
    · cases hcode
    · cases hcode

/-- What stops the requests `rs` from changing the entries of `addr`: each that asks for it comes
before the oldest entry `e` is a day old, or is not confirmed. -/
def Quiet (addr : String) (e : Entry) (rs : List Request) : Prop :=
  ∀ q ∈ rs, readAddress q = .ok addr → q.now - e.1 < day ∨ ¬ Confirmed q.arkd

/-- Requests in between leave the entries of an address that is full. -/
theorem turnedAway_kept {rs : List Request} {e : Entry}
    {rest : List Entry} (hledger : Ledger c now (s addr)) (hold : prune day now (s addr) = e :: rest)
    (hfull : Full c (e :: rest)) (hnow : ∀ q ∈ rs, now ≤ q.now) (hquiet : Quiet addr e rs) {w : World}
    (hw : w.state addr = s addr) : (rs.foldl (step c) w).state addr = s addr := by
  induction rs generalizing w with
  | nil => exact hw
  | cons q rs ih =>
    obtain ⟨hq, hnow⟩ := List.forall_mem_cons.mp hnow
    obtain ⟨hqq, hquiet⟩ := List.forall_mem_cons.mp hquiet
    refine ih hnow hquiet ?_
    show (doPost c w.state q).2 addr = s addr
    rcases doPost_state c w.state q with hsame | ⟨addr', hread, hconfirmed, hfits, hstate⟩
    · rw [hsame, hw]
    · rw [hstate]
      by_cases haddr : addr = addr'
      · subst haddr
        -- the address itself was served: not before the oldest entry is a day old
        rcases hqq hread with hyoung | hnot
        · rw [hw, prune_kept hledger hold hq hyoung] at hfits
          exact absurd hfull (not_lt.mpr hfits)
        · exact absurd hconfirmed hnot
      · rw [Function.update_of_ne haddr, hw]

/-- An address is told the seconds that its oldest entry that counts lacks of a day. -/
theorem TurnedAway.oldest {n : Int} (h : TurnedAway c s r n) (hread : readAddress r = .ok addr)
    (hledger : Ledger c r.now (s addr)) (hcap : c.amountEsp ≤ c.dailyCapEsp) :
    ∃ e rest, prune day r.now (s addr) = e :: rest ∧ Full c (e :: rest) ∧ (doPost c s r).2 = s ∧
      e.1 ≤ r.now ∧ 0 ≤ n ∧ (n : ℚ) ≤ 86400 - (r.now - e.1) ∧ 86400 - (r.now - e.1) < n + 1 := by
  have hfull := turnedAway_full hread h
  obtain ⟨e, rest, hold, hstate, hanswer⟩ := doPost_full hread hfull hcap
  rw [hold] at hfull
  have he : e ∈ prune day r.now (s addr) := hold ▸ List.mem_cons_self
  obtain ⟨hin, hcounts⟩ := List.mem_filter.mp he
  have hyoung : r.now - e.1 < day := of_decide_eq_true hcounts
  have hpos : 0 < 86400 - (r.now - e.1) := by
    unfold day at hyoung
    linarith
  obtain ⟨⟨hn0, hnle⟩, hnlt⟩ := truncate_bounds hpos
  have hn : n = truncate (86400 - (r.now - e.1)) := by
    have hboth := h.symm.trans hanswer
    simpa using hboth
  rw [← hn] at hn0 hnle hnlt
  exact ⟨e, rest, hold, hfull, hstate, hledger.past e hin, hn0, hnle, hnlt⟩

/-- **The 429 is exact.** An address that is turned away with `n` seconds, at most a day, is
turned away again, with no more than `n`, whenever it comes back earlier, whatever was asked for in
between; and when it comes back later by a second or more, it is served if its transfer is
confirmed, unless it was served in between. -/
theorem retry_exact (c : Config) (hcap : c.amountKash ≤ c.dailyCapKash)
    {rs rs' : List Request} {r r' : Request} {n : Int}
    (htimes : (rs ++ r :: (rs' ++ [r'])).Pairwise fun r r' => r.now ≤ r'.now)
    (hsame : readAddress r' = readAddress r) (h : TurnedAway c (run c rs).state r n) :
    0 ≤ n ∧ n ≤ 86400 ∧
    (r'.now < r.now + n →
      ∃ n' ≤ n, TurnedAway c (run c (rs ++ r :: rs')).state r' n') ∧
    (r.now + n + 1 ≤ r'.now → Confirmed r'.arkd →
      (∀ q ∈ rs', readAddress q = readAddress r → r.now + n ≤ q.now → ¬ Confirmed q.arkd) →
      ∃ addr txhash, (doPost c (run c (rs ++ r :: rs')).state r').1 = .ok ⟨200,
        [("address", .str addr), ("amount_kash", .int c.amountKash), ("tx_hash", txhash)]⟩) := by
  have hcap' : c.amountEsp ≤ c.dailyCapEsp :=
    mul_le_mul_of_nonneg_right hcap (pow_nonneg (by decide) 18)
  obtain ⟨hrs, hr, hrlast⟩ := List.pairwise_append.mp htimes
  obtain ⟨hlater, hrest⟩ := List.pairwise_cons.mp hr
  obtain ⟨_, _, hlast⟩ := List.pairwise_append.mp hrest
  obtain ⟨addr, hread⟩ := turnedAway_read h
  have hledger := run_ledger (c := c) hrs (fun q hq => hrlast q hq r List.mem_cons_self) addr
  have hamount := amount_nonneg_of_full hledger hcap' (turnedAway_full hread h)
  obtain ⟨e, rest, hold, hfull, hstate, hpast, hn0, hnle, hnlt⟩ := h.oldest hread hledger hcap'
  have hkept : Quiet addr e rs' →
      (run c (rs ++ r :: rs')).state addr = (run c rs).state addr := by
    intro hquiet
    have hrun : run c (rs ++ r :: rs') = rs'.foldl (step c) (step c (run c rs) r) := by
      unfold run
      rw [List.foldl_append, List.foldl_cons]
    rw [hrun]
    refine turnedAway_kept hledger hold hfull (fun q hq => hlater q (by simp [hq])) hquiet ?_
    exact congrFun hstate addr
  have hr' : r.now ≤ r'.now := hlater r' (by simp)
  refine ⟨hn0, ?_, fun hearly => ?_, fun hlate hconfirmed hnone => ?_⟩
  · have hle : (n : ℚ) ≤ 86400 := by linarith
    exact_mod_cast hle
  · have hquiet : Quiet addr e rs' := by
      intro q hq _
      left
      have := hlast q hq r' (List.mem_singleton.mpr rfl)
      unfold day
      linarith
    have hyoung' : r'.now - e.1 < day := by
      unfold day
      linarith
    have hold' : prune day r'.now ((run c (rs ++ r :: rs')).state addr) = e :: rest := by
      rw [hkept hquiet]
      exact prune_kept hledger hold hr' hyoung'
    obtain ⟨e', rest', he', _, hanswer'⟩ := doPost_full (hsame.trans hread)
      (hold'.symm ▸ hfull) hcap'
    rw [hold'] at he'
    cases he'
    refine ⟨_, ?_, hanswer'⟩
    -- the time that is left has only become less
    obtain ⟨⟨_, hnle'⟩, _⟩ := truncate_bounds (x := 86400 - (r'.now - e.1)) (by
      unfold day at hyoung'
      linarith)
    have hlt : ((truncate (86400 - (r'.now - e.1)) : ℤ) : ℚ) < n + 1 := by linarith
    have hlt : truncate (86400 - (r'.now - e.1)) < n + 1 := by exact_mod_cast hlt
    omega
  · have hquiet : Quiet addr e rs' := by
      intro q hq hq'
      by_cases hearly : q.now < r.now + n
      · left
        unfold day
        linarith
      · exact .inr (hnone q hq (hq'.trans hread.symm) (not_lt.mp hearly))
    have haged : day ≤ r'.now - e.1 := by
      unfold day
      linarith
    have hroom : ¬ Full c (prune day r'.now ((run c (rs ++ r :: rs')).state addr)) := by
      rw [hkept hquiet]
      exact prune_room hamount hcap' hledger hold hr' haged
    obtain ⟨txhash, hserved⟩ := doPost_served (hsame.trans hread) hroom hconfirmed
    exact ⟨addr, txhash, hserved⟩

/-! ## Six requests -/

theorem readAddress_requestAt (attempt : Completed) (now : ℕ) :
    readAddress (requestAt attempt now) = .ok (keyOf lucky) := by
  have hkey : normalizeAddress ("0x" ++ .ofList (List.replicate 40 '1')) = some (keyOf lucky) := by
    decide +kernel
  unfold readAddress requestAt
  simp only [ne_eq, not_true_eq_false, if_false, bind, Except.bind, subscript, List.lookup_cons_self,
    hkey]
  rfl

/-- Five requests in five seconds, which fill the cap. -/
def fiveRequests : List Request := (List.range 5).map (requestAt found)

/-- The sixth is told to come back when the first is a day old. -/
theorem sixth_turnedAway :
    TurnedAway defaultConfig (run defaultConfig fiveRequests).state (requestAt found 5) 86395 := by
  have hold : prune day (requestAt found 5).now
      ((run defaultConfig fiveRequests).state (keyOf lucky)) =
        (List.range 5).map fun now : ℕ => ((now : ℚ), defaultConfig.amountEsp) := by
    decide +kernel
  have hfull : Full defaultConfig (prune day (requestAt found 5).now
      ((run defaultConfig fiveRequests).state (keyOf lucky))) := by
    rw [hold]
    unfold Full
    decide +kernel
  obtain ⟨e, rest, he, _, hanswer⟩ := doPost_full (readAddress_requestAt found 5) hfull
    (by decide +kernel)
  have hcons : e :: rest = _ := he.symm.trans hold
  have hsecs : truncate (86400 - ((requestAt found 5).now - e.1)) = 86395 := by
    rw [(List.cons.inj hcons).1]
    decide +kernel
  exact hsecs ▸ hanswer

/-- Earlier it is turned away again, and a second later it is served. -/
theorem sixth_retry :
    (∃ n' ≤ 86395, TurnedAway defaultConfig
      (run defaultConfig (fiveRequests ++ requestAt found 5 :: [])).state
      (requestAt found 86399) n') ∧
    ∃ addr txhash, (doPost defaultConfig
        (run defaultConfig (fiveRequests ++ requestAt found 5 :: [])).state
        (requestAt found 86401)).1 =
      .ok ⟨200, [("address", .str addr), ("amount_kash", .int defaultConfig.amountKash),
        ("tx_hash", txhash)]⟩ := by
  have hsame : ∀ now, readAddress (requestAt found now) = readAddress (requestAt found 5) :=
    fun now => (readAddress_requestAt found now).trans (readAddress_requestAt found 5).symm
  have hearlyTimes : (fiveRequests ++ requestAt found 5 :: ([] ++ [requestAt found 86399])).Pairwise
      fun r r' => r.now ≤ r'.now := by
    decide +kernel
  have hlateTimes : (fiveRequests ++ requestAt found 5 :: ([] ++ [requestAt found 86401])).Pairwise
      fun r r' => r.now ≤ r'.now := by
    decide +kernel
  obtain ⟨_, _, hearly, _⟩ := retry_exact defaultConfig (by decide) hearlyTimes
    (hsame 86399) sixth_turnedAway
  obtain ⟨_, _, _, hlate⟩ := retry_exact defaultConfig (by decide) hlateTimes
    (hsame 86401) sixth_turnedAway
  exact ⟨hearly (by decide +kernel), hlate (by decide +kernel) arkdWith_found
    fun q hq => absurd hq List.not_mem_nil⟩

end Ark.Faucet
