import Ark.Queries

/- Queries that share messages answer as if each had a new one to itself. A message is held
   by one query at a time (`Pool.Exclusive`), and all messages of a pool are of the type the
   path's `New` makes; `Unmarshal` resets what it decodes into, so of a used message nothing
   is left in the answer. `Follows` says of one query, by its phase, that what is still to
   come ends as the plain query does; it speaks of the query's own message only, so steps of
   others do not touch it. -/
namespace Ark.Queries
open Ark.Lib

variable {M Ctx T Kind : Type}

/-- Decoding does not look at what was in a message, and leaves its type. -/
structure Env.Resets (e : Env M Ctx) (kind : M → Kind) : Prop where
  unmarshal_eq : ∀ bz m m', kind m = kind m' → e.unmarshal bz m = e.unmarshal bz m'
  kind_unmarshal : ∀ bz m, kind (e.unmarshal bz m).1 = kind m

/-- `m` is of the type that the path's pool makes. -/
def Made (pools : Pools M) (kind : M → Kind) (queryPath : String) (m : M) : Prop :=
  ∃ new, pools queryPath = some (some new) ∧ kind m = kind new

/-- The message that task `t` holds. -/
def State.mine (s : State T M) (t : T) : Option M := (s.pool.held t).map fun x => s.pool.cell x.2

/-- What is left of a query ends as the plain query. -/
def Follows (e : Env M Ctx) (pools : Pools M) (kind : M → Kind) (r : Request Ctx)
    (mine : Option M) : Phase M → Prop
  | .idle => True
  | .holding => ∃ m, mine = some m ∧ Made pools kind r.path m
  | .answered value => ∃ m, mine = some m ∧ Made pools kind r.path m ∧ e.answer r = .ok value
  | .decoded => ∃ m, mine = some m ∧ e.plain pools r = e.reply r.querier m
  | .leaving res => mine.isSome ∧ e.plain pools r = res
  | .done res => e.plain pools r = res

structure Inv (e : Env M Ctx) (pools : Pools M) (kind : M → Kind) (req : T → Request Ctx)
    (s : State T M) : Prop where
  exclusive : s.pool.Exclusive (Made pools kind)
  follows : ∀ t, Follows e pools kind (req t) (s.mine t) (s.phase t)

section
variable {e : Env M Ctx} {pools : Pools M} {kind : M → Kind} {req : T → Request Ctx}

theorem inv_initial (m : M) : Inv e pools kind req (.initial m) :=
  ⟨Pool.empty_exclusive m, fun _ => trivial⟩

/-! ## The plain query -/

theorem plain_of_made {r : Request Ctx} (hreset : e.Resets kind) {m : M}
    (hm : Made pools kind r.path m) :
    e.plain pools r = (e.answer r).bind fun value => e.conclude r value m := by
  obtain ⟨new, hnew, hkind⟩ := hm
  unfold Env.plain isWhitelistedQuery
  rw [hnew]
  show (e.answer r).bind _ = _
  congr 1
  funext value
  unfold Env.conclude
  rw [hreset.unmarshal_eq value m new hkind]

theorem follows_answer {r : Request Ctx} (hreset : e.Resets kind) {mine : Option M}
    (h : Follows e pools kind r mine .holding) :
    Follows e pools kind r mine (afterAnswer (e.answer r)) := by
  obtain ⟨m, hmine, hm⟩ := h
  cases hanswer : e.answer r with
  | ok value => exact ⟨m, hmine, hm, hanswer⟩
  | error err =>
    refine ⟨by rw [hmine]; rfl, ?_⟩
    rw [plain_of_made hreset hm, hanswer]
    rfl

theorem follows_unmarshal {r : Request Ctx} (hreset : e.Resets kind) {value : Bytes} {m : M}
    (h : Follows e pools kind r (some m) (.answered value)) :
    Follows e pools kind r (some (e.unmarshal value m).1)
      (afterUnmarshal r.path (e.unmarshal value m).2) := by
  obtain ⟨m', hmine, hm, hanswer⟩ := h
  cases hmine
  have hplain : e.plain pools r = e.conclude r value m := by
    rw [plain_of_made hreset hm, hanswer]
    rfl
  unfold Env.conclude at hplain
  cases herr : (e.unmarshal value m).2 with
  | some err =>
    rw [herr] at hplain
    exact ⟨rfl, hplain⟩
  | none =>
    rw [herr] at hplain
    exact ⟨_, rfl, hplain⟩

theorem made_unmarshal (hreset : e.Resets kind) {queryPath : String} (value : Bytes) {m : M}
    (hm : Made pools kind queryPath m) : Made pools kind queryPath (e.unmarshal value m).1 := by
  obtain ⟨new, hnew, hkind⟩ := hm
  exact ⟨new, hnew, (hreset.kind_unmarshal value m).trans hkind⟩

/-! ## One step -/

variable {s s' : State T M} {t : T}

theorem mine_of_held {k : String} {i : Nat} (h : s.pool.held t = some (k, i)) :
    s.mine t = some (s.pool.cell i) := by
  unfold State.mine
  rw [h]
  rfl

theorem mine_congr (hheld : s'.pool.held t = s.pool.held t)
    (hcell : ∀ k i, s.pool.held t = some (k, i) → s'.pool.cell i = s.pool.cell i) :
    s'.mine t = s.mine t := by
  unfold State.mine
  rw [hheld]
  cases h : s.pool.held t with
  | none => rfl
  | some x => exact congrArg some (hcell x.1 x.2 h)

variable [DecidableEq T]

@[simp] theorem phase_goto (s : State T M) (t : T) (phase : Phase M) :
    (s.goto t phase).phase t = phase := Function.update_self ..

theorem phase_goto_ne {u : T} (h : u ≠ t) (phase : Phase M) :
    (s.goto t phase).phase u = s.phase u := Function.update_of_ne h ..

/-- A step of task `t` that leaves the messages of the others alone and follows. -/
theorem Inv.query {q : Pool String T M} {phase : Phase M} (h : Inv e pools kind req s)
    (hexclusive : q.Exclusive (Made pools kind))
    (hheld : ∀ u, u ≠ t → q.held u = s.pool.held u)
    (hcell : ∀ u k i, u ≠ t → s.pool.held u = some (k, i) → q.cell i = s.pool.cell i)
    (hfollows : Follows e pools kind (req t) ((q.held t).map fun x => q.cell x.2) phase) :
    Inv e pools kind req ({ s with pool := q }.goto t phase) := by
  refine ⟨hexclusive, fun u => ?_⟩
  by_cases hu : u = t
  · rw [hu, phase_goto]
    exact hfollows
  · have hmine : ({ s with pool := q }.goto t phase).mine u = s.mine u :=
      mine_congr (hheld u hu) fun k i hi => hcell u k i hu hi
    rw [phase_goto_ne hu, hmine]
    exact h.follows u

/-- A step of task `t` that no message has a part in. -/
theorem Inv.goto {phase : Phase M} (h : Inv e pools kind req s)
    (hfollows : Follows e pools kind (req t) (s.mine t) phase) :
    Inv e pools kind req (s.goto t phase) :=
  h.query h.exclusive (fun _ _ => rfl) (fun _ _ _ _ _ => rfl) hfollows

theorem inv_step (hreset : e.Resets kind) {event : Event T} (h : Inv e pools kind req s)
    (hstep : Step e pools req s event s') : Inv e pools kind req s' := by
  cases hstep with
  | refuse hidle herr =>
    apply h.goto
    show e.plain pools _ = _
    rw [Env.plain, herr]
    rfl
  | lack hidle hnew =>
    apply h.goto
    show e.plain pools _ = _
    rw [Env.plain, isWhitelistedQuery, hnew]
    rfl
  | @reuse t new i hidle hnew hi =>
    refine h.query (h.exclusive.take hi) (fun u hu => Pool.held_take_ne hu) (fun _ _ _ _ _ => rfl) ?_
    rw [Pool.held_take]
    exact ⟨_, rfl, h.exclusive.content (Pool.at_free hi)⟩
  | @allocate t m hidle hnew =>
    have hm : Made pools kind (req t).path m := ⟨m, hnew, rfl⟩
    refine h.query (h.exclusive.fresh hm) (fun u hu => Pool.held_fresh_ne hu) ?_ ?_
    · intro u k i _ hi
      exact Pool.cell_fresh_ne (Nat.ne_of_lt (h.exclusive.lt_next (x := .held u) hi))
    · rw [Pool.held_fresh]
      exact ⟨m, congrArg some Pool.cell_fresh, hm⟩
  | @answer t hholding =>
    have hfollows := h.follows t
    rw [hholding] at hfollows
    exact h.goto (follows_answer hreset hfollows)
  | @unmarshal t value k i hanswered hheld =>
    have hfollows := h.follows t
    rw [hanswered, mine_of_held hheld] at hfollows
    have hat : s.pool.At (.held t) k i := hheld
    have hmade := made_unmarshal hreset value (h.exclusive.content hat)
    refine h.query (h.exclusive.write hat hmade) (fun _ _ => rfl) ?_ ?_
    · intro u k' j hu hj
      -- the cell is held by `t` alone
      refine Pool.cell_write_ne fun hji => hu ?_
      cases h.exclusive.unique (x := .held u) (hji ▸ hj) hat
      rfl
    · have hmine := follows_unmarshal hreset hfollows
      show Follows e pools kind (req t) ((s.pool.held t).map _) _
      rw [hheld, Option.map_some, Pool.cell_write]
      exact hmine
  | @reply t k i hdecoded hheld =>
    have hfollows := h.follows t
    rw [hdecoded] at hfollows
    obtain ⟨m, hmine, hplain⟩ := hfollows
    have hm : s.pool.cell i = m := Option.some.inj ((mine_of_held hheld).symm.trans hmine)
    apply h.goto
    rw [hm]
    exact ⟨by rw [hmine]; rfl, hplain⟩
  | @put t res hleaving =>
    have hfollows := h.follows t
    rw [hleaving] at hfollows
    obtain ⟨hmine, hplain⟩ := hfollows
    obtain ⟨x, hheld⟩ : ∃ x, s.pool.held t = some x := by
      cases hheld : s.pool.held t with
      | none => simp [State.mine, hheld] at hmine
      | some x => exact ⟨x, rfl⟩
    have hgive := Pool.give_of_held hheld
    refine h.query (h.exclusive.give hheld) ?_ ?_ hplain
    · intro u hu
      rw [hgive]
      exact Function.update_of_ne hu ..
    · intro u k i _ _
      rw [hgive]
  | @evict queryPath i => exact ⟨h.exclusive.evict, h.follows⟩

/-! ## Runs -/

/-- How many steps of its own a query has before it, at most. -/
def Phase.left : Phase M → Nat
  | .idle => 5
  | .holding => 4
  | .answered _ => 3
  | .decoded => 2
  | .leaving _ => 1
  | .done _ => 0

theorem left_afterAnswer (answer : Except QueryError Bytes) :
    (afterAnswer answer : Phase M).left < 4 := by
  cases answer <;> simp [afterAnswer, Phase.left]

theorem left_afterUnmarshal (queryPath : String) (err : Option String) :
    (afterUnmarshal queryPath err : Phase M).left < 3 := by
  cases err <;> simp [afterUnmarshal, Phase.left]

/-- A query's own step takes it further. -/
theorem Step.left_lt (h : Step e pools req s (.query t) s') :
    (s'.phase t).left < (s.phase t).left := by
  cases h with
  | refuse hphase _ => simp [hphase, Phase.left]
  | reuse hphase _ _ => simp [hphase, Phase.left]
  | allocate hphase _ => simp [hphase, Phase.left]
  | lack hphase _ => simp [hphase, Phase.left]
  | answer hphase =>
    rw [phase_goto, hphase]
    exact left_afterAnswer _
  | unmarshal hphase _ =>
    rw [phase_goto, hphase]
    exact left_afterUnmarshal _ _
  | reply hphase _ => simp [hphase, Phase.left]
  | put hphase => simp [hphase, Phase.left]

/-- Other steps leave it where it is. -/
theorem Step.phase_eq {event : Event T} (h : Step e pools req s event s')
    (hne : event ≠ .query t) : s'.phase t = s.phase t := by
  cases h with
  | evict => rfl
  | _ => exact phase_goto_ne (fun heq => hne (congrArg Event.query heq.symm)) _

/-- A query that is not done can go on, whatever the others do. -/
theorem progress (h : Inv e pools kind req s) (t : T) :
    (∃ res, s.phase t = .done res) ∨ ∃ s', Step e pools req s (.query t) s' := by
  have hfollows := h.follows t
  have hheld : (s.mine t).isSome → ∃ k i, s.pool.held t = some (k, i) := by
    intro hsome
    cases hheld : s.pool.held t with
    | none => simp [State.mine, hheld] at hsome
    | some x => exact ⟨x.1, x.2, rfl⟩
  cases hphase : s.phase t with
  | done res => exact .inl ⟨res, rfl⟩
  | idle =>
    right
    cases hpool : pools (req t).path with
    | none =>
      have herr : ∃ err, isWhitelistedQuery pools (req t).path = .error err := by
        rw [isWhitelistedQuery, hpool]
        exact ⟨_, rfl⟩
      obtain ⟨err, herr⟩ := herr
      exact ⟨_, .refuse hphase herr⟩
    | some new =>
      cases new with
      | none => exact ⟨_, .lack hphase hpool⟩
      | some m => exact ⟨_, .allocate hphase hpool⟩
  | holding => exact .inr ⟨_, .answer hphase⟩
  | answered value =>
    rw [hphase] at hfollows
    obtain ⟨m, hmine, _⟩ := hfollows
    obtain ⟨k, i, hi⟩ := hheld (by rw [hmine]; rfl)
    exact .inr ⟨_, .unmarshal hphase hi⟩
  | decoded =>
    rw [hphase] at hfollows
    obtain ⟨m, hmine, _⟩ := hfollows
    obtain ⟨k, i, hi⟩ := hheld (by rw [hmine]; rfl)
    exact .inr ⟨_, .reply hphase hi⟩
  | leaving res => exact .inr ⟨_, .put hphase⟩

/-- Over any run of queries that share their messages, in any order of their steps and whatever
the pools lose, a query that is done has the answer it would have by itself with a new message; no
two queries hold one message; and none waits for another: one that is not done has a next step,
each brings it further, and it takes no more than five. -/
theorem pooled_plain (e : Env M Ctx) (pools : Pools M) (kind : M → Kind) (hreset : e.Resets kind)
    (req : T → Request Ctx) (m : M) (events : List (Event T)) (s : State T M)
    (h : Steps (Step e pools req) (.initial m) events s) :
    (∀ t res, s.phase t = .done res → res = e.plain pools (req t)) ∧
    (∀ t t' k k' i, s.pool.held t = some (k, i) → s.pool.held t' = some (k', i) → t = t') ∧
    ∀ t, ((∃ res, s.phase t = .done res) ∨ ∃ s', Step e pools req s (.query t) s') ∧
      (∀ s', Step e pools req s (.query t) s' → (s'.phase t).left < (s.phase t).left) ∧
      events.count (.query t) + (s.phase t).left ≤ 5 := by
  have hinv : Inv e pools kind req s :=
    h.invariant (Inv e pools kind req) (fun _ _ _ _ hi hstep => inv_step hreset hi hstep)
      (inv_initial m)
  refine ⟨fun t res hdone => ?_, fun t t' k k' i hi hi' => ?_,
    fun t => ⟨progress hinv t, fun s' hstep => hstep.left_lt, ?_⟩⟩
  · have hfollows := hinv.follows t
    rw [hdone] at hfollows
    exact hfollows.symm
  · cases hinv.exclusive.unique (x := .held t) (y := .held t') hi hi'
    rfl
  · refine h.count_add_le (fun s => (s.phase t).left) (fun s s' hstep => hstep.left_lt) ?_
    intro s event s' hne hstep
    exact Nat.le_of_eq (congrArg Phase.left (hstep.phase_eq hne))

end

/-! ## Two queries and one message -/

/-- A message is its type and its content; the response is the height of the context. -/
def sampleEnv : Env (String × Bytes) UInt8 where
  route _ := some fun height _ => .ok (some [height])
  unmarshal bz m := ((m.1, bz), none)
  marshalJSON m := .ok m.2

def samplePools : Pools (String × Bytes) := fun _ => some (some ("Supply", []))

/-- The first through the one interface, the second through the other. -/
def sampleRequest : Nat → Request UInt8
  | 0 => ⟨.stargate, 1, "/ark/Supply", []⟩
  | _ => ⟨.grpc, 2, "/ark/Supply", []⟩

theorem sampleEnv_resets : sampleEnv.Resets Prod.fst where
  unmarshal_eq bz m m' h := by
    show ((m.1, bz), none) = ((m'.1, bz), none)
    rw [h]
  kind_unmarshal _ _ := rfl

/-- The second query is given the message that the first has put back, and nothing of the first is
left in its answer. -/
theorem reused_plain :
    ∃ events s, Steps (Step sampleEnv samplePools sampleRequest) (.initial ("", [])) events s ∧
      s.pool.next = 1 ∧ s.phase 1 = .done (.ok (.message ("Supply", [2]))) ∧
      sampleEnv.plain samplePools (sampleRequest 1) = .ok (.message ("Supply", [2])) := by
  have hrun : ∃ events s, Steps (Step sampleEnv samplePools sampleRequest)
      (.initial ("", [])) events s ∧ s.pool.next = 1 ∧
        s.phase 1 = .done (.ok (.message ("Supply", [2]))) :=
    ⟨_, _, .cons (.allocate (t := 0) rfl rfl) <| .cons (.answer (t := 0) rfl) <|
      .cons (.unmarshal (t := 0) rfl rfl) <| .cons (.reply (t := 0) rfl rfl) <|
      .cons (.put (t := 0) rfl) <| .cons (.reuse (t := 1) (i := 0) rfl rfl (.head _)) <|
      .cons (.answer (t := 1) rfl) <| .cons (.unmarshal (t := 1) rfl rfl) <|
      .cons (.reply (t := 1) rfl rfl) <| .cons (.put (t := 1) rfl) <| .nil _, rfl, rfl⟩
  obtain ⟨events, s, hsteps, hnext, hdone⟩ := hrun
  obtain ⟨hplain, _, _⟩ := pooled_plain sampleEnv samplePools Prod.fst sampleEnv_resets
    sampleRequest ("", []) events s hsteps
  exact ⟨events, s, hsteps, hnext, hdone, (hplain 1 _ hdone).symm⟩

end Ark.Queries
