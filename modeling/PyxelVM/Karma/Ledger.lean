/-
  PyxelVM.Karma.Ledger — the event log accounts for every score.

  `replay` folds a log from karma 50 and experience 0, clamping after each entry. An
  `Account` is a node's log with its karma, experience and level; it is `Balanced` when
  the replayed log gives the karma and the experience, and the experience the level. A
  call leaves every account as it is, or posts one record to one account (`Posts`):
  `step_accounts`. Posting keeps a balanced account balanced. Decay posts what its
  periods took in all: of a balanced account that is never negative.

  - `log_accounts`: along every run of calls and restarts every account is balanced, and
    so karma is in 0..100 and experience not negative.
-/

import PyxelVM.Karma.Kept

namespace PyxelVM.Karma

open PyxelVM.Lib

/-! ## Accounts -/

/-- Karma and experience after the record. -/
def KarmaEventRecord.apply (r : KarmaEventRecord) (kx : Int × Int) : Int × Int :=
  (max 0 (min 100 (kx.1 + r.karmaDelta)), max 0 (kx.2 + r.xpDelta))

/-- Karma and experience as the log has them. -/
def replay (log : List KarmaEventRecord) : Int × Int := log.foldl (fun kx r => r.apply kx) (50, 0)

structure Account where
  log : List KarmaEventRecord
  karma : Int
  experience : Int
  level : NodeLevel
  deriving DecidableEq

def Memory.account (m : Memory) (nodeId : String) : Account :=
  ⟨m.eventLog.getD nodeId [], (m.scoreOf nodeId).karma, (m.scoreOf nodeId).totalExperience, (m.scoreOf nodeId).level⟩

structure Account.Balanced (a : Account) : Prop where
  replayed : replay a.log = (a.karma, a.experience)
  level : a.level = computeLevel a.experience

def Account.post (a : Account) (r : KarmaEventRecord) : Account :=
  let kx := r.apply (a.karma, a.experience)
  ⟨a.log ++ [r], kx.1, kx.2, computeLevel kx.2⟩

theorem replay_snoc (log : List KarmaEventRecord) (r : KarmaEventRecord) : replay (log ++ [r]) = r.apply (replay log) := by
  simp [replay]

theorem Account.Balanced.post {a : Account} (h : a.Balanced) (r : KarmaEventRecord) : (a.post r).Balanced :=
  ⟨by rw [Account.post, replay_snoc, h.replayed], rfl⟩

theorem replay_bounds (log : List KarmaEventRecord) : 0 ≤ (replay log).1 ∧ (replay log).1 ≤ 100 ∧ 0 ≤ (replay log).2 := by
  induction log using List.reverseRecOn with
  | nil => decide
  | append_singleton log r _ =>
    rw [replay_snoc]
    simp only [KarmaEventRecord.apply]
    omega

theorem Account.Balanced.bounds {a : Account} (h : a.Balanced) : 0 ≤ a.karma ∧ a.karma ≤ 100 ∧ 0 ≤ a.experience := by
  have hb := replay_bounds a.log
  rwa [h.replayed] at hb

/-! ## Changes that leave the accounts alone -/

def SameAccounts (m m' : Memory) : Prop := ∀ n, m'.account n = m.account n

/-- The record is posted to the node's account, and the others are left alone. -/
def Posts (n : String) (r : KarmaEventRecord) (m m' : Memory) : Prop :=
  ∀ k, m'.account k = if k = n then (m.account n).post r else m.account k

theorem SameAccounts.trans {a b c : Memory} (h : SameAccounts a b) (k : SameAccounts b c) : SameAccounts a c :=
  fun n => (k n).trans (h n)

theorem SameAccounts.posts {a b c d : Memory} {n : String} {r : KarmaEventRecord} (h : SameAccounts a b) (hp : Posts n r b c)
    (k : SameAccounts c d) : Posts n r a d := by
  intro l
  rw [k l, hp l, h n, h l]

theorem account_setScore (m : Memory) (n k : String) (sc : KarmaScore) :
    (m.setScore n sc).account k =
      if k = n then ⟨m.eventLog.getD n [], sc.karma, sc.totalExperience, sc.level⟩ else m.account k := by
  unfold Memory.account
  rw [scoreOf_setScore]
  by_cases h : k = n
  · rw [if_pos h, if_pos h, h]; rfl
  · rw [if_neg h, if_neg h]; rfl

/-- What an account has of the score. -/
def KarmaScore.balance (sc : KarmaScore) : Int × Int × NodeLevel := (sc.karma, sc.totalExperience, sc.level)

theorem blind_balance : Blind KarmaScore.balance := fun _ _ => rfl

theorem Kept.accounts {m m' : Memory} (h : Kept KarmaScore.balance m m') : SameAccounts m m' := by
  intro n
  have hn := h.score n
  simp only [KarmaScore.balance, Prod.mk.injEq] at hn
  unfold Memory.account
  rw [h.eventLog, hn.1, hn.2.1, hn.2.2]

theorem Reads.accounts {now : Rat} {m m' : Memory} (h : Reads now m m') : SameAccounts m m' := by
  refine (h.kept fun sc => ?_).accounts
  obtain ⟨_, _, e⟩ := isSuspended_score sc now
  rw [e]
  rfl

/-! ## Calls that post -/

theorem account_logEvent (m : Memory) (n k : String) (r : KarmaEventRecord) :
    (m.logEvent n r).account k = if k = n then { m.account n with log := (m.account n).log ++ [r] } else m.account k := by
  unfold Memory.account Memory.logEvent
  simp only [Dict.getD, Dict.get?_set]
  by_cases h : k = n
  · simp [h, Memory.scoreOf, Dict.getD]
  · simp [h, Memory.scoreOf, Dict.getD]

theorem SameAccounts.logEvent {m m' : Memory} (h : SameAccounts m m') (n : String) (r : KarmaEventRecord) :
    SameAccounts (m.logEvent n r) (m'.logEvent n r) := by
  intro k
  rw [account_logEvent, account_logEvent, h n, h k]

/-- A new score and a record that says how it came about. -/
theorem posts_setScore (m : Memory) (n : String) {sc : KarmaScore} {r : KarmaEventRecord}
    (hkx : (sc.karma, sc.totalExperience) = r.apply ((m.scoreOf n).karma, (m.scoreOf n).totalExperience))
    (hl : sc.level = computeLevel sc.totalExperience) : Posts n r m ((m.setScore n sc).logEvent n r) := by
  intro k
  rw [account_logEvent, account_setScore, account_setScore, if_pos rfl]
  by_cases h : k = n
  · rw [if_pos h, if_pos h]
    simp only [Account.post, Memory.account, ← hkx, hl]
  · rw [if_neg h, if_neg h, if_neg h]

/-- `report_event` posts the adjustment, whatever it does about suspension and eviction. -/
theorem posts_reportEvent (s : System) (n : String) (e : KarmaEvent) (reason severity : String) (now : Rat) :
    Posts n ⟨n, e.value, (karmaAdjustments e).karma, (karmaAdjustments e).xp, now, reason, severity⟩ s.memory
      (s.reportEvent n e reason severity now).memory := by
  have hadj : SameAccounts (s.setScore n ((s.memory.scoreOf n).adjusted e now)).memory (s.adjust n e severity now).memory := by
    simp only [System.adjust]
    repeat' split
    all_goals first
      | exact (kept_suspendNode (fun _ => rfl) _ n).accounts
      | exact fun _ => rfl
  have ha : SameAccounts (s.setScore n ((s.memory.scoreOf n).adjusted e now)).memory
      (if e = .revocationViolation then (s.adjust n e severity now).markEviction n now
        else s.adjust n e severity now).memory := by
    split
    · exact hadj.trans (kept_markEviction blind_balance (fun _ => rfl) _ n now).accounts
    · exact hadj
  rw [reportEvent_memory]
  exact SameAccounts.posts (fun _ => rfl) (posts_setScore s.memory n rfl rfl) (ha.logEvent n _)

theorem decayOnce_le {xp : Int} (h : 0 ≤ xp) : 0 ≤ decayOnce xp ∧ decayOnce xp ≤ xp := by
  unfold decayOnce inactivityDecayPercent
  omega

theorem decay_le {xp : Int} (h : 0 ≤ xp) (k : Nat) : 0 ≤ decayOnce^[k] xp ∧ decayOnce^[k] xp ≤ xp := by
  induction k with
  | zero => exact ⟨h, le_refl xp⟩
  | succ k ih =>
    rw [Function.iterate_succ_apply']
    have := decayOnce_le ih.1
    omega

/-- Decay of a balanced account changes nothing and saves nothing, or posts what it has taken and saves. -/
theorem applyInactivityDecay_cases (s : System) (n : String) (now : Rat) (h : (s.memory.account n).Balanced) :
    (∀ t, Reads t s.memory (s.applyInactivityDecay n now).2.memory) ∧ (s.applyInactivityDecay n now).2.file = s.file ∨
      (∃ r, Posts n r s.memory (s.applyInactivityDecay n now).2.memory) ∧
        (s.applyInactivityDecay n now).2.load.memory = (s.applyInactivityDecay n now).2.memory := by
  obtain ⟨hk0, hk1, hx0⟩ := h.bounds
  simp only [System.applyInactivityDecay]
  cases hsc : s.memory.scores.get? n with
  | none => exact .inl ⟨fun _ => .refl _, rfl⟩
  | some score =>
    have he := scoreOf_of_get? hsc
    simp only [Memory.account, he] at hk0 hk1 hx0
    have hlevel : score.level = computeLevel score.totalExperience := by
      have := h.level
      simpa only [Memory.account, he] using this
    simp only
    split
    · exact .inl ⟨fun _ => .refl _, rfl⟩
    · have hd := decay_le hx0 ((now - score.lastActivityTime) / inactivityDecayPeriod).floor.toNat
      generalize decayOnce^[((now - score.lastActivityTime) / inactivityDecayPeriod).floor.toNat]
        score.totalExperience = xp at hd
      split
      · -- clamping changes neither the karma nor what is left of the experience
        have hkarma : max 0 (min 100 (score.karma + 0)) = score.karma := by omega
        have hxp : max 0 (score.totalExperience + -(score.totalExperience - xp)) = xp := by omega
        exact .inr ⟨⟨_, posts_setScore s.memory n (by simp only [KarmaEventRecord.apply, he, hkarma, hxp]) rfl⟩, rfl⟩
      · have hxp : xp = score.totalExperience := by omega
        have hsame : { score with totalExperience := xp, level := computeLevel xp } = s.memory.scoreOf n := by
          rw [he, hxp, ← hlevel]
        refine .inl ⟨fun t => ?_, rfl⟩
        show Reads t s.memory (s.memory.setScore n { score with totalExperience := xp, level := computeLevel xp })
        rw [hsame]
        exact reads_setScore_self s.memory n

theorem accounts_registerClusterActivity (s : System) (n c : String) (done : Bool) (now : Rat) :
    (SameAccounts s.memory (s.registerClusterActivity n c done now).memory ∨
      ∃ r, Posts n r s.memory (s.registerClusterActivity n c done now).memory) ∧
    ((s.registerClusterActivity n c done now).load.memory = s.load.memory ∨
      SameAccounts (s.registerClusterActivity n c done now).memory (s.registerClusterActivity n c done now).load.memory) := by
  have ht := ((kept_enter blind_balance s n c now).trans
    (kept_touchMembership blind_balance (s.enter n c now) n c done now)).accounts
  obtain ⟨s', hs', he⟩ := registerClusterActivity_eq s n c done now
  have hl : SameAccounts s'.memory (s'.setScore n { s'.memory.scoreOf n with lastActivityTime := now }).memory :=
    (kept_setScore s'.memory n (d := { s'.memory.scoreOf n with lastActivityTime := now }) rfl).accounts
  rw [he]
  cases done with
  | false =>
    obtain rfl := hs'
    exact ⟨.inl (ht.trans hl), .inl (load_enter s n c now)⟩
  | true =>
    obtain ⟨reason, rfl⟩ := hs'
    exact ⟨.inr ⟨_, ht.posts (posts_reportEvent _ n .computeCycleCompleted reason "minor" now) hl⟩, .inr fun k => (hl k).symm⟩

/-! ## Runs -/

/-- A call that is no restart leaves the accounts alone or posts to one, and leaves a file that is as before or has
    the accounts of the memory. -/
theorem step_accounts {s : System} (h : ∀ n, (s.memory.account n).Balanced) {op : Op} (hop : op ≠ .restart) :
    (SameAccounts s.memory (step s op).2.memory ∨ ∃ n r, Posts n r s.memory (step s op).2.memory) ∧
      ((step s op).2.load.memory = s.load.memory ∨ SameAccounts (step s op).2.memory (step s op).2.load.memory) := by
  by_cases hquery : op.isQuery = true
  · obtain ⟨hr, hf⟩ := query_reads s hquery 0
    exact ⟨.inl hr.accounts, .inl (by rw [System.load, hf]; rfl)⟩
  cases op with
  | reportEvent n e reason severity now =>
    exact ⟨.inr ⟨n, _, posts_reportEvent s n e reason severity now⟩, .inr fun _ => rfl⟩
  | applyInactivityDecay n now =>
    rcases applyInactivityDecay_cases s n now (h n) with ⟨hr, hf⟩ | ⟨hp, hf⟩
    · exact ⟨.inl (hr now).accounts, .inl (by simp only [step, System.load, hf])⟩
    · exact ⟨.inr ⟨n, hp⟩, .inr fun k => congrArg (Memory.account · k) hf⟩
  | registerClusterActivity n c done now =>
    obtain ⟨hm, hf⟩ := accounts_registerClusterActivity s n c done now
    exact ⟨hm.imp_right fun hp => ⟨n, hp⟩, hf⟩
  | joinCluster n c now =>
    rcases joinCluster_cases s n c now with ⟨hr, hf⟩ | ⟨s', hr, _, _, _, he⟩
    · exact ⟨.inl hr.accounts, .inl (by simp only [step, System.load, hf])⟩
    · have hs : (step s (.joinCluster n c now)).2 = (s'.addMember n c now).save now := he
      rw [hs]
      exact ⟨.inl (hr.accounts.trans (kept_addMember blind_balance s' n c now).accounts), .inr fun _ => rfl⟩
  | leaveCluster n c now =>
    refine ⟨.inl (kept_leaveCluster blind_balance s n c now).accounts, ?_⟩
    simp only [step, System.leaveCluster]
    repeat' split
    all_goals first
      | exact .inl rfl
      | exact .inr fun _ => rfl
  | restart => exact absurd rfl hop
  | _ => exact absurd rfl hquery

theorem balanced_reached (ops : List Op) :
    (∀ n, ((reached ops).memory.account n).Balanced) ∧ ∀ n, ((reached ops).load.memory.account n).Balanced := by
  induction ops using List.reverseRecOn with
  | nil =>
    have h : ∀ n, (({} : Memory).account n).Balanced := fun n => ⟨rfl, rfl⟩
    exact ⟨h, h⟩
  | append_singleton ops op ih =>
    obtain ⟨hm, hf⟩ := ih
    rw [reached_snoc]
    by_cases hop : op = .restart
    · subst hop
      exact ⟨hf, hf⟩
    · obtain ⟨ha, hl⟩ := step_accounts hm hop
      have hm' : ∀ n, ((step (reached ops) op).2.memory.account n).Balanced := by
        intro k
        rcases ha with ha | ⟨n, r, ha⟩
        · rw [ha k]; exact hm k
        · rw [ha k]
          split
          · exact (hm n).post r
          · exact hm k
      refine ⟨hm', fun n => ?_⟩
      rcases hl with hl | hl
      · rw [hl]; exact hf n
      · rw [hl n]; exact hm' n

/-- Folding a node's log gives its karma and experience, and its level is that of its experience. -/
theorem log_accounts (ops : List Op) (nodeId : String) :
    let m := (reached ops).memory
    let score := m.scoreOf nodeId
    replay (m.eventLog.getD nodeId []) = (score.karma, score.totalExperience) ∧
      score.level = computeLevel score.totalExperience ∧ 0 ≤ score.karma ∧ score.karma ≤ 100 ∧ 0 ≤ score.totalExperience := by
  have h := (balanced_reached ops).1 nodeId
  exact ⟨h.replayed, h.level, h.bounds⟩

end PyxelVM.Karma
