import JobPlatform.Service.Atomicity
import JobPlatform.Worker.Agreement

namespace JobPlatform

variable {w w' : World} {j : JobID} {job : Job}

namespace Manager

-- The broker and then the database put a job back into its queue.
theorem requeue_summaries (job : Job) {w₁ w₂ w₃ : World} {now : Time}
    (he : w.exec (.broker (.retry job now)) = (w₁, .ok ())) (h₁ : SameSummaries w₁ w₂)
    (hm : w₂.exec (.repo (.markJobQueued job)) = (w₃, .ok ())) (hd : job.runAt = now) :
    (∀ k ≠ job.id, w₃.redis.summaries k = w.redis.summaries k ∧
      w₃.postgres.summaries k = w.postgres.summaries k) ∧
    (∀ s, w.redis.summaries job.id = some s → w₃.redis.summaries job.id = some
      { s with state := .queued, attempts := job.attempts, runAt := now.unixMilli, cancelRequested := false }) ∧
    w₃.postgres.summaries job.id = (w.postgres.summaries job.id).map ({ job.summary with id := ·.id }) := by
  have hm := hm ▸ World.marks_queued job (w := w₂)
  have hp : w₁.postgres = w.postgres := congrArg (·.1.postgres) he.symm
  have hr : w₁.redis = RedisBroker.retry job now w.redis := congrArg (·.1.redis) he.symm
  refine ⟨fun k hk => ⟨?_, ?_⟩, fun s hs => ?_, ?_⟩
  · rw [hm.left, h₁.redis, hr, (RedisBroker.retry_unchanged hk).summaries]
  · rw [hm.right, if_neg hk, h₁.postgres, hp]
  · rw [hm.left, h₁.redis, hr, RedisBroker.retry_summaries (hd ▸ lt_irrefl _) hs, if_pos rfl, hd]
  · rw [hm.right, if_pos rfl, h₁.postgres, hp]

theorem retryJob_agree {jobID : JobID} (hk : RowsKeyed w) (h : Agree j w) :
    (retryJob jobID).Ensures unguarded SameSummaries (fun _ w' => Agree j w') w := by
  refine Prog.ensures_of_exec fun w₁ hw₁ w₂ job he => ?_
  have h := h.env hw₁
  have hk := hk.env hw₁
  cases job
  case error e => exact fun w₃ hw₃ => (h.env (World.exec_getJob_error he).left).env hw₃
  case ok job  =>
    have ⟨hw₂, hi, hs⟩ := World.exec_getJob hk he
    have h := h.env hw₂
    have hs : w₂.postgres.summaries job.id = some job.summary := by rw [hw₂.postgres, hi, hs]
    refine Prog.ensures_of_exec fun w₃ hw₃ w₄ now he => ?_
    have hw₄ : SameSummaries w₂ w₄ := IsTrans.trans _ _ _ hw₃ (World.exec_quiet (c := .now) he rfl)
    refine Prog.ensures_of_exec fun w₅ hw₅ w₆ ok he => ?_
    have hw₅ : SameSummaries w₂ w₅ := IsTrans.trans _ _ _ hw₄ hw₅
    cases ok
    case error => cases he
    case ok _  =>
      refine Prog.ensures_of_exec fun w₇ hw₇ w₈ ok hm => ?_
      cases ok
      case error => cases hm
      case ok _  =>
        have h := h.env hw₅
        have ⟨ho, hr, hp⟩ := requeue_summaries (retriedJob job now) he hw₇ hm rfl
        have h₈ : Agree j w₈ := by
          by_cases hj : j = job.id
          case neg => rw [Agree, (ho j hj).left, (ho j hj).right, h]
          case pos =>
            have hs : w₅.postgres.summaries job.id = some job.summary := hw₅.postgres ▸ hs
            have hrs : w₅.redis.summaries job.id = some job.summary := by rw [← hj, h, hj, hs]
            have hr := hr _ hrs
            have hi : (retriedJob job now).id = job.id := rfl
            rw [Agree, hj, ← hi, hr, hp, hi, hs]
            rfl
        exact fun w₉ hw₉ w₁₀ hw₁₀ => ((h₈.env hw₉).env (World.exec_same rfl)).env hw₁₀

-- The jobs that are replayed before one of them cannot be found.
def replayed (req : DeadLetterReplayRequest) (w : World) : List JobID :=
  req.jobIDs.takeWhile fun jobID => (w.postgres.summaries jobID).isSome

-- One store has been told to cancel the job, and the other one has forgotten about it.
def Torn (j : JobID) (w : World) : Prop :=
  ∃ s s', w.redis.summaries j = some s ∧ w.postgres.summaries j = some s' ∧
    s.cancelRequested = false ∧ s'.cancelRequested = true

theorem Torn.env (h : Torn j w) (hw : SameSummaries w w') : Torn j w' := by
  have ⟨s, s', hs, hs', hc⟩ := h
  exact ⟨s, s', hw.redis ▸ hs, hw.postgres ▸ hs', hc⟩

theorem Torn.not_agree (h : Torn j w) : ¬Agree j w := by
  have ⟨s, s', hs, hs', hc, hc'⟩ := h
  intro ha
  rw [Agree, hs, hs'] at ha
  cases ha
  simp [hc] at hc'

-- Both stores put a job back into its queue, but the database keeps a request to cancel it.
structure Replays (jobID : JobID) (now : Time) (w w' : World) : Prop where
  others : ∀ k ≠ jobID, w'.redis.summaries k = w.redis.summaries k ∧
    w'.postgres.summaries k = w.postgres.summaries k
  redis  : ∀ s, w.redis.summaries jobID = some s → w'.redis.summaries jobID = some
    { s with state := .queued, attempts := 0, runAt := now.unixMilli, cancelRequested := false }
  row    : ∃ s, w.postgres.summaries jobID = some s ∧ w'.postgres.summaries jobID = some
    { s with state := .queued, attempts := 0, runAt := now.unixMilli }

theorem replayAll_cons {req : DeadLetterReplayRequest} {now : Time} {jobID : JobID} {rest : List JobID}
    {acc : List Job} {post : World → Prop} (hk : RowsKeyed w)
    (missing : w.postgres.summaries jobID = none → ∀ w', SameSummaries w w' → post w')
    (replays : ∀ w' acc, Replays jobID now w w' →
      (replayAll req now rest acc).Ensures unguarded SameSummaries (fun _ w' => post w') w') :
    (replayAll req now (jobID :: rest) acc).Ensures unguarded SameSummaries (fun _ w' => post w') w := by
  refine Prog.ensures_of_exec fun w₁ hw₁ w₂ job he => ?_
  cases job
  case error e =>
    have ⟨hw₂, hn⟩ := World.exec_getJob_error he
    exact fun w₃ hw₃ => missing (hw₁.postgres ▸ hn) w₃ (IsTrans.trans _ _ _ hw₁ (IsTrans.trans _ _ _ hw₂ hw₃))
  case ok job  =>
    have ⟨hw₂, hi, hs⟩ := World.exec_getJob (hk.env hw₁) he
    refine Prog.ensures_of_exec fun w₃ hw₃ w₄ ok he => ?_
    have hw₃ : SameSummaries w w₃ := IsTrans.trans _ _ _ hw₁ (IsTrans.trans _ _ _ hw₂ hw₃)
    cases ok
    case error => cases he
    case ok _  =>
      refine Prog.ensures_of_exec fun w₅ hw₅ w₆ ok hm => ?_
      cases ok
      case error => cases hm
      case ok _  =>
        have ⟨ho, hr, hp⟩ := requeue_summaries (replayedJob req job now) he hw₅ hm rfl
        have hid : (replayedJob req job now).id = jobID := hi
        rw [hid] at ho hr hp
        have hs : w₃.postgres.summaries jobID = some job.summary := by rw [hw₃.postgres, ← hw₁.postgres, hs]
        have hr₆ : Replays jobID now w w₆ := by
          constructor
          case others => exact fun k hk => hw₃.redis ▸ hw₃.postgres ▸ ho k hk
          case redis  => exact fun s hs => hr s (hw₃.redis ▸ hs)
          case row    =>
            refine ⟨job.summary, hw₃.postgres ▸ hs, ?_⟩
            rw [hp, hs]
            rfl
        refine Prog.ensures_of_exec fun w₇ hw₇ w₈ ok he => ?_
        have hw₈ : SameSummaries w₆ w₈ :=
          IsTrans.trans _ _ _ hw₇ (World.exec_quiet (c := .repo (.deleteDeadLetters _)) he rfl)
        cases ok
        case error => cases he
        case ok _  =>
          refine replays w₈ _ ⟨fun k hk => ?_, fun s hs => ?_, ?_⟩
          · rw [hw₈.redis, hw₈.postgres]
            exact hr₆.others k hk
          · rw [hw₈.redis, hr₆.redis s hs]
          · rw [hw₈.postgres]
            exact hr₆.row

namespace Replays

variable {jobID : JobID} {now : Time} (h : Replays jobID now w w')
include h

theorem isSome (k : JobID) : (w'.postgres.summaries k).isSome = (w.postgres.summaries k).isSome := by
  by_cases hk : k = jobID
  case neg => rw [(h.others k hk).right]
  case pos =>
    have ⟨s, hs, hs'⟩ := h.row
    rw [hk, hs, hs']
    rfl

theorem rowsKeyed (hk : RowsKeyed w) : RowsKeyed w' := by
  intro k s hs
  by_cases he : k = jobID
  case neg => exact hk k s ((h.others k he).right ▸ hs)
  case pos =>
    have ⟨s', hs', hr⟩ := h.row
    rw [he, hr] at hs
    cases hs
    exact he ▸ hk jobID s' hs'

-- A job that is not to be canceled stays in agreement.
theorem agree (ha : Agree j w)
    (hc : j = jobID → ∀ s, w.postgres.summaries j = some s → s.cancelRequested = false) : Agree j w' := by
  by_cases hj : j = jobID
  case neg => rw [Agree, (h.others j hj).left, (h.others j hj).right, ha]
  case pos =>
    obtain ⟨s, hs, hs'⟩ := h.row
    have hr : w.redis.summaries jobID = some s := by rw [← hs, ← hj, ha]
    have hc := hc hj s (hj ▸ hs)
    rw [Agree, hj, h.redis s hr, hs', ← hc]

theorem torn (hj : j = jobID) {s s' : Summary} (hs : w.redis.summaries j = some s)
    (hs' : w.postgres.summaries j = some s') (hc : s'.cancelRequested) : Torn j w' := by
  have ⟨s₁, hs₁, hr⟩ := h.row
  have he : s' = s₁ := Option.some.inj <| hs'.symm.trans (hj ▸ hs₁)
  exact ⟨_, _, hj ▸ h.redis s (hj ▸ hs), hj ▸ hr, rfl, he ▸ hc⟩

end Replays

variable {req : DeadLetterReplayRequest} {now : Time} {ids : List JobID} {acc : List Job}

theorem replayAll_agree (hk : RowsKeyed w) (h : Agree j w)
    (hc : j ∈ ids.takeWhile (fun k => (w.postgres.summaries k).isSome) →
      ∀ s, w.postgres.summaries j = some s → s.cancelRequested = false) :
    (replayAll req now ids acc).Ensures unguarded SameSummaries (fun _ w' => Agree j w') w := by
  induction ids generalizing w acc
  case nil             => exact fun w' hw => h.env hw
  case cons i rest hi =>
    refine replayAll_cons hk (fun _ w' hw => h.env hw) fun w' acc hr => ?_
    have ⟨s, hs, hw⟩ := hr.row
    simp only [List.takeWhile_cons, hs, Option.isSome_some, if_true, List.mem_cons] at hc
    refine hi (hr.rowsKeyed hk) (hr.agree h fun he => hc (.inl he)) fun hm s' hs' => ?_
    simp only [hr.isSome] at hm
    by_cases he : j = i
    case neg => exact hc (.inr hm) s' ((hr.others j he).right ▸ hs')
    case pos =>
      have hc := hc (.inl he) s (he ▸ hs)
      rw [he, hw] at hs'
      cases hs'
      exact hc

theorem replayAll_torn (hk : RowsKeyed w) (h : Torn j w) :
    (replayAll req now ids acc).Ensures unguarded SameSummaries (fun _ w' => Torn j w') w := by
  induction ids generalizing w acc
  case nil            => exact fun w' hw => h.env hw
  case cons i rest hi =>
    refine replayAll_cons hk (fun _ w' hw => h.env hw) fun w' acc hr => hi (hr.rowsKeyed hk) ?_
    have ⟨s, s', hs, hs', hc, hc'⟩ := h
    by_cases he : j = i
    case pos => exact hr.torn he hs hs' hc'
    case neg => exact ⟨s, s', (hr.others j he).left ▸ hs, (hr.others j he).right ▸ hs', hc, hc'⟩

theorem replayAll_tears {s : Summary} (hk : RowsKeyed w) (h : Agree j w)
    (hj : j ∈ ids.takeWhile fun k => (w.postgres.summaries k).isSome)
    (hs : w.postgres.summaries j = some s) (hc : s.cancelRequested) :
    (replayAll req now ids acc).Ensures unguarded SameSummaries (fun _ w' => Torn j w') w := by
  induction ids generalizing w acc
  case nil            => simp at hj
  case cons i rest hi =>
    refine replayAll_cons hk (fun hn w' hw => ?_) fun w' acc hr => ?_
    · simp [hn] at hj
    · have ⟨s', hs', _⟩ := hr.row
      simp only [List.takeWhile_cons, hs', Option.isSome_some, if_true, List.mem_cons] at hj
      by_cases he : j = i
      case pos => exact replayAll_torn (hr.rowsKeyed hk) (hr.torn he (h.trans hs) hs hc)
      case neg =>
        have hm := hj.resolve_left he
        simp only [← hr.isSome] at hm
        have ha := hr.agree h fun hj => absurd hj he
        exact hi (hr.rowsKeyed hk) ha hm ((hr.others j he).right ▸ hs)

theorem replayDeadLetters_agree (hk : RowsKeyed w) (h : Agree j w)
    (hc : j ∈ replayed req w → ∀ s, w.postgres.summaries j = some s → s.cancelRequested = false) :
    (replayDeadLetters req).Ensures unguarded SameSummaries (fun _ w' => Agree j w') w := by
  refine Prog.ensures_of_exec fun w₁ hw₁ w₂ now he => ?_
  have hw : SameSummaries w w₂ := IsTrans.trans _ _ _ hw₁ (World.exec_quiet (c := .now) he rfl)
  refine replayAll_agree (hk.env hw) (h.env hw) ?_
  rwa [hw.postgres]

theorem replayDeadLetters_tears {s : Summary} (hk : RowsKeyed w) (h : Agree j w) (hj : j ∈ replayed req w)
    (hs : w.postgres.summaries j = some s) (hc : s.cancelRequested) :
    (replayDeadLetters req).Ensures unguarded SameSummaries (fun _ w' => Torn j w') w := by
  refine Prog.ensures_of_exec fun w₁ hw₁ w₂ now he => ?_
  have hw : SameSummaries w w₂ := IsTrans.trans _ _ _ hw₁ (World.exec_quiet (c := .now) he rfl)
  refine replayAll_tears (hk.env hw) (h.env hw) ?_ (hw.postgres ▸ hs) hc
  rwa [hw.postgres]

-- The states in which the broker cancels a job, but the database does not.
def keepsRow (s : JobState) : Bool :=
  s = .throttled ∨ s = .blocked

theorem cancelJob_summaries {jobID : JobID} {post : World → Prop} (hk : RowsKeyed w)
    (unknown : ∀ w', SameSummaries w w' →
      w.redis.summaries jobID = none ∨ w.postgres.summaries jobID = none → post w')
    (canceled : ∀ w' s s', w.redis.summaries jobID = some s → w.postgres.summaries jobID = some s' →
      (∀ k ≠ jobID, w'.redis.summaries k = w.redis.summaries k ∧
        w'.postgres.summaries k = w.postgres.summaries k) →
      w'.redis.summaries jobID = some { s with
        cancelRequested := true, state := if RedisBroker.isCancellable s.state then .canceled else s.state } →
      w'.postgres.summaries jobID = some { s' with
        cancelRequested := true, state := if isCancelable s'.state then .canceled else s'.state } →
      post w') :
    (cancelJob jobID).Ensures unguarded SameSummaries (fun _ w' => post w') w := by
  refine Prog.ensures_of_exec fun w₁ hw₁ w₂ job he => ?_
  cases job
  case error e =>
    have ⟨hw₂, hn⟩ := World.exec_getJob_error he
    intro w₃ hw₃
    exact unknown w₃ (IsTrans.trans _ _ _ hw₁ (IsTrans.trans _ _ _ hw₂ hw₃)) (.inr (hw₁.postgres ▸ hn))
  case ok job  =>
    have ⟨hw₂, hi, hs'⟩ := World.exec_getJob (hk.env hw₁) he
    have hw₂ : SameSummaries w w₂ := IsTrans.trans _ _ _ hw₁ hw₂
    have hs' : w.postgres.summaries jobID = some job.summary := hw₁.postgres ▸ hs'
    refine Prog.ensures_of_exec fun w₃ hw₃ w₄ loaded he => ?_
    have hw₃ : SameSummaries w w₃ := IsTrans.trans _ _ _ hw₂ hw₃
    have hw₄ : SameSummaries w w₄ :=
      IsTrans.trans _ _ _ hw₃ (World.exec_quiet (c := .broker (.loadJob jobID)) he rfl)
    cases loaded
    case error e   =>
      have hl := World.exec_loadJob_error he
      exact fun w₅ hw₅ => unknown w₅ (IsTrans.trans _ _ _ hw₄ hw₅) (.inl (hw₃.redis ▸ hl))
    case ok loaded =>
      have hs : w.redis.summaries jobID = some loaded.summary := hw₃.redis ▸ World.exec_loadJob he
      refine Prog.ensures_of_exec fun w₅ hw₅ w₆ now he => ?_
      have hw₆ : SameSummaries w w₆ := IsTrans.trans _ _ _ hw₄ <|
        IsTrans.trans _ _ _ hw₅ (World.exec_quiet (c := .now) he rfl)
      refine Prog.ensures_of_exec fun w₇ hw₇ w₈ ok he => ?_
      have hw₇ : SameSummaries w w₇ := IsTrans.trans _ _ _ hw₆ hw₇
      cases ok
      case error => cases he
      case ok _  =>
        have hr₈ (k) : w₈.redis.summaries k = _ := (congrArg (·.1.redis.summaries k) he.symm).trans
          (RedisBroker.cancelLoaded_summaries (hw₇.redis ▸ hs))
        have hp₈ : w₈.postgres = w₇.postgres := congrArg (·.1.postgres) he.symm
        refine Prog.ensures_of_exec fun w₉ hw₉ w₁₀ now' he => ?_
        have hw₁₀ : SameSummaries w₈ w₁₀ := IsTrans.trans _ _ _ hw₉ (World.exec_quiet (c := .now) he rfl)
        refine Prog.ensures_of_exec fun w₁₁ hw₁₁ w₁₂ ok he => ?_
        have hw₁₁ : SameSummaries w₈ w₁₁ := IsTrans.trans _ _ _ hw₁₀ hw₁₁
        cases ok
        case error => cases he
        case ok _  =>
          have he : w₁₁.exec (.repo <| .markJobCanceled <| canceledJob job now') = _ := he
          have hm := he ▸ World.marks_canceled (canceledJob job now') (w := w₁₁)
          have hid : (canceledJob job now').id = jobID := hi
          rw [hid] at hm
          have hr (k) : w₁₂.redis.summaries k = w₈.redis.summaries k := by rw [hm.left, hw₁₁.redis]
          have hp (k) : w₁₁.postgres.summaries k = w.postgres.summaries k := by
            rw [hw₁₁.postgres, hp₈, hw₇.postgres]
          refine fun w₁₃ hw₁₃ => canceled w₁₃ loaded.summary job.summary hs hs' (fun k hk => ⟨?_, ?_⟩) ?_ ?_
          · rw [hw₁₃.redis, hr, hr₈, if_neg hk, hw₇.redis]
          · rw [hw₁₃.postgres, hm.right, if_neg hk, hp]
          · rw [hw₁₃.redis, hr, hr₈, if_pos rfl]
            rfl
          · rw [hw₁₃.postgres, hm.right, if_pos rfl, hp, hs']
            rfl

theorem cancelJob_agree {jobID : JobID} (hk : RowsKeyed w) (h : Agree j w)
    (hn : jobID = j → ∀ s, w.postgres.summaries j = some s → keepsRow s.state = false) :
    (cancelJob jobID).Ensures unguarded SameSummaries (fun _ w' => Agree j w') w := by
  refine cancelJob_summaries hk (fun w' hw _ => h.env hw) fun w' s s' hs hs' ho hr hp => ?_
  by_cases hj : jobID = j
  case neg =>
    have ⟨hr, hp⟩ := ho j (Ne.symm hj)
    rw [Agree, hr, hp, h]
  case pos =>
    subst hj
    have he : s = s' := Option.some.inj <| hs.symm.trans <| h.trans hs'
    have hn := hn rfl s' hs'
    subst he
    rw [Agree, hr, hp]
    cases hs : s.state <;> simp_all [keepsRow, RedisBroker.isCancellable, isCancelable]

theorem cancelJob_disagree {s : Summary} (hk : RowsKeyed w) (h : Agree j w)
    (hs : w.postgres.summaries j = some s) (hn : keepsRow s.state) :
    (cancelJob j).Ensures unguarded SameSummaries (fun _ w' => ¬Agree j w') w := by
  refine cancelJob_summaries hk (fun w' _ hn => ?_) fun w' s₁ s₂ hs₁ hs₂ ho hr hp ha => ?_
  · rw [h.trans hs, hs] at hn
    simp at hn
  · rw [h.trans hs] at hs₁
    rw [hs] at hs₂
    cases hs₁
    cases hs₂
    rw [Agree, hr, hp] at ha
    cases hs : s.state <;> simp_all [keepsRow, RedisBroker.isCancellable, isCancelable]

theorem createJob_ensures {Env : World → World → Prop} {m : Manager} {req : JobRequest} {α : Type} {post : α → World → Prop}
    {f : Except Error EnqueueResult → Program α}
    (h : ∀ w', Env w w' → (f (m.creation req job w'.postgres).2).Ensures unguarded Env post
      { w' with postgres := (m.creation req job w'.postgres).1, calls := w'.calls + 1 }) :
    ((m.createJob req job).bind f).Ensures unguarded Env post w := by
  unfold creation at h
  unfold createJob
  by_cases hk : job.idempotencyKey = ""
  case neg =>
    simp only [hk, ne_eq, not_false_eq_true, if_true] at h ⊢
    exact fun w' hw => h w' hw
  case pos =>
    simp only [hk, ne_eq, not_true, if_false] at h ⊢
    refine Prog.ensures_of_exec fun w₁ hw₁ w₂ res he => ?_
    have h := h w₁ hw₁
    have he : w₁.exec (.repo (.createJobBundle job (sanitizeDependencies req.dependencies job.id))) = _ := he
    rw [World.exec_repo] at he
    simp only [Postgres.exec] at he
    generalize w₁.postgres.createJobBundle job (sanitizeDependencies req.dependencies job.id) = x at h he
    cases he
    obtain ⟨_, res⟩ := x
    cases res <;> exact h

-- The new job is written to both of the stores, and a duplicate to neither.
theorem enqueueJob_agree {m : Manager} {req : JobRequest} {jobID : JobID} (h : Agree j w) :
    (m.enqueueJob req jobID).Ensures unguarded SameSummaries (fun _ w' => Agree j w') w := by
  unfold enqueueJob
  cases m.accepts req
  case error e => exact fun w' hw => h.env hw
  case ok      =>
    refine Prog.ensures_of_exec fun w₁ hw₁ w₂ now he => ?_
    have h := (h.env hw₁).env (World.exec_quiet (c := .now) he rfl)
    refine createJob_ensures fun w₃ hw₃ => ?_
    have h := h.env hw₃
    refine creation_rule (m := m) (Q := fun x => m.creation req (buildJob now req jobID) w₃.postgres = x →
      Prog.Ensures _ _ _ _ _) (fun e _ he => ?_) (fun record existing _ _ _ _ he => ?_)
      (fun p' _ _ hj he => ?_) rfl
    · rw [he]
      exact fun w₄ hw₄ => h.env ⟨hw₄.redis, hw₄.postgres⟩
    · rw [he]
      exact fun w₄ hw₄ => h.env ⟨hw₄.redis, hw₄.postgres⟩
    · rw [he]
      refine fun w₄ hw₄ w₅ hw₅ w₆ hw₆ => ?_
      have hs : (Postgres.newRow (buildJob now req jobID)).summary = (buildJob now req jobID).summary := by
        simp [Postgres.newRow, Job.summary, buildJob]
      have hr : w₆.redis.summaries j = if j = jobID then some (buildJob now req jobID).summary
          else w₃.redis.summaries j := by
        rw [hw₆.redis, ← hw₄.redis]
        exact RedisBroker.enqueue_summaries.trans (by rw [hw₅.redis]; rfl)
      have hp : w₆.postgres.summaries j = p'.summaries j := by
        rw [hw₆.postgres, ← show w₄.postgres.summaries = p'.summaries from hw₄.postgres]
        exact congrFun hw₅.postgres j
      refine hr.trans (.trans ?_ hp.symm)
      have hid : (buildJob now req jobID).id = jobID := rfl
      rw [hid] at hj
      by_cases he : j = jobID
      case pos => simp [Postgres.summaries, hj, he, hs]
      case neg => simpa [Agree, Postgres.summaries, hj, he] using h

end Manager
end JobPlatform
