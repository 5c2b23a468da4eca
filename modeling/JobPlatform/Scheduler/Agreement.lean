import JobPlatform.System.Agreement

namespace JobPlatform

variable {w w' : World} {j : JobID} {job : Job} {s : Scheduler}

-- The hashes are stored under their own identifiers.
def HashesKeyed (w : World) : Prop :=
  ∀ j s, w.redis.summaries j = some s → s.id = j

theorem HashesKeyed.env (h : HashesKeyed w) (hw : SameSummaries w w') : HashesKeyed w' :=
  fun k s hs => h k s (hw.redis ▸ hs)

namespace Scheduler

-- The database still has to learn about a job of a batch.
def Pending (j : JobID) (ids : List JobID) (w : World) : Prop :=
  j ∈ ids ∧ (w.redis.summaries j).isSome ∧ ∃ s, w.postgres.summaries j = some s ∧ s.id = j

-- Each job that has been activated is copied from the broker to the database.
theorem markActivated_agree {ids : List JobID} (hk : HashesKeyed w) (h : Agree j w ∨ Pending j ids w) :
    (markActivated ids).Ensures unguarded SameSummaries (fun _ w' => Agree j w') w := by
  induction ids generalizing w
  case nil            => exact fun w' hw => (h.elim id (by simp [Pending])).env hw
  case cons i rest hi =>
    refine Prog.ensures_of_exec fun w₁ hw₁ w₂ res he => ?_
    have hw₂ : SameSummaries w w₂ := IsTrans.trans _ _ _ hw₁ (World.exec_quiet (c := .broker (.loadJob i)) he rfl)
    -- A job of the batch other than the first one is still to come.
    have skip {w' : World} (hj : j ≠ i) (hr : w'.redis.summaries j = w.redis.summaries j)
        (hp : w'.postgres.summaries j = w.postgres.summaries j) : Agree j w' ∨ Pending j rest w' := by
      refine h.imp (fun h => by rw [Agree, hr, hp, h]) fun h => ?_
      obtain ⟨hm, hs, hs'⟩ := h
      exact ⟨(List.mem_cons.mp hm).resolve_left hj, hr ▸ hs, hp ▸ hs'⟩
    cases res
    case error e =>
      have hn : w.redis.summaries i = none := hw₁.redis ▸ World.exec_loadJob_error he
      refine hi (hk.env hw₂) ?_
      by_cases hj : j = i
      case neg => exact skip hj (by rw [hw₂.redis]) (by rw [hw₂.postgres])
      case pos =>
        refine .inl <| Agree.env (h.resolve_right fun h => ?_) hw₂
        obtain ⟨_, hs, _⟩ := h
        simp [hj, hn] at hs
    case ok job  =>
      have hs : w.redis.summaries i = some job.summary := hw₁.redis ▸ World.exec_loadJob he
      have hid : job.id = i := hk i _ hs
      refine Prog.ensures_of_exec fun w₃ hw₃ w₄ _ he => ?_
      have he : w₃.exec (.repo <| .markJobQueued job) = _ := he
      have hm := he ▸ World.marks_queued job (w := w₃)
      have hw₃ : SameSummaries w w₃ := IsTrans.trans _ _ _ hw₂ hw₃
      refine hi (fun k s hs => hk k s (by rwa [← hw₃.redis, ← hm.left])) ?_
      by_cases hj : j = i
      case neg =>
        refine skip hj (by rw [hm.left, hw₃.redis]) ?_
        rw [hm.right, if_neg (hid ▸ hj), hw₃.postgres]
      case pos =>
        obtain ⟨s', hs', hi⟩ : ∃ s, w.postgres.summaries j = some s ∧ s.id = j := by
          obtain h | ⟨_, _, h⟩ := h
          · exact ⟨_, by rw [← h, hj, hs], hj ▸ hid⟩
          · exact h
        have hi : s'.id = job.summary.id := hi.trans (hj.trans hid.symm)
        left
        rw [Agree, hm.left, hm.right, if_pos (hid ▸ hj), hw₃.redis, hw₃.postgres, hs', hj, hs, Option.map_some, hi]

theorem activateDue_agree (h : Good j w) :
    s.activateDue.Ensures unguarded SameSummaries (fun _ w' => Agree j w') w := by
  refine Prog.ensures_of_exec fun w₁ hw₁ w₂ now he => ?_
  have h := (h.env hw₁).env (World.exec_quiet (c := .now) he rfl)
  refine Prog.ensures_of_exec fun w₃ hw₃ w₄ ids he => ?_
  have h := h.env hw₃
  cases ids
  case error => cases he
  case ok ids =>
    have hr (k) := RedisBroker.activateAll_summaries (r := w₃.redis) (j := k) now.unixMilli
      ((w₃.redis.zsets .delayed).rangeByScore (.ofInt now.unixMilli) s.activationBatchSize)
    cases he
    simp only [Prog.ret_bind, Prog.bind_eq]
    refine .bind <| (markActivated_agree ?_ ?_).mono fun _ w' h w'' hw => h.env hw
    · intro k s hs
      have hs := (hr k).right.symm.trans hs
      split at hs
      case isFalse => exact h.keyed k s (.inl hs)
      case isTrue  =>
        have ⟨s', hs', he⟩ := Option.map_eq_some_iff.mp hs
        rw [← he]
        exact h.keyed k s' (.inl hs')
    · by_cases hm : j ∈ (RedisBroker.activateDueLua s.activationBatchSize now.unixMilli w₃.redis).2
      case neg => exact .inl <| (hr j).right.trans <| (if_neg hm).trans h.agree
      case pos =>
        have ⟨s', hs'⟩ := Option.isSome_iff_exists.mp ((hr j).left hm)
        refine .inr ⟨hm, ?_, s', h.agree ▸ hs', h.keyed j s' (.inl hs')⟩
        exact ((hr j).right.trans <| (if_pos hm).trans <| by rw [hs']) ▸ rfl

-- The database learns what has become of the job of an item.
structure Settles (item : RecoveredLease) (w w' : World) : Prop where
  redis   : w'.redis.summaries = w.redis.summaries
  others  : ∀ k ≠ item.jobID, w'.postgres.summaries k = w.postgres.summaries k
  settled : ∀ s s', w.redis.summaries item.jobID = some s' → w.postgres.summaries item.jobID = some s →
    item.Fits s s' → w'.postgres.summaries item.jobID = some s'

namespace Settles

variable {item : RecoveredLease} {w₁ w₂ : World}

theorem env (h : Settles item w₁ w₂) (h₁ : SameSummaries w w₁) (h₂ : SameSummaries w₂ w') :
    Settles item w w' where
  redis            := h₂.redis.trans <| h.redis.trans h₁.redis
  others k hk      := by rw [h₂.postgres, h.others k hk, h₁.postgres]
  settled s s' h' hs hf := by
    rw [h₂.postgres]
    exact h.settled s s' (h₁.redis ▸ h') (h₁.postgres ▸ hs) hf

-- The job is written as it has been loaded.
theorem mark {g : Summary → Summary} (hm : Marks item.jobID g w w')
    (hg : ∀ s s', w.redis.summaries item.jobID = some s' → item.Fits s s' → g s = s') : Settles item w w' where
  redis       := by rw [hm.left]
  others k hk := by rw [hm.right, if_neg hk]
  settled s s' hs' hs hf := by rw [hm.right, if_pos rfl, hs, Option.map_some, hg s s' hs' hf]

end Settles

theorem quiet_valueOrNow {value : Option Time} : (valueOrNow value).Quiet unguarded SameSummaries := by
  cases value
  case none => exact quiet_call rfl fun _ => trivial
  case some => trivial

section

variable {item : RecoveredLease}

theorem markRetried_ensures {post : Except Error Unit → World → Prop}
    (hi : job.id = item.jobID) (hs : w.redis.summaries item.jobID = some job.summary)
    (hst : item.state = .retrying) (crash : ∀ e w', post (.error e) w')
    (settled : ∀ w', Settles item w w' → post (.ok ()) w') :
    (markRetried job item.retryAt).Ensures unguarded SameSummaries post w := by
  unfold markRetried
  cases hr : item.retryAt
  case none         =>
    refine quiet_valueOrNow.ensures_bind fun started w₁ _ => ?_
    exact fun _ _ _ _ w₂ _ => crash _ w₂
  case some retryAt =>
    refine Prog.ensures_of_exec fun w₁ hw₁ w₂ _ he => ?_
    have he : w₁.exec (.repo <| .markJobRetrying job retryAt) = _ := he
    have hm := he ▸ World.marks_retrying job retryAt (w := w₁)
    have hm : Settles item w₁ w₂ := by
      refine .mark (hi ▸ hm) fun s s' hs' hf => ?_
      have hj : job.summary = s' := Option.some.inj <| hs.symm.trans (hw₁.redis ▸ hs')
      simp only [RecoveredLease.Fits, hst, hr] at hf
      have ⟨n, he, ht⟩ := hf
      have hn : retryAt.unixMilli = n := ht retryAt rfl
      have hst : job.state = .retrying := congrArg Summary.state (hj.trans he)
      rw [he, hst, hn]
    refine quiet_valueOrNow.ensures_bind fun started w₃ hw₃ => ?_
    refine fun w₄ hw₄ w₅ hw₅ w₆ hw₆ => settled w₆ <| hm.env hw₁ ?_
    refine IsTrans.trans _ _ _ hw₃ <| IsTrans.trans _ _ _ hw₄ <|
      IsTrans.trans _ _ _ (World.exec_same (c := .now) rfl) ?_
    exact IsTrans.trans _ _ _ hw₅ <| IsTrans.trans _ _ _ (World.exec_same rfl) hw₆

theorem markFailed_ensures (hi : job.id = item.jobID) (hs : w.redis.summaries item.jobID = some job.summary)
    (hst : item.state = .failed) :
    (markFailed job).Ensures unguarded SameSummaries (fun _ w' => Settles item w w') w := by
  refine Prog.ensures_of_exec fun w₁ hw₁ w₂ finished he => ?_
  have hw₂ : SameSummaries w w₂ := IsTrans.trans _ _ _ hw₁ (World.exec_quiet (c := .now) he rfl)
  refine Prog.ensures_of_exec fun w₃ hw₃ w₄ _ he => ?_
  have hw₃ : SameSummaries w w₃ := IsTrans.trans _ _ _ hw₂ hw₃
  have he : w₃.exec (.repo <| .markJobFailed { job with finishedAt := some finished }) = _ := he
  have hm := he ▸ World.marks_failed { job with finishedAt := some finished } (w := w₃)
  have hm : Settles item w₃ w₄ := by
    refine .mark (hi ▸ hm) fun s s' hs' hf => ?_
    have hj : job.summary = s' := Option.some.inj <| hs.symm.trans (hw₃.redis ▸ hs')
    simp only [RecoveredLease.Fits, hst] at hf
    have hst : job.state = .failed := congrArg Summary.state (hj.trans hf)
    rw [hf, ← hst]
  refine fun w₅ hw₅ => quiet_updateIdempotencyOutcome.ensures fun _ w₆ hw₆ => hm.env hw₃ ?_
  exact IsTrans.trans _ _ _ hw₅ <| IsTrans.trans _ _ _ (World.exec_same rfl) hw₆

theorem markCanceled_ensures (hi : job.id = item.jobID) (hs : w.redis.summaries item.jobID = some job.summary)
    (hst : item.state = .canceled) :
    (markCanceled job).Ensures unguarded SameSummaries (fun _ w' => Settles item w w') w := by
  refine Prog.ensures_of_exec fun w₁ hw₁ w₂ finished he => ?_
  have hw₂ : SameSummaries w w₂ := IsTrans.trans _ _ _ hw₁ (World.exec_quiet (c := .now) he rfl)
  refine Prog.ensures_of_exec fun w₃ hw₃ w₄ _ he => ?_
  have hw₃ : SameSummaries w w₃ := IsTrans.trans _ _ _ hw₂ hw₃
  have hm := World.marks_canceled { job with finishedAt := some finished, cancelRequested := true } (w := w₃)
  have he : w₃.exec (.repo <| .markJobCanceled
    { job with finishedAt := some finished, cancelRequested := true }) = _ := he
  rw [he] at hm
  have hm : Settles item w₃ w₄ := by
    refine .mark (hi ▸ hm) fun s s' hs' hf => ?_
    have hj : job.summary = s' := Option.some.inj <| hs.symm.trans (hw₃.redis ▸ hs')
    simp only [RecoveredLease.Fits, hst] at hf
    have hst : job.state = .canceled := congrArg Summary.state (hj.trans hf.right)
    rw [hf.right, ← hst, ← hf.left]
  exact fun w₅ hw₅ => hm.env hw₃ hw₅

-- One item after the other is settled, unless the scheduler crashes.
theorem markRecovered_cons {rest : List RecoveredLease} {post : Except Error Unit → World → Prop}
    (hk : HashesKeyed w) (crash : ∀ e w', post (.error e) w')
    (skip : w.redis.summaries item.jobID = none → ∀ w', SameSummaries w w' →
      (markRecovered rest).Ensures unguarded SameSummaries post w')
    (settled : ∀ w', Settles item w w' → (markRecovered rest).Ensures unguarded SameSummaries post w') :
    (markRecovered (item :: rest)).Ensures unguarded SameSummaries post w := by
  refine Prog.ensures_of_exec fun w₁ hw₁ w₂ res he => ?_
  have hw₂ : SameSummaries w w₂ :=
    IsTrans.trans _ _ _ hw₁ (World.exec_quiet (c := .broker (.loadJob item.jobID)) he rfl)
  cases res
  case error e => exact skip (hw₁.redis ▸ World.exec_loadJob_error he) w₂ hw₂
  case ok job  =>
    have hs : w.redis.summaries item.jobID = some job.summary := hw₁.redis ▸ World.exec_loadJob he
    have hi : job.id = item.jobID := hk _ _ hs
    have hs : w₂.redis.summaries item.jobID = some job.summary := hw₂.redis ▸ hs
    have settled {w'} (h : Settles item w₂ w') := settled w' (h.env hw₂ (refl w'))
    simp only [Prog.ret_bind]
    cases hst : item.state
    case retrying =>
      refine .bind <| markRetried_ensures hi hs hst (fun e w' w'' _ => crash e w'') fun w' h => settled h
    case failed   => exact .bind <| (markFailed_ensures hi hs hst).mono fun _ w' h => settled h
    case canceled => exact .bind <| (markCanceled_ensures hi hs hst).mono fun _ w' h => settled h
    all_goals
      refine settled ⟨rfl, fun _ _ => rfl, fun s s' _ _ hf => ?_⟩
      simp [RecoveredLease.Fits, hst] at hf

end

-- The job agrees if it is none of the items, or as soon as the database has settled its items.
inductive Unsettled (j : JobID) (items : List RecoveredLease) (w : World) : Prop
  | absent (agree : Agree j w) (other : ∀ item ∈ items, item.jobID ≠ j)
  | known {s s' : Summary} (hash : w.redis.summaries j = some s') (row : w.postgres.summaries j = some s)
    (fits : ∀ item ∈ items, item.jobID = j → item.Fits s s') (due : s = s' ∨ ∃ item ∈ items, item.jobID = j)

theorem Unsettled.tail {item : RecoveredLease} {rest : List RecoveredLease} (h : Unsettled j (item :: rest) w)
    (hj : item.jobID ≠ j) (hr : w'.redis.summaries j = w.redis.summaries j)
    (hp : w'.postgres.summaries j = w.postgres.summaries j) : Unsettled j rest w' := by
  cases h
  case absent ha ho =>
    have ha : Agree j w' := by rw [Agree, hr, hp, ha]
    exact .absent ha fun item hm => ho item (List.mem_cons_of_mem _ hm)
  case known hs' hs hf hd =>
    refine .known (hr ▸ hs') (hp ▸ hs) (fun item hm => hf item (List.mem_cons_of_mem _ hm)) ?_
    refine hd.imp_right fun hd => ?_
    obtain ⟨i, hm, hi⟩ := hd
    exact ⟨i, (List.mem_cons.mp hm).resolve_left fun he => hj (he ▸ hi), hi⟩

theorem markRecovered_agree {items : List RecoveredLease} (hk : HashesKeyed w) (h : Unsettled j items w) :
    (markRecovered items).Ensures unguarded SameSummaries (fun res w' => res = .ok () → Agree j w') w := by
  induction items generalizing w
  case nil =>
    intro w' hw _
    cases h
    case absent ha _         => exact ha.env hw
    case known hs' hs hf hd =>
      have hd : _ = _ := hd.resolve_right (by simp)
      rw [Agree, hw.redis, hw.postgres, hs', hs, hd]
  case cons item rest hi =>
    refine markRecovered_cons hk (fun e w' he => by cases he) (fun hn w' hw => ?_) (fun w' hset => ?_)
    · refine hi (hk.env hw) <| h.tail (fun hj => ?_) (by rw [hw.redis]) (by rw [hw.postgres])
      cases h
      case absent ho   => exact ho item List.mem_cons_self hj
      case known hs' _ _ _ => simp [← hj, hn] at hs'
    · have hk' : HashesKeyed w' := fun k s hs => hk k s (hset.redis ▸ hs)
      by_cases hj : item.jobID = j
      case neg => exact hi hk' <| h.tail hj (by rw [hset.redis]) (hset.others j (Ne.symm hj))
      case pos =>
        cases h
        case absent ho           => exact absurd hj (ho item List.mem_cons_self)
        case known s s' hs' hs hf _ =>
          have hf' := hf item List.mem_cons_self hj
          subst hj
          refine hi hk' <| .known (hset.redis ▸ hs') (hset.settled s s' hs' hs hf') ?_ (.inl rfl)
          exact fun i hm hi => (hf i (List.mem_cons_of_mem _ hm) hi).self

theorem recoverExpired_agree (h : Good j w) :
    s.recoverExpired.Ensures unguarded SameSummaries (fun res w' => res = .ok () → Agree j w') w := by
  refine Prog.ensures_of_exec fun w₁ hw₁ w₂ now he => ?_
  have h := (h.env hw₁).env (World.exec_quiet (c := .now) he rfl)
  refine Prog.ensures_of_exec fun w₃ hw₃ w₄ items he => ?_
  have h := h.env hw₃
  cases items
  case error    => exact fun _ _ he => by cases he
  case ok items =>
    obtain ⟨_, hr⟩ := RedisBroker.recoverAll_recovers (b := w₃.broker) (r := w₃.redis) SortedSet.rangeByScore_nodup
      (congrArg Prod.snd he)
    have hw : w₄.postgres = w₃.postgres := congrArg (·.1.postgres) he.symm
    have hr : RedisBroker.Recovers w₃.redis w₄.redis items := congrArg (·.1.redis) he ▸ hr
    refine markRecovered_agree (fun k s hs => ?_) ?_
    · by_cases hk : ∀ item ∈ items, item.jobID ≠ k
      case pos => exact h.keyed k s (.inl <| hr.others k hk ▸ hs)
      case neg =>
        simp only [not_forall, not_not] at hk
        obtain ⟨item, hm, hi⟩ := hk
        obtain ⟨s₁, s₂, hs₁, hs₂, hf⟩ := hr.recovered item hm
        subst hi
        rw [← h.keyed _ s₁ (.inl hs₁), ← hf.id, Option.some.inj (hs.symm.trans hs₂)]
    · by_cases hj : ∀ item ∈ items, item.jobID ≠ j
      case pos => exact .absent (by rw [Agree, hr.others j hj, hw, h.agree]) hj
      case neg =>
        simp only [not_forall, not_not] at hj
        obtain ⟨item, hm, hi⟩ := hj
        obtain ⟨s₁, s₂, hs₁, hs₂, hf⟩ := hr.recovered item hm
        rw [hi] at hs₁ hs₂
        refine .known hs₂ (by rw [hw, ← h.agree, hs₁]) (fun item' hm' hi' => ?_) (.inr ⟨item, hm, hi⟩)
        obtain ⟨s₃, s₄, hs₃, hs₄, hf'⟩ := hr.recovered item' hm'
        rw [hi'] at hs₃ hs₄
        rw [Option.some.inj (hs₁.symm.trans hs₃), Option.some.inj (hs₂.symm.trans hs₄)]
        exact hf'

end Scheduler
end JobPlatform
