import JobPlatform.Service.Atomicity
import JobPlatform.Store.States
import JobPlatform.System.Summary

namespace JobPlatform

namespace Postgres

-- Nothing has been stored but what belongs to the job.
structure Adds (jobID : JobID) (p p' : Postgres) : Prop where
  jobs    : ∀ k ≠ jobID, p'.jobs k = p.jobs k
  edges   : ∀ e ∈ p'.dependencies.edges, e ∈ p.dependencies.edges ∨
    e.jobID = jobID ∧ (e.dependsOnJobID = jobID ∨ (p.jobs e.dependsOnJobID).isSome)
  records : ∀ scope record, p'.idempotency scope = some record →
    p.idempotency scope = some record ∨ record.jobID = jobID

variable {p p' : Postgres} {job : Job} {jobID : JobID} {dependencies : List JobID} {dedupeWindow : Duration}

theorem Adds.refl : Adds jobID p p where
  jobs _ _      := rfl
  edges _ h     := .inl h
  records _ _ h := .inl h

theorem storeTx_adds (h : storeTx job dependencies p = .ok p') : Adds job.id p p' := by
  have hi := storeTx_inserted h
  refine ⟨fun k hk => by rw [hi.jobs, Function.update_of_ne hk], fun e he => ?_,
    fun _ _ hs => .inl ((storeTx_eq_ok h).right.right ▸ hs)⟩
  exact ((hi.edges e).mp he).imp_right fun ⟨hj, hm, hn⟩ => ⟨hj, (hi.known _ hm).resolve_left hn⟩

theorem createJobBundle_adds : Adds job.id p (p.createJobBundle job dependencies).1 :=
  createJobBundle_rule .refl fun _ => storeTx_adds

theorem createJobWithIdempotency_adds :
    Adds job.id p (p.createJobWithIdempotency job dependencies dedupeWindow).1 := by
  refine createJobWithIdempotency_rule .refl fun p' hs => ?_
  have ha := storeTx_adds hs
  refine ⟨ha.jobs, ha.edges, fun scope record hr => ?_⟩
  simp only [recordTx, Function.update_apply] at hr
  split at hr
  case isTrue  => cases hr; exact .inr rfl
  case isFalse => exact ha.records scope record hr

end Postgres

variable {faults faults' : Nat → Fault} {w w' w'' : World} {id k : JobID}

-- A job that no store knows does not come into one by the submission of another.
theorem Traceless.adds (h : Traceless w k) (hk : k ≠ id) (hr : w.redis.Unchanged k w'.redis)
    (hp : w.postgres.Adds id w'.postgres) : Traceless w' k where
  row       := (hp.jobs k hk).trans h.row
  hash      := hr.jobs.trans h.hash
  entries q := hr.occurrences ▸ h.entries q
  edges e he := by
    cases hp.edges e he
    case inl he => exact h.edges e he
    case inr he =>
      refine ⟨he.left ▸ hk.symm, fun hd => ?_⟩
      cases he.right
      case inl hi => exact hk (hd.symm.trans hi)
      case inr hs => simp [hd, h.row] at hs
  records scope record hs := by
    cases hp.records scope record hs
    case inl hs => exact h.records scope record hs
    case inr he => exact he ▸ hk.symm

theorem Traceless.ne (h : Traceless w id) (hk : (w.postgres.jobs k).isSome) : k ≠ id := by
  intro he
  simp [he, h.row] at hk

namespace Manager

variable {m : Manager} {req : JobRequest} {job : Job} {p : Postgres} {result : EnqueueResult} {e : Error}

theorem creation_adds : p.Adds job.id (m.creation req job p).1 := by
  unfold creation
  dsimp only
  split
  case isTrue  => exact Postgres.createJobWithIdempotency_adds
  case isFalse => exact Postgres.createJobBundle_adds

-- Whatever happens to the request, nothing is stored but what belongs to its own job.
theorem enqueueJob_adds :
    let w' := ((m.enqueueJob req id).run (World.tryExec faults) w).1
    w.postgres.Adds id w'.postgres ∧ ∀ k ≠ id, w.redis.Unchanged k w'.redis := by
  have ha : w.postgres.Adds id (m.creation req (buildJob w.now req id) w.postgres).1 :=
    @creation_adds m req (buildJob w.now req id) w.postgres
  have hu (k) (_ : k ≠ id) : w.redis.Unchanged k w.redis := .refl k _
  unfold enqueueJob
  cases m.accepts req
  case error e => exact ⟨.refl, hu⟩
  case ok      =>
    simp only [Prog.bind_eq, Prog.run_bind, timeNow_run, createJob_run]
    cases faults (w.calls + 1)
    case refused => exact ⟨.refl, hu⟩
    case lost    => exact ⟨ha, hu⟩
    case none    =>
      refine creation_rule (m := m) (Q := fun x => m.creation req (buildJob w.now req id) w.postgres = x → _)
        ?_ ?_ ?_ rfl
      case refine_1 =>
        intro _ _ hx
        simp only [hx]
        exact ⟨.refl, hu⟩
      case refine_2 =>
        intro _ _ _ _ _ _ hx
        simp only [hx]
        exact ⟨.refl, hu⟩
      case refine_3 =>
        intro p' _ _ _ hx
        simp only [hx, Bool.false_eq_true, if_false, Prog.run_bind, Broker.enqueue_run] at ha ⊢
        cases faults (w.calls + 3)
        case refused => exact ⟨ha, hu⟩
        all_goals exact ⟨ha, fun k hk => RedisBroker.enqueue_unchanged hk⟩

variable {res : Except Error EnqueueResult}

theorem enqueueJob_untouched (h : (m.enqueueJob req id).run (World.tryExec faults) w = (w', res)) (hk : k ≠ id) :
    Untouched k w w' := by
  have ⟨hp, hu⟩ := @enqueueJob_adds faults w id m req
  rw [h] at hp hu
  exact ⟨hu k hk, hp.jobs k hk⟩

theorem enqueueJob_traceless (h : (m.enqueueJob req id).run (World.tryExec faults) w = (w', res)) (hk : k ≠ id)
    (ht : Traceless w k) : Traceless w' k := by
  have ⟨hp, hu⟩ := @enqueueJob_adds faults w id m req
  rw [h] at hp hu
  exact ht.adds hk (hu k hk) hp

-- A new job is in both of the stores under its own identifier. Only a key can make a duplicate of it.
structure Answered (w : World) (submission : JobRequest × JobID) (result : EnqueueResult) : Prop where
  stored  : result.duplicateSuppressed = false → result.job.id = submission.2 ∧
    w.postgres.jobs submission.2 = some (Postgres.newRow result.job) ∧
    w.redis.jobs submission.2 = some (jobHash result.job)
  keyless : submission.1.idempotencyKey = "" → result.duplicateSuppressed = false

theorem Answered.untouched {submission : JobRequest × JobID} (h : Answered w submission result)
    (hs : Untouched submission.2 w w') : Answered w' submission result where
  keyless   := h.keyless
  stored hd :=
    have ⟨hi, hr, hh⟩ := h.stored hd
    ⟨hi, hs.row.trans hr, hs.redis.jobs.trans hh⟩

theorem enqueueJob_answered (h : (m.enqueueJob req id).run (World.tryExec faults) w = (w', .ok result)) :
    Answered w' (req, id) result := by
  revert h
  refine enqueueJob_rule (Q := fun x => x = (w', .ok result) → _) ?_ ?_ ?_ ?_
  case refine_1 => exact fun _ _ _ _ _ h => by cases h
  case refine_4 => exact fun _ _ _ _ h => by cases h
  case refine_2 =>
    intro _ _ _ hk _ _ _ _ _ h
    cases h
    exact ⟨nofun, fun hn => absurd hn hk⟩
  case refine_3 =>
    intro w' result hh hb hd _ hj _ h
    cases h
    have hi : result.job.id = id := hb ▸ rfl
    exact ⟨fun _ => ⟨hi, by rw [hj, Function.update_self], hi ▸ hh⟩, fun _ => hd⟩

-- The requests have been submitted one after the other, and each of them has been answered.
inductive Submissions (m : Manager) (faults : Nat → Fault) :
    World → List (JobRequest × JobID) → List EnqueueResult → World → Prop
  | nil (w : World) : Submissions m faults w [] [] w
  | cons {w w' w'' : World} {req : JobRequest} {id : JobID} {rest : List (JobRequest × JobID)}
    {result : EnqueueResult} {results : List EnqueueResult}
    (first : (m.enqueueJob req id).run (World.tryExec faults) w = (w', .ok result))
    (later : Submissions m faults w' rest results w'') :
    Submissions m faults w ((req, id) :: rest) (result :: results) w''

-- The batch ends with the first request that fails.
theorem enqueueBatch_rule {Q : World × Except Error (List EnqueueResult) → Prop} {reqs : List (JobRequest × JobID)}
    {acc : List EnqueueResult} (ok : ∀ w' results, Submissions m faults w reqs results w' → Q (w', .ok (acc ++ results)))
    (error : ∀ before req id after results w₁ w' e, reqs = before ++ (req, id) :: after →
      Submissions m faults w before results w₁ → (m.enqueueJob req id).run (World.tryExec faults) w₁ = (w', .error e) →
      Q (w', .error e)) :
    Q ((m.enqueueBatch reqs acc).run (World.tryExec faults) w) := by
  induction reqs generalizing w acc
  case nil               => exact List.append_nil acc ▸ ok w [] (.nil w)
  case cons head rest hi =>
    obtain ⟨req, id⟩ := head
    rw [enqueueBatch, Prog.bind_eq, Prog.run_bind]
    cases hr : (m.enqueueJob req id).run (World.tryExec faults) w
    case mk w' res =>
      cases res
      case error e   => exact error [] req id rest [] w w' e rfl (.nil w) hr
      case ok result =>
        refine hi (fun w'' results hs => ?_) fun before req' id' after results w₁ w'' e he hb hf => ?_
        · rw [List.append_assoc]
          exact ok w'' (result :: results) (.cons hr hs)
        · exact error ((req, id) :: before) req' id' after (result :: results) w₁ w'' e (he ▸ rfl)
            (.cons hr hb) hf

namespace Submissions

variable {reqs : List (JobRequest × JobID)} {results : List EnqueueResult}

theorem untouched (h : Submissions m faults w reqs results w') (hk : k ∉ reqs.map (·.2)) : Untouched k w w' := by
  induction h
  case nil          => exact ⟨.refl .., rfl⟩
  case cons hr _ hi =>
    have ⟨hk, hks⟩ := List.ne_and_not_mem_of_not_mem_cons hk
    exact (enqueueJob_untouched hr hk).trans (hi hks)

theorem traceless (h : Submissions m faults w reqs results w') (hk : k ∉ reqs.map (·.2)) (ht : Traceless w k) :
    Traceless w' k := by
  induction h
  case nil          => exact ht
  case cons hr _ hi =>
    have ⟨hk, hks⟩ := List.ne_and_not_mem_of_not_mem_cons hk
    exact hi hks (enqueueJob_traceless hr hk ht)

theorem answered (h : Submissions m faults w reqs results w') (hn : (reqs.map (·.2)).Nodup) :
    List.Forall₂ (Answered w') reqs results := by
  induction h
  case nil             => exact .nil
  case cons hr hl hi =>
    have ⟨hk, hn⟩ := List.nodup_cons.mp hn
    exact .cons ((enqueueJob_answered hr).untouched (hl.untouched hk)) (hi hn)

end Submissions

-- The jobs of the requests that were answered stay as long as nothing happens to a job that is there.
theorem Answered.all_untouched {reqs : List (JobRequest × JobID)} {results : List EnqueueResult}
    (h : List.Forall₂ (Answered w) reqs results) (hs : ∀ k, (w.postgres.jobs k).isSome → Untouched k w w') :
    List.Forall₂ (Answered w') reqs results := by
  refine h.imp fun r result hr => ?_
  cases hd : result.duplicateSuppressed
  case true  => exact ⟨fun hn => (Bool.eq_false_iff.mp hn hd).elim, hr.keyless⟩
  case false => exact hr.untouched <| hs r.2 <| Option.isSome_of_mem (hr.stored hd).right.left

-- The jobs of a batch that succeeds are added to those that were there.
theorem enqueueBatch_answered {before reqs : List (JobRequest × JobID)} {results results' : List EnqueueResult}
    (hb : List.Forall₂ (Answered w) before results) (hn : (reqs.map (·.2)).Nodup) (ht : ∀ r ∈ reqs, Traceless w r.2)
    (h : (m.enqueueBatch reqs []).run (World.tryExec faults) w = (w', .ok results')) :
    List.Forall₂ (Answered w') (before ++ reqs) (results ++ results') := by
  revert h
  refine enqueueBatch_rule (Q := fun x => x = (w', .ok results') → _) (fun _ _ hs h => ?_)
    fun _ _ _ _ _ _ _ _ _ _ _ h => by cases h
  cases h
  refine List.rel_append (Answered.all_untouched hb fun k hk => hs.untouched fun hm => ?_) (hs.answered hn)
  have ⟨r, hm, he⟩ := List.mem_map.mp hm
  exact (ht r hm).ne hk he.symm

-- What is left of a batch when `req` fails in it. The requests before it keep their jobs, also if others are
-- submitted later, and nothing is left of the requests after it.
structure Interrupted (m : Manager) (faults : Nat → Fault) (w w' : World) (e : Error)
    (before : List (JobRequest × JobID)) (req : JobRequest) (id : JobID) (after : List (JobRequest × JobID))
    (results : List EnqueueResult) (w₁ : World) : Prop where
  earlier  : Submissions m faults w before results w₁
  failed   : (m.enqueueJob req id).run (World.tryExec faults) w₁ = (w', .error e)
  answered : List.Forall₂ (Answered w') before results
  later    : ∀ r ∈ after, Traceless w' r.2
  own      : ¬FailsAfterCommit m req id faults w₁ → Traceless w' id
  resubmit : ∀ faults' w₂ w₃ reqs results', w₂.redis = w'.redis → w₂.postgres = w'.postgres →
    (reqs.map (·.2)).Nodup → (∀ r ∈ reqs, Traceless w₂ r.2) →
    (m.enqueueBatch reqs []).run (World.tryExec faults') w₂ = (w₃, .ok results') →
    List.Forall₂ (Answered w₃) (before ++ reqs) (results ++ results')

-- A batch that ends with an error is not undone.
theorem enqueueBatch_error {reqs : List (JobRequest × JobID)} (hn : (reqs.map (·.2)).Nodup)
    (ht : ∀ r ∈ reqs, Traceless w r.2) (h : (m.enqueueBatch reqs []).run (World.tryExec faults) w = (w', .error e)) :
    ∃ before req id after results w₁, reqs = before ++ (req, id) :: after ∧
      Interrupted m faults w w' e before req id after results w₁ := by
  revert h
  refine enqueueBatch_rule (Q := fun x => x = (w', .error e) → _) (fun _ _ _ h => by cases h) ?_
  intro before req id after results w₁ w₂ _ he hb hf h
  cases h
  subst he
  rw [List.map_append, List.map_cons] at hn
  have ⟨hnb, hna, hdisjoint⟩ := List.nodup_append.mp hn
  have ⟨hid, _⟩              := List.nodup_cons.mp hna
  have ⟨_, hti⟩              := List.forall_mem_append.mp ht
  have ⟨hti, hta⟩            := List.forall_mem_cons.mp hti
  have hfresh (k) (hk : k ∈ id :: after.map (·.2)) : k ∉ before.map (·.2) := fun hb => hdisjoint k hb k hk rfl
  have htw₁ := hb.traceless (hfresh id List.mem_cons_self) hti
  have hkept : List.Forall₂ (Answered w') before results :=
    Answered.all_untouched (hb.answered hnb) fun k hk => enqueueJob_untouched hf (htw₁.ne hk)
  refine ⟨before, req, id, after, results, w₁, rfl, hb, hf, hkept, ?_, ?_, ?_⟩
  case refine_1 =>
    intro r hr
    have hm : r.2 ∈ after.map (·.2) := List.mem_map_of_mem hr
    exact enqueueJob_traceless hf (ne_of_mem_of_not_mem hm hid)
      (hb.traceless (hfresh _ (List.mem_cons_of_mem _ hm)) (hta r hr))
  case refine_2 =>
    intro hc
    have ⟨hr, hp⟩ := enqueueJob_unchanged hf hc
    exact htw₁.congr hr hp
  case refine_3 =>
    intro faults' w₂ w₃ reqs results' hr hp hn ht h
    have hkept : List.Forall₂ (Answered w₂) before results :=
      Answered.all_untouched hkept fun k _ => ⟨hr ▸ .refl .., by rw [hp]⟩
    exact enqueueBatch_answered hkept hn ht h

namespace Sample

-- The second request is not valid.
def batch : List (JobRequest × JobID) :=
  [(.plain "email.send", "job-1"), (.plain "", "job-2")]

def corrected : List (JobRequest × JobID) :=
  [(.plain "email.send", "job-3"), (.plain "email.send", "job-4")]

def rejected : World × Except Error (List EnqueueResult) :=
  (Manager.sample.enqueueBatch batch []).run (World.tryExec fun _ => .none) .sample

def resubmitted : World × Except Error (List EnqueueResult) :=
  (Manager.sample.enqueueBatch corrected []).run (World.tryExec fun _ => .none) rejected.1

end Sample

theorem enqueueBatch_error_sample : ∃ before req id after results w₁, Sample.batch = before ++ (req, id) :: after ∧
    Interrupted .sample (fun _ => .none) .sample Sample.rejected.1 (.invalid "type is required")
      before req id after results w₁ :=
  enqueueBatch_error (by decide) (fun _ _ => traceless_sample) (Prod.ext rfl (by decide))

-- The job of the first request stays, and it gets a second one when the batch is submitted again.
theorem not_traceless_of_interrupted :
    (∀ r ∈ Sample.batch, Traceless .sample r.2) ∧ Sample.rejected.2 = .error (.invalid "type is required") ∧
    ¬Traceless Sample.rejected.1 "job-1" ∧ (Sample.rejected.1.redis.jobs "job-1").isSome ∧
    Sample.resubmitted.2.isOk ∧ (Sample.resubmitted.1.postgres.jobs "job-1").isSome ∧
    (Sample.resubmitted.1.postgres.jobs "job-3").isSome := by
  have hr : (Sample.rejected.1.postgres.jobs "job-1").isSome := by decide
  refine ⟨fun _ _ => traceless_sample, by decide, fun h => ?_, by decide, by decide, by decide, by decide⟩
  simp [h.row] at hr

end Manager
end JobPlatform
