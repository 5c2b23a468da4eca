import JobPlatform.Store.Effects

namespace JobPlatform.Postgres

variable {p p' : Postgres} {job : Job} {jobID : JobID} {dependencies : List JobID} {dedupeWindow : Duration}
         {c : RepoCall} {attempt : JobAttempt} {number : Int}

-- The call that writes the row of an attempt.
def recorded : RepoCall → Option JobAttempt
  | .upsertJobAttempt attempt => some attempt
  | _                         => none

-- Only the row of the attempt is written, and only if there is such a job.
theorem upsertJobAttempt_attempts : (p.upsertJobAttempt attempt).1.attempts jobID number = p.attempts jobID number ∨
    (p.jobs jobID).isSome ∧ jobID = attempt.jobID ∧ number = attempt.attempt ∧
    ∃ row, (p.upsertJobAttempt attempt).1.attempts jobID number = some row ∧
      row.leaseExpired = attempt.leaseExpired := by
  unfold upsertJobAttempt
  split
  case isTrue     => exact .inl rfl
  case isFalse hj =>
    by_cases hi : jobID = attempt.jobID ∧ number = attempt.attempt
    case pos =>
      have ⟨hi, hn⟩ := hi
      subst hi hn
      have hj : (p.jobs attempt.jobID).isSome := by simpa [Option.isSome_iff_ne_none] using hj
      dsimp only
      rw [Function.update_self, Function.update_self]
      exact .inr ⟨hj, rfl, rfl, _, rfl, rfl⟩
    case neg =>
      left
      by_cases hi' : jobID = attempt.jobID
      case neg => simp [Function.update_of_ne hi']
      case pos =>
        subst hi'
        have hn : number ≠ attempt.attempt := fun he => hi ⟨rfl, he⟩
        simp [Function.update_of_ne hn]

end JobPlatform.Postgres
