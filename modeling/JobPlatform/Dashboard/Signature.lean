import JobPlatform.Dashboard.Serialize

namespace JobPlatform.Dashboard

open Script

-- What a refresh has received, put together to be compared with what it received before
structure ConsolePayload where
  snapshot       : Value
  jobs           : Value
  schedules      : Value
  workerStatuses : Value

def ConsolePayload.value (input : ConsolePayload) : Value :=
  .object [
    (text "snapshot", input.snapshot),
    (text "jobs", input.jobs),
    (text "schedules", input.schedules),
    (text "workerStatuses", input.workerStatuses)
  ]

def createConsolePayloadSignature (input : ConsolePayload) : Text :=
  stableSerialize input.value

def createInspectionSignature (inspection : Value) : Text :=
  stableSerialize inspection

structure ConsolePayload.Unchanged (previous next : ConsolePayload) : Prop where
  snapshot       : Same previous.snapshot next.snapshot
  jobs           : Same previous.jobs next.jobs
  schedules      : Same previous.schedules next.schedules
  workerStatuses : Same previous.workerStatuses next.workerStatuses

-- Two values differ, but no more if their members of the name `__proto__` are left out.
structure DifferInProto (u v : Value) : Prop where
  differ : ¬Same u v
  same   : Same (strip u) (strip v)

section

variable {u v : Value} {previous next : ConsolePayload}

theorem stableSerialize_eq_iff_same : stableSerialize u = stableSerialize v ↔ Same (strip u) (strip v) := by
  rw [stableSerialize_eq_iff, Same, normal_strip, normal_strip]

theorem stableSerialize_of_same (h : Same u v) : stableSerialize u = stableSerialize v :=
  stableSerialize_eq_iff.mpr (congrArg strip h)

theorem differInProto_iff : DifferInProto u v ↔ stableSerialize u = stableSerialize v ∧ ¬Same u v := by
  rw [stableSerialize_eq_iff_same]
  exact ⟨fun h => ⟨h.same, h.differ⟩, fun h => ⟨h.right, h.left⟩⟩

theorem same_of_signature_iff : (stableSerialize u = stableSerialize v → Same u v) ↔ ¬DifferInProto u v := by
  rw [differInProto_iff, not_and_not_right]

theorem unchanged_iff : previous.Unchanged next ↔ Same previous.value next.value := by
  have hs : Same previous.value next.value ↔ _ := same_object (by rfl) (by simp only [List.map_cons]; decide)
  simp only [hs, mapValues, List.map_cons, List.cons.injEq, Prod.mk.injEq, true_and]
  constructor
  case mp  =>
    rintro ⟨hs, hj, hc, hw⟩
    exact ⟨hs, hj, hc, hw, trivial⟩
  case mpr =>
    rintro ⟨hs, hj, hc, hw, _⟩
    exact ⟨hs, hj, hc, hw⟩

-- The text of a value tells it from every other value unless only members of the name `__proto__` are different, and a
-- refresh or an inspection is taken for the previous one only then.
theorem stableSerialize_canonical_iff :
    ((stableSerialize u = stableSerialize v ↔ Same u v) ↔ ¬DifferInProto u v) ∧
    ((createInspectionSignature u = createInspectionSignature v → Same u v) ↔ ¬DifferInProto u v) ∧
    ((createConsolePayloadSignature previous = createConsolePayloadSignature next → previous.Unchanged next) ↔
      ¬DifferInProto previous.value next.value) := by
  refine ⟨?_, same_of_signature_iff, ?_⟩
  case refine_1 =>
    rw [← same_of_signature_iff]
    exact ⟨Iff.mp, fun h => ⟨h, stableSerialize_of_same⟩⟩
  case refine_2 =>
    rw [unchanged_iff]
    exact same_of_signature_iff

end

namespace Sample

-- The payload of a job may have any members.
def inspection (payload : List (Text × Value)) : Value :=
  .object [
    (text "job", .object [
      (text "id", .string (text "job-1")),
      (text "type", .string (text "email.send")),
      (text "queue", .string (text "default")),
      (text "state", .string (text "queued")),
      (text "payload", .object payload)
    ]),
    (text "attempts", .array []),
    (text "events", .array []),
    (text "graph", .object [(text "rootJobId", .string (text "job-1")), (text "nodes", .array [])])
  ]

theorem not_canonical_proto :
    ¬(stableSerialize (inspection [(proto, .bool true)]) = stableSerialize (inspection []) ↔
      Same (inspection [(proto, .bool true)]) (inspection [])) := by
  intro h
  have hs : Same (inspection [(proto, .bool true)]) (inspection []) := h.mp (by decide +kernel)
  cases hs

end Sample
end JobPlatform.Dashboard
