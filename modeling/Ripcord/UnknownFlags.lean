import Ripcord.CacheTraffic

namespace Ripcord

open Foundation

theorem evaluatePayload_ne_flagNotFound (payload userId : Str) (context : Option Context) :
    evaluatePayload payload userId context ≠ .ok flagNotFound := by
  intro answer
  unfold evaluatePayload at answer
  obtain ⟨spec, _, answer⟩ := bind_eq_ok answer
  exact evaluate_reason answer rfl

/-- A key without a flag is reported as such exactly when no field of that name is read. -/
theorem evaluateFlagCached_flagNotFound_iff (faults : Faults) (others : Redis → Redis) (redis : Redis)
    (db : Database) (key : Str) (unknown : getFlag db key = none) (userId : Str) (context : Option Context) :
    (evaluateFlagCached faults others redis db key userId context).2 = .ok flagNotFound ↔
      faults.readFlag ∨ redis.hget key = none := by
  have plain : evaluateFlag db key userId context = .ok flagNotFound := by simp [evaluateFlag, unknown]
  rw [evaluateFlagCached_answer, plain]
  by_cases raised : faults.readFlag = true
  · simp [raised]
  · simp only [raised, Bool.false_eq_true, if_false, false_or]
    unfold readFlag cachedFlag
    cases redis.hget key with
    | some payload => simp [evaluatePayload_ne_flagNotFound]
    | none => by_cases complete : redis.hexists completeField <;> simp [complete]

theorem evaluateFlagCached_flagNotFound_iff_cold :
    (evaluateFlagCached {} id Redis.empty .empty (str "retired") (str "ada") none).2 = .ok flagNotFound ↔
      ({} : Faults).readFlag ∨ Redis.empty.hget (str "retired") = none :=
  evaluateFlagCached_flagNotFound_iff {} id Redis.empty .empty (str "retired") rfl (str "ada") none

def markerRequest : EvaluateRequest where
  flagKey := completeField
  userId := str "ada"
  context := ∅
  flagKeyWithin := by decide
  userIdWithin := by decide
  contextWithin := by decide
  entriesWithin _ _ here := by cases here

/-- Once the hash is complete, its marker is served as if it were a flag. -/
theorem markerRequest_raises :
    ∃ acts world, run (World.act trafficStep) Traffic.start acts = some world ∧
      getFlag world.shared.db markerRequest.flagKey = none ∧
      (evaluateFlagCached {} id world.shared.redis world.shared.db markerRequest.flagKey markerRequest.userId
        (some markerRequest.context)).2 = .error .typeError := by
  refine ⟨[(0, .getRuleset), (0, .next), (0, .next), (0, .next), (0, .next), (0, .next), (0, .next)], ?_⟩
  exact run_reaches _ _ _ _ (by decide +kernel)

end Ripcord
