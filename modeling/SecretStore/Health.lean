/-!
# Health of a store

A store reports its state through the status of its answer to a health check.
-/

namespace SecretStore

/-- The state of a store. -/
inductive Health where
  | active
  | standby
  | drSecondary
  | performanceStandby
  | notInitialized
  | sealed
  | unknown (status : UInt16)
  deriving DecidableEq, Repr

namespace Health

/-- The state behind the status of a health check. -/
def ofStatus (status : UInt16) : Health :=
  if status = 200 then active
  else if status = 429 then standby
  else if status = 472 then drSecondary
  else if status = 473 then performanceStandby
  else if status = 501 then notInitialized
  else if status = 503 then sealed
  else unknown status

/-- Whether the store has been initialized. -/
def isInitialized : Health → Bool
  | notInitialized | unknown _ => false
  | _ => true

/-- Whether the store needs key shares. One that is not initialized is sealed as well. -/
def isSealed : Health → Bool
  | notInitialized | sealed => true
  | _ => false

/-- Whether the store answers authenticated requests. -/
def isHealthy : Health → Bool
  | active | standby | performanceStandby => true
  | _ => false

/-- The name of the state in reports, the status standing apart. -/
def name : Health → String
  | active => "active"
  | standby => "standby"
  | drSecondary => "dr_secondary"
  | performanceStandby => "performance_standby"
  | notInitialized => "not_initialized"
  | sealed => "sealed"
  | unknown _ => "unknown"

/-- The name of the state in log lines. -/
def logName : Health → String
  | active => "Active"
  | standby => "Standby"
  | drSecondary => "DrSecondary"
  | performanceStandby => "PerformanceStandby"
  | notInitialized => "NotInitialized"
  | sealed => "Sealed"
  | unknown status => s!"Unknown({status})"

end Health

end SecretStore
