import FairDrop.Json

/-!
# FairDrop.AuditLog

The audit log service (`core/audit_log/service.py`): field-level diffs between
two snapshots of an object, with the sensitive fields masked, and the entry
they are stored as.

A snapshot is the JSON object of a response schema (`model_dump(mode='json')`):
its fields in declaration order.
-/

namespace FairDrop

/-! ## Diffs -/

def sensitiveFields : List String := ["shipping_address", "email"]

def hidden : Json := .str "[SENSITIVE_DATA_HIDDEN]"

/-- The value of a field as the log shows it. -/
def masked (key : String) (value : Json) : Json :=
  if key ∈ sensitiveFields then hidden else value

/-- `AuditLogService.get_diff`: changed fields with their old and new values;
`none` stands for an object that does not exist yet, or no longer. -/
def getDiff : Option Snapshot → Option Snapshot → Snapshot
  | none, some new => new.map fun f => (f.1, .arr [.null, masked f.1 f.2])
  | some old, none => old.map fun f => (f.1, .arr [masked f.1 f.2, .null])
  | some old, some new => new.filterMap fun f =>
      if ¬ f.2.Equal (old.get f.1) then
        some (f.1, .arr [masked f.1 (old.get f.1), masked f.1 f.2])
      else none
  | none, none => []

/-! ## Entries -/

structure AuditLog where
  targetType : String
  targetId : Uuid
  actorId : Uuid
  action : String
  changes : Snapshot
  createdAt : Timestamp
  remoteIp : Option String
  requestId : Option String
  deriving DecidableEq

/-- `AuditLogService.log_event`: the entry, with the extra data merged into the
changes. -/
def logEvent (env : Env) (actorId : Uuid) (targetType : String) (targetId : Uuid)
    (action : String) (changes : Snapshot) (extraData : Option Snapshot) : AuditLog where
  targetType := targetType
  targetId := targetId
  actorId := actorId
  action := action
  changes := match extraData with
    | some extra => changes.update extra
    | none => changes
  createdAt := env.now
  remoteIp := env.remoteIp
  requestId := env.requestId

/-- `AuditLogService.log_object_change`: no entry without a difference. -/
def logObjectChange (env : Env) (actorId targetId : Uuid) (targetType action : String)
    (old new : Option Snapshot) (extraData : Option Snapshot) : Option AuditLog :=
  let diff := getDiff old new
  if diff = [] then none
  else some (logEvent env actorId targetType targetId action diff extraData)

/-- `AuditLogService.log_pii_access` -/
def logPiiAccess (env : Env) (actorId targetId : Uuid) (targetType : String)
    (reason : Option String) : AuditLog :=
  logEvent env actorId targetType targetId "pii_access"
    [("pii_accessed", .scalar (.bool true)), ("reason", .optStr reason)] none

/-- Nothing changed, nothing logged. -/
theorem logObjectChange_self (env : Env) (actorId targetId : Uuid) (targetType action : String)
    (a : Snapshot) (ha : (a.map Prod.fst).Nodup) (extraData : Option Snapshot) :
    logObjectChange env actorId targetId targetType action (some a) (some a) extraData = none := by
  have hunique : a.Unique := ha
  have hdiff : getDiff (some a) (some a) = [] := by
    simp only [getDiff, List.filterMap_eq_nil_iff]
    intro f hf
    simp [hunique.get_of_mem hf, Json.Equal.refl]
  simp [logObjectChange, hdiff]

end FairDrop
