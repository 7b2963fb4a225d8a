import FairDrop.RowStore.Part
import FairDrop.User.Service

/-!
# FairDrop.User.Verification

Verification requests: users ask for a role (`create_verification_request` of
`user/service.py`), and administrators decide (`VerificationRequestAdmin` of
`core/admin/admin.py`).  The accounts are a part of this database
(`accountPart`).

There is no constraint on the table but its key and the user.  The edit form of
the panel runs `on_model_change`, in a session of its own, before it updates the
row of the request.  The form of a user can give requests, tokens and keys to the
user (`setUser`); it cannot leave them without one (`clearUser`).
-/

namespace FairDrop

open RowStore

/-! ## Rows -/

inductive VerificationStatus where
  | pending | approved | rejected
  deriving DecidableEq, Repr

structure VerificationRequest where
  id : Uuid
  userId : Uuid
  targetRole : UserRole
  status : VerificationStatus
  docsUrl : Option (List (String × String))
  adminFeedback : Option String
  createdAt : Timestamp
  updatedAt : Timestamp
  deriving DecidableEq, Repr

instance : Keyed VerificationRequest Uuid := ⟨VerificationRequest.id⟩

@[simp] theorem key_verificationRequest (r : VerificationRequest) : Keyed.key r = r.id := rfl

/-! ## The database -/

structure VerificationDb where
  accounts : UserDb
  requests : Table VerificationRequest

/-- A row with a user, by the relations of `User`. -/
inductive RelatedRow where
  | refreshToken (id : Uuid)
  | apiKeyB2bPartner (id : Uuid)
  | verificationRequest (id : Uuid)
  deriving DecidableEq, Repr

namespace VerificationDb

def tokenRows (d : VerificationDb) : List (RelatedRow × Uuid) :=
  d.accounts.refreshTokens.rows.map fun r => (.refreshToken r.id, r.userId)

def keyRows (d : VerificationDb) : List (RelatedRow × Uuid) :=
  d.accounts.apiKeys.rows.map fun k => (.apiKeyB2bPartner k.id, k.userId)

def requestRows (d : VerificationDb) : List (RelatedRow × Uuid) :=
  d.requests.rows.map fun r => (.verificationRequest r.id, r.userId)

/-- The rows of the three relations, with their users. -/
def relatedRows (d : VerificationDb) : List (RelatedRow × Uuid) :=
  d.tokenRows ++ d.keyRows ++ d.requestRows

/-- The row with another user, if it is there; only a request keeps the time of the
update. -/
def setUser (d : VerificationDb) (row : RelatedRow) (userId : Uuid) (now : Timestamp) :
    Option VerificationDb :=
  match row with
  | .refreshToken id => (d.accounts.refreshTokens.get id).map fun r =>
      let tokens := d.accounts.refreshTokens.set { r with userId := userId }
      { d with accounts := ⟨d.accounts.users, tokens, d.accounts.apiKeys⟩ }
  | .apiKeyB2bPartner id => (d.accounts.apiKeys.get id).map fun k =>
      let keys := d.accounts.apiKeys.set { k with userId := userId }
      { d with accounts := ⟨d.accounts.users, d.accounts.refreshTokens, keys⟩ }
  | .verificationRequest id => (d.requests.get id).map fun r =>
      { d with requests := d.requests.set { r with userId := userId, updatedAt := now } }

end VerificationDb

inductive VerificationWrite where
  | account (w : UserWrite)
  | addRequest (r : VerificationRequest)
  /-- The edit form of the admin panel. -/
  | updateRequest (id : Uuid) (status : VerificationStatus) (adminFeedback : Option String)
      (now : Timestamp)
  /-- The form of a user: `UPDATE … SET user_id` of a row that it relates to the user. -/
  | setUser (row : RelatedRow) (userId : Uuid) (now : Timestamp)
  /-- The form of a user: `UPDATE … SET user_id = NULL` of a row that it leaves out. -/
  | clearUser (row : RelatedRow)

/-- The row with what the form submits; only a change moves `updated_at`. -/
def VerificationRequest.edit (r : VerificationRequest) (status : VerificationStatus)
    (adminFeedback : Option String) (now : Timestamp) : VerificationRequest :=
  if r.status = status ∧ r.adminFeedback = adminFeedback then r
  else { r with status := status, adminFeedback := adminFeedback, updatedAt := now }

def VerificationWrite.apply : VerificationWrite → VerificationDb → Except UserError VerificationDb
  | .account w, d => (w.apply d.accounts).map fun x => { d with accounts := x }
  | .addRequest r, d => do
      UserDb.require (d.accounts.users.get r.userId).isSome .integrityError
      let requests ← UserDb.addRow d.requests r
      return { d with requests := requests }
  | .updateRequest id status adminFeedback now, d =>
      match d.requests.get id with
      | some r => .ok { d with requests := d.requests.set (r.edit status adminFeedback now) }
      | none => .error .staleData
  | .setUser row userId now, d =>
      match d.setUser row userId now with
      | some d' => do
          UserDb.require (d.accounts.users.get userId).isSome .integrityError
          return d'
      | none => .error .staleData
  -- `user_id` is `NOT NULL` in each of the tables
  | .clearUser row, d =>
      .error (if row ∈ d.relatedRows.map Prod.fst then .integrityError else .staleData)

def verificationStore : Store VerificationDb Empty Empty VerificationWrite UserError where
  view := fun _ r => r
  present := fun _ => True
  apply := VerificationWrite.apply
  outage := .operationalError

def accountPart : Part userStore verificationStore where
  get := VerificationDb.accounts
  put d x := { d with accounts := x }
  lift := .account
  get_put := fun _ _ => rfl
  put_get := fun _ => rfl
  put_put := fun _ _ _ => rfl
  view := fun _ r => r.elim
  present := fun _ => rfl
  apply := fun _ _ => rfl
  outage := rfl

abbrev VerificationTx := Prog Unit VerificationDb Empty VerificationWrite UserError

/-! ## Asking -/

/-- `select(VerificationRequest).where(user_id == userId, status == PENDING)` -/
def VerificationDb.pendingOf (d : VerificationDb) (userId : Uuid) : List VerificationRequest :=
  d.requests.rows.filter fun r => r.userId = userId ∧ r.status = .pending

def newVerificationRequest (env : UserEnv) (userId : Uuid) (targetRole : UserRole)
    (docsUrl : Option (List (String × String))) : VerificationRequest where
  id := env.uuid 0
  userId := userId
  targetRole := targetRole
  status := .pending
  docsUrl := docsUrl
  adminFeedback := none
  createdAt := env.now
  updatedAt := env.now

/-- `session.refresh(verification_request)` -/
def refreshRequest (id : Uuid) : VerificationTx VerificationRequest := do
  let d ← Prog.select
  match d.requests.get id with
  | some r => return r
  | none => throw .staleData

def createVerificationRequest (env : UserEnv) (userId : Uuid) (targetRole : UserRole)
    (docsUrl : Option (List (String × String))) : VerificationTx VerificationRequest := do
  let d ← Prog.select
  let existing ← Prog.ofExcept (oneOrNone (d.pendingOf userId))
  if existing.isSome then throw .verificationRequestAlreadyExists
  if targetRole = .admin ∨ targetRole = .moderator then
    throw (.permissionDenied "Cannot request administrative roles")
  let verificationRequest := newVerificationRequest env userId targetRole docsUrl
  Prog.save (.addRequest verificationRequest)
  Prog.commitWork
  refreshRequest verificationRequest.id

/-! ## Deciding -/

/-- `VerificationRequestAdmin.on_model_change`: what counts is the submitted
status, not the one that the request has. -/
def onModelChange (status : VerificationStatus) (model : VerificationRequest) : VerificationTx Unit :=
  if status = .approved then accountPart.run (elevateUser model.userId model.targetRole)
  else pure ()

/-- The edit form of the admin panel. -/
def saveRequest (env : UserEnv) (requestId : Uuid) (status : VerificationStatus)
    (adminFeedback : Option String) : VerificationTx Unit := do
  let d ← Prog.select
  match d.requests.get requestId with
  | none => throw .notFound
  | some model =>
      onModelChange status model
      Prog.save (.updateRequest model.id status adminFeedback env.now)
      Prog.commitWork

/-! ## What each write does -/

section
variable {d d' : VerificationDb}

theorem apply_addRequest {r : VerificationRequest} :
    (VerificationWrite.addRequest r).apply d = .ok d' ↔
      (d.accounts.users.get r.userId).isSome ∧ ∃ h : d.requests.get r.id = none,
        d' = { d with requests := d.requests.insert r h } := by
  simp only [VerificationWrite.apply, except_bind_eq_ok, UserDb.require_eq_ok, UserDb.addRow_eq_ok,
    key_verificationRequest]
  constructor
  · rintro ⟨_, huser, t, ⟨h, rfl⟩, hd⟩
    exact ⟨huser, h, (Except.ok.inj hd).symm⟩
  · rintro ⟨huser, h, rfl⟩
    exact ⟨(), huser, _, ⟨h, rfl⟩, rfl⟩

/-- Only the key and the user of a new request can be refused. -/
theorem error_addRequest {r : VerificationRequest} {e : UserError}
    (h : (VerificationWrite.addRequest r).apply d = .error e) : e = .integrityError := by
  simp only [VerificationWrite.apply, UserDb.require, UserDb.addRow] at h
  split at h
  · split at h
    · cases h
    · exact (Except.error.inj h).symm
  · exact (Except.error.inj h).symm

/-- A row that is given to a user was there before. -/
theorem apply_setUser {row : RelatedRow} {userId : Uuid} {now : Timestamp}
    (h : (VerificationWrite.setUser row userId now).apply d = .ok d') :
    d.setUser row userId now = some d' := by
  simp only [VerificationWrite.apply] at h
  split at h
  · next hset =>
      obtain ⟨_, _, hd⟩ := except_bind_eq_ok.mp h
      rw [hset, Except.ok.inj hd]
  · contradiction

@[simp] theorem VerificationRequest.id_edit (r : VerificationRequest) (status : VerificationStatus)
    (adminFeedback : Option String) (now : Timestamp) :
    (r.edit status adminFeedback now).id = r.id := by
  unfold edit
  split <;> rfl

@[simp] theorem VerificationRequest.status_edit (r : VerificationRequest)
    (status : VerificationStatus) (adminFeedback : Option String) (now : Timestamp) :
    (r.edit status adminFeedback now).status = status := by
  unfold edit
  split
  · next h => exact h.1
  · rfl

@[simp] theorem VerificationRequest.targetRole_edit (r : VerificationRequest)
    (status : VerificationStatus) (adminFeedback : Option String) (now : Timestamp) :
    (r.edit status adminFeedback now).targetRole = r.targetRole := by
  unfold edit
  split <;> rfl

end

/-! ## A customer

Data for concrete runs. -/

def customer : UserRow where
  id := 3
  email := "customer@example.com"
  passwordHash := "secret"
  isActive := true
  isVerified := false
  role := .user

/-- The customer has an account, and has not asked for anything yet. -/
def customerDb : VerificationDb where
  accounts := { UserDb.empty with users := Table.empty.insert customer rfl }
  requests := .empty

/-- Surroundings at time `now` that draw the ids `n`, `n + 1`, … -/
def deskEnv (now : Timestamp) (n : Uuid) : UserEnv where
  now := now
  uuid k := n + k
  tokenUrlsafe := "token"
  passwordHash := id
  settings := ⟨30, 7, 5, 60⟩

end FairDrop
