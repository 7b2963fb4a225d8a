import FairDrop.Text.Str
import FairDrop.User.Guards
import FairDrop.User.Registration
import FairDrop.User.Verification

/-!
# FairDrop.User.Routes

The doors to the accounts and their credentials: the endpoints of
`user/routes.py`, the guard of the partner endpoints (`external/routes.py`), and
the forms of the admin panel (`core/admin/`) with the checks in front of them.

The panel library is outside the repository.  It asks `authenticate` in front of
every page, then `is_accessible` of the view, and lets a form of the view write
the row that has been submitted.  `UserAdmin` does not restrict its form, so that
has fields for the relations of `User` as well: they offer the rows of the other
tables, the rows that are submitted become the user's, and the form fails if it
leaves one of the user's out.
-/

namespace FairDrop

open RowStore

/-! ## Payloads -/

/-- `VerificationRequestCreate`: three roles can be asked for. -/
structure VerificationRequestCreate where
  targetRole : UserRole
  docsUrl : Option (List (String × String))
  literal : targetRole ∈ [.userB2b, .sellerB2b, .seller]

/-- `VerificationRequestRead` -/
structure VerificationRequestRead where
  id : Uuid
  targetRole : UserRole
  status : VerificationStatus
  adminFeedback : Option String
  createdAt : Timestamp
  updatedAt : Timestamp

def VerificationRequestRead.modelValidate (r : VerificationRequest) : VerificationRequestRead :=
  ⟨r.id, r.targetRole, r.status, r.adminFeedback, r.createdAt, r.updatedAt⟩

/-- `APIKeyRead` -/
structure ApiKeyRead where
  id : Uuid
  name : String
  keyPrefix : String
  isActive : Bool
  expiresAt : Option Timestamp
  lastUsedAt : Option Timestamp

def ApiKeyRead.modelValidate (k : ApiKeyB2BPartner) : ApiKeyRead :=
  ⟨k.id, k.name, k.keyPrefix, k.isActive, k.expiresAt, k.lastUsedAt⟩

/-- What the doors answer. -/
inductive AccountResponse (J : Type) where
  | user (user : UserRead)
  | token (token : Token J)
  | apiKeyWithSecret (apiKey : ApiKeyRead) (rawKey : String)
  | apiKeys (apiKeys : List ApiKeyRead)
  | upgradeRequest (request : VerificationRequestRead)
  | upgradeRequests (requests : List VerificationRequestRead)
  /-- The account that a partner endpoint goes on with. -/
  | partner (user : UserRow)
  /-- The id that the session of the panel holds from now on, if the login succeeded. -/
  | session (token : Option Uuid)
  | none

/-! ## Endpoints -/

/-- `get_verification_requests`: newest first. -/
def getVerificationRequests (scan : Scan VerificationRequest) (userId : Uuid) :
    VerificationTx (List VerificationRequest) := do
  let d ← Prog.select
  let requests := d.requests.rows.filter fun r => r.userId = userId
  return (scan.val requests).mergeSort fun r r' => r'.createdAt ≤ r.createdAt

def getLatestVerificationRequest (scan : Scan VerificationRequest) (userId : Uuid) :
    VerificationTx (Option VerificationRequest) := do
  let d ← Prog.select
  let requests := d.requests.rows.filter fun r => r.userId = userId
  return ((scan.val requests).mergeSort fun r r' => r'.createdAt ≤ r.createdAt).head?

/-- What an endpoint works with. -/
structure Surroundings (J : Type) where
  crypto : Crypto J
  emailStr : EmailStr
  env : UserEnv
  keyScan : Scan (ApiKeyB2BPartner × UserRow)
  requestScan : Scan VerificationRequest

namespace UserRoutes

section
variable {J : Type} (w : Surroundings J)

/-- `RoleChecker.__call__` -/
def roleChecker (allowedRoles : List UserRole) (requiredVerified : Bool) (token : J) :
    UserTx UserRow := do
  let user ← getCurrentUser w.crypto w.env token
  Prog.ofExcept (checkPermission user allowedRoles requiredVerified)
  return user

/-- `B2B_PARTNER_DEP` -/
def b2bPartnerDep (token : J) : UserTx UserRow :=
  roleChecker w [.userB2b, .sellerB2b] false token

def readUserMe (token : J) : UserTx UserRead := do
  let currentUser ← getCurrentUser w.crypto w.env token
  Prog.ofExcept (readUser w.emailStr currentUser)

def createApiKeyB2bPartner (token : J) (name : String) : UserTx (ApiKeyRead × String) := do
  let currentUser ← b2bPartnerDep w token
  let (apiKey, rawKey) ← createApiKeyB2BPartner w.env currentUser.id name
  return (.modelValidate apiKey, rawKey)

def getApiKeysB2bPartners (token : J) : UserTx (List ApiKeyRead) := do
  let currentUser ← b2bPartnerDep w token
  let d ← Prog.select
  return (d.apiKeys.rows.filter fun k => k.userId = currentUser.id).map .modelValidate

def deleteApiKeyB2bPartner (token : J) (keyId : Uuid) : UserTx Unit := do
  let currentUser ← b2bPartnerDep w token
  deleteApiKeyB2BPartner currentUser.id keyId

def createUpgradeRequest (token : J) (schema : VerificationRequestCreate) :
    VerificationTx VerificationRequestRead := do
  let currentUser ← accountPart.run (getCurrentUser w.crypto w.env token)
  let request ← createVerificationRequest w.env currentUser.id schema.targetRole schema.docsUrl
  return .modelValidate request

def getUpgradeRequests (token : J) : VerificationTx (List VerificationRequestRead) := do
  let currentUser ← accountPart.run (getCurrentUser w.crypto w.env token)
  let requests ← getVerificationRequests w.requestScan currentUser.id
  return requests.map .modelValidate

def getLatestUpgradeRequest (token : J) : VerificationTx VerificationRequestRead := do
  let currentUser ← accountPart.run (getCurrentUser w.crypto w.env token)
  match ← getLatestVerificationRequest w.requestScan currentUser.id with
  | none => throw (.notFound "No upgrade requests found")
  | some request => return .modelValidate request

end

end UserRoutes

/-- The endpoints, once the rate limiters have let the request through. -/
inductive AccountEndpoint (J : Type) where
  | createUser (email password : String)
  | login (username password : String)
  | refreshToken (refreshToken : String)
  | readUserMe (token : J)
  | createApiKey (token : J) (name : String)
  | getApiKeys (token : J)
  | deleteApiKey (token : J) (keyId : Uuid)
  | createUpgradeRequest (token : J) (schema : VerificationRequestCreate)
  | getUpgradeRequests (token : J)
  | getLatestUpgradeRequest (token : J)
  /-- An endpoint for partners, as far as its guard. -/
  | partner (apiKey : Option String)
  /-- The login form of the panel. -/
  | adminLogin (username password : Option String)

def AccountEndpoint.service {J : Type} (w : Surroundings J) :
    AccountEndpoint J → VerificationTx (AccountResponse J)
  | .createUser email password =>
      .user <$> accountPart.run (UserRoutes.createUser w.emailStr w.env email password)
  | .login username password =>
      .token <$> accountPart.run (UserRoutes.login w.crypto w.env username password)
  | .refreshToken token => .token <$> accountPart.run (FairDrop.refreshToken w.crypto w.env token)
  | .readUserMe token => .user <$> accountPart.run (UserRoutes.readUserMe w token)
  | .createApiKey token name =>
      (fun x => .apiKeyWithSecret x.1 x.2) <$>
        accountPart.run (UserRoutes.createApiKeyB2bPartner w token name)
  | .getApiKeys token => .apiKeys <$> accountPart.run (UserRoutes.getApiKeysB2bPartners w token)
  | .deleteApiKey token keyId =>
      (fun _ => .none) <$> accountPart.run (UserRoutes.deleteApiKeyB2bPartner w token keyId)
  | .createUpgradeRequest token schema =>
      .upgradeRequest <$> UserRoutes.createUpgradeRequest w token schema
  | .getUpgradeRequests token => .upgradeRequests <$> UserRoutes.getUpgradeRequests w token
  | .getLatestUpgradeRequest token =>
      .upgradeRequest <$> UserRoutes.getLatestUpgradeRequest w token
  | .partner apiKey => .partner <$> accountPart.run (getApiKeyUser w.crypto w.env w.keyScan apiKey)
  | .adminLogin username password =>
      (fun user => .session (user.map UserRow.id)) <$>
        accountPart.run (FairDrop.adminLogin w.crypto username password)

/-! ## The panel -/

/-- What `is_accessible` reads of a request, besides the account. -/
structure PanelScope where
  endpointName : String
  routeName : String
  path : String

/-- `AdminAccessMixin.is_accessible`, which is also its `is_visible`. -/
def AdminAccessMixin.isAccessible (user : Option UserRow) : Bool :=
  user.any fun user => user.role = .admin

namespace UserAdmin

def forbidden : List String := ["create", "edit", "delete"]

/-- `UserAdmin.is_accessible` -/
def isAccessible (user : Option UserRow) (scope : PanelScope) : Bool :=
  match user with
  | none => false
  | some user =>
      if user.role = .moderator ∧ (scope.endpointName ∈ forbidden ∨ scope.routeName ∈ forbidden ∨
          ∃ x ∈ forbidden, Text.Contains ('/' :: x.toList ++ ['/']) scope.path.toList) then false
      else user.role ∈ [.admin, .moderator]

/-- Who gets to a form that writes users. -/
theorem isAccessible_of_forbidden {user : Option UserRow} {scope : PanelScope}
    (hscope : scope.endpointName ∈ forbidden) :
    isAccessible user scope = AdminAccessMixin.isAccessible user := by
  cases user with
  | none => rfl
  | some user =>
      unfold isAccessible AdminAccessMixin.isAccessible
      cases hrole : user.role <;> simp [hrole, hscope]

end UserAdmin

/-- The fields of the form of a user for the relations: the ids of the rows. -/
structure UserRelations where
  refreshTokens : List Uuid
  apiKeysB2bPartners : List Uuid
  verificationRequests : List Uuid

/-- The form relates nothing to the user. -/
def UserRelations.none : UserRelations := ⟨[], [], []⟩

def UserRelations.rows (relations : UserRelations) : List RelatedRow :=
  relations.refreshTokens.map .refreshToken ++
    relations.apiKeysB2bPartners.map .apiKeyB2bPartner ++
    relations.verificationRequests.map .verificationRequest

/-- The forms through which the panel writes accounts, credentials and requests. -/
inductive PanelForm where
  | editVerificationRequest (requestId : Uuid) (status : VerificationStatus)
      (adminFeedback : Option String)
  | createUser (user : UserRow) (relations : UserRelations)
  | editUser (user : UserRow) (relations : UserRelations)
  | createApiKey (apiKey : ApiKeyB2BPartner)
  | editApiKey (apiKey : ApiKeyB2BPartner)

/-- The function of the library that handles the form. -/
def PanelForm.endpointName : PanelForm → String
  | .createUser _ _ | .createApiKey _ => "create"
  | .editVerificationRequest _ _ _ | .editUser _ _ | .editApiKey _ => "edit"

/-- `is_accessible` of the view that the form belongs to. -/
def PanelForm.isAccessible (user : Option UserRow) (scope : PanelScope) : PanelForm → Bool
  | .createUser _ _ | .editUser _ _ => UserAdmin.isAccessible user scope
  | .editVerificationRequest _ _ _ | .createApiKey _ | .editApiKey _ =>
      AdminAccessMixin.isAccessible user

/-- Write a row that has been submitted. -/
def submitRow (w : UserWrite) : VerificationTx Unit := do
  Prog.save (.account w)
  Prog.commitWork

/-- The rows of the three relations that meet `p`, each from a query of its own. -/
def selectRelated (p : RelatedRow × Uuid → Bool) : VerificationTx (List (RelatedRow × Uuid)) := do
  let d ← Prog.select
  let tokens := d.tokenRows.filter p
  let d ← Prog.select
  let keys := d.keyRows.filter p
  let d ← Prog.select
  return tokens ++ keys ++ d.requestRows.filter p

/-- The form accepts the rows that it has offered. -/
def validateRelations (relations : UserRelations) : VerificationTx Unit := do
  let choices ← selectRelated fun _ => true
  if ¬ relations.rows ⊆ choices.map Prod.fst then throw .validationError

/-- What is due to the rows when the user, who had those of `loaded`, is to have
those of `found`. -/
def relationWrites (userId : Uuid) (now : Timestamp) (loaded found : List (RelatedRow × Uuid)) :
    List VerificationWrite :=
  let added := found.filter fun x => x.1 ∉ loaded.map Prod.fst ∧ x.2 ≠ userId
  let removed := loaded.filter fun x => x.1 ∉ found.map Prod.fst
  added.map (fun x => .setUser x.1 userId now) ++ removed.map fun x => .clearUser x.1

/-- Write a user with the rows that have been submitted. -/
def submitUser (env : UserEnv) (w : UserWrite) (userId : Uuid)
    (loaded found : List (RelatedRow × Uuid)) : VerificationTx Unit := do
  Prog.save (.account w)
  Prog.saveAll (relationWrites userId env.now loaded found)
  Prog.commitWork

namespace UserAdmin

def create (env : UserEnv) (user : UserRow) (relations : UserRelations) : VerificationTx Unit := do
  validateRelations relations
  let found ← selectRelated fun x => x.1 ∈ relations.rows
  submitUser env (.addUser user) user.id [] found

def edit (env : UserEnv) (user : UserRow) (relations : UserRelations) : VerificationTx Unit := do
  let d ← Prog.select
  if d.accounts.users.get user.id = none then throw .notFound
  validateRelations relations
  let loaded ← selectRelated fun x => x.2 = user.id
  let found ← selectRelated fun x => x.1 ∈ relations.rows
  submitUser env (.updateUser user) user.id loaded found

end UserAdmin

def PanelForm.service (env : UserEnv) : PanelForm → VerificationTx Unit
  | .editVerificationRequest requestId status adminFeedback =>
      saveRequest env requestId status adminFeedback
  | .createUser user relations => UserAdmin.create env user relations
  | .editUser user relations => UserAdmin.edit env user relations
  | .createApiKey apiKey => submitRow (.addApiKey apiKey)
  | .editApiKey apiKey => submitRow (.updateApiKey apiKey)

/-- A form that is submitted, with the account whose id the session holds. -/
structure PanelRequest where
  token : Option Uuid
  form : PanelForm
  routeName : String
  path : String
  env : UserEnv

def PanelRequest.scope (q : PanelRequest) : PanelScope :=
  ⟨q.form.endpointName, q.routeName, q.path⟩

/-- `authenticate` has a session of its own; whom it does not let in is sent to the
login page. -/
def PanelRequest.program (q : PanelRequest) : VerificationTx Unit := do
  let user ← Prog.inSession (accountPart.run (adminAuthenticate q.token))
  if user.isNone then throw .credentials
  if q.form.isAccessible user q.scope = false then throw .permissionDenied
  Prog.inSession (q.form.service q.env)

/-! ## Visitors -/

inductive Visitor (J : Type) where
  | endpoint (endpoint : AccountEndpoint J) (w : Surroundings J)
  | panel (q : PanelRequest)

def Visitor.program {J : Type} : Visitor J → VerificationTx (AccountResponse J)
  | .endpoint e w => Prog.inSession (e.service w)
  | .panel q => (fun _ => .none) <$> q.program

/-- Any number of visitors at work. -/
abbrev VisitorWorld (J T : Type) :=
  Sys Unit VerificationDb Empty VerificationWrite UserError (AccountResponse J) T

/-- Nobody has begun. -/
def VisitorWorld.start {J T : Type} (visitors : T → Visitor J) (d : VerificationDb) :
    VisitorWorld J T :=
  Sys.start d fun t => ((visitors t).program, ())

end FairDrop
