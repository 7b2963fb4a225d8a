import FairDrop.Inventory.Service
import FairDrop.User.Models

/-!
# FairDrop.User.Service

Registration, passwords, access and refresh tokens, and the API keys of B2B
partners (`user/service.py`, `user/routes.py`, `core/security.py`).
-/

namespace FairDrop

open RowStore

/-! ## Surroundings -/

/-- The settings that the user services read (`core/config.py`). -/
structure AccountSettings where
  accessTokenExpireMinutes : Nat
  refreshTokenExpireDays : Nat
  loginRateLimitAttempts : Int
  loginRateLimitTtl : Int

/-- The payload of an access token. -/
structure Claims where
  sub : Option String
  exp : Timestamp
  deriving DecidableEq, Repr

/-- What `passlib` and `jose` do: comparing a password with a hash, and encoding
and decoding access tokens of type `J`.  Decoding depends on the time. -/
structure Crypto (J : Type) where
  verify : String → String → Bool
  encode : Claims → J
  decode : Timestamp → J → Option Claims

/-- What the process around a request supplies: the clock, fresh row ids, the
value that `secrets.token_urlsafe` returns, salted hashes, and the settings. -/
structure UserEnv where
  now : Timestamp
  uuid : Nat → Uuid
  tokenUrlsafe : String
  passwordHash : String → String
  settings : AccountSettings

def microsPerDay : Int := 86400000000

/-! ## Users -/

/-- `session.refresh(user)` -/
def refreshUser (id : Uuid) : UserTx UserRow := do
  let d ← Prog.select
  match d.users.get id with
  | some user => return user
  | none => throw .staleData

def createUser (env : UserEnv) (email password : String) : UserTx UserRow := do
  let d ← Prog.select
  let existing ← Prog.ofExcept (d.userByEmail email)
  if existing.isSome then throw .userAlreadyExists
  let user : UserRow := {
    id := env.uuid 0
    email := email
    passwordHash := env.passwordHash password
    isActive := true
    isVerified := false
    role := .user }
  Prog.save (.addUser user)
  Prog.commitWork
  refreshUser user.id

/-- What `authenticate_user` finds out, and the account with whose hash it has
compared the password. -/
structure Authentication where
  user : Option UserRow
  compared : Option UserRow

def authenticateUser {J : Type} (crypto : Crypto J) (email password : String) :
    UserTx Authentication := do
  let d ← Prog.select
  let user ← Prog.ofExcept (d.userByEmail email)
  match user with
  | none => return ⟨none, none⟩
  | some user =>
      if crypto.verify password user.passwordHash then return ⟨some user, some user⟩
      else return ⟨none, some user⟩

/-- What the admin panel does to the user of a verification request that it
approves (`VerificationRequestAdmin.on_model_change`). -/
def elevateUser (userId : Uuid) (targetRole : UserRole) : UserTx Unit := do
  let d ← Prog.select
  match d.users.get userId with
  | none => throw .noResultFound
  | some user =>
      Prog.save (.elevateUser user.id targetRole)
      Prog.commitWork

/-! ## Tokens -/

def createAccessToken {J : Type} (crypto : Crypto J) (env : UserEnv) (sub : String) : J :=
  crypto.encode ⟨some sub, env.now + env.settings.accessTokenExpireMinutes * microsPerMinute⟩

/-- The row of a new refresh token. -/
def newRefreshToken (env : UserEnv) (userId : Uuid) : RefreshToken where
  id := env.uuid 0
  userId := userId
  token := env.tokenUrlsafe
  expiresAt := env.now + env.settings.refreshTokenExpireDays * microsPerDay

def createRefreshToken (env : UserEnv) (userId : Uuid) : UserTx String := do
  Prog.save (.addRefreshToken (newRefreshToken env userId))
  Prog.commitWork
  return env.tokenUrlsafe

/-- The token row with its user, who exists by the foreign key; it must not have
expired. -/
def UserDb.validToken (d : UserDb) (now : Timestamp) (refreshToken : String) :
    Except UserError (RefreshToken × UserRow) := do
  let found ← oneOrNone (d.refreshTokens.rows.filterMap fun r =>
    if r.token = refreshToken then (d.users.get r.userId).map fun user => (r, user) else none)
  match found with
  | none => .error .credentials
  | some (tokenObj, user) =>
      if tokenObj.expiresAt < now then .error .credentials else .ok (tokenObj, user)

def refreshAccessToken (env : UserEnv) (refreshToken : String) : UserTx UserRow := do
  let d ← Prog.select
  let (tokenObj, user) ← Prog.ofExcept (d.validToken env.now refreshToken)
  Prog.save (.deleteRefreshToken tokenObj.id)
  Prog.commitWork
  return user

/-- The response of the token endpoints, and the user whom it is for. -/
structure Token (J : Type) where
  accessToken : J
  refreshToken : String
  user : UserRow

/-- `POST /auth/token`, once the rate limiter has let it through. -/
def login {J : Type} (crypto : Crypto J) (env : UserEnv) (username password : String) :
    UserTx (Token J) := do
  let authentication ← authenticateUser crypto username password
  match authentication.user with
  | none => throw .credentials
  | some user =>
      let refreshToken ← createRefreshToken env user.id
      return ⟨createAccessToken crypto env user.email, refreshToken, user⟩

/-- `POST /auth/refresh` -/
def refreshToken {J : Type} (crypto : Crypto J) (env : UserEnv) (token : String) :
    UserTx (Token J) := do
  let user ← refreshAccessToken env token
  let refreshToken ← createRefreshToken env user.id
  return ⟨createAccessToken crypto env user.email, refreshToken, user⟩

/-! ## API keys -/

def keyLengthPrefix : Nat := 12

/-- `raw_key[:KEY_LENGTH_PREFIX]` -/
def apiKeyPrefix (rawKey : String) : String := .ofList (rawKey.toList.take keyLengthPrefix)

def createApiKeyB2BPartner (env : UserEnv) (userId : Uuid) (name : String) :
    UserTx (ApiKeyB2BPartner × String) := do
  let rawKey := env.tokenUrlsafe
  let apiKey : ApiKeyB2BPartner := {
    id := env.uuid 0
    userId := userId
    name := name
    keyPrefix := apiKeyPrefix rawKey
    hashedKey := env.passwordHash rawKey
    isActive := true
    expiresAt := none
    lastUsedAt := none }
  Prog.save (.addApiKey apiKey)
  Prog.commitWork
  let d ← Prog.select
  match d.apiKeys.get apiKey.id with
  | some apiKey => return (apiKey, rawKey)
  | none => throw .staleData

/-- The key rows that may belong to `rawKey`, each with its user. -/
def UserDb.candidateKeys (d : UserDb) (rawKey : String) : List (ApiKeyB2BPartner × UserRow) :=
  d.apiKeys.rows.filterMap fun k =>
    if k.keyPrefix = apiKeyPrefix rawKey ∧ k.isActive then
      (d.users.get k.userId).map fun user => (k, user)
    else none

def authenticateApiKeyB2BPartner {J : Type} (crypto : Crypto J) (env : UserEnv)
    (scan : Scan (ApiKeyB2BPartner × UserRow)) (rawKey : String) :
    UserTx (Option (ApiKeyB2BPartner × UserRow)) := do
  let d ← Prog.select
  match (scan.val (d.candidateKeys rawKey)).find? fun k => crypto.verify rawKey k.1.hashedKey with
  | none => return none
  | some (apiKey, user) =>
      Prog.save (.touchApiKey apiKey.id env.now)
      Prog.commitWork
      return some ({ apiKey with lastUsedAt := some env.now }, user)

def deleteApiKeyB2BPartner (userId keyId : Uuid) : UserTx Unit := do
  let d ← Prog.select
  match (d.apiKeys.get keyId).filter fun k => k.userId = userId with
  | none => throw .notFound
  | some apiKey =>
      Prog.save (.deleteApiKey apiKey.id)
      Prog.commitWork

end FairDrop
