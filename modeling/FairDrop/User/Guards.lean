import FairDrop.RowStore.Answers
import FairDrop.User.Service

/-!
# FairDrop.User.Guards

Who a request acts as: the dependencies that resolve a credential to an account
(`shared/deps.py`, `core/security.py`) and the session of the admin panel
(`core/admin/admin_auth.py`).

`Presents` says what it takes for a credential to name an account; the lemmas
about the guards say that nobody else is let in.
-/

namespace FairDrop

open RowStore

/-! ## Permissions -/

def checkPermission (user : UserRow) (allowedRoles : List UserRole) (requiredVerified : Bool) :
    Except UserError Unit :=
  if user.role = .admin then .ok ()
  else if requiredVerified ∧ ¬ user.isVerified then
    .error (.permissionDenied "User is not verified")
  else if user.role ∉ allowedRoles then
    .error (.permissionDenied "User does not have permission to perform this action")
  else .ok ()

def UserRow.isStaff (user : UserRow) : Bool := user.role = .admin ∨ user.role = .moderator

theorem checkPermission_staff {user : UserRow} :
    checkPermission user [.admin, .moderator] false = .ok () ↔ user.isStaff := by
  unfold checkPermission UserRow.isStaff
  cases user.role <;> simp

/-! ## Guards -/

section
variable {J : Type} (crypto : Crypto J) (env : UserEnv)

def getCurrentUser (token : J) : UserTx UserRow :=
  match crypto.decode env.now token with
  | none => throw .credentials
  | some payload =>
      match payload.sub with
      | none => throw .credentials
      | some email => do
          let d ← Prog.select
          let user ← Prog.ofExcept (d.userByEmail email)
          match user with
          | none => throw .credentials
          | some user => return user

/-- The account whose id the session cookie holds. -/
def sessionUser (sessionToken : Option Uuid) : UserTx UserRow :=
  match sessionToken with
  | none => throw .credentials
  | some userId => do
      let d ← Prog.select
      match d.users.get userId with
      | some user => return user
      | none => throw .credentials

def getCurrentUserFlexible (token : Option J) (sessionToken : Option Uuid) : UserTx UserRow :=
  match token with
  | none => sessionUser sessionToken
  | some token =>
      tryCatch (getCurrentUser crypto env token) fun
        | .credentials _ => sessionUser sessionToken
        | e => throw e

variable (scan : Scan (ApiKeyB2BPartner × UserRow))

def getApiKeyUser (apiKey : Option String) : UserTx UserRow :=
  match apiKey with
  | none | some "" => throw (.permissionDenied "Missing API Key")
  | some rawKey => do
      match ← authenticateApiKeyB2BPartner crypto env scan rawKey with
      | none => throw (.permissionDenied "Invalid API Key")
      | some (_, user) => return user

def getB2bPartnerByApiKey (apiKey : Option String) : UserTx UserRow :=
  match apiKey with
  | none | some "" => throw (.credentials "API key is required")
  | some rawKey => do
      match ← authenticateApiKeyB2BPartner crypto env scan rawKey with
      | none => throw (.credentials "Invalid API key")
      | some (_, user) =>
          if ¬ user.isActive then throw (.credentials "User is not active")
          else if user.role ∉ [.userB2b, .sellerB2b] then
            throw (.credentials "Not a B2B partner account")
          else return user

end

/-! ## The admin panel -/

/-- `AdminAuth.login`: the account whose id the session holds afterwards.  A
field of the form that is missing or not a text is `none`. -/
def adminLogin {J : Type} (crypto : Crypto J) (username password : Option String) :
    UserTx (Option UserRow) :=
  match username, password with
  | some email, some password => do
      let authentication ← authenticateUser crypto email password
      match authentication.user with
      | none => return none
      | some user =>
          match checkPermission user [.admin, .moderator] false with
          | .ok () => return some user
          | .error _ => return none
  | _, _ => return none

/-- `AdminAuth.authenticate`: the account in `request.state`. -/
def adminAuthenticate (token : Option Uuid) : UserTx (Option UserRow) :=
  match token with
  | none => return none
  | some token => do
      let d ← Prog.select
      match d.users.get token with
      | none => return none
      | some user => if user.role ∉ [.admin, .moderator] then return none else return some user

/-! ## What the guards establish -/

/-- The access token names the account. -/
def Names {J : Type} (crypto : Crypto J) (now : Timestamp) (token : J) (u : UserRow) : Prop :=
  (crypto.decode now token).bind (·.sub) = some u.email

instance {J : Type} (crypto : Crypto J) (now : Timestamp) (token : J) (u : UserRow) :
    Decidable (Names crypto now token u) :=
  inferInstanceAs (Decidable (_ = _))

/-- A valid token is stored, belongs to its user and has not expired. -/
theorem UserDb.mem_of_validToken {d : UserDb} {now : Timestamp} {token : String}
    {row : RefreshToken} {user : UserRow} (h : d.validToken now token = .ok (row, user)) :
    row ∈ d.refreshTokens.rows ∧ row.token = token ∧ user ∈ d.users.rows ∧ user.id = row.userId ∧
      now ≤ row.expiresAt := by
  obtain ⟨found, hfound, hrest⟩ := except_bind_eq_ok.mp h
  cases found with
  | none => contradiction
  | some x =>
      obtain ⟨r, hr, hx⟩ := List.mem_filterMap.mp (mem_of_oneOrNone hfound)
      split at hx
      · next htoken =>
          obtain ⟨u, hu, rfl⟩ := Option.map_eq_some_iff.mp hx
          change (if r.expiresAt < now then _ else _) = _ at hrest
          split at hrest
          · contradiction
          · next hexpired =>
            obtain ⟨rfl, rfl⟩ := Prod.mk.inj (Except.ok.inj hrest)
            exact ⟨hr, htoken, Table.mem_of_get hu, Table.key_of_get hu, Int.not_lt.mp hexpired⟩
      · contradiction

/-- The keys tried for a raw key are the active ones with its prefix, with their users. -/
theorem UserDb.mem_candidateKeys {d : UserDb} {rawKey : String} {k : ApiKeyB2BPartner}
    {user : UserRow} : (k, user) ∈ d.candidateKeys rawKey ↔
    d.apiKeys.get k.id = some k ∧ k.isActive ∧ k.keyPrefix = apiKeyPrefix rawKey ∧
      d.users.get k.userId = some user := by
  rw [candidateKeys, List.mem_filterMap]
  constructor
  · rintro ⟨k', hk', h⟩
    split at h
    · next hcond =>
        obtain ⟨u, hu, heq⟩ := Option.map_eq_some_iff.mp h
        obtain ⟨rfl, rfl⟩ := Prod.mk.inj heq
        exact ⟨Table.get_of_mem hk', hcond.2, hcond.1, hu⟩
    · contradiction
  · rintro ⟨hget, hactive, hpre, hu⟩
    refine ⟨k, Table.mem_of_get hget, ?_⟩
    rw [if_pos ⟨hpre, hactive⟩, hu]
    rfl

/-- The row that `authenticate_api_key_b2b_partner` settles on. -/
def UserDb.keyOwner {J : Type} (d : UserDb) (crypto : Crypto J)
    (scan : Scan (ApiKeyB2BPartner × UserRow)) (rawKey : String) : Option UserRow :=
  ((scan.val (d.candidateKeys rawKey)).find? fun k => crypto.verify rawKey k.1.hashedKey).map
    Prod.snd

theorem UserDb.mem_of_keyOwner {J : Type} {d : UserDb} {crypto : Crypto J}
    {scan : Scan (ApiKeyB2BPartner × UserRow)} {rawKey : String} {user : UserRow}
    (h : d.keyOwner crypto scan rawKey = some user) : user ∈ d.users.rows := by
  obtain ⟨⟨k, u⟩, hfind, rfl⟩ := Option.map_eq_some_iff.mp h
  have hmem : (k, u) ∈ d.candidateKeys rawKey :=
    (scan.property _).mem_iff.mp (List.mem_of_find?_eq_some hfind)
  exact Table.mem_of_get (mem_candidateKeys.mp hmem).2.2.2

section
variable {J : Type} {crypto : Crypto J} {env : UserEnv} {P : UserDb → Prop}
  {scan : Scan (ApiKeyB2BPartner × UserRow)}

/-- The account was found by the email, and its hash fits the password. -/
def HasPassword (crypto : Crypto J) (email password : String) (u : UserRow) : Prop :=
  u.email = email ∧ crypto.verify password u.passwordHash

/-- Whoever authenticates has the password. -/
theorem ends_authenticateUser (email password : String) :
    ends userStore P (authenticateUser crypto email password) (Succeeds fun a =>
      ∀ user, a.user = some user →
        ∃ d, P d ∧ user ∈ d.users.rows ∧ HasPassword crypto email password user) := by
  refine ends_then ends_select fun d hd => ?_
  refine ends_check fun found hfound => ?_
  cases found with
  | none => exact ends_pure fun user huser => by contradiction
  | some user =>
      obtain ⟨hmem, hemail⟩ := UserDb.mem_of_userByEmail hfound
      change ends _ _ (if _ then _ else _) _
      split
      · next hverify =>
          refine ends_pure fun u hu => ?_
          obtain rfl := Option.some.inj hu
          exact ⟨d, hd, hmem, hemail, hverify⟩
      · exact ends_pure fun u hu => by contradiction

/-- A login's token is for a user with that password. -/
theorem ends_login (username password : String) :
    ends userStore P (login crypto env username password) (Succeeds fun token =>
      ∃ d, P d ∧ token.user ∈ d.users.rows ∧ HasPassword crypto username password token.user) := by
  refine ends_then (ends_authenticateUser username password) fun a ha => ?_
  cases huser : a.user with
  | none => exact ends_throw _
  | some user =>
      exact ends_next fun _ => ends_pure (ha user huser)

/-- A refresh's token is for the user of the token that it spends. -/
theorem ends_refreshToken (token : String) :
    ends userStore P (refreshToken crypto env token) (Succeeds fun t =>
      ∃ d, P d ∧ t.user ∈ d.users.rows ∧ ∃ row ∈ d.refreshTokens.rows,
        row.token = token ∧ row.userId = t.user.id ∧ env.now ≤ row.expiresAt) := by
  have hspent :
      ends userStore P (refreshAccessToken env token) (Succeeds fun user =>
        ∃ d, P d ∧ user ∈ d.users.rows ∧ ∃ row ∈ d.refreshTokens.rows,
          row.token = token ∧ row.userId = user.id ∧ env.now ≤ row.expiresAt) := by
    refine ends_then ends_select fun d hd => ?_
    refine ends_check fun found hfound => ?_
    obtain ⟨row, user⟩ := found
    obtain ⟨hrow, htoken, huser, hid, hexpires⟩ := UserDb.mem_of_validToken hfound
    exact ends_next fun _ => ends_next fun _ =>
      ends_pure ⟨d, hd, huser, row, hrow, htoken, hid.symm, hexpires⟩
  exact ends_then hspent fun user huser =>
    ends_next fun _ => ends_pure huser

/-- Who is let in by an access token is named by it; and if it is turned down,
there was a database in which the token named nobody. -/
theorem ends_getCurrentUser (token : J) :
    ends userStore P (getCurrentUser crypto env token) fun r => match r with
      | .ok user => ∃ d, P d ∧ user ∈ d.users.rows ∧ Names crypto env.now token user
      | .error (.credentials _) => (∀ v, ¬ Names crypto env.now token v) ∨
          ∃ d, P d ∧ ∀ v ∈ d.users.rows, ¬ Names crypto env.now token v
      | .error _ => True := by
  unfold getCurrentUser Names
  cases hdecode : crypto.decode env.now token with
  | none => exact .inl fun v hv => by contradiction
  | some payload =>
      obtain ⟨sub, exp⟩ := payload
      cases sub with
      | none => exact .inl fun v hv => by contradiction
      | some email =>
          apply ends_bind
          refine ⟨fun d hd => ?_, trivial⟩
          apply ends_bind
          cases hfound : d.userByEmail email with
          | error e =>
              have herror : e = .multipleResultsFound := by
                unfold UserDb.userByEmail oneOrNone at hfound
                split at hfound <;> simp_all
              rw [herror]
              trivial
          | ok found =>
              cases found with
              | none =>
                  refine .inr ⟨d, hd, fun v hv hnames => ?_⟩
                  have hemail : email = v.email := Option.some.inj hnames
                  exact UserDb.userByEmail_none hfound v hv hemail.symm
              | some user =>
                  obtain ⟨hmem, hemail⟩ := UserDb.mem_of_userByEmail hfound
                  exact ⟨d, hd, hmem, congrArg some hemail.symm⟩

theorem ends_sessionUser (sessionToken : Option Uuid) :
    ends userStore P (sessionUser sessionToken) (Succeeds fun user =>
      ∃ d, P d ∧ user ∈ d.users.rows ∧ sessionToken = some user.id) := by
  cases sessionToken with
  | none => exact ends_throw _
  | some userId =>
      refine ends_then ends_select fun d hd => ?_
      cases huser : d.users.get userId with
      | none => simp only; exact ends_throw _
      | some user =>
          simp only
          exact ends_pure ⟨d, hd, Table.mem_of_get huser, by rw [← Table.key_of_get huser]; rfl⟩

/-- The session counts where the access token is missing or names nobody. -/
theorem ends_getCurrentUserFlexible (token : Option J) (sessionToken : Option Uuid) :
    ends userStore P (getCurrentUserFlexible crypto env token sessionToken)
      (Succeeds fun user =>
        (∃ d, P d ∧ user ∈ d.users.rows ∧ ∃ t, token = some t ∧ Names crypto env.now t user) ∨
          sessionToken = some user.id ∧
            ∃ d, P d ∧ ∀ t, token = some t → ∀ v ∈ d.users.rows, ¬ Names crypto env.now t v) := by
  cases token with
  | none =>
      refine ends_weaken (fun user ⟨d, hd, _, hsession⟩ => ?_) (ends_sessionUser sessionToken)
      exact .inr ⟨hsession, d, hd, by simp⟩
  | some token =>
      refine ends_tryCatch (ends_mono (fun r hr => ?_) (ends_getCurrentUser token))
      cases r with
      | ok user =>
          obtain ⟨d, hd, hmem, hnames⟩ := hr
          exact succeeds_ok.mpr (.inl ⟨d, hd, hmem, token, rfl, hnames⟩)
      | error e =>
          cases e with
          | credentials message =>
              refine ends_weaken (fun user ⟨d, hd, _, hsession⟩ => ?_)
                (ends_sessionUser sessionToken)
              refine .inr ⟨hsession, ?_⟩
              obtain hnobody | ⟨d', hd', hnobody⟩ := hr
              · exact ⟨d, hd, fun t ht v _ => Option.some.inj ht ▸ hnobody v⟩
              · exact ⟨d', hd', fun t ht v hv => Option.some.inj ht ▸ hnobody v hv⟩
          | _ => exact ends_throw _

/-- Whoever a partner's key authenticates owns it in a state that was read. -/
theorem ends_authenticateApiKey (rawKey : String) :
    ends userStore P (authenticateApiKeyB2BPartner crypto env scan rawKey)
      (Succeeds fun found => ∀ k user, found = some (k, user) →
        ∃ d, P d ∧ d.keyOwner crypto scan rawKey = some user) := by
  refine ends_then ends_select fun d hd => ?_
  cases hfind : (scan.val (d.candidateKeys rawKey)).find? fun k =>
      crypto.verify rawKey k.1.hashedKey with
  | none => exact ends_pure fun k user h => by contradiction
  | some x =>
      refine ends_next fun _ => ends_next fun _ => ends_pure ?_
      intro k user h
      obtain ⟨-, rfl⟩ := Prod.mk.inj (Option.some.inj h)
      exact ⟨d, hd, by rw [UserDb.keyOwner, hfind]; rfl⟩

theorem ends_getApiKeyUser (apiKey : Option String) :
    ends userStore P (getApiKeyUser crypto env scan apiKey) (Succeeds fun user =>
      ∃ d, P d ∧ ∃ rawKey, apiKey = some rawKey ∧ d.keyOwner crypto scan rawKey = some user) := by
  unfold getApiKeyUser
  split
  · exact ends_throw _
  · exact ends_throw _
  · next rawKey _ =>
      refine ends_then (ends_authenticateApiKey rawKey) fun found hfound => ?_
      cases found with
      | none => exact ends_throw _
      | some x =>
          obtain ⟨d, hd, howner⟩ := hfound x.1 x.2 rfl
          exact ends_pure ⟨d, hd, rawKey, rfl, howner⟩

/-- The guard of the partner endpoints that looks at the flag. -/
theorem ends_getB2bPartnerByApiKey (apiKey : Option String) :
    ends userStore P (getB2bPartnerByApiKey crypto env scan apiKey)
      (Succeeds fun user => user.isActive ∧
        ∃ d, P d ∧ ∃ rawKey, apiKey = some rawKey ∧ d.keyOwner crypto scan rawKey = some user) := by
  unfold getB2bPartnerByApiKey
  split
  · exact ends_throw _
  · exact ends_throw _
  · next rawKey _ =>
      refine ends_then (ends_authenticateApiKey rawKey) fun found hfound => ?_
      cases found with
      | none => exact ends_throw _
      | some x =>
          obtain ⟨d, hd, howner⟩ := hfound x.1 x.2 rfl
          change ends _ _ (if _ then _ else _) _
          split
          · exact ends_throw _
          · next hactive =>
              split
              · exact ends_throw _
              · exact ends_pure ⟨by simpa using hactive, d, hd, rawKey, rfl, howner⟩

/-- The panel's login lets in staff with the password. -/
theorem ends_adminLogin (username password : Option String) :
    ends userStore P (adminLogin crypto username password) (Succeeds fun found =>
      ∀ user, found = some user → user.isStaff ∧ ∃ d, P d ∧ user ∈ d.users.rows ∧
        ∃ email secret, username = some email ∧ password = some secret ∧
          HasPassword crypto email secret user) := by
  unfold adminLogin
  split
  · next email secret =>
      refine ends_then (ends_authenticateUser email secret) fun a ha => ?_
      cases huser : a.user with
      | none => exact ends_pure fun user h => by contradiction
      | some user =>
          simp only
          cases hpermission : checkPermission user [.admin, .moderator] false with
          | error e => exact ends_pure fun user h => by contradiction
          | ok _ =>
              refine ends_pure fun u hu => ?_
              obtain rfl := Option.some.inj hu
              obtain ⟨d, hd, hmem, hpassword⟩ := ha user huser
              exact ⟨checkPermission_staff.mp hpermission, d, hd, hmem, email, secret, rfl, rfl,
                hpassword⟩
  · exact ends_pure fun user h => by contradiction

/-- The panel's session is that of a member of staff. -/
theorem ends_adminAuthenticate (token : Option Uuid) :
    ends userStore P (adminAuthenticate token) (Succeeds fun found =>
      ∀ user, found = some user →
        user.isStaff ∧ ∃ d, P d ∧ user ∈ d.users.rows ∧ token = some user.id) := by
  cases token with
  | none => exact ends_pure fun user h => by contradiction
  | some token =>
      refine ends_then ends_select fun d hd => ?_
      cases huser : d.users.get token with
      | none => simp only; exact ends_pure fun user h => by contradiction
      | some user =>
          simp only
          split
          · exact ends_pure fun user h => by contradiction
          · next hrole =>
              refine ends_pure fun u hu => ?_
              obtain rfl := Option.some.inj hu
              have hstaff : user.role ∈ [UserRole.admin, .moderator] := not_not.mp hrole
              refine ⟨by simpa [UserRow.isStaff] using hstaff, d, hd, Table.mem_of_get huser, ?_⟩
              rw [← Table.key_of_get huser]
              rfl

end

end FairDrop
