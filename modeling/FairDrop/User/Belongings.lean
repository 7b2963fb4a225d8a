import FairDrop.User.Verification
import FairDrop.User.Registration

/-!
# FairDrop.User.Belongings

What the accounts have: roles, logins, refresh tokens, keys and requests for a role,
and which writes give them and take them away.
-/

namespace FairDrop

open RowStore

/-! ## Who has what -/

namespace VerificationDb

variable (d : VerificationDb) (id userId : Uuid)

def HasRole (role : UserRole) : Prop := ∃ u ∈ d.accounts.users.rows, u.id = id ∧ u.role = role

def HasLogin (email passwordHash : String) : Prop :=
  ∃ u ∈ d.accounts.users.rows, u.id = id ∧ u.email = email ∧ u.passwordHash = passwordHash

def HasToken (r : RefreshToken) : Prop := r ∈ d.accounts.refreshTokens.rows

/-- The token is there, whoever its user is. -/
def HasTokenText (token : String) (expiresAt : Timestamp) : Prop :=
  ∃ r ∈ d.accounts.refreshTokens.rows, r.id = id ∧ r.token = token ∧ r.expiresAt = expiresAt

def HasKey : Prop := ∃ k ∈ d.accounts.apiKeys.rows, k.id = id ∧ k.userId = userId

def Asks (role : UserRole) : Prop :=
  ∃ r ∈ d.requests.rows, r.id = id ∧ r.userId = userId ∧ r.targetRole = role

/-- The request asks for the role, whoever its user is. -/
def AsksFor (role : UserRole) : Prop := ∃ r ∈ d.requests.rows, r.id = id ∧ r.targetRole = role

def HasStatus (status : VerificationStatus) : Prop :=
  ∃ r ∈ d.requests.rows, r.id = id ∧ r.status = status

end VerificationDb

/-! ## What a write does to the tables -/

@[simp] theorem VerificationRequest.userId_edit (r : VerificationRequest)
    (status : VerificationStatus) (adminFeedback : Option String) (now : Timestamp) :
    (r.edit status adminFeedback now).userId = r.userId := by
  unfold edit
  split <;> rfl

/-- What becomes of each table. -/
structure TablesAfter (w : VerificationWrite) (d d' : VerificationDb) : Prop where
  users : d'.accounts.users = d.accounts.users ∨
    (∃ (u : UserRow) (hnew : d.accounts.users.get u.id = none),
      w = .account (.addUser u) ∧ d'.accounts.users = d.accounts.users.insert u hnew) ∨
    (∃ u : UserRow, w = .account (.updateUser u) ∧
      d'.accounts.users = d.accounts.users.set u) ∨
    ∃ (u : UserRow) (role : UserRole), d.accounts.users.get u.id = some u ∧
      w = .account (.elevateUser u.id role) ∧
      d'.accounts.users = d.accounts.users.set { u with role := role, isVerified := true }
  refreshTokens : d'.accounts.refreshTokens = d.accounts.refreshTokens ∨
    (∃ (r : RefreshToken) (hnew : d.accounts.refreshTokens.get r.id = none),
      w = .account (.addRefreshToken r) ∧
      d'.accounts.refreshTokens = d.accounts.refreshTokens.insert r hnew) ∨
    (∃ id, w = .account (.deleteRefreshToken id) ∧
      d'.accounts.refreshTokens = d.accounts.refreshTokens.erase id) ∨
    ∃ (r : RefreshToken) (userId : Uuid) (now : Timestamp),
      d.accounts.refreshTokens.get r.id = some r ∧ w = .setUser (.refreshToken r.id) userId now ∧
      d'.accounts.refreshTokens = d.accounts.refreshTokens.set { r with userId := userId }
  apiKeys : d'.accounts.apiKeys = d.accounts.apiKeys ∨
    (∃ (k : ApiKeyB2BPartner) (hnew : d.accounts.apiKeys.get k.id = none),
      w = .account (.addApiKey k) ∧ d'.accounts.apiKeys = d.accounts.apiKeys.insert k hnew) ∨
    (∃ k : ApiKeyB2BPartner, w = .account (.updateApiKey k) ∧
      d'.accounts.apiKeys = d.accounts.apiKeys.set k) ∨
    (∃ (k : ApiKeyB2BPartner) (now : Timestamp), d.accounts.apiKeys.get k.id = some k ∧
      d'.accounts.apiKeys = d.accounts.apiKeys.set { k with lastUsedAt := some now }) ∨
    (∃ id, w = .account (.deleteApiKey id) ∧
      d'.accounts.apiKeys = d.accounts.apiKeys.erase id) ∨
    ∃ (k : ApiKeyB2BPartner) (userId : Uuid) (now : Timestamp),
      d.accounts.apiKeys.get k.id = some k ∧ w = .setUser (.apiKeyB2bPartner k.id) userId now ∧
      d'.accounts.apiKeys = d.accounts.apiKeys.set { k with userId := userId }
  requests : d'.requests = d.requests ∨
    (∃ (r : VerificationRequest) (hnew : d.requests.get r.id = none),
      w = .addRequest r ∧ d'.requests = d.requests.insert r hnew) ∨
    (∃ (r : VerificationRequest) (status : VerificationStatus) (feedback : Option String)
      (now : Timestamp), d.requests.get r.id = some r ∧
      w = .updateRequest r.id status feedback now ∧
      d'.requests = d.requests.set (r.edit status feedback now)) ∨
    ∃ (r : VerificationRequest) (userId : Uuid) (now : Timestamp),
      d.requests.get r.id = some r ∧ w = .setUser (.verificationRequest r.id) userId now ∧
      d'.requests = d.requests.set { r with userId := userId, updatedAt := now }

section
variable {d d' : VerificationDb} {w : VerificationWrite}

theorem tables_account {write : UserWrite} (h : (VerificationWrite.account write).apply d = .ok d') :
    TablesAfter (.account write) d d' := by
  obtain ⟨x, hx, rfl⟩ : ∃ x, write.apply d.accounts = .ok x ∧ d' = { d with accounts := x } := by
    simp only [VerificationWrite.apply] at h
    cases hw : write.apply d.accounts with
    | error e =>
        rw [hw] at h
        contradiction
    | ok x =>
        rw [hw] at h
        exact ⟨x, rfl, (Except.ok.inj h).symm⟩
  cases write with
  | addUser u =>
      obtain ⟨-, hnew, rfl⟩ := apply_addUser.mp hx
      exact ⟨.inr (.inl ⟨u, hnew, rfl, rfl⟩), .inl rfl, .inl rfl, .inl rfl⟩
  | updateUser u =>
      simp only [UserWrite.apply, except_bind_eq_ok, UserDb.require_eq_ok] at hx
      obtain ⟨_, _, _, _, hd⟩ := hx
      obtain rfl := Except.ok.inj hd
      exact ⟨.inr (.inr (.inl ⟨u, rfl, rfl⟩)), .inl rfl, .inl rfl, .inl rfl⟩
  | elevateUser id role =>
      simp only [UserWrite.apply] at hx
      split at hx
      · next u hu =>
          obtain rfl := Except.ok.inj hx
          obtain rfl : u.id = id := Table.key_of_get hu
          exact ⟨.inr (.inr (.inr ⟨u, role, hu, rfl, rfl⟩)), .inl rfl, .inl rfl, .inl rfl⟩
      · contradiction
  | addRefreshToken r =>
      obtain ⟨_, hnew, rfl⟩ := apply_addRefreshToken hx
      exact ⟨.inl rfl, .inr (.inl ⟨r, hnew, rfl, rfl⟩), .inl rfl, .inl rfl⟩
  | deleteRefreshToken id =>
      obtain rfl := Except.ok.inj hx
      exact ⟨.inl rfl, .inr (.inr (.inl ⟨id, rfl, rfl⟩)), .inl rfl, .inl rfl⟩
  | addApiKey k =>
      simp only [UserWrite.apply, except_bind_eq_ok, UserDb.require_eq_ok, UserDb.addRow_eq_ok] at hx
      obtain ⟨_, _, t, ⟨hnew, rfl⟩, hd⟩ := hx
      obtain rfl := Except.ok.inj hd
      exact ⟨.inl rfl, .inl rfl, .inr (.inl ⟨k, hnew, rfl, rfl⟩), .inl rfl⟩
  | updateApiKey k =>
      simp only [UserWrite.apply, except_bind_eq_ok, UserDb.require_eq_ok] at hx
      obtain ⟨_, _, _, _, hd⟩ := hx
      obtain rfl := Except.ok.inj hd
      exact ⟨.inl rfl, .inl rfl, .inr (.inr (.inl ⟨k, rfl, rfl⟩)), .inl rfl⟩
  | touchApiKey id now =>
      simp only [UserWrite.apply] at hx
      split at hx
      · next k hk =>
          obtain rfl := Except.ok.inj hx
          obtain rfl : k.id = id := Table.key_of_get hk
          exact ⟨.inl rfl, .inl rfl, .inr (.inr (.inr (.inl ⟨k, now, hk, rfl⟩))), .inl rfl⟩
      · contradiction
  | deleteApiKey id =>
      obtain rfl := Except.ok.inj hx
      exact ⟨.inl rfl, .inl rfl, .inr (.inr (.inr (.inr (.inl ⟨id, rfl, rfl⟩)))), .inl rfl⟩

theorem tables_setUser {row : RelatedRow} {userId : Uuid} {now : Timestamp}
    (h : d.setUser row userId now = some d') : TablesAfter (.setUser row userId now) d d' := by
  cases row with
  | refreshToken id =>
      obtain ⟨r, hr, rfl⟩ := Option.map_eq_some_iff.mp h
      obtain rfl : r.id = id := Table.key_of_get hr
      exact ⟨.inl rfl, .inr (.inr (.inr ⟨r, userId, now, hr, rfl, rfl⟩)), .inl rfl, .inl rfl⟩
  | apiKeyB2bPartner id =>
      obtain ⟨k, hk, rfl⟩ := Option.map_eq_some_iff.mp h
      obtain rfl : k.id = id := Table.key_of_get hk
      exact ⟨.inl rfl, .inl rfl,
        .inr (.inr (.inr (.inr (.inr ⟨k, userId, now, hk, rfl, rfl⟩)))), .inl rfl⟩
  | verificationRequest id =>
      obtain ⟨r, hr, rfl⟩ := Option.map_eq_some_iff.mp h
      obtain rfl : r.id = id := Table.key_of_get hr
      exact ⟨.inl rfl, .inl rfl, .inl rfl, .inr (.inr (.inr ⟨r, userId, now, hr, rfl, rfl⟩))⟩

/-- A write changes at most one row of one table. -/
theorem tables_apply (h : w.apply d = .ok d') : TablesAfter w d d' := by
  cases w with
  | account write => exact tables_account h
  | addRequest r =>
      obtain ⟨-, hnew, rfl⟩ := apply_addRequest.mp h
      exact ⟨.inl rfl, .inl rfl, .inl rfl, .inr (.inl ⟨r, hnew, rfl, rfl⟩)⟩
  | updateRequest id status feedback now =>
      simp only [VerificationWrite.apply] at h
      split at h
      · next r hr =>
          obtain rfl := Except.ok.inj h
          obtain rfl : r.id = id := Table.key_of_get hr
          exact ⟨.inl rfl, .inl rfl, .inl rfl,
            .inr (.inr (.inl ⟨r, status, feedback, now, hr, rfl, rfl⟩))⟩
      · contradiction
  | setUser row userId now => exact tables_setUser (apply_setUser h)
  | clearUser row => contradiction

end

/-! ## Roles and logins -/

/-- The write stores an account with the role. -/
inductive GivesRole (id : Uuid) (role : UserRole) : VerificationWrite → Prop
  | add (u : UserRow) (hid : u.id = id) (hrole : u.role = role) :
      GivesRole id role (.account (.addUser u))
  | update (u : UserRow) (hid : u.id = id) (hrole : u.role = role) :
      GivesRole id role (.account (.updateUser u))
  | elevate : GivesRole id role (.account (.elevateUser id role))

/-- The write stores an account with this login. -/
inductive StoresLogin (id : Uuid) (email passwordHash : String) : VerificationWrite → Prop
  | add (u : UserRow) (hid : u.id = id) (hemail : u.email = email)
      (hhash : u.passwordHash = passwordHash) :
      StoresLogin id email passwordHash (.account (.addUser u))
  | update (u : UserRow) (hid : u.id = id) (hemail : u.email = email)
      (hhash : u.passwordHash = passwordHash) :
      StoresLogin id email passwordHash (.account (.updateUser u))

/-- The write is one to the row of a user who is there. -/
inductive Rewrites (id : Uuid) : VerificationWrite → Prop
  | update (u : UserRow) (hid : u.id = id) : Rewrites id (.account (.updateUser u))
  | elevate (role : UserRole) : Rewrites id (.account (.elevateUser id role))

section
variable {d d' : VerificationDb} {w : VerificationWrite} {id userId : Uuid} {role : UserRole}

/-- A stored account was stored before, or is what the write makes of it. -/
theorem user_apply {x : UserRow} (h : w.apply d = .ok d') (hx : x ∈ d'.accounts.users.rows) :
    x ∈ d.accounts.users.rows ∨ w = .account (.addUser x) ∨ w = .account (.updateUser x) ∨
      ∃ u ∈ d.accounts.users.rows, ∃ role, w = .account (.elevateUser u.id role) ∧
        x = { u with role := role, isVerified := true } := by
  rcases (tables_apply h).users with hsame | ⟨u, hnew, rfl, husers⟩ | ⟨u, rfl, husers⟩ |
    ⟨u, role, hu, rfl, husers⟩
  · exact .inl (hsame ▸ hx)
  · rw [husers, Table.mem_insert] at hx
    rcases hx with hx | rfl
    · exact .inl hx
    · exact .inr (.inl rfl)
  · rw [husers] at hx
    rcases Table.mem_set hx with rfl | ⟨hx, -⟩
    · exact .inr (.inr (.inl rfl))
    · exact .inl hx
  · rw [husers] at hx
    rcases Table.mem_set hx with rfl | ⟨hx, -⟩
    · exact .inr (.inr (.inr ⟨u, Table.mem_of_get hu, role, rfl, rfl⟩))
    · exact .inl hx

theorem hasRole_apply (h : w.apply d = .ok d') (hafter : d'.HasRole id role) :
    d.HasRole id role ∨ GivesRole id role w := by
  obtain ⟨x, hx, rfl, rfl⟩ := hafter
  rcases user_apply h hx with hx | rfl | rfl | ⟨u, -, role, rfl, rfl⟩
  · exact .inl ⟨x, hx, rfl, rfl⟩
  · exact .inr (.add x rfl rfl)
  · exact .inr (.update x rfl rfl)
  · exact .inr .elevate

/-- An elevation leaves the login alone. -/
theorem hasLogin_apply {email passwordHash : String} (h : w.apply d = .ok d')
    (hafter : d'.HasLogin id email passwordHash) :
    d.HasLogin id email passwordHash ∨ StoresLogin id email passwordHash w := by
  obtain ⟨x, hx, rfl, rfl, rfl⟩ := hafter
  rcases user_apply h hx with hx | rfl | rfl | ⟨u, hu, role, rfl, rfl⟩
  · exact .inl ⟨x, hx, rfl, rfl, rfl⟩
  · exact .inr (.add x rfl rfl rfl)
  · exact .inr (.update x rfl rfl rfl)
  · exact .inl ⟨u, hu, rfl, rfl, rfl⟩

/-- Only the form of a user takes a login away. -/
theorem not_hasLogin_apply {email passwordHash : String} (h : w.apply d = .ok d')
    (hafter : ¬ d'.HasLogin id email passwordHash) :
    ¬ d.HasLogin id email passwordHash ∨ ∃ u, w = .account (.updateUser u) ∧ u.id = id := by
  refine or_iff_not_imp_left.mpr fun hbefore => ?_
  obtain ⟨x, hx, rfl, rfl, rfl⟩ := not_not.mp hbefore
  have hgone : x ∉ d'.accounts.users.rows := fun hx' => hafter ⟨x, hx', rfl, rfl, rfl⟩
  rcases (tables_apply h).users with hsame | ⟨u, hnew, rfl, husers⟩ | ⟨u, rfl, husers⟩ |
    ⟨u, given, hu, rfl, husers⟩
  · exact absurd (hsame ▸ hx) hgone
  · exact absurd (husers ▸ (Table.mem_insert hnew).mpr (.inl hx)) hgone
  · by_cases hkey : x.id = u.id
    · exact ⟨u, rfl, hkey.symm⟩
    · exact absurd (husers ▸ Table.mem_set_of_ne hx hkey) hgone
  · by_cases hkey : x.id = u.id
    · -- the row is there, with a new role
      obtain rfl := d.accounts.users.eq_of_key hx (Table.mem_of_get hu) hkey
      have hrow : { x with role := given, isVerified := true } ∈ d'.accounts.users.rows := by
        rw [husers]
        exact Table.mem_set_self hx rfl
      exact absurd ⟨_, hrow, rfl, rfl, rfl⟩ hafter
    · exact absurd (husers ▸ Table.mem_set_of_ne hx hkey) hgone

/-- Nobody loses a role unless their row is written. -/
theorem not_hasRole_apply (h : w.apply d = .ok d') (hafter : ¬ d'.HasRole id role) :
    ¬ d.HasRole id role ∨ Rewrites id w := by
  refine or_iff_not_imp_left.mpr fun hbefore => ?_
  obtain ⟨x, hx, hid, hrole⟩ := not_not.mp hbefore
  have hgone : x ∉ d'.accounts.users.rows := fun hx' => hafter ⟨x, hx', hid, hrole⟩
  rcases (tables_apply h).users with hsame | ⟨u, hnew, rfl, husers⟩ | ⟨u, rfl, husers⟩ |
    ⟨u, given, -, rfl, husers⟩
  · exact absurd (hsame ▸ hx) hgone
  · exact absurd (husers ▸ (Table.mem_insert hnew).mpr (.inl hx)) hgone
  · by_cases hkey : x.id = u.id
    · exact .update u (hkey.symm.trans hid)
    · exact absurd (husers ▸ Table.mem_set_of_ne hx hkey) hgone
  · by_cases hkey : x.id = u.id
    · rw [← hid, hkey]
      exact .elevate given
    · exact absurd (husers ▸ Table.mem_set_of_ne hx hkey) hgone

end

/-! ## Refresh tokens -/

/-- The write stores the token for its user. -/
inductive StoresToken (r : RefreshToken) : VerificationWrite → Prop
  | add : StoresToken r (.account (.addRefreshToken r))
  | move (now : Timestamp) : StoresToken r (.setUser (.refreshToken r.id) r.userId now)

/-- The write takes the token from its user. -/
inductive LosesToken (id : Uuid) : VerificationWrite → Prop
  | delete : LosesToken id (.account (.deleteRefreshToken id))
  | move (userId : Uuid) (now : Timestamp) : LosesToken id (.setUser (.refreshToken id) userId now)

section
variable {d d' : VerificationDb} {w : VerificationWrite} {r : RefreshToken}

theorem hasToken_apply (h : w.apply d = .ok d') (hafter : d'.HasToken r) :
    d.HasToken r ∨ StoresToken r w := by
  unfold VerificationDb.HasToken at hafter
  rcases (tables_apply h).refreshTokens with hsame | ⟨r', hnew, rfl, htokens⟩ |
    ⟨id, rfl, htokens⟩ | ⟨r', userId, now, hr', rfl, htokens⟩
  · rw [hsame] at hafter
    exact .inl hafter
  · rw [htokens, Table.mem_insert] at hafter
    rcases hafter with hold | rfl
    · exact .inl hold
    · exact .inr .add
  · rw [htokens, Table.mem_erase] at hafter
    exact .inl hafter.1
  · rw [htokens] at hafter
    rcases Table.mem_set hafter with rfl | ⟨hold, -⟩
    · exact .inr (.move now)
    · exact .inl hold

/-- A token that its user has no more was deleted or moved. -/
theorem not_hasToken_apply (h : w.apply d = .ok d') (hafter : ¬ d'.HasToken r) :
    ¬ d.HasToken r ∨ LosesToken r.id w := by
  refine or_iff_not_imp_left.mpr fun hbefore => ?_
  have hr : r ∈ d.accounts.refreshTokens.rows := not_not.mp hbefore
  unfold VerificationDb.HasToken at hafter
  rcases (tables_apply h).refreshTokens with hsame | ⟨r', hnew, rfl, htokens⟩ |
    ⟨id, rfl, htokens⟩ | ⟨r', userId, now, hr', rfl, htokens⟩
  · exact absurd (hsame ▸ hr) hafter
  · exact absurd (htokens ▸ (Table.mem_insert hnew).mpr (.inl hr)) hafter
  · by_cases hid : r.id = id
    · rw [hid]
      exact .delete
    · exact absurd (htokens ▸ Table.mem_erase.mpr ⟨hr, hid⟩) hafter
  · by_cases hid : r.id = r'.id
    · rw [hid]
      exact .move userId now
    · exact absurd (htokens ▸ Table.mem_set_of_ne hr hid) hafter

variable {id : Uuid} {token : String} {expiresAt : Timestamp}

/-- Moving a token leaves its text alone. -/
theorem hasTokenText_apply (h : w.apply d = .ok d') (hafter : d'.HasTokenText id token expiresAt) :
    d.HasTokenText id token expiresAt ∨
      ∃ userId, w = .account (.addRefreshToken ⟨id, userId, token, expiresAt⟩) := by
  obtain ⟨x, hx, rfl, rfl, rfl⟩ := hafter
  rcases (tables_apply h).refreshTokens with hsame | ⟨r', hnew, rfl, htokens⟩ |
    ⟨id, rfl, htokens⟩ | ⟨r', userId, now, hr', rfl, htokens⟩
  · exact .inl ⟨x, hsame ▸ hx, rfl, rfl, rfl⟩
  · rw [htokens, Table.mem_insert] at hx
    rcases hx with hold | rfl
    · exact .inl ⟨x, hold, rfl, rfl, rfl⟩
    · exact .inr ⟨x.userId, rfl⟩
  · rw [htokens, Table.mem_erase] at hx
    exact .inl ⟨x, hx.1, rfl, rfl, rfl⟩
  · rw [htokens] at hx
    rcases Table.mem_set hx with rfl | ⟨hold, -⟩
    · exact .inl ⟨r', Table.mem_of_get hr', rfl, rfl, rfl⟩
    · exact .inl ⟨x, hold, rfl, rfl, rfl⟩

/-- Only a deletion ends a token. -/
theorem not_hasTokenText_apply (h : w.apply d = .ok d')
    (hafter : ¬ d'.HasTokenText id token expiresAt) :
    ¬ d.HasTokenText id token expiresAt ∨ w = .account (.deleteRefreshToken id) := by
  refine or_iff_not_imp_left.mpr fun hbefore => ?_
  obtain ⟨x, hx, hid, htext⟩ := not_not.mp hbefore
  have hgone : x ∉ d'.accounts.refreshTokens.rows := fun hx' => hafter ⟨x, hx', hid, htext⟩
  rcases not_hasToken_apply h hgone with hnot | hloses
  · exact absurd hx hnot
  rw [hid] at hloses
  cases hloses with
  | delete => rfl
  | move userId now =>
      -- the row is there, for another user
      obtain ⟨r', hr', rfl⟩ := Option.map_eq_some_iff.mp (apply_setUser h)
      obtain rfl := d.accounts.refreshTokens.eq_of_key hx (Table.mem_of_get hr')
        (hid.trans (Table.key_of_get hr').symm)
      exact absurd ⟨_, Table.mem_set_self hx rfl, hid, htext⟩ hafter

end

/-! ## Keys -/

/-- The write stores a key of the user. -/
inductive StoresKey (id userId : Uuid) : VerificationWrite → Prop
  | add (k : ApiKeyB2BPartner) (hid : k.id = id) (huser : k.userId = userId) :
      StoresKey id userId (.account (.addApiKey k))
  | update (k : ApiKeyB2BPartner) (hid : k.id = id) (huser : k.userId = userId) :
      StoresKey id userId (.account (.updateApiKey k))
  | move (now : Timestamp) : StoresKey id userId (.setUser (.apiKeyB2bPartner id) userId now)

/-- The write takes the key from its user. -/
inductive DropsKey (id : Uuid) : VerificationWrite → Prop
  | update (k : ApiKeyB2BPartner) (hid : k.id = id) : DropsKey id (.account (.updateApiKey k))
  | delete : DropsKey id (.account (.deleteApiKey id))
  | move (userId : Uuid) (now : Timestamp) :
      DropsKey id (.setUser (.apiKeyB2bPartner id) userId now)

section
variable {d d' : VerificationDb} {w : VerificationWrite} {id userId : Uuid}

theorem hasKey_apply (h : w.apply d = .ok d') (hafter : d'.HasKey id userId) :
    d.HasKey id userId ∨ StoresKey id userId w := by
  obtain ⟨x, hx, rfl, rfl⟩ := hafter
  rcases (tables_apply h).apiKeys with hsame | ⟨k, hnew, rfl, hkeys⟩ | ⟨k, rfl, hkeys⟩ |
    ⟨k, now, hk, hkeys⟩ | ⟨kid, rfl, hkeys⟩ | ⟨k, owner, now, hk, rfl, hkeys⟩
  · exact .inl ⟨x, hsame ▸ hx, rfl, rfl⟩
  · rw [hkeys, Table.mem_insert] at hx
    rcases hx with hx | rfl
    · exact .inl ⟨x, hx, rfl, rfl⟩
    · exact .inr (.add x rfl rfl)
  · rw [hkeys] at hx
    rcases Table.mem_set hx with rfl | ⟨hx, -⟩
    · exact .inr (.update x rfl rfl)
    · exact .inl ⟨x, hx, rfl, rfl⟩
  · rw [hkeys] at hx
    rcases Table.mem_set hx with rfl | ⟨hx, -⟩
    · exact .inl ⟨k, Table.mem_of_get hk, rfl, rfl⟩
    · exact .inl ⟨x, hx, rfl, rfl⟩
  · rw [hkeys, Table.mem_erase] at hx
    exact .inl ⟨x, hx.1, rfl, rfl⟩
  · rw [hkeys] at hx
    rcases Table.mem_set hx with rfl | ⟨hx, -⟩
    · exact .inr (.move now)
    · exact .inl ⟨x, hx, rfl, rfl⟩

/-- A key that its user has no more was edited, deleted or moved. -/
theorem not_hasKey_apply (h : w.apply d = .ok d') (hafter : ¬ d'.HasKey id userId) :
    ¬ d.HasKey id userId ∨ DropsKey id w := by
  refine or_iff_not_imp_left.mpr fun hbefore => ?_
  obtain ⟨x, hx, rfl, rfl⟩ := not_not.mp hbefore
  have hgone : x ∉ d'.accounts.apiKeys.rows := fun hx' => hafter ⟨x, hx', rfl, rfl⟩
  rcases (tables_apply h).apiKeys with hsame | ⟨k, hnew, rfl, hkeys⟩ | ⟨k, rfl, hkeys⟩ |
    ⟨k, now, hk, hkeys⟩ | ⟨kid, rfl, hkeys⟩ | ⟨k, owner, now, hk, rfl, hkeys⟩
  · exact absurd (hsame ▸ hx) hgone
  · exact absurd (hkeys ▸ (Table.mem_insert hnew).mpr (.inl hx)) hgone
  · by_cases hkey : x.id = k.id
    · exact .update k hkey.symm
    · exact absurd (hkeys ▸ Table.mem_set_of_ne hx hkey) hgone
  · by_cases hkey : x.id = k.id
    · -- the row is there, with a new time of its last use
      obtain rfl := d.accounts.apiKeys.eq_of_key hx (Table.mem_of_get hk) hkey
      have hrow : { x with lastUsedAt := some now } ∈ d'.accounts.apiKeys.rows := by
        rw [hkeys]
        exact Table.mem_set_self hx rfl
      exact absurd ⟨_, hrow, rfl, rfl⟩ hafter
    · exact absurd (hkeys ▸ Table.mem_set_of_ne hx hkey) hgone
  · by_cases hkey : x.id = kid
    · rw [hkey]
      exact .delete
    · exact absurd (hkeys ▸ Table.mem_erase.mpr ⟨hx, hkey⟩) hgone
  · by_cases hkey : x.id = k.id
    · rw [hkey]
      exact .move owner now
    · exact absurd (hkeys ▸ Table.mem_set_of_ne hx hkey) hgone

end

/-! ## Requests for a role -/

/-- The write stores a request of the user. -/
inductive StoresRequest (id userId : Uuid) (role : UserRole) : VerificationWrite → Prop
  | add (r : VerificationRequest) (hid : r.id = id) (huser : r.userId = userId)
      (hrole : r.targetRole = role) : StoresRequest id userId role (.addRequest r)
  | move (now : Timestamp) :
      StoresRequest id userId role (.setUser (.verificationRequest id) userId now)

inductive SetsStatus (id : Uuid) (status : VerificationStatus) : VerificationWrite → Prop
  | add (r : VerificationRequest) (hid : r.id = id) (hstatus : r.status = status) :
      SetsStatus id status (.addRequest r)
  | update (feedback : Option String) (now : Timestamp) :
      SetsStatus id status (.updateRequest id status feedback now)

section
variable {d d' : VerificationDb} {w : VerificationWrite} {id userId : Uuid} {role : UserRole}

/-- A stored request was stored before, or is what the write makes of it. -/
theorem request_apply {x : VerificationRequest} (h : w.apply d = .ok d')
    (hx : x ∈ d'.requests.rows) :
    x ∈ d.requests.rows ∨ w = .addRequest x ∨
      (∃ r ∈ d.requests.rows, ∃ status feedback now, w = .updateRequest r.id status feedback now ∧
        x = r.edit status feedback now) ∨
      ∃ r ∈ d.requests.rows, ∃ owner now, w = .setUser (.verificationRequest r.id) owner now ∧
        x = { r with userId := owner, updatedAt := now } := by
  rcases (tables_apply h).requests with hsame | ⟨r, hnew, rfl, hrequests⟩ |
    ⟨r, status, feedback, now, hr, rfl, hrequests⟩ | ⟨r, owner, now, hr, rfl, hrequests⟩
  · exact .inl (hsame ▸ hx)
  · rw [hrequests, Table.mem_insert] at hx
    rcases hx with hx | rfl
    · exact .inl hx
    · exact .inr (.inl rfl)
  · rw [hrequests] at hx
    rcases Table.mem_set hx with rfl | ⟨hx, -⟩
    · exact .inr (.inr (.inl ⟨r, Table.mem_of_get hr, status, feedback, now, rfl, rfl⟩))
    · exact .inl hx
  · rw [hrequests] at hx
    rcases Table.mem_set hx with rfl | ⟨hx, -⟩
    · exact .inr (.inr (.inr ⟨r, Table.mem_of_get hr, owner, now, rfl, rfl⟩))
    · exact .inl hx

/-- The form of a request edits neither its user nor the role. -/
theorem asks_apply (h : w.apply d = .ok d') (hafter : d'.Asks id userId role) :
    d.Asks id userId role ∨ StoresRequest id userId role w := by
  obtain ⟨x, hx, rfl, rfl, rfl⟩ := hafter
  rcases request_apply h hx with hx | rfl | ⟨r, hr, status, feedback, now, rfl, rfl⟩ |
    ⟨r, hr, owner, now, rfl, rfl⟩
  · exact .inl ⟨x, hx, rfl, rfl, rfl⟩
  · exact .inr (.add x rfl rfl rfl)
  · refine .inl ⟨r, hr, ?_⟩
    simp
  · exact .inr (.move now)

/-- The role that a request asks for stays. -/
theorem asksFor_apply (h : w.apply d = .ok d') (hafter : d'.AsksFor id role) :
    d.AsksFor id role ∨ ∃ r, w = .addRequest r ∧ r.id = id ∧ r.targetRole = role := by
  obtain ⟨x, hx, rfl, rfl⟩ := hafter
  rcases request_apply h hx with hx | rfl | ⟨r, hr, status, feedback, now, rfl, rfl⟩ |
    ⟨r, hr, owner, now, rfl, rfl⟩
  · exact .inl ⟨x, hx, rfl, rfl⟩
  · exact .inr ⟨x, rfl, rfl, rfl⟩
  · refine .inl ⟨r, hr, ?_⟩
    simp
  · exact .inl ⟨r, hr, rfl, rfl⟩

/-- A request that its user has no more was moved. -/
theorem not_asks_apply (h : w.apply d = .ok d') (hafter : ¬ d'.Asks id userId role) :
    ¬ d.Asks id userId role ∨ ∃ owner now, w = .setUser (.verificationRequest id) owner now := by
  refine or_iff_not_imp_left.mpr fun hbefore => ?_
  obtain ⟨x, hx, rfl, rfl, rfl⟩ := not_not.mp hbefore
  have hgone : x ∉ d'.requests.rows := fun hx' => hafter ⟨x, hx', rfl, rfl, rfl⟩
  rcases (tables_apply h).requests with hsame | ⟨r, hnew, rfl, hrequests⟩ |
    ⟨r, status, feedback, now, hr, rfl, hrequests⟩ | ⟨r, owner, now, hr, rfl, hrequests⟩
  · exact absurd (hsame ▸ hx) hgone
  · exact absurd (hrequests ▸ (Table.mem_insert hnew).mpr (.inl hx)) hgone
  · by_cases hkey : x.id = r.id
    · -- the row is there, with a new status
      obtain rfl := d.requests.eq_of_key hx (Table.mem_of_get hr) hkey
      have hrow : x.edit status feedback now ∈ d'.requests.rows := by
        rw [hrequests]
        exact Table.mem_set_self hx (x.id_edit ..)
      exact absurd ⟨_, hrow, by simp⟩ hafter
    · exact absurd (hrequests ▸ Table.mem_set_of_ne hx (by simpa using hkey)) hgone
  · by_cases hkey : x.id = r.id
    · rw [hkey]
      exact ⟨owner, now, rfl⟩
    · exact absurd (hrequests ▸ Table.mem_set_of_ne hx hkey) hgone

theorem hasStatus_apply {status : VerificationStatus} (h : w.apply d = .ok d')
    (hafter : d'.HasStatus id status) : d.HasStatus id status ∨ SetsStatus id status w := by
  obtain ⟨x, hx, rfl, rfl⟩ := hafter
  rcases request_apply h hx with hx | rfl | ⟨r, hr, submitted, feedback, now, rfl, rfl⟩ |
    ⟨r, hr, owner, now, rfl, rfl⟩
  · exact .inl ⟨x, hx, rfl, rfl⟩
  · exact .inr (.add x rfl rfl)
  · rw [r.id_edit, r.status_edit]
    exact .inr (.update feedback now)
  · exact .inl ⟨r, hr, rfl, rfl⟩

end

end FairDrop
