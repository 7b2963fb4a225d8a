import FairDrop.User.Belongings
import FairDrop.User.Grants

/-!
# FairDrop.User.Pedigree

Where privileges come from.  Accounts have roles, logins, refresh tokens and keys;
between any two points of a run each of them has stayed, or a visitor has brought it
about or taken it away who had found in the database what it takes
(`privileges_earned`).  Had found, not finds: the panel looks at the role of its user
in front of a form, and not when the form is written (`not_stays_noAdmin`).
-/

namespace FairDrop

open RowStore

/-! ## Where privileges come from -/

/-- A visitor has found this in the database, in a step of `pre`. -/
def Saw {T : Type} (pre : List (Event VerificationDb VerificationWrite T)) (t : T)
    (K : VerificationDb → Prop) : Prop :=
  ∃ ev ∈ pre, ev.txn = t ∧ K ev.before

/-- How a visitor comes to give a role to an account. -/
inductive RoleGiven {J : Type} (saw : (VerificationDb → Prop) → Prop) (id : Uuid)
    (role : UserRole) : Visitor J → Prop
  | registered {email password w} (hrole : role = .user) :
      RoleGiven saw id role (.endpoint (.createUser email password) w)
  | approved {q requestId feedback}
      (hform : q.form = .editVerificationRequest requestId .approved feedback)
      (hadmin : saw q.ByAdmin) (hasked : saw fun d => d.Asks requestId id role) :
      RoleGiven saw id role (.panel q)
  | edited {q} (u : UserRow) (relations : UserRelations)
      (hform : q.form = .createUser u relations ∨ q.form = .editUser u relations)
      (hid : u.id = id) (hrole : u.role = role) (hadmin : saw q.ByAdmin) :
      RoleGiven saw id role (.panel q)

/-- How a visitor comes to write the row of an account that is there. -/
inductive RoleTaken {J : Type} (saw : (VerificationDb → Prop) → Prop) (id : Uuid) :
    Visitor J → Prop
  | approved {q requestId feedback role}
      (hform : q.form = .editVerificationRequest requestId .approved feedback)
      (hadmin : saw q.ByAdmin) (hasked : saw fun d => d.Asks requestId id role) :
      RoleTaken saw id (.panel q)
  | edited {q} (u : UserRow) (relations : UserRelations) (hform : q.form = .editUser u relations)
      (hid : u.id = id) (hadmin : saw q.ByAdmin) : RoleTaken saw id (.panel q)

/-- How a visitor comes to set the login of an account. -/
inductive LoginSet {J : Type} (saw : (VerificationDb → Prop) → Prop) (id : Uuid)
    (email passwordHash : String) : Visitor J → Prop
  | registered {address password w} (hvalid : w.emailStr.validate address = some email)
      (hhash : passwordHash = w.env.passwordHash password) :
      LoginSet saw id email passwordHash (.endpoint (.createUser address password) w)
  | edited {q} (u : UserRow) (relations : UserRelations)
      (hform : q.form = .createUser u relations ∨ q.form = .editUser u relations)
      (hid : u.id = id) (hemail : u.email = email) (hhash : u.passwordHash = passwordHash)
      (hadmin : saw q.ByAdmin) : LoginSet saw id email passwordHash (.panel q)

/-- How a visitor comes to take a login from an account. -/
inductive LoginReset {J : Type} (saw : (VerificationDb → Prop) → Prop) (id : Uuid) :
    Visitor J → Prop
  | edited {q} (u : UserRow) (relations : UserRelations) (hform : q.form = .editUser u relations)
      (hid : u.id = id) (hadmin : saw q.ByAdmin) : LoginReset saw id (.panel q)

/-- How a visitor comes by a refresh token. -/
inductive TokenIssued {J : Type} (saw : (VerificationDb → Prop) → Prop) (r : RefreshToken) :
    Visitor J → Prop
  | login {username password w}
      (hpassword : saw fun d => ∃ u ∈ d.accounts.users.rows,
        HasPassword w.crypto username password u ∧ r = newRefreshToken w.env u.id) :
      TokenIssued saw r (.endpoint (.login username password) w)
  | refreshed {token w}
      (hvalid : saw fun d => ∃ row u, d.accounts.validToken w.env.now token = .ok (row, u) ∧
        r = newRefreshToken w.env u.id) : TokenIssued saw r (.endpoint (.refreshToken token) w)

/-- How a visitor comes to spend a refresh token: `id` is that of its row. -/
inductive TokenSpent {J : Type} (saw : (VerificationDb → Prop) → Prop) (id : Uuid) :
    Visitor J → Prop
  | refreshed {token w}
      (hvalid : saw fun d => ∃ row u, d.accounts.validToken w.env.now token = .ok (row, u) ∧
        row.id = id) : TokenSpent saw id (.endpoint (.refreshToken token) w)

/-- How a visitor comes to store a key of this user. -/
inductive KeyIssued {J : Type} (saw : (VerificationDb → Prop) → Prop) (id userId : Uuid) :
    Visitor J → Prop
  | created {token name w}
      (hpartner : saw fun d => ∃ u ∈ d.accounts.users.rows, u.id = userId ∧
        Names w.crypto w.env.now token u ∧
        checkPermission u [.userB2b, .sellerB2b] false = .ok ()) :
      KeyIssued saw id userId (.endpoint (.createApiKey token name) w)
  | submitted {q} (k : ApiKeyB2BPartner) (hform : q.form = .createApiKey k ∨ q.form = .editApiKey k)
      (hid : k.id = id) (huser : k.userId = userId) (hadmin : saw q.ByAdmin) :
      KeyIssued saw id userId (.panel q)

/-- How a visitor comes to take a key from its user. -/
inductive KeyDropped {J : Type} (saw : (VerificationDb → Prop) → Prop) (id : Uuid) :
    Visitor J → Prop
  | deleted {token w} (userId : Uuid) (howner : saw fun d => d.HasKey id userId)
      (hpartner : saw fun d => ∃ u ∈ d.accounts.users.rows, u.id = userId ∧
        Names w.crypto w.env.now token u ∧
        checkPermission u [.userB2b, .sellerB2b] false = .ok ()) :
      KeyDropped saw id (.endpoint (.deleteApiKey token id) w)
  | edited {q} (k : ApiKeyB2BPartner) (hform : q.form = .editApiKey k) (hid : k.id = id)
      (hadmin : saw q.ByAdmin) : KeyDropped saw id (.panel q)

/-- How a visitor comes to set the status of a request. -/
inductive StatusSet {J : Type} (saw : (VerificationDb → Prop) → Prop) (id : Uuid)
    (status : VerificationStatus) : Visitor J → Prop
  | asked {token schema w} (hpending : status = .pending) :
      StatusSet saw id status (.endpoint (.createUpgradeRequest token schema) w)
  | decided {q feedback} (hform : q.form = .editVerificationRequest id status feedback)
      (hadmin : saw q.ByAdmin) : StatusSet saw id status (.panel q)

/-- How a visitor comes to ask for a role: `id` is that of the request. -/
inductive UpgradeAsked {J : Type} (saw : (VerificationDb → Prop) → Prop) (id userId : Uuid)
    (role : UserRole) : Visitor J → Prop
  | asked {token schema w} (hid : w.env.uuid 0 = id) (hrole : schema.targetRole = role)
      (hnames : saw fun d => ∃ u ∈ d.accounts.users.rows, u.id = userId ∧
        Names w.crypto w.env.now token u) :
      UpgradeAsked saw id userId role (.endpoint (.createUpgradeRequest token schema) w)

/-- How a visitor comes to give a stored token, key or request to a user. -/
inductive Attached {J : Type} (saw : (VerificationDb → Prop) → Prop) (row : RelatedRow)
    (userId : Uuid) : Visitor J → Prop
  | submitted {q} (hform : q.form.Attaches row userId) (hstored : saw fun d => d.Stores row)
      (hadmin : saw q.ByAdmin) : Attached saw row userId (.panel q)

/-- In the course of `evs`, which come after `pre`, a visitor has done something, with
what it had found in the database before. -/
def Happened {J T : Type} (visitors : T → Visitor J)
    (pre evs : List (Event VerificationDb VerificationWrite T))
    (P : ((VerificationDb → Prop) → Prop) → Visitor J → Prop) : Prop :=
  ∃ mid ev post, evs = mid ++ ev :: post ∧ P (Saw (pre ++ mid) ev.txn) (visitors ev.txn)

/-- Who may do what in `d` and who might in `d₁`, where `evs` lead from `d₁` to `d`: what
is there has been there or has been earned, and what has gone was given away. -/
structure Pedigree {J T : Type} (visitors : T → Visitor J)
    (pre evs : List (Event VerificationDb VerificationWrite T)) (d₁ d : VerificationDb) :
    Prop where
  roles : ∀ id role, d.HasRole id role → d₁.HasRole id role ∨
    Happened visitors pre evs fun saw v => RoleGiven saw id role v
  taken : ∀ id role, d₁.HasRole id role → d.HasRole id role ∨
    Happened visitors pre evs fun saw v => RoleTaken saw id v
  logins : ∀ id email passwordHash, d.HasLogin id email passwordHash →
    d₁.HasLogin id email passwordHash ∨
      Happened visitors pre evs fun saw v => LoginSet saw id email passwordHash v
  reset : ∀ id email passwordHash, d₁.HasLogin id email passwordHash →
    d.HasLogin id email passwordHash ∨
      Happened visitors pre evs fun saw v => LoginReset saw id v
  tokens : ∀ r, d.HasToken r → d₁.HasToken r ∨
    Happened visitors pre evs fun saw v =>
      TokenIssued saw r v ∨ Attached saw (.refreshToken r.id) r.userId v
  lost : ∀ r, d₁.HasToken r → d.HasToken r ∨
    Happened visitors pre evs fun saw v =>
      TokenSpent saw r.id v ∨ ∃ userId, Attached saw (.refreshToken r.id) userId v
  /-- No form makes a token … -/
  issued : ∀ id token expiresAt, d.HasTokenText id token expiresAt →
    d₁.HasTokenText id token expiresAt ∨
      Happened visitors pre evs fun saw v =>
        ∃ userId, TokenIssued saw ⟨id, userId, token, expiresAt⟩ v
  /-- … or ends one. -/
  spent : ∀ id token expiresAt, d₁.HasTokenText id token expiresAt →
    d.HasTokenText id token expiresAt ∨
      Happened visitors pre evs fun saw v => TokenSpent saw id v
  keys : ∀ id userId, d.HasKey id userId → d₁.HasKey id userId ∨
    Happened visitors pre evs fun saw v =>
      KeyIssued saw id userId v ∨ Attached saw (.apiKeyB2bPartner id) userId v
  dropped : ∀ id userId, d₁.HasKey id userId → d.HasKey id userId ∨
    Happened visitors pre evs fun saw v =>
      KeyDropped saw id v ∨ ∃ userId, Attached saw (.apiKeyB2bPartner id) userId v
  requests : ∀ id userId role, d.Asks id userId role → d₁.Asks id userId role ∨
    Happened visitors pre evs fun saw v =>
      UpgradeAsked saw id userId role v ∨ Attached saw (.verificationRequest id) userId v
  passed : ∀ id userId role, d₁.Asks id userId role → d.Asks id userId role ∨
    Happened visitors pre evs fun saw v =>
      ∃ owner, Attached saw (.verificationRequest id) owner v
  /-- No form makes a request. -/
  asked : ∀ id role, d.AsksFor id role → d₁.AsksFor id role ∨
    Happened visitors pre evs fun saw v => ∃ userId, UpgradeAsked saw id userId role v
  statuses : ∀ id status, d.HasStatus id status → d₁.HasStatus id status ∨
    Happened visitors pre evs fun saw v => StatusSet saw id status v

def VerificationDb.NoAdmin (d : VerificationDb) : Prop :=
  ∀ u ∈ d.accounts.users.rows, u.role ≠ .admin

section
variable {J T : Type} {pre : List (Event VerificationDb VerificationWrite T)} {t : T}
  {seen : List VerificationDb} {v : Visitor J} {w : VerificationWrite} {id userId : Uuid}
  {role : UserRole} {K : VerificationDb → Prop}

/-- A condition on a state seen held before an event of the run. -/
theorem Saw.of_seen {d : VerificationDb} (hseen : SeenBy t pre seen) (hd : d ∈ seen) (hK : K d) :
    Saw pre t K := by
  obtain ⟨ev, hev, htxn, rfl⟩ := hseen d hd
  exact ⟨ev, hev, htxn, hK⟩

/-- A condition on some state seen held before an event of the run. -/
theorem Saw.of_seen_exists (hseen : SeenBy t pre seen) (h : ∃ d ∈ seen, K d) : Saw pre t K := by
  obtain ⟨d, hd, hK⟩ := h
  exact .of_seen hseen hd hK

/-- A granted write that gives a role has one of the ways in which roles are given behind it. -/
theorem roleGiven_of_granted (hw : GivesRole id role w) (hseen : SeenBy t pre seen)
    (hgranted : Granted seen v w) : RoleGiven (Saw pre t) id role v := by
  cases hw with
  | add u hid hrole =>
      cases hgranted with
      | account h =>
          cases h with
          | register _ _ => exact .registered hrole.symm
      | submit hform hadmin =>
          cases hform with
          | newUser _ relations hform =>
              exact .edited u relations (.inl hform) hid hrole (.of_seen_exists hseen hadmin)
  | update u hid hrole =>
      cases hgranted with
      | account h => cases h
      | submit hform hadmin =>
          cases hform with
          | user _ relations hform =>
              exact .edited u relations (.inr hform) hid hrole (.of_seen_exists hseen hadmin)
  | elevate =>
      cases hgranted with
      | account h => cases h
      | elevate r d hform hadmin hd hr =>
          exact .approved hform (.of_seen_exists hseen hadmin)
            (.of_seen hseen hd ⟨r, Table.mem_of_get hr, Table.key_of_get hr, rfl, rfl⟩)
      | submit hform hadmin => cases hform

/-- A granted write that stores a login has a registration or the panel behind it. -/
theorem loginSet_of_granted {email passwordHash : String} (hw : StoresLogin id email passwordHash w)
    (hseen : SeenBy t pre seen) (hgranted : Granted seen v w) :
    LoginSet (Saw pre t) id email passwordHash v := by
  cases hw with
  | add u hid hemail hhash =>
      cases hgranted with
      | account h =>
          cases h with
          | register normalized hvalid =>
              obtain rfl : normalized = email := hemail
              exact .registered hvalid hhash.symm
      | submit hform hadmin =>
          cases hform with
          | newUser _ relations hform =>
              exact .edited u relations (.inl hform) hid hemail hhash (.of_seen_exists hseen hadmin)
  | update u hid hemail hhash =>
      cases hgranted with
      | account h => cases h
      | submit hform hadmin =>
          cases hform with
          | user _ relations hform =>
              exact .edited u relations (.inr hform) hid hemail hhash (.of_seen_exists hseen hadmin)

/-- A granted write that rewrites an account has one of the ways in which roles are taken
behind it. -/
theorem roleTaken_of_granted (hw : Rewrites id w) (hseen : SeenBy t pre seen)
    (hgranted : Granted seen v w) : RoleTaken (Saw pre t) id v := by
  cases hw with
  | update u hid =>
      cases hgranted with
      | account h => cases h
      | submit hform hadmin =>
          cases hform with
          | user _ relations hform =>
              exact .edited u relations hform hid (.of_seen_exists hseen hadmin)
  | elevate role =>
      cases hgranted with
      | account h => cases h
      | elevate r d hform hadmin hd hr =>
          exact .approved hform (.of_seen_exists hseen hadmin)
            (.of_seen hseen hd ⟨r, Table.mem_of_get hr, Table.key_of_get hr, rfl, rfl⟩)
      | submit hform hadmin => cases hform

/-- A granted write of an account has one of the ways in which logins are reset behind it. -/
theorem loginReset_of_granted {u : UserRow} (hid : u.id = id) (hseen : SeenBy t pre seen)
    (hgranted : Granted seen v (.account (.updateUser u))) : LoginReset (Saw pre t) id v := by
  cases hgranted with
  | account h => cases h
  | submit hform hadmin =>
      cases hform with
      | user _ relations hform =>
          exact .edited u relations hform hid (.of_seen_exists hseen hadmin)

/-- Only a form gives a row to another user. -/
theorem attached_of_granted {row : RelatedRow} {now : Timestamp} (hseen : SeenBy t pre seen)
    (hgranted : Granted seen v (.setUser row userId now)) : Attached (Saw pre t) row userId v := by
  cases hgranted with
  | attach hform hadmin hstored =>
      exact .submitted hform (.of_seen_exists hseen hstored) (.of_seen_exists hseen hadmin)

/-- A granted new token is one that a login or a refresh issued. -/
theorem tokenIssued_of_granted {r : RefreshToken} (hseen : SeenBy t pre seen)
    (hgranted : Granted seen v (.account (.addRefreshToken r))) :
    TokenIssued (Saw pre t) r v := by
  cases hgranted with
  | account h =>
      cases h with
      | login x u hx hu hpassword =>
          obtain ⟨d, hd, rfl⟩ := List.mem_map.mp hx
          exact .login (.of_seen hseen hd ⟨u, hu, hpassword, rfl⟩)
      | renew x row u hx hvalid =>
          obtain ⟨d, hd, rfl⟩ := List.mem_map.mp hx
          exact .refreshed (.of_seen hseen hd ⟨row, u, hvalid, rfl⟩)
  | submit hform hadmin => cases hform

/-- A granted deletion of a token is a refresh or a logout. -/
theorem tokenSpent_of_granted (hseen : SeenBy t pre seen)
    (hgranted : Granted seen v (.account (.deleteRefreshToken id))) :
    TokenSpent (Saw pre t) id v := by
  cases hgranted with
  | account h =>
      cases h with
      | spend x row u hx hvalid =>
          obtain ⟨d, hd, rfl⟩ := List.mem_map.mp hx
          exact .refreshed (.of_seen hseen hd ⟨row, u, hvalid, rfl⟩)
  | submit hform hadmin => cases hform

/-- A granted write that stores a token has issued it, or attached it in the panel. -/
theorem tokenStored_of_granted {r : RefreshToken} (hw : StoresToken r w) (hseen : SeenBy t pre seen)
    (hgranted : Granted seen v w) :
    TokenIssued (Saw pre t) r v ∨ Attached (Saw pre t) (.refreshToken r.id) r.userId v := by
  cases hw with
  | add => exact .inl (tokenIssued_of_granted hseen hgranted)
  | move now => exact .inr (attached_of_granted hseen hgranted)

/-- A granted write that loses a token has spent it, or moved it in the panel. -/
theorem tokenLost_of_granted (hw : LosesToken id w) (hseen : SeenBy t pre seen)
    (hgranted : Granted seen v w) :
    TokenSpent (Saw pre t) id v ∨ ∃ userId, Attached (Saw pre t) (.refreshToken id) userId v := by
  cases hw with
  | delete => exact .inl (tokenSpent_of_granted hseen hgranted)
  | move userId now => exact .inr ⟨userId, attached_of_granted hseen hgranted⟩

/-- A granted write that stores a key has issued it, or attached it in the panel. -/
theorem keyStored_of_granted (hw : StoresKey id userId w) (hseen : SeenBy t pre seen)
    (hgranted : Granted seen v w) :
    KeyIssued (Saw pre t) id userId v ∨ Attached (Saw pre t) (.apiKeyB2bPartner id) userId v := by
  cases hw with
  | add k hid huser =>
      cases hgranted with
      | account h =>
          cases h with
          | createKey x u _ hx hu hnames hrole hk =>
              obtain ⟨d, hd, rfl⟩ := List.mem_map.mp hx
              exact .inl
                (.created (.of_seen hseen hd ⟨u, hu, hk.symm.trans huser, hnames, hrole⟩))
      | submit hform hadmin =>
          cases hform with
          | newApiKey _ hform =>
              exact .inl
                (.submitted k (.inl hform) hid huser (.of_seen_exists hseen hadmin))
  | update k hid huser =>
      cases hgranted with
      | account h => cases h
      | submit hform hadmin =>
          cases hform with
          | apiKey _ hform =>
              exact .inl
                (.submitted k (.inr hform) hid huser (.of_seen_exists hseen hadmin))
  | move now => exact .inr (attached_of_granted hseen hgranted)

/-- A granted write that loses a key has dropped it, or moved it in the panel. -/
theorem keyLost_of_granted (hw : DropsKey id w) (hseen : SeenBy t pre seen)
    (hgranted : Granted seen v w) :
    KeyDropped (Saw pre t) id v ∨
      ∃ userId, Attached (Saw pre t) (.apiKeyB2bPartner id) userId v := by
  cases hw with
  | update k hid =>
      cases hgranted with
      | account h => cases h
      | submit hform hadmin =>
          cases hform with
          | apiKey _ hform => exact .inl (.edited k hform hid (.of_seen_exists hseen hadmin))
  | delete =>
      cases hgranted with
      | account h =>
          cases h with
          | deleteKey x u x' k hx hu hnames hrole hx' hget hk =>
              obtain ⟨d, hd, rfl⟩ := List.mem_map.mp hx
              obtain ⟨d', hd', rfl⟩ := List.mem_map.mp hx'
              obtain rfl := Table.key_of_get hget
              exact .inl (.deleted u.id
                (.of_seen hseen hd' ⟨k, Table.mem_of_get hget, rfl, hk⟩)
                (.of_seen hseen hd ⟨u, hu, rfl, hnames, hrole⟩))
      | submit hform hadmin => cases hform
  | move userId now => exact .inr ⟨userId, attached_of_granted hseen hgranted⟩

/-- A granted write of a status has a decision in the panel behind it. -/
theorem statusSet_of_granted {status : VerificationStatus} (hw : SetsStatus id status w)
    (hseen : SeenBy t pre seen) (hgranted : Granted seen v w) :
    StatusSet (Saw pre t) id status v := by
  cases hw with
  | add r hid hstatus =>
      cases hgranted with
      | ask => exact .asked hstatus.symm
  | update feedback now =>
      cases hgranted with
      | decide hform hadmin => exact .decided hform (.of_seen_exists hseen hadmin)

/-- A granted new request was asked for by its user. -/
theorem upgradeAsked_of_granted {r : VerificationRequest} (hseen : SeenBy t pre seen)
    (hgranted : Granted seen v (.addRequest r)) :
    UpgradeAsked (Saw pre t) r.id r.userId r.targetRole v := by
  cases hgranted with
  | ask d u hd hu hnames => exact .asked rfl rfl (.of_seen hseen hd ⟨u, hu, rfl, hnames⟩)

/-- A granted write that stores a request was asked for, or attached in the panel. -/
theorem requestStored_of_granted (hw : StoresRequest id userId role w) (hseen : SeenBy t pre seen)
    (hgranted : Granted seen v w) :
    UpgradeAsked (Saw pre t) id userId role v ∨
      Attached (Saw pre t) (.verificationRequest id) userId v := by
  cases hw with
  | add r hid huser hrole =>
      subst hid huser hrole
      exact .inl (upgradeAsked_of_granted hseen hgranted)
  | move now => exact .inr (attached_of_granted hseen hgranted)

/-! ## Runs -/

variable {evs rest : List (Event VerificationDb VerificationWrite T)} {visitors : T → Visitor J}

/-- Without an administrator in any earlier state nobody was one when using the panel. -/
theorem not_saw_byAdmin {q : PanelRequest}
    (hnone : ∀ ev ∈ pre, ev.before.NoAdmin) : ¬ Saw pre t q.ByAdmin := by
  rintro ⟨ev, hev, -, u, hu, -, hrole⟩
  exact hnone ev hev u hu hrole

/-- Without administrators nobody gets a role but the one of a registration. -/
theorem role_of_happened {id : Uuid} {role : UserRole} (hnone : ∀ ev ∈ evs, ev.before.NoAdmin)
    (h : Happened visitors [] evs fun saw v => RoleGiven saw id role v) : role = .user := by
  obtain ⟨mid, ev, post, rfl, hgiven⟩ := h
  have hmid : ∀ ev ∈ [] ++ mid, ev.before.NoAdmin := fun x hx =>
    hnone x (List.mem_append_left _ hx)
  generalize visitors ev.txn = v at hgiven
  cases hgiven with
  | registered hrole => exact hrole
  | approved _ hadmin => exact absurd hadmin (not_saw_byAdmin hmid)
  | edited _ _ _ _ _ hadmin => exact absurd hadmin (not_saw_byAdmin hmid)

/-- Without administrators nobody loses a role. -/
theorem not_taken {id : Uuid} (hnone : ∀ ev ∈ evs, ev.before.NoAdmin) :
    ¬ Happened visitors [] evs fun saw v => RoleTaken saw id v := by
  rintro ⟨mid, ev, post, rfl, htaken⟩
  have hmid : ∀ ev ∈ [] ++ mid, ev.before.NoAdmin := fun x hx =>
    hnone x (List.mem_append_left _ hx)
  generalize visitors ev.txn = v at htaken
  cases htaken with
  | approved _ hadmin => exact not_saw_byAdmin hmid hadmin
  | edited _ _ _ _ hadmin => exact not_saw_byAdmin hmid hadmin

variable [DecidableEq T] {ok : VisitorWorld J T → T → Prop} {s s₁ : VisitorWorld J T}
  {d₀ : VerificationDb}

/-- What comes to hold has been granted to the visitor that brings it about. -/
theorem happened_of_run (hrun : Run verificationStore ok (VisitorWorld.start visitors d₀) evs s)
    (hpre : Run verificationStore ok (VisitorWorld.start visitors d₀) pre s₁)
    (hsplit : evs = pre ++ rest) {I : VerificationDb → Prop} {G : VerificationWrite → Prop}
    {P : ((VerificationDb → Prop) → Prop) → Visitor J → Prop}
    (hG : ∀ w d d', w.apply d = .ok d' → I d' → I d ∨ G w)
    (hP : ∀ pre (t : T) seen v w, G w → SeenBy t pre seen → Granted seen v w → P (Saw pre t) v)
    (hnow : I s.db) : I s₁.db ∨ Happened visitors pre rest P := by
  refine (hrun.cause (fun t => grounds_visitor (visitors t)) hpre hsplit hG hnow).imp_right ?_
  rintro ⟨mid, ev, post, w, seen, hrest, hg, hseen, hgranted⟩
  exact ⟨mid, ev, post, hrest, hP (pre ++ mid) ev.txn seen (visitors ev.txn) w hg hseen hgranted⟩

/-- What has gone has been given away by a visitor. -/
theorem happened_of_gone (hrun : Run verificationStore ok (VisitorWorld.start visitors d₀) evs s)
    (hpre : Run verificationStore ok (VisitorWorld.start visitors d₀) pre s₁)
    (hsplit : evs = pre ++ rest) {I : VerificationDb → Prop} {G : VerificationWrite → Prop}
    {P : ((VerificationDb → Prop) → Prop) → Visitor J → Prop}
    (hG : ∀ w d d', w.apply d = .ok d' → ¬ I d' → ¬ I d ∨ G w)
    (hP : ∀ pre (t : T) seen v w, G w → SeenBy t pre seen → Granted seen v w → P (Saw pre t) v)
    (hthen : I s₁.db) : I s.db ∨ Happened visitors pre rest P :=
  or_iff_not_imp_left.mpr fun hnow =>
    (happened_of_run hrun hpre hsplit hG hP hnow).resolve_left (not_not.mpr hthen)

/-- The pedigree of everything held at the end of a run, from any earlier point on. -/
theorem pedigree_of_run (hrun : Run verificationStore ok (VisitorWorld.start visitors d₀) evs s)
    (hpre : Run verificationStore ok (VisitorWorld.start visitors d₀) pre s₁)
    (hsplit : evs = pre ++ rest) : Pedigree visitors pre rest s₁.db s.db where
  roles _ _ := happened_of_run hrun hpre hsplit (fun _ _ _ => hasRole_apply)
    fun _ _ _ _ _ => roleGiven_of_granted
  taken _ _ := happened_of_gone hrun hpre hsplit (fun _ _ _ => not_hasRole_apply)
    fun _ _ _ _ _ => roleTaken_of_granted
  logins _ _ _ := happened_of_run hrun hpre hsplit (fun _ _ _ => hasLogin_apply)
    fun _ _ _ _ _ => loginSet_of_granted
  reset _ _ _ := by
    refine happened_of_gone hrun hpre hsplit (fun _ _ _ => not_hasLogin_apply) ?_
    rintro pre t seen v w ⟨u, rfl, hid⟩
    exact loginReset_of_granted hid
  tokens _ := happened_of_run hrun hpre hsplit (fun _ _ _ => hasToken_apply)
    fun _ _ _ _ _ => tokenStored_of_granted
  lost _ := happened_of_gone hrun hpre hsplit (fun _ _ _ => not_hasToken_apply)
    fun _ _ _ _ _ => tokenLost_of_granted
  issued _ _ _ := by
    refine happened_of_run hrun hpre hsplit (fun _ _ _ => hasTokenText_apply) ?_
    rintro pre t seen v w ⟨userId, rfl⟩ hseen hgranted
    exact ⟨userId, tokenIssued_of_granted hseen hgranted⟩
  spent _ _ _ := by
    refine happened_of_gone hrun hpre hsplit (fun _ _ _ => not_hasTokenText_apply) ?_
    rintro pre t seen v w rfl
    exact tokenSpent_of_granted
  keys _ _ := happened_of_run hrun hpre hsplit (fun _ _ _ => hasKey_apply)
    fun _ _ _ _ _ => keyStored_of_granted
  dropped _ _ := happened_of_gone hrun hpre hsplit (fun _ _ _ => not_hasKey_apply)
    fun _ _ _ _ _ => keyLost_of_granted
  requests _ _ _ := happened_of_run hrun hpre hsplit (fun _ _ _ => asks_apply)
    fun _ _ _ _ _ => requestStored_of_granted
  passed _ _ _ := by
    refine happened_of_gone hrun hpre hsplit (fun _ _ _ => not_asks_apply) ?_
    rintro pre t seen v w ⟨owner, now, rfl⟩ hseen hgranted
    exact ⟨owner, attached_of_granted hseen hgranted⟩
  asked _ _ := by
    refine happened_of_run hrun hpre hsplit (fun _ _ _ => asksFor_apply) ?_
    rintro pre t seen v w ⟨r, rfl, rfl, rfl⟩ hseen hgranted
    exact ⟨r.userId, upgradeAsked_of_granted hseen hgranted⟩
  statuses _ _ := happened_of_run hrun hpre hsplit (fun _ _ _ => hasStatus_apply)
    fun _ _ _ _ _ => statusSet_of_granted

/-- The whole of a run. -/
theorem pedigree_of_start (hrun : Run verificationStore ok (VisitorWorld.start visitors d₀) evs s) :
    Pedigree visitors [] evs d₀ s.db :=
  pedigree_of_run hrun .nil rfl

/-- A run that starts without an administrator never has one. -/
theorem noAdmin_of_run (hrun : Run verificationStore ok (VisitorWorld.start visitors d₀) evs s)
    (hstart : d₀.NoAdmin) : (∀ ev ∈ evs, ev.before.NoAdmin) ∧ s.db.NoAdmin := by
  induction hrun with
  | nil => exact ⟨fun ev hev => absurd hev List.not_mem_nil, hstart⟩
  | @snoc evs s t fault c s' hrun hok hs ih =>
      have hbefore : ∀ ev ∈ evs ++ [⟨t, c, s.db, s'.db⟩], ev.before.NoAdmin := by
        intro ev hev
        rcases List.mem_append.mp hev with hev | hev
        · exact ih.1 ev hev
        · obtain rfl := List.mem_singleton.mp hev
          exact ih.2
      refine ⟨hbefore, fun u hu hrole => ?_⟩
      rcases (pedigree_of_start (hrun.snoc hok hs)).roles u.id .admin ⟨u, hu, rfl, hrole⟩ with
        ⟨u₀, hu₀, -, hrole₀⟩ | hgiven
      · exact hstart u₀ hu₀ hrole₀
      · cases role_of_happened hbefore hgiven

/-- **Privileges are earned.**  In every run every role, every login, every refresh
token, every key and every request for a role that is there has been there at any
earlier point, or has come since by one of the ways above, through a visitor who had
found what it takes in the database before; and what was there and is not has gone by
one of the ways above.  Where nobody is an administrator nobody becomes one: roles stay
as they are. -/
theorem privileges_earned (hrun : Run verificationStore ok (VisitorWorld.start visitors d₀) evs s) :
    Pedigree visitors [] evs d₀ s.db ∧
    (∀ pre ev post, evs = pre ++ ev :: post →
      Pedigree visitors pre (ev :: post) ev.before s.db) ∧
    (d₀.NoAdmin → s.db.NoAdmin ∧ ∀ id role, (d₀.HasRole id role → s.db.HasRole id role) ∧
      (s.db.HasRole id role → d₀.HasRole id role ∨ role = .user)) := by
  have hpedigree := pedigree_of_start hrun
  refine ⟨hpedigree, fun pre ev post hsplit => ?_, fun hstart => ?_⟩
  · obtain ⟨s₁, hpre, hdb⟩ := hrun.before_event hsplit
    rw [← hdb]
    exact pedigree_of_run hrun hpre hsplit
  · obtain ⟨hnone, hend⟩ := noAdmin_of_run hrun hstart
    refine ⟨hend, fun id role => ⟨fun h => ?_, fun h => ?_⟩⟩
    · exact (hpedigree.taken id role h).resolve_right (not_taken hnone)
    · exact (hpedigree.roles id role h).imp_right (role_of_happened hnone)

end

/-- Only the administrator has an account. -/
def staffDb : VerificationDb where
  accounts := oneUser
  requests := .empty

/-- Surroundings of an endpoint at time `now` that draw the ids `n`, `n + 1`, … -/
def doorsAt (now : Timestamp) (n : Uuid) : Surroundings Claims where
  crypto := plainCrypto
  emailStr := lowerDomain
  env := deskEnv now n
  keyScan := ⟨id, List.Perm.refl⟩
  requestScan := ⟨id, List.Perm.refl⟩

/-- Somebody registers and asks to be a seller, the administrator approves, the seller
logs in and refreshes the token, and the administrator takes over the new one. -/
def sellerVisitors : Fin 6 → Visitor Claims
  | 0 => .endpoint (.createUser "seller@example.com" "secret") (doorsAt 0 5)
  | 1 => .endpoint (.createUpgradeRequest ⟨some "seller@example.com", 30⟩
      ⟨.seller, none, by decide⟩) (doorsAt 1 7)
  | 2 => .panel ⟨some administrator.id, .editVerificationRequest 7 .approved none, "admin:edit",
      "/admin/verification-request/edit/7", deskEnv 2 9⟩
  | 3 => .endpoint (.login "seller@example.com" "secret") (doorsAt 3 20)
  | 4 => .endpoint (.refreshToken "token") (doorsAt 4 30)
  | 5 => .panel ⟨some administrator.id, .editUser administrator ⟨[30], [], []⟩, "admin:edit",
      "/admin/user/edit/1", deskEnv 5 40⟩

/-- The token of the login. -/
def loginToken : RefreshToken := newRefreshToken (deskEnv 3 20) 5

/-- The next one, in the hands of the administrator. -/
def handedToken : RefreshToken := newRefreshToken (deskEnv 4 30) administrator.id

/-- The first token is neither there at the start nor at the end, and is accounted for. -/
theorem privileges_earned_seller : ∃ evs s,
    Run verificationStore Anything (VisitorWorld.start sellerVisitors staffDb) evs s ∧
    (Happened sellerVisitors [] evs fun saw v => RoleGiven saw 5 .seller v) ∧
    (Happened sellerVisitors [] evs fun saw v =>
      TokenIssued saw handedToken v ∨ Attached saw (.refreshToken 30) 1 v) ∧
    ∃ pre ev post, evs = pre ++ ev :: post ∧ ev.before.HasToken loginToken ∧
      Happened sellerVisitors pre (ev :: post) fun saw v =>
        TokenSpent saw 20 v ∨ ∃ userId, Attached saw (.refreshToken 20) userId v := by
  have hexec : ((VisitorWorld.start sellerVisitors staffDb).exec verificationStore
      (fun _ _ => true) (turns [(0, 5), (1, 6), (2, 9), (3, 4), (4, 6), (5, 16)])).any (fun x =>
        ((x.2.db.accounts.users.get 5).any (·.role = .seller) &&
          decide (x.2.db.accounts.refreshTokens.rows = [handedToken])) &&
          x.1.any fun ev => decide (loginToken ∈ ev.before.accounts.refreshTokens.rows)) := by
    decide +kernel
  obtain ⟨evs, s, hrun, hend⟩ := Run.of_exec_any (fun _ _ _ => trivial) hexec
  obtain ⟨hboth, hwas⟩ := Bool.and_eq_true_iff.mp hend
  obtain ⟨hseller, htokens⟩ := Bool.and_eq_true_iff.mp hboth
  obtain ⟨u, hu, hrole⟩ := (Option.any_eq_true _ _).mp hseller
  have hnow : s.db.HasRole 5 .seller :=
    ⟨u, Table.mem_of_get hu, Table.key_of_get hu, of_decide_eq_true hrole⟩
  have hrows : s.db.accounts.refreshTokens.rows = [handedToken] := of_decide_eq_true htokens
  obtain ⟨ev, hev, hhad⟩ := List.any_eq_true.mp hwas
  have hlogin : ev.before.HasToken loginToken :=
    @of_decide_eq_true (loginToken ∈ ev.before.accounts.refreshTokens.rows) _ hhad
  obtain ⟨pre, post, hsplit⟩ := List.append_of_mem hev
  obtain ⟨hearned, hsince, -⟩ := privileges_earned hrun
  refine ⟨evs, s, hrun, ?_, ?_, pre, ev, post, hsplit, hlogin, ?_⟩
  · refine (hearned.roles 5 .seller hnow).resolve_left ?_
    change ¬ ∃ u ∈ [administrator], u.id = 5 ∧ u.role = .seller
    decide
  · refine (hearned.tokens handedToken ?_).resolve_left List.not_mem_nil
    unfold VerificationDb.HasToken
    simp [hrows]
  · refine ((hsince pre ev post hsplit).lost loginToken hlogin).resolve_left ?_
    unfold VerificationDb.HasToken
    rw [hrows]
    decide

/-- While one form of the administrator is under way, another one takes the role away. -/
def handover : Bool → Visitor Claims
  | false => .panel ⟨some administrator.id,
      .createUser { administrator with id := 2, email := "" } .none, "admin:create",
      "/admin/user/create", deskEnv 0 5⟩
  | true => .panel ⟨some administrator.id, .editUser { administrator with role := .user } .none,
      "admin:edit", "/admin/user/edit/1", deskEnv 0 5⟩

/-- The panel asks for the role before the form is written, and not again. -/
theorem not_stays_noAdmin : ∃ evs s,
    Run verificationStore Anything (VisitorWorld.start handover staffDb) evs s ∧
    ∃ ev ∈ evs, ev.before.NoAdmin ∧ ev.after.HasRole 2 .admin := by
  have hexec : ((VisitorWorld.start handover staffDb).exec verificationStore (fun _ _ => true)
      (turns [(false, 2), (true, 15), (false, 9)])).any (fun x => x.1.any fun ev =>
        ev.before.accounts.users.rows.all (·.role ≠ .admin) &&
          (ev.after.accounts.users.get 2).any (·.role = .admin)) := by decide +kernel
  obtain ⟨evs, s, hrun, hend⟩ := Run.of_exec_any (fun _ _ _ => trivial) hexec
  obtain ⟨ev, hev, hboth⟩ := List.any_eq_true.mp hend
  obtain ⟨hnone, hgiven⟩ := (Bool.and_eq_true _ _).mp hboth
  obtain ⟨u, hu, hrole⟩ := (Option.any_eq_true _ _).mp hgiven
  refine ⟨evs, s, hrun, ev, hev, fun x hx => ?_, u, Table.mem_of_get hu, Table.key_of_get hu,
    of_decide_eq_true hrole⟩
  exact of_decide_eq_true (List.all_eq_true.mp hnone x hx)

end FairDrop
