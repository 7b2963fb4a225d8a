import FairDrop.RowStore.Grounds
import FairDrop.User.Routes

/-!
# FairDrop.User.Grants

What a visitor may write.  `Granted seen v w` lists the writes behind each door with
what it takes to get there: a password that has been compared, a refresh token that
was valid, an access token that names the account, the session of an administrator.
No visitor writes anything else (`grounds_visitor`).
-/

namespace FairDrop

open RowStore

/-! ## What may be written -/

/-- The writes of an endpoint to the accounts, each with what it takes: `l` are the
accounts that the request has read until then. -/
inductive Credited {J : Type} (w : Surroundings J) (l : List UserDb) :
    AccountEndpoint J → UserWrite → Prop
  | register {email password} (normalized : String)
      (hvalid : w.emailStr.validate email = some normalized) :
      Credited w l (.createUser email password) (.addUser (newUser w.env normalized password))
  | login {username password} (d : UserDb) (u : UserRow) (hd : d ∈ l) (hu : u ∈ d.users.rows)
      (hpassword : HasPassword w.crypto username password u) :
      Credited w l (.login username password) (.addRefreshToken (newRefreshToken w.env u.id))
  | spend {token} (d : UserDb) (row : RefreshToken) (u : UserRow) (hd : d ∈ l)
      (hvalid : d.validToken w.env.now token = .ok (row, u)) :
      Credited w l (.refreshToken token) (.deleteRefreshToken row.id)
  | renew {token} (d : UserDb) (row : RefreshToken) (u : UserRow) (hd : d ∈ l)
      (hvalid : d.validToken w.env.now token = .ok (row, u)) :
      Credited w l (.refreshToken token) (.addRefreshToken (newRefreshToken w.env u.id))
  | createKey {token name} (d : UserDb) (u : UserRow) (k : ApiKeyB2BPartner) (hd : d ∈ l)
      (hu : u ∈ d.users.rows) (hnames : Names w.crypto w.env.now token u)
      (hrole : checkPermission u [.userB2b, .sellerB2b] false = .ok ()) (hk : k.userId = u.id) :
      Credited w l (.createApiKey token name) (.addApiKey k)
  | deleteKey {token keyId} (d : UserDb) (u : UserRow) (d' : UserDb) (k : ApiKeyB2BPartner)
      (hd : d ∈ l) (hu : u ∈ d.users.rows) (hnames : Names w.crypto w.env.now token u)
      (hrole : checkPermission u [.userB2b, .sellerB2b] false = .ok ()) (hd' : d' ∈ l)
      (hget : d'.apiKeys.get keyId = some k) (hk : k.userId = u.id) :
      Credited w l (.deleteApiKey token keyId) (.deleteApiKey k.id)
  | useKey {apiKey} (id : Uuid) : Credited w l (.partner apiKey) (.touchApiKey id w.env.now)

/-- The form submits a row as it is. -/
inductive PanelForm.Submits (form : PanelForm) : UserWrite → Prop
  | newUser (u : UserRow) (relations : UserRelations) (h : form = .createUser u relations) :
      form.Submits (.addUser u)
  | user (u : UserRow) (relations : UserRelations) (h : form = .editUser u relations) :
      form.Submits (.updateUser u)
  | newApiKey (k : ApiKeyB2BPartner) (h : form = .createApiKey k) : form.Submits (.addApiKey k)
  | apiKey (k : ApiKeyB2BPartner) (h : form = .editApiKey k) : form.Submits (.updateApiKey k)

/-- The form submits the row as one that the user is to have. -/
def PanelForm.Attaches (form : PanelForm) (row : RelatedRow) (userId : Uuid) : Prop :=
  ∃ u relations, (form = .createUser u relations ∨ form = .editUser u relations) ∧
    u.id = userId ∧ row ∈ relations.rows

/-- The row is stored, with some user. -/
def VerificationDb.Stores (d : VerificationDb) (row : RelatedRow) : Prop :=
  ∃ userId, (row, userId) ∈ d.relatedRows

/-- The session is that of an account that was an administrator. -/
def PanelRequest.ByAdmin (q : PanelRequest) (d : VerificationDb) : Prop :=
  ∃ u ∈ d.accounts.users.rows, q.token = some u.id ∧ u.role = .admin

/-- The writes of a visitor, each with what it takes: `seen` are the databases that
the visitor has read until then. -/
inductive Granted {J : Type} (seen : List VerificationDb) : Visitor J → VerificationWrite → Prop
  | account {e w write} (h : Credited w (seen.map VerificationDb.accounts) e write) :
      Granted seen (.endpoint e w) (.account write)
  | ask {w token schema} (d : VerificationDb) (u : UserRow) (hd : d ∈ seen)
      (hu : u ∈ d.accounts.users.rows) (hnames : Names w.crypto w.env.now token u) :
      Granted seen (.endpoint (.createUpgradeRequest token schema) w)
        (.addRequest (newVerificationRequest w.env u.id schema.targetRole schema.docsUrl))
  | elevate {q requestId feedback} (r : VerificationRequest) (d : VerificationDb)
      (hform : q.form = .editVerificationRequest requestId .approved feedback)
      (hadmin : ∃ d ∈ seen, q.ByAdmin d) (hd : d ∈ seen)
      (hr : d.requests.get requestId = some r) :
      Granted seen (.panel q) (.account (.elevateUser r.userId r.targetRole))
  | decide {q requestId status feedback}
      (hform : q.form = .editVerificationRequest requestId status feedback)
      (hadmin : ∃ d ∈ seen, q.ByAdmin d) :
      Granted seen (.panel q) (.updateRequest requestId status feedback q.env.now)
  | submit {q write} (hform : q.form.Submits write) (hadmin : ∃ d ∈ seen, q.ByAdmin d) :
      Granted seen (.panel q) (.account write)
  | attach {q row userId} (hform : q.form.Attaches row userId) (hadmin : ∃ d ∈ seen, q.ByAdmin d)
      (hstored : ∃ d ∈ seen, d.Stores row) :
      Granted seen (.panel q) (.setUser row userId q.env.now)
  | leaveOut {q row} (hadmin : ∃ d ∈ seen, q.ByAdmin d) : Granted seen (.panel q) (.clearUser row)

/-! ## Guards -/

section
variable {J : Type} {w : Surroundings J} {K : List UserDb → UserWrite → Prop} {l : List UserDb}

/-- Whoever the token's guard lets in was seen with the name in the token. -/
theorem grounds_getCurrentUser (token : J) :
    grounds K (getCurrentUser w.crypto w.env token) l (SucceedsSeeing fun u l' =>
      ∃ d ∈ l', u ∈ d.users.rows ∧ Names w.crypto w.env.now token u) := by
  unfold getCurrentUser
  split
  · exact grounds_throw _
  · next payload hpayload =>
      split
      · exact grounds_throw _
      · next email hsub =>
          refine grounds_select fun d => grounds_check fun found hfound => ?_
          cases found with
          | none => exact grounds_throw _
          | some u =>
              obtain ⟨hmem, hemail⟩ := UserDb.mem_of_userByEmail hfound
              refine grounds_pure ⟨d, List.mem_cons_self, hmem, ?_⟩
              unfold Names
              rw [hpayload, hemail]
              exact hsub

/-- Whoever the partners' guard lets in was seen with the token's name and a B2B role. -/
theorem grounds_b2bPartnerDep (token : J) :
    grounds K (UserRoutes.b2bPartnerDep w token) l (SucceedsSeeing fun u l' =>
      checkPermission u [.userB2b, .sellerB2b] false = .ok () ∧
        ∃ d ∈ l', u ∈ d.users.rows ∧ Names w.crypto w.env.now token u) :=
  grounds_then (grounds_getCurrentUser token) fun _ _ hu =>
    grounds_check fun _ hrole => grounds_pure ⟨hrole, hu⟩

/-- Whoever authenticates was seen with the password. -/
theorem grounds_authenticateUser (email password : String) :
    grounds K (authenticateUser w.crypto email password) l (SucceedsSeeing fun a l' =>
      ∀ u, a.user = some u →
        ∃ d ∈ l', u ∈ d.users.rows ∧ HasPassword w.crypto email password u) := by
  refine grounds_select fun d => grounds_check fun found hfound => ?_
  cases found with
  | none => exact grounds_pure fun u hu => by contradiction
  | some u =>
      obtain ⟨hmem, hemail⟩ := UserDb.mem_of_userByEmail hfound
      change grounds K (if w.crypto.verify password u.passwordHash then _ else _) _ _
      split
      · next hverify =>
          refine grounds_pure fun v hv => ?_
          obtain rfl := Option.some.inj hv
          exact ⟨d, List.mem_cons_self, hmem, hemail, hverify⟩
      · exact grounds_pure fun v hv => by contradiction

end

/-! ## Endpoints -/

section
variable {J : Type} {w : Surroundings J} {l : List UserDb}

/-- Registering writes what it is granted. -/
theorem grounds_createUser (email password : String) :
    grounds (fun l => Credited w l (.createUser email password))
      (UserRoutes.createUser w.emailStr w.env email password) l AnyEnd := by
  unfold UserRoutes.createUser
  split
  · exact grounds_throw _
  · next normalized hvalid =>
      have hcreate : grounds (fun l => Credited w l (.createUser email password))
          (FairDrop.createUser w.env normalized password) l AnyEnd := by
        refine grounds_select fun d => grounds_check fun existing _ => ?_
        cases existing with
        | some u => exact grounds_throw _
        | none =>
            refine grounds_save (.register normalized hvalid) (grounds_commitWork ?_)
            refine grounds_select fun d => ?_
            split
            · exact grounds_pure trivial
            · exact grounds_throw _
      refine grounds_next hcreate fun u _ _ => ?_
      cases UserRoutes.readUser w.emailStr u with
      | ok x => exact grounds_pure trivial
      | error e => exact grounds_throw e

/-- Logging in writes a token on the grounds of the password. -/
theorem grounds_login (username password : String) :
    grounds (fun l => Credited w l (.login username password))
      (UserRoutes.login w.crypto w.env username password) l AnyEnd := by
  unfold UserRoutes.login
  split
  · exact grounds_throw _
  · refine grounds_then (grounds_authenticateUser username password) fun a l' ha => ?_
    split
    · exact grounds_throw _
    · next u hu =>
        obtain ⟨d, hd, hmem, hpassword⟩ := ha u hu
        exact grounds_next (grounds_save (.login d u hd hmem hpassword)
          (grounds_commitWork (grounds_pure trivial))) fun _ _ _ => grounds_pure trivial

/-- Refreshing writes on the grounds of the token that it spends. -/
theorem grounds_refreshToken (token : String) :
    grounds (fun l => Credited w l (.refreshToken token))
      (FairDrop.refreshToken w.crypto w.env token) l AnyEnd := by
  have hspend : grounds (fun l => Credited w l (.refreshToken token))
      (refreshAccessToken w.env token) l (SucceedsSeeing fun u l' =>
        ∃ d ∈ l', ∃ row, d.validToken w.env.now token = .ok (row, u)) := by
    refine grounds_select fun d => grounds_check fun x hvalid => ?_
    obtain ⟨row, u⟩ := x
    refine grounds_save (.spend d row u List.mem_cons_self hvalid) (grounds_commitWork ?_)
    exact grounds_pure ⟨d, List.mem_cons_self, row, hvalid⟩
  refine grounds_then hspend fun u l' hu => ?_
  obtain ⟨d, hd, row, hvalid⟩ := hu
  exact grounds_next (grounds_save (.renew d row u hd hvalid)
    (grounds_commitWork (grounds_pure trivial))) fun _ _ _ => grounds_pure trivial

/-- Creating a key writes on the grounds of the partner's guard. -/
theorem grounds_createApiKey (token : J) (name : String) :
    grounds (fun l => Credited w l (.createApiKey token name))
      (UserRoutes.createApiKeyB2bPartner w token name) l AnyEnd := by
  refine grounds_then (grounds_b2bPartnerDep token) fun u l' hu => ?_
  obtain ⟨hrole, d, hd, hmem, hnames⟩ := hu
  refine grounds_next (grounds_save (.createKey d u _ hd hmem hnames hrole rfl)
    (grounds_commitWork (grounds_select fun d' => ?_))) fun _ _ _ => grounds_pure trivial
  split
  · exact grounds_pure trivial
  · exact grounds_throw _

/-- Deleting a key writes on the grounds of the partner's guard and of the key's owner. -/
theorem grounds_deleteApiKey (token : J) (keyId : Uuid) :
    grounds (fun l => Credited w l (.deleteApiKey token keyId))
      (UserRoutes.deleteApiKeyB2bPartner w token keyId) l AnyEnd := by
  refine grounds_then (grounds_b2bPartnerDep token) fun u l' hu => ?_
  obtain ⟨hrole, d, hd, hmem, hnames⟩ := hu
  refine grounds_select fun d' => ?_
  split
  · exact grounds_throw _
  · next k hk =>
      obtain ⟨hget, howner⟩ := Option.filter_eq_some_iff.mp hk
      exact grounds_save (.deleteKey d u d' k (List.mem_cons_of_mem _ hd) hmem hnames hrole
        List.mem_cons_self hget (of_decide_eq_true howner)) grounds_commit

/-- A call with a key writes on the grounds of the key. -/
theorem grounds_partner (apiKey : Option String) :
    grounds (fun l => Credited w l (.partner apiKey))
      (getApiKeyUser w.crypto w.env w.keyScan apiKey) l AnyEnd := by
  have hkey : ∀ rawKey, grounds (fun l => Credited w l (.partner apiKey))
      (authenticateApiKeyB2BPartner w.crypto w.env w.keyScan rawKey) l AnyEnd := by
    intro rawKey
    refine grounds_select fun d => ?_
    split
    · exact grounds_pure trivial
    · exact grounds_save (.useKey _) (grounds_commitWork (grounds_pure trivial))
  unfold getApiKeyUser
  split
  · exact grounds_throw _
  · exact grounds_throw _
  · refine grounds_next (hkey _) fun found _ _ => ?_
    cases found with
    | none => exact grounds_throw _
    | some x => exact grounds_pure trivial

end

/-! ## Visitors -/

section
variable {J : Type} {seen : List VerificationDb}

/-- What an endpoint writes to the accounts, next to the other tables. -/
theorem grounds_account {α : Type} {w : Surroundings J} {e : AccountEndpoint J} {x : UserTx α}
    (hx : grounds (fun l => Credited w l e) x (seen.map VerificationDb.accounts) AnyEnd) :
    grounds (fun seen => Granted seen (.endpoint e w)) (accountPart.run x) seen AnyEnd :=
  grounds_mono (fun _ _ _ _ _ => trivial)
    (accountPart.grounds_run (fun _ _ _ h => .account h) hx)

/-- The token's guard has the same grounds in front of the verification endpoints. -/
theorem grounds_guard {w : Surroundings J} {G : List VerificationDb → VerificationWrite → Prop}
    (token : J) :
    grounds G (accountPart.run (getCurrentUser w.crypto w.env token)) seen
      (SucceedsSeeing fun u seen => ∃ d ∈ seen, u ∈ d.accounts.users.rows ∧
        Names w.crypto w.env.now token u) := by
  refine grounds_mono ?_ (accountPart.grounds_run (J := fun _ _ => False) (fun _ _ _ h => h.elim)
    (grounds_getCurrentUser token))
  intro r l hr u hu
  obtain ⟨d, hd, hmem, hnames⟩ := hr u hu
  obtain ⟨d', hd', rfl⟩ := List.mem_map.mp hd
  exact ⟨d', hd', hmem, hnames⟩

/-- Asking for a role writes on the grounds of the token. -/
theorem grounds_createUpgradeRequest {w : Surroundings J} (token : J)
    (schema : VerificationRequestCreate) :
    grounds (fun seen => Granted seen (.endpoint (.createUpgradeRequest token schema) w))
      (UserRoutes.createUpgradeRequest w token schema) seen AnyEnd := by
  refine grounds_then (grounds_guard token) fun u seen hu => ?_
  obtain ⟨d, hd, hmem, hnames⟩ := hu
  refine grounds_next ?_ fun r _ _ => grounds_pure trivial
  refine grounds_select fun d' => grounds_check fun existing _ => ?_
  cases existing with
  | some r => exact grounds_throw _
  | none =>
      by_cases hrole : schema.targetRole = .admin ∨ schema.targetRole = .moderator
      · simp only [hrole]
        exact grounds_throw _
      · simp only [hrole]
        refine grounds_save (.ask d u (List.mem_cons_of_mem _ hd) hmem hnames)
          (grounds_commitWork ?_)
        refine grounds_select fun d'' => ?_
        split
        · exact grounds_pure trivial
        · exact grounds_throw _

/-- What an endpoint reads only needs no grounds. -/
theorem grounds_endpoint (e : AccountEndpoint J) (w : Surroundings J) :
    grounds (fun seen => Granted seen (.endpoint e w)) (e.service w) seen AnyEnd := by
  cases e with
  | createUser email password =>
      exact grounds_map (grounds_account (grounds_createUser email password))
  | login username password =>
      exact grounds_map (grounds_account (grounds_login username password))
  | refreshToken token => exact grounds_map (grounds_account (grounds_refreshToken token))
  | readUserMe token =>
      refine grounds_map (grounds_account
        (grounds_then (grounds_getCurrentUser token) fun u _ _ => ?_))
      cases UserRoutes.readUser w.emailStr u with
      | ok x => exact grounds_pure trivial
      | error e => exact grounds_throw e
  | createApiKey token name => exact grounds_map (grounds_account (grounds_createApiKey token name))
  | getApiKeys token =>
      exact grounds_map (grounds_account (grounds_then (grounds_b2bPartnerDep token) fun u _ _ =>
        grounds_select fun d => grounds_pure trivial))
  | deleteApiKey token keyId =>
      exact grounds_map (grounds_account (grounds_deleteApiKey token keyId))
  | createUpgradeRequest token schema =>
      exact grounds_map (grounds_createUpgradeRequest token schema)
  | getUpgradeRequests token =>
      exact grounds_map (grounds_then (grounds_guard token) fun u _ _ =>
        grounds_next (grounds_select fun d => grounds_pure trivial) fun _ _ _ =>
          grounds_pure trivial)
  | getLatestUpgradeRequest token =>
      refine grounds_map (grounds_then (grounds_guard token) fun u _ _ =>
        grounds_next (grounds_select fun d => grounds_pure trivial) fun found _ _ => ?_)
      cases found with
      | none => exact grounds_throw _
      | some r => exact grounds_pure trivial
  | partner apiKey => exact grounds_map (grounds_account (grounds_partner apiKey))
  | adminLogin username password =>
      refine grounds_map (grounds_account ?_)
      unfold adminLogin
      split
      · refine grounds_then (grounds_authenticateUser _ _) fun a _ _ => ?_
        split
        · exact grounds_pure trivial
        · split
          · exact grounds_pure trivial
          · exact grounds_pure trivial
      · exact grounds_pure trivial

/-- Whoever is let in has been seen. -/
theorem grounds_adminAuthenticate {G : List VerificationDb → VerificationWrite → Prop}
    (token : Option Uuid) :
    grounds G (accountPart.run (adminAuthenticate token)) seen (SucceedsSeeing fun found seen =>
      ∀ u, found = some u → ∃ d ∈ seen, u ∈ d.accounts.users.rows ∧ token = some u.id) := by
  have hpart : grounds (fun _ _ => False) (adminAuthenticate token)
      (seen.map VerificationDb.accounts) (SucceedsSeeing fun found l =>
        ∀ u, found = some u → ∃ d ∈ l, u ∈ d.users.rows ∧ token = some u.id) := by
    unfold adminAuthenticate
    split
    · exact grounds_pure fun u hu => by contradiction
    · next id =>
        refine grounds_select fun d => ?_
        split
        · exact grounds_pure fun u hu => by contradiction
        · next u hu =>
            split
            · exact grounds_pure fun u hu => by contradiction
            · refine grounds_pure fun v hv => ?_
              obtain rfl := Option.some.inj hv
              have hid : u.id = id := Table.key_of_get hu
              exact ⟨d, List.mem_cons_self, Table.mem_of_get hu, by rw [hid]⟩
  refine grounds_mono ?_ (accountPart.grounds_run (fun _ _ _ h => h.elim) hpart)
  intro r l hr found hfound u hu
  obtain ⟨d, hd, hmem, htoken⟩ := hr found hfound u hu
  obtain ⟨d', hd', rfl⟩ := List.mem_map.mp hd
  exact ⟨d', hd', hmem, htoken⟩

/-- A form of the panel is for administrators. -/
theorem role_of_accessible {q : PanelRequest} {user : Option UserRow}
    (h : q.form.isAccessible user q.scope) : ∃ u, user = some u ∧ u.role = .admin := by
  have hmixin : AdminAccessMixin.isAccessible user := by
    cases hform : q.form with
    | createUser u relations | editUser u relations =>
        rw [hform] at h
        change UserAdmin.isAccessible user q.scope at h
        rwa [UserAdmin.isAccessible_of_forbidden] at h
        simp [PanelRequest.scope, hform, PanelForm.endpointName, UserAdmin.forbidden]
    | editVerificationRequest | createApiKey | editApiKey =>
        rw [hform] at h
        exact h
  obtain ⟨u, hu, hrole⟩ := (Option.any_eq_true _ _).mp hmixin
  exact ⟨u, hu, of_decide_eq_true hrole⟩

/-- The hook elevates the user of the request that it has been given. -/
theorem grounds_onModelChange {q : PanelRequest} {requestId : Uuid} {status : VerificationStatus}
    {feedback : Option String} {r : VerificationRequest} {d : VerificationDb}
    (hform : q.form = .editVerificationRequest requestId status feedback)
    (hadmin : ∃ d ∈ seen, q.ByAdmin d) (hd : d ∈ seen) (hr : d.requests.get requestId = some r) :
    grounds (fun seen => Granted (J := J) seen (.panel q)) (onModelChange status r) seen
      AnyEnd := by
  unfold onModelChange
  split
  · next happroved =>
      subst happroved
      have helevate : grounds (fun _ write => write = UserWrite.elevateUser r.userId r.targetRole)
          (elevateUser r.userId r.targetRole) (seen.map VerificationDb.accounts) AnyEnd := by
        refine grounds_select fun x => ?_
        split
        · exact grounds_throw _
        · next u hu =>
            have hid : u.id = r.userId := Table.key_of_get hu
            exact grounds_save (by rw [hid]) grounds_commit
      refine grounds_mono (fun _ _ _ _ _ => trivial) (accountPart.grounds_run ?_ helevate)
      rintro l write hl rfl
      obtain ⟨d', hd', hby⟩ := hadmin
      exact .elevate r d hform ⟨d', hl.subset hd', hby⟩ (hl.subset hd) hr
  · exact grounds_pure trivial

/-- What the queries of the three relations find is stored. -/
theorem grounds_selectRelated {G : List VerificationDb → VerificationWrite → Prop}
    (p : RelatedRow × Uuid → Bool) :
    grounds G (selectRelated p) seen (SucceedsSeeing fun rows l =>
      ∀ x ∈ rows, p x ∧ ∃ d ∈ l, x ∈ d.relatedRows) := by
  refine grounds_select fun d => grounds_select fun d' => grounds_select fun d'' =>
    grounds_pure fun x hx => ?_
  simp only [List.mem_append, List.mem_filter] at hx
  simp only [VerificationDb.relatedRows, List.mem_append, List.exists_mem_cons_iff]
  tauto

/-- Checking the relations of a form writes nothing. -/
theorem grounds_validateRelations {G : List VerificationDb → VerificationWrite → Prop}
    (relations : UserRelations) : grounds G (validateRelations relations) seen AnyEnd := by
  refine grounds_next (grounds_mono (fun _ _ _ _ _ => trivial)
    (grounds_selectRelated fun _ => true)) fun choices _ _ => ?_
  split
  · exact grounds_throw _
  · exact grounds_pure trivial

/-- The form writes the user, and the rows that it relates to the user. -/
theorem grounds_submitUser {q : PanelRequest} {write : UserWrite} {userId : Uuid}
    {loaded found : List (RelatedRow × Uuid)} (hform : q.form.Submits write)
    (hadmin : ∃ d ∈ seen, q.ByAdmin d)
    (hfound : ∀ x ∈ found, q.form.Attaches x.1 userId ∧ ∃ d ∈ seen, x ∈ d.relatedRows) :
    grounds (fun seen => Granted (J := J) seen (.panel q)) (submitUser q.env write userId loaded found)
      seen AnyEnd := by
  refine grounds_save (.submit hform hadmin) (grounds_next (grounds_mono ?_
    (grounds_saveAll fun w hw => ?_)) fun _ _ _ => grounds_commit)
  · exact fun _ _ _ _ _ => trivial
  · simp only [relationWrites, List.mem_append, List.mem_map, List.mem_filter] at hw
    rcases hw with ⟨x, ⟨hx, -⟩, rfl⟩ | ⟨x, -, rfl⟩
    · obtain ⟨hattaches, d, hd, hmem⟩ := hfound x hx
      exact .attach hattaches hadmin ⟨d, hd, x.2, hmem⟩
    · exact .leaveOut hadmin

/-- Creating an account in the panel writes what its form is granted. -/
theorem grounds_create {q : PanelRequest} {u : UserRow} {relations : UserRelations}
    (hform : q.form = .createUser u relations) (hadmin : ∃ d ∈ seen, q.ByAdmin d) :
    grounds (fun seen => Granted (J := J) seen (.panel q)) (UserAdmin.create q.env u relations) seen
      AnyEnd := by
  obtain ⟨d, hd, hby⟩ := hadmin
  refine grounds_next (grounds_validateRelations relations) fun _ l hl => ?_
  refine grounds_onward (grounds_selectRelated _) fun found l' hl' hfound => ?_
  refine grounds_submitUser (.newUser u relations hform) ⟨d, hl'.subset (hl.subset hd), hby⟩ ?_
  intro x hx
  obtain ⟨hrow, hstored⟩ := hfound x hx
  exact ⟨⟨u, relations, .inl hform, rfl, of_decide_eq_true hrow⟩, hstored⟩

/-- Editing an account in the panel writes what its form is granted. -/
theorem grounds_edit {q : PanelRequest} {u : UserRow} {relations : UserRelations}
    (hform : q.form = .editUser u relations) (hadmin : ∃ d ∈ seen, q.ByAdmin d) :
    grounds (fun seen => Granted (J := J) seen (.panel q)) (UserAdmin.edit q.env u relations) seen
      AnyEnd := by
  obtain ⟨d, hd, hby⟩ := hadmin
  refine grounds_select fun d' => ?_
  by_cases hnone : d'.accounts.users.get u.id = none
  · simp only [hnone, if_true]
    exact grounds_throw _
  simp only [hnone, if_false]
  refine grounds_next (grounds_validateRelations relations) fun _ l hl => ?_
  refine grounds_onward (grounds_selectRelated _) fun loaded l' hl' _ => ?_
  refine grounds_onward (grounds_selectRelated _) fun found l'' hl'' hfound => ?_
  refine grounds_submitUser (.user u relations hform) ⟨d, ?_, hby⟩ ?_
  · exact hl''.subset (hl'.subset (hl.subset (List.mem_cons_of_mem _ hd)))
  · intro x hx
    obtain ⟨hrow, hstored⟩ := hfound x hx
    exact ⟨⟨u, relations, .inr hform, rfl, of_decide_eq_true hrow⟩, hstored⟩

/-- Every form writes what it is granted when an administrator submits it. -/
theorem grounds_form {q : PanelRequest} (hadmin : ∃ d ∈ seen, q.ByAdmin d) :
    grounds (fun seen => Granted (J := J) seen (.panel q)) (q.form.service q.env) seen AnyEnd := by
  have hrow : ∀ write, q.form.Submits write →
      grounds (fun seen => Granted (J := J) seen (.panel q)) (submitRow write) seen AnyEnd :=
    fun write hform => grounds_save (.submit hform hadmin) grounds_commit
  cases hform : q.form with
  | editVerificationRequest requestId status feedback =>
      refine grounds_select fun d => ?_
      split
      · exact grounds_throw _
      · next r hr =>
          have hid : r.id = requestId := Table.key_of_get hr
          obtain ⟨d', hd', hby⟩ := hadmin
          refine grounds_next (grounds_onModelChange hform ⟨d', List.mem_cons_of_mem _ hd', hby⟩
            List.mem_cons_self hr) fun _ l hl => ?_
          rw [hid]
          exact grounds_save
            (.decide hform ⟨d', hl.subset (List.mem_cons_of_mem _ hd'), hby⟩) grounds_commit
  | createUser u relations => exact grounds_create hform hadmin
  | editUser u relations => exact grounds_edit hform hadmin
  | createApiKey k => exact hrow _ (.newApiKey k hform)
  | editApiKey k => exact hrow _ (.apiKey k hform)

/-- Every request to the panel writes what it is granted. -/
theorem grounds_panel (q : PanelRequest) :
    grounds (fun seen => Granted (J := J) seen (.panel q)) q.program seen AnyEnd := by
  refine grounds_then (grounds_inSession (grounds_adminAuthenticate q.token))
    fun user seen huser => ?_
  by_cases hnone : user.isNone
  · simp only [hnone, if_true]
    exact grounds_throw _
  simp only [hnone]
  by_cases hclosed : q.form.isAccessible user q.scope = false
  · simp only [hclosed, if_true]
    exact grounds_throw _
  simp only [hclosed]
  obtain ⟨u, rfl, hrole⟩ := role_of_accessible (by simpa using hclosed)
  obtain ⟨d, hd, hmem, htoken⟩ := huser u rfl
  exact grounds_inSession (grounds_form ⟨d, hd, u, hmem, htoken, hrole⟩)

/-- Every visitor writes what it is granted. -/
theorem grounds_visitor (v : Visitor J) :
    grounds (fun seen => Granted seen v) v.program seen AnyEnd := by
  cases v with
  | endpoint e w => exact grounds_inSession (grounds_endpoint e w)
  | panel q => exact grounds_map (grounds_panel q)

end

end FairDrop
