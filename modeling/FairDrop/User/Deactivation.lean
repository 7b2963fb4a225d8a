import FairDrop.User.Guards
import FairDrop.User.Logins

/-!
# FairDrop.User.Deactivation

Switching an account off.  Of the guards that let a request act as an account
only `get_b2b_partner_by_api_key` looks at `is_active`; a request that presents
a credential of a deactivated account to any other one is let in.  Where no
request does so, a deactivated account is shut out (`shut_out_of_spares`).
-/

namespace FairDrop

open RowStore

/-! ## Requests -/

/-- The ways to act as an account; the token endpoint once the rate limiter has
let the request through. -/
inductive Access (J : Type) where
  | authToken (username password : String)
  | refresh (token : String)
  | adminLogin (username password : Option String)
  | adminSession (token : Option Uuid)
  | bearer (token : J)
  | flexible (token : Option J) (sessionToken : Option Uuid)
  | apiKey (key : Option String)
  | b2bPartner (key : Option String)

/-- A request that reads or writes accounts and their credentials. -/
inductive UserCall (J : Type) where
  | access (a : Access J)
  | createUser (email password : String)
  | createApiKey (userId : Uuid) (name : String)
  | deleteApiKey (userId keyId : Uuid)
  | elevateUser (userId : Uuid) (targetRole : UserRole)
  /-- A form of the admin panel. -/
  | adminForm (w : UserWrite)

structure UserRequest (J : Type) where
  call : UserCall J
  env : UserEnv
  scan : Scan (ApiKeyB2BPartner × UserRow)

section
variable {J : Type} (crypto : Crypto J)

/-- The account that the request acts as. -/
def Access.service (env : UserEnv) (scan : Scan (ApiKeyB2BPartner × UserRow)) :
    Access J → UserTx (Option UserRow)
  | .authToken username password => (fun t => some t.user) <$> login crypto env username password
  | .refresh token => (fun t => some t.user) <$> refreshToken crypto env token
  | .adminLogin username password => FairDrop.adminLogin crypto username password
  | .adminSession token => adminAuthenticate token
  | .bearer token => some <$> getCurrentUser crypto env token
  | .flexible token sessionToken => some <$> getCurrentUserFlexible crypto env token sessionToken
  | .apiKey key => some <$> getApiKeyUser crypto env scan key
  | .b2bPartner key => some <$> getB2bPartnerByApiKey crypto env scan key

def UserRequest.service (q : UserRequest J) : UserTx (Option UserRow) :=
  match q.call with
  | .access a => a.service crypto q.env q.scan
  | .createUser email password => (fun _ => none) <$> FairDrop.createUser q.env email password
  | .createApiKey userId name => (fun _ => none) <$> createApiKeyB2BPartner q.env userId name
  | .deleteApiKey userId keyId => (fun _ => none) <$> deleteApiKeyB2BPartner userId keyId
  | .elevateUser userId role => (fun _ => none) <$> FairDrop.elevateUser userId role
  | .adminForm w => do
      Prog.save w
      Prog.commitWork
      return none

/-- The requests of `T` at work. -/
abbrev UserWorld (T : Type) := Sys Unit UserDb Empty UserWrite UserError (Option UserRow) T

/-- Nobody has begun. -/
def UserWorld.start {T : Type} (requests : T → UserRequest J) (d : UserDb) : UserWorld T :=
  Sys.start d fun t => (Prog.inSession ((requests t).service crypto), ())

/-- The id of the account that a request has come to act as. -/
def actsAs {T : Type} (s : UserWorld T) (t : T) : Option Uuid :=
  match s.ended t with
  | some (.ok (some user)) => some user.id
  | _ => none

theorem ended_of_actsAs {T : Type} {s : UserWorld T} {t : T} {id : Uuid}
    (h : actsAs s t = some id) : ∃ user, s.ended t = some (.ok (some user)) ∧ user.id = id := by
  unfold actsAs at h
  split at h
  · next user hended => exact ⟨user, hended, Option.some.inj h⟩
  · contradiction

def refusal {T : Type} (s : UserWorld T) (t : T) : Option UserError :=
  match s.ended t with
  | some (.error e) => some e
  | _ => none

/-! ## Deactivation -/

/-- The guard looks at `is_active`. -/
def Access.ChecksFlag : Access J → Prop
  | .b2bPartner _ => True
  | _ => False

/-- The credential belongs to `u`, an account of `d`. -/
def Presents (env : UserEnv) (scan : Scan (ApiKeyB2BPartner × UserRow)) (d : UserDb) :
    Access J → UserRow → Prop
  | .authToken username password, u => HasPassword crypto username password u
  | .refresh token, u => ∃ row ∈ d.refreshTokens.rows,
      row.token = token ∧ row.userId = u.id ∧ env.now ≤ row.expiresAt
  | .adminLogin username password, u => u.isStaff ∧ ∃ email secret,
      username = some email ∧ password = some secret ∧ HasPassword crypto email secret u
  | .adminSession token, u => u.isStaff ∧ token = some u.id
  | .bearer token, u => Names crypto env.now token u
  | .flexible token sessionToken, u => (∃ t, token = some t ∧ Names crypto env.now t u) ∨
      sessionToken = some u.id ∧
        ∀ t, token = some t → ∀ v ∈ d.users.rows, ¬ Names crypto env.now t v
  | .apiKey key, u | .b2bPartner key, u =>
      ∃ rawKey, key = some rawKey ∧ d.keyOwner crypto scan rawKey = some u

end

/-- The step is a commit that sets `is_active` of `id`. -/
def SetsActive {T : Type} (active : Bool) (id : Uuid) (ev : Event UserDb UserWrite T) : Prop :=
  ∃ u, .updateUser u ∈ ev.commit.getD [] ∧ u.id = id ∧ u.isActive = active

section
variable {J T : Type} (crypto : Crypto J)

/-- After `is_active` of an account is set to false, and until it is set to true
again, no request that begins succeeds as that account. -/
def ShutOut (evs : List (Event UserDb UserWrite T)) (s : UserWorld T) : Prop :=
  ∀ pre ev post id, evs = pre ++ ev :: post → SetsActive false id ev →
    (∀ ev' ∈ ev :: post, ¬ SetsActive true id ev') →
      ∀ t, (∀ ev' ∈ pre ++ [ev], ev'.txn ≠ t) →
        ∀ user, s.ended t = some (.ok (some user)) → user.id ≠ id

/-- Whoever the request presents a credential of, to a guard that does not look
at the flag, is active. -/
def UserRequest.SparesInactive (q : UserRequest J) (d : UserDb) : Prop :=
  ∀ a, q.call = .access a → ¬ a.ChecksFlag → ∀ u ∈ d.users.rows,
    Presents crypto q.env q.scan d a u → u.isActive

end

/-! ## What a guard lets in -/

section
variable {J : Type} {crypto : Crypto J} {env : UserEnv} {P : UserDb → Prop}
  {scan : Scan (ApiKeyB2BPartner × UserRow)}

/-- Two rows of one user are one row. -/
theorem UserDb.eq_of_id {d : UserDb} {u v : UserRow} (hu : u ∈ d.users.rows)
    (hv : v ∈ d.users.rows) (h : u.id = v.id) : u = v :=
  d.users.eq_of_key hu hv h

/-- A request that succeeds has presented a credential of the account that it
acts as, and the account was active if the guard looks at the flag. -/
theorem ends_access (a : Access J) :
    ends userStore P (a.service crypto env scan) (Succeeds fun found =>
      ∀ user, found = some user → ∃ d, P d ∧ ∀ u ∈ d.users.rows, u.id = user.id →
        Presents crypto env scan d a u ∧ (a.ChecksFlag → u.isActive)) := by
  have hrow : ∀ {d : UserDb} {K : UserRow → Prop} {user : UserRow}, user ∈ d.users.rows → K user →
      ∀ u ∈ d.users.rows, u.id = user.id → K u := by
    intro d K user hmem hK u hu hid
    rwa [UserDb.eq_of_id hu hmem hid]
  cases a with
  | authToken username password =>
      refine ends_map (ends_weaken ?_ (ends_login username password))
      rintro token ⟨d, hd, hmem, hpassword⟩ user huser
      obtain rfl := Option.some.inj huser
      exact ⟨d, hd, hrow hmem ⟨hpassword, False.elim⟩⟩
  | refresh token =>
      refine ends_map (ends_weaken ?_ (ends_refreshToken token))
      rintro t ⟨d, hd, hmem, hrefresh⟩ user huser
      obtain rfl := Option.some.inj huser
      exact ⟨d, hd, hrow hmem ⟨hrefresh, False.elim⟩⟩
  | adminLogin username password =>
      refine ends_weaken ?_ (ends_adminLogin username password)
      intro found hfound user huser
      obtain ⟨hstaff, d, hd, hmem, hpassword⟩ := hfound user huser
      exact ⟨d, hd, hrow hmem ⟨⟨hstaff, hpassword⟩, False.elim⟩⟩
  | adminSession token =>
      refine ends_weaken ?_ (ends_adminAuthenticate token)
      intro found hfound user huser
      obtain ⟨hstaff, d, hd, hmem, hsession⟩ := hfound user huser
      exact ⟨d, hd, hrow hmem ⟨⟨hstaff, hsession⟩, False.elim⟩⟩
  | bearer token =>
      refine ends_map (ends_mono ?_ (ends_getCurrentUser token))
      rintro r hr user rfl u hu
      obtain rfl := Option.some.inj hu
      obtain ⟨d, hd, hmem, hnames⟩ := hr
      exact ⟨d, hd, hrow hmem ⟨hnames, False.elim⟩⟩
  | flexible token sessionToken =>
      refine ends_map (ends_weaken ?_ (ends_getCurrentUserFlexible token sessionToken))
      rintro user hr u hu
      obtain rfl := Option.some.inj hu
      obtain ⟨d, hd, hmem, hnames⟩ | ⟨hsession, d, hd, hnobody⟩ := hr
      · exact ⟨d, hd, hrow hmem ⟨.inl hnames, False.elim⟩⟩
      · exact ⟨d, hd, fun v _ hid => ⟨.inr ⟨by rw [hid, hsession], hnobody⟩, False.elim⟩⟩
  | apiKey key =>
      refine ends_map (ends_weaken ?_ (ends_getApiKeyUser key))
      rintro user ⟨d, hd, rawKey, hkey, howner⟩ u hu
      obtain rfl := Option.some.inj hu
      exact ⟨d, hd, hrow (UserDb.mem_of_keyOwner howner) ⟨⟨rawKey, hkey, howner⟩, False.elim⟩⟩
  | b2bPartner key =>
      refine ends_map (ends_weaken ?_ (ends_getB2bPartnerByApiKey key))
      rintro user ⟨hactive, d, hd, rawKey, hkey, howner⟩ u hu
      obtain rfl := Option.some.inj hu
      exact ⟨d, hd, hrow (UserDb.mem_of_keyOwner howner) ⟨⟨rawKey, hkey, howner⟩, fun _ => hactive⟩⟩

/-- Only the guards let a request act as an account. -/
theorem ends_userRequest (crypto : Crypto J) (q : UserRequest J) :
    ends userStore P (q.service crypto) (Succeeds fun found =>
      ∀ user, found = some user → ∃ a, q.call = .access a ∧ ∃ d, P d ∧
        ∀ u ∈ d.users.rows, u.id = user.id →
          Presents crypto q.env q.scan d a u ∧ (a.ChecksFlag → u.isActive)) := by
  unfold UserRequest.service
  split
  · next a ha =>
      refine ends_weaken ?_ (ends_access a)
      intro found hfound user huser
      exact ⟨a, ha, hfound user huser⟩
  · exact ends_map (ends_mono (fun _ _ _ _ _ h => by contradiction) (ends_anyhow _))
  · exact ends_map (ends_mono (fun _ _ _ _ _ h => by contradiction) (ends_anyhow _))
  · exact ends_map (ends_mono (fun _ _ _ _ _ h => by contradiction) (ends_anyhow _))
  · exact ends_map (ends_mono (fun _ _ _ _ _ h => by contradiction) (ends_anyhow _))
  · exact ends_next fun _ => ends_next fun _ => ends_pure fun user h => by contradiction

end

/-! ## The flag -/

/-- The account exists, and is not active. -/
def UserDb.IsShut (d : UserDb) (id : Uuid) : Prop :=
  ∃ u, d.users.get id = some u ∧ u.isActive = false

section
variable {d d' : UserDb} {id : Uuid}

theorem UserDb.IsShut.set {u : UserRow} (h : d.IsShut id) (hu : u.id = id → u.isActive = false) :
    UserDb.IsShut { d with users := d.users.set u } id := by
  obtain ⟨v, hv, hshut⟩ := h
  by_cases hid : u.id = id
  · subst hid
    exact ⟨u, Table.get_set_self hv, hu rfl⟩
  · exact ⟨v, (Table.get_set_ne hid).trans hv, hshut⟩

/-- No write switches an account on, except the edit form. -/
theorem UserDb.IsShut.apply {w : UserWrite} (h : d.IsShut id)
    (hno : ∀ u, w = .updateUser u → u.id = id → u.isActive = false)
    (happly : w.apply d = .ok d') : d'.IsShut id := by
  cases w with
  | addUser u =>
      simp only [UserWrite.apply, except_bind_eq_ok, UserDb.require_eq_ok, UserDb.addRow_eq_ok]
        at happly
      obtain ⟨_, _, t, ⟨hnew, rfl⟩, hd⟩ := happly
      obtain rfl := Except.ok.inj hd
      obtain ⟨v, hv, hshut⟩ := h
      refine ⟨v, (Table.get_insert hnew id).trans ?_, hshut⟩
      split
      · next hid =>
          rw [← hid, hnew] at hv
          contradiction
      · exact hv
  | updateUser u =>
      simp only [UserWrite.apply, except_bind_eq_ok, UserDb.require_eq_ok] at happly
      obtain ⟨_, _, _, _, hd⟩ := happly
      obtain rfl := Except.ok.inj hd
      exact h.set (hno u rfl)
  | elevateUser uid role =>
      simp only [UserWrite.apply] at happly
      split at happly
      · next u hu =>
          obtain rfl := Except.ok.inj happly
          refine h.set fun hid => ?_
          obtain ⟨v, hv, hshut⟩ := h
          have huid : u.id = uid := Table.key_of_get hu
          rw [← huid, show u.id = id from hid, hv] at hu
          obtain rfl := Option.some.inj hu
          exact hshut
      · contradiction
  | addRefreshToken r =>
      obtain ⟨_, _, rfl⟩ := apply_addRefreshToken happly
      exact h
  | addApiKey k | updateApiKey k =>
      simp only [UserWrite.apply, except_bind_eq_ok] at happly
      obtain ⟨_, _, _, _, hd⟩ := happly
      obtain rfl := Except.ok.inj hd
      exact h
  | touchApiKey kid now =>
      simp only [UserWrite.apply] at happly
      split at happly
      · obtain rfl := Except.ok.inj happly
        exact h
      · contradiction
  | deleteRefreshToken rid | deleteApiKey kid =>
      obtain rfl := Except.ok.inj happly
      exact h

theorem UserDb.isShut_updateUser {u : UserRow} (hactive : u.isActive = false)
    (happly : (UserWrite.updateUser u).apply d = .ok d') : d'.IsShut u.id := by
  simp only [UserWrite.apply, except_bind_eq_ok, UserDb.require_eq_ok] at happly
  obtain ⟨_, hexists, _, _, hd⟩ := happly
  obtain rfl := Except.ok.inj hd
  obtain ⟨v, hv⟩ := Option.isSome_iff_exists.mp hexists
  exact ⟨u, Table.get_set_self hv, hactive⟩

/-- A unit of work that does not switch the account on leaves it off, and one
that edits it turns it off. -/
theorem UserDb.isShut_applyAll {ws : List UserWrite}
    (hno : ∀ u, .updateUser u ∈ ws → u.id = id → u.isActive = false)
    (h : d.IsShut id ∨ ∃ u, .updateUser u ∈ ws ∧ u.id = id)
    (happly : userStore.applyAll ws d = .ok d') : d'.IsShut id := by
  induction ws generalizing d with
  | nil =>
      rw [Store.applyAll_nil] at happly
      obtain hshut | ⟨u, hu, _⟩ := h
      · exact happly ▸ hshut
      · exact absurd hu List.not_mem_nil
  | cons w ws ih =>
      obtain ⟨d₁, hfirst, hrest⟩ := Store.applyAll_cons.mp happly
      refine ih (fun u hu => hno u (List.mem_cons_of_mem w hu)) ?_ hrest
      obtain hshut | ⟨u, hu, rfl⟩ := h
      · exact .inl (hshut.apply (fun u hw => hno u (hw ▸ List.mem_cons_self)) hfirst)
      · cases List.mem_cons.mp hu with
        | inl hw =>
            subst hw
            exact .inl (UserDb.isShut_updateUser (hno u List.mem_cons_self rfl) hfirst)
        | inr hlater => exact .inr ⟨u, hlater, rfl⟩

end

/-! ## Runs -/

section
variable {J T : Type} [DecidableEq T] {crypto : Crypto J} {requests : T → UserRequest J}
  {d : UserDb} {evs : List (Event UserDb UserWrite T)} {s : UserWorld T}
  {ok : UserWorld T → T → Prop}

/-- An account that is switched off stays so until it is switched on. -/
theorem isShut_since (h : Run userStore ok (UserWorld.start crypto requests d) evs s)
    {pre post : List (Event UserDb UserWrite T)} {ev : Event UserDb UserWrite T} {id : Uuid}
    (hsplit : evs = pre ++ ev :: post) (hoff : SetsActive false id ev)
    (hstays : ∀ ev' ∈ ev :: post, ¬ SetsActive true id ev') :
    ∀ ev' ∈ post, ev'.before.IsShut id := by
  have hno : ∀ ev' ∈ ev :: post, ∀ u, .updateUser u ∈ ev'.commit.getD [] → u.id = id →
      u.isActive = false := by
    intro ev' hev' u hu hid
    by_contra hactive
    exact hstays ev' hev' ⟨u, hu, hid, by simpa using hactive⟩
  have hdb := h.event_db
  refine (h.from_event hsplit (I := fun d => d.IsShut id) ?_ fun ev' hev' hshut => ?_).2
  · obtain ⟨u, hu, hid, _⟩ := hoff
    exact UserDb.isShut_applyAll (hno ev List.mem_cons_self) (.inr ⟨u, hu, hid⟩)
      (hdb ev (by simp [hsplit]))
  · exact UserDb.isShut_applyAll (hno ev' (List.mem_cons_of_mem ev hev')) (.inl hshut)
      (hdb ev' (by simp [hsplit, hev']))

/-- **A deactivated account is shut out** in every run in which no request that
reads presents a credential of an inactive account to a guard that does not look
at the flag. -/
theorem shut_out_of_spares
    (h : Run userStore (fun s t => s.Reads t → (requests t).SparesInactive crypto s.db)
      (UserWorld.start crypto requests d) evs s) : ShutOut evs s := by
  intro pre ev post id hsplit hoff hstays t hlater user hended hid
  have hshut := isShut_since h hsplit hoff hstays
  have hguards := ends_inSession (ends_userRequest
    (P := fun d => d.IsShut id ∧ (requests t).SparesInactive crypto d) crypto (requests t))
  -- All that `t` does is done after the account was switched off.
  have hend := h.ends hguards fun ev' hev' ht s₁ hdb hspares hreads => by
    have hpost : ev' ∈ post := by
      rw [hsplit, List.append_cons, List.mem_append] at hev'
      exact hev'.resolve_left fun hearly => hlater ev' hearly ht
    exact ⟨hshut ev' hpost, hdb ▸ hspares hreads⟩
  obtain ⟨a, ha, d', ⟨⟨u, hu, hoff'⟩, hspares⟩, hpresents⟩ :=
    Sys.ended_of_ends hend hended (some user) rfl user rfl
  have hmem : u ∈ d'.users.rows := Table.mem_of_get hu
  obtain ⟨hcredential, hflag⟩ := hpresents u hmem ((Table.key_of_get hu).trans hid.symm)
  have hactive : u.isActive := by
    by_cases hchecks : a.ChecksFlag
    · exact hflag hchecks
    · exact hspares a ha hchecks u hmem hcredential
  rw [hoff'] at hactive
  contradiction

end

/-! ## Switching off an administrator -/

instance {T : Type} (active : Bool) (id : Uuid) (ev : Event UserDb UserWrite T) :
    Decidable (SetsActive active id ev) :=
  decidable_of_iff ((ev.commit.getD []).any fun
    | .updateUser u => u.id = id && u.isActive = active
    | _ => false) (by
      rw [List.any_eq_true]
      constructor
      · rintro ⟨w, hw, hmatch⟩
        cases w with
        | updateUser u => exact ⟨u, hw, by simpa using hmatch⟩
        | _ => contradiction
      · rintro ⟨u, hu, hid, hactive⟩
        exact ⟨_, hu, by simp [hid, hactive]⟩)

def partnerKey : ApiKeyB2BPartner where
  id := 20
  userId := administrator.id
  name := "key"
  keyPrefix := "partner-key-"
  hashedKey := "partner-key-of-the-shop"
  isActive := true
  expiresAt := none
  lastUsedAt := none

/-- The administrator with a refresh token and an API key. -/
def credentials : UserDb where
  users := oneUser.users
  refreshTokens := Table.empty.insert ⟨10, administrator.id, "issued", 1000⟩ rfl
  apiKeys := Table.empty.insert partnerKey rfl

def keyOrder : Scan (ApiKeyB2BPartner × UserRow) := ⟨id, fun _ => .refl _⟩

def switchOff : UserCall Claims := .adminForm (.updateUser { administrator with isActive := false })

/-- The administrator is switched off, and tries the guard that looks at the flag. -/
def partnerRequests : Fin 2 → UserRequest Claims
  | 0 => ⟨switchOff, drawing "" 30, keyOrder⟩
  | 1 => ⟨.access (.b2bPartner (some partnerKey.hashedKey)), drawing "" 40, keyOrder⟩

theorem partnerRequests_spare (s : UserWorld (Fin 2)) (t : Fin 2) (_ : true) :
    s.Reads t → (partnerRequests t).SparesInactive plainCrypto s.db := by
  intro _ a ha hchecks
  match t with
  | 0 => contradiction
  | 1 =>
      obtain rfl := UserCall.access.inj ha
      exact absurd trivial hchecks

theorem shut_out_of_spares_partner : ∃ evs s,
    Run userStore (fun s t => s.Reads t → (partnerRequests t).SparesInactive plainCrypto s.db)
      (UserWorld.start plainCrypto partnerRequests credentials) evs s ∧
    ShutOut evs s ∧ refusal s 1 = some (.credentials "User is not active") := by
  have hexec : ((UserWorld.start plainCrypto partnerRequests credentials).exec userStore
      (fun _ _ => true) (turns [(0, 3), (1, 4)])).any (fun x =>
        decide (refusal x.2 1 = some (.credentials "User is not active"))) := by decide +kernel
  obtain ⟨evs, s, hrun, hend⟩ := Run.of_exec_any partnerRequests_spare hexec
  exact ⟨evs, s, hrun, shut_out_of_spares hrun, of_decide_eq_true hend⟩

/-- The administrator is switched off, and tries every other guard. -/
def deactivationRequests : Fin 8 → UserRequest Claims
  | 0 => ⟨switchOff, drawing "" 30, keyOrder⟩
  | 1 => ⟨.access (.authToken administrator.email "secret"), drawing "first" 40, keyOrder⟩
  | 2 => ⟨.access (.adminLogin (some administrator.email) (some "secret")), drawing "" 50, keyOrder⟩
  | 3 => ⟨.access (.bearer ⟨some administrator.email, 900⟩), drawing "" 60, keyOrder⟩
  | 4 => ⟨.access (.refresh "issued"), drawing "second" 70, keyOrder⟩
  | 5 => ⟨.access (.flexible none (some administrator.id)), drawing "" 80, keyOrder⟩
  | 6 => ⟨.access (.adminSession (some administrator.id)), drawing "" 90, keyOrder⟩
  | 7 => ⟨.access (.apiKey (some partnerKey.hashedKey)), drawing "" 100, keyOrder⟩

/-- The first request edits the account in its second step, and nobody edits it
afterwards. -/
def switchedOff (evs : List (Event UserDb UserWrite (Fin 8))) : Bool :=
  match evs with
  | first :: edit :: rest => decide (first.txn = 0 ∧ edit.txn = 0 ∧
      SetsActive false administrator.id edit ∧
        ∀ ev ∈ edit :: rest, ¬ SetsActive true administrator.id ev)
  | _ => false

/-- The deactivated administrator is let in by each of them. -/
theorem not_shut_out : ∃ evs s,
    Run userStore Anything (UserWorld.start plainCrypto deactivationRequests credentials) evs s ∧
    ¬ ShutOut evs s ∧ ∀ t ≠ 0, actsAs s t = some administrator.id := by
  have hexec : ((UserWorld.start plainCrypto deactivationRequests credentials).exec userStore
      (fun _ _ => true) (turns [(0, 3), (1, 4), (2, 2), (3, 2), (4, 6), (5, 2), (6, 2), (7, 4)])).any
        (fun x => switchedOff x.1 && decide (∀ t ≠ 0, actsAs x.2 t = some administrator.id)) := by
    decide +kernel
  obtain ⟨evs, s, hrun, hend⟩ := Run.of_exec_any (fun _ _ _ => trivial) hexec
  obtain ⟨hoff, hacts⟩ := Bool.and_eq_true_iff.mp hend
  have hacts := of_decide_eq_true hacts
  refine ⟨evs, s, hrun, fun hshut => ?_, hacts⟩
  match evs with
  | [] | [_] => exact absurd hoff Bool.false_ne_true
  | first :: edit :: rest =>
      obtain ⟨hfirst, hedit, hsets, hstays⟩ := of_decide_eq_true hoff
      obtain ⟨user, hended, hid⟩ := ended_of_actsAs (hacts 3 (by decide))
      refine hshut [first] edit rest administrator.id rfl hsets hstays 3 ?_ user hended hid
      intro ev hev
      rcases List.mem_pair.mp hev with rfl | rfl
      · rw [hfirst]
        decide
      · rw [hedit]
        decide

end FairDrop
