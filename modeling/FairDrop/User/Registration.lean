import FairDrop.RowStore.Interleave
import FairDrop.User.Guards
import FairDrop.User.Logins

/-!
# FairDrop.User.Registration

Whoever has registered can log in, if the two endpoints read the same address
and a password at all (`staysRegistered_iff`).  Registration stores the address
as `EmailStr` returns it, and the login form looks for the text that it gets.

The requests are those that the rate limiters let through.
-/

namespace FairDrop

open RowStore

/-! ## Endpoints -/

/-- `EmailStr` of pydantic: the normalised address, or none if it is refused. -/
structure EmailStr where
  validate : String → Option String
  validate_empty : validate "" = none

/-- `UserRead` -/
structure UserRead where
  id : Uuid
  email : String
  role : UserRole
  deriving DecidableEq, Repr

/-- The row of a new account. -/
def newUser (env : UserEnv) (email password : String) : UserRow where
  id := env.uuid 0
  email := email
  passwordHash := env.passwordHash password
  isActive := true
  isVerified := false
  role := .user

namespace UserRoutes

/-- `UserRead.model_validate(user)` -/
def readUser (emailStr : EmailStr) (user : UserRow) : Except UserError UserRead :=
  match emailStr.validate user.email with
  | some email => .ok ⟨user.id, email, user.role⟩
  | none => .error .validationError

/-- `POST /users` -/
def createUser (emailStr : EmailStr) (env : UserEnv) (email password : String) :
    UserTx UserRead := do
  match emailStr.validate email with
  | none => throw .validationError
  | some email =>
      let user ← FairDrop.createUser env email password
      Prog.ofExcept (readUser emailStr user)

/-- `POST /auth/token`: an empty field of the form is a missing one. -/
def login {J : Type} (crypto : Crypto J) (env : UserEnv) (username password : String) :
    UserTx (Token J) := do
  if username = "" ∨ password = "" then throw .validationError
  else FairDrop.login crypto env username password

end UserRoutes

/-! ## Requests side by side -/

inductive AccountCall where
  | register (email password : String)
  | login (username password : String)
  deriving DecidableEq

structure AccountRequest where
  call : AccountCall
  env : UserEnv

def AccountRequest.service {J : Type} (emailStr : EmailStr) (crypto : Crypto J)
    (q : AccountRequest) : UserTx (UserRead ⊕ Token J) :=
  match q.call with
  | .register email password => Sum.inl <$> UserRoutes.createUser emailStr q.env email password
  | .login username password => Sum.inr <$> UserRoutes.login crypto q.env username password

abbrev AccountWorld (J T : Type) := Sys Unit UserDb Empty UserWrite UserError (UserRead ⊕ Token J) T

/-- Nobody has begun. -/
def AccountWorld.start {J T : Type} (emailStr : EmailStr) (crypto : Crypto J)
    (requests : T → AccountRequest) (d : UserDb) : AccountWorld J T :=
  Sys.start d fun t => (Prog.inSession ((requests t).service emailStr crypto), ())

/-- `users.email` is unique. -/
def UserDb.UniqueEmails (d : UserDb) : Prop :=
  ∀ u ∈ d.users.rows, ∀ u' ∈ d.users.rows, u.email = u'.email → u = u'

/-- What a request commits: its account, under an address that no account has, or
no change of an account. -/
def AccountRequest.Commits (emailStr : EmailStr) (q : AccountRequest) (d d' : UserDb) : Prop :=
  match q.call with
  | .register email password => ∃ e, emailStr.validate email = some e ∧
      (∀ u ∈ d.users.rows, u.email ≠ e) ∧
        ∃ h : d.users.get (q.env.uuid 0) = none,
          d' = { d with users := d.users.insert (newUser q.env e password) h }
  | .login _ _ => d'.users = d.users

def AccountRequest.rules (emailStr : EmailStr) (q : AccountRequest) :
    Rules Unit UserDb Empty UserWrite where
  inv _ := True
  grant _ _ _ := True
  request _ _ _ := True
  commit _ _ d d' := q.Commits emailStr d d'

section
variable {J : Type} {emailStr : EmailStr} {crypto : Crypto J}

/-- An account is stored exactly when its e-mail and id are free. -/
theorem apply_addUser {d d' : UserDb} {u : UserRow} : (UserWrite.addUser u).apply d = .ok d' ↔
    (∀ u' ∈ d.users.rows, u'.email ≠ u.email) ∧
      ∃ h : d.users.get u.id = none, d' = { d with users := d.users.insert u h } := by
  simp only [UserWrite.apply, except_bind_eq_ok, UserDb.require_eq_ok, UserDb.addRow_eq_ok,
    key_userRow]
  constructor
  · rintro ⟨_, hunique, t, ⟨h, rfl⟩, hd⟩
    exact ⟨hunique, h, (Except.ok.inj hd).symm⟩
  · rintro ⟨hunique, h, rfl⟩
    exact ⟨(), hunique, _, ⟨h, rfl⟩, rfl⟩

/-- What a registration commits, and whom the service answers with. -/
theorem wp_createUser (q : AccountRequest) {email password e : String}
    (hcall : q.call = .register email password) (hvalid : emailStr.validate email = some e) :
    wp userStore (q.rules emailStr) (FairDrop.createUser q.env e password) (.start () none)
      fun r p => ∀ user, r = .ok user → user.id = q.env.uuid 0 ∧ p.commits = 1 := by
  apply wp_bind
  refine wp_select (fun d _ _ => ?_) fun _ h => by contradiction
  apply wp_bind
  apply wp_ofExcept
  cases hfound : d.userByEmail e with
  | error e => exact fun _ h => by contradiction
  | ok existing =>
      cases existing with
      | some user => exact fun _ h => by contradiction
      | none =>
          apply wp_bind
          rw [wp_save]
          apply wp_bind
          refine wp_commitWork (fun d d' _ _ happly => ?_) fun e _ h => by contradiction
          obtain ⟨hunique, hnew, rfl⟩ := apply_addUser.mp (Store.applyAll_singleton ▸ happly)
          refine ⟨?_, fun r => r.elim, ?_⟩
          · unfold AccountRequest.rules AccountRequest.Commits
            rw [hcall]
            exact ⟨e, hvalid, hunique, hnew, rfl⟩
          · apply wp_bind
            refine wp_select (fun d _ _ => ?_) fun _ h => by contradiction
            dsimp only
            split
            · next user huser =>
                intro x hx
                obtain rfl := Except.ok.inj hx
                exact ⟨Table.key_of_get huser, rfl⟩
            · exact fun _ h => by contradiction

/-- The endpoint answers about the user that the service has stored. -/
theorem wp_register (q : AccountRequest) {email password : String}
    (hcall : q.call = .register email password) :
    wp userStore (q.rules emailStr) (UserRoutes.createUser emailStr q.env email password)
      (.start () none) fun r p => ∀ x, r = .ok x → x.id = q.env.uuid 0 ∧ p.commits = 1 := by
  have hfail : ∀ {e : UserError} {p : Known Unit UserDb Empty Empty UserWrite} (x : UserRead),
      (.error e : Except UserError UserRead) = .ok x → x.id = q.env.uuid 0 ∧ p.commits = 1 :=
    fun _ h => by contradiction
  unfold UserRoutes.createUser
  split
  · exact hfail
  · next e hvalid =>
      apply wp_bind
      refine wp_mono (fun r p hr => ?_) (wp_createUser q hcall hvalid)
      cases r with
      | error e => exact hfail
      | ok user =>
          apply wp_ofExcept
          intro x hx
          unfold UserRoutes.readUser at hx
          split at hx
          · obtain rfl := Except.ok.inj hx
            exact hr user rfl
          · contradiction

/-- A login commits no change of an account. -/
theorem wp_login (q : AccountRequest) {username password : String}
    (hcall : q.call = .login username password) :
    wp userStore (q.rules emailStr) (UserRoutes.login crypto q.env username password)
      (.start () none) fun _ _ => True := by
  unfold UserRoutes.login
  split
  · trivial
  · apply wp_bind
    apply wp_bind
    refine wp_select (fun d _ _ => ?_) trivial
    apply wp_bind
    apply wp_ofExcept
    cases d.userByEmail username with
    | error e => trivial
    | ok found =>
        dsimp only
        split
        · trivial
        · next user =>
            split
            · apply wp_bind
              apply wp_bind
              rw [wp_save]
              apply wp_bind
              refine wp_commitWork (fun d d' _ _ happly => ?_) fun e => trivial
              obtain ⟨-, hnew, rfl⟩ :=
                apply_addRefreshToken (Store.applyAll_singleton ▸ happly)
              refine ⟨?_, fun r => r.elim, trivial⟩
              unfold AccountRequest.rules AccountRequest.Commits
              rw [hcall]
            · trivial

/-- What a request does. -/
theorem AccountRequest.wp_service (q : AccountRequest) :
    wp userStore (q.rules emailStr) (Prog.inSession (q.service emailStr crypto)) (.start () none)
      fun r p => ∀ email password, q.call = .register email password → ∀ x, r = .ok (.inl x) →
        x.id = q.env.uuid 0 ∧ p.commits = 1 := by
  apply wp_inSession
  unfold AccountRequest.service
  split
  · next hcall =>
      apply wp_map
      refine wp_mono (fun r p hr => ?_) (wp_register q hcall)
      intro _ _ _ x hx
      cases r with
      | error e => contradiction
      | ok read =>
          obtain rfl := Sum.inl.inj (Except.ok.inj hx)
          exact hr read rfl
  · next hcall =>
      apply wp_map
      refine wp_mono (fun r p _ => ?_) (wp_login q hcall)
      intro _ _ _ x hx
      cases r with
      | error e => contradiction
      | ok token => exact absurd (Except.ok.inj hx) Sum.inr_ne_inl

/-! ## Accounts in a run -/

/-- E-mails stay unique through every commit. -/
theorem UserDb.UniqueEmails.of_commits {q : AccountRequest} {d d' : UserDb} (h : d.UniqueEmails)
    (hc : q.Commits emailStr d d') : d'.UniqueEmails := by
  unfold AccountRequest.Commits at hc
  split at hc
  · obtain ⟨e, -, hnone, hnew, rfl⟩ := hc
    intro u hu u' hu' hemail
    cases (Table.mem_insert hnew).mp hu with
    | inl hold =>
        cases (Table.mem_insert hnew).mp hu' with
        | inl hold' => exact h u hold u' hold' hemail
        | inr hlast => exact absurd (hemail.trans (congrArg UserRow.email hlast)) (hnone u hold)
    | inr hlast =>
        cases (Table.mem_insert hnew).mp hu' with
        | inl hold' =>
            exact absurd (hemail.symm.trans (congrArg UserRow.email hlast)) (hnone u' hold')
        | inr hlast' => rw [hlast, hlast']
  · intro u hu u' hu'
    rw [hc] at hu hu'
    exact h u hu u' hu'

/-- Accounts stay. -/
theorem AccountRequest.Commits.stay {q : AccountRequest} {d d' : UserDb}
    (hc : q.Commits emailStr d d') : ∀ u ∈ d.users.rows, u ∈ d'.users.rows := by
  intro u hu
  unfold AccountRequest.Commits at hc
  split at hc
  · obtain ⟨e, -, -, hnew, rfl⟩ := hc
    exact (Table.mem_insert hnew).mpr (.inl hu)
  · rw [hc]
    exact hu

section
variable {T : Type} [DecidableEq T] {requests : T → AccountRequest} {d₀ : UserDb}
  {s : AccountWorld J T} {evs : List (Event UserDb UserWrite T)}

/-- Addresses stay unique; and whoever has registered has an account, under the
address that `EmailStr` made of the text. -/
theorem accounts_of_run (hunique : d₀.UniqueEmails)
    (hrun : Run userStore Anything (AccountWorld.start emailStr crypto requests d₀) evs s) :
    s.db.UniqueEmails ∧ ∀ t email password read,
      (requests t).call = .register email password → s.ended t = some (.ok (.inl read)) →
        read.id = (requests t).env.uuid 0 ∧ ∃ e, emailStr.validate email = some e ∧
          newUser (requests t).env e password ∈ s.db.users.rows := by
  obtain ⟨htracks, hevs⟩ := Run.tracks_of_inv (fun t => (requests t).wp_service)
    (fun _ _ _ _ _ _ _ _ => trivial) hrun fun _ _ => trivial
  have hstay : ∀ ev ∈ evs, ∀ u ∈ ev.before.users.rows, u ∈ ev.after.users.rows := by
    intro ev hev
    have hok := hevs ev hev
    unfold EventOk at hok
    split at hok
    · rw [hok]
      exact fun _ hu => hu
    · exact AccountRequest.Commits.stay hok
  refine ⟨(hrun.keeps hunique fun ev hev h => ?_).1, fun t email password read hcall hended => ?_⟩
  · have hok := hevs ev hev
    unfold EventOk at hok
    split at hok
    · rw [hok]
      exact h
    · exact h.of_commits hok
  · obtain ⟨p, hp, hcommits⟩ := htracks t
    obtain ⟨hid, hone⟩ := hp.ended hended email password hcall read rfl
    refine ⟨hid, ?_⟩
    have hpos : 0 < commitsOf t evs := by
      rw [← hcommits, hone]
      decide
    obtain ⟨ev, hev, rfl, hcommit⟩ := exists_of_commitsOf hpos
    obtain ⟨ws, hws⟩ := Option.isSome_iff_exists.mp hcommit
    have hok := hevs ev hev
    simp only [EventOk, hws] at hok
    change (requests ev.txn).Commits emailStr ev.before ev.after at hok
    unfold AccountRequest.Commits at hok
    rw [hcall] at hok
    obtain ⟨e, hvalid, -, hnew, hafter⟩ := hok
    have hmem : newUser (requests ev.txn).env e password ∈ ev.after.users.rows := by
      rw [hafter]
      exact (Table.mem_insert hnew).mpr (.inr rfl)
    exact ⟨e, hvalid, (hrun.since (r := fun d d' => ∀ u ∈ d.users.rows, u ∈ d'.users.rows)
      (fun _ _ hu => hu) (fun a b c hab hbc u hu => hbc u (hab u hu)) hstay ev hev).2 _ hmem⟩

end

/-! ## Logging in -/

section
variable {d : UserDb} {env : UserEnv} {email password : String} {u : UserRow}

/-- The token that a login would store is a new one. -/
def UserDb.Draws (d : UserDb) (env : UserEnv) : Prop :=
  d.refreshTokens.get (env.uuid 0) = none ∧ ∀ r ∈ d.refreshTokens.rows, r.token ≠ env.tokenUrlsafe

/-- A login with these fields succeeds and is for the user. -/
def LogsIn (crypto : Crypto J) (env : UserEnv) (d : UserDb) (username password : String)
    (userId : Uuid) : Prop :=
  ∃ token, (exec userStore (UserRoutes.login crypto env username password) [] d [] ()).value =
    .ok token ∧ token.user.id = userId

/-- An account is found by its stored e-mail. -/
theorem UserDb.UniqueEmails.userByEmail (h : d.UniqueEmails) (hu : u ∈ d.users.rows) :
    d.userByEmail u.email = .ok (some u) := by
  have hone : d.users.rows.filter (fun x => x.email = u.email) = [u] :=
    Table.filter_eq_singleton hu (by simp) fun x hx hemail =>
      congrArg UserRow.id (h x hx u hu (of_decide_eq_true hemail))
  unfold UserDb.userByEmail
  rw [hone]
  rfl

/-- The answer to a login with both fields. -/
def UserDb.tokenFor (d : UserDb) (crypto : Crypto J) (env : UserEnv) (username password : String) :
    Except UserError (Token J) := do
  match ← d.userByEmail username with
  | none => .error .credentials
  | some user =>
      if crypto.verify password user.passwordHash then
        let _ ← (UserWrite.addRefreshToken (newRefreshToken env user.id)).apply d
        return ⟨createAccessToken crypto env user.email, env.tokenUrlsafe, user⟩
      else .error .credentials

theorem exec_login (hemail : email ≠ "") (hpassword : password ≠ "") :
    (exec userStore (UserRoutes.login crypto env email password) [] d [] ()).value =
      d.tokenFor crypto env email password := by
  unfold UserRoutes.login UserDb.tokenFor
  rw [if_neg (by simp [hemail, hpassword])]
  change (exec userStore (((Prog.ofExcept (d.userByEmail email)).bind _).bind _) [] d [] ()).value = _
  cases d.userByEmail email with
  | error e => rfl
  | ok found =>
      cases found with
      | none => rfl
      | some user =>
          change (exec userStore (Prog.bind (if _ then _ else _) _) [] d [] ()).value =
            if _ then _ else _
          split
          · change (exec userStore (.commit _) [] d [.addRefreshToken _] ()).value = _
            cases hadd : (UserWrite.addRefreshToken (newRefreshToken env user.id)).apply d with
            | error e =>
                rw [exec_commit_error rfl (Store.applyAll_singleton.trans hadd)]
                rfl
            | ok d' =>
                rw [(exec_commit_ok rfl (Store.applyAll_singleton.trans hadd)).1]
                rfl
          · rfl

/-- Whoever is stored logs in with the password. -/
theorem logsIn_of_mem (h : d.UniqueEmails) (hfresh : d.Draws env) (hu : u ∈ d.users.rows)
    (hverify : crypto.verify password u.passwordHash) (hemail : u.email ≠ "")
    (hpassword : password ≠ "") : LogsIn crypto env d u.email password u.id := by
  have hadd := addRefreshToken_eq_ok (r := newRefreshToken env u.id)
    (Option.isSome_of_eq_some (Table.get_of_mem hu)) hfresh.2 hfresh.1
  refine ⟨⟨createAccessToken crypto env u.email, env.tokenUrlsafe, u⟩, ?_, rfl⟩
  rw [exec_login hemail hpassword, UserDb.tokenFor, h.userByEmail hu]
  show (if crypto.verify password u.passwordHash then _ else _) = _
  rw [if_pos hverify, hadd]
  rfl

/-- Whoever logs in is stored under that e-mail. -/
theorem mem_of_logsIn {userId : Uuid} (h : LogsIn crypto env d email password userId) :
    password ≠ "" ∧ ∃ u ∈ d.users.rows, u.email = email ∧ u.id = userId := by
  obtain ⟨token, hvalue, hid⟩ := h
  by_cases hfields : email = "" ∨ password = ""
  · unfold UserRoutes.login at hvalue
    rw [if_pos hfields] at hvalue
    contradiction
  · obtain ⟨hname, hpassword⟩ := not_or.mp hfields
    rw [exec_login hname hpassword] at hvalue
    obtain ⟨found, hfound, hrest⟩ := except_bind_eq_ok.mp hvalue
    cases found with
    | none => contradiction
    | some user =>
        obtain ⟨hmem, hemail⟩ := UserDb.mem_of_userByEmail hfound
        dsimp only at hrest
        split at hrest
        · obtain ⟨_, -, htoken⟩ := except_bind_eq_ok.mp hrest
          obtain rfl := Except.ok.inj htoken
          exact ⟨hpassword, user, hmem, hemail, hid⟩
        · contradiction

/-- The address is taken. -/
theorem createUser_again (h : d.UniqueEmails) (hu : u ∈ d.users.rows)
    (hvalid : emailStr.validate email = some u.email) (password : String) :
    (exec userStore (UserRoutes.createUser emailStr env email password) [] d [] ()).value =
      .error .userAlreadyExists := by
  unfold UserRoutes.createUser
  rw [hvalid]
  change (exec userStore (((Prog.ofExcept (d.userByEmail u.email)).bind _).bind _) [] d [] ()).value =
    _
  rw [h.userByEmail hu]
  rfl

/-- Who has registered with these two logs in with them, and nobody registers
with that text again. -/
structure StaysRegistered (emailStr : EmailStr) (crypto : Crypto J) (env : UserEnv) (d : UserDb)
    (email password : String) (userId : Uuid) : Prop where
  login : LogsIn crypto env d email password userId
  again : ∀ env' password',
    (exec userStore (UserRoutes.createUser emailStr env' email password') [] d [] ()).value =
      .error .userAlreadyExists

end

/-- **Whoever has registered can log in** with the same two texts, if and only if
`EmailStr` leaves the address as it is and the password is not empty. -/
theorem staysRegistered_iff {T : Type} [DecidableEq T] {requests : T → AccountRequest} {d₀ : UserDb}
    {s : AccountWorld J T} {evs : List (Event UserDb UserWrite T)} {t : T} {env : UserEnv}
    {email password : String} {read : UserRead} (hunique : d₀.UniqueEmails)
    (hrun : Run userStore Anything (AccountWorld.start emailStr crypto requests d₀) evs s)
    (hcall : (requests t).call = .register email password)
    (hended : s.ended t = some (.ok (.inl read)))
    (hverify : crypto.verify password ((requests t).env.passwordHash password))
    (hfresh : s.db.Draws env) :
    StaysRegistered emailStr crypto env s.db email password read.id ↔
      emailStr.validate email = some email ∧ password ≠ "" := by
  obtain ⟨hunique', haccounts⟩ := accounts_of_run hunique hrun
  obtain ⟨hid, e, hvalid, hmem⟩ := haccounts t email password read hcall hended
  constructor
  · rintro ⟨hlogin, -⟩
    obtain ⟨hpassword, u, hu, hemail, huserId⟩ := mem_of_logsIn hlogin
    have hsame : u = newUser (requests t).env e password :=
      s.db.users.eq_of_key hu hmem (huserId.trans hid)
    rw [hsame] at hemail
    exact ⟨hemail ▸ hvalid, hpassword⟩
  · rintro ⟨hplain, hpassword⟩
    obtain rfl : email = e := Option.some.inj (hplain.symm.trans hvalid)
    have hemail : email ≠ "" := by
      rintro rfl
      rw [emailStr.validate_empty] at hplain
      contradiction
    have hlogin := logsIn_of_mem hunique' hfresh hmem hverify hemail hpassword
    exact ⟨hid ▸ hlogin, fun _ password' => createUser_again hunique' hmem hvalid password'⟩

end

/-! ## One registration -/

/-- The domain in lower case. -/
def lowerDomain : EmailStr where
  validate email :=
    match email.toList.span (· ≠ '@') with
    | (_, []) => none
    | (name, domain) => some (String.ofList (name ++ domain.map Char.toLower))
  validate_empty := by decide

/-- Somebody registers. -/
def signingUp (email : String) (_ : Fin 1) : AccountRequest where
  call := .register email "secret"
  env := drawing "first" 1

/-- The registration has succeeded, and this is the only address. -/
def SignedUp (stored : String) (s : AccountWorld Claims (Fin 1)) : Bool :=
  match s.ended 0 with
  | some (.ok (.inl _)) =>
      s.db.users.rows.map UserRow.email = [stored] ∧ s.db.refreshTokens.rows = []
  | _ => false

theorem SignedUp.ended {stored : String} {s : AccountWorld Claims (Fin 1)} (h : SignedUp stored s) :
    (∃ read, s.ended 0 = some (.ok (.inl read))) ∧ s.db.users.rows.map UserRow.email = [stored] ∧
      s.db.refreshTokens.rows = [] := by
  unfold SignedUp at h
  split at h
  · next read hended => exact ⟨⟨read, hended⟩, of_decide_eq_true h⟩
  · contradiction

theorem uniqueEmails_empty : UserDb.empty.UniqueEmails :=
  fun _ hu => absurd hu List.not_mem_nil

theorem draws_of_no_tokens {d : UserDb} {env : UserEnv} (h : d.refreshTokens.rows = []) :
    d.Draws env := by
  refine ⟨Table.get_eq_none_iff.mpr ?_, ?_⟩
  · simp [h]
  · simp [h]

theorem staysRegistered_lower : ∃ evs s read,
    Run userStore Anything
      (AccountWorld.start lowerDomain plainCrypto (signingUp "Ann@example.com") UserDb.empty) evs s ∧
    s.ended 0 = some (.ok (.inl read)) ∧
    StaysRegistered lowerDomain plainCrypto (drawing "second" 7) s.db "Ann@example.com" "secret"
      read.id := by
  have hexec : ((AccountWorld.start lowerDomain plainCrypto (signingUp "Ann@example.com")
      UserDb.empty).exec userStore (fun _ _ => true) (turns [(0, 5)])).any
      (fun x => SignedUp "Ann@example.com" x.2) := by decide +kernel
  obtain ⟨evs, s, hrun, hend⟩ := Run.of_exec_any (fun _ _ _ => trivial) hexec
  obtain ⟨⟨read, hended⟩, -, htokens⟩ := SignedUp.ended hend
  exact ⟨evs, s, read, hrun, hended, (staysRegistered_iff uniqueEmails_empty hrun rfl hended (by decide)
    (draws_of_no_tokens htokens)).mpr (by decide)⟩

/-- The account is stored under another text than the one that the form brings. -/
theorem not_staysRegistered : ¬ ∀ (emailStr : EmailStr) (crypto : Crypto Claims)
    (requests : Fin 1 → AccountRequest) (evs : List (Event UserDb UserWrite (Fin 1)))
    (s : AccountWorld Claims (Fin 1)) (email password : String) (read : UserRead) (env : UserEnv),
    Run userStore Anything (AccountWorld.start emailStr crypto requests UserDb.empty) evs s →
    (requests 0).call = .register email password → s.ended 0 = some (.ok (.inl read)) →
    (∀ p, crypto.verify p ((requests 0).env.passwordHash p)) → s.db.Draws env →
    StaysRegistered emailStr crypto env s.db email password read.id := by
  intro hall
  have hexec : ((AccountWorld.start lowerDomain plainCrypto (signingUp "Ann@Example.com")
      UserDb.empty).exec userStore (fun _ _ => true) (turns [(0, 5)])).any
      (fun x => SignedUp "Ann@example.com" x.2) := by decide +kernel
  obtain ⟨evs, s, hrun, hend⟩ := Run.of_exec_any (fun _ _ _ => trivial) hexec
  obtain ⟨⟨read, hended⟩, hemails, htokens⟩ := SignedUp.ended hend
  obtain ⟨hlogin, -⟩ := hall _ _ _ evs s _ _ read (drawing "second" 7) hrun rfl hended
    (fun p => decide_eq_true rfl) (draws_of_no_tokens htokens)
  obtain ⟨-, u, hu, hemail, -⟩ := mem_of_logsIn hlogin
  have hstored : u.email ∈ s.db.users.rows.map UserRow.email := List.mem_map.mpr ⟨u, hu, rfl⟩
  rw [hemails, hemail] at hstored
  exact absurd hstored (by decide)

end FairDrop
