import FairDrop.Shared.RateLimit
import FairDrop.User.Service

/-!
# FairDrop.User.Logins

How often somebody may try a password.  The token endpoint asks the rate
limiter, with a bucket for each spelling of an email, before it compares
anything (`shared/rate_limit_utils.py`); an account is only ever found by the
spelling in its row.  The login of the admin panel does not ask.
-/

namespace FairDrop

open Redis RowStore

/-! ## Requests -/

def loginKey (email : String) : String := "rate_limit:login:" ++ email

def limitLoginAttempts (settings : AccountSettings) (email : String) (now : Int)
    (s : Redis.Store String) : Except RateLimitError Bool × Redis.Store String :=
  RateLimit.checkRateLimit [loginKey email] [settings.loginRateLimitAttempts]
    settings.loginRateLimitTtl now s

/-- The requests that verify a password.  A field of the admin panel's form that
is missing or not a text is `none`. -/
inductive LoginRequest where
  | authToken (username password : String)
  | adminLogin (username password : Option String)

/-- The email and the password that a request hands to `authenticate_user`, if
it gets that far. -/
def LoginRequest.attempt (settings : AccountSettings) (r : LoginRequest) (now : Int)
    (s : Redis.Store String) : Option (String × String) × Redis.Store String :=
  match r with
  | .authToken username password =>
      match limitLoginAttempts settings username now s with
      | (.ok _, s) => (some (username, password), s)
      | (.error _, s) => (none, s)
  | .adminLogin (some username) (some password) => (some (username, password), s)
  | .adminLogin _ _ => (none, s)

/-- The account with whose hash the attempt compares its password. -/
def comparedAccount {J : Type} (crypto : Crypto J) (attempt : Option (String × String))
    (faults : List Bool) (d : UserDb) : Option UserRow :=
  match attempt with
  | none => none
  | some (email, password) =>
      match (exec userStore (authenticateUser crypto email password) faults d [] ()).value with
      | .ok authentication => authentication.compared
      | .error _ => none

/-- Accounts are found by the email in their row. -/
theorem comparedAccount_email {J : Type} {crypto : Crypto J} {email password : String}
    {faults : List Bool} {d : UserDb} {a : UserRow}
    (h : comparedAccount crypto (some (email, password)) faults d = some a) : a.email = email := by
  simp only [comparedAccount] at h
  split at h
  · next authentication hvalue =>
      obtain ⟨user, huser, hrest⟩ := exec_ofExcept_bind (exec_select_bind hvalue)
      cases user with
      | none =>
          obtain rfl := Except.ok.inj hrest
          contradiction
      | some user =>
          have hcompared : authentication.compared = some user := by
            change (exec userStore (if _ then _ else _) _ _ _ _).value = _ at hrest
            split at hrest <;> exact (Except.ok.inj hrest) ▸ rfl
          obtain rfl : user = a := Option.some.inj (hcompared.symm.trans h)
          exact (UserDb.mem_of_userByEmail huser).2
  · contradiction

/-! ## The buckets -/

/-- The key of a dummy bucket. -/
def IsDummy (key : String) : Prop := "rate_limit:dummy:".toList <+: key.toList

instance (key : String) : Decidable (IsDummy key) := inferInstanceAs (Decidable (_ <+: _))

theorem isDummy_dummyKey (key : String) : IsDummy (dummyKey key) := by
  unfold IsDummy dummyKey
  rw [String.toList_append]
  exact List.prefix_append _ _

theorem not_isDummy_loginKey (email : String) : ¬ IsDummy (loginKey email) := by
  unfold IsDummy loginKey
  rw [String.toList_append]
  simp

/-- The buckets that logins are counted in. -/
def loginBuckets (settings : AccountSettings) (hlimit : 1 ≤ settings.loginRateLimitAttempts)
    (httl : 0 < settings.loginRateLimitTtl) : Buckets String where
  limit key := if IsDummy key then 999999999 else settings.loginRateLimitAttempts
  ttl _ := settings.loginRateLimitTtl
  limit_pos key := by split <;> omega
  ttl_pos _ := httl

/-! ## Runs -/

/-- A request at its moment, and the account whose hash it was compared with. -/
structure Guess where
  request : LoginRequest
  now : Int
  compared : Option UserRow

/-- Login requests one after the other, each handled in a moment, against these
users; whatever else the database holds may change between them. -/
inductive Logins {J : Type} (crypto : Crypto J) (settings : AccountSettings)
    (users : Table UserRow) : List Guess → Redis.Store String → Prop
  | nil : Logins crypto settings users [] .empty
  | snoc {hist s} (r : LoginRequest) (now : Int) (faults : List Bool) (d : UserDb) :
      Logins crypto settings users hist s → (∀ x ∈ hist, x.now ≤ now) → d.users = users →
      Logins crypto settings users
        (hist ++ [⟨r, now, comparedAccount crypto (r.attempt settings now s).1 faults d⟩])
        (r.attempt settings now s).2

/-- The hash of `a` was compared with in the interval that begins at `t`. -/
def Guess.Tries (settings : AccountSettings) (a : UserRow) (t : Int) (x : Guess) : Prop :=
  x.compared = some a ∧ t ≤ x.now ∧ x.now ≤ t + settings.loginRateLimitTtl

instance (settings : AccountSettings) (a : UserRow) (t : Int) (x : Guess) :
    Decidable (x.Tries settings a t) :=
  inferInstanceAs (Decidable (_ ∧ _))

/-- In no interval of the length of the window more than twice the limit of
passwords are tried for `a`. -/
def Throttled (settings : AccountSettings) (a : UserRow) (hist : List Guess) : Prop :=
  ∀ t, (hist.countP (·.Tries settings a t) : Int) ≤ 2 * settings.loginRateLimitAttempts

/-- The request does not name the email of `a` in the form of the admin panel. -/
def LoginRequest.AsksLimiter (a : UserRow) : LoginRequest → Prop
  | .authToken _ _ => True
  | .adminLogin username _ => username ≠ some a.email

section
variable {settings : AccountSettings} {s : Redis.Store String} {now : Int}

/-- The execution of the script that a login request makes. -/
def loginCall (settings : AccountSettings) (email : String) : ScriptCall String where
  userKey := loginKey email
  itemKey := dummyKey (loginKey email)
  userLimit := settings.loginRateLimitAttempts
  itemLimit := 999999999
  ttl := settings.loginRateLimitTtl

theorem loginCall_fits (hlimit : 1 ≤ settings.loginRateLimitAttempts)
    (httl : 0 < settings.loginRateLimitTtl) (email : String) :
    (loginCall settings email).Fits (loginBuckets settings hlimit httl) where
  distinct := by
    intro heq
    have hdummy : IsDummy (dummyKey (loginKey email)) := isDummy_dummyKey _
    rw [← show loginKey email = dummyKey (loginKey email) from heq] at hdummy
    exact not_isDummy_loginKey email hdummy
  userLimit := (if_neg (not_isDummy_loginKey email)).symm
  itemLimit := (if_pos (isDummy_dummyKey _)).symm
  userTtl := rfl
  itemTtl := rfl

/-- A request to the token endpoint goes on if and only if the script accepts it. -/
theorem attempt_authToken (username password : String) :
    (LoginRequest.authToken username password).attempt settings now s =
      (if (rateLimitScript (loginCall settings username) now s).1 = 1 then
        some (username, password) else none,
        (rateLimitScript (loginCall settings username) now s).2) := by
  have hlimiter : limitLoginAttempts settings username now s =
      if (rateLimitScript (loginCall settings username) now s).1 = 0 then
        (.error (.tooManyRequests userExceededLimit),
          (rateLimitScript (loginCall settings username) now s).2)
      else if (rateLimitScript (loginCall settings username) now s).1 = -1 then
        (.error (.tooManyRequests globalExceededLimit),
          (rateLimitScript (loginCall settings username) now s).2)
      else (.ok true, (rateLimitScript (loginCall settings username) now s).2) := rfl
  obtain hanswer | hanswer | hanswer : (rateLimitScript (loginCall settings username) now s).1 = 1 ∨
      (rateLimitScript (loginCall settings username) now s).1 = 0 ∨
      (rateLimitScript (loginCall settings username) now s).1 = -1 := rateLimitScript_answer
  all_goals
    rw [LoginRequest.attempt, hlimiter]
    simp [hanswer]

/-- A request to the admin panel does not touch the buckets. -/
theorem attempt_adminLogin (username password : Option String) :
    ((LoginRequest.adminLogin username password).attempt settings now s).2 = s := by
  cases username <;> cases password <;> rfl

variable {J : Type} {crypto : Crypto J} {users : Table UserRow} {hist : List Guess} {a : UserRow}

/-- Whoever is compared with `a` through the token endpoint was let through at
the bucket of `a`. -/
theorem accepted_of_compared {username password : String} {faults : List Bool} {d : UserDb}
    (h : comparedAccount crypto
      ((LoginRequest.authToken username password).attempt settings now s).1 faults d = some a) :
    (rateLimitScript (loginCall settings username) now s).1 = 1 ∧ username = a.email := by
  rw [attempt_authToken] at h
  split at h
  · next hacc => exact ⟨hacc, (comparedAccount_email h).symm⟩
  · contradiction

/-- The admin panel does not compare with `a` unless its email is in the form. -/
theorem compared_adminLogin {username password : Option String} {faults : List Bool} {d : UserDb}
    (hasks : (LoginRequest.adminLogin username password).AsksLimiter a) :
    comparedAccount crypto
      ((LoginRequest.adminLogin username password).attempt settings now s).1 faults d ≠ some a := by
  intro h
  cases username with
  | none => contradiction
  | some username =>
      cases password with
      | none => contradiction
      | some password =>
          have hemail := comparedAccount_email h
          exact hasks (congrArg some hemail.symm)

/-- Behind every guess at `a` stands a call that its bucket accepted. -/
theorem executions_of_logins (h : Logins crypto settings users hist s)
    (hasks : ∀ x ∈ hist, x.request.AsksLimiter a) :
    ∃ xs, Executions xs s ∧ (∀ x ∈ xs, ∃ email, x.call = loginCall settings email) ∧
      (∀ x ∈ xs, ∃ y ∈ hist, y.now = x.now) ∧
      ∀ t, hist.countP (·.Tries settings a t) ≤ xs.countP fun x =>
        x.Accepts (loginKey a.email) ∧ t ≤ x.now ∧ x.now ≤ t + settings.loginRateLimitTtl := by
  induction h with
  | nil => exact ⟨[], .nil, by simp, by simp, by simp⟩
  | @snoc hist s r now faults d hrun hmono husers ih =>
      obtain ⟨xs, hxs, hcalls, htimes, hcount⟩ := ih fun x hx => hasks x (by simp [hx])
      have hlast : r.AsksLimiter a := hasks _ (List.mem_append_right _ (List.mem_singleton.mpr rfl))
      cases r with
      | authToken username password =>
          have hmono' : ∀ x ∈ xs, x.now ≤ now := by
            intro x hx
            obtain ⟨y, hy, heq⟩ := htimes x hx
            exact heq ▸ hmono y hy
          rw [show ((LoginRequest.authToken username password).attempt settings now s).2 =
            (rateLimitScript (loginCall settings username) now s).2 by rw [attempt_authToken]]
          refine ⟨_, hxs.snoc (loginCall settings username) now hmono', ?_, ?_, ?_⟩
          · intro x hx
            cases List.mem_append.mp hx with
            | inl hold => exact hcalls x hold
            | inr hnew => exact ⟨username, by rw [List.mem_singleton.mp hnew]⟩
          · intro x hx
            cases List.mem_append.mp hx with
            | inl hold =>
                obtain ⟨y, hy, heq⟩ := htimes x hold
                exact ⟨y, by simp [hy], heq⟩
            | inr hnew =>
                rw [List.mem_singleton.mp hnew]
                exact ⟨_, List.mem_append_right _ (List.mem_singleton.mpr rfl), rfl⟩
          · intro t
            rw [List.countP_append, List.countP_append, List.countP_singleton, List.countP_singleton]
            have hold := hcount t
            split
            · next htries =>
                obtain ⟨hcompared, hinterval⟩ := of_decide_eq_true htries
                obtain ⟨hacc, rfl⟩ := accepted_of_compared hcompared
                rw [if_pos (decide_eq_true ⟨⟨hacc, .inl rfl⟩, hinterval⟩)]
                omega
            · omega
      | adminLogin username password =>
          rw [attempt_adminLogin]
          refine ⟨xs, hxs, hcalls, ?_, ?_⟩
          · intro x hx
            obtain ⟨y, hy, heq⟩ := htimes x hx
            exact ⟨y, by simp [hy], heq⟩
          · intro t
            rw [List.countP_append, List.countP_singleton, if_neg]
            · exact hcount t
            · intro htries
              exact compared_adminLogin hlast (of_decide_eq_true htries).1

/-- **Password guessing is throttled** in every run in which nobody tries the
account through the admin panel. -/
theorem throttled_of_asks (hlimit : 1 ≤ settings.loginRateLimitAttempts)
    (httl : 0 < settings.loginRateLimitTtl) (h : Logins crypto settings users hist s)
    (hasks : ∀ x ∈ hist, x.request.AsksLimiter a) : Throttled settings a hist := by
  obtain ⟨xs, hxs, hcalls, _, hcount⟩ := executions_of_logins h hasks
  have hfits : ∀ x ∈ xs, x.call.Fits (loginBuckets settings hlimit httl) := by
    intro x hx
    obtain ⟨email, hcall⟩ := hcalls x hx
    rw [hcall]
    exact loginCall_fits hlimit httl email
  intro t
  have hbound := countP_le_two_limits hxs hfits (loginKey a.email) t
  have hkey : (loginBuckets settings hlimit httl).limit (loginKey a.email) =
      settings.loginRateLimitAttempts := if_neg (not_isDummy_loginKey a.email)
  rw [hkey] at hbound
  have hle := hcount t
  change (List.countP (fun x => x.Accepts (loginKey a.email) ∧ t ≤ x.now ∧
    x.now ≤ t + settings.loginRateLimitTtl) xs : Int) ≤ _ at hbound
  omega

end

/-! ## Guessing at an administrator -/

/-- Hashes that are the passwords, and tokens that are their payloads. -/
def plainCrypto : Crypto Claims where
  verify password hash := password = hash
  encode := id
  decode now claims := if now ≤ claims.exp then some claims else none

def sevenAMinute : AccountSettings where
  accessTokenExpireMinutes := 15
  refreshTokenExpireDays := 7
  loginRateLimitAttempts := 7
  loginRateLimitTtl := 60

/-- Surroundings that draw this token. -/
def drawing (token : String) (firstId : Uuid) : UserEnv where
  now := 0
  uuid k := firstId + k
  tokenUrlsafe := token
  passwordHash := id
  settings := sevenAMinute

def administrator : UserRow where
  id := 1
  email := "admin@example.com"
  passwordHash := "secret"
  isActive := true
  isVerified := true
  role := .admin

def oneUser : UserDb := { UserDb.empty with users := Table.empty.insert administrator rfl }

/-- The same request at these times, the latest one first. -/
def guessesAt (r : LoginRequest) : List Int → List Guess × Redis.Store String
  | [] => ([], .empty)
  | now :: earlier =>
      let (hist, s) := guessesAt r earlier
      let (attempt, s') := r.attempt sevenAMinute now s
      (hist ++ [⟨r, now, comparedAccount plainCrypto attempt [] oneUser⟩], s')

theorem logins_guessesAt (r : LoginRequest) {times : List Int} (h : times.Pairwise (· ≥ ·)) :
    Logins plainCrypto sevenAMinute oneUser.users (guessesAt r times).1 (guessesAt r times).2 ∧
      ∀ x ∈ (guessesAt r times).1, x.request = r ∧ x.now ∈ times := by
  induction times with
  | nil => exact ⟨.nil, by simp [guessesAt]⟩
  | cons now earlier ih =>
      obtain ⟨hlatest, hrest⟩ := List.pairwise_cons.mp h
      obtain ⟨hrun, hall⟩ := ih hrest
      refine ⟨hrun.snoc r now [] oneUser (fun x hx => hlatest _ (hall x hx).2) rfl, fun x hx => ?_⟩
      cases List.mem_append.mp hx with
      | inl hold => exact ⟨(hall x hold).1, List.mem_cons_of_mem _ (hall x hold).2⟩
      | inr hnew =>
          obtain rfl := List.mem_singleton.mp hnew
          exact ⟨rfl, List.mem_cons_self⟩

/-- Fifteen tries in one moment. -/
def fifteenTimes : List Int := List.replicate 15 0

theorem fifteenTimes_sorted : fifteenTimes.Pairwise (· ≥ ·) := by decide

def tokenGuess : LoginRequest := .authToken administrator.email "guess"

theorem throttled_tokenGuess :
    Throttled sevenAMinute administrator (guessesAt tokenGuess fifteenTimes).1 ∧
    (guessesAt tokenGuess fifteenTimes).1.countP (·.Tries sevenAMinute administrator 0) = 7 := by
  obtain ⟨hrun, hall⟩ := logins_guessesAt tokenGuess fifteenTimes_sorted
  refine ⟨throttled_of_asks (by decide) (by decide) hrun fun x hx => ?_, by decide +kernel⟩
  rw [(hall x hx).1]
  trivial

def adminGuess : LoginRequest := .adminLogin (some administrator.email) (some "guess")

/-- The admin panel compares with every guess. -/
theorem not_throttled : Logins plainCrypto sevenAMinute oneUser.users
      (guessesAt adminGuess fifteenTimes).1 (guessesAt adminGuess fifteenTimes).2 ∧
    ¬ Throttled sevenAMinute administrator (guessesAt adminGuess fifteenTimes).1 := by
  refine ⟨(logins_guessesAt adminGuess fifteenTimes_sorted).1, fun h => ?_⟩
  have hmany : (guessesAt adminGuess fifteenTimes).1.countP
      (·.Tries sevenAMinute administrator 0) = 15 := by decide +kernel
  have hbound := h 0
  rw [hmany] at hbound
  contradiction

end FairDrop
