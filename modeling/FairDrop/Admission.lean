import FairDrop.Throttling
import Mathlib.Data.List.Perm.Subperm

/-!
# FairDrop.Admission

How many the limiter lets in, and why it turns the others away.  All who ask it
share one Redis, but not their keys: the start of a key tells who counts there
(`limiterBuckets`), so the executions of the script that the server makes
(`Recorded`) are those that `rate_limit_windows` is about.
-/

namespace FairDrop

open RowStore

/-! ## The counters -/

def reservationCall (settings : LimiterSettings) (userId productId : Uuid) : ScriptCall String where
  userKey := userKey userId
  itemKey := itemKey productId
  userLimit := settings.rateLimitUserRps
  itemLimit := settings.rateLimitGlobalRps
  ttl := settings.rateLimitTtlSeconds

def Guest.call (settings : LimiterSettings) : Guest → ScriptCall String
  | .login email => loginCall settings.toAccountSettings email
  | .signup remoteIp =>
      { userKey := signupKey remoteIp
        itemKey := dummyKey (signupKey remoteIp)
        userLimit := settings.signupRateLimitAttempts
        itemLimit := 999999999
        ttl := settings.signupRateLimitTtl }

/-- What `check_rate_limit` makes of an answer of the script. -/
def scriptAnswer (result : Int) : Except RateLimitError Bool :=
  if result = 0 then .error (.tooManyRequests userExceededLimit)
  else if result = -1 then .error (.tooManyRequests globalExceededLimit)
  else .ok true

/-- The script's answer is the result of the limiter, with its errors as responses. -/
theorem mapError_scriptAnswer (result : Int) :
    (scriptAnswer result).mapError RateLimitError.raised = checkRateLimit result := by
  unfold scriptAnswer checkRateLimit
  split
  · rfl
  · split <;> rfl

/-- The limiter's tests on the script's number are its answer. -/
theorem scriptAnswer_eq (x : Int × Redis.Store String) :
    (if x.1 = 0 then (.error (.tooManyRequests userExceededLimit), x.2)
      else if x.1 = -1 then (.error (.tooManyRequests globalExceededLimit), x.2)
      else (.ok true, x.2)) = (scriptAnswer x.1, x.2) := by
  unfold scriptAnswer
  split
  · rfl
  · split <;> rfl

/-- The reservations' limiter is one run of the script on the caller's buckets. -/
theorem limitReservations_eq (settings : LimiterSettings) (userId productId : Uuid) (now : Int)
    (s : Redis.Store String) : limitReservations settings userId productId now s =
      (scriptAnswer (rateLimitScript (reservationCall settings userId productId) now s).1,
        (rateLimitScript (reservationCall settings userId productId) now s).2) :=
  scriptAnswer_eq (rateLimitScript (reservationCall settings userId productId) now s)

/-- Asking as a guest leaves the keys as one run of the script. -/
theorem Guest.check_keys (settings : LimiterSettings) (now : Int) (s : Redis.Store String)
    (guest : Guest) : (guest.check settings now s).2 =
      (rateLimitScript (guest.call settings) now s).2 := by
  have hanswer := congrArg Prod.snd (scriptAnswer_eq (rateLimitScript (guest.call settings) now s))
  cases guest <;> exact hanswer

/-- Limits and times that are of use. -/
structure LimiterSettings.Positive (settings : LimiterSettings) : Prop where
  user : 1 ≤ settings.rateLimitUserRps
  item : 1 ≤ settings.rateLimitGlobalRps
  ttl : 0 < settings.rateLimitTtlSeconds
  login : 1 ≤ settings.loginRateLimitAttempts
  loginTtl : 0 < settings.loginRateLimitTtl
  signup : 1 ≤ settings.signupRateLimitAttempts
  signupTtl : 0 < settings.signupRateLimitTtl

def StartsAs (start key : String) : Prop := start.toList <+: key.toList

instance (start key : String) : Decidable (StartsAs start key) :=
  inferInstanceAs (Decidable (_ <+: _))

/-- A key starts as its own prefix. -/
theorem startsAs_self (start rest : String) : StartsAs start (start ++ rest) := by
  rw [StartsAs, String.toList_append]
  exact List.prefix_append _ _

/-- The start of a key is decided by the part that is known. -/
theorem not_startsAs {start key : String} (rest : String)
    (h : ¬ StartsAs start key ∧ ¬ StartsAs key start) : ¬ StartsAs start (key ++ rest) := by
  rw [StartsAs, String.toList_append]
  intro hstart
  cases List.prefix_or_prefix_of_prefix hstart (List.prefix_append _ _) with
  | inl hkey => exact h.1 hkey
  | inr hkey => exact h.2 hkey

/-- The dummy key of a prefixed key is prefixed itself. -/
theorem dummyKey_append (start rest : String) : dummyKey (start ++ rest) = dummyKey start ++ rest :=
  String.append_assoc.symm

/-- Keys that start differently are different. -/
theorem ne_of_startsAs (start : String) {key key' : String} (h : StartsAs start key)
    (h' : ¬ StartsAs start key') : key ≠ key' := by
  rintro rfl
  exact h' h

/-- The buckets of all who ask the limiter: the start of a key tells them apart. -/
def limiterBuckets (settings : LimiterSettings) (hpos : settings.Positive) : Buckets String where
  limit key :=
    if StartsAs "rate_limit:user:" key then settings.rateLimitUserRps
    else if StartsAs "rate_limit:item:" key then settings.rateLimitGlobalRps
    else if StartsAs "rate_limit:login:" key then settings.loginRateLimitAttempts
    else if StartsAs "rate_limit:signup:" key then settings.signupRateLimitAttempts
    else 999999999
  ttl key :=
    if StartsAs "rate_limit:user:" key ∨ StartsAs "rate_limit:item:" key then
      settings.rateLimitTtlSeconds
    else if StartsAs "rate_limit:login:" key ∨ StartsAs (dummyKey "rate_limit:login:") key then
      settings.loginRateLimitTtl
    else settings.signupRateLimitTtl
  limit_pos key := by
    obtain ⟨huser, hitem, _, hlogin, _, hsignup, _⟩ := hpos
    split
    · exact huser
    · split
      · exact hitem
      · split
        · exact hlogin
        · split
          · exact hsignup
          · decide
  ttl_pos key := by
    obtain ⟨_, _, httl, _, hlogin, _, hsignup⟩ := hpos
    split
    · exact httl
    · split
      · exact hlogin
      · exact hsignup

section
variable {settings : LimiterSettings} (hpos : settings.Positive)

/-- The limit and lifetime of a user's bucket. -/
theorem limiterBuckets_userKey (id : Uuid) :
    (limiterBuckets settings hpos).limit (userKey id) = settings.rateLimitUserRps ∧
      (limiterBuckets settings hpos).ttl (userKey id) = settings.rateLimitTtlSeconds := by
  have huser : StartsAs "rate_limit:user:" (userKey id) := startsAs_self _ _
  simp [limiterBuckets, huser]

/-- The limit and lifetime of a product's bucket. -/
theorem limiterBuckets_itemKey (id : Uuid) :
    (limiterBuckets settings hpos).limit (itemKey id) = settings.rateLimitGlobalRps ∧
      (limiterBuckets settings hpos).ttl (itemKey id) = settings.rateLimitTtlSeconds := by
  have hitem : StartsAs "rate_limit:item:" (itemKey id) := startsAs_self _ _
  have huser : ¬ StartsAs "rate_limit:user:" (itemKey id) := not_startsAs _ (by decide)
  simp [limiterBuckets, huser, hitem]

/-- The limit and lifetime of an e-mail's login bucket. -/
theorem limiterBuckets_loginKey (email : String) :
    (limiterBuckets settings hpos).limit (loginKey email) = settings.loginRateLimitAttempts ∧
      (limiterBuckets settings hpos).ttl (loginKey email) = settings.loginRateLimitTtl := by
  have hlogin : StartsAs "rate_limit:login:" (loginKey email) := startsAs_self _ _
  have huser : ¬ StartsAs "rate_limit:user:" (loginKey email) := not_startsAs _ (by decide)
  have hitem : ¬ StartsAs "rate_limit:item:" (loginKey email) := not_startsAs _ (by decide)
  simp [limiterBuckets, huser, hitem, hlogin]

/-- The limit and lifetime of an address's signup bucket. -/
theorem limiterBuckets_signupKey (remoteIp : String) :
    (limiterBuckets settings hpos).limit (signupKey remoteIp) = settings.signupRateLimitAttempts ∧
      (limiterBuckets settings hpos).ttl (signupKey remoteIp) = settings.signupRateLimitTtl := by
  have hsignup : StartsAs "rate_limit:signup:" (signupKey remoteIp) := startsAs_self _ _
  have huser : ¬ StartsAs "rate_limit:user:" (signupKey remoteIp) := not_startsAs _ (by decide)
  have hitem : ¬ StartsAs "rate_limit:item:" (signupKey remoteIp) := not_startsAs _ (by decide)
  have hlogin : ¬ StartsAs "rate_limit:login:" (signupKey remoteIp) := not_startsAs _ (by decide)
  have hdummy : ¬ StartsAs (dummyKey "rate_limit:login:") (signupKey remoteIp) :=
    not_startsAs _ (by decide)
  simp [limiterBuckets, huser, hitem, hlogin, hsignup, hdummy]

/-- A dummy bucket never runs full. -/
theorem limiterBuckets_dummyKey (key : String) :
    (limiterBuckets settings hpos).limit (dummyKey key) = 999999999 := by
  have huser : ¬ StartsAs "rate_limit:user:" (dummyKey key) := not_startsAs _ (by decide)
  have hitem : ¬ StartsAs "rate_limit:item:" (dummyKey key) := not_startsAs _ (by decide)
  have hlogin : ¬ StartsAs "rate_limit:login:" (dummyKey key) := not_startsAs _ (by decide)
  have hsignup : ¬ StartsAs "rate_limit:signup:" (dummyKey key) := not_startsAs _ (by decide)
  simp [limiterBuckets, huser, hitem, hlogin, hsignup]

/-- A login's dummy bucket lives as long as its bucket. -/
theorem limiterBuckets_dummyLogin (email : String) :
    (limiterBuckets settings hpos).ttl (dummyKey (loginKey email)) = settings.loginRateLimitTtl := by
  have huser : ¬ StartsAs "rate_limit:user:" (dummyKey (loginKey email)) := not_startsAs _ (by decide)
  have hitem : ¬ StartsAs "rate_limit:item:" (dummyKey (loginKey email)) := not_startsAs _ (by decide)
  have hdummy : StartsAs (dummyKey "rate_limit:login:") (dummyKey (loginKey email)) :=
    dummyKey_append "rate_limit:login:" email ▸ startsAs_self _ _
  simp [limiterBuckets, huser, hitem, hdummy]

/-- A signup's dummy bucket lives as long as its bucket. -/
theorem limiterBuckets_dummySignup (remoteIp : String) :
    (limiterBuckets settings hpos).ttl (dummyKey (signupKey remoteIp)) =
      settings.signupRateLimitTtl := by
  have huser : ¬ StartsAs "rate_limit:user:" (dummyKey (signupKey remoteIp)) :=
    not_startsAs _ (by decide)
  have hitem : ¬ StartsAs "rate_limit:item:" (dummyKey (signupKey remoteIp)) :=
    not_startsAs _ (by decide)
  have hlogin : ¬ StartsAs "rate_limit:login:" (dummyKey (signupKey remoteIp)) :=
    not_startsAs _ (by decide)
  have hdummy : ¬ StartsAs (dummyKey "rate_limit:login:") (dummyKey (signupKey remoteIp)) :=
    dummyKey_append "rate_limit:signup:" remoteIp ▸ not_startsAs remoteIp (by decide)
  simp [limiterBuckets, huser, hitem, hlogin, hdummy]

/-- A reservation's run of the script is on two different buckets with their own limits. -/
theorem reservationCall_fits (userId productId : Uuid) :
    (reservationCall settings userId productId).Fits (limiterBuckets settings hpos) where
  distinct := ne_of_startsAs "rate_limit:user:" (startsAs_self _ _) (not_startsAs _ (by decide))
  userLimit := (limiterBuckets_userKey hpos userId).1.symm
  itemLimit := (limiterBuckets_itemKey hpos productId).1.symm
  userTtl := (limiterBuckets_userKey hpos userId).2.symm
  itemTtl := (limiterBuckets_itemKey hpos productId).2.symm

/-- A guest's run of the script is on two different buckets with their own limits. -/
theorem Guest.call_fits (guest : Guest) :
    (guest.call settings).Fits (limiterBuckets settings hpos) := by
  cases guest with
  | login email => exact {
      distinct := ne_of_startsAs "rate_limit:login:" (startsAs_self _ _) (not_startsAs _ (by decide))
      userLimit := (limiterBuckets_loginKey hpos email).1.symm
      itemLimit := (limiterBuckets_dummyKey hpos _).symm
      userTtl := (limiterBuckets_loginKey hpos email).2.symm
      itemTtl := (limiterBuckets_dummyLogin hpos email).symm }
  | signup remoteIp => exact {
      distinct := ne_of_startsAs "rate_limit:signup:" (startsAs_self _ _) (not_startsAs _ (by decide))
      userLimit := (limiterBuckets_signupKey hpos remoteIp).1.symm
      itemLimit := (limiterBuckets_dummyKey hpos _).symm
      userTtl := (limiterBuckets_signupKey hpos remoteIp).2.symm
      itemTtl := (limiterBuckets_dummySignup hpos remoteIp).symm }

end

/-! ## What the limiter has counted -/

section
variable {T : Type} {parse : String → Option Uuid} {settings : LimiterSettings}
  {clients : T → Client parse} {g : Gated T} {hist : List (Option T × Execution String)}

/-- The executions of the script: one for each client that has been answered,
and those of the guests. -/
structure Recorded (settings : LimiterSettings) (clients : T → Client parse) (g : Gated T)
    (hist : List (Option T × Execution String)) : Prop where
  executions : Executions (hist.map Prod.snd) g.keys
  now : ∀ x ∈ hist, x.2.now ≤ g.now
  once : (hist.filterMap Prod.fst).Nodup
  guest : ∀ x, (none, x) ∈ hist → ∃ guest : Guest, x.call = guest.call settings
  asked : ∀ t x, (some t, x) ∈ hist → ∃ userId productId,
    (clients t).reserves = some (userId, productId) ∧
      x.call = reservationCall settings userId productId ∧
        g.answers t = some (x.now, scriptAnswer x.result)
  answered : ∀ t y, g.answers t = some y → ∃ x, (some t, x) ∈ hist

/-- The execution of a call at a later moment. -/
theorem Recorded.snoc (h : Recorded settings clients g hist) (c : ScriptCall String) (elapsed : Nat) :
    Executions ((hist.map Prod.snd) ++
      [⟨c, g.now + elapsed, (rateLimitScript c (g.now + elapsed) g.keys).1⟩])
      (rateLimitScript c (g.now + elapsed) g.keys).2 := by
  refine h.executions.snoc c (g.now + elapsed) fun x hx => ?_
  obtain ⟨y, hy, rfl⟩ := List.mem_map.mp hx
  have hle := h.now y hy
  omega

/-- A guest's visit is one more recorded run of the script. -/
theorem Recorded.visit (h : Recorded settings clients g hist) (guest : Nat × Guest) :
    ∃ x, Recorded settings clients (g.visit settings guest) (hist ++ [(none, x)]) := by
  obtain ⟨elapsed, guest⟩ := guest
  have hexec := h.snoc (guest.call settings) elapsed
  refine ⟨⟨guest.call settings, g.now + elapsed,
    (rateLimitScript (guest.call settings) (g.now + elapsed) g.keys).1⟩, ?_⟩
  constructor
  case executions =>
    rw [List.map_append, Gated.visit, Guest.check_keys]
    exact hexec
  case now =>
    intro x hx
    cases List.mem_append.mp hx with
    | inl hold =>
        have hle := h.now x hold
        simp only [Gated.visit]
        omega
    | inr hnew =>
        obtain rfl := List.mem_singleton.mp hnew
        exact Int.le_refl _
  case once => simpa using h.once
  case guest =>
    intro x hx
    cases List.mem_append.mp hx with
    | inl hold => exact h.guest x hold
    | inr hnew =>
        cases List.mem_singleton.mp hnew
        exact ⟨guest, rfl⟩
  case asked =>
    intro t x hx
    cases List.mem_append.mp hx with
    | inl hold => exact h.asked t x hold
    | inr hnew => cases List.mem_singleton.mp hnew
  case answered =>
    intro t y hy
    obtain ⟨x, hx⟩ := h.answered t y hy
    exact ⟨x, List.mem_append_left _ hx⟩

/-- The visits of any number of guests are recorded. -/
theorem Recorded.foldl_visit (h : Recorded settings clients g hist) (guests : List (Nat × Guest)) :
    ∃ hist', Recorded settings clients (guests.foldl (·.visit settings) g) hist' := by
  induction guests generalizing g hist with
  | nil => exact ⟨hist, h⟩
  | cons guest guests ih =>
      obtain ⟨x, hx⟩ := h.visit guest
      exact ih hx

/-- Calls that `P` holds of the executions of. -/
theorem length_le_countP {ts : List T} (hnodup : ts.Nodup) {P : Execution String → Prop}
    [DecidablePred P] (h : ∀ t ∈ ts, ∃ x, (some t, x) ∈ hist ∧ P x) :
    ts.length ≤ (hist.map Prod.snd).countP P := by
  have hsub : ts ⊆ (hist.filter fun x => P x.2).filterMap Prod.fst := by
    intro t ht
    obtain ⟨x, hx, hP⟩ := h t ht
    exact List.mem_filterMap.mpr ⟨(some t, x), List.mem_filter.mpr ⟨hx, decide_eq_true hP⟩, rfl⟩
  calc
    ts.length ≤ ((hist.filter fun x => P x.2).filterMap Prod.fst).length :=
      (hnodup.subperm hsub).length_le
    _ ≤ (hist.filter fun x => P x.2).length := List.length_filterMap_le _ _
    _ = (hist.map Prod.snd).countP P := by
      rw [List.countP_map, List.countP_eq_length_filter]
      rfl

/-- The client is counted under this key. -/
def Client.CountedAt (c : Client parse) (key : String) : Prop :=
  ∃ userId productId, c.reserves = some (userId, productId) ∧
    (userKey userId = key ∨ itemKey productId = key)

/-- A key of the reservations. -/
def IsReservationKey (key : String) : Prop :=
  StartsAs "rate_limit:user:" key ∨ StartsAs "rate_limit:item:" key

/-- A reservation's key differs from the keys with another prefix. -/
theorem IsReservationKey.ne {start key : String} (h : IsReservationKey key) (rest : String)
    (hother : ∀ kind ∈ ["rate_limit:user:", "rate_limit:item:"],
      ¬ StartsAs kind start ∧ ¬ StartsAs start kind) : start ++ rest ≠ key := by
  cases h with
  | inl huser => exact (ne_of_startsAs _ huser (not_startsAs rest (hother _ (by simp)))).symm
  | inr hitem => exact (ne_of_startsAs _ hitem (not_startsAs rest (hother _ (by simp)))).symm

/-- No guest uses a reservation's key. -/
theorem Guest.call_ne (guest : Guest) {key : String} (h : IsReservationKey key) :
    (guest.call settings).userKey ≠ key ∧ (guest.call settings).itemKey ≠ key := by
  cases guest with
  | login email => exact ⟨h.ne email (by decide), h.ne _ (by decide)⟩
  | signup remoteIp => exact ⟨h.ne remoteIp (by decide), h.ne _ (by decide)⟩

/-- Every recorded run of the script is on buckets with their own limits. -/
theorem Recorded.fits (h : Recorded settings clients g hist) (hpos : settings.Positive) :
    ∀ x ∈ hist.map Prod.snd, x.call.Fits (limiterBuckets settings hpos) := by
  intro x hx
  obtain ⟨⟨who, x⟩, hmem, rfl⟩ := List.mem_map.mp hx
  cases who with
  | none =>
      obtain ⟨guest, hcall⟩ := h.guest x hmem
      exact hcall ▸ guest.call_fits hpos
  | some t =>
      obtain ⟨userId, productId, _, hcall, _⟩ := h.asked t x hmem
      exact hcall ▸ reservationCall_fits hpos userId productId

/-- Who is let in has been accepted. -/
theorem Recorded.accepted (h : Recorded settings clients g hist) {t : T} {now : Int} {b : Bool}
    (hanswer : g.answers t = some (now, .ok b)) :
    ∃ x, (some t, x) ∈ hist ∧ x.now = now ∧ x.result = 1 ∧ b = true := by
  obtain ⟨x, hx⟩ := h.answered t _ hanswer
  obtain ⟨_, _, _, _, hown⟩ := h.asked t x hx
  obtain ⟨rfl, hscript⟩ := Prod.mk.inj (Option.some.inj (hown.symm.trans hanswer))
  obtain ⟨before, post, hsplit⟩ := List.append_of_mem (List.mem_map_of_mem (f := Prod.snd) hx)
  obtain ⟨s₀, _, _, hresult⟩ := Executions.split (hsplit ▸ h.executions)
  have hvalues : x.result = 1 ∨ x.result = 0 ∨ x.result = -1 := hresult ▸ rateLimitScript_answer
  obtain hone | hzero | hminus := hvalues
  · rw [hone] at hscript
    exact ⟨x, hx, rfl, hone, (Except.ok.inj hscript).symm⟩
  · simp [hzero, scriptAnswer] at hscript
  · simp [hminus, scriptAnswer] at hscript

/-- The limiter has let the client in between `a` and `b`. -/
def Gated.LetIn (g : Gated T) (a b : Int) (t : T) : Prop :=
  ∃ now, g.answers t = some (now, .ok true) ∧ a ≤ now ∧ now ≤ b

/-- No bucket lets in more than twice its limit in an interval of its time. -/
theorem Recorded.length_le (h : Recorded settings clients g hist) (hpos : settings.Positive)
    (key : String) (a : Int) {ts : List T} (hnodup : ts.Nodup)
    (hts : ∀ t ∈ ts, (clients t).CountedAt key ∧
      g.LetIn a (a + (limiterBuckets settings hpos).ttl key) t) :
    (ts.length : Int) ≤ 2 * (limiterBuckets settings hpos).limit key := by
  have hexec : ∀ t ∈ ts, ∃ x, (some t, x) ∈ hist ∧ x.Accepts key ∧ a ≤ x.now ∧
      x.now ≤ a + (limiterBuckets settings hpos).ttl key := by
    intro t ht
    obtain ⟨⟨userId, productId, hreserves, hkey⟩, now, hanswer, ha, hb⟩ := hts t ht
    obtain ⟨x, hx, rfl, hone, -⟩ := h.accepted hanswer
    obtain ⟨userId', productId', hreserves', hcall, -⟩ := h.asked t x hx
    obtain ⟨rfl, rfl⟩ := Prod.mk.inj (Option.some.inj (hreserves.symm.trans hreserves'))
    exact ⟨x, hx, ⟨hone, hcall ▸ hkey⟩, ha, hb⟩
  have hcount := length_le_countP hnodup hexec
  have hbound := countP_le_two_limits h.executions (h.fits hpos) key a
  omega

/-- The clients that a bucket of the reservations has counted at some times. -/
theorem Recorded.exists_counted (h : Recorded settings clients g hist) {key : String}
    (hkey : IsReservationKey key) (a b : Int) :
    ∃ ts : List T, ts.Nodup ∧ (∀ t ∈ ts, (clients t).CountedAt key ∧ g.LetIn a b t) ∧
      ts.length = (hist.map Prod.snd).countP fun x => x.Accepts key ∧ a ≤ x.now ∧ x.now ≤ b := by
  let counted := hist.filter fun x => x.2.Accepts key ∧ a ≤ x.2.now ∧ x.2.now ≤ b
  have hcounted : ∀ x ∈ counted, x ∈ hist ∧ x.2.Accepts key ∧ a ≤ x.2.now ∧ x.2.now ≤ b := by
    intro x hx
    obtain ⟨hmem, hcond⟩ := List.mem_filter.mp hx
    exact ⟨hmem, of_decide_eq_true hcond⟩
  refine ⟨counted.filterMap Prod.fst, h.once.sublist (List.filter_sublist.filterMap _), ?_, ?_⟩
  · intro t ht
    obtain ⟨⟨_, x⟩, hx, rfl⟩ := List.mem_filterMap.mp ht
    obtain ⟨hmem, ⟨hone, hnames⟩, ha, hb⟩ := hcounted _ hx
    obtain ⟨userId, productId, hreserves, hcall, hanswer⟩ := h.asked t x hmem
    dsimp only at hone hnames
    rw [hone] at hanswer
    rw [hcall] at hnames
    exact ⟨⟨userId, productId, hreserves, hnames⟩, x.now, hanswer, ha, hb⟩
  · have hlength : (hist.map Prod.snd).countP (fun x => x.Accepts key ∧ a ≤ x.now ∧ x.now ≤ b) =
        counted.length := by
      rw [List.countP_map, List.countP_eq_length_filter]
      rfl
    rw [hlength, List.length_filterMap_eq_countP, List.countP_eq_length]
    rintro ⟨who, x⟩ hx
    obtain ⟨hmem, ⟨_, hnames⟩, _⟩ := hcounted _ hx
    cases who with
    | some t => rfl
    | none =>
        obtain ⟨guest, hcall⟩ := h.guest x hmem
        dsimp only at hnames
        rw [hcall] at hnames
        cases hnames with
        | inl huser => exact absurd huser (guest.call_ne hkey).1
        | inr hitem => exact absurd hitem (guest.call_ne hkey).2

/-- Clients that have the answers of the limiter with them; who has not been let
in is turned away. -/
theorem Recorded.exists_told (h : Recorded settings clients g hist) :
    ∃ clients' : T → Client parse, Told clients clients' g.answers ∧
      ∀ t x, (clients' t).checkLimit = .ok x → (clients t).gate (g.answers t) = .opened := by
  have hlimit : ∀ t, ∃ limit, (∀ e, (clients t).gate (g.answers t) = .closed e →
      ((clients t).withLimit limit).checkLimit = .error e.raised) ∧
        ((clients t).gate (g.answers t) = .opened ↔
          ∃ x, ((clients t).withLimit limit).checkLimit = .ok x) := by
    intro t
    cases hreserves : (clients t).reserves with
    | none => exact ⟨0, by simp [Client.gate, Client.checkLimit_withLimit, hreserves]⟩
    | some r =>
        cases hanswer : g.answers t with
        | none => exact ⟨0, by simp [Client.gate, Client.checkLimit_withLimit, hreserves, checkRateLimit]⟩
        | some y =>
            obtain ⟨x, hx⟩ := h.answered t y hanswer
            obtain ⟨_, _, _, _, hown⟩ := h.asked t x hx
            obtain rfl := Option.some.inj (hanswer.symm.trans hown)
            refine ⟨x.result, ?_⟩
            rw [Client.checkLimit_withLimit, hreserves, Option.isSome_some, if_pos rfl,
              ← mapError_scriptAnswer]
            cases hscript : scriptAnswer x.result with
            | ok b => simp [Client.gate, hreserves, Except.mapError]
            | error e => simp [Client.gate, hreserves, Except.mapError]
  choose limit hclosed hopened using hlimit
  exact ⟨fun t => (clients t).withLimit (limit t), ⟨fun t => ⟨limit t, rfl⟩, hclosed,
    fun t ht => (hopened t).mp ht⟩, fun t x hx => (hopened t).mpr ⟨x, hx⟩⟩

variable [DecidableEq T]

/-- A request's question to the limiter is one more recorded run, under the request's name. -/
theorem Recorded.ask (h : Recorded settings clients g hist) {t : T} {userId productId : Uuid}
    (hreserves : (clients t).reserves = some (userId, productId)) (hnone : g.answers t = none)
    (elapsed : Nat) :
    ∃ x, Recorded settings clients (g.ask settings t userId productId elapsed)
      (hist ++ [(some t, x)]) := by
  have hexec := h.snoc (reservationCall settings userId productId) elapsed
  have hfresh : ∀ x, (some t, x) ∉ hist := by
    intro x hx
    obtain ⟨_, _, _, _, hanswer⟩ := h.asked t x hx
    rw [hnone] at hanswer
    contradiction
  have hother : ∀ u, u ≠ t → (g.ask settings t userId productId elapsed).answers u = g.answers u :=
    fun u hu => Function.update_of_ne hu _ _
  have hown : (g.ask settings t userId productId elapsed).answers t = some (g.now + elapsed,
      scriptAnswer (rateLimitScript (reservationCall settings userId productId) (g.now + elapsed)
        g.keys).1) := by
    rw [Gated.ask, limitReservations_eq]
    exact Function.update_self t _ _
  refine ⟨⟨reservationCall settings userId productId, g.now + elapsed,
    (rateLimitScript (reservationCall settings userId productId) (g.now + elapsed) g.keys).1⟩, ?_⟩
  constructor
  case executions =>
    rw [List.map_append, Gated.ask, limitReservations_eq]
    exact hexec
  case now =>
    intro x hx
    cases List.mem_append.mp hx with
    | inl hold =>
        have hle := h.now x hold
        simp only [Gated.ask]
        omega
    | inr hnew =>
        obtain rfl := List.mem_singleton.mp hnew
        exact Int.le_refl _
  case once =>
    rw [List.filterMap_append]
    refine List.nodup_append.mpr ⟨h.once, List.nodup_singleton t, fun u hu v hv => ?_⟩
    obtain rfl := List.mem_singleton.mp hv
    obtain ⟨⟨_, x⟩, hx, rfl⟩ := List.mem_filterMap.mp hu
    rintro rfl
    exact hfresh x hx
  case guest =>
    intro x hx
    cases List.mem_append.mp hx with
    | inl hold => exact h.guest x hold
    | inr hnew => cases List.mem_singleton.mp hnew
  case asked =>
    intro u x hx
    cases List.mem_append.mp hx with
    | inl hold =>
        have hne : u ≠ t := by
          rintro rfl
          exact hfresh x hold
        rw [hother u hne]
        exact h.asked u x hold
    | inr hnew =>
        cases List.mem_singleton.mp hnew
        exact ⟨userId, productId, hreserves, rfl, hown⟩
  case answered =>
    intro u y hy
    by_cases hu : u = t
    · subst hu
      exact ⟨_, List.mem_append_right _ (List.mem_singleton.mpr rfl)⟩
    · rw [hother u hu] at hy
      obtain ⟨x, hx⟩ := h.answered u y hy
      exact ⟨x, List.mem_append_left _ hx⟩

/-- **The limiter keeps its books**: in every state of the server. -/
theorem recorded_of_throttled {J : Type} {dump send : ApiResponse → J} {now : Int}
    {ok : Server T (Gated T) ApiResponse ApiError J → Server.Move T Turn → Prop}
    {s : Server T (Gated T) ApiResponse ApiError J}
    (h : (throttledApi settings clients dump send).Reaches ok (throttledStart clients now) s) :
    ∃ hist, Recorded settings clients s.app hist := by
  induction h with
  | refl => exact ⟨[], .nil, by simp, .nil, by simp, by simp, by simp [throttledStart, Server.start]⟩
  | @tail s s' _ hstep ih =>
      obtain ⟨hist, hrecorded⟩ := ih
      obtain ⟨m, -, hs⟩ := hstep
      cases m with
      | advance t => exact ⟨hist, (Decorated.advance_of_step hs).app ▸ hrecorded⟩
      | expire key =>
          obtain rfl := Option.some.inj hs
          exact ⟨hist, hrecorded⟩
      | work t turn =>
          obtain ⟨g', hwork, rfl⟩ := Decorated.work_of_step hs
          simp only [throttledApi] at hwork
          cases hgate : (clients t).gate (s.app.answers t) with
          | closed e =>
              rw [hgate] at hwork
              contradiction
          | opened =>
              rw [hgate] at hwork
              obtain ⟨y, -, rfl⟩ := Option.map_eq_some_iff.mp hwork
              obtain ⟨hexec, hnow, honce, hguest, hasked, hanswered⟩ := hrecorded
              exact ⟨hist, hexec, hnow, honce, hguest, hasked, hanswered⟩
          | asking userId productId =>
              rw [hgate] at hwork
              obtain rfl := Option.some.inj hwork
              obtain ⟨hreserves, hnone⟩ := Client.asking_of_gate hgate
              obtain ⟨hist', hrecorded'⟩ := hrecorded.foldl_visit turn.guests
              obtain ⟨x, hx⟩ := hrecorded'.ask hreserves
                ((congrFun (Gated.foldl_visit settings s.app turn.guests).2 t).trans hnone)
                turn.elapsed
              exact ⟨_, hx⟩

/-! ## What clients see of it -/

/-- The bucket of `key` was full at `now`: in the `ttl` before, as many as its
limit have been let in. -/
def Gated.Full (settings : LimiterSettings) (clients : T → Client parse) (g : Gated T) (key : String)
    (limit now : Int) : Prop :=
  ∃ ts : List T, ts.Nodup ∧ (∀ t ∈ ts, (clients t).CountedAt key ∧
    g.LetIn (now - settings.rateLimitTtlSeconds + 1) now t) ∧ limit ≤ ts.length

/-- What the limiter admits in the state `s`, which the run `evs` of the shop has
led to. -/
structure Throttles {J : Type} (settings : LimiterSettings) (clients : T → Client parse)
    (evs : List (Event Db Write T)) (s : Server T (Gated T) ApiResponse ApiError J) : Prop where
  /-- Nobody reserves who has not been let in. -/
  guarded : ∀ ev ∈ evs, (clients ev.txn).reserves.isSome →
    ∃ now, s.app.answers ev.txn = some (now, .ok true)
  /-- In no interval of the `ttl` more than twice the limit of a user … -/
  user : ∀ userId a (ts : List T), ts.Nodup → (∀ t ∈ ts,
    (∃ productId, (clients t).reserves = some (userId, productId)) ∧
      s.app.LetIn a (a + settings.rateLimitTtlSeconds) t) →
        (ts.length : Int) ≤ 2 * settings.rateLimitUserRps
  /-- … and twice that of a product are let in. -/
  item : ∀ productId a (ts : List T), ts.Nodup → (∀ t ∈ ts,
    (∃ userId, (clients t).reserves = some (userId, productId)) ∧
      s.app.LetIn a (a + settings.rateLimitTtlSeconds) t) →
        (ts.length : Int) ≤ 2 * settings.rateLimitGlobalRps
  /-- Who is turned away has asked when a bucket was full. -/
  turnedAway : ∀ t status detail, s.stage t = .answered (.failed (.httpException status detail)) →
    status = 429 ∧ ∃ userId productId now, (clients t).reserves = some (userId, productId) ∧
      s.app.answers t = some (now, .error (.tooManyRequests detail)) ∧
      (detail = userExceededLimit ∧
          s.app.Full settings clients (userKey userId) settings.rateLimitUserRps now ∨
        detail = globalExceededLimit ∧
          s.app.Full settings clients (itemKey productId) settings.rateLimitGlobalRps now)

omit [DecidableEq T] in
/-- Who is turned away was accepted by neither of its buckets. -/
theorem Recorded.turned_away (h : Recorded settings clients g hist) (hpos : settings.Positive) {t : T}
    {now : Int} {e : RateLimitError} (hanswer : g.answers t = some (now, .error e)) :
    ∃ userId productId detail, (clients t).reserves = some (userId, productId) ∧
      e = .tooManyRequests detail ∧
      (detail = userExceededLimit ∧
          g.Full settings clients (userKey userId) settings.rateLimitUserRps now ∨
        detail = globalExceededLimit ∧
          g.Full settings clients (itemKey productId) settings.rateLimitGlobalRps now) := by
  obtain ⟨x, hx⟩ := h.answered t _ hanswer
  obtain ⟨userId, productId, hreserves, hcall, hown⟩ := h.asked t x hx
  obtain ⟨rfl, hscript⟩ := Prod.mk.inj (Option.some.inj (hown.symm.trans hanswer))
  have hrejected : x.result ≠ 1 := by
    intro hone
    simp [hone, scriptAnswer] at hscript
  have hfull : ∀ key, IsReservationKey key →
      (limiterBuckets settings hpos).ttl key = settings.rateLimitTtlSeconds →
      ((limiterBuckets settings hpos).limit key ≤ ((hist.map Prod.snd).countP fun y =>
        y.Accepts key ∧ y.now ≤ x.now ∧ x.now < y.now + (limiterBuckets settings hpos).ttl key : Int)) →
      g.Full settings clients key ((limiterBuckets settings hpos).limit key) x.now := by
    intro key hkey httl hcount
    obtain ⟨ts, hnodup, hts, hlength⟩ :=
      h.exists_counted hkey (x.now - settings.rateLimitTtlSeconds + 1) x.now
    refine ⟨ts, hnodup, hts, hcount.trans ?_⟩
    rw [hlength, httl]
    refine Int.ofNat_le.mpr (List.countP_mono_left fun y _ hy => ?_)
    obtain ⟨hacc, hle, hlt⟩ := of_decide_eq_true hy
    exact decide_eq_true ⟨hacc, by omega, hle⟩
  obtain ⟨key, hcause, hcount⟩ := h.executions.turned_away (h.fits hpos)
    (List.mem_map.mpr ⟨_, hx, rfl⟩) hrejected
  rw [hcall] at hcause
  obtain ⟨hzero, rfl⟩ | ⟨hminus, rfl⟩ := hcause
  · rw [hzero] at hscript
    obtain ⟨hlimit, httl⟩ := limiterBuckets_userKey hpos userId
    exact ⟨userId, productId, _, hreserves, (Except.error.inj hscript).symm,
      .inl ⟨rfl, hlimit ▸ hfull _ (.inl (startsAs_self _ _)) httl hcount⟩⟩
  · rw [hminus] at hscript
    obtain ⟨hlimit, httl⟩ := limiterBuckets_itemKey hpos productId
    exact ⟨userId, productId, _, hreserves, (Except.error.inj hscript).symm,
      .inr ⟨rfl, hlimit ▸ hfull _ (.inr (startsAs_self _ _)) httl hcount⟩⟩

/-- **The drop is throttled**, whatever is interleaved and whoever else asks the
limiter: no user and no product gets more than twice its limit in any interval
of the `ttl`, and nobody is turned away while there is room. -/
theorem throttled {J : Type} {dump send : ApiResponse → J} {now : Int}
    {ok : Server T (Gated T) ApiResponse ApiError J → Server.Move T Turn → Prop}
    {s : Server T (Gated T) ApiResponse ApiError J} (hpos : settings.Positive)
    (h : (throttledApi settings clients dump send).Reaches ok (throttledStart clients now) s) :
    ∃ evs, Run store Anything (World.start fun t => (clients t).actor) evs s.app.world ∧
      Throttles settings clients evs s := by
  obtain ⟨hist, hrecorded⟩ := recorded_of_throttled h
  obtain ⟨clients', htold, hopened⟩ := hrecorded.exists_told
  obtain ⟨evs, hrun, hevs⟩ := events_of_reaches (api_of_throttled h htold)
  have hactor : (fun t => (clients' t).actor) = fun t => (clients t).actor := by
    funext t
    obtain ⟨limit, hlimit⟩ := htold.same t
    rw [hlimit, Client.actor_withLimit]
  refine ⟨evs, hactor ▸ hrun, ?_, ?_, ?_, ?_⟩
  · intro ev hev hreserves
    obtain ⟨x, hx⟩ := (hevs ev hev).2
    have hgate := hopened ev.txn x hx
    obtain ⟨now, b, hanswer⟩ := Client.letIn_of_gate hgate hreserves
    obtain ⟨_, _, _, _, rfl⟩ := hrecorded.accepted hanswer
    exact ⟨now, hanswer⟩
  · intro userId a ts hnodup hts
    obtain ⟨hlimit, httl⟩ := limiterBuckets_userKey hpos userId
    rw [← hlimit]
    refine hrecorded.length_le hpos (userKey userId) a hnodup fun t ht => ?_
    obtain ⟨⟨productId, hreserves⟩, hin⟩ := hts t ht
    exact ⟨⟨userId, productId, hreserves, .inl rfl⟩, httl ▸ hin⟩
  · intro productId a ts hnodup hts
    obtain ⟨hlimit, httl⟩ := limiterBuckets_itemKey hpos productId
    rw [← hlimit]
    refine hrecorded.length_le hpos (itemKey productId) a hnodup fun t ht => ?_
    obtain ⟨⟨userId, hreserves⟩, hin⟩ := hts t ht
    exact ⟨⟨userId, productId, hreserves, .inr rfl⟩, httl ▸ hin⟩
  · intro t status detail ht
    have hresult := failed_of_reaches h ht
    simp only [throttledApi] at hresult
    cases hgate : (clients t).gate (s.app.answers t) with
    | asking userId productId =>
        rw [hgate] at hresult
        contradiction
    | opened =>
        rw [hgate] at hresult
        obtain ⟨r, _, hr⟩ := Option.map_eq_some_iff.mp hresult
        cases r <;> cases hr
    | closed e =>
        rw [hgate] at hresult
        obtain ⟨now, hanswer⟩ := Client.answer_of_closed hgate
        obtain ⟨userId, productId, detail', hreserves, rfl, hcause⟩ :=
          hrecorded.turned_away hpos hanswer
        cases Option.some.inj hresult
        exact ⟨rfl, userId, productId, now, hreserves, hanswer, hcause⟩

end

/-- One reservation of a user in a minute. -/
def onceAMinute : LimiterSettings where
  toAccountSettings := sevenAMinute
  rateLimitUserRps := 1
  rateLimitGlobalRps := 100
  rateLimitTtlSeconds := 60
  signupRateLimitAttempts := 3
  signupRateLimitTtl := 60

/-- A buyer reserves lamps twice in a row. -/
def hastyClients : Fin 3 → Client fun _ => none
  | 0 => .background (.request (.createProduct seller.id lamp seller) (shopEnv 0 0))
  | 1 => .request ⟨.reservationData ⟨0, two⟩, buyer, "key", shopEnv 1 0, 1⟩
  | 2 => .request ⟨.reservationData ⟨0, one⟩, buyer, "other", shopEnv 1 1, 1⟩

def Stage.turnedAway {J : Type} : Stage ApiResponse ApiError J → Option (Nat × String)
  | .answered (.failed (.httpException status detail)) => some (status, detail)
  | _ => none

/-- A request that has been turned away was answered with that error. -/
theorem Stage.turnedAway_eq_some {J : Type} {x : Stage ApiResponse ApiError J} {status : Nat}
    {detail : String} (h : x.turnedAway = some (status, detail)) :
    x = .answered (.failed (.httpException status detail)) := by
  unfold Stage.turnedAway at h
  split at h
  · cases Option.some.inj h
    rfl
  · contradiction

/-- A run in which the buyer's second reservation within the minute is turned away. -/
theorem throttled_hasty : ∃ s evs,
    (throttledApi onceAMinute hastyClients id id).Reaches (fun _ _ => True)
      (throttledStart hastyClients 0) s ∧
    s.stage 2 = .answered (.failed (.httpException 429 userExceededLimit)) ∧
    Run store Anything (World.start fun t => (hastyClients t).actor) evs s.app.world ∧
      Throttles onceAMinute hastyClients evs s := by
  have hexec : ((throttledApi onceAMinute hastyClients id id).exec (fun _ _ => true)
      (throttledStart hastyClients 0)
      (.advance 0 :: List.replicate 6 (.work 0 ⟨false, [], 0⟩) ++
        .advance 1 :: .work 1 ⟨false, [(5, .login "a@b"), (1, .signup "::1")], 2⟩ ::
          List.replicate 6 (.work 1 ⟨false, [], 0⟩) ++ [.advance 1, .advance 1] ++
        [.advance 2, .work 2 ⟨false, [], 30⟩, .advance 2])).any (fun s =>
          (s.stage 2).turnedAway = some (429, userExceededLimit)) := by decide +kernel
  obtain ⟨s, hs, hend⟩ := (Option.any_eq_true _ _).mp hexec
  have hreaches : (throttledApi onceAMinute hastyClients id id).Reaches (fun _ _ => True)
      (throttledStart hastyClients 0) s := Decorated.Reaches.of_exec (fun _ _ _ => trivial) hs
  have hpos : onceAMinute.Positive := by constructor <;> decide
  obtain ⟨evs, hrun, hthrottles⟩ := throttled hpos hreaches
  exact ⟨s, evs, hreaches, Stage.turnedAway_eq_some (of_decide_eq_true hend), hrun, hthrottles⟩

end FairDrop
