import FairDrop.Media.Models
import FairDrop.Routes
import FairDrop.User.Logins

/-!
# FairDrop.Throttling

The server with the rate limiter in it.  `reservation_data` asks the limiter for
its user and its product before anything else, in the one Redis in which the
logins and the registrations are counted too (`shared/rate_limit.py`,
`shared/rate_limit_utils.py`); time passes between the calls of the script.

For the shop behind it the limiter is an answer that each request has with it
(`api_of_throttled`), so everything that holds of `api` holds here.
-/

namespace FairDrop

open RowStore

/-! ## Who asks the limiter -/

/-- The settings of the limiter. -/
structure LimiterSettings extends AccountSettings where
  rateLimitUserRps : Int
  rateLimitGlobalRps : Int
  rateLimitTtlSeconds : Int
  signupRateLimitAttempts : Int
  signupRateLimitTtl : Int

def userKey (userId : Uuid) : String := "rate_limit:user:" ++ String.ofList (uuidText userId)

def itemKey (productId : Uuid) : String := "rate_limit:item:" ++ String.ofList (uuidText productId)

def signupKey (remoteIp : String) : String := "rate_limit:signup:" ++ remoteIp

/-- The check of `reservation_data`. -/
def limitReservations (settings : LimiterSettings) (userId productId : Uuid) (now : Int)
    (s : Redis.Store String) : Except RateLimitError Bool × Redis.Store String :=
  RateLimit.checkRateLimit [userKey userId, itemKey productId]
    [settings.rateLimitUserRps, settings.rateLimitGlobalRps] settings.rateLimitTtlSeconds now s

def limitSignupAttempts (settings : LimiterSettings) (remoteIp : String) (now : Int)
    (s : Redis.Store String) : Except RateLimitError Bool × Redis.Store String :=
  RateLimit.checkRateLimit [signupKey remoteIp] [settings.signupRateLimitAttempts]
    settings.signupRateLimitTtl now s

/-- Who asks besides the reservations. -/
inductive Guest where
  | login (email : String)
  | signup (remoteIp : String)

def Guest.check (settings : LimiterSettings) (now : Int) (s : Redis.Store String) :
    Guest → Except RateLimitError Bool × Redis.Store String
  | .login email => limitLoginAttempts settings.toAccountSettings email now s
  | .signup remoteIp => limitSignupAttempts settings remoteIp now s

/-! ## The server -/

/-- The shop, the counters of the limiter, its clock, and when and how it has
answered whom. -/
structure Gated (T : Type) where
  world : World T
  keys : Redis.Store String
  now : Int
  answers : T → Option (Int × Except RateLimitError Bool)

/-- What a move leaves open: whether the statement fails; and before the limiter
is asked, who else asks it after how much time, and how much passes then. -/
structure Turn where
  fault : Bool
  guests : List (Nat × Guest)
  elapsed : Nat

section
variable {T : Type}

def Gated.visit (settings : LimiterSettings) (g : Gated T) : Nat × Guest → Gated T
  | (elapsed, guest) =>
      { g with
        keys := (guest.check settings (g.now + elapsed) g.keys).2
        now := g.now + elapsed }

variable [DecidableEq T]

def Gated.ask (settings : LimiterSettings) (g : Gated T) (t : T) (userId productId : Uuid)
    (elapsed : Nat) : Gated T :=
  let now := g.now + elapsed
  let (answer, keys) := limitReservations settings userId productId now g.keys
  { g with keys := keys, now := now, answers := Function.update g.answers t (some (now, answer)) }

/-- What the framework makes of the end of a check. -/
def RateLimitError.raised : RateLimitError → ApiError
  | .tooManyRequests detail => .httpException 429 detail
  | .scriptError => .httpException 500 "Internal Server Error"

section
variable {parse : String → Option Uuid}

/-- The user and the product of a request that asks the limiter. -/
def Client.reserves : Client parse → Option (Uuid × Uuid)
  | .request ⟨.reservationData data, currentUser, _, _, _⟩ => some (currentUser.id, data.productId)
  | _ => none

/-- Where a client is with the limiter. -/
inductive Gate where
  | asking (userId productId : Uuid)
  | closed (e : RateLimitError)
  | opened

def Client.gate (c : Client parse) (answer : Option (Int × Except RateLimitError Bool)) : Gate :=
  match c.reserves, answer with
  | some (userId, productId), none => .asking userId productId
  | some _, some (_, .error e) => .closed e
  | some _, some (_, .ok _) | none, _ => .opened

/-- One step of the shop. -/
def Gated.work (g : Gated T) (t : T) (fault : Bool) : Option (Gated T) :=
  (g.world.step store t fault).map fun x => { g with world := x.2 }

omit [DecidableEq T] in
/-- Others at the limiter leave the shop as it was. -/
theorem Gated.foldl_visit (settings : LimiterSettings) (g : Gated T) (guests : List (Nat × Guest)) :
    (guests.foldl (·.visit settings) g).world = g.world ∧
      (guests.foldl (·.visit settings) g).answers = g.answers := by
  induction guests generalizing g with
  | nil => exact ⟨rfl, rfl⟩
  | cons guest guests ih => exact ih (g.visit settings guest)

/-- The handlers of the clients, behind one limiter. -/
def throttledApi {J : Type} (settings : LimiterSettings) (clients : T → Client parse)
    (dump send : ApiResponse → J) : Decorated T Turn (Gated T) ApiResponse ApiError J where
  request t := (clients t).httpRequest
  work t turn g := match (clients t).gate (g.answers t) with
    | .asking userId productId =>
        some ((turn.guests.foldl (·.visit settings) g).ask settings t userId productId turn.elapsed)
    | .closed _ => none
    | .opened => g.work t turn.fault
  result t g := match (clients t).gate (g.answers t) with
    | .asking _ _ => none
    | .closed e => some (.error e.raised)
    | .opened => (g.world.ended t).map apiResult
  dump := dump
  send := send
  stable t u turn g g' x hwork hx := by
    cases hgate : (clients u).gate (g.answers u) with
    | closed e =>
        rw [hgate] at hwork
        contradiction
    | asking userId productId =>
        rw [hgate] at hwork
        obtain rfl := Option.some.inj hwork
        obtain ⟨hworld, hanswers⟩ := Gated.foldl_visit settings g turn.guests
        have hne : t ≠ u := by
          rintro rfl
          rw [hgate] at hx
          contradiction
        simp only [Gated.ask, Function.update_of_ne hne, hworld, hanswers]
        exact hx
    | opened =>
        rw [hgate] at hwork
        obtain ⟨y, hstep, rfl⟩ := Option.map_eq_some_iff.mp hwork
        cases ht : (clients t).gate (g.answers t) with
        | asking userId productId =>
            rw [ht] at hx
            contradiction
        | closed e =>
            rw [ht] at hx
            exact hx
        | opened =>
            rw [ht] at hx
            exact Sys.ended_map_step (by rw [hstep]; rfl) hx

/-- The empty database, nothing counted, and all clients about to begin. -/
def throttledStart {J : Type} (clients : T → Client parse) (now : Int) :
    Server T (Gated T) ApiResponse ApiError J :=
  .start ⟨World.start fun t => (clients t).actor, .empty, now, fun _ => none⟩

/-! ## The shop behind the limiter -/

/-- The request as it has this answer of the limiter with it. -/
def Client.withLimit (limit : Int) : Client parse → Client parse
  | .request q => .request { q with limit := limit }
  | .background a => .background a

theorem Client.httpRequest_withLimit (c : Client parse) (limit : Int) :
    (c.withLimit limit).httpRequest = c.httpRequest := by
  cases c <;> rfl

theorem Client.actor_withLimit (c : Client parse) (limit : Int) :
    (c.withLimit limit).actor = c.actor := by
  cases c <;> rfl

theorem Client.checkLimit_withLimit (c : Client parse) (limit : Int) :
    (c.withLimit limit).checkLimit = if c.reserves.isSome then checkRateLimit limit else .ok true := by
  cases c with
  | background a => rfl
  | request q =>
      obtain ⟨endpoint, _, _, _, _⟩ := q
      cases endpoint <;> rfl

/-- The clients `clients'` have what the limiter has answered with them. -/
structure Told (clients clients' : T → Client parse)
    (answers : T → Option (Int × Except RateLimitError Bool)) : Prop where
  same : ∀ t, ∃ limit, clients' t = (clients t).withLimit limit
  closed : ∀ t e, (clients t).gate (answers t) = .closed e →
    (clients' t).checkLimit = .error e.raised
  opened : ∀ t, (clients t).gate (answers t) = .opened → ∃ x, (clients' t).checkLimit = .ok x

variable {J : Type} {settings : LimiterSettings} {clients clients' : T → Client parse}
  {dump send : ApiResponse → J} {g g' : Gated T} {t u : T} {turn : Turn} {now : Int}
  {s s' : Server T (Gated T) ApiResponse ApiError J}
  {ok : Server T (Gated T) ApiResponse ApiError J → Server.Move T Turn → Prop}

theorem Client.gate_of_answer {c : Client parse}
    {answer answer' : Option (Int × Except RateLimitError Bool)}
    (hkeep : ∀ x, answer = some x → answer' = some x) (hasked : ∀ a b, c.gate answer ≠ .asking a b) :
    c.gate answer' = c.gate answer := by
  cases answer with
  | some x => rw [hkeep x rfl]
  | none =>
      cases hreserves : c.reserves with
      | none => simp only [Client.gate, hreserves]
      | some r => exact absurd (by simp only [Client.gate, hreserves]) (hasked r.1 r.2)

theorem Client.asking_of_gate {c : Client parse} {answer : Option (Int × Except RateLimitError Bool)}
    {userId productId : Uuid} (h : c.gate answer = .asking userId productId) :
    c.reserves = some (userId, productId) ∧ answer = none := by
  simp only [Client.gate] at h
  split at h
  · next hreserves =>
      cases h
      exact ⟨hreserves, rfl⟩
  · contradiction
  · contradiction
  · contradiction

theorem Client.letIn_of_gate {c : Client parse} {answer : Option (Int × Except RateLimitError Bool)}
    (h : c.gate answer = .opened) (hreserves : c.reserves.isSome) :
    ∃ now b, answer = some (now, .ok b) := by
  simp only [Client.gate] at h
  split at h
  · contradiction
  · contradiction
  · exact ⟨_, _, rfl⟩
  · next hnone =>
      rw [hnone] at hreserves
      contradiction

theorem Client.answer_of_closed {c : Client parse} {answer : Option (Int × Except RateLimitError Bool)}
    {e : RateLimitError} (h : c.gate answer = .closed e) : ∃ now, answer = some (now, .error e) := by
  simp only [Client.gate] at h
  split at h
  · contradiction
  · cases h
    exact ⟨_, rfl⟩
  · contradiction
  · contradiction

/-- An answer of the limiter is final. -/
theorem answers_of_work (h : (throttledApi settings clients dump send).work t turn g = some g') :
    ∀ x, g.answers u = some x → g'.answers u = some x := by
  intro x hx
  simp only [throttledApi] at h
  cases hgate : (clients t).gate (g.answers t) with
  | closed e =>
      rw [hgate] at h
      contradiction
  | opened =>
      rw [hgate] at h
      obtain ⟨y, -, rfl⟩ := Option.map_eq_some_iff.mp h
      exact hx
  | asking userId productId =>
      rw [hgate] at h
      obtain rfl := Option.some.inj h
      have hne : u ≠ t := by
        rintro rfl
        rw [hx] at hgate
        simp only [Client.gate] at hgate
        split at hgate <;> contradiction
      simp only [Gated.ask, Function.update_of_ne hne, (Gated.foldl_visit settings g _).2]
      exact hx

omit [DecidableEq T] in
/-- What has been told in the end agrees with what was told before. -/
theorem Told.before (h : Told clients clients' g'.answers)
    (hkeep : ∀ t x, g.answers t = some x → g'.answers t = some x) :
    Told clients clients' g.answers where
  same := h.same
  closed t e hgate := by
    have hsame := Client.gate_of_answer (c := clients t) (hkeep t) fun a b => by simp [hgate]
    exact h.closed t e (hsame.trans hgate)
  opened t hgate := by
    have hsame := Client.gate_of_answer (c := clients t) (hkeep t) fun a b => by simp [hgate]
    exact h.opened t (hsame.trans hgate)

/-- A handler that has come to its end here has come to the same end there. -/
theorem Told.result (h : Told clients clients' g.answers) {x : Except ApiError ApiResponse}
    (hx : (throttledApi settings clients dump send).result t g = some x) :
    (api clients' dump send).result t g.world = some x := by
  simp only [throttledApi] at hx
  simp only [api]
  cases hgate : (clients t).gate (g.answers t) with
  | asking userId productId =>
      rw [hgate] at hx
      contradiction
  | closed e =>
      rw [hgate] at hx
      rw [h.closed t e hgate]
      exact hx
  | opened =>
      obtain ⟨y, hy⟩ := h.opened t hgate
      rw [hgate] at hx
      rw [hy]
      exact hx

/-- A handler at work asks the limiter, or does the same there. -/
theorem Told.work (h : Told clients clients' g.answers)
    (hwork : (throttledApi settings clients dump send).work t turn g = some g') :
    g'.world = g.world ∨ (api clients' dump send).work t turn.fault g.world = some g'.world := by
  simp only [throttledApi] at hwork
  simp only [api]
  cases hgate : (clients t).gate (g.answers t) with
  | asking userId productId =>
      rw [hgate] at hwork
      obtain rfl := Option.some.inj hwork
      exact .inl (Gated.foldl_visit settings g turn.guests).1
  | closed e =>
      rw [hgate] at hwork
      contradiction
  | opened =>
      obtain ⟨y, hy⟩ := h.opened t hgate
      rw [hgate] at hwork
      obtain ⟨z, hz, rfl⟩ := Option.map_eq_some_iff.mp hwork
      rw [hy]
      exact .inr (by rw [hz]; rfl)

/-- **The shop does not see the limiter**: it does what it does for requests that
have the answers of the limiter with them. -/
theorem api_of_throttled (h : (throttledApi settings clients dump send).Reaches ok
    (throttledStart clients now) s) (htold : Told clients clients' s.app.answers) :
    (api clients' dump send).Reaches (fun _ _ => True) (apiStart clients')
      ⟨s.app.world, s.redis, s.stage⟩ := by
  have hrequest : ∀ t, (api clients' dump send).request t =
      (throttledApi settings clients dump send).request t := by
    intro t
    obtain ⟨limit, hlimit⟩ := htold.same t
    simp only [api, throttledApi, hlimit, Client.httpRequest_withLimit]
  have hactor : (fun t => (clients' t).actor) = fun t => (clients t).actor := by
    funext t
    obtain ⟨limit, hlimit⟩ := htold.same t
    rw [hlimit, Client.actor_withLimit]
  induction h with
  | refl =>
      rw [apiStart, hactor]
      exact .refl
  | @tail s s' _ hstep ih =>
      obtain ⟨m, -, hs⟩ := hstep
      cases m with
      | advance t =>
          have happ := (Decorated.advance_of_step hs).app
          rw [happ] at htold ⊢
          refine (ih htold).tail ⟨.advance t, trivial, ?_⟩
          exact Decorated.advance_of_result (hrequest t) rfl (fun x => htold.result) hs
      | expire key =>
          obtain rfl := Option.some.inj hs
          exact (ih htold).tail ⟨.expire key, trivial, rfl⟩
      | work t turn =>
          simp only [Decorated.step] at hs
          split at hs
          · next key hrunning =>
              obtain ⟨g', hwork, rfl⟩ := Option.map_eq_some_iff.mp hs
              have hbefore := htold.before fun u => answers_of_work hwork
              cases hbefore.work hwork with
              | inl hsame =>
                  rw [hsame]
                  exact ih hbefore
              | inr hmove =>
                  refine (ih hbefore).tail ⟨.work t turn.fault, trivial, ?_⟩
                  simp only [Decorated.step, hrunning, hmove, Option.map_some]
          · contradiction

end
end

end FairDrop
