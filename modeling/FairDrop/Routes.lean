import FairDrop.Actors
import FairDrop.Shared.Decorators

/-!
# FairDrop.Routes

The endpoints with the `idempotent` decorator: `reservation_data` of
`inventory/routes.py`, and `create_order_endpoint`,
`confirm_order_payment_endpoint` and `cancel_order_endpoint` of
`orders/routes.py`.  Behind the decorator each of them is an actor on the one
database, next to all others.
-/

namespace FairDrop

open RowStore

/-! ## Errors -/

inductive ApiError where
  | httpException (status : Nat) (detail : String)
  /-- Raised by a service, for an exception handler of the application. -/
  | app (e : Failure)

/-- `check_rate_limit`, after the script has answered. -/
def checkRateLimit (result : Int) : Except ApiError Bool :=
  if result = 0 then .error (.httpException 429 "Rate limit exceeded for this identifier")
  else if result = -1 then .error (.httpException 429 "Global rate limit exceeded")
  else .ok true

/-! ## Requests -/

/-- An id in a path, as the client spells it. -/
structure PathId (parse : String → Option Uuid) where
  text : String
  id : Uuid
  parsed : parse text = some id

section
variable {parse : String → Option Uuid}

/-- An endpoint with its payload. -/
inductive Endpoint (parse : String → Option Uuid) where
  | reservationData (reservationData : ReservationCreate)
  | createOrder (orderData : OrderCreate)
  | confirmOrderPayment (orderId : PathId parse)
  | cancelOrder (orderId : PathId parse)

namespace Endpoint

def path : Endpoint parse → String
  | .reservationData _ => "/api/v1/inventory/reserve"
  | .createOrder _ => "/api/v1/orders/"
  | .confirmOrderPayment orderId => s!"/api/v1/orders/{orderId.text}/pay"
  | .cancelOrder orderId => s!"/api/v1/orders/{orderId.text}/cancel"

/-- What the endpoint asks of the services. -/
def call (currentUser : User) (idempotencyKey : String) : Endpoint parse → Call
  | .reservationData data => .reserveItems currentUser.id idempotencyKey data
  | .createOrder data => .createOrder currentUser data
  | .confirmOrderPayment orderId => .confirmOrderPayment orderId.id currentUser
  | .cancelOrder orderId => .cancelOrder orderId.id currentUser

/-- The same endpoint with the same payload. -/
def Same : Endpoint parse → Endpoint parse → Prop
  | .reservationData a, .reservationData b => a = b
  | .createOrder a, .createOrder b => a = b
  | .confirmOrderPayment a, .confirmOrderPayment b => a.id = b.id
  | .cancelOrder a, .cancelOrder b => a.id = b.id
  | _, _ => False

instance (a b : Endpoint parse) : Decidable (a.Same b) := by
  unfold Same
  split <;> infer_instance

end Endpoint

/-- A request that has come through the dependencies of its endpoint. -/
structure ApiRequest (parse : String → Option Uuid) where
  endpoint : Endpoint parse
  currentUser : User
  idempotencyKey : String
  env : Env
  /-- What the rate limit script answers. -/
  limit : Int

/-- Who is at work: requests to the decorated endpoints, and all others. -/
inductive Client (parse : String → Option Uuid) where
  | request (q : ApiRequest parse)
  | background (a : Actor)

namespace Client

def httpRequest : Client parse → Option HttpRequest
  | .request q => some ⟨"POST", q.endpoint.path, some q.idempotencyKey⟩
  | .background _ => none

def actor : Client parse → Actor
  | .request q => .request (q.endpoint.call q.currentUser q.idempotencyKey) q.env
  | .background a => a

/-- `reservation_data` checks the rate limit before anything else. -/
def checkLimit : Client parse → Except ApiError Bool
  | .request ⟨.reservationData _, _, _, _, limit⟩ => checkRateLimit limit
  | _ => .ok true

/-- Requests by the same user to the same endpoint with the same payload. -/
def Same : Client parse → Client parse → Prop
  | .request q, .request q' => q.endpoint.Same q'.endpoint ∧ q.currentUser.id = q'.currentUser.id
  | _, _ => False

instance (a b : Client parse) : Decidable (a.Same b) := by
  unfold Same
  split <;> infer_instance

end Client

/-! ## Responses -/

/-- What the handlers return. -/
inductive ApiResponse where
  | reservation (r : ReservationResponse)
  | order (o : OrderObj)
  /-- Not from a decorated endpoint. -/
  | other (r : Response)

def ApiResponse.of : Response → ApiResponse
  | .reservation r => .reservation (.modelValidate r)
  | .order o => .order o
  | r => .other r

/-- What a handler makes of the end of its service. -/
def apiResult : Except Failure Response → Except ApiError ApiResponse
  | .ok r => .ok (.of r)
  | .error e => .error (.app e)

/-! ## The application -/

variable {T J : Type} [DecidableEq T]

/-- The handlers of the clients, on one database. -/
def api (clients : T → Client parse) (dump send : ApiResponse → J) :
    Decorated T Bool (World T) ApiResponse ApiError J where
  request t := (clients t).httpRequest
  work t fault world := match (clients t).checkLimit with
    | .error _ => none
    | .ok _ => (world.step store t fault).map Prod.snd
  result t world := match (clients t).checkLimit with
    | .error e => some (.error e)
    | .ok _ => (world.ended t).map apiResult
  dump := dump
  send := send
  stable t u fault world world' x hwork hx := by
    split at hwork
    · contradiction
    · split at hx
      · exact hx
      · exact Sys.ended_map_step hwork hx

/-- The empty database, and all clients about to begin. -/
def apiStart (clients : T → Client parse) : Server T (World T) ApiResponse ApiError J :=
  .start (World.start fun t => (clients t).actor)

/-- A handler that succeeds has come to the end of its service. -/
theorem ended_of_api {clients : T → Client parse} {dump send : ApiResponse → J} {t : T}
    {world : World T} {response : ApiResponse}
    (h : (api clients dump send).result t world = some (.ok response)) :
    ∃ r, world.ended t = some (.ok r) ∧ response = .of r := by
  simp only [api] at h
  split at h
  · cases h
  · obtain ⟨x, hx, hresult⟩ := Option.map_eq_some_iff.mp h
    cases x with
    | error e => contradiction
    | ok r => exact ⟨r, hx, (Except.ok.inj hresult).symm⟩

/-- What the handlers do together is a run of their services, whatever the
framework makes of their results. -/
theorem world_of_reaches {A E : Type} {clients : T → Client parse}
    {f : Decorated T Bool (World T) A E J} {ok : Server T (World T) A E J → Server.Move T Bool → Prop}
    {s : Server T (World T) A E J} (hf : f.work = (api clients id id).work)
    (h : f.Reaches ok (.start (World.start fun t => (clients t).actor)) s) :
    ∃ evs, Run store Anything (World.start fun t => (clients t).actor) evs s.app := by
  induction h with
  | refl => exact ⟨[], .nil⟩
  | tail _ hstep ih =>
      obtain ⟨evs, hrun⟩ := ih
      obtain ⟨m, _, hs⟩ := hstep
      cases m with
      | advance t => exact ⟨evs, (Decorated.advance_of_step hs).app ▸ hrun⟩
      | expire key => exact ⟨evs, Option.some.inj hs ▸ hrun⟩
      | work t fault =>
          obtain ⟨world, hwork, rfl⟩ := Decorated.work_of_step hs
          simp only [hf, api] at hwork
          split at hwork
          · contradiction
          · obtain ⟨⟨c, world₁⟩, hmove, rfl⟩ := Option.map_eq_some_iff.mp hwork
            exact ⟨_, hrun.snoc trivial hmove⟩

/-- Nobody but a handler that has been called, and is within its limit, does
anything. -/
theorem events_of_reaches {clients : T → Client parse} {dump send : ApiResponse → J}
    {ok : Server T (World T) ApiResponse ApiError J → Server.Move T Bool → Prop}
    {s : Server T (World T) ApiResponse ApiError J}
    (h : (api clients dump send).Reaches ok (apiStart clients) s) :
    ∃ evs, Run store Anything (World.start fun t => (clients t).actor) evs s.app ∧
      ∀ ev ∈ evs, (s.stage ev.txn).begun ∧ ∃ x, (clients ev.txn).checkLimit = .ok x := by
  induction h with
  | refl => exact ⟨[], .nil, by simp⟩
  | @tail s s' _ hstep ih =>
      obtain ⟨evs, hrun, hevs⟩ := ih
      obtain ⟨m, _, hs⟩ := hstep
      cases m with
      | advance t =>
          have hadvance := Decorated.advance_of_step hs
          refine ⟨evs, hadvance.app ▸ hrun, fun ev hev => ?_⟩
          exact (hevs ev hev).imp_left hadvance.begun
      | expire key =>
          obtain rfl := Option.some.inj hs
          exact ⟨evs, hrun, hevs⟩
      | work t fault =>
          simp only [Decorated.step] at hs
          split at hs
          · next key hrunning =>
              obtain ⟨world, hwork, rfl⟩ := Option.map_eq_some_iff.mp hs
              simp only [api] at hwork
              split at hwork
              · contradiction
              · next x hlimit =>
                  obtain ⟨⟨c, world₁⟩, hmove, rfl⟩ := Option.map_eq_some_iff.mp hwork
                  refine ⟨_, hrun.snoc trivial hmove, fun ev hev => ?_⟩
                  cases List.mem_append.mp hev with
                  | inl hold => exact hevs ev hold
                  | inr hlast =>
                      obtain rfl := List.mem_singleton.mp hlast
                      refine ⟨?_, x, hlimit⟩
                      change (s.stage t).begun
                      rw [hrunning]
                      rfl
          · contradiction

/-- Behind every body there is an execution under the same key. -/
theorem executed_of_body {clients : T → Client parse} {dump send : ApiResponse → J}
    {ok : Server T (World T) ApiResponse ApiError J → Server.Move T Bool → Prop}
    {s : Server T (World T) ApiResponse ApiError J}
    (h : (api clients dump send).Reaches ok (apiStart clients) s) {t : T} {r : HttpRequest}
    (hr : (clients t).httpRequest = some r) {x : Answer ApiResponse ApiError J} {body : J}
    (hx : s.stage t = .answered x) (hbody : x.body send = some body) :
    ∃ u response key, (api clients dump send).redisKey t = some key ∧
      (api clients dump send).redisKey u = some key ∧ s.app.ended u = some (.ok response) ∧
      (body = send (.of response) ∨ body = dump (.of response)) := by
  have hbacked := backed_of_reaches (h.mono fun s m _ => looksUpOwn_sameKey m)
  obtain ⟨key, hkey⟩ := Option.isSome_iff_exists.mp (keyed_of_reaches h hr hx hbody)
  cases x with
  | fresh response =>
      obtain ⟨y, hy, rfl⟩ := ended_of_api (hbacked.produced t response (by rw [hx]; rfl))
      exact ⟨t, y, key, hkey, hkey, hy, .inl (Option.some.inj hbody).symm⟩
  | direct response =>
      have hnone := hbacked.bypassed t (.inr ⟨response, hx⟩)
      cases hr.symm.trans hnone
  | replayed body' =>
      obtain rfl := Option.some.inj hbody
      obtain ⟨u, response, hu, rfl, hsame⟩ := hbacked.replayed t body' hx
      obtain ⟨y, hy, rfl⟩ := ended_of_api (hbacked.produced u response (by rw [hu]; rfl))
      exact ⟨u, y, key, hkey, hsame.trans hkey, hy, .inr rfl⟩
  | httpException | failed => contradiction

end

end FairDrop
