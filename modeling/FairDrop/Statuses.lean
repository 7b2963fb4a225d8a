import FairDrop.Refusals
import FairDrop.Replays

/-!
# FairDrop.Statuses

What a client may conclude from the status of an answer.  The exception handlers
of the application (`core/exception_handlers.py`, registered by `core/setup.py`)
turn the errors of the services into statuses; an error without a handler is a
500.  Whatever runs at the same time, a 4xx means that the request has changed
nothing, a 200 that its work is done, and a 500 is left to outages and to the few
cases of `Endpoint.Breaks`.
-/

namespace FairDrop

open RowStore

/-! ## Exception handlers -/

/-- `JSONResponse(status_code, {'detail': …})` -/
structure ErrorResponse where
  status : Nat
  detail : String
  deriving DecidableEq, Repr

/-- `str(exc) or default` -/
def detailOr (message default : String) : String := if message.isEmpty then default else message

def notFoundErrorHandler (message : String) : ErrorResponse :=
  ⟨404, detailOr message "Resource not found"⟩

def insufficientInventoryErrorHandler (message : String) : ErrorResponse :=
  ⟨400, detailOr message "Insufficient inventory"⟩

def conflictErrorHandler (message : String) : ErrorResponse :=
  ⟨409, detailOr message "Resource conflict"⟩

def permissionDeniedHandler (message : String) : ErrorResponse :=
  ⟨403, detailOr message "Permission denied"⟩

def sellerLimitExceededHandler (message : String) : ErrorResponse :=
  ⟨400, detailOr message "Seller limit exceeded"⟩

/-- The handler of an error, by `setup_exception_handlers`. -/
def exceptionHandler : Failure → Option ErrorResponse
  | .notFound message => some (notFoundErrorHandler message)
  | .conflict message => some (conflictErrorHandler message)
  | .insufficientInventory message => some (insufficientInventoryErrorHandler message)
  | .sellerLimitExceeded message => some (sellerLimitExceededHandler message)
  | .permissionDenied message => some (permissionDeniedHandler message)
  | .valueError | .attributeError | .validationError | .integrityError | .dataError
  | .multipleResultsFound | .staleData | .operationalError => none

theorem status_of_handler {e : Failure} {r : ErrorResponse} (h : exceptionHandler e = some r) :
    r.status ∈ [400, 403, 404, 409] := by
  cases e <;> cases h <;> simp [notFoundErrorHandler, insufficientInventoryErrorHandler,
    conflictErrorHandler, permissionDeniedHandler, sellerLimitExceededHandler]

/-- The status line of an answer. -/
def Answer.status {J : Type} : Answer ApiResponse ApiError J → Nat
  | .httpException status _ | .failed (.httpException status _) => status
  | .replayed _ | .fresh _ | .direct _ => 200
  | .failed (.app e) => ((exceptionHandler e).map (·.status)).getD 500

/-! ## What breaks an endpoint -/

section
variable {parse : String → Option Uuid}

/-- The states of the shop in which an endpoint raises what has no handler: an
order whose total does not fit its column, or whose ids have been drawn before;
the cancellation of an order whose units do not fit beside the stock. -/
def Endpoint.Breaks (env : Env) (user : User) (d : Db) : Endpoint parse → Prop
  | .reservationData _ | .confirmOrderPayment _ => False
  | .createOrder data => (∃ (r : Reservation) (p : Product), r.Open d user data.reservationId ∧
      d.products.get r.productId = some p ∧ numericBound ≤ p.price.val * r.qtyReserved) ∨
      ¬ d.DrawsOrder env
  | .cancelOrder orderId => ∃ r ∈ d.reservations.rows, r.orderId = some orderId.id ∧
      ∃ p, d.products.get r.productId = some p ∧ int32Max < p.qtyAvailable.val + r.qtyReserved

/-- An order has an owner, so its check fails in one way. -/
theorem checkOwnership_order_error {user : User} {o : Order} {e : Failure}
    (h : checkOwnership user o.owned = .error e) : e = .permissionDenied := by
  simp only [checkOwnership, Order.owned] at h
  split at h
  · contradiction
  · split at h
    · exact (Except.error.inj h).symm
    · contradiction

theorem Endpoint.call_ne_release (e : Endpoint parse) (user : User) (key : String) (id : Uuid) :
    e.call user key ≠ .releaseReservation id := by
  cases e <;> exact nofun

/-- A refusal without a handler. -/
theorem Endpoint.breaks_of_refused {env : Env} {user : User} {key : String} {d : Db}
    {endpoint : Endpoint parse} {e : Failure} (h : Refused env d (endpoint.call user key) e)
    (hnone : exceptionHandler e = none) : endpoint.Breaks env user d := by
  cases endpoint with
  | reservationData data =>
      cases h with
      | moveForeign hc | settleForeign hc => contradiction
      | _ => contradiction
  | createOrder data =>
      cases h with
      | orderLarge r p hr hp hlarge => exact .inl ⟨r, p, hr, hp, hlarge⟩
      | orderDrawn hdrawn => exact .inr hdrawn
      | moveForeign hc | settleForeign hc => contradiction
      | _ => contradiction
  | confirmOrderPayment orderId =>
      cases h with
      | settleForeign hc o ho hcheck =>
          rw [checkOwnership_order_error hcheck] at hnone
          contradiction
      | moveForeign hc => contradiction
      | _ => contradiction
  | cancelOrder orderId =>
      cases h with
      | cancelFull r p hr hlink hp hfull => exact ⟨r, hr, hlink, p, hp, hfull⟩
      | settleForeign hc o ho hcheck =>
          rw [checkOwnership_order_error hcheck] at hnone
          contradiction
      | moveForeign hc => contradiction
      | _ => contradiction

/-- What the request runs. -/
def ApiRequest.call (q : ApiRequest parse) : Call := q.endpoint.call q.currentUser q.idempotencyKey

variable {T J : Type} [DecidableEq T]

/-- What the answer `x` tells of the request `q`, which is the call `t` of the
run `evs`. -/
structure StatusTells (clients : T → Client parse) (dump send : ApiResponse → J)
    (evs : List (Event Db Write T)) (t : T) (q : ApiRequest parse)
    (x : Answer ApiResponse ApiError J) : Prop where
  /-- There is no other status. -/
  known : x.status ∈ [200, 400, 403, 404, 409, 429, 500]
  /-- A client error has changed nothing … -/
  unchanged : 400 ≤ x.status → x.status < 500 → ∀ ev ∈ evs, ev.txn = t → ev.after = ev.before
  /-- … and what a service says was so when it looked. -/
  refused : ∀ e, x = .failed (.app e) → x.status ≠ 500 →
    ∃ ev ∈ evs, ev.txn = t ∧ Refused q.env ev.before q.call e
  /-- A server error is an outage, or a break that has changed nothing. -/
  broken : x.status = 500 → x = .failed (.app .operationalError) ∨
    ((∀ ev ∈ evs, ev.txn = t → ev.after = ev.before) ∧
      ∃ ev ∈ evs, ev.txn = t ∧ q.endpoint.Breaks q.env q.currentUser ev.before)
  /-- After a success the work is done, by this request or by one under its key. -/
  done : x.status = 200 → ∃ u q', clients u = .request q' ∧
    (api clients dump send).redisKey u = (api clients dump send).redisKey t ∧
      ∃ ev ∈ evs, ev.txn = u ∧ Change q'.env false ev.before q'.call ev.after

/-- An answer of a request that has not run. -/
theorem StatusTells.of_idle {clients : T → Client parse} {dump send : ApiResponse → J}
    {evs : List (Event Db Write T)} {t : T} {q : ApiRequest parse}
    {x : Answer ApiResponse ApiError J} (hstatus : x.status ∈ [400, 429])
    (hsmall : x.status < 500 ∧ x.status ≠ 200) (hown : ∀ e, x ≠ .failed (.app e))
    (hidle : ∀ ev ∈ evs, ev.txn = t → ev.after = ev.before) :
    StatusTells clients dump send evs t q x where
  known := by
    rcases List.mem_cons.mp hstatus with h | h <;> simp_all
  unchanged _ _ := hidle
  refused e he := absurd he (hown e)
  broken h := absurd h (Nat.ne_of_lt hsmall.1)
  done h := absurd h hsmall.2

/-- An answer with a body. -/
theorem StatusTells.of_done {clients : T → Client parse} {dump send : ApiResponse → J}
    {evs : List (Event Db Write T)} {t : T} {q : ApiRequest parse}
    {x : Answer ApiResponse ApiError J} (hstatus : x.status = 200)
    (hown : ∀ e, x ≠ .failed (.app e))
    (hdone : ∃ u q', clients u = .request q' ∧
      (api clients dump send).redisKey u = (api clients dump send).redisKey t ∧
        ∃ ev ∈ evs, ev.txn = u ∧ Change q'.env false ev.before q'.call ev.after) :
    StatusTells clients dump send evs t q x where
  known := by simp [hstatus]
  unchanged h := absurd h (by simp [hstatus])
  refused e he := absurd he (hown e)
  broken h := absurd (hstatus.symm.trans h) (by decide)
  done _ := hdone

/-- An error of the services. -/
theorem StatusTells.of_error {clients : T → Client parse} {dump send : ApiResponse → J}
    {evs : List (Event Db Write T)} {t : T} {q : ApiRequest parse} {e : Failure}
    (h : AnsweredTruly q.env q.call t evs (.error e)) :
    StatusTells clients dump send evs t q (.failed (.app e)) := by
  cases hhandler : exceptionHandler e with
  | some r =>
      have hstatus : (Answer.failed (.app e) : Answer ApiResponse ApiError J).status = r.status := by
        simp [Answer.status, hhandler]
      have hmem := status_of_handler hhandler
      have hrange : r.status < 500 ∧ r.status ≠ 200 := by
        simp only [List.mem_cons, List.not_mem_nil, or_false] at hmem
        omega
      have htold : (∀ ev ∈ evs, ev.txn = t → ev.after = ev.before) ∧
          ∃ ev ∈ evs, ev.txn = t ∧ Refused q.env ev.before q.call e := by
        rcases h with rfl | h
        · contradiction
        · exact h
      refine ⟨?_, fun _ _ => htold.1, ?_, ?_, ?_⟩
      · rw [hstatus]
        simp only [List.mem_cons, List.not_mem_nil, or_false] at hmem ⊢
        omega
      · rintro e' he' -
        cases he'
        exact htold.2
      · rw [hstatus]
        exact fun h => absurd h (Nat.ne_of_lt hrange.1)
      · rw [hstatus]
        exact fun h => absurd h hrange.2
  | none =>
      have hstatus : (Answer.failed (.app e) : Answer ApiResponse ApiError J).status = 500 := by
        simp [Answer.status, hhandler]
      refine ⟨by simp [hstatus], ?_, fun _ _ hne => absurd hstatus hne, fun _ => ?_, ?_⟩
      · rw [hstatus]
        exact fun _ h => absurd h (Nat.lt_irrefl _)
      · rcases h with rfl | ⟨hsame, ev, hev, ht, hrefused⟩
        · exact .inl rfl
        · exact .inr ⟨hsame, ev, hev, ht, Endpoint.breaks_of_refused hrefused hhandler⟩
      · rw [hstatus]
        exact fun h => absurd h (by decide)

theorem Client.actor_request {c : Client parse} {q : ApiRequest parse} (h : c = .request q) :
    c.actor = .request q.call q.env := by
  rw [h]
  rfl

/-- A limited request is answered with 429. -/
theorem checkLimit_error {c : Client parse} {e : ApiError} (h : c.checkLimit = .error e) :
    ∃ detail, e = .httpException 429 detail := by
  unfold Client.checkLimit at h
  split at h
  · unfold checkRateLimit at h
    split at h
    · exact ⟨_, (Except.error.inj h).symm⟩
    · split at h
      · exact ⟨_, (Except.error.inj h).symm⟩
      · contradiction
  · contradiction

/-- **Statuses are true** in every state of the server, however the requests are
interleaved and whatever the cache has forgotten. -/
theorem status_tells {clients : T → Client parse} {dump send : ApiResponse → J}
    {ok : Server T (World T) ApiResponse ApiError J → Server.Move T Bool → Prop}
    {s : Server T (World T) ApiResponse ApiError J}
    (h : (api clients dump send).Reaches ok (apiStart clients) s) {t : T} {q : ApiRequest parse}
    (hclient : clients t = .request q) {x : Answer ApiResponse ApiError J}
    (hx : s.stage t = .answered x) :
    ∃ evs, Run store Anything (World.start fun t => (clients t).actor) evs s.app ∧
      StatusTells clients dump send evs t q x := by
  obtain ⟨evs, hrun, hevs⟩ := events_of_reaches h
  refine ⟨evs, hrun, ?_⟩
  have hidle : (s.stage t).begun = false → ∀ ev ∈ evs, ev.txn = t → ev.after = ev.before := by
    rintro hbegun ev hev rfl
    rw [(hevs ev hev).1] at hbegun
    contradiction
  have hanswered : ∀ {u q' r}, clients u = .request q' → s.app.ended u = some r →
      AnsweredTruly q'.env q'.call u evs r := fun hu hr =>
    answered_truly hrun (Client.actor_request hu) (Endpoint.call_ne_release _ _ _) hr
  have hdone : ∀ body, x.body send = some body → ∃ u q', clients u = .request q' ∧
      (api clients dump send).redisKey u = (api clients dump send).redisKey t ∧
        ∃ ev ∈ evs, ev.txn = u ∧ Change q'.env false ev.before q'.call ev.after := by
    intro body hbody
    obtain ⟨u, response, key, hkey, hkey', hended, -⟩ :=
      executed_of_body h (by rw [hclient]; rfl) hx hbody
    cases hu : clients u with
    | background a =>
        have hnone : (api clients dump send).redisKey u = none := by
          simp [Decorated.redisKey, api, hu, Client.httpRequest]
        cases hkey'.symm.trans hnone
    | request q' => exact ⟨u, q', hu, hkey'.trans hkey.symm, hanswered hu hended⟩
  cases x with
  | httpException status detail =>
      obtain rfl := badRequest_of_reaches h hx
      exact .of_idle (by simp [Answer.status]) (by simp [Answer.status]) (by simp)
        (hidle (by rw [hx]; rfl))
  | replayed body =>
      exact .of_done rfl (by simp) (hdone body rfl)
  | fresh response =>
      exact .of_done rfl (by simp) (hdone _ rfl)
  | direct response =>
      exact .of_done rfl (by simp) (hdone _ rfl)
  | failed e =>
      have hresult := failed_of_reaches h hx
      simp only [api] at hresult
      split at hresult
      · next e' hlimit =>
          obtain ⟨detail, rfl⟩ := checkLimit_error hlimit
          obtain rfl := Except.error.inj (Option.some.inj hresult)
          refine .of_idle (by simp [Answer.status]) (by simp [Answer.status]) (by simp) ?_
          intro ev hev ht
          obtain ⟨y, hy⟩ := (hevs ev hev).2
          rw [ht, hlimit] at hy
          contradiction
      · obtain ⟨r, hended, hr⟩ := Option.map_eq_some_iff.mp hresult
        cases r with
        | ok response => contradiction
        | error e' =>
            obtain rfl := Except.error.inj hr
            exact .of_error (hanswered hclient hended)

end

def Stage.rejected {J : Type} : Stage ApiResponse ApiError J → Option (Answer ApiResponse ApiError J)
  | .answered (.failed e) => some (.failed e)
  | _ => none

/-- Two requests under one key overlap: the second is refused. -/
theorem status_tells_conflict : ∃ s x evs,
    retryApi.Reaches (fun _ _ => True) (apiStart retryClients) s ∧ s.stage 2 = .answered x ∧
      x.status = 409 ∧ Run store Anything (World.start fun t => (retryClients t).actor) evs s.app ∧
        StatusTells retryClients id id evs 2
          ⟨.reservationData ⟨0, two⟩, buyer, "key", shopEnv 1 0, 1⟩ x := by
  have hexec : (retryApi.exec (fun _ _ => true) (apiStart retryClients)
      (working 0 6 ++ [.advance 1, .advance 2] ++ List.replicate 6 (.work 1 false) ++
        [.advance 1] ++ List.replicate 6 (.work 2 false) ++ [.advance 2])).any (fun s =>
          (s.stage 2).rejected.any fun x => x.status == 409) := by decide +kernel
  obtain ⟨s, hs, hend⟩ := (Option.any_eq_true _ _).mp hexec
  obtain ⟨x, hx, hstatus⟩ := (Option.any_eq_true _ _).mp hend
  have hreaches : retryApi.Reaches (fun _ _ => True) (apiStart retryClients) s :=
    Decorated.Reaches.of_exec (fun _ _ _ => trivial) hs
  have hanswered : s.stage 2 = .answered x := by
    unfold Stage.rejected at hx
    split at hx
    · next e he => rw [he, Option.some.inj hx]
    · contradiction
  obtain ⟨evs, hrun, htells⟩ := status_tells hreaches rfl hanswered
  exact ⟨s, x, evs, hreaches, hanswered, by simpa using hstatus, hrun, htells⟩

end FairDrop
