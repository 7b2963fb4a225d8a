import FairDrop.Routes
import FairDrop.Shop.Actors

/-!
# FairDrop.Shop.Routes

The server with all its endpoints: those behind the `idempotent` decorator
(`FairDrop.Routes`), and next to them those without, such as
`get_order_details_endpoint` of `orders/routes.py`, on one database.
-/

namespace FairDrop

open RowStore

/-! ## Clients -/

/-- Who is at work: clients of the decorated endpoints, and all others. -/
inductive ShopClient (parse : String → Option Uuid) where
  | client (c : Client parse)
  | direct (a : ShopActor)

namespace ShopClient

variable {parse : String → Option Uuid}

def httpRequest : ShopClient parse → Option HttpRequest
  | .client c => c.httpRequest
  | .direct _ => none

def actor : ShopClient parse → ShopActor
  | .client c => .shop c.actor
  | .direct a => a

def checkLimit : ShopClient parse → Except ApiError Bool
  | .client c => c.checkLimit
  | .direct _ => .ok true

/-- Requests for an `OrderResponse`: the order and the user. -/
def orderRequest : ShopClient parse → Option (Uuid × User)
  | .client (.request ⟨.confirmOrderPayment orderId, user, _, _, _⟩)
  | .client (.request ⟨.cancelOrder orderId, user, _, _, _⟩) => some (orderId.id, user)
  | .client (.request ⟨.reservationData _, _, _, _, _⟩)
  | .client (.request ⟨.createOrder _, _, _, _, _⟩) | .client (.background _) => none
  | .direct (.orderDetails id user _) => some (id, user)
  | .direct (.shop _) | .direct (.deleteProduct _ _ _)
  | .direct (.createUploadUrl _ _ _ _ _) => none

end ShopClient

/-! ## Responses -/

/-- What the handlers return. -/
inductive ShopApiResponse where
  | api (r : ApiResponse)
  | details (o : Order)
  | upload (post : PresignedPost)
  | none

namespace ShopApiResponse

def of : ShopResponse → ShopApiResponse
  | .shop r => .api (.of r)
  | .details o => .details o
  | .upload post => .upload post
  | .none => .none

/-- The order that is returned, with the user that it belongs to. -/
def order : ShopApiResponse → Option (Uuid × Uuid)
  | .api (.order o) => some (o.id, o.userId)
  | .details o => some (o.id, o.userId)
  | .api (.reservation _) | .api (.other _) | .upload _ | .none => Option.none

end ShopApiResponse

def shopApiResult : Except Failure ShopResponse → Except ApiError ShopApiResponse
  | .ok r => .ok (.of r)
  | .error e => .error (.app e)

/-! ## The application -/

section
variable {parse : String → Option Uuid} {T J : Type} [DecidableEq T]

/-- The handlers of the clients, on one database. -/
def shopApi (clients : T → ShopClient parse) (dump send : ShopApiResponse → J) :
    Decorated T Bool (ShopWorld T) ShopApiResponse ApiError J where
  request t := (clients t).httpRequest
  work t fault world := match (clients t).checkLimit with
    | .error _ => none
    | .ok _ => (world.step shopStore t fault).map Prod.snd
  result t world := match (clients t).checkLimit with
    | .error e => some (.error e)
    | .ok _ => (world.ended t).map shopApiResult
  dump := dump
  send := send
  stable t u fault world world' x hwork hx := by
    split at hwork
    · contradiction
    · split at hx
      · exact hx
      · exact Sys.ended_map_step hwork hx

/-- The empty database, and all clients about to begin. -/
def shopApiStart (clients : T → ShopClient parse) :
    Server T (ShopWorld T) ShopApiResponse ApiError J :=
  .start (ShopWorld.start fun t => (clients t).actor)

variable {clients : T → ShopClient parse} {dump send : ShopApiResponse → J}

/-- A handler that succeeds has come to the end of its service. -/
theorem ended_of_shopApi {t : T} {world : ShopWorld T} {response : ShopApiResponse}
    (h : (shopApi clients dump send).result t world = some (.ok response)) :
    ∃ r, world.ended t = some (.ok r) ∧ response = .of r := by
  simp only [shopApi] at h
  split at h
  · cases h
  · obtain ⟨x, hx, hresult⟩ := Option.map_eq_some_iff.mp h
    cases x with
    | error e => contradiction
    | ok r => exact ⟨r, hx, (Except.ok.inj hresult).symm⟩

/-- A handler at work makes a step of its service. -/
theorem step_of_shopApi {t : T} {fault : Bool}
    {s s' : Server T (ShopWorld T) ShopApiResponse ApiError J}
    (h : (shopApi clients dump send).step s (.work t fault) = some s') :
    ∃ c world, s.app.step shopStore t fault = some (c, world) ∧ s' = { s with app := world } := by
  obtain ⟨world, hwork, rfl⟩ := Decorated.work_of_step h
  simp only [shopApi] at hwork
  split at hwork
  · contradiction
  · obtain ⟨⟨c, world₁⟩, hstep, rfl⟩ := Option.map_eq_some_iff.mp hwork
    exact ⟨c, world₁, hstep, rfl⟩

end

end FairDrop
