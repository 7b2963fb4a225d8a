import FairDrop.Replays
import FairDrop.RowStore.Answers

/-!
# FairDrop.Bodies

What the two answers to a request with an idempotency key look like on the
wire.  The first one is the response model of the endpoint; the second one was
encoded by the decorator, which asks what the handler returned: a pydantic model
dumps itself, an ORM instance goes through `jsonable_encoder`.

A string is kept as the scalar that it spells and a number as the decimal that
it is made from, so that `"19.98"` and `19.98` differ and nothing has to be
printed.  What the decorator stores is read and written once more by `orjson`
before it is served, which leaves JSON as it is.
-/

namespace FairDrop

open RowStore

/-! ## JSON on the wire -/

inductive Body where
  | null
  | bool (b : Bool)
  | string (a : Scalar)
  | number (d : Decimal)
  | arr (xs : List Body)
  | obj (fields : List (String × Body))

inductive PathStep where
  | key (k : String)
  | index (n : Nat)

/-- What stands at a place: a scalar, or the kind of a container. -/
inductive Leaf where
  | null
  | bool (b : Bool)
  | string (a : Scalar)
  | number (d : Decimal)
  | arr
  | obj
  deriving DecidableEq

namespace Body

def leaf : Body → Leaf
  | .null => .null
  | .bool b => .bool b
  | .string a => .string a
  | .number d => .number d
  | .arr _ => .arr
  | .obj _ => .obj

def child : Body → PathStep → Option Body
  | .obj fields, .key k => (fields.find? fun f => f.1 = k).map Prod.snd
  | .arr xs, .index n => xs[n]?
  | _, _ => none

def at? : Body → List PathStep → Option Body
  | b, [] => some b
  | b, step :: path => (b.child step).bind fun c => c.at? path

/-- The same keys and the same values, in whatever order the keys are written. -/
def Same (a b : Body) : Prop := ∀ path, (a.at? path).map leaf = (b.at? path).map leaf

theorem Same.refl (a : Body) : a.Same a := fun _ => rfl

/-- A place with different values. -/
theorem not_same_of_leaf {a b : Body} (path : List PathStep)
    (h : (a.at? path).map leaf ≠ (b.at? path).map leaf) : ¬ a.Same b := fun hsame => h (hsame path)

end Body

/-! ## Response models -/

/-- `mode='json'` spells identifiers, decimals and timestamps.  The denominator of
a `float` is a power of two. -/
def Scalar.body : Scalar → Body
  | .null => .null
  | .bool b => .bool b
  | .int i => .number ⟨i, 0⟩
  | .float q => .number ⟨q.num * 5 ^ q.den.log2, -(q.den.log2 : Int)⟩
  | a => .string a

mutual
def Json.body : Json → Body
  | .scalar a => a.body
  | .arr xs => .arr (Json.bodies xs)
  | .obj fields => .obj (Json.fieldBodies fields)

def Json.bodies : List Json → List Body
  | [] => []
  | x :: xs => x.body :: Json.bodies xs

def Json.fieldBodies : Snapshot → List (String × Body)
  | [] => []
  | (k, x) :: fields => (k, x.body) :: Json.fieldBodies fields
end

/-- `ReservationResponse`, dumped. -/
def ReservationResponse.dump (r : ReservationResponse) : Snapshot :=
  [("id", .scalar (.uuid r.id)), ("product_id", .scalar (.uuid r.productId)),
    ("user_id", .scalar (.uuid r.userId)), ("quantity", .scalar (.int r.quantity)),
    ("status", .str r.status), ("expires_at", .scalar (.datetime r.expiresAt))]

/-! ## ORM instances -/

/-- The columns of an order and its items that no response shows, as far as the
session has them: a flush that computes `updated_at` anew leaves it unloaded. -/
structure Loaded where
  updatedAt : Option Timestamp
  itemCreatedAt : Uuid → Option Timestamp
  itemUpdatedAt : Uuid → Option Timestamp

/-- An `Order` instance as a handler returns it. -/
structure OrderInstance extends Loaded where
  order : OrderObj

/-- A column that may not be loaded. -/
def column (key : String) : Option Timestamp → List (String × Body)
  | some t => [(key, .string (.datetime t))]
  | none => []

/-- `jsonable_encoder` of an item: all loaded columns, `Decimal` as a number. -/
def OrderItemObj.jsonable (l : Loaded) (i : OrderItemObj) : Body :=
  .obj ([("id", .string (.uuid i.id)), ("order_id", .string (.uuid i.orderId)),
    ("product_id", .string (.uuid i.productId)), ("product_name", .string (.str i.productName)),
    ("quantity", .number ⟨i.quantity, 0⟩), ("price", .number i.price)] ++
      column "created_at" (l.itemCreatedAt i.id) ++ column "updated_at" (l.itemUpdatedAt i.id))

/-- `jsonable_encoder` of an order; `items` is loaded in every handler. -/
def OrderInstance.jsonable (o : OrderInstance) : Body :=
  .obj ([("id", .string (.uuid o.order.id)), ("user_id", .string (.uuid o.order.userId)),
    ("status", .string (.str o.order.status.text)), ("total_amount", .number o.order.totalAmount),
    ("shipping_address", (Json.optStr o.order.shippingAddress).body),
    ("created_at", .string (.datetime o.order.createdAt)),
    ("items", .arr (o.order.items.map (·.jsonable o.toLoaded)))] ++
      column "updated_at" o.updatedAt)

/-! ## The two answers -/

/-- What the decorated handlers return: `reservation_data` a model, the three
order endpoints an instance. -/
inductive Returned where
  | model (r : ReservationResponse)
  | orm (o : OrderInstance)

namespace Returned

/-- `isinstance(response, BaseModel)` -/
def isBaseModel : Returned → Bool
  | .model _ => true
  | .orm _ => false

/-- `response.model_dump_json()`, or `orjson.dumps(jsonable_encoder(response))` -/
def cached : Returned → Body
  | .model r => (Json.obj r.dump).body
  | .orm o => o.jsonable

/-- `response_model` -/
def sent : Returned → Body
  | .model r => (Json.obj r.dump).body
  | .orm o => (Json.obj o.order.dump).body

/-- The total of an order is a string in the first answer and a number in the second. -/
theorem orm_not_same (o : OrderInstance) : ¬ (cached (.orm o)).Same (sent (.orm o)) := by
  apply Body.not_same_of_leaf [.key "total_amount"]
  simp [cached, sent, OrderInstance.jsonable, OrderObj.dump, Json.body, Json.fieldBodies,
    Scalar.body, Body.at?, Body.child, Body.leaf]

theorem cached_same_iff (v : Returned) : v.cached.Same v.sent ↔ v.isBaseModel := by
  cases v with
  | model r => exact ⟨fun _ => rfl, fun _ => .refl _⟩
  | orm o => exact ⟨fun h => absurd h (orm_not_same o), fun h => by contradiction⟩

end Returned

/-! ## Replays -/

/-- Decorated endpoints: whatever their handlers do, the answers are encoded as above. -/
def Decorated.encoded {T C σ E J : Type} (f : Decorated T C σ Returned E J) :
    Decorated T C σ Returned E Body where
  request := f.request
  work := f.work
  result := f.result
  dump := Returned.cached
  send := Returned.sent
  stable := f.stable

section
variable {T C σ E J : Type} [DecidableEq T] {f : Decorated T C σ Returned E J} {app : σ}
  {s : Server T σ Returned E Body}

/-- Who is served from the cache gets the encoding of a value that was returned
under the same key. -/
theorem replayed_source {ok : Server T σ Returned E Body → Server.Move T C → Prop}
    (h : f.encoded.Reaches ok (Server.start app) s) {t : T} {body : Body}
    (ht : s.stage t = .answered (.replayed body)) :
    ∃ u v, SameKey f.encoded u t ∧ s.stage u = .answered (.fresh v) ∧
      f.result u s.app = some (.ok v) ∧ body = v.cached := by
  have hbacked : Backed f.encoded (SameKey f.encoded) s :=
    backed_of_reaches (h.mono fun _ m _ => looksUpOwn_sameKey m)
  obtain ⟨u, v, hu, hdump, hkey⟩ := hbacked.replayed t body ht
  exact ⟨u, v, hkey, hu, hbacked.produced u v (by rw [hu]; rfl), hdump⟩

/-- **A replay is the first answer again** exactly if the handler returned a
pydantic model. -/
theorem replay_as_sent_iff (h : f.encoded.Reaches (fun _ _ => True) (Server.start app) s) {t : T}
    {body : Body} (ht : s.stage t = .answered (.replayed body)) :
    ∃ u v, SameKey f.encoded u t ∧ s.stage u = .answered (.fresh v) ∧
      f.result u s.app = some (.ok v) ∧ (body.Same v.sent ↔ v.isBaseModel) := by
  obtain ⟨u, v, hkey, hu, hresult, rfl⟩ := replayed_source h ht
  exact ⟨u, v, hkey, hu, hresult, v.cached_same_iff⟩

end

/-! ## The endpoints of the shop -/

section
variable {parse : String → Option Uuid} {T : Type} [DecidableEq T]

/-- The end of a handler; other actors are not answered. -/
def returnedOf (loaded : OrderObj → Loaded) :
    Except ApiError ApiResponse → Option (Except ApiError Returned)
  | .ok (.reservation r) => some (.ok (.model r))
  | .ok (.order o) => some (.ok (.orm ⟨loaded o, o⟩))
  | .ok (.other _) => none
  | .error e => some (.error e)

/-- The application of `FairDrop.Routes` with the values that its handlers return. -/
def returnedApi (clients : T → Client parse) (loaded : OrderObj → Loaded) :
    Decorated T Bool (World T) Returned ApiError Body where
  request := (api clients id id).request
  work := (api clients id id).work
  result t world := ((api clients id id).result t world).bind (returnedOf loaded)
  dump := Returned.cached
  send := Returned.sent
  stable t u fault world world' x hwork hx := by
    obtain ⟨y, hy, hend⟩ := Option.bind_eq_some_iff.mp hx
    exact Option.bind_eq_some_iff.mpr ⟨y, (api clients id id).stable t u fault _ _ y hwork hy, hend⟩

/-- The empty database, and all clients about to begin. -/
def returnedStart (clients : T → Client parse) : Server T (World T) Returned ApiError Body :=
  .start (World.start fun t => (clients t).actor)

/-- `reservation_data` answers with a model, the endpoints of orders with an instance. -/
def Endpoint.returnsModel : Endpoint parse → Bool
  | .reservationData _ => true
  | .createOrder _ | .confirmOrderPayment _ | .cancelOrder _ => false

/-- The service of an endpoint ends in what the endpoint returns. -/
theorem Endpoint.ends_call (loaded : OrderObj → Loaded) (e : Endpoint parse) (user : User)
    (key : String) (env : Env) :
    ends store (fun _ => True) ((e.call user key).program env) (Succeeds fun r =>
      ∀ v, returnedOf loaded (.ok (.of r)) = some (.ok v) → v.isBaseModel = e.returnsModel) := by
  apply ends_inSession
  cases e with
  | reservationData data =>
      refine ends_next fun r => ends_pure fun v hv => ?_
      cases hv
      rfl
  | createOrder | confirmOrderPayment | cancelOrder =>
      refine ends_next fun o => ends_pure fun v hv => ?_
      cases hv
      rfl

variable {loaded : OrderObj → Loaded}

/-- What kind of value a handler has returned in a run is read off its endpoint. -/
theorem isBaseModel_of_result {clients : T → Client parse}
    {ok : Server T (World T) Returned ApiError Body → Server.Move T Bool → Prop}
    {s : Server T (World T) Returned ApiError Body}
    (h : (returnedApi clients loaded).encoded.Reaches ok (returnedStart clients) s) {t : T}
    {q : ApiRequest parse} (hclient : clients t = .request q) {v : Returned}
    (hv : (returnedApi clients loaded).result t s.app = some (.ok v)) :
    v.isBaseModel = q.endpoint.returnsModel := by
  obtain ⟨evs, hrun⟩ := world_of_reaches (f := (returnedApi clients loaded).encoded) rfl h
  obtain ⟨x, hx, hkind⟩ := Option.bind_eq_some_iff.mp hv
  cases x with
  | error e => cases hkind
  | ok response =>
      obtain ⟨r, hended, rfl⟩ := ended_of_api hx
      have hends := q.endpoint.ends_call loaded q.currentUser q.idempotencyKey q.env
      have hprogram : (clients t).actor.program =
          (q.endpoint.call q.currentUser q.idempotencyKey).program q.env := by
        rw [hclient]
        rfl
      rw [← hprogram] at hends
      have hrest := Run.ends hends hrun fun _ _ _ _ _ _ _ => trivial
      exact succeeds_ok.mp (Sys.ended_of_ends hrest hended) v hkind

/-- **Reservations are replayed as they were sent**, orders never are. -/
theorem replayed_as_sent_iff_reservation {clients : T → Client parse}
    {ok : Server T (World T) Returned ApiError Body → Server.Move T Bool → Prop}
    {s : Server T (World T) Returned ApiError Body}
    (h : (returnedApi clients loaded).encoded.Reaches ok (returnedStart clients) s) {t : T}
    {body : Body} (ht : s.stage t = .answered (.replayed body)) :
    ∃ u v, SameKey (returnedApi clients loaded).encoded u t ∧ s.stage u = .answered (.fresh v) ∧
      ∀ q, clients u = .request q → (body.Same v.sent ↔ q.endpoint.returnsModel) := by
  obtain ⟨u, v, hkey, hu, hresult, rfl⟩ := replayed_source h ht
  refine ⟨u, v, hkey, hu, fun q hclient => ?_⟩
  rw [← isBaseModel_of_result h hclient hresult]
  exact v.cached_same_iff

end

/-- Creation leaves every column loaded, and a later flush of the order all but
its `updated_at`. -/
def loadedAt (now : Timestamp) (o : OrderObj) : Loaded where
  updatedAt := if o.status = .pending then some now else none
  itemCreatedAt := fun _ => some now
  itemUpdatedAt := fun _ => some now

def retryBodies := (returnedApi retryClients (loadedAt 1)).encoded

/-- A reservation is replayed as it was sent. -/
theorem replay_as_sent_reservation : ∃ s body u v,
    retryBodies.Reaches (fun _ _ => True) (returnedStart retryClients) s ∧
      s.stage 2 = .answered (.replayed body) ∧ s.stage u = .answered (.fresh v) ∧
        body.Same v.sent := by
  have hexec : (retryBodies.exec (fun _ _ => true) (returnedStart retryClients)
      (working 0 6 ++ handling 1 6 ++ [.advance 2])).any (fun s => (s.stage 2).replayed.isSome &&
        decide (∀ u, (s.stage u).response.all (·.isBaseModel))) := by decide +kernel
  obtain ⟨s, hs, hend⟩ := (Option.any_eq_true _ _).mp hexec
  obtain ⟨hreplayed, hmodels⟩ := Bool.and_eq_true_iff.mp hend
  obtain ⟨body, hbody⟩ := Option.isSome_iff_exists.mp hreplayed
  have hreaches := Decorated.Reaches.of_exec (fun _ _ _ => trivial) hs
  obtain ⟨u, v, _, hu, _, hiff⟩ := replay_as_sent_iff hreaches (Stage.replayed_eq_some hbody)
  have hmodel := of_decide_eq_true hmodels u
  rw [hu] at hmodel
  exact ⟨s, body, u, v, hreaches, Stage.replayed_eq_some hbody, hu, hiff.mpr hmodel⟩

def keyBodies := (returnedApi keyClients (loadedAt 2)).encoded

/-- An order of two lamps is not: the same request gets `"19.98"` first and
`19.98` from the cache. -/
theorem not_replay_as_sent : ¬ ∀ s,
    keyBodies.Reaches (fun _ _ => True) (returnedStart keyClients) s → ∀ t body,
      s.stage t = .answered (.replayed body) → ∃ u v, SameKey keyBodies u t ∧
        s.stage u = .answered (.fresh v) ∧ body.Same v.sent := by
  intro hall
  have hexec : (keyBodies.exec (fun _ _ => true) (returnedStart keyClients)
      (keyStock ++ handling 3 9 ++ [.advance 4])).any (fun s => (s.stage 4).replayed.any fun body =>
        decide ((body.at? [.key "total_amount"]).map Body.leaf = some (.number ⟨1998, -2⟩) ∧
          ∀ u, (s.stage u).response.all fun v =>
            (v.sent.at? [.key "total_amount"]).map Body.leaf =
              some (.string (.decimal ⟨1998, -2⟩)))) := by decide +kernel
  obtain ⟨s, hs, hend⟩ := (Option.any_eq_true _ _).mp hexec
  obtain ⟨body, hbody, htotals⟩ := (Option.any_eq_true _ _).mp hend
  obtain ⟨hnumber, hstrings⟩ := of_decide_eq_true htotals
  have hreaches := Decorated.Reaches.of_exec (fun _ _ _ => trivial) hs
  obtain ⟨u, v, _, hu, hsame⟩ := hall s hreaches 4 body (Stage.replayed_eq_some hbody)
  have hstring := hstrings u
  rw [hu] at hstring
  simp only [Stage.response, Option.all_some, decide_eq_true_eq] at hstring
  have htotal := hsame [.key "total_amount"]
  rw [hnumber, hstring] at htotal
  cases htotal

end FairDrop
