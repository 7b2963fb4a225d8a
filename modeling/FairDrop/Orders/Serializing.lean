import FairDrop.Dashboards
import FairDrop.Orders.Service
import FairDrop.Requests
import FairDrop.RowStore.Progress

/-!
# FairDrop.Orders.Serializing

From the order that a service returns to the response of its endpoint.  The
instance has the columns of its row, and `items` only if the service has loaded
them: the serialiser runs outside of any awaited call, so it cannot load them
late.  All endpoints but the details load what their response shows
(`showsItems_iff`).
-/

namespace FairDrop

open RowStore

/-! ## Instances -/

/-- An `Order` instance in its session. -/
structure FetchedOrder where
  id : Uuid
  userId : Uuid
  status : OrderStatus
  totalAmount : Decimal
  shippingAddress : Option String
  createdAt : Timestamp
  /-- A lazy relationship: `none` until it is loaded. -/
  items : Option (List OrderItemObj)

namespace FetchedOrder

/-- `select(Order)` without options loads the columns. -/
def ofRow (o : Order) : FetchedOrder where
  id := o.id
  userId := o.userId
  status := o.status
  totalAmount := .ofCents o.totalAmount.val
  shippingAddress := o.shippingAddress
  createdAt := o.createdAt
  items := none

/-- After `refresh(order, attribute_names=['items'])`, or with `selectinload(Order.items)`. -/
def ofLoaded (o : OrderObj) : FetchedOrder where
  id := o.id
  userId := o.userId
  status := o.status
  totalAmount := o.totalAmount
  shippingAddress := o.shippingAddress
  createdAt := o.createdAt
  items := some o.items

end FetchedOrder

/-! ## Responses -/

/-- Why a response cannot be made. -/
inductive SerialError where
  /-- A lazy load outside of an awaited call. -/
  | missingGreenlet
  deriving DecidableEq, Repr

/-- `order.items` -/
def FetchedOrder.readItems (o : FetchedOrder) : Except SerialError (List OrderItemObj) :=
  match o.items with
  | some items => .ok items
  | none => .error .missingGreenlet

/-- `OrderItemResponse`; `BuyerOrderItemRead` has the same fields. -/
structure OrderItemResponse where
  id : Uuid
  productId : Uuid
  productName : String
  quantity : Int
  price : Decimal
  deriving DecidableEq

abbrev BuyerOrderItemRead := OrderItemResponse

def OrderItemResponse.modelValidate (i : OrderItemObj) : OrderItemResponse where
  id := i.id
  productId := i.productId
  productName := i.productName
  quantity := i.quantity
  price := i.price

/-- `OrderResponse` -/
structure OrderResponse where
  id : Uuid
  userId : Uuid
  status : String
  totalAmount : Decimal
  shippingAddress : Option String
  createdAt : Timestamp
  items : List OrderItemResponse
  deriving DecidableEq

def OrderResponse.modelValidate (o : FetchedOrder) : Except SerialError OrderResponse := do
  let items ← o.readItems
  return {
    id := o.id
    userId := o.userId
    status := o.status.text
    totalAmount := o.totalAmount
    shippingAddress := o.shippingAddress
    createdAt := o.createdAt
    items := items.map .modelValidate }

/-- `BuyerOrderRead` -/
structure BuyerOrderRead where
  id : Uuid
  status : String
  totalAmount : Decimal
  shippingAddress : Option String
  createdAt : Timestamp
  items : List BuyerOrderItemRead
  deriving DecidableEq

def BuyerOrderRead.modelValidate (o : FetchedOrder) : Except SerialError BuyerOrderRead := do
  let items ← o.readItems
  return {
    id := o.id
    status := o.status.text
    totalAmount := o.totalAmount
    shippingAddress := o.shippingAddress
    createdAt := o.createdAt
    items := items.map .modelValidate }

/-- What the buyer sees of a loaded order. -/
def BuyerOrderRead.ofLoaded (o : OrderObj) : BuyerOrderRead where
  id := o.id
  status := o.status.text
  totalAmount := o.totalAmount
  shippingAddress := o.shippingAddress
  createdAt := o.createdAt
  items := o.items.map .modelValidate

theorem mapM_ofLoaded (orders : List OrderObj) :
    orders.mapM (fun o => BuyerOrderRead.modelValidate (.ofLoaded o)) =
      .ok (orders.map BuyerOrderRead.ofLoaded) := by
  change orders.mapM (fun o => (pure (BuyerOrderRead.ofLoaded o) : Except SerialError _)) = _
  rw [List.mapM_pure]
  rfl

/-! ## Endpoints -/

/-- The endpoints that return orders to the user who asks. -/
inductive OrderEndpoint where
  /-- `GET /orders/{order_id}` -/
  | details
  /-- `POST /orders/{order_id}/pay` -/
  | pay
  /-- `POST /orders/{order_id}/cancel` -/
  | cancel
  /-- `GET /buyer_user/orders` -/
  | mine (scan : Scan Order) (scanItems : Scan OrderItem) (status : Option OrderStatus)

inductive OrderAnswer where
  | order (r : OrderResponse)
  | orders (rs : List BuyerOrderRead)

/-- The service, then the serialiser. -/
def OrderEndpoint.serve (env : Env) (orderId : Uuid) (currentUser : User) :
    OrderEndpoint → Tx (Except SerialError OrderAnswer)
  | .details => do
      let order ← getOrderForDetails env orderId currentUser
      return (OrderResponse.modelValidate (.ofRow order)).map .order
  | .pay => do
      let order ← confirmOrderPayment env orderId currentUser
      return (OrderResponse.modelValidate (.ofLoaded order)).map .order
  | .cancel => do
      let order ← cancelOrder env orderId currentUser
      return (OrderResponse.modelValidate (.ofLoaded order)).map .order
  | .mine scan scanItems status => do
      let orders ← BuyerUser.getMyOrders scan scanItems currentUser.id status
      return (orders.mapM fun order => BuyerOrderRead.modelValidate (.ofLoaded order)).map .orders

/-- The items of an order as a response is to show them. -/
def Db.storedItems (d : Db) (orderId : Uuid) : List OrderItemResponse :=
  (d.orderItems.rows.filter fun i => i.orderId = orderId).map fun i => .modelValidate (.load i)

/-- The answer shows the items that are stored for its order, or for its orders. -/
def OrderAnswer.Shows (d : Db) (orderId : Uuid) : OrderAnswer → Prop
  | .order r => r.id = orderId ∧ r.items.Perm (d.storedItems orderId)
  | .orders rs => ∀ r ∈ rs, r.items.Perm (d.storedItems r.id)

/-- Whenever the service returns, its result can be serialised and shows the stored items. -/
def OrderEndpoint.ShowsItems (e : OrderEndpoint) (d : Db) (env : Env) (orderId : Uuid)
    (currentUser : User) : Prop :=
  ∀ faults response,
    (exec store (e.serve env orderId currentUser) faults d [] .fresh).value = .ok response →
      ∃ answer, response = .ok answer ∧ answer.Shows d orderId

/-! ## Payment and cancellation -/

section
variable {d : Db} {env : Env} {orderId : Uuid} {user : User}

/-- The row that is locked is the stored one, and nothing is written yet. -/
theorem advance_getOrderForUpdate {fs : List Bool} {session : Session}
    {p : Progress Session Db Write Failure Order} {o : Order}
    (h : advance store (getOrderForUpdate orderId user) fs d [] session = p)
    (hvalue : p.value = .ok o) : d.orders.get orderId = some o ∧ p.db = d := by
  change advance store (.lock _ _) fs d [] session = p at h
  rw [advance] at h
  split at h
  · subst h
    contradiction
  · change advance store (((orNotFound (d.orders.get orderId)).bind _)) fs.tail d [] session = p at h
    cases hget : d.orders.get orderId with
    | none =>
        rw [hget] at h
        subst h
        contradiction
    | some o' =>
        rw [hget] at h
        change advance store ((Prog.ofExcept (checkOwnership user o'.owned)).bind _) fs.tail d []
          session = p at h
        cases hcheck : checkOwnership user o'.owned with
        | error e =>
            rw [hcheck] at h
            subst h
            contradiction
        | ok a =>
            rw [hcheck] at h
            subst h
            exact ⟨congrArg some (Except.ok.inj hvalue), rfl⟩

theorem advance_raiseIf {c : Prop} [Decidable c] {e : Failure} {fs : List Bool} {ws : List Write}
    {session : Session} {p : Progress Session Db Write Failure Unit} {a : Unit}
    (h : advance store (raiseIf c e) fs d ws session = p) (hvalue : p.value = .ok a) : p.db = d := by
  unfold raiseIf at h
  split at h
  · subst h
    contradiction
  · subst h
    rfl

theorem advance_selectItems {fs : List Bool} {ws : List Write} {session : Session}
    {p : Progress Session Db Write Failure (List OrderItem)} {items : List OrderItem}
    (h : advance store (selectItems orderId) fs d ws session = p) (hvalue : p.value = .ok items) :
    items = d.orderItems.rows.filter fun i => i.orderId = orderId := by
  have hitems := advance_select_ok h hvalue
  exact hitems

/-- A payment or a cancellation returns the stored order with its items, moved. -/
theorem value_settleOrder {status : OrderStatus} {action : String} {settle : Tx Unit}
    {fs : List Bool} {session : Session} {order : OrderObj}
    (h : (exec store (settleOrder env orderId user status action settle) fs d [] session).value =
      .ok order) : ∃ o, d.orders.get orderId = some o ∧
        order = (OrderObj.load o (d.orderItems.rows.filter fun i => i.orderId = orderId)).moved
          status := by
  obtain ⟨o, p, hp, hvalue, hrest⟩ := exec_bind_ok h
  obtain ⟨hget, hdb⟩ := advance_getOrderForUpdate hp hvalue
  obtain ⟨_, p₁, hp₁, hvalue₁, hrest⟩ := exec_bind_ok hrest
  obtain ⟨items, p₂, hp₂, hvalue₂, hrest⟩ := exec_bind_ok hrest
  obtain rfl := advance_selectItems hp₂ hvalue₂
  rw [advance_raiseIf hp₁ hvalue₁, hdb] at hrest
  obtain ⟨_, _, -, -, hrest⟩ := exec_bind_ok hrest
  obtain ⟨_, _, -, -, hrest⟩ := exec_bind_ok hrest
  obtain ⟨_, _, -, -, hrest⟩ := exec_bind_ok hrest
  exact ⟨o, hget, exec_bind_pure hrest⟩

/-- So the response shows them. -/
theorem shows_settled {status : OrderStatus} {action : String} {settle : Tx Unit} {faults : List Bool}
    {response : Except SerialError OrderAnswer}
    (h : (exec store (do
      let order ← settleOrder env orderId user status action settle
      return (OrderResponse.modelValidate (.ofLoaded order)).map .order) faults d []
        .fresh).value = .ok response) :
    ∃ answer, response = .ok answer ∧ answer.Shows d orderId := by
  obtain ⟨order, p, hp, hvalue, hrest⟩ := exec_bind_ok h
  subst hp
  obtain ⟨o, hget, rfl⟩ := value_settleOrder (exec_eq_advance.1.trans hvalue)
  obtain rfl := Except.ok.inj hrest
  refine ⟨_, rfl, Table.key_of_get hget, List.Perm.of_eq ?_⟩
  exact List.map_map

end

/-! ## The buyer's list -/

section
variable {d : Db} {env : Env} {orderId : Uuid} {user : User} {scan : Scan Order}
  {scanItems : Scan OrderItem} {status : Option OrderStatus}

/-- What the buyer's list is made of. -/
def boughtOrders (scan : Scan Order) (d : Db) (userId : Uuid) (status : Option OrderStatus) :
    List Order :=
  (scan.val (d.orders.rows.filter fun o => o.userId = userId ∧ Selected status o.status)).mergeSort
    fun o o' => o'.createdAt ≤ o.createdAt

theorem advance_loadIn {α : Type} {keys : List Uuid} {rows : Db → List α} {fs : List Bool}
    {ws : List Write} {session : Session} {p : Progress Session Db Write Failure (List α)}
    {loaded : List α} (hempty : keys = [] → rows d = [])
    (h : advance store (loadIn keys rows) fs d ws session = p) (hvalue : p.value = .ok loaded) :
    loaded = rows d := by
  unfold loadIn at h
  split at h
  · next hkeys =>
      subst h
      rw [hempty hkeys]
      exact (Except.ok.inj hvalue).symm
  · exact advance_select_ok h hvalue

/-- The items of all orders of the list, in the order in which they are loaded. -/
def boughtItems (scan : Scan Order) (scanItems : Scan OrderItem) (d : Db) (userId : Uuid)
    (status : Option OrderStatus) : List OrderItem :=
  scanItems.val (d.orderItems.rows.filter fun i =>
    i.orderId ∈ (boughtOrders scan d userId status).map Order.id)

/-- The orders of the list, each with its items. -/
def listedOrders (scan : Scan Order) (scanItems : Scan OrderItem) (d : Db) (userId : Uuid)
    (status : Option OrderStatus) : List OrderObj :=
  (boughtOrders scan d userId status).map fun o =>
    .load o ((boughtItems scan scanItems d userId status).filter fun i => i.orderId = o.id)

theorem boughtItems_eq_nil {userId : Uuid}
    (h : (boughtOrders scan d userId status).map Order.id = []) :
    boughtItems scan scanItems d userId status = [] := by
  rw [boughtItems, h]
  simp only [List.not_mem_nil, decide_false, List.filter_false]
  exact (scanItems.property []).eq_nil

theorem value_getMyOrders {userId : Uuid} {fs : List Bool} {session : Session} {orders : List OrderObj}
    (h : (exec store (BuyerUser.getMyOrders scan scanItems userId status) fs d [] session).value =
      .ok orders) : orders = listedOrders scan scanItems d userId status := by
  have hrest := exec_select_bind h
  obtain ⟨items, p, hp, hvalue, hrest⟩ := exec_bind_ok hrest
  obtain rfl := advance_loadIn boughtItems_eq_nil hp hvalue
  exact (Except.ok.inj hrest).symm

/-- Of the items that are loaded, each order gets its own. -/
theorem boughtItems_perm {userId : Uuid} {o : Order} (ho : o ∈ boughtOrders scan d userId status) :
    ((boughtItems scan scanItems d userId status).filter fun i => i.orderId = o.id).Perm
      (d.orderItems.rows.filter fun i => i.orderId = o.id) := by
  refine ((scanItems.property _).filter _).trans (List.Perm.of_eq ?_)
  rw [List.filter_filter]
  refine List.filter_congr fun i _ => ?_
  by_cases hi : i.orderId = o.id
  · simp only [hi, decide_true, Bool.true_and, decide_eq_true_eq]
    exact List.mem_map_of_mem ho
  · simp [hi]

theorem shows_mine {faults : List Bool} {response : Except SerialError OrderAnswer}
    (h : (exec store (OrderEndpoint.serve env orderId user (.mine scan scanItems status)) faults d []
      .fresh).value = .ok response) :
    ∃ answer, response = .ok answer ∧ answer.Shows d orderId := by
  obtain ⟨orders, p, hp, hvalue, hrest⟩ := exec_bind_ok h
  subst hp
  obtain rfl := value_getMyOrders (exec_eq_advance.1.trans hvalue)
  obtain rfl := Except.ok.inj hrest
  refine ⟨_, congrArg (Except.map OrderAnswer.orders) (mapM_ofLoaded _), ?_⟩
  intro r hr
  obtain ⟨order, horder, rfl⟩ := List.mem_map.mp hr
  obtain ⟨o, ho, rfl⟩ := List.mem_map.mp horder
  refine List.Perm.trans (List.Perm.of_eq List.map_map) ?_
  exact (boughtItems_perm ho).map _

/-- The list has every order of the buyer with the status that is asked for. -/
theorem mine_lists {o : Order} (ho : d.orders.get orderId = some o) (howner : o.userId = user.id)
    (hstatus : Selected status o.status) : ∃ rs,
      (exec store (OrderEndpoint.serve env orderId user (.mine scan scanItems status)) [] d []
        .fresh).value = .ok (.ok (.orders rs)) ∧ ∃ r ∈ rs, r.id = orderId := by
  have hmem : o ∈ boughtOrders scan d user.id status := by
    refine List.mem_mergeSort.mpr ((scan.property _).mem_iff.mpr ?_)
    exact List.mem_filter.mpr ⟨Table.mem_of_get ho, decide_eq_true ⟨howner, hstatus⟩⟩
  have hvalue : (exec store (BuyerUser.getMyOrders scan scanItems user.id status) [] d []
      .fresh).value = .ok (listedOrders scan scanItems d user.id status) := by
    change (exec store (loadIn _ _ >>= fun items => pure _) [] d [] Session.fresh).value = _
    rw [exec_loadIn boughtItems_eq_nil]
    rfl
  rw [exec_eq_advance.1] at hvalue
  refine ⟨(listedOrders scan scanItems d user.id status).map .ofLoaded, ?_, _,
    List.mem_map_of_mem (List.mem_map_of_mem hmem), Table.key_of_get ho⟩
  rw [exec_eq_advance.1, OrderEndpoint.serve, advance_bind, Progress.andThen, hvalue]
  exact congrArg (fun x => Except.ok (Except.map OrderAnswer.orders x)) (mapM_ofLoaded _)

end

/-! ## The details -/

section
variable {d : Db} {env : Env} {orderId : Uuid} {user : User} {o : Order}

/-- Whoever may see the order is answered, but the answer cannot be serialised. -/
theorem serve_details (ho : d.orders.get orderId = some o)
    (hallowed : checkOwnership user o.owned = .ok ()) :
    (exec store (OrderEndpoint.details.serve env orderId user) [] d [] .fresh).value =
      .ok (.error .missingGreenlet) := by
  change (exec store ((((orNotFound (d.orders.get orderId)).bind _).bind _).bind _) [] d []
    .fresh).value = _
  rw [ho]
  change (exec store ((((Prog.ofExcept (checkOwnership user o.owned)).bind _).bind _).bind _) [] d []
    Session.fresh).value = _
  rw [hallowed]
  change (exec store (Prog.bind (if user.inspects o then _ else _) _) [] d [] Session.fresh).value = _
  split
  · rfl
  · rfl

end

/-! ## All of them -/

/-- **All order endpoints show the same order**, except that the details show none:
whoever may see a stored order gets its items from each endpoint that returns it,
and from the details an error. -/
theorem showsItems_iff {d : Db} {orderId : Uuid} {user : User} {o : Order}
    (ho : d.orders.get orderId = some o) (hallowed : checkOwnership user o.owned = .ok ())
    (env : Env) (e : OrderEndpoint) : e.ShowsItems d env orderId user ↔ e ≠ .details := by
  constructor
  · rintro hshows rfl
    obtain ⟨answer, herror, -⟩ := hshows [] _ (serve_details ho hallowed)
    contradiction
  · intro hne faults response h
    cases e with
    | details => contradiction
    | pay | cancel => exact shows_settled h
    | mine scan scanItems status => exact shows_mine h

/-- The buyer of two lamps sees them in the list. -/
theorem showsItems_lamps : (OrderEndpoint.mine asStored asStored (some .paid)).ShowsItems lampsDb
    (shopEnv 4 30) 11 ⟨5, .user, true⟩ :=
  (showsItems_iff (o := ⟨11, 5, .paid, ⟨3000, by decide⟩, some "Main St 1", 3, 3⟩) rfl rfl
    (shopEnv 4 30) (.mine asStored asStored (some .paid))).mpr (by simp)

/-- And does not see the details. -/
theorem not_showsItems : ¬ ∀ (d : Db) (orderId : Uuid) (user : User) (o : Order),
    d.orders.get orderId = some o → checkOwnership user o.owned = .ok () →
      ∀ (env : Env) (e : OrderEndpoint), e.ShowsItems d env orderId user := by
  intro hall
  have hserve : (exec store (OrderEndpoint.details.serve (shopEnv 4 30) 11 ⟨5, .user, true⟩) []
      lampsDb [] .fresh).value = .ok (.error .missingGreenlet) := rfl
  have hshows := hall lampsDb 11 ⟨5, .user, true⟩
    ⟨11, 5, .paid, ⟨3000, by decide⟩, some "Main St 1", 3, 3⟩ rfl rfl (shopEnv 4 30) .details
  obtain ⟨answer, herror, -⟩ := hshows [] _ hserve
  cases herror

end FairDrop
