import FairDrop.Inventory.Internal
import FairDrop.Security

/-!
# FairDrop.Orders.Service

The order lifecycle (`orders/service.py`): reading, creation from a
reservation, payment and cancellation.
-/

namespace FairDrop

open RowStore

/-- `_get_order(…, for_update=True)` -/
def getOrderForUpdate (orderId : Uuid) (currentUser : User) : Tx Order := do
  let order ← orNotFound (← selectOrderForUpdate orderId)
  Prog.ofExcept (checkOwnership currentUser order.owned)
  return order

/-- `_get_order`, without a lock. -/
def getOrder (orderId : Uuid) (currentUser : User) : Tx Order := do
  let d ← Prog.select
  let order ← orNotFound (d.orders.get orderId)
  Prog.ofExcept (checkOwnership currentUser order.owned)
  return order

/-- `session.refresh(order, attribute_names=['items'])` -/
def selectItems (orderId : Uuid) : Tx (List OrderItem) := do
  let d ← Prog.select
  return d.orderItems.rows.filter fun i => i.orderId = orderId

/-- The log entry of an order change. -/
def orderEntry (env : Env) (user : User) (order : OrderObj) (oldSnapshot : Option OrderObj)
    (action : String) : Option AuditLog :=
  logObjectChange env user.id order.id "order" action (oldSnapshot.map OrderObj.dump)
    (some order.dump) none

def logOrderChange (env : Env) (user : User) (order : OrderObj) (oldSnapshot : Option OrderObj)
    (action : String) : Tx Unit :=
  addLog (orderEntry env user order oldSnapshot action)

/-! ## Reading -/

/-- A member of the staff looks at an order of somebody else. -/
def User.inspects (currentUser : User) (order : Order) : Bool :=
  currentUser.id ≠ order.userId ∧ currentUser.isStaff

def getOrderForDetails (env : Env) (orderId : Uuid) (currentUser : User) : Tx Order := do
  let order ← getOrder orderId currentUser
  if currentUser.inspects order then
    Prog.save (.addAuditLog
      (logPiiAccess env currentUser.id order.id "order" (some "admin_pii_view")))
    Prog.commitWork
  return order

/-! ## Creation -/

/-- The order of a reservation, priced by the product row that was read. -/
def newOrder (env : Env) (currentUser : User) (orderData : OrderCreate)
    (reservation : Reservation) (product : Product) : OrderObj where
  id := env.uuid 0
  userId := currentUser.id
  status := .pending
  totalAmount := (Decimal.ofCents product.price.val).scale reservation.qtyReserved
  shippingAddress := orderData.shippingAddress
  createdAt := env.now
  items := []

def newOrderItem (env : Env) (reservation : Reservation) (product : Product) : OrderItemObj where
  id := env.uuid 1
  orderId := env.uuid 0
  productId := reservation.productId
  productName := product.name
  quantity := reservation.qtyReserved
  price := .ofCents product.price.val

def createOrderFromReservation (env : Env) (currentUser : User) (orderData : OrderCreate) :
    Tx OrderObj := do
  let reservation ← orNotFound (← selectReservationForUpdate orderData.reservationId fun r =>
    r.userId = currentUser.id ∧ r.status = .pending)
  raiseIf (reservation.expiresAt < env.now) .conflict
  raiseIf reservation.orderId.isSome .conflict
  let d ← Prog.select
  let product ← orNotFound (d.products.get reservation.productId)
  let order := newOrder env currentUser orderData reservation product
  Prog.save (.addOrder order env.now)
  let item := newOrderItem env reservation product
  Prog.save (.addOrderItem item)
  Prog.save (.linkOrder reservation.id order.id)
  -- the session sees its own flushed item next to the committed ones
  let stored ← selectItems order.id
  let order := { order with items := stored.map .load ++ [item] }
  logOrderChange env currentUser order none "create"
  Prog.commitWork
  return order

/-! ## Payment and cancellation -/

/-- The common body of payment and cancellation: move a pending order to a
status, then settle its reservation. -/
def settleOrder (env : Env) (orderId : Uuid) (currentUser : User) (status : OrderStatus)
    (action : String) (settleReservation : Tx Unit) : Tx OrderObj := do
  let order ← getOrderForUpdate orderId currentUser
  raiseIf (order.status ≠ .pending) .conflict
  let items ← selectItems orderId
  let oldSnapshot := OrderObj.load order items
  let settled := oldSnapshot.moved status
  Prog.save (.setOrderStatus order.id status env.now)
  logOrderChange env currentUser settled (some oldSnapshot) action
  settleReservation
  Prog.commitWork
  return settled

def confirmOrderPayment (env : Env) (orderId : Uuid) (currentUser : User) : Tx OrderObj :=
  settleOrder env orderId currentUser .paid "payment" (markReservationByOrderAsCompleted orderId)

def cancelOrder (env : Env) (orderId : Uuid) (currentUser : User) : Tx OrderObj :=
  settleOrder env orderId currentUser .cancelled "cancel"
    (cancelReservationByOrderAndReturnStock env orderId)

end FairDrop
