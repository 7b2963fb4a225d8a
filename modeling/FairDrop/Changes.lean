import FairDrop.Requests

/-!
# FairDrop.Changes

What each operation is for, as a relation between the database before and
after: the one unit of work that a call may commit.  The constructors of
`Change` speak about rows; how the services get there (locks, snapshots,
failing statements, the order of the writes) is the matter of
`FairDrop.Commits`, which proves that they do nothing else.

The flag `alone` says that nobody else runs.  It matters to one operation:
`createOrder` prices the order by a product row that it does not lock.
-/

namespace FairDrop

open RowStore

/-! ## Pieces -/

/-- The moderation operations: the move, the product, the user whose ownership
is checked, the acting user and the extra data of the log entry. -/
structure Moderation where
  move : Move
  productId : Uuid
  owner : Option User
  actor : User
  metadata : Option Snapshot

def Call.moderation : Call → Option Moderation
  | .submitForModeration id user => some ⟨.submit, id, some user, user, none⟩
  | .changeStatus id status user => some ⟨.changeStatus status, id, none, user, none⟩
  | .claimForModeration id user => some ⟨.claim user.id, id, none, user, none⟩
  | .approveProduct id user => some ⟨.approve, id, none, user, none⟩
  | .rejectProduct id user reason =>
      some ⟨.reject, id, none, user, some [("reason", .str reason)]⟩
  | .createProduct _ _ _ | .updateProduct _ _ _ | .reserveItems _ _ _ | .createOrder _ _
  | .confirmOrderPayment _ _ | .cancelOrder _ _ | .releaseReservation _ => none

/-- The units of `r` go back to its product. -/
def Restocks (env : Env) (d : Db) (r : Reservation) (products : Table Product) : Prop :=
  ∃ p q, d.products.get r.productId = some p ∧ q.val = p.qtyAvailable.val + r.qtyReserved ∧
    products = d.products.set { p with qtyAvailable := q, updatedAt := env.now }

/-- The order of a released reservation, if there is one, is cancelled. -/
def CancelsLinked (env : Env) (d : Db) (r : Reservation) (orders : Table Order) : Prop :=
  match r.orderId with
  | none => orders = d.orders
  | some orderId => ∃ o, d.orders.get orderId = some o ∧
      orders = d.orders.set (o.move .cancelled env.now)

/-- `o` is the order that `user` makes of the reservation `r` of `p`, and `i`
its item. -/
structure Ordered (env : Env) (user : User) (data : OrderCreate) (r : Reservation) (p : Product)
    (o : Order) (i : OrderItem) : Prop where
  id : o.id = env.uuid 0
  userId : o.userId = user.id
  status : o.status = .pending
  totalAmount : o.totalAmount.val = p.price.val * r.qtyReserved
  shippingAddress : o.shippingAddress = data.shippingAddress
  itemId : i.id = env.uuid 1
  orderId : i.orderId = o.id
  productId : i.productId = r.productId
  productName : i.productName = p.name
  quantity : i.quantity = r.qtyReserved
  price : i.price.val = p.price.val

/-! ## Units of work -/

inductive Change (env : Env) (alone : Bool) (d : Db) : Call → Db → Prop
  | createProduct {ownerId data user} (p : Product) (entry : Option AuditLog)
      (hs : (ProductObj.create data ownerId (env.uuid 0) env.now).StoredAs p)
      (hnew : d.products.get p.id = none)
      (hlog : productEntry env user (.create data ownerId (env.uuid 0) env.now) none "create" none =
        .ok entry) :
      Change env alone d (.createProduct ownerId data user)
        { d with
          products := d.products.insert p hnew
          auditLogs := d.auditLogs ++ entry.toList }
  | updateProduct {id data user} (p p' : Product) (old : ProductRead) (entry : Option AuditLog)
      (hget : d.products.get id = some p) (howner : checkOwnership user p.owned = .ok ())
      (hfree : ¬ (p.status = .pendingModeration ∨ p.status = .moderationInProgress))
      (hs : ((ProductObj.load p).edit data).StoredAs p')
      (hold : ProductRead.modelValidate (.load p) = .ok old)
      (hlog : productEntry env user ((ProductObj.load p).edit data) (some old) "update" none =
        .ok entry) :
      Change env alone d (.updateProduct id data user)
        { d with products := d.products.set p', auditLogs := d.auditLogs ++ entry.toList }
  | moderate {c m} (p p' : Product) (old : ProductRead) (entry : Option AuditLog)
      (hc : Call.moderation c = some m) (hget : d.products.get m.productId = some p)
      (howner : checkCurrentUser m.owner p = .ok ())
      (hallowed : m.move.allowed p.status = true) (hs : (m.move.apply p).StoredAs p')
      (hold : ProductRead.modelValidate (.load p) = .ok old)
      (hlog : productEntry env m.actor (m.move.apply p) (some old) m.move.action m.metadata =
        .ok entry) :
      Change env alone d c
        { d with products := d.products.set p', auditLogs := d.auditLogs ++ entry.toList }
  | reserveItems {userId key data} (p : Product) (q : Stock)
      (hget : d.products.get data.productId = some p)
      (hq : q.val = p.qtyAvailable.val - data.quantity.val)
      (hkey : ∀ r ∈ d.reservations.rows, r.idempotencyKey ≠ key)
      (hnew : d.reservations.get (newReservation env userId key data).id = none) :
      Change env alone d (.reserveItems userId key data)
        { d with
          products := d.products.set { p with qtyAvailable := q, updatedAt := env.now }
          reservations := d.reservations.insert (newReservation env userId key data) hnew }
  | createOrder {user data} (r : Reservation) (p : Product) (o : Order) (i : OrderItem)
      (stored : List OrderItem)
      (hget : d.reservations.get data.reservationId = some r) (howner : r.userId = user.id)
      (hstatus : r.status = .pending) (hdue : ¬ r.expiresAt < env.now) (hlink : r.orderId = none)
      (hread : p.id = r.productId) (hp : alone = true → d.products.get r.productId = some p)
      (ho : d.orders.get o.id = none) (hi : d.orderItems.get i.id = none)
      (hord : Ordered env user data r p o i) :
      Change env alone d (.createOrder user data)
        { d with
          reservations := d.reservations.set { r with orderId := some o.id }
          orders := d.orders.insert o ho
          orderItems := d.orderItems.insert i hi
          auditLogs := d.auditLogs ++ (orderEntry env user
            { newOrder env user data r p with
              items := stored.map .load ++ [newOrderItem env r p] } none "create").toList }
  | confirmOrderPayment {orderId user} (o : Order) (r : Reservation) (items : List OrderItem)
      (hget : d.orders.get orderId = some o) (howner : checkOwnership user o.owned = .ok ())
      (hstatus : o.status = .pending) (hr : r ∈ d.reservations.rows)
      (hlink : r.orderId = some orderId) :
      Change env alone d (.confirmOrderPayment orderId user)
        { d with
          reservations := d.reservations.set { r with status := .completed }
          orders := d.orders.set (o.move .paid env.now)
          auditLogs := d.auditLogs ++ (orderEntry env user
            ((OrderObj.load o items).moved .paid) (some (.load o items)) "payment").toList }
  | cancelOrder {orderId user} (o : Order) (r : Reservation) (products : Table Product)
      (items : List OrderItem)
      (hget : d.orders.get orderId = some o) (howner : checkOwnership user o.owned = .ok ())
      (hstatus : o.status = .pending) (hr : r ∈ d.reservations.rows)
      (hlink : r.orderId = some orderId) (hstock : Restocks env d r products) :
      Change env alone d (.cancelOrder orderId user)
        { d with
          products := products
          reservations := d.reservations.set { r with status := .cancelled }
          orders := d.orders.set (o.move .cancelled env.now)
          auditLogs := d.auditLogs ++ (orderEntry env user
            ((OrderObj.load o items).moved .cancelled) (some (.load o items)) "cancel").toList }
  | releaseReservation {resId} (r : Reservation) (products : Table Product)
      (orders : Table Order) (hget : d.reservations.get resId = some r)
      (hstatus : r.status = .pending) (hstock : Restocks env d r products)
      (horders : CancelsLinked env d r orders) :
      Change env alone d (.releaseReservation resId)
        { d with
          products := products
          reservations := d.reservations.set { r with status := .expired }
          orders := orders }

/-- What a pass of the sweep commits for a reservation.  Only if its session saw
the product as it is committed (`exact`) does the shelf gain the units of the
reservation and nothing else. -/
inductive Release (exact : Prop) (env : Env) (d : Db) : Uuid → Db → Prop
  | mk {resId} (r : Reservation) (p : Product) (q : Stock) (orders : Table Order)
      (hget : d.reservations.get resId = some r) (hstatus : r.status = .pending)
      (hp : d.products.get r.productId = some p)
      (hq : exact → q.val = p.qtyAvailable.val + r.qtyReserved)
      (horders : CancelsLinked env d r orders) :
      Release exact env d resId
        { d with
          products := d.products.set { p with qtyAvailable := q, updatedAt := env.now }
          reservations := d.reservations.set { r with status := .expired }
          orders := orders }

theorem Release.change {exact : Prop} {env : Env} {alone : Bool} {d d' : Db} {id : Uuid}
    (h : Release exact env d id d') (he : exact) :
    Change env alone d (.releaseReservation id) d' := by
  obtain ⟨r, p, q, orders, hget, hstatus, hp, hq, horders⟩ := h
  exact .releaseReservation r _ orders hget hstatus ⟨p, q, hp, hq he, rfl⟩ horders

end FairDrop
