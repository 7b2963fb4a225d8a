import FairDrop.Inventory.Service

/-!
# FairDrop.SellerUser.Service

A seller's products, orders and statistics (`seller_user/service.py`).  The
order in which a query without an `ORDER BY` answers, and the order of rows that
`ORDER BY` leaves open, are a `Scan`.
-/

namespace FairDrop

open RowStore Query

/-- `selectinload`: a loader sends its query only if there are keys to look for. -/
def loadIn {α : Type} (keys : List Uuid) (rows : Db → List α) : Tx (List α) :=
  if keys = [] then return []
  else do
    let d ← Prog.select
    return rows d

namespace SellerUser

/-- `SellerProductRead` -/
structure SellerProductRead where
  id : Uuid
  name : String
  description : Option String
  price : Decimal
  qtyAvailable : Int
  status : ProductStatus
  moderationComment : Option String
  createdAt : Timestamp
  updatedAt : Timestamp
  deriving DecidableEq

/-- `SellerOrderItemRead` -/
structure SellerOrderItemRead where
  id : Uuid
  productId : Uuid
  productName : String
  quantity : Int
  price : Decimal
  deriving DecidableEq

/-- `SellerOrderRead` -/
structure SellerOrderRead where
  id : Uuid
  status : OrderStatus
  createdAt : Timestamp
  shippingAddress : Option String
  sellerItems : List SellerOrderItemRead
  deriving DecidableEq

/-- `SellerStats` -/
structure SellerStats where
  totalProducts : Nat
  activeProducts : Nat
  pendingModeration : Nat
  rejectedProducts : Nat
  pendingOrders : Nat
  paidOrders : Nat
  deriving DecidableEq

def getMyProducts (scan : Scan Product) (userId : Uuid) (status : Option ProductStatus) :
    Tx (List Product) := do
  let d ← Prog.select
  let mine := d.products.rows.filter fun p => p.ownerId = userId ∧ Selected status p.status
  return (scan.val mine).mergeSort fun p q => q.createdAt ≤ p.createdAt

/-- `SellerProductRead.model_validate(p)` -/
def SellerProductRead.modelValidate (p : Product) : SellerProductRead where
  id := p.id
  name := p.name
  description := p.description
  price := .ofCents p.price.val
  qtyAvailable := p.qtyAvailable.val
  status := p.status
  moderationComment := p.moderationComment
  createdAt := p.createdAt
  updatedAt := p.updatedAt

/-- `GET /seller_user/products` -/
def fetchMyProducts (scan : Scan Product) (currentUserId : Uuid) (status : Option ProductStatus) :
    Tx (List SellerProductRead) := do
  let products ← getMyProducts scan currentUserId status
  return products.map .modelValidate

/-- `Order JOIN OrderItem JOIN Product WHERE Product.owner_id == user_id` -/
def soldRows (d : Db) (userId : Uuid) : List ((Order × OrderItem) × Product) :=
  (join (join d.orders.rows d.orderItems.rows fun order item => item.orderId = order.id)
    d.products.rows fun (_, item) product => product.id = item.productId).filter
      fun (_, product) => product.ownerId = userId

/-- `SellerOrderItemRead(id=item.id, …)` -/
def SellerOrderItemRead.ofItem (item : OrderItem) : SellerOrderItemRead where
  id := item.id
  productId := item.productId
  productName := item.productName
  quantity := item.quantity
  price := .ofCents item.price.val

/-- `[… for item in order.items if item.product.owner_id == user_id]`; without a
row behind it, `item.product` is `None`. -/
def myItems (products : List Product) (userId : Uuid) :
    List OrderItem → Except Failure (List SellerOrderItemRead)
  | [] => .ok []
  | item :: items => do
      let some product := products.find? fun p => p.id = item.productId
        | throw .attributeError
      let rest ← myItems products userId items
      return if product.ownerId = userId then .ofItem item :: rest else rest

def displayAddress (order : Order) : Option String :=
  if order.status ∉ [OrderStatus.pending, .failed, .cancelled] then order.shippingAddress else none

/-- One pass of `for order in orders`. -/
def sellerOrder (products : List Product) (items : List OrderItem) (userId : Uuid)
    (order : Order) : Except Failure SellerOrderRead := do
  let myItems ← myItems products userId (items.filter fun i => i.orderId = order.id)
  return {
    id := order.id
    status := order.status
    createdAt := order.createdAt
    shippingAddress := displayAddress order
    sellerItems := myItems }

/-- The orders in which the queries of `get_my_orders` answer. -/
structure OrderScans where
  ids : Scan Uuid
  orders : Scan Order
  items : Scan OrderItem

def getMyOrders (scans : OrderScans) (userId : Uuid) (status : Option OrderStatus) :
    Tx (List SellerOrderRead) := do
  let d ← Prog.select
  let sold := (soldRows d userId).filter fun ((order, _), _) => Selected status order.status
  let orderIds := scans.ids.val (sold.map fun ((order, _), _) => order.id)
  if orderIds = [] then return []
  let d ← Prog.select
  let orders := (scans.orders.val (d.orders.rows.filter fun o => o.id ∈ orderIds)).mergeSort
    fun o o' => o'.createdAt ≤ o.createdAt
  let items ← loadIn (orders.map Order.id) fun d =>
    scans.items.val (d.orderItems.rows.filter fun i => i.orderId ∈ orders.map Order.id)
  let products ← loadIn (items.map OrderItem.productId) fun d =>
    d.products.rows.filter fun p => p.id ∈ items.map OrderItem.productId
  Prog.ofExcept (orders.mapM (sellerOrder products items userId))

/-- The orders in which the queries of `get_my_stats` answer. -/
structure StatScans where
  products : Scan (ProductStatus × Nat)
  orders : Scan (OrderStatus × Nat)

def getMyStats (scans : StatScans) (userId : Uuid) : Tx SellerStats := do
  let d ← Prog.select
  let prodCounts := scans.products.val (groupBy Product.status List.length
    (d.products.rows.filter fun p => p.ownerId = userId))
  let d ← Prog.select
  let orderCounts := scans.orders.val (groupBy (fun ((order, _), _) => order.status)
    (countDistinct fun ((order, _), _) => order.id) (soldRows d userId))
  return {
    totalProducts := (prodCounts.map Prod.snd).sum
    activeProducts := getD prodCounts .active 0
    pendingModeration := getD prodCounts .pendingModeration 0
    rejectedProducts := getD prodCounts .rejected 0
    pendingOrders := getD orderCounts .pending 0
    paidOrders := getD orderCounts .paid 0 }

end SellerUser

end FairDrop
