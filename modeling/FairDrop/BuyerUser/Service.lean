import FairDrop.SellerUser.Service

/-!
# FairDrop.BuyerUser.Service

A buyer's orders and statistics (`buyer_user/service.py`).
-/

namespace FairDrop

open RowStore Query

namespace BuyerUser

/-- `BuyerStats` -/
structure BuyerStats where
  totalOrders : Nat
  pendingOrders : Nat
  paidOrders : Nat
  shippedOrders : Nat
  deriving DecidableEq

def getMyOrders (scan : Scan Order) (scanItems : Scan OrderItem) (userId : Uuid)
    (status : Option OrderStatus) : Tx (List OrderObj) := do
  let d ← Prog.select
  let mine := d.orders.rows.filter fun o => o.userId = userId ∧ Selected status o.status
  let orders := (scan.val mine).mergeSort fun o o' => o'.createdAt ≤ o.createdAt
  let items ← loadIn (orders.map Order.id) fun d =>
    scanItems.val (d.orderItems.rows.filter fun i => i.orderId ∈ orders.map Order.id)
  return orders.map fun o => .load o (items.filter fun i => i.orderId = o.id)

def getMyStats (scan : Scan (OrderStatus × Nat)) (userId : Uuid) : Tx BuyerStats := do
  let d ← Prog.select
  let counts := scan.val (groupBy Order.status List.length
    (d.orders.rows.filter fun o => o.userId = userId))
  return {
    totalOrders := (counts.map Prod.snd).sum
    pendingOrders := getD counts .pending 0
    paidOrders := getD counts .paid 0
    shippedOrders := getD counts .shipped 0 }

end BuyerUser

end FairDrop
