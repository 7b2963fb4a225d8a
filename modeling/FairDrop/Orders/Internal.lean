import FairDrop.Database

/-!
# FairDrop.Orders.Internal

What the inventory side may do to an order (`orders/internal.py`).
-/

namespace FairDrop

open RowStore

/-- `cancel_order_by_system`: whatever status the order has. -/
def cancelOrderBySystem (env : Env) (orderId : Uuid) : Tx Unit := do
  let order ← orNotFound (← selectOrderForUpdate orderId)
  Prog.save (.setOrderStatus order.id .cancelled env.now)

end FairDrop
