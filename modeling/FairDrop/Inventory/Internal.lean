import FairDrop.Database

/-!
# FairDrop.Inventory.Internal

What the order side may do to reservations and stock (`inventory/internal.py`).
None of it looks at the status of the reservation.
-/

namespace FairDrop

open RowStore

def markReservationAsCompleted (reservationId : Uuid) : Tx Unit := do
  let reservation ← orNotFound (← selectReservationForUpdate reservationId fun _ => true)
  Prog.save (.setReservationStatus reservation.id .completed)

def markReservationByOrderAsCompleted (orderId : Uuid) : Tx Unit := do
  let reservation ← orNotFound (← selectReservationByOrderForUpdate orderId)
  Prog.save (.setReservationStatus reservation.id .completed)

/-- `if product: product.qty_available += reservation.qty_reserved` -/
def returnStock (env : Env) (reservation : Reservation) : Option Product → Tx Unit
  | some product =>
      Prog.save (.setStock product.id (product.qtyAvailable.val + reservation.qtyReserved) env.now)
  | none => pure ()

def cancelReservationAndReturnStock (env : Env) (reservationId : Uuid) : Tx Unit := do
  let reservation ← orNotFound (← selectReservationForUpdate reservationId fun _ => true)
  let product ← selectProductForUpdate reservation.productId
  returnStock env reservation product
  Prog.save (.setReservationStatus reservation.id .cancelled)

def cancelReservationByOrderAndReturnStock (env : Env) (orderId : Uuid) : Tx Unit := do
  let reservation ← orNotFound (← selectReservationByOrderForUpdate orderId)
  let product ← selectProductForUpdate reservation.productId
  returnStock env reservation product
  Prog.save (.setReservationStatus reservation.id .cancelled)

def ensureProductExists (productId : Uuid) : Tx Unit := do
  let d ← Prog.select
  raiseIf ((d.products.get productId).isNone) .notFound

end FairDrop
