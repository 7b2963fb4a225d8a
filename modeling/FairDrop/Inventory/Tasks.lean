import FairDrop.Inventory.Service
import FairDrop.Orders.Internal

/-!
# FairDrop.Inventory.Tasks

The expiry sweep (`inventory/tasks.py`) as the worker runs it (`worker.py`).

One session serves all iterations.  Its identity map keeps the product instance
that the local variable `product` still refers to; a later `SELECT … FOR UPDATE`
of the same product locks the row but leaves the loaded attributes alone.  A
commit expires the instance only if the session maker says so
(`expire_on_commit`); a rollback always does.
-/

namespace FairDrop

open RowStore

/-- The in-memory `qty_available` of a product just selected in a session: a
loaded instance is not refreshed. -/
def Session.qtyAvailable (s : Session) (product : Product) : Int :=
  match s.product with
  | some (id, qty) => if id = product.id then qty else product.qtyAvailable.val
  | none => product.qtyAvailable.val

/-- `if product: product.qty_available += reservation.qty_reserved`, in the
worker's session; the local variable now refers to this product. -/
def returnStockInSession (env : Env) (reservation : Reservation) : Option Product → Tx Unit
  | some product => do
      let session ← Prog.getSession
      let qty := session.qtyAvailable product + reservation.qtyReserved
      Prog.save (.setStock product.id qty env.now)
      Prog.putSession ⟨some (product.id, qty)⟩
  | none => Prog.putSession .fresh

/-- `if reservation.order_id is not None: await cancel_order_by_system(…)` -/
def cancelLinkedOrder (env : Env) (reservation : Reservation) : Tx Unit :=
  match reservation.orderId with
  | some orderId => cancelOrderBySystem env orderId
  | none => pure ()

/-- The end of a transaction in the worker's session. -/
def commitInSession (expireOnCommit : Bool) : Tx Unit := do
  Prog.commitWork
  if expireOnCommit then Prog.putSession .fresh else pure ()

/-- The body of the loop.  A reservation that is gone or not pending any more
is skipped with its lock kept: `continue` leaves the iteration before the commit. -/
def releaseReservation (env : Env) (expireOnCommit : Bool) (resId : Uuid) : Tx Unit := do
  match ← selectReservationForUpdate resId fun _ => true with
  | none => pure ()
  | some reservation =>
      if reservation.status ≠ .pending then pure ()
      else do
        let product ← selectProductForUpdate reservation.productId
        returnStockInSession env reservation product
        Prog.save (.setReservationStatus reservation.id .expired)
        cancelLinkedOrder env reservation
        commitInSession expireOnCommit

/-- One iteration: a failure is rolled back and logged, and the loop goes on. -/
def releaseIteration (env : Env) (expireOnCommit : Bool) (resId : Uuid) : Tx Unit :=
  tryCatch (releaseReservation env expireOnCommit resId) fun _ => do
    Prog.rollbackWork
    Prog.putSession .fresh

def releaseAll (env : Env) (expireOnCommit : Bool) : List Uuid → Tx Unit
  | [] => pure ()
  | resId :: resIds => do
      releaseIteration env expireOnCommit resId
      releaseAll env expireOnCommit resIds

/-- The ids of the reservations that are due. -/
def expiredIds (d : Db) (now : Timestamp) : List Uuid :=
  (d.reservations.rows.filter fun r => r.status = .pending ∧ r.expiresAt < now).map (·.id)

def releaseExpiredReservations (env : Env) (expireOnCommit : Bool) (scan : Scan Uuid) :
    Tx Unit := do
  let d ← Prog.select
  releaseAll env expireOnCommit (scan.val (expiredIds d env.now))

/-- `async_sessionmaker(engine, expire_on_commit=False)` -/
def workerExpireOnCommit : Bool := false

end FairDrop
