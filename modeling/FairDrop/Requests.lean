import FairDrop.Inventory.Tasks
import FairDrop.Orders.Service

/-!
# FairDrop.Requests

The operations on the store as one type, so that runs can mix them: each call
is one request, or one iteration of the expiry sweep, in a session of its own.

`Call.perform` runs a call alone; `run` performs a list of calls one after the
other.
-/

namespace FairDrop

open RowStore

inductive Call where
  | createProduct (ownerId : Uuid) (productData : ProductCreate) (currentUser : User)
  | updateProduct (productId : Uuid) (productData : ProductUpdate) (currentUser : User)
  | submitForModeration (productId : Uuid) (currentUser : User)
  | changeStatus (productId : Uuid) (status : ProductStatus) (currentUser : User)
  | claimForModeration (productId : Uuid) (moderatorUser : User)
  | approveProduct (productId : Uuid) (moderatorUser : User)
  | rejectProduct (productId : Uuid) (moderatorUser : User) (reason : String)
  | reserveItems (userId : Uuid) (idempotencyKey : String) (reservationData : ReservationCreate)
  | createOrder (currentUser : User) (orderData : OrderCreate)
  | confirmOrderPayment (orderId : Uuid) (currentUser : User)
  | cancelOrder (orderId : Uuid) (currentUser : User)
  /-- One iteration of the sweep, over this reservation. -/
  | releaseReservation (resId : Uuid)

inductive Response where
  | product (p : Product)
  | reservation (r : Reservation)
  | order (o : OrderObj)
  | none

def Call.service (env : Env) : Call → Tx Response
  | .createProduct ownerId data user => .product <$> FairDrop.createProduct env ownerId data user
  | .updateProduct id data user => .product <$> FairDrop.updateProduct env id data user
  | .submitForModeration id user => .product <$> FairDrop.submitForModeration env id user
  | .changeStatus id status user => .product <$> FairDrop.changeStatus env id status user
  | .claimForModeration id user => .product <$> FairDrop.claimForModeration env id user
  | .approveProduct id user => .product <$> FairDrop.approveProduct env id user
  | .rejectProduct id user reason => .product <$> FairDrop.rejectProduct env id user reason
  | .reserveItems userId key data => .reservation <$> FairDrop.reserveItems env userId key data
  | .createOrder user data => .order <$> createOrderFromReservation env user data
  | .confirmOrderPayment id user => .order <$> FairDrop.confirmOrderPayment env id user
  | .cancelOrder id user => .order <$> FairDrop.cancelOrder env id user
  | .releaseReservation id => (fun _ => .none) <$> releaseIteration env workerExpireOnCommit id

/-- A call in its own session. -/
def Call.program (env : Env) (c : Call) : Tx Response := Prog.inSession (c.service env)

/-- A call with its surroundings and the statements that the database fails. -/
structure Request where
  call : Call
  env : Env
  faults : List Bool

def Request.perform (q : Request) (d : Db) : Outcome Db Write Failure Response :=
  exec store (q.call.program q.env) q.faults d [] .fresh

/-- The database after a request that ran alone. -/
def step (d : Db) (q : Request) : Db := (q.perform d).db

/-- The database after a list of requests. -/
def run (d : Db) (qs : List Request) : Db := qs.foldl step d

theorem run_append (d : Db) (qs qs' : List Request) : run d (qs ++ qs') = run (run d qs) qs' :=
  List.foldl_append

/-- An invariant of every request is an invariant of every run. -/
theorem run_induct {I : Db → Prop} (h : ∀ d q, I d → I (step d q)) {d : Db} (hd : I d)
    (qs : List Request) : I (run d qs) := by
  induction qs generalizing d with
  | nil => exact hd
  | cons q qs ih => exact ih (h d q hd)

/-! ## A small shop

Data for concrete runs. -/

/-- Surroundings at time `now` that draw the ids `n`, `n + 1`, … -/
def shopEnv (now : Timestamp) (n : Uuid) : Env where
  now := now
  uuid := fun k => n + k
  requestId := none
  remoteIp := none
  settings := { reserveTimeoutMinutes := 15 }

def seller : User := ⟨1, .seller, true⟩
def moderator : User := ⟨2, .moderator, true⟩
def buyer : User := ⟨3, .user, true⟩

/-! Quantities to reserve. -/

def one : PosInt := ⟨1, by decide⟩
def two : PosInt := ⟨2, by decide⟩
def three : PosInt := ⟨3, by decide⟩

/-- Ten lamps at 9.99. -/
def lamp : ProductCreate where
  name := "Lamp"
  description := none
  price := ⟨⟨999, -2⟩, by decide⟩
  qtyAvailable := ⟨10, by decide⟩

/-- A request at time `now` that no statement fails. -/
def Call.at (c : Call) (now : Timestamp) (n : Uuid) : Request := ⟨c, shopEnv now n, []⟩

end FairDrop
