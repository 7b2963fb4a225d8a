import FairDrop.Database
import FairDrop.RowStore.Query
import FairDrop.Security

/-!
# FairDrop.Inventory.Service

Product CRUD, stock reservation and the moderation workflow
(`inventory/service.py`, `external/service.py`).
-/

namespace FairDrop

open RowStore Query

/-- An unordered query returns its rows in any order. -/
abbrev Scan (α : Type) := { f : List α → List α // ∀ l, (f l).Perm l }

/-- `if status: stmt = stmt.where(column == status)` -/
def Selected {σ : Type} (status : Option σ) (value : σ) : Prop := ∀ s ∈ status, value = s

instance {σ : Type} [DecidableEq σ] (status : Option σ) (value : σ) :
    Decidable (Selected status value) :=
  match status with
  | none => isTrue fun _ h => by simp at h
  | some s => decidable_of_iff (value = s) (by simp [Selected])

/-- Without a status the filter lets every row through. -/
theorem selected_iff {σ : Type} {status : Option σ} {value : σ} :
    Selected status value ↔ status = none ∨ status = some value := by
  cases status with
  | none => simp [Selected]
  | some s => simp [Selected, eq_comm]

/-! ## Helpers -/

/-- `session.refresh(product)` -/
def refreshProduct (id : Uuid) : Tx Product := do
  let d ← Prog.select
  orStale (d.products.get id)

def checkSellerLimit (env : Env) (user : User) : Tx Unit :=
  if user.role = .admin ∨ user.role = .moderator then pure ()
  else do
    let d ← Prog.select
    let productCount := (d.products.rows.filter fun p => p.ownerId = user.id).length
    let limit :=
      if (user.role = .seller ∨ user.role = .sellerB2b) ∧ user.isVerified then
        env.settings.verifiedSellerLimit
      else env.settings.unverifiedSellerLimit
    raiseIf (limit ≤ productCount)
      (.sellerLimitExceeded s!"Limit of {limit} products reached for your account type")

/-- `if current_user: check_ownership(current_user, product)` -/
def checkCurrentUser (currentUser : Option User) (product : Product) : Except Failure Unit :=
  match currentUser with
  | some user => checkOwnership user product.owned
  | none => .ok ()

/-- `_get_product(…, for_update=True)` -/
def getProductForUpdate (id : Uuid) (currentUser : Option User) : Tx Product := do
  let product ← orNotFound (← selectProductForUpdate id)
  Prog.ofExcept (checkCurrentUser currentUser product)
  return product

/-- The log entry of a product change; the new snapshot has to validate. -/
def productEntry (env : Env) (user : User) (product : ProductObj)
    (oldSnapshot : Option ProductRead) (action : String) (metadata : Option Snapshot) :
    Except Failure (Option AuditLog) := do
  let new ← ProductRead.modelValidate product
  return logObjectChange env user.id product.id "product" action (oldSnapshot.map ProductRead.dump)
    (some new.dump) metadata

def logProductChange (env : Env) (user : User) (product : ProductObj)
    (oldSnapshot : Option ProductRead) (action : String) (metadata : Option Snapshot) :
    Tx Unit := do
  addLog (← Prog.ofExcept (productEntry env user product oldSnapshot action metadata))

/-! ## Products -/

def createProduct (env : Env) (ownerId : Uuid) (productData : ProductCreate) (currentUser : User) :
    Tx Product := do
  checkSellerLimit env currentUser
  let newProduct := ProductObj.create productData ownerId (env.uuid 0) env.now
  Prog.save (.addProduct newProduct)
  logProductChange env currentUser newProduct none "create" none
  Prog.commitWork
  refreshProduct newProduct.id

/-- What a seller's payload makes of a product: editing an active one sends it
back to moderation. -/
def ProductObj.edit (product : ProductObj) (productData : ProductUpdate) : ProductObj :=
  let edited := product.assign productData
  if edited.status = .active then
    { edited with status := .pendingModeration, moderatorId := none }
  else edited

@[simp] theorem ProductObj.id_edit (p : ProductObj) (data : ProductUpdate) :
    (p.edit data).id = p.id := by
  simp only [edit]
  split <;> rfl

@[simp] theorem ProductObj.name_edit (p : ProductObj) (data : ProductUpdate) :
    (p.edit data).name = data.name.getD p.name := by
  unfold edit
  dsimp only
  split <;> rfl

@[simp] theorem ProductObj.price_edit (p : ProductObj) (data : ProductUpdate) :
    (p.edit data).price = (data.price.map (Option.map Subtype.val)).getD p.price := by
  unfold edit
  dsimp only
  split <;> rfl

@[simp] theorem ProductObj.qtyAvailable_edit (p : ProductObj) (data : ProductUpdate) :
    (p.edit data).qtyAvailable =
      (data.qtyAvailable.map (Option.map Subtype.val)).getD p.qtyAvailable := by
  unfold edit
  dsimp only
  split <;> rfl

def updateProduct (env : Env) (productId : Uuid) (productData : ProductUpdate)
    (currentUser : User) : Tx Product := do
  let product ← getProductForUpdate productId (some currentUser)
  raiseIf (product.status = .pendingModeration ∨ product.status = .moderationInProgress)
    (.conflict "Cannot edit product while it is under moderation")
  let oldSnapshot ← Prog.ofExcept (ProductRead.modelValidate (.load product))
  let edited := (ProductObj.load product).edit productData
  Prog.save (.updateProduct edited env.now)
  logProductChange env currentUser edited (some oldSnapshot) "update" none
  Prog.commitWork
  refreshProduct productId

/-- The products that the query of `get_products` finds. -/
def productPage (scan : Scan Product) (status : Option ProductStatus) (skip limit : Nat) (d : Db) :
    List Product :=
  page skip limit (scan.val (d.products.rows.filter fun p => Selected status p.status))

/-- `get_products`, the images of the products left out. -/
def getProducts (scan : Scan Product) (status : Option ProductStatus) (skip limit : Nat) :
    Tx (List Product) := do
  let d ← Prog.select
  return productPage scan status skip limit d

/-- `get_external_catalog`: the active products, ordered by name. -/
def getExternalCatalog (scan : Scan Product) : Tx (List Product) := do
  let d ← Prog.select
  let active := d.products.rows.filter fun p => p.status = .active
  return (scan.val active).mergeSort fun p q => p.name ≤ q.name

/-! ## Moderation -/

/-- One kind of status change of a product: from which statuses, to which, and
who is recorded as its moderator. -/
structure Move where
  allowed : ProductStatus → Bool
  status : ProductStatus
  moderator : Option Uuid → Option Uuid
  action : String

def Move.submit : Move where
  allowed s := s = .draft ∨ s = .rejected
  status := .pendingModeration
  moderator _ := none
  action := "submit_for_moderation"

def Move.changeStatus (status : ProductStatus) : Move where
  allowed _ := true
  status := status
  moderator m := m
  action := "update"

def Move.claim (moderatorId : Uuid) : Move where
  allowed s := s = .pendingModeration
  status := .moderationInProgress
  moderator _ := some moderatorId
  action := "claim_for_moderation"

def Move.approve : Move where
  allowed s := s = .moderationInProgress
  status := .active
  moderator _ := none
  action := "approve"

def Move.reject : Move where
  allowed s := s = .moderationInProgress
  status := .rejected
  moderator _ := none
  action := "reject"

/-- The instance of a product after a move. -/
def Move.apply (m : Move) (product : Product) : ProductObj :=
  { ProductObj.load product with status := m.status, moderatorId := m.moderator product.moderatorId }

/-- The common body of the moderation operations; `owner` is the user whose
ownership is checked. -/
def moveProduct (env : Env) (m : Move) (productId : Uuid) (owner : Option User) (actor : User)
    (metadata : Option Snapshot) : Tx Product := do
  let product ← getProductForUpdate productId owner
  raiseIf (m.allowed product.status = false) .conflict
  let oldSnapshot ← Prog.ofExcept (ProductRead.modelValidate (.load product))
  Prog.save (.updateProduct (m.apply product) env.now)
  logProductChange env actor (m.apply product) (some oldSnapshot) m.action metadata
  Prog.commitWork
  refreshProduct productId

def submitForModeration (env : Env) (productId : Uuid) (currentUser : User) : Tx Product :=
  moveProduct env .submit productId (some currentUser) currentUser none

def changeStatus (env : Env) (productId : Uuid) (status : ProductStatus) (currentUser : User) :
    Tx Product :=
  moveProduct env (.changeStatus status) productId none currentUser none

def claimForModeration (env : Env) (productId : Uuid) (moderatorUser : User) : Tx Product :=
  moveProduct env (.claim moderatorUser.id) productId none moderatorUser none

def approveProduct (env : Env) (productId : Uuid) (moderatorUser : User) : Tx Product :=
  moveProduct env .approve productId none moderatorUser none

def rejectProduct (env : Env) (productId : Uuid) (moderatorUser : User) (reason : String) :
    Tx Product :=
  moveProduct env .reject productId none moderatorUser (some [("reason", .str reason)])

/-! ## Reservations -/

/-- `session.refresh(reservation)` -/
def refreshReservation (id : Uuid) : Tx Reservation := do
  let d ← Prog.select
  orStale (d.reservations.get id)

def microsPerMinute : Int := 60000000

/-- The `Reservation` that a reserve request adds. -/
def newReservation (env : Env) (userId : Uuid) (idempotencyKey : String)
    (reservationData : ReservationCreate) : Reservation where
  id := env.uuid 0
  qtyReserved := reservationData.quantity.val
  userId := userId
  productId := reservationData.productId
  status := .pending
  idempotencyKey := idempotencyKey
  orderId := none
  expiresAt := env.now + env.settings.reserveTimeoutMinutes * microsPerMinute

def reserveItems (env : Env) (userId : Uuid) (idempotencyKey : String)
    (reservationData : ReservationCreate) : Tx Reservation := do
  let product ← orNotFound (← selectProductForUpdate reservationData.productId)
  raiseIf (product.qtyAvailable.val < reservationData.quantity.val) .insufficientInventory
  Prog.save (.setStock product.id (product.qtyAvailable.val - reservationData.quantity.val) env.now)
  let reservation := newReservation env userId idempotencyKey reservationData
  Prog.save (.addReservation reservation)
  try
    Prog.commitWork
    refreshReservation reservation.id
  catch e =>
    match e with
    | .integrityError => do
        Prog.rollbackWork
        throw .conflict
    | e => throw e

end FairDrop
