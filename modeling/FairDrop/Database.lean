import FairDrop.RowStore.Guarantee
import FairDrop.Schemas

/-!
# FairDrop.Database

The tables as one database, the statements the services issue on it, and the
sessions they run in.

A flush is modelled as a list of `Write`s that take effect together at the
commit: the constraints of the schema (primary and unique keys, foreign keys,
`CHECK`s, column ranges) are checked there, and a refused write refuses the
whole unit of work.  Rows of products, reservations and orders can be locked
with `FOR UPDATE`.
-/

namespace FairDrop

open RowStore

/-! ## Tables -/

structure Db where
  products : Table Product
  reservations : Table Reservation
  orders : Table Order
  orderItems : Table OrderItem
  auditLogs : List AuditLog

def Db.empty : Db := ⟨.empty, .empty, .empty, .empty, []⟩

/-- A row that `SELECT … FOR UPDATE` can lock. -/
inductive Row where
  | product (id : Uuid)
  | reservation (id : Uuid)
  | order (id : Uuid)
  deriving DecidableEq

/-- What a row holds; `none` for a row that does not exist. -/
inductive RowVal where
  | product (p : Option Product)
  | reservation (r : Option Reservation)
  | order (o : Option Order)

def Db.view (d : Db) : Row → RowVal
  | .product id => .product (d.products.get id)
  | .reservation id => .reservation (d.reservations.get id)
  | .order id => .order (d.orders.get id)

def RowVal.Present : RowVal → Prop
  | .product p => p.isSome
  | .reservation r => r.isSome
  | .order o => o.isSome

/-! ## Writes -/

/-- An order row moved to a status; an unchanged attribute is not flushed, so
the `onupdate` of `updated_at` does not fire then. -/
def Order.move (o : Order) (status : OrderStatus) (now : Timestamp) : Order :=
  if o.status = status then o else { o with status := status, updatedAt := now }

/-- A move leaves the id alone. -/
@[simp] theorem Order.id_move (o : Order) (status : OrderStatus) (now : Timestamp) :
    (o.move status now).id = o.id := by
  unfold move
  split <;> rfl

/-- A move leaves the buyer alone. -/
@[simp] theorem Order.userId_move (o : Order) (status : OrderStatus) (now : Timestamp) :
    (o.move status now).userId = o.userId := by
  unfold move
  split <;> rfl

/-- A move leaves the total alone. -/
@[simp] theorem Order.totalAmount_move (o : Order) (status : OrderStatus) (now : Timestamp) :
    (o.move status now).totalAmount = o.totalAmount := by
  unfold move
  split <;> rfl

/-- A move sets the status. -/
@[simp] theorem Order.status_move (o : Order) (status : OrderStatus) (now : Timestamp) :
    (o.move status now).status = status := by
  unfold move
  split
  · next h => exact h
  · rfl

/-- `INSERT`s and `UPDATE`s with the values that the session holds. -/
inductive Write where
  | addProduct (p : ProductObj)
  | updateProduct (p : ProductObj) (now : Timestamp)
  /-- `UPDATE products SET qty_available`: the in-memory value. -/
  | setStock (id : Uuid) (qty : Int) (now : Timestamp)
  | addReservation (r : Reservation)
  | setReservationStatus (id : Uuid) (status : OrderStatus)
  /-- `UPDATE reservations SET order_id` -/
  | linkOrder (id orderId : Uuid)
  | addOrder (o : OrderObj) (now : Timestamp)
  | addOrderItem (i : OrderItemObj)
  | setOrderStatus (id : Uuid) (status : OrderStatus) (now : Timestamp)
  | addAuditLog (a : AuditLog)

/-- Add a row, or report the key that is already in use. -/
def addRow {α κ : Type} [Keyed α κ] [DecidableEq κ] (t : Table α) (r : α) :
    Except Failure (Table α) :=
  match t.insert? r with
  | some t' => .ok t'
  | none => .error .integrityError

/-- Fail with `e` unless `c` holds. -/
def demand (c : Prop) [Decidable c] (e : Failure) : Except Failure Unit :=
  if c then .ok () else .error e

/-- The row with a key; an `UPDATE` that matches no row is an error. -/
def storedRow {α κ : Type} [Keyed α κ] [DecidableEq κ] (t : Table α) (k : κ) : Except Failure α :=
  match t.get k with
  | some r => .ok r
  | none => .error .staleData

/-- Values of an `Integer` column. -/
def FitsInteger (n : Int) : Prop := -int32Max - 1 ≤ n ∧ n ≤ int32Max

instance (n : Int) : Decidable (FitsInteger n) := inferInstanceAs (Decidable (_ ∧ _))

def Write.apply : Write → Db → Except Failure Db
  | .addProduct p, d => do
      let row ← p.row
      let products ← addRow d.products row
      return { d with products := products }
  | .updateProduct p now, d => do
      let old ← storedRow d.products p.id
      if p.dirty old then
        let row ← p.row
        return { d with products := d.products.set { row with updatedAt := now } }
      else return d
  | .setStock id qty now, d => do
      let p ← storedRow d.products id
      let qty ← Stock.ofInt qty
      return { d with products := d.products.set { p with qtyAvailable := qty, updatedAt := now } }
  | .addReservation r, d => do
      demand (FitsInteger r.qtyReserved) .dataError
      demand (d.products.get r.productId).isSome .integrityError
      demand (∀ r' ∈ d.reservations.rows, r'.idempotencyKey ≠ r.idempotencyKey) .integrityError
      let reservations ← addRow d.reservations r
      return { d with reservations := reservations }
  | .setReservationStatus id status, d => do
      let r ← storedRow d.reservations id
      return { d with reservations := d.reservations.set { r with status := status } }
  | .linkOrder id orderId, d => do
      let r ← storedRow d.reservations id
      demand (d.orders.get orderId).isSome .integrityError
      return { d with reservations := d.reservations.set { r with orderId := some orderId } }
  | .addOrder o now, d => do
      let totalAmount ← Amount.ofDecimal o.totalAmount
      let orders ← addRow d.orders {
        id := o.id
        userId := o.userId
        status := o.status
        totalAmount := totalAmount
        shippingAddress := o.shippingAddress
        createdAt := o.createdAt
        updatedAt := now }
      return { d with orders := orders }
  | .addOrderItem i, d => do
      let price ← ItemPrice.ofDecimal i.price
      demand (FitsInteger i.quantity) .dataError
      demand (d.orders.get i.orderId).isSome .integrityError
      demand (d.products.get i.productId).isSome .integrityError
      let orderItems ← addRow d.orderItems {
        id := i.id
        orderId := i.orderId
        productId := i.productId
        productName := i.productName
        quantity := i.quantity
        price := price }
      return { d with orderItems := orderItems }
  | .setOrderStatus id status now, d => do
      let o ← storedRow d.orders id
      return { d with orders := d.orders.set (o.move status now) }
  | .addAuditLog a, d => .ok { d with auditLogs := d.auditLogs ++ [a] }

/-- PostgreSQL as the services see it. -/
def store : Store Db Row RowVal Write Failure where
  view := Db.view
  present := RowVal.Present
  apply := Write.apply
  outage := .operationalError

/-! ## What each write does -/

section
variable {d d' : Db}

/-- A sequence succeeds if both its parts do. -/
theorem bind_eq_ok {α β : Type} {x : Except Failure α} {f : α → Except Failure β} {b : β} :
    (x >>= f) = .ok b ↔ ∃ a, x = .ok a ∧ f a = .ok b := by
  cases x with
  | error e => simp [bind, Except.bind]
  | ok a => simp [bind, Except.bind]

/-- A value is its own success. -/
theorem pure_eq_ok {α : Type} {a b : α} : (pure a : Except Failure α) = .ok b ↔ b = a := by
  simp [pure, Except.pure, eq_comm]

/-- A demand succeeds if it is met. -/
theorem demand_eq_ok {c : Prop} [Decidable c] {e : Failure} {u : Unit} :
    demand c e = .ok u ↔ c := by
  unfold demand
  split <;> simp_all

/-- Only a row that is stored is found. -/
theorem storedRow_eq_ok {α κ : Type} [Keyed α κ] [DecidableEq κ] {t : Table α} {k : κ} {r : α} :
    storedRow t k = .ok r ↔ t.get k = some r := by
  unfold storedRow
  cases h : t.get k <;> simp

/-- Only a row with a new key is added. -/
theorem addRow_eq_ok {α κ : Type} [Keyed α κ] [DecidableEq κ] {t t' : Table α} {r : α} :
    addRow t r = .ok t' ↔ ∃ h : t.get (Keyed.key r) = none, t' = t.insert r h := by
  rw [← Table.insert?_eq_some]
  unfold addRow
  cases h : t.insert? r <;> simp

/-- A product is added if its columns accept it and its id is new. -/
theorem apply_addProduct {p : ProductObj} : (Write.addProduct p).apply d = .ok d' ↔
    ∃ (r : Product) (_ : p.row = .ok r) (h : d.products.get r.id = none),
      d' = { d with products := d.products.insert r h } := by
  simp only [Write.apply, bind_eq_ok, pure_eq_ok, addRow_eq_ok, key_product]
  constructor
  · rintro ⟨r, hr, t, ⟨h, rfl⟩, rfl⟩
    exact ⟨r, hr, h, rfl⟩
  · rintro ⟨r, hr, h, rfl⟩
    exact ⟨r, hr, _, ⟨h, rfl⟩, rfl⟩

/-- A refused, a needless or a written `UPDATE`: the row is left as the instance says. -/
theorem apply_updateProduct {p : ProductObj} {now : Timestamp}
    (h : (Write.updateProduct p now).apply d = .ok d') :
    ∃ old new, d.products.get p.id = some old ∧ p.StoredAs new ∧
      d' = { d with products := d.products.set new } := by
  simp only [Write.apply, bind_eq_ok, storedRow_eq_ok] at h
  obtain ⟨old, hold, h⟩ := h
  split at h
  · simp only [bind_eq_ok, pure_eq_ok] at h
    obtain ⟨r, hr, rfl⟩ := h
    have hs := ProductObj.storedAs_of_row hr
    exact ⟨old, { r with updatedAt := now }, hold, { hs with }, rfl⟩
  · next hclean =>
      rw [pure_eq_ok] at h
      subst h
      have hid : old.id = p.id := Table.key_of_get hold
      have hset : d'.products.set old = d'.products := by
        apply Table.set_self
        rw [key_product, hid]
        exact hold
      exact ⟨old, old, hold, ProductObj.storedAs_of_clean (by simpa using hclean), by rw [hset]⟩

/-- The stock is set if the row is there and the column accepts the number. -/
theorem apply_setStock {id : Uuid} {qty : Int} {now : Timestamp} :
    (Write.setStock id qty now).apply d = .ok d' ↔
      ∃ p q, d.products.get id = some p ∧ q.val = qty ∧
        d' = { d with products :=
          d.products.set { p with qtyAvailable := q, updatedAt := now } } := by
  simp only [Write.apply, bind_eq_ok, pure_eq_ok, storedRow_eq_ok, Stock.ofInt_eq_ok]
  constructor
  · rintro ⟨p, hp, q, hq, rfl⟩
    exact ⟨p, q, hp, hq, rfl⟩
  · rintro ⟨p, q, hp, hq, rfl⟩
    exact ⟨p, hp, q, hq, rfl⟩

/-- A reservation is added if it fits, its product is there, and its key and id are new. -/
theorem apply_addReservation {r : Reservation} : (Write.addReservation r).apply d = .ok d' ↔
    FitsInteger r.qtyReserved ∧ (d.products.get r.productId).isSome ∧
      (∀ r' ∈ d.reservations.rows, r'.idempotencyKey ≠ r.idempotencyKey) ∧
        ∃ h : d.reservations.get r.id = none,
          d' = { d with reservations := d.reservations.insert r h } := by
  simp only [Write.apply, bind_eq_ok, pure_eq_ok, demand_eq_ok, addRow_eq_ok, key_reservation]
  constructor
  · rintro ⟨_, hfit, _, hfk, _, hkey, t, ⟨h, rfl⟩, rfl⟩
    exact ⟨hfit, hfk, hkey, h, rfl⟩
  · rintro ⟨hfit, hfk, hkey, h, rfl⟩
    exact ⟨(), hfit, (), hfk, (), hkey, _, ⟨h, rfl⟩, rfl⟩

/-- The status of a reservation is set if the row is there. -/
theorem apply_setReservationStatus {id : Uuid} {status : OrderStatus} :
    (Write.setReservationStatus id status).apply d = .ok d' ↔
      ∃ r, d.reservations.get id = some r ∧
        d' = { d with reservations := d.reservations.set { r with status := status } } := by
  simp only [Write.apply, bind_eq_ok, pure_eq_ok, storedRow_eq_ok]

/-- A reservation is linked if it and the order are there. -/
theorem apply_linkOrder {id orderId : Uuid} : (Write.linkOrder id orderId).apply d = .ok d' ↔
    ∃ r, d.reservations.get id = some r ∧ (d.orders.get orderId).isSome ∧
      d' = { d with reservations := d.reservations.set { r with orderId := some orderId } } := by
  simp only [Write.apply, bind_eq_ok, pure_eq_ok, storedRow_eq_ok, demand_eq_ok]
  constructor
  · rintro ⟨r, hr, _, hfk, rfl⟩
    exact ⟨r, hr, hfk, rfl⟩
  · rintro ⟨r, hr, hfk, rfl⟩
    exact ⟨r, hr, (), hfk, rfl⟩

/-- An order is added if its total fits its column and its id is new. -/
theorem apply_addOrder {o : OrderObj} {now : Timestamp} :
    (Write.addOrder o now).apply d = .ok d' ↔
      ∃ (r : Order) (h : d.orders.get r.id = none), r.id = o.id ∧ r.userId = o.userId ∧
        r.status = o.status ∧ Amount.ofDecimal o.totalAmount = .ok r.totalAmount ∧
        r.shippingAddress = o.shippingAddress ∧ r.createdAt = o.createdAt ∧ r.updatedAt = now ∧
          d' = { d with orders := d.orders.insert r h } := by
  simp only [Write.apply, bind_eq_ok, pure_eq_ok, addRow_eq_ok, key_order]
  constructor
  · rintro ⟨a, ha, t, ⟨h, rfl⟩, rfl⟩
    exact ⟨_, h, rfl, rfl, rfl, ha, rfl, rfl, rfl, rfl⟩
  · rintro ⟨⟨id, userId, status, a, addr, created, updated⟩, h, rfl, rfl, rfl, ha, rfl, rfl, rfl, rfl⟩
    exact ⟨a, ha, _, ⟨h, rfl⟩, rfl⟩

/-- An order item is added if it fits its columns, its order and product are there, and its
id is new. -/
theorem apply_addOrderItem {i : OrderItemObj} : (Write.addOrderItem i).apply d = .ok d' ↔
    ∃ (r : OrderItem) (h : d.orderItems.get r.id = none), r.id = i.id ∧ r.orderId = i.orderId ∧
      r.productId = i.productId ∧ r.productName = i.productName ∧ r.quantity = i.quantity ∧
      ItemPrice.ofDecimal i.price = .ok r.price ∧ FitsInteger i.quantity ∧
      (d.orders.get i.orderId).isSome ∧ (d.products.get i.productId).isSome ∧
        d' = { d with orderItems := d.orderItems.insert r h } := by
  simp only [Write.apply, bind_eq_ok, pure_eq_ok, demand_eq_ok, addRow_eq_ok, key_orderItem]
  constructor
  · rintro ⟨c, hc, _, hfit, _, ho, _, hp, t, ⟨h, rfl⟩, rfl⟩
    exact ⟨_, h, rfl, rfl, rfl, rfl, rfl, hc, hfit, ho, hp, rfl⟩
  · rintro ⟨⟨id, orderId, productId, name, quantity, c⟩, h, rfl, rfl, rfl, rfl, rfl, hc, hfit, ho, hp,
      rfl⟩
    exact ⟨c, hc, (), hfit, (), ho, (), hp, _, ⟨h, rfl⟩, rfl⟩

/-- The status of an order is set if the row is there. -/
theorem apply_setOrderStatus {id : Uuid} {status : OrderStatus} {now : Timestamp} :
    (Write.setOrderStatus id status now).apply d = .ok d' ↔
      ∃ o, d.orders.get id = some o ∧ d' = { d with orders := d.orders.set (o.move status now) } := by
  simp only [Write.apply, bind_eq_ok, pure_eq_ok, storedRow_eq_ok]

/-- An entry is appended to the log whatever the database is. -/
theorem apply_addAuditLog {a : AuditLog} : (Write.addAuditLog a).apply d = .ok d' ↔
    d' = { d with auditLogs := d.auditLogs ++ [a] } := by
  simp [Write.apply, eq_comm]

/-- The existing row that a write changes. -/
def Write.target : Write → Option Row
  | .updateProduct p _ => some (.product p.id)
  | .setStock id _ _ => some (.product id)
  | .setReservationStatus id _ | .linkOrder id _ => some (.reservation id)
  | .setOrderStatus id _ _ => some (.order id)
  | .addProduct _ | .addReservation _ | .addOrder _ _ | .addOrderItem _ | .addAuditLog _ => none

/-- Setting a product is seen in the row of that product only. -/
theorem view_setProduct {p q : Product} {id : Uuid} (hp : d.products.get id = some p)
    (hq : q.id = p.id) {r : Row} (hr : { d with products := d.products.set q }.view r ≠ d.view r) :
    r = .product id := by
  have hid : p.id = id := Table.key_of_get hp
  cases r with
  | product k =>
      by_contra hne
      have hk : Keyed.key q ≠ k := by
        intro h
        apply hne
        rw [← h, key_product, hq, hid]
      exact hr (congrArg RowVal.product (Table.get_set_ne hk))
  | reservation k => exact absurd rfl hr
  | order k => exact absurd rfl hr

/-- Setting a reservation is seen in the row of that reservation only. -/
theorem view_setReservation {p q : Reservation} {id : Uuid} (hp : d.reservations.get id = some p)
    (hq : q.id = p.id) {r : Row}
    (hr : { d with reservations := d.reservations.set q }.view r ≠ d.view r) :
    r = .reservation id := by
  have hid : p.id = id := Table.key_of_get hp
  cases r with
  | reservation k =>
      by_contra hne
      have hk : Keyed.key q ≠ k := by
        intro h
        apply hne
        rw [← h, key_reservation, hq, hid]
      exact hr (congrArg RowVal.reservation (Table.get_set_ne hk))
  | product k => exact absurd rfl hr
  | order k => exact absurd rfl hr

/-- Setting an order is seen in the row of that order only. -/
theorem view_setOrder {p q : Order} {id : Uuid} (hp : d.orders.get id = some p)
    (hq : q.id = p.id) {r : Row} (hr : { d with orders := d.orders.set q }.view r ≠ d.view r) :
    r = .order id := by
  have hid : p.id = id := Table.key_of_get hp
  cases r with
  | order k =>
      by_contra hne
      have hk : Keyed.key q ≠ k := by
        intro h
        apply hne
        rw [← h, key_order, hq, hid]
      exact hr (congrArg RowVal.order (Table.get_set_ne hk))
  | product k => exact absurd rfl hr
  | reservation k => exact absurd rfl hr

/-- A write changes its target, or brings a row into being. -/
theorem apply_view {w : Write} (h : w.apply d = .ok d') {r : Row} (hr : d'.view r ≠ d.view r) :
    w.target = some r ∨ ¬ (d.view r).Present := by
  cases w with
  | addProduct p =>
      obtain ⟨row, hrow, hnew, rfl⟩ := apply_addProduct.mp h
      right
      cases r with
      | product k =>
          have hk : row.id = k := by
            by_contra hne
            have hget := Table.get_insert (show d.products.get (Keyed.key row) = none from hnew) k
            rw [if_neg (show Keyed.key row ≠ k from hne)] at hget
            exact hr (congrArg RowVal.product hget)
          simp [Db.view, RowVal.Present, ← hk, hnew]
      | reservation k => exact absurd rfl hr
      | order k => exact absurd rfl hr
  | updateProduct p now =>
      obtain ⟨old, new, hold, hs, rfl⟩ := apply_updateProduct h
      have hid : old.id = p.id := Table.key_of_get hold
      left
      rw [view_setProduct hold (hs.id.trans hid.symm) hr, Write.target]
  | setStock id qty now =>
      obtain ⟨p, q, hp, _, rfl⟩ := apply_setStock.mp h
      left
      rw [view_setProduct hp (q := { p with qtyAvailable := q, updatedAt := now }) rfl hr,
        Write.target]
  | addReservation res =>
      obtain ⟨_, _, _, hnew, rfl⟩ := apply_addReservation.mp h
      right
      cases r with
      | reservation k =>
          have hk : res.id = k := by
            by_contra hne
            have hget :=
              Table.get_insert (show d.reservations.get (Keyed.key res) = none from hnew) k
            rw [if_neg (show Keyed.key res ≠ k from hne)] at hget
            exact hr (congrArg RowVal.reservation hget)
          simp [Db.view, RowVal.Present, ← hk, hnew]
      | product k => exact absurd rfl hr
      | order k => exact absurd rfl hr
  | setReservationStatus id status =>
      obtain ⟨res, hres, rfl⟩ := apply_setReservationStatus.mp h
      left
      rw [view_setReservation hres (q := { res with status := status }) rfl hr, Write.target]
  | linkOrder id orderId =>
      obtain ⟨res, hres, _, rfl⟩ := apply_linkOrder.mp h
      left
      rw [view_setReservation hres (q := { res with orderId := some orderId }) rfl hr, Write.target]
  | addOrder o now =>
      obtain ⟨row, hnew, hid, _, _, _, _, _, _, rfl⟩ := apply_addOrder.mp h
      right
      cases r with
      | order k =>
          have hk : row.id = k := by
            by_contra hne
            have hget := Table.get_insert (show d.orders.get (Keyed.key row) = none from hnew) k
            rw [if_neg (show Keyed.key row ≠ k from hne)] at hget
            exact hr (congrArg RowVal.order hget)
          simp [Db.view, RowVal.Present, ← hk, hnew]
      | product k => exact absurd rfl hr
      | reservation k => exact absurd rfl hr
  | addOrderItem i =>
      obtain ⟨row, hnew, _, _, _, _, _, _, _, _, _, rfl⟩ := apply_addOrderItem.mp h
      cases r <;> exact absurd rfl hr
  | setOrderStatus id status now =>
      obtain ⟨o, ho, rfl⟩ := apply_setOrderStatus.mp h
      left
      rw [view_setOrder ho (Order.id_move o status now) hr, Write.target]
  | addAuditLog a =>
      obtain rfl := apply_addAuditLog.mp h
      cases r <;> exact absurd rfl hr

/-- A unit of work whose updates hit rows of `rows` stays inside `rows`. -/
theorem frame_writes {ws : List Write} {rows : List Row}
    (hw : ∀ w ∈ ws, ∀ r, w.target = some r → r ∈ rows) (h : store.applyAll ws d = .ok d') :
    Frame store rows d d' := by
  apply frame_applyAll _ h
  intro w hmem d₁ d₂ happly r hr
  cases apply_view happly hr with
  | inl htarget => exact .inl (hw w hmem r htarget)
  | inr hnew => exact .inr hnew

/-- A list of log entries only adds to the log. -/
theorem applyAll_logs {as : List AuditLog} : store.applyAll (as.map .addAuditLog) d = .ok d' ↔
    d' = { d with auditLogs := d.auditLogs ++ as } := by
  induction as generalizing d with
  | nil => simp [Store.applyAll_nil]
  | cons a as ih =>
      rw [List.map_cons, Store.applyAll_cons]
      simp only [store, apply_addAuditLog] at ih ⊢
      simp [ih]

end

/-! ## Sessions -/

/-- The part of a session's identity map that outlives a statement: the product
instance that the sweep's local variable still refers to, with its in-memory
`qty_available`. -/
structure Session where
  product : Option (Uuid × Int)
  deriving DecidableEq

def Session.fresh : Session := ⟨none⟩

/-- A piece of service code in a session. -/
abbrev Tx := Prog Session Db Row Write Failure

/-- `if c: raise e` -/
def raiseIf (c : Prop) [Decidable c] (e : Failure) : Tx Unit := if c then throw e else pure ()

/-- `if not x: raise NotFoundError` -/
def orNotFound {α : Type} : Option α → Tx α
  | some a => pure a
  | none => throw .notFound

/-- `session.refresh(x)` of a row that may be gone. -/
def orStale {α : Type} : Option α → Tx α
  | some a => pure a
  | none => throw .staleData

/-- `scalar_one_or_none()` -/
def scalarOneOrNone {α : Type} : List α → Tx (Option α)
  | [] => pure none
  | [a] => pure (some a)
  | _ => throw .multipleResultsFound

/-- `select(Product).with_for_update().where(Product.id == id)` -/
def selectProductForUpdate (id : Uuid) : Tx (Option Product) := do
  let d ← Prog.selectForUpdate fun d => (d.products.get id).map fun _ => .product id
  return d.products.get id

/-- `select(Reservation).with_for_update().where(Reservation.id == id, cond)` -/
def selectReservationForUpdate (id : Uuid) (cond : Reservation → Bool) :
    Tx (Option Reservation) := do
  let d ← Prog.selectForUpdate fun d =>
    ((d.reservations.get id).filter cond).map fun _ => .reservation id
  return (d.reservations.get id).filter cond

/-- `select(Reservation).with_for_update().where(Reservation.order_id == orderId)`;
of several matches the first one stands for the locked rows. -/
def selectReservationByOrderForUpdate (orderId : Uuid) : Tx (Option Reservation) := do
  let d ← Prog.selectForUpdate fun d =>
    (d.reservations.rows.find? fun r => r.orderId = some orderId).map fun r => .reservation r.id
  scalarOneOrNone (d.reservations.rows.filter fun r => r.orderId = some orderId)

/-- `select(Order).with_for_update().where(Order.id == id)` -/
def selectOrderForUpdate (id : Uuid) : Tx (Option Order) := do
  let d ← Prog.selectForUpdate fun d => (d.orders.get id).map fun _ => .order id
  return d.orders.get id

/-- `session.add` of a log entry, if there is one. -/
def addLog (a : Option AuditLog) : Tx Unit :=
  match a with
  | some a => Prog.save (.addAuditLog a)
  | none => pure ()

/-! ## Rules for the statements -/

section
variable {α : Type} {ru : Rules Session Db Row Write} {p : Known Session Db Row RowVal Write}

/-- A check raises its error or goes on, and knows which. -/
theorem wp_raiseIf {c : Prop} [Decidable c] {e : Failure}
    {Q : Except Failure Unit → Known Session Db Row RowVal Write → Prop}
    (hraise : c → Q (.error e) p) (hgo : ¬ c → Q (.ok ()) p) :
    wp store ru (raiseIf c e) p Q := by
  unfold raiseIf
  split
  · next h => exact hraise h
  · next h => exact hgo h

/-- A missing row ends in a 404. -/
theorem wp_orNotFound {x : Option α}
    {Q : Except Failure α → Known Session Db Row RowVal Write → Prop}
    (hnone : x = none → Q (.error .notFound) p) (hsome : ∀ a, x = some a → Q (.ok a) p) :
    wp store ru (orNotFound x) p Q := by
  cases x with
  | none => exact hnone rfl
  | some a => exact hsome a rfl

/-- A refreshed row that is gone is stale. -/
theorem wp_orStale {x : Option α}
    {Q : Except Failure α → Known Session Db Row RowVal Write → Prop}
    (hnone : Q (.error .staleData) p) (hsome : ∀ a, Q (.ok a) p) :
    wp store ru (orStale x) p Q := by
  cases x with
  | none => exact hnone
  | some a => exact hsome a

/-- An entry waits in the session until the commit. -/
theorem wp_addLog (a : Option AuditLog)
    (Q : Except Failure Unit → Known Session Db Row RowVal Write → Prop) :
    wp store ru (addLog a) p Q =
      Q (.ok ()) { p with pending := p.pending ++ a.toList.map .addAuditLog } := by
  cases a with
  | none => simp [addLog]
  | some a => rfl

/-- A product is read and locked: it is missing, or what was read stays. -/
theorem wp_selectProductForUpdate {id : Uuid}
    {Q : Except Failure (Option Product) → Known Session Db Row RowVal Write → Prop}
    (hnone : ∀ d, p.Agrees store d → ru.inv d → d.products.get id = none → Q (.ok none) p)
    (hsome : ∀ d x, p.Agrees store d → ru.inv d → d.products.get id = some x →
      ru.request p.rows d (.product id) ∧ (ru.grant p.session d (.product id) →
        Q (.ok (some x)) (p.hold (.product id) (.product (some x)))))
    (herr : Q (.error .operationalError) p.abort) :
    wp store ru (selectProductForUpdate id) p Q := by
  apply wp_bind
  apply wp_selectForUpdate
  · intro d hd hi hf
    have hx : d.products.get id = none := by simpa using hf
    change Q (.ok (d.products.get id)) p
    rw [hx]
    exact hnone d hd hi hx
  · intro d r hd hi hf
    obtain ⟨x, hx, rfl⟩ := Option.map_eq_some_iff.mp hf
    obtain ⟨hreq, hq⟩ := hsome d x hd hi hx
    have hview : store.view d (.product id) = .product (some x) := congrArg RowVal.product hx
    rw [hview]
    refine ⟨rfl, hreq, fun hg => ?_⟩
    change Q (.ok (d.products.get id)) _
    rw [hx]
    exact hq hg
  · exact herr

/-- The same of a reservation, with a condition on the row. -/
theorem wp_selectReservationForUpdate {id : Uuid} {cond : Reservation → Bool}
    {Q : Except Failure (Option Reservation) → Known Session Db Row RowVal Write → Prop}
    (hnone : ∀ d, p.Agrees store d → ru.inv d → (∀ x, d.reservations.get id = some x → cond x = false) →
      Q (.ok none) p)
    (hsome : ∀ d x, p.Agrees store d → ru.inv d → d.reservations.get id = some x → cond x = true →
      ru.request p.rows d (.reservation id) ∧ (ru.grant p.session d (.reservation id) →
        Q (.ok (some x)) (p.hold (.reservation id) (.reservation (some x)))))
    (herr : Q (.error .operationalError) p.abort) :
    wp store ru (selectReservationForUpdate id cond) p Q := by
  apply wp_bind
  apply wp_selectForUpdate
  · intro d hd hi hf
    have hx : (d.reservations.get id).filter cond = none := by simpa using hf
    change Q (.ok ((d.reservations.get id).filter cond)) p
    rw [hx]
    exact hnone d hd hi (by simpa [Option.filter_eq_none_iff] using hx)
  · intro d r hd hi hf
    obtain ⟨x, hx, rfl⟩ := Option.map_eq_some_iff.mp hf
    obtain ⟨hget, hcond⟩ := Option.filter_eq_some_iff.mp hx
    obtain ⟨hreq, hq⟩ := hsome d x hd hi hget hcond
    have hview : store.view d (.reservation id) = .reservation (some x) :=
      congrArg RowVal.reservation hget
    rw [hview]
    refine ⟨rfl, hreq, fun hg => ?_⟩
    change Q (.ok ((d.reservations.get id).filter cond)) _
    rw [hx]
    exact hq hg
  · exact herr

/-- The same of an order. -/
theorem wp_selectOrderForUpdate {id : Uuid}
    {Q : Except Failure (Option Order) → Known Session Db Row RowVal Write → Prop}
    (hnone : ∀ d, p.Agrees store d → ru.inv d → d.orders.get id = none → Q (.ok none) p)
    (hsome : ∀ d x, p.Agrees store d → ru.inv d → d.orders.get id = some x →
      ru.request p.rows d (.order id) ∧ (ru.grant p.session d (.order id) →
        Q (.ok (some x)) (p.hold (.order id) (.order (some x)))))
    (herr : Q (.error .operationalError) p.abort) :
    wp store ru (selectOrderForUpdate id) p Q := by
  apply wp_bind
  apply wp_selectForUpdate
  · intro d hd hi hf
    have hx : d.orders.get id = none := by simpa using hf
    change Q (.ok (d.orders.get id)) p
    rw [hx]
    exact hnone d hd hi hx
  · intro d r hd hi hf
    obtain ⟨x, hx, rfl⟩ := Option.map_eq_some_iff.mp hf
    obtain ⟨hreq, hq⟩ := hsome d x hd hi hx
    have hview : store.view d (.order id) = .order (some x) := congrArg RowVal.order hx
    rw [hview]
    refine ⟨rfl, hreq, fun hg => ?_⟩
    change Q (.ok (d.orders.get id)) _
    rw [hx]
    exact hq hg
  · exact herr

/-- The reservation of an order is looked up by its link and locked. -/
theorem wp_selectReservationByOrderForUpdate {orderId : Uuid}
    {Q : Except Failure (Option Reservation) → Known Session Db Row RowVal Write → Prop}
    (hnone : ∀ d, p.Agrees store d → ru.inv d → (∀ x ∈ d.reservations.rows, x.orderId ≠ some orderId) →
      Q (.ok none) p)
    (hsome : ∀ d x, p.Agrees store d → ru.inv d → x ∈ d.reservations.rows → x.orderId = some orderId →
      ru.request p.rows d (.reservation x.id) ∧ (ru.grant p.session d (.reservation x.id) →
        ∀ r, r = .ok (some x) ∨ r = .error .multipleResultsFound →
          Q r (p.hold (.reservation x.id) (.reservation (some x)))))
    (herr : Q (.error .operationalError) p.abort) :
    wp store ru (selectReservationByOrderForUpdate orderId) p Q := by
  apply wp_bind
  apply wp_selectForUpdate
  · intro d hd hi hf
    have hall : ∀ x ∈ d.reservations.rows, x.orderId ≠ some orderId := by
      simpa [List.find?_eq_none] using hf
    have hfilter : (d.reservations.rows.filter fun r => r.orderId = some orderId) = [] := by
      simpa [List.filter_eq_nil_iff] using hall
    change wp store ru (scalarOneOrNone (d.reservations.rows.filter fun r =>
      r.orderId = some orderId)) p Q
    rw [hfilter]
    exact hnone d hd hi hall
  · intro d r hd hi hf
    obtain ⟨x, hx, rfl⟩ := Option.map_eq_some_iff.mp hf
    have hmem := List.mem_of_find?_eq_some hx
    have hcond : x.orderId = some orderId := by simpa using List.find?_some hx
    obtain ⟨hreq, hq⟩ := hsome d x hd hi hmem hcond
    have hview : store.view d (.reservation x.id) = .reservation (some x) :=
      congrArg RowVal.reservation (Table.get_of_mem hmem)
    rw [hview]
    refine ⟨rfl, hreq, fun hg => ?_⟩
    obtain ⟨rest, hfilter⟩ : ∃ rest, (d.reservations.rows.filter fun r =>
        r.orderId = some orderId) = x :: rest := by
      apply List.head?_eq_some_iff.mp
      rw [List.head?_filter]
      exact hx
    change wp store ru (scalarOneOrNone (d.reservations.rows.filter fun r =>
      r.orderId = some orderId)) _ Q
    rw [hfilter]
    cases rest with
    | nil => exact hq hg _ (.inl rfl)
    | cons y ys => exact hq hg _ (.inr rfl)
  · exact herr

/-- At a commit the locked rows hold what they were read with. -/
theorem get_product_of_agrees {d : Db} {id : Uuid} {x : Option Product} (h : p.Agrees store d)
    (hx : (.product id, .product x) ∈ p.held) : d.products.get id = x := by
  have hview := h.1 _ hx
  simpa [store, Db.view] using hview

/-- A reservation that is held is as it was read. -/
theorem get_reservation_of_agrees {d : Db} {id : Uuid} {x : Option Reservation}
    (h : p.Agrees store d) (hx : (.reservation id, .reservation x) ∈ p.held) :
    d.reservations.get id = x := by
  have hview := h.1 _ hx
  simpa [store, Db.view] using hview

/-- An order that is held is as it was read. -/
theorem get_order_of_agrees {d : Db} {id : Uuid} {x : Option Order} (h : p.Agrees store d)
    (hx : (.order id, .order x) ∈ p.held) : d.orders.get id = x := by
  have hview := h.1 _ hx
  simpa [store, Db.view] using hview

end

end FairDrop
