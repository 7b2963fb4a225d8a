import FairDrop.RowStore.Table
import Mathlib.Tactic.Ring

/-!
# FairDrop.Models

The tables behind the inventory and order services (`inventory/models.py`,
`orders/models.py`, `user/models.py`), and the errors their operations end in
(`core/exceptions.py`).

A column with a range or a `CHECK` is a subtype, so a stored row always meets
its constraints; writing a value that does not fit is an error of the write
(`Stock.ofInt`, `Price.ofDecimal`, `Amount.ofDecimal`).  Foreign keys to
`users` are not modelled: the acting user is a loaded row.
-/

namespace FairDrop

/-- UUID columns; fresh values come from the caller. -/
abbrev Uuid := Nat

/-- Microseconds since the epoch. -/
abbrev Timestamp := Int

/-! ## Errors -/

/-- How an operation can fail: the application's own exceptions with their
messages, then the errors of pydantic, SQLAlchemy and the driver. -/
inductive Failure where
  | notFound (message : String := "Resource not found")
  | conflict (message : String := "Resource conflict")
  | insufficientInventory (message : String := "Insufficient inventory")
  | sellerLimitExceeded (message : String := "Seller product listing limit exceeded")
  | permissionDenied (message : String := "Permission denied")
  | valueError
  | attributeError
  | validationError
  /-- A `CHECK`, `NOT NULL`, key or foreign-key violation. -/
  | integrityError
  /-- A value outside the range of its column type. -/
  | dataError
  | multipleResultsFound
  /-- An `UPDATE` or refresh of a row that is gone. -/
  | staleData
  /-- The statement did not go through: lost connection, deadlock victim, … -/
  | operationalError
  deriving DecidableEq, Repr

/-! ## Enumerations -/

inductive UserRole where
  | admin | moderator | user | userB2b | seller | sellerB2b
  deriving DecidableEq, Repr

inductive ProductStatus where
  | draft | active | archived | pendingModeration | moderationInProgress | rejected
  deriving DecidableEq, Repr

/-- One enumeration serves orders and reservations. -/
inductive OrderStatus where
  | pending | paid | shipped | cancelled | failed | completed | expired
  deriving DecidableEq, Repr

def ProductStatus.text : ProductStatus → String
  | .draft => "DRAFT"
  | .active => "ACTIVE"
  | .archived => "ARCHIVED"
  | .pendingModeration => "PENDING_MODERATION"
  | .moderationInProgress => "MODERATION_IN_PROGRESS"
  | .rejected => "REJECTED"

def OrderStatus.text : OrderStatus → String
  | .pending => "PENDING"
  | .paid => "PAID"
  | .shipped => "SHIPPED"
  | .cancelled => "CANCELLED"
  | .failed => "FAILED"
  | .completed => "COMPLETED"
  | .expired => "EXPIRED"

/-! ## Numbers -/

/-- A Python `Decimal`: `coeff * 10 ^ exp`. -/
structure Decimal where
  coeff : Int
  exp : Int
  deriving DecidableEq, Repr

/-- `n / m` rounded to the nearest integer, halves away from zero. -/
def roundDiv (n : Int) (m : Nat) : Int :=
  if 0 ≤ n then (2 * n + m) / (2 * m) else -((2 * -n + m) / (2 * m))

theorem roundDiv_mul (n : Int) {m : Nat} (hm : 0 < m) : roundDiv (n * m) m = n := by
  have hround : ∀ k : Int, (2 * (k * m) + m) / (2 * m) = k := by
    intro k
    have hsplit : 2 * (k * (m : Int)) + m = m + k * (2 * m) := by ring
    rw [hsplit, Int.add_mul_ediv_right _ _ (by omega), Int.ediv_eq_zero_of_lt (by omega) (by omega)]
    omega
  unfold roundDiv
  split
  · exact hround n
  · have hneg : 2 * -(n * (m : Int)) + m = 2 * (-n * m) + m := by ring
    rw [hneg, hround]
    omega

namespace Decimal

/-- The value in hundredths, as a `Numeric(_, 2)` column rounds it. -/
def cents (d : Decimal) : Int :=
  if 0 ≤ d.exp + 2 then d.coeff * 10 ^ (d.exp + 2).toNat
  else roundDiv d.coeff (10 ^ (-(d.exp + 2)).toNat)

/-- What a `Numeric(_, 2)` column is read back as. -/
def ofCents (c : Int) : Decimal := ⟨c, -2⟩

/-- `price * qty`, exact. -/
def scale (d : Decimal) (n : Int) : Decimal := ⟨d.coeff * n, d.exp⟩

@[simp] theorem cents_ofCents (c : Int) : (ofCents c).cents = c := by
  simp [cents, ofCents]

@[simp] theorem cents_scale_ofCents (c n : Int) : ((ofCents c).scale n).cents = c * n := by
  simp [cents, ofCents, scale]

end Decimal

/-- Largest value of an `Integer` column. -/
def int32Max : Int := 2147483647

/-- Bound of a `Numeric(10, 2)` column, in hundredths. -/
def numericBound : Int := 10 ^ 10

/-- `qty_available`: an `Integer` with `CHECK (qty_available >= 0)`. -/
abbrev Stock := { n : Int // 0 ≤ n ∧ n ≤ int32Max }

/-- `products.price`: a `Numeric(10, 2)` with `CHECK (price >= 0.10)`. -/
abbrev Price := { c : Int // 10 ≤ c ∧ c < numericBound }

/-- `orders.total_amount`: a `Numeric(10, 2)` with `CHECK (total_amount >= 0)`. -/
abbrev Amount := { c : Int // 0 ≤ c ∧ c < numericBound }

/-- `order_items.price`: a `Numeric(10, 2)`. -/
abbrev ItemPrice := { c : Int // -numericBound < c ∧ c < numericBound }

def Stock.ofInt (n : Int) : Except Failure Stock :=
  if int32Max < n ∨ n < -int32Max - 1 then .error .dataError
  else if h : 0 ≤ n ∧ n ≤ int32Max then .ok ⟨n, h⟩
  else .error .integrityError

def Price.ofDecimal (d : Decimal) : Except Failure Price :=
  if numericBound ≤ d.cents ∨ d.cents ≤ -numericBound then .error .dataError
  else if h : 10 ≤ d.cents ∧ d.cents < numericBound then .ok ⟨d.cents, h⟩
  else .error .integrityError

def Amount.ofDecimal (d : Decimal) : Except Failure Amount :=
  if numericBound ≤ d.cents ∨ d.cents ≤ -numericBound then .error .dataError
  else if h : 0 ≤ d.cents ∧ d.cents < numericBound then .ok ⟨d.cents, h⟩
  else .error .integrityError

def ItemPrice.ofDecimal (d : Decimal) : Except Failure ItemPrice :=
  if h : -numericBound < d.cents ∧ d.cents < numericBound then .ok ⟨d.cents, h⟩
  else .error .dataError

theorem Stock.ofInt_eq_ok {n : Int} {q : Stock} : Stock.ofInt n = .ok q ↔ q.val = n := by
  obtain ⟨q, hq⟩ := q
  have hmax : int32Max = 2147483647 := rfl
  unfold Stock.ofInt
  split
  · simp only [reduceCtorEq, false_iff]; omega
  · split
    · simp [eq_comm]
    · simp only [reduceCtorEq, false_iff]; omega

theorem Price.ofDecimal_val {d : Decimal} {p : Price} (h : Price.ofDecimal d = .ok p) :
    p.val = d.cents := by
  unfold Price.ofDecimal at h
  split at h
  · contradiction
  · split at h
    · exact congrArg Subtype.val (Except.ok.inj h).symm
    · contradiction

theorem Amount.ofDecimal_val {d : Decimal} {a : Amount} (h : Amount.ofDecimal d = .ok a) :
    a.val = d.cents := by
  unfold Amount.ofDecimal at h
  split at h
  · contradiction
  · split at h
    · exact congrArg Subtype.val (Except.ok.inj h).symm
    · contradiction

theorem ItemPrice.ofDecimal_val {d : Decimal} {p : ItemPrice}
    (h : ItemPrice.ofDecimal d = .ok p) : p.val = d.cents := by
  unfold ItemPrice.ofDecimal at h
  split at h
  · exact congrArg Subtype.val (Except.ok.inj h).symm
  · contradiction

/-! ## Rows -/

/-- The columns of a user that the services read. -/
structure User where
  id : Uuid
  role : UserRole
  isVerified : Bool
  deriving DecidableEq, Repr

structure Product where
  id : Uuid
  ownerId : Uuid
  name : String
  description : Option String
  price : Price
  qtyAvailable : Stock
  createdAt : Timestamp
  updatedAt : Timestamp
  status : ProductStatus
  moderatorId : Option Uuid
  moderationComment : Option String
  deriving DecidableEq

structure Reservation where
  id : Uuid
  qtyReserved : Int
  userId : Uuid
  productId : Uuid
  status : OrderStatus
  idempotencyKey : String
  orderId : Option Uuid
  expiresAt : Timestamp
  deriving DecidableEq

structure Order where
  id : Uuid
  userId : Uuid
  status : OrderStatus
  totalAmount : Amount
  shippingAddress : Option String
  createdAt : Timestamp
  updatedAt : Timestamp
  deriving DecidableEq

structure OrderItem where
  id : Uuid
  orderId : Uuid
  productId : Uuid
  productName : String
  quantity : Int
  price : ItemPrice
  deriving DecidableEq

instance : RowStore.Keyed Product Uuid := ⟨Product.id⟩
instance : RowStore.Keyed Reservation Uuid := ⟨Reservation.id⟩
instance : RowStore.Keyed Order Uuid := ⟨Order.id⟩
instance : RowStore.Keyed OrderItem Uuid := ⟨OrderItem.id⟩

@[simp] theorem key_product (p : Product) : RowStore.Keyed.key p = p.id := rfl
@[simp] theorem key_reservation (r : Reservation) : RowStore.Keyed.key r = r.id := rfl
@[simp] theorem key_order (o : Order) : RowStore.Keyed.key o = o.id := rfl
@[simp] theorem key_orderItem (i : OrderItem) : RowStore.Keyed.key i = i.id := rfl

/-! ## Surroundings -/

/-- The settings that the services read (`core/config.py`). -/
structure Settings where
  reserveTimeoutMinutes : Nat
  unverifiedSellerLimit : Nat := 3
  verifiedSellerLimit : Nat := 100

/-- What the process around a request supplies: the clock, the values `uuid4`
returns, the log context that the middleware binds, and the settings. -/
structure Env where
  now : Timestamp
  uuid : Nat → Uuid
  requestId : Option String
  remoteIp : Option String
  settings : Settings

end FairDrop
