import FairDrop.AuditLog

/-!
# FairDrop.Schemas

The request and response schemas (`inventory/schemas.py`, `orders/schemas.py`)
and the ORM instances they are read from.

A request schema is a structure whose bounded fields are subtypes, so only
payloads that validation admits exist.  An ORM instance (`ProductObj`,
`OrderObj`) is what a service edits in memory: it may hold a value that its
column cannot store, which shows when a response is read from it
(`ProductRead.modelValidate`) or when it is flushed (`ProductObj.row`).
-/

namespace FairDrop

/-! ## Requests -/

/-- `Decimal = Field(gt=0)` -/
abbrev PosDecimal := { d : Decimal // 0 < d.coeff }

/-- `int = Field(ge=0)` -/
abbrev NonnegInt := { n : Int // 0 ≤ n }

/-- `int = Field(gt=0)` -/
abbrev PosInt := { n : Int // 0 < n }

structure ProductCreate where
  name : String
  description : Option String
  price : PosDecimal
  qtyAvailable : NonnegInt

/-- Of each field: not sent, sent as null, or sent with a value. -/
structure ProductUpdate where
  name : Option (Option String)
  description : Option (Option String)
  price : Option (Option PosDecimal)
  qtyAvailable : Option (Option NonnegInt)

structure ReservationCreate where
  productId : Uuid
  quantity : PosInt
  deriving DecidableEq

structure OrderCreate where
  reservationId : Uuid
  shippingAddress : Option String
  deriving DecidableEq

/-! ## Product instances -/

/-- `a == b` of two decimals. -/
def Decimal.equal (a b : Decimal) : Bool :=
  if a.exp ≤ b.exp then a.coeff == b.coeff * 10 ^ (b.exp - a.exp).toNat
  else a.coeff * 10 ^ (a.exp - b.exp).toNat == b.coeff

/-- A decimal equal to a stored value is stored as that value. -/
theorem Decimal.cents_of_equal {d : Decimal} {c : Int} (h : d.equal (ofCents c)) : d.cents = c := by
  rw [Decimal.equal, ofCents] at h
  by_cases hexp : d.exp ≤ -2
  · rw [if_pos hexp] at h
    obtain ⟨k, hk⟩ : ∃ k : Nat, d.exp = -2 - k := ⟨(-2 - d.exp).toNat, by omega⟩
    have hc : d.coeff = c * 10 ^ k := by
      have hk' : ((-2 : Int) - d.exp).toNat = k := by omega
      simpa [hk'] using h
    cases k with
    | zero => simp [cents, hk, hc]
    | succ k =>
        have hneg : ¬ (0 : Int) ≤ d.exp + 2 := by omega
        have hpow : (-(d.exp + 2)).toNat = k + 1 := by omega
        have hm : (0 : Nat) < 10 ^ (k + 1) := Nat.pow_pos (by decide)
        rw [cents, if_neg hneg, hpow, hc]
        have := roundDiv_mul c hm
        simpa using this
  · rw [if_neg hexp] at h
    have hpos : (0 : Int) ≤ d.exp + 2 := by omega
    have hpow : (d.exp - -2).toNat = (d.exp + 2).toNat := by omega
    rw [hpow] at h
    rw [cents, if_pos hpos]
    simpa using h

/-- A `Product` instance in a session. -/
structure ProductObj where
  id : Uuid
  ownerId : Uuid
  name : Option String
  description : Option String
  price : Option Decimal
  qtyAvailable : Option Int
  createdAt : Timestamp
  updatedAt : Timestamp
  status : ProductStatus
  moderatorId : Option Uuid
  moderationComment : Option String
  deriving DecidableEq

namespace ProductObj

/-- The instance of a row. -/
def load (p : Product) : ProductObj where
  id := p.id
  ownerId := p.ownerId
  name := some p.name
  description := p.description
  price := some (.ofCents p.price.val)
  qtyAvailable := some p.qtyAvailable.val
  createdAt := p.createdAt
  updatedAt := p.updatedAt
  status := p.status
  moderatorId := p.moderatorId
  moderationComment := p.moderationComment

/-- `Product(**product_data.model_dump())` with its `owner_id`, as flushed: the
defaults of the model and of the table are filled in. -/
def create (data : ProductCreate) (ownerId id : Uuid) (now : Timestamp) : ProductObj where
  id := id
  ownerId := ownerId
  name := some data.name
  description := data.description
  price := some data.price.val
  qtyAvailable := some data.qtyAvailable.val
  createdAt := now
  updatedAt := now
  status := .draft
  moderatorId := none
  moderationComment := none

/-- `setattr` for every field of `product_data.model_dump(exclude_unset=True)`. -/
def assign (p : ProductObj) (data : ProductUpdate) : ProductObj :=
  { p with
    name := data.name.getD p.name
    description := data.description.getD p.description
    price := (data.price.map (Option.map Subtype.val)).getD p.price
    qtyAvailable := (data.qtyAvailable.map (Option.map Subtype.val)).getD p.qtyAvailable }

/-- The row an instance is stored as. -/
def row (p : ProductObj) : Except Failure Product :=
  match p.name, p.price, p.qtyAvailable with
  | some name, some price, some qtyAvailable => do
      let price ← Price.ofDecimal price
      let qtyAvailable ← Stock.ofInt qtyAvailable
      return {
        id := p.id
        ownerId := p.ownerId
        name := name
        description := p.description
        price := price
        qtyAvailable := qtyAvailable
        createdAt := p.createdAt
        updatedAt := p.updatedAt
        status := p.status
        moderatorId := p.moderatorId
        moderationComment := p.moderationComment }
  | _, _, _ => .error .integrityError

/-- Whether a flush finds an attribute that differs from the stored row. -/
def dirty (p : ProductObj) (old : Product) : Bool :=
  let samePrice := match p.price with
    | some d => d.equal (.ofCents old.price.val)
    | none => false
  !samePrice || decide ({ p with price := none } ≠ { load old with price := none })

/-- What is known of a row that an instance was stored as. -/
structure StoredAs (p : ProductObj) (r : Product) : Prop where
  id : r.id = p.id
  ownerId : r.ownerId = p.ownerId
  name : p.name = some r.name
  description : r.description = p.description
  price : ∃ d, p.price = some d ∧ r.price.val = d.cents
  qtyAvailable : p.qtyAvailable = some r.qtyAvailable.val
  createdAt : r.createdAt = p.createdAt
  status : r.status = p.status
  moderatorId : r.moderatorId = p.moderatorId
  moderationComment : r.moderationComment = p.moderationComment

theorem storedAs_of_row {p : ProductObj} {r : Product} (h : p.row = .ok r) : p.StoredAs r := by
  unfold row at h
  split at h
  · next name price qty hname hprice hqty =>
      cases hp : Price.ofDecimal price with
      | error e => simp [hp, bind, Except.bind] at h
      | ok c =>
          cases hs : Stock.ofInt qty with
          | error e => simp [hp, hs, bind, Except.bind] at h
          | ok q =>
              simp only [hp, hs, bind, Except.bind, pure, Except.pure, Except.ok.injEq] at h
              subst h
              have hval := Stock.ofInt_eq_ok.mp hs
              exact ⟨rfl, rfl, hname, rfl, ⟨price, hprice, Price.ofDecimal_val hp⟩,
                by rw [hqty, ← hval], rfl, rfl, rfl, rfl⟩
  · contradiction

/-- An instance that a flush finds unchanged is stored already. -/
theorem storedAs_of_clean {p : ProductObj} {old : Product} (h : p.dirty old = false) :
    p.StoredAs old := by
  obtain ⟨id, ownerId, name, description, price, qty, created, updated, status, moderator, comment⟩ := p
  cases price with
  | none => simp [dirty] at h
  | some d =>
      simp only [dirty, load, Bool.or_eq_false_iff, Bool.not_eq_false', decide_eq_false_iff_not,
        ne_eq, not_not, mk.injEq, true_and] at h
      obtain ⟨hprice, rfl, rfl, rfl, rfl, rfl, rfl, rfl, rfl, rfl, rfl⟩ := h
      exact ⟨rfl, rfl, rfl, rfl, ⟨d, rfl, (Decimal.cents_of_equal hprice).symm⟩, rfl, rfl, rfl, rfl,
        rfl⟩

/-- An instance that only moved in the moderation workflow is stored as the
row it was loaded from, moved the same way. -/
theorem storedAs_move {p r : Product} {s : ProductStatus} {m : Option Uuid}
    (h : StoredAs { load p with status := s, moderatorId := m } r) :
    r = { p with status := s, moderatorId := m, updatedAt := r.updatedAt } := by
  obtain ⟨hid, howner, hname, hdesc, ⟨d, hd, hprice⟩, hqty, hcreated, hstatus, hmod, hcomment⟩ := h
  obtain ⟨id, ownerId, name, description, price, qty, created, updated, status, moderator, comment⟩ := r
  simp only [load, Option.some.injEq] at *
  subst hid howner hname hdesc hd hcreated hstatus hmod hcomment
  rw [Decimal.cents_ofCents] at hprice
  rw [Subtype.ext hprice, Subtype.ext hqty]

end ProductObj

/-! ## Product responses -/

structure ProductRead where
  id : Uuid
  name : String
  description : Option String
  price : Decimal
  qtyAvailable : Int
  status : ProductStatus
  createdAt : Timestamp
  updatedAt : Timestamp
  deriving DecidableEq

namespace ProductRead

/-- `ProductRead.model_validate(product)`: a null in a required field is refused. -/
def modelValidate (p : ProductObj) : Except Failure ProductRead :=
  match p.name, p.price, p.qtyAvailable with
  | some name, some price, some qtyAvailable => .ok {
      id := p.id
      name := name
      description := p.description
      price := price
      qtyAvailable := qtyAvailable
      status := p.status
      createdAt := p.createdAt
      updatedAt := p.updatedAt }
  | _, _, _ => .error .validationError

/-- `model_dump(mode='json')`; a product instance has no `image_urls`, so the
field keeps its default. -/
def dump (p : ProductRead) : Snapshot :=
  [("id", .scalar (.uuid p.id)), ("name", .str p.name), ("description", .optStr p.description),
    ("price", .scalar (.decimal p.price)), ("qty_available", .scalar (.int p.qtyAvailable)),
    ("status", .str p.status.text), ("created_at", .scalar (.datetime p.createdAt)),
    ("updated_at", .scalar (.datetime p.updatedAt)), ("image_urls", .arr [])]

/-- A row always reads back. -/
theorem modelValidate_load (p : Product) : ∃ r, modelValidate (.load p) = .ok r := ⟨_, rfl⟩

end ProductRead

/-! ## Reservation responses -/

structure ReservationResponse where
  id : Uuid
  productId : Uuid
  userId : Uuid
  quantity : Int
  status : String
  expiresAt : Timestamp

/-- `ReservationResponse.model_validate(reservation)` -/
def ReservationResponse.modelValidate (r : Reservation) : ReservationResponse where
  id := r.id
  productId := r.productId
  userId := r.userId
  quantity := r.qtyReserved
  status := r.status.text
  expiresAt := r.expiresAt

/-! ## Order instances and responses -/

/-- An `OrderItem` instance. -/
structure OrderItemObj where
  id : Uuid
  orderId : Uuid
  productId : Uuid
  productName : String
  quantity : Int
  price : Decimal
  deriving DecidableEq

def OrderItemObj.load (i : OrderItem) : OrderItemObj where
  id := i.id
  orderId := i.orderId
  productId := i.productId
  productName := i.productName
  quantity := i.quantity
  price := .ofCents i.price.val

/-- An `Order` instance with its `items` loaded. -/
structure OrderObj where
  id : Uuid
  userId : Uuid
  status : OrderStatus
  totalAmount : Decimal
  shippingAddress : Option String
  createdAt : Timestamp
  items : List OrderItemObj
  deriving DecidableEq

def OrderObj.load (o : Order) (items : List OrderItem) : OrderObj where
  id := o.id
  userId := o.userId
  status := o.status
  totalAmount := .ofCents o.totalAmount.val
  shippingAddress := o.shippingAddress
  createdAt := o.createdAt
  items := items.map .load

/-- `order.status = status` -/
def OrderObj.moved (o : OrderObj) (status : OrderStatus) : OrderObj := { o with status := status }

/-- `OrderItemResponse`, dumped. -/
def OrderItemObj.dump (i : OrderItemObj) : Json :=
  .obj [("id", .scalar (.uuid i.id)), ("product_id", .scalar (.uuid i.productId)),
    ("product_name", .str i.productName), ("quantity", .scalar (.int i.quantity)),
    ("price", .scalar (.decimal i.price))]

/-- `OrderResponse.model_validate(order).model_dump(mode='json')`; every field
of an order instance is a value of its response field, so validation accepts. -/
def OrderObj.dump (o : OrderObj) : Snapshot :=
  [("id", .scalar (.uuid o.id)), ("user_id", .scalar (.uuid o.userId)),
    ("status", .str o.status.text), ("total_amount", .scalar (.decimal o.totalAmount)),
    ("shipping_address", .optStr o.shippingAddress),
    ("created_at", .scalar (.datetime o.createdAt)), ("items", .arr (o.items.map OrderItemObj.dump))]

end FairDrop
