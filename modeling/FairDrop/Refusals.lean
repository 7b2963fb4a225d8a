import FairDrop.History
import FairDrop.Orders.Amounts
import FairDrop.ProductRows
import FairDrop.ReservationKeys
import FairDrop.Returns
import FairDrop.RowStore.Earned
import FairDrop.RowStore.Reasons

/-!
# FairDrop.Refusals

What the answer to a call tells.  `Refused` lists, call by call, the errors that
the state of the shop accounts for.  A call that succeeds has committed its
change; a call that ends in an error other than an outage has changed nothing,
and the error was true of the database at one of its own statements, whoever ran
in between (`answered_truly`).
-/

namespace FairDrop

open RowStore

/-! ## Reasons -/

/-- The payment or cancellation of an order, and by whom. -/
def Call.settlement : Call → Option (Uuid × User)
  | .confirmOrderPayment orderId user | .cancelOrder orderId user => some (orderId, user)
  | _ => none

/-- How many products the user may have. -/
def sellerLimit (env : Env) (user : User) : Nat :=
  if (user.role = .seller ∨ user.role = .sellerB2b) ∧ user.isVerified then
    env.settings.verifiedSellerLimit
  else env.settings.unverifiedSellerLimit

/-- `r` is a pending reservation of the user. -/
structure Reservation.Open (r : Reservation) (d : Db) (user : User) (id : Uuid) : Prop where
  stored : d.reservations.get id = some r
  owner : r.userId = user.id
  pending : r.status = .pending

/-- The errors of a call that the database `d` accounts for. -/
inductive Refused (env : Env) (d : Db) : Call → Failure → Prop
  | limitReached {ownerId data user} (message : String) (hstaff : user.isStaff = false)
      (h : sellerLimit env user ≤ (d.products.rows.filter fun p => p.ownerId = user.id).length) :
      Refused env d (.createProduct ownerId data user) (.sellerLimitExceeded message)
  | newInvalid {ownerId data user e}
      (h : (ProductObj.create data ownerId (env.uuid 0) env.now).row = .error e) :
      Refused env d (.createProduct ownerId data user) e
  | newDrawn {ownerId data user} (h : (d.products.get (env.uuid 0)).isSome) :
      Refused env d (.createProduct ownerId data user) .integrityError
  | editUnknown {id data user} (h : d.products.get id = none) :
      Refused env d (.updateProduct id data user) .notFound
  | editForeign {id data user e} (p : Product) (hp : d.products.get id = some p)
      (h : checkOwnership user p.owned = .error e) : Refused env d (.updateProduct id data user) e
  | editLocked {id data user} (message : String) (p : Product) (hp : d.products.get id = some p)
      (h : p.status = .pendingModeration ∨ p.status = .moderationInProgress) :
      Refused env d (.updateProduct id data user) (.conflict message)
  | editNull {id data user e} (p : Product) (hp : d.products.get id = some p)
      (h : ProductRead.modelValidate ((ProductObj.load p).edit data) = .error e) :
      Refused env d (.updateProduct id data user) e
  | editInvalid {id data user e} (p : Product) (hp : d.products.get id = some p)
      (h : ((ProductObj.load p).edit data).row = .error e) :
      Refused env d (.updateProduct id data user) e
  | moveUnknown {c m} (hc : Call.moderation c = some m) (h : d.products.get m.productId = none) :
      Refused env d c .notFound
  | moveForeign {c m e} (hc : Call.moderation c = some m) (p : Product)
      (hp : d.products.get m.productId = some p) (h : checkCurrentUser m.owner p = .error e) :
      Refused env d c e
  | moveIllegal {c m} (hc : Call.moderation c = some m) (p : Product)
      (hp : d.products.get m.productId = some p) (h : m.move.allowed p.status = false) :
      Refused env d c .conflict
  | reserveUnknown {userId key data} (h : d.products.get data.productId = none) :
      Refused env d (.reserveItems userId key data) .notFound
  | reserveShort {userId key data} (p : Product) (hp : d.products.get data.productId = some p)
      (h : p.qtyAvailable.val < data.quantity.val) :
      Refused env d (.reserveItems userId key data) .insufficientInventory
  | reserveTaken {userId key data} (h : (∃ r ∈ d.reservations.rows, r.idempotencyKey = key) ∨
      (d.reservations.get (env.uuid 0)).isSome) :
      Refused env d (.reserveItems userId key data) .conflict
  | orderUnknown {user data} (h : ∀ r : Reservation, ¬ r.Open d user data.reservationId) :
      Refused env d (.createOrder user data) .notFound
  | orderLate {user data} (r : Reservation) (hr : r.Open d user data.reservationId)
      (h : r.expiresAt < env.now ∨ r.orderId.isSome) :
      Refused env d (.createOrder user data) .conflict
  | orderLarge {user data} (r : Reservation) (p : Product) (hr : r.Open d user data.reservationId)
      (hp : d.products.get r.productId = some p) (h : numericBound ≤ p.price.val * r.qtyReserved) :
      Refused env d (.createOrder user data) .dataError
  | orderDrawn {user data} (h : ¬ d.DrawsOrder env) :
      Refused env d (.createOrder user data) .integrityError
  | settleUnknown {c orderId user} (hc : c.settlement = some (orderId, user))
      (h : d.orders.get orderId = none) : Refused env d c .notFound
  | settleForeign {c orderId user e} (hc : c.settlement = some (orderId, user)) (o : Order)
      (ho : d.orders.get orderId = some o) (h : checkOwnership user o.owned = .error e) :
      Refused env d c e
  | settleOver {c orderId user} (hc : c.settlement = some (orderId, user)) (o : Order)
      (ho : d.orders.get orderId = some o) (h : o.status ≠ .pending) : Refused env d c .conflict
  | cancelFull {orderId user} (r : Reservation) (p : Product) (hr : r ∈ d.reservations.rows)
      (hlink : r.orderId = some orderId) (hp : d.products.get r.productId = some p)
      (h : int32Max < p.qtyAvailable.val + r.qtyReserved) :
      Refused env d (.cancelOrder orderId user) .dataError

/-! ## Refused writes -/

section
variable {d : Db} {e : Failure}

/-- A sequence fails in its first part, or in its second. -/
theorem bind_eq_error {α β : Type} {x : Except Failure α} {f : α → Except Failure β} :
    (x >>= f) = .error e ↔ x = .error e ∨ ∃ a, x = .ok a ∧ f a = .error e := by
  cases x with
  | error e' => simp [bind, Except.bind]
  | ok a => simp [bind, Except.bind]

/-- A demand fails with its own error, if it is not met. -/
theorem demand_eq_error {c : Prop} [Decidable c] {e' : Failure} :
    demand c e' = .error e ↔ ¬ c ∧ e' = e := by
  unfold demand
  split <;> simp_all

/-- Only a missing row is stale. -/
theorem storedRow_eq_error {α κ : Type} [Keyed α κ] [DecidableEq κ] {t : Table α} {k : κ} :
    storedRow t k = .error e ↔ t.get k = none ∧ .staleData = e := by
  unfold storedRow
  cases h : t.get k <;> simp

/-- Only a key that is taken breaks the table's constraint. -/
theorem addRow_eq_error {α κ : Type} [Keyed α κ] [DecidableEq κ] {t : Table α} {r : α} :
    addRow t r = .error e ↔ (t.get (Keyed.key r)).isSome ∧ .integrityError = e := by
  cases hadd : addRow t r with
  | ok t' =>
      obtain ⟨hnone, -⟩ := addRow_eq_ok.mp hadd
      simp [hnone]
  | error e' =>
      have hsome : t.get (Keyed.key r) ≠ none := by
        intro hnone
        rw [addRow_eq_ok.mpr ⟨hnone, rfl⟩] at hadd
        contradiction
      have hintegrity : e' = .integrityError := by
        unfold addRow at hadd
        split at hadd
        · contradiction
        · exact (Except.error.inj hadd).symm
      subst hintegrity
      simp [Option.isSome_iff_ne_none, hsome]

/-- A product is refused for its columns or its id. -/
theorem apply_addProduct_error {p : ProductObj} (h : (Write.addProduct p).apply d = .error e) :
    p.row = .error e ∨ ((d.products.get p.id).isSome ∧ .integrityError = e) := by
  simp only [Write.apply, bind_eq_error, addRow_eq_error, key_product] at h
  rcases h with hrow | ⟨row, hrow, ⟨hsome, he⟩ | ⟨t, _, hnone⟩⟩
  · exact .inl hrow
  · rw [(ProductObj.storedAs_of_row hrow).id] at hsome
    exact .inr ⟨hsome, he⟩
  · cases hnone

/-- An update of a product is refused for its columns, or because the row is gone. -/
theorem apply_updateProduct_error {p : ProductObj} {now : Timestamp}
    (h : (Write.updateProduct p now).apply d = .error e) :
    d.products.get p.id = none ∨ p.row = .error e := by
  simp only [Write.apply, bind_eq_error, storedRow_eq_error] at h
  rcases h with ⟨hnone, -⟩ | ⟨old, -, h⟩
  · exact .inl hnone
  · split at h
    · rcases bind_eq_error.mp h with hrow | ⟨row, _, hnone⟩
      · exact .inr hrow
      · cases hnone
    · cases h

/-- A stock is refused for its column, or because the row is gone. -/
theorem apply_setStock_error {id : Uuid} {qty : Int} {now : Timestamp}
    (h : (Write.setStock id qty now).apply d = .error e) :
    d.products.get id = none ∨ Stock.ofInt qty = .error e := by
  simp only [Write.apply, bind_eq_error, storedRow_eq_error] at h
  rcases h with ⟨hnone, -⟩ | ⟨p, -, hqty | ⟨q, _, hnone⟩⟩
  · exact .inl hnone
  · exact .inr hqty
  · cases hnone

/-- A reservation is refused for its quantity, its product, its key or its id. -/
theorem apply_addReservation_error {r : Reservation}
    (h : (Write.addReservation r).apply d = .error e) :
    ¬ FitsInteger r.qtyReserved ∨ d.products.get r.productId = none ∨
      (((∃ r' ∈ d.reservations.rows, r'.idempotencyKey = r.idempotencyKey) ∨
        (d.reservations.get r.id).isSome) ∧ .integrityError = e) := by
  simp only [Write.apply, bind_eq_error, demand_eq_error, addRow_eq_error, key_reservation] at h
  rcases h with ⟨hfit, -⟩ | ⟨_, _, ⟨hfk, -⟩ | ⟨_, _, ⟨hkey, he⟩ | ⟨_, _, ⟨hsome, he⟩ | ⟨_, _, hnone⟩⟩⟩⟩
  · exact .inl hfit
  · exact .inr (.inl (by simpa using hfk))
  · exact .inr (.inr ⟨.inl (by simpa using hkey), he⟩)
  · exact .inr (.inr ⟨.inr hsome, he⟩)
  · cases hnone

/-- A new status of a reservation is refused only if the row is gone. -/
theorem apply_setReservationStatus_error {id : Uuid} {status : OrderStatus}
    (h : (Write.setReservationStatus id status).apply d = .error e) : d.reservations.get id = none := by
  simp only [Write.apply, bind_eq_error, storedRow_eq_error] at h
  rcases h with ⟨hnone, -⟩ | ⟨_, _, hnone⟩
  · exact hnone
  · cases hnone

/-- A new status of an order is refused only if the row is gone. -/
theorem apply_setOrderStatus_error {id : Uuid} {status : OrderStatus} {now : Timestamp}
    (h : (Write.setOrderStatus id status now).apply d = .error e) : d.orders.get id = none := by
  simp only [Write.apply, bind_eq_error, storedRow_eq_error] at h
  rcases h with ⟨hnone, -⟩ | ⟨_, _, hnone⟩
  · exact hnone
  · cases hnone

/-- An order is refused for its total or its id. -/
theorem apply_addOrder_error {o : OrderObj} {now : Timestamp}
    (h : (Write.addOrder o now).apply d = .error e) :
    Amount.ofDecimal o.totalAmount = .error e ∨
      ((d.orders.get o.id).isSome ∧ .integrityError = e) := by
  simp only [Write.apply, bind_eq_error, addRow_eq_error, key_order] at h
  rcases h with hamount | ⟨_, _, ⟨hsome, he⟩ | ⟨_, _, hnone⟩⟩
  · exact .inl hamount
  · exact .inr ⟨hsome, he⟩
  · cases hnone

/-- An order item is refused for its price, its quantity, its order, its product or its id. -/
theorem apply_addOrderItem_error {i : OrderItemObj} (h : (Write.addOrderItem i).apply d = .error e) :
    ItemPrice.ofDecimal i.price = .error e ∨ ¬ FitsInteger i.quantity ∨
      d.orders.get i.orderId = none ∨ d.products.get i.productId = none ∨
        ((d.orderItems.get i.id).isSome ∧ .integrityError = e) := by
  simp only [Write.apply, bind_eq_error, demand_eq_error, addRow_eq_error, key_orderItem] at h
  rcases h with hprice | ⟨_, _, ⟨hfit, -⟩ | ⟨_, _, ⟨ho, -⟩ | ⟨_, _, ⟨hp, -⟩ | ⟨_, _, ⟨hsome, he⟩ |
    ⟨_, _, hnone⟩⟩⟩⟩⟩
  · exact .inl hprice
  · exact .inr (.inl hfit)
  · exact .inr (.inr (.inl (by simpa using ho)))
  · exact .inr (.inr (.inr (.inl (by simpa using hp))))
  · exact .inr (.inr (.inr (.inr ⟨hsome, he⟩)))
  · cases hnone

/-- A link is refused if one of its ends is missing. -/
theorem apply_linkOrder_error {id orderId : Uuid} (h : (Write.linkOrder id orderId).apply d = .error e) :
    d.reservations.get id = none ∨ d.orders.get orderId = none := by
  simp only [Write.apply, bind_eq_error, storedRow_eq_error, demand_eq_error] at h
  rcases h with ⟨hnone, -⟩ | ⟨_, _, ⟨ho, -⟩ | ⟨_, _, hnone⟩⟩
  · exact .inl hnone
  · exact .inr (by simpa using ho)
  · cases hnone

/-- Log entries are never refused. -/
theorem applyAll_logs_ne_error {as : List AuditLog} :
    store.applyAll (as.map .addAuditLog) d ≠ .error e := by
  rw [applyAll_logs.mpr rfl]
  exact nofun

end

/-! ## Statements -/

/-- The reservations that an order is linked to. -/
def Db.linkedTo (d : Db) (orderId : Uuid) : List Reservation :=
  d.reservations.rows.filter fun r => r.orderId = some orderId

/-- An order has one reservation. -/
theorem Coupled.linkedTo_of_link {d : Db} (h : Coupled d) {orderId : Uuid} {r : Reservation}
    (hr : r ∈ d.reservations.rows) (hlink : r.orderId = some orderId) : d.linkedTo orderId = [r] :=
  Table.filter_eq_singleton hr (decide_eq_true hlink) fun x hx hxlink => by
    rw [h.injective x hx r hr orderId (of_decide_eq_true hxlink) hlink]

/-- An order that is there is linked to one. -/
theorem Coupled.linkedTo_eq {d : Db} (h : Coupled d) {orderId : Uuid}
    (ho : (d.orders.get orderId).isSome) :
    ∃ r ∈ d.reservations.rows, r.orderId = some orderId ∧ d.linkedTo orderId = [r] := by
  obtain ⟨o, ho⟩ := Option.isSome_iff_exists.mp ho
  obtain rfl : o.id = orderId := Table.key_of_get ho
  obtain ⟨r, hr, hlink⟩ := h.referenced o (Table.mem_of_get ho)
  exact ⟨r, hr, hlink, h.linkedTo_of_link hr hlink⟩

/-- The query by the link finds that reservation. -/
theorem Db.find_linked {d : Db} {orderId : Uuid} {r : Reservation} (h : d.linkedTo orderId = [r]) :
    d.reservations.rows.find? (fun r => r.orderId = some orderId) = some r := by
  rw [← List.head?_filter]
  change (d.linkedTo orderId).head? = some r
  rw [h]
  rfl

/-- `d'` may come after `d`; products are not deleted here. -/
structure Later (d d' : Db) : Prop where
  preserves : Preserves d d'
  products : ∀ id, (d.products.get id).isSome → (d'.products.get id).isSome

theorem Later.refl (d : Db) : Later d d := ⟨.refl d, fun _ h => h⟩

/-- Later is later still. -/
theorem Later.trans {d₁ d₂ d₃ : Db} (h : Later d₁ d₂) (h' : Later d₂ d₃) : Later d₁ d₃ :=
  ⟨h.preserves.trans h'.preserves, fun id hid => h'.products id (h.products id hid)⟩

section
variable {α : Type} {P : Db → Prop} {last : Db} {p : Known Session Db Row RowVal Write}

/-- A check that fails has its reason in what has been seen. -/
theorem explains_raiseIf {c : Prop} [Decidable c] {e : Failure}
    {Q : Except Failure Unit → Known Session Db Row RowVal Write → Db → Prop}
    (hraise : c → Q (.error e) p last) (hgo : ¬ c → Q (.ok ()) p last) :
    explains store P Later (raiseIf c e) p last Q := by
  unfold raiseIf
  split
  · next h => exact hraise h
  · next h => exact hgo h

/-- A row that is not found was not there when it was looked for. -/
theorem explains_orNotFound {x : Option α}
    {Q : Except Failure α → Known Session Db Row RowVal Write → Db → Prop}
    (hnone : x = none → Q (.error .notFound) p last) (hsome : ∀ a, x = some a → Q (.ok a) p last) :
    explains store P Later (orNotFound x) p last Q := by
  cases x with
  | none => exact hnone rfl
  | some a => exact hsome a rfl

/-- A row that is refreshed is there. -/
theorem explains_orStale {x : Option α}
    {Q : Except Failure α → Known Session Db Row RowVal Write → Db → Prop} (hx : x.isSome)
    (hok : ∀ a, Q (.ok a) p last) : explains store P Later (orStale x) p last Q := by
  cases x with
  | none => contradiction
  | some a => exact hok a

/-- An entry for the log needs no reason. -/
theorem explains_addLog (a : Option AuditLog)
    (Q : Except Failure Unit → Known Session Db Row RowVal Write → Db → Prop) :
    explains store P Later (addLog a) p last Q =
      Q (.ok ()) { p with pending := p.pending ++ a.toList.map .addAuditLog } last := by
  cases a with
  | none => simp [addLog]
  | some a => rfl

/-- A row that is locked if it is there. -/
theorem explains_lockRow {β : Type} {find : Db → Option β} {row : Row} {val : Option β → RowVal}
    (hval : ∀ d x, find d = some x → store.view d row = val (some x))
    {Q : Except Failure (Option β) → Known Session Db Row RowVal Write → Db → Prop}
    (hnone : ∀ d, p.Sees store P Later last d → find d = none → Q (.ok none) p d)
    (hsome : ∀ d x, p.Sees store P Later last d → find d = some x →
      Q (.ok (some x)) (p.hold row (val (some x))) d)
    (hout : Q (.error .operationalError) p.abort last) :
    explains store P Later (do
      let d ← Prog.selectForUpdate fun d => (find d).map fun _ => row
      return find d) p last Q := by
  apply explains_bind
  apply explains_selectForUpdate
  · intro d hd hf
    have hx : find d = none := by simpa using hf
    change Q (.ok (find d)) p d
    rw [hx]
    exact hnone d hd hx
  · intro d r hd hf
    obtain ⟨x, hx, rfl⟩ := Option.map_eq_some_iff.mp hf
    change Q (.ok (find d)) (p.hold row (store.view d row)) d
    rw [hx, hval d x hx]
    exact hsome d x hd hx
  · exact hout

/-- A product that is locked was there, or was not, when it was looked for. -/
theorem explains_selectProductForUpdate {id : Uuid}
    {Q : Except Failure (Option Product) → Known Session Db Row RowVal Write → Db → Prop}
    (hnone : ∀ d, p.Sees store P Later last d → d.products.get id = none → Q (.ok none) p d)
    (hsome : ∀ d x, p.Sees store P Later last d → d.products.get id = some x →
      Q (.ok (some x)) (p.hold (.product id) (.product (some x))) d)
    (hout : Q (.error .operationalError) p.abort last) :
    explains store P Later (selectProductForUpdate id) p last Q := by
  refine explains_lockRow (fun d x h => ?_) hnone hsome hout
  exact congrArg RowVal.product h

/-- The same of a reservation that meets a condition. -/
theorem explains_selectReservationForUpdate {id : Uuid} {cond : Reservation → Bool}
    {Q : Except Failure (Option Reservation) → Known Session Db Row RowVal Write → Db → Prop}
    (hnone : ∀ d, p.Sees store P Later last d → (d.reservations.get id).filter cond = none →
      Q (.ok none) p d)
    (hsome : ∀ d x, p.Sees store P Later last d → (d.reservations.get id).filter cond = some x →
      Q (.ok (some x)) (p.hold (.reservation id) (.reservation (some x))) d)
    (hout : Q (.error .operationalError) p.abort last) :
    explains store P Later (selectReservationForUpdate id cond) p last Q := by
  refine explains_lockRow (fun d x h => ?_) hnone hsome hout
  exact congrArg RowVal.reservation (Option.filter_eq_some_iff.mp h).1

/-- The same of an order. -/
theorem explains_selectOrderForUpdate {id : Uuid}
    {Q : Except Failure (Option Order) → Known Session Db Row RowVal Write → Db → Prop}
    (hnone : ∀ d, p.Sees store P Later last d → d.orders.get id = none → Q (.ok none) p d)
    (hsome : ∀ d x, p.Sees store P Later last d → d.orders.get id = some x →
      Q (.ok (some x)) (p.hold (.order id) (.order (some x))) d)
    (hout : Q (.error .operationalError) p.abort last) :
    explains store P Later (selectOrderForUpdate id) p last Q := by
  refine explains_lockRow (fun d x h => ?_) hnone hsome hout
  exact congrArg RowVal.order h

/-- The one reservation of an order that is there. -/
theorem explains_selectReservationByOrderForUpdate {orderId : Uuid} (hP : ∀ d, P d → Coupled d)
    (horder : ∀ d, p.Sees store P Later last d → (d.orders.get orderId).isSome)
    {Q : Except Failure (Option Reservation) → Known Session Db Row RowVal Write → Db → Prop}
    (hsome : ∀ d r, p.Sees store P Later last d → r ∈ d.reservations.rows →
      r.orderId = some orderId →
        Q (.ok (some r)) (p.hold (.reservation r.id) (.reservation (some r))) d)
    (hout : Q (.error .operationalError) p.abort last) :
    explains store P Later (selectReservationByOrderForUpdate orderId) p last Q := by
  apply explains_bind
  apply explains_selectForUpdate
  · intro d hd hf
    obtain ⟨r, hr, hlink, -⟩ := (hP d hd.here).linkedTo_eq (horder d hd)
    have hall : ∀ x ∈ d.reservations.rows, x.orderId ≠ some orderId := by
      simpa [List.find?_eq_none] using hf
    exact absurd hlink (hall r hr)
  · intro d row hd hf
    obtain ⟨r, hr, hlink, hone⟩ := (hP d hd.here).linkedTo_eq (horder d hd)
    rw [Db.find_linked hone] at hf
    obtain rfl := Option.some.inj hf
    have hview : store.view d (.reservation r.id) = .reservation (some r) :=
      congrArg RowVal.reservation (Table.get_of_mem hr)
    change explains store P Later (scalarOneOrNone (d.linkedTo orderId)) _ d Q
    rw [hone, hview]
    exact hsome d r hd hr hlink
  · exact hout

end

/-! ## Services -/

/-- An error is an outage, or one of the databases `P` accounts for it. -/
def Excused {α : Type} (P : Db → Prop) (env : Env) (c : Call) (r : Except Failure α) : Prop :=
  ∀ e, r = .error e → e = .operationalError ∨ ∃ d, P d ∧ Refused env d c e

section
variable {α : Type} {P : Db → Prop} {env : Env} {c : Call} {last d : Db} {e : Failure}
  {p : Known Session Db Row RowVal Write}

/-- A success needs no excuse. -/
theorem Excused.ok {a : α} : Excused P env c (.ok a) := nofun

/-- Nor does an outage. -/
theorem Excused.outage : Excused P env c (.error .operationalError : Except Failure α) :=
  fun _ he => .inl (Except.error.inj he).symm

/-- A refusal is excused by a database that the call has seen. -/
theorem Excused.refused (hd : p.Sees store P Later last d) (h : Refused env d c e) :
    Excused P env c (.error e : Except Failure α) := by
  intro e' he
  obtain rfl := Except.error.inj he
  exact .inr ⟨d, hd.here, h⟩

/-- What is made of a success needs no other excuse. -/
theorem Excused.map {β : Type} {r : Except Failure α} (h : Excused P env c r) (f : α → β) :
    Excused P env c (r.map f) := by
  cases r with
  | ok a => exact .ok
  | error e => exact fun e' he => h e' (congrArg Except.error (Except.error.inj he))

/-- A row that was there at the last look is still there. -/
theorem explains_refreshProduct {id : Uuid} (h : (last.products.get id).isSome) :
    explains store P Later (refreshProduct id) p last fun r _ _ => Excused P env c r := by
  apply explains_bind
  refine explains_select (fun d hd => ?_) .outage
  exact explains_orStale (hd.after.products id h) fun x => .ok

/-- Logging a change of a product fails only if the product is not valid. -/
theorem explains_logProductChange {user : User} {product : ProductObj} {old : Option ProductRead}
    {action : String} {metadata : Option Snapshot}
    {Q : Except Failure Unit → Known Session Db Row RowVal Write → Db → Prop}
    (hok : ∀ entry : Option AuditLog,
      Q (.ok ()) { p with pending := p.pending ++ entry.toList.map .addAuditLog } last)
    (herr : ∀ e, ProductRead.modelValidate product = .error e → Q (.error e) p last) :
    explains store P Later (logProductChange env user product old action metadata) p last Q := by
  apply explains_bind
  apply explains_ofExcept
  unfold productEntry
  cases hvalid : ProductRead.modelValidate product with
  | error e => exact herr e hvalid
  | ok new =>
      change explains store P Later (addLog _) p last Q
      rw [explains_addLog]
      exact hok _

/-! ### Products -/

/-- An error of `create_product` has its reason in the database. -/
theorem explains_createProduct (ownerId : Uuid) (data : ProductCreate) (user : User) :
    explains store P Later (createProduct env ownerId data user) (.start .fresh none) last
      fun r _ _ => Excused P env (.createProduct ownerId data user) r := by
  have hrest : ∀ last, explains store P Later (do
      let newProduct := ProductObj.create data ownerId (env.uuid 0) env.now
      Prog.save (.addProduct newProduct)
      logProductChange env user newProduct none "create" none
      Prog.commitWork
      refreshProduct newProduct.id) (.start .fresh none) last
        fun r _ _ => Excused P env (.createProduct ownerId data user) r := by
    intro last
    apply explains_bind
    rw [explains_save]
    apply explains_bind
    refine explains_logProductChange (fun entry => ?_) (fun e he => by contradiction)
    apply explains_bind
    refine explains_commitWork (fun d d' hd happly => ?_) (fun d e hd happly => ?_) .outage
    · obtain ⟨row, hrow, hnew, rfl⟩ := applyAll_addProduct happly
      apply explains_refreshProduct
      have hid : row.id = env.uuid 0 := (ProductObj.storedAs_of_row hrow).id
      exact Option.isSome_of_eq_some ((Table.get_insert hnew _).trans (if_pos hid))
    · rcases Store.applyAll_append_error.mp happly with hadd | ⟨d', _, hlogs⟩
      · rcases Store.applyAll_cons_error.mp hadd with hadd | ⟨_, _, hnil⟩
        · rcases apply_addProduct_error hadd with hrow | ⟨hsome, rfl⟩
          · exact .refused hd (.newInvalid hrow)
          · exact .refused hd (.newDrawn hsome)
        · contradiction
      · exact absurd hlogs applyAll_logs_ne_error
  apply explains_bind
  unfold checkSellerLimit
  split
  · exact hrest last
  · next hstaff =>
      have hnot : user.isStaff = false := by simpa [User.isStaff] using hstaff
      apply explains_bind
      refine explains_select (fun d hd => ?_) .outage
      exact explains_raiseIf (fun hfull => .refused hd (.limitReached _ hnot hfull)) fun _ => hrest d

/-- A product for an update is missing, another's, or given. -/
theorem explains_getProductForUpdate {id : Uuid} {owner : Option User}
    {Q : Except Failure Product → Known Session Db Row RowVal Write → Db → Prop}
    (hnone : ∀ d, p.Sees store P Later last d → d.products.get id = none →
      ∀ p', Q (.error .notFound) p' d)
    (hforeign : ∀ d x e, p.Sees store P Later last d → d.products.get id = some x →
      checkCurrentUser owner x = .error e → ∀ p', Q (.error e) p' d)
    (hok : ∀ d x, p.Sees store P Later last d → d.products.get id = some x →
      Q (.ok x) (p.hold (.product id) (.product (some x))) d)
    (hout : Q (.error .operationalError) p.abort last) :
    explains store P Later (getProductForUpdate id owner) p last Q := by
  apply explains_bind
  refine explains_selectProductForUpdate (fun d hd hx => hnone d hd hx p) (fun d x hd hx => ?_) hout
  apply explains_bind
  refine explains_orNotFound (fun h => by contradiction) (fun y hy => ?_)
  obtain rfl := Option.some.inj hy
  apply explains_bind
  apply explains_ofExcept
  cases hcheck : checkCurrentUser owner x with
  | error e => exact hforeign d x e hd hx hcheck _
  | ok u => exact hok d x hd hx

/-- The common end of an edit and of a move: only the instance itself can be refused. -/
theorem explains_storeProduct {user : User} {x : Product} {edited : ProductObj} {old : ProductRead}
    {action : String} {metadata : Option Snapshot} (hid : edited.id = x.id)
    (hx : (.product x.id, .product (some x)) ∈ p.held) (hpending : p.pending = [])
    (hnull : ∀ e, ProductRead.modelValidate edited = .error e → Excused P env c
      (.error e : Except Failure Product))
    (hinvalid : ∀ e, edited.row = .error e → Excused P env c (.error e : Except Failure Product)) :
    explains store P Later
      (do Prog.save (.updateProduct edited env.now)
          logProductChange env user edited (some old) action metadata
          Prog.commitWork
          refreshProduct x.id) p last fun r _ _ => Excused P env c r := by
  apply explains_bind
  rw [explains_save]
  apply explains_bind
  refine explains_logProductChange (fun entry => ?_) hnull
  apply explains_bind
  refine explains_commitWork (fun d d' hd happly => ?_) (fun d e hd happly => ?_) .outage
  · simp only [Known.push, hpending, List.nil_append] at happly
    obtain ⟨x₀, x', hx₀, hs, rfl⟩ := applyAll_updateProduct happly
    apply explains_refreshProduct
    have hget : d.products.get x'.id = some x₀ := by rw [hs.id]; exact hx₀
    refine Option.isSome_of_eq_some (?_ : (d.products.set x').get x.id = some x')
    rw [← hid, ← hs.id]
    exact Table.get_set_self hget
  · simp only [Known.push, hpending, List.nil_append] at happly
    rcases Store.applyAll_append_error.mp happly with hadd | ⟨d', _, hlogs⟩
    · rcases Store.applyAll_cons_error.mp hadd with hadd | ⟨_, _, hnil⟩
      · rcases apply_updateProduct_error hadd with hnone | hrow
        · rw [hid, get_product_of_agrees hd.agrees hx] at hnone
          contradiction
        · exact hinvalid e hrow
      · contradiction
    · exact absurd hlogs applyAll_logs_ne_error

/-- An error of `update_product` has its reason in the database. -/
theorem explains_updateProduct (id : Uuid) (data : ProductUpdate) (user : User) :
    explains store P Later (updateProduct env id data user) (.start .fresh none) last
      fun r _ _ => Excused P env (.updateProduct id data user) r := by
  apply explains_bind
  refine explains_getProductForUpdate (fun d hd hnone _ => .refused hd (.editUnknown hnone))
    (fun d x e hd hx he _ => .refused hd (.editForeign x hx he)) (fun d x hd hx => ?_) .outage
  obtain rfl : x.id = id := Table.key_of_get hx
  apply explains_bind
  refine explains_raiseIf (fun hlocked => .refused hd (.editLocked _ x hx hlocked)) (fun hfree => ?_)
  obtain ⟨old, hold⟩ := ProductRead.modelValidate_load x
  apply explains_bind
  apply explains_ofExcept
  rw [hold]
  refine explains_storeProduct (by rw [ProductObj.id_edit]; rfl) List.mem_cons_self rfl ?_ ?_
  · exact fun e he => .refused hd (.editNull x hx he)
  · exact fun e he => .refused hd (.editInvalid x hx he)

/-- A moved instance is as valid as the row that it was loaded from. -/
theorem row_move_ne_error (m : Move) (x : Product) : (m.apply x).row ≠ .error e := by
  have hprice := x.price.property
  have hstock : Stock.ofInt x.qtyAvailable.val = .ok x.qtyAvailable := Stock.ofInt_eq_ok.mpr rfl
  have hcents : (Decimal.ofCents x.price.val).cents = x.price.val := Decimal.cents_ofCents _
  have hvalid : Price.ofDecimal (.ofCents x.price.val) = .ok x.price := by
    rw [Price.ofDecimal, hcents, if_neg (by omega), dif_pos hprice]
  change (Price.ofDecimal (.ofCents x.price.val) >>= fun price =>
    Stock.ofInt x.qtyAvailable.val >>= _) ≠ _
  rw [hvalid, hstock]
  exact nofun

/-- An error of a step of the moderation has its reason in the database. -/
theorem explains_moveProduct {m : Moderation} (hc : c.moderation = some m) :
    explains store P Later (moveProduct env m.move m.productId m.owner m.actor m.metadata)
      (.start .fresh none) last fun r _ _ => Excused P env c r := by
  apply explains_bind
  refine explains_getProductForUpdate (fun d hd hnone _ => .refused hd (.moveUnknown hc hnone))
    (fun d x e hd hx he _ => .refused hd (.moveForeign hc x hx he)) (fun d x hd hx => ?_) .outage
  have hid : x.id = m.productId := Table.key_of_get hx
  rw [← hid]
  apply explains_bind
  refine explains_raiseIf (fun hillegal => .refused hd (.moveIllegal hc x hx hillegal)) (fun _ => ?_)
  obtain ⟨old, hold⟩ := ProductRead.modelValidate_load x
  apply explains_bind
  apply explains_ofExcept
  rw [hold]
  refine explains_storeProduct rfl List.mem_cons_self rfl ?_ ?_
  · exact fun e he => by contradiction
  · exact fun e he => absurd he (row_move_ne_error m.move x)

/-! ### Reservations -/

/-- With enough on the shelf only the key or the id can be in the way. -/
theorem applyAll_reserve_error {userId : Uuid} {key : String} {data : ReservationCreate} {x : Product}
    (hx : d.products.get data.productId = some x)
    (henough : ¬ x.qtyAvailable.val < data.quantity.val)
    (h : store.applyAll [.setStock x.id (x.qtyAvailable.val - data.quantity.val) env.now,
      .addReservation (newReservation env userId key data)] d = .error e) :
    ((∃ r ∈ d.reservations.rows, r.idempotencyKey = key) ∨
      (d.reservations.get (env.uuid 0)).isSome) ∧ .integrityError = e := by
  have hid : x.id = data.productId := Table.key_of_get hx
  have hlow : 0 < data.quantity.val := data.quantity.property
  have hhigh := x.qtyAvailable.property.2
  have hmax : int32Max = 2147483647 := rfl
  let q : Stock := ⟨x.qtyAvailable.val - data.quantity.val, by omega, by omega⟩
  have hstock : store.apply (.setStock x.id (x.qtyAvailable.val - data.quantity.val) env.now) d =
      .ok { d with products := d.products.set { x with qtyAvailable := q, updatedAt := env.now } } :=
    apply_setStock.mpr ⟨x, q, hid ▸ hx, rfl, rfl⟩
  rw [Store.applyAll, hstock] at h
  rcases apply_addReservation_error (Store.applyAll_singleton.symm.trans h) with hfit | hnone | htaken
  · refine absurd ⟨?_, ?_⟩ hfit
    · change -int32Max - 1 ≤ data.quantity.val
      omega
    · change data.quantity.val ≤ int32Max
      omega
  · have hkept := Table.isSome_get_set (t := d.products)
      (r := { x with qtyAvailable := q, updatedAt := env.now }) (k := data.productId)
    rw [hx] at hkept
    change (d.products.set _).get data.productId = none at hnone
    rw [hnone] at hkept
    contradiction
  · exact htaken

/-- An error of `reserve_items` has its reason in the database. -/
theorem explains_reserveItems (userId : Uuid) (key : String) (data : ReservationCreate) :
    explains store P Later (reserveItems env userId key data) (.start .fresh none) last
      fun r _ _ => Excused P env (.reserveItems userId key data) r := by
  apply explains_bind
  refine explains_selectProductForUpdate (fun d hd hnone => .refused hd (.reserveUnknown hnone))
    (fun d x hd hx => ?_) .outage
  have hid : x.id = data.productId := Table.key_of_get hx
  apply explains_bind
  refine explains_orNotFound (fun hnone => by contradiction) (fun y hy => ?_)
  obtain rfl := Option.some.inj hy
  apply explains_bind
  refine explains_raiseIf (fun hshort => .refused hd (.reserveShort x hx hshort)) (fun henough => ?_)
  apply explains_bind
  rw [explains_save]
  apply explains_bind
  rw [explains_save]
  apply explains_tryCatch
  apply explains_bind
  refine explains_commitWork (fun d d' hd happly => ?_) (fun d e hd happly => ?_) .outage
  · obtain ⟨d₁, -, hadd⟩ := Store.applyAll_cons.mp happly
    obtain ⟨_, _, _, hnew, rfl⟩ := apply_addReservation.mp (Store.applyAll_singleton.symm.trans hadd)
    have hrow : (d₁.reservations.insert _ hnew).get (env.uuid 0) = some _ :=
      (Table.get_insert hnew _).trans (if_pos rfl)
    -- the new row is read back
    apply explains_bind
    refine explains_select (fun d₂ hd₂ => ?_) .outage
    obtain ⟨y, hy, -⟩ := hd₂.after.preserves.reservation _ _ hrow
    exact explains_orStale (Option.isSome_of_eq_some hy) fun r => .ok
  · have hget : d.products.get data.productId = some x :=
      get_product_of_agrees hd.agrees List.mem_cons_self
    obtain ⟨htaken, rfl⟩ := applyAll_reserve_error hget henough happly
    exact .refused hd (.reserveTaken htaken)

/-! ### Orders -/

/-- What is in the way of an order: its total, or its ids. -/
theorem applyAll_order_refused {user : User} {data : OrderCreate} {r : Reservation} {x : Product}
    {entry : Option AuditLog} (hr : d.reservations.get r.id = some r)
    (hproduct : (d.products.get r.productId).isSome) (hpos : 0 < r.qtyReserved)
    (hsize : r.qtyReserved ≤ int32Max)
    (h : store.applyAll (orderWrites env user data r x entry) d = .error e) :
    (numericBound ≤ x.price.val * r.qtyReserved ∧ .dataError = e) ∨
      (¬ d.DrawsOrder env ∧ .integrityError = e) := by
  by_cases hlarge : numericBound ≤ x.price.val * r.qtyReserved
  · rw [applyAll_order_error data entry hlarge] at h
    exact .inl ⟨hlarge, Except.error.inj h⟩
  · refine .inr ?_
    have hprice := x.price.property
    have hnonneg : 0 ≤ x.price.val * r.qtyReserved := Int.mul_nonneg (by omega) (by omega)
    rcases Store.applyAll_append_error.mp h with h | ⟨_, _, hlogs⟩
    · rcases Store.applyAll_cons_error.mp h with hadd | ⟨d₁, hadd, h⟩
      · rcases apply_addOrder_error hadd with hamount | ⟨hsome, he⟩
        · have hcents : (newOrder env user data r x).totalAmount.cents = x.price.val * r.qtyReserved := by
            rw [cents_newOrder, Decimal.cents_ofCents]
          rw [amount_ok (hcents ▸ ⟨hnonneg, Int.not_le.mp hlarge⟩)] at hamount
          contradiction
        · refine ⟨fun hdraws => ?_, he⟩
          rw [show (newOrder env user data r x).id = env.uuid 0 from rfl, hdraws.order] at hsome
          contradiction
      · obtain ⟨o, ho, hid, _, _, _, _, _, _, rfl⟩ := apply_addOrder.mp hadd
        have hstored : (d.orders.insert o ho).get (env.uuid 0) = some o :=
          (Table.get_insert ho _).trans (if_pos hid)
        rcases Store.applyAll_cons_error.mp h with hitem | ⟨d₂, hitem, h⟩
        · rcases apply_addOrderItem_error hitem with hcost | hfit | hnone | hnone | ⟨hsome, he⟩
          · have hcents : (newOrderItem env r x).price.cents = x.price.val := Decimal.cents_ofCents _
            rw [itemPrice_ok (by rw [hcents]; omega)] at hcost
            contradiction
          · exact absurd ⟨by show -int32Max - 1 ≤ r.qtyReserved; omega, hsize⟩ hfit
          · cases hstored.symm.trans hnone
          · change d.products.get r.productId = none at hnone
            rw [hnone] at hproduct
            contradiction
          · refine ⟨fun hdraws => ?_, he⟩
            change (d.orderItems.get (env.uuid 1)).isSome at hsome
            rw [hdraws.item] at hsome
            contradiction
        · obtain ⟨i, hi, _, _, _, _, _, _, _, _, _, rfl⟩ := apply_addOrderItem.mp hitem
          rw [Store.applyAll_singleton] at h
          rcases apply_linkOrder_error h with hnone | hnone
          · cases hr.symm.trans hnone
          · cases hstored.symm.trans hnone
    · exact absurd hlogs applyAll_logs_ne_error

/-- An error of `create_order_from_reservation` has its reason in the database. -/
theorem explains_createOrder (hP : ∀ d, P d → Coupled d ∧ Sized d) (user : User) (data : OrderCreate) :
    explains store P Later (createOrderFromReservation env user data) (.start .fresh none) last
      fun r _ _ => Excused P env (.createOrder user data) r := by
  apply explains_bind
  refine explains_selectReservationForUpdate (fun d hd hnone => ?_) (fun d r hd hfound => ?_) .outage
  · refine .refused hd (.orderUnknown fun r hr => ?_)
    rw [hr.stored] at hnone
    have hcond := Option.filter_eq_none_iff.mp hnone r rfl
    simp [hr.owner, hr.pending] at hcond
  · obtain ⟨hget, hcond⟩ := Option.filter_eq_some_iff.mp hfound
    simp only [Bool.decide_and, Bool.and_eq_true, decide_eq_true_eq] at hcond
    have hid : r.id = data.reservationId := Table.key_of_get hget
    have hopen : r.Open d user data.reservationId := ⟨hget, hcond.1, hcond.2⟩
    apply explains_bind
    refine explains_orNotFound (fun hnone => by contradiction) (fun y hy => ?_)
    obtain rfl := Option.some.inj hy
    apply explains_bind
    refine explains_raiseIf (fun hlate => .refused hd (.orderLate r hopen (.inl hlate))) (fun _ => ?_)
    apply explains_bind
    refine explains_raiseIf (fun hlink => .refused hd (.orderLate r hopen (.inr hlink))) (fun _ => ?_)
    apply explains_bind
    refine explains_select (fun d₁ hd₁ => ?_) .outage
    -- the reservation is locked, its product is only read
    have hget₁ : d₁.reservations.get data.reservationId = some r :=
      get_reservation_of_agrees hd₁.agrees List.mem_cons_self
    have hmem₁ := Table.mem_of_get hget₁
    have hproduct₁ := (hP d₁ hd₁.here).1.product r hmem₁
    apply explains_bind
    refine explains_orNotFound (fun hnone => ?_) (fun x hx => ?_)
    · rw [hnone] at hproduct₁
      contradiction
    apply explains_bind
    rw [explains_save]
    apply explains_bind
    rw [explains_save]
    apply explains_bind
    rw [explains_save]
    apply explains_bind
    apply explains_bind
    refine explains_select (fun d₂ hd₂ => ?_) .outage
    apply explains_bind
    rw [logOrderChange, explains_addLog]
    apply explains_bind
    refine explains_commitWork (fun d₃ d' hd₃ happly => .ok) (fun d₃ e hd₃ happly => ?_) .outage
    have hget₃ : d₃.reservations.get r.id = some r := by
      rw [hid]
      exact get_reservation_of_agrees hd₃.agrees List.mem_cons_self
    have hmem₃ := Table.mem_of_get hget₃
    obtain ⟨hcoupled, hsized⟩ := hP d₃ hd₃.here
    rcases applyAll_order_refused hget₃ (hcoupled.product r hmem₃) (hcoupled.positive r hmem₃)
      (hsized r hmem₃) happly with ⟨hlarge, rfl⟩ | ⟨hdrawn, rfl⟩
    · exact .refused hd₁ (.orderLarge r x ⟨hget₁, hcond.1, hcond.2⟩ hx hlarge)
    · exact .refused hd₃ (.orderDrawn hdrawn)

/-- The order and its log entry are never refused. -/
theorem applyAll_settling_error {o : Order} {status : OrderStatus} {entry : Option AuditLog}
    {ws : List Write} (ho : d.orders.get o.id = some o)
    (h : store.applyAll (settlingWrites env o status entry ++ ws) d = .error e) :
    store.applyAll ws { d with
      orders := d.orders.set (o.move status env.now)
      auditLogs := d.auditLogs ++ entry.toList } = .error e := by
  rcases Store.applyAll_append_error.mp h with h | ⟨d', hsettled, hrest⟩
  · rcases Store.applyAll_cons_error.mp h with hset | ⟨_, _, hlogs⟩
    · cases ho.symm.trans (apply_setOrderStatus_error hset)
    · exact absurd hlogs applyAll_logs_ne_error
  · rw [← List.append_nil (settlingWrites env o status entry)] at hsettled
    have hwork := applyAll_settling ho hsettled
    rw [Store.applyAll_nil] at hwork
    exact hwork ▸ hrest

/-- A settlement is refused by the order, or by what it does to the reservation. -/
theorem explains_settleOrder {orderId : Uuid} {user : User} {status : OrderStatus} {action : String}
    {settle : Tx Unit} (hc : c.settlement = some (orderId, user))
    (hsettle : ∀ (d : Db) (o : Order) (entry : Option AuditLog) (settled : OrderObj), o.id = orderId →
      explains store P Later (settle >>= fun _ => Prog.commitWork >>= fun _ => pure settled)
        (settling env none o status entry) d fun r _ _ => Excused P env c r) :
    explains store P Later (settleOrder env orderId user status action settle) (.start .fresh none)
      last fun r _ _ => Excused P env c r := by
  apply explains_bind
  apply explains_bind
  refine explains_selectOrderForUpdate (fun d hd hnone => .refused hd (.settleUnknown hc hnone))
    (fun d o hd ho => ?_) .outage
  obtain rfl : o.id = orderId := Table.key_of_get ho
  apply explains_bind
  refine explains_orNotFound (fun hnone => by contradiction) (fun y hy => ?_)
  obtain rfl := Option.some.inj hy
  apply explains_bind
  apply explains_ofExcept
  cases hcheck : checkOwnership user o.owned with
  | error e => exact .refused hd (.settleForeign hc o ho hcheck)
  | ok u =>
      rw [explains_pure]
      apply explains_bind
      refine explains_raiseIf (fun hover => .refused hd (.settleOver hc o ho hover)) (fun _ => ?_)
      apply explains_bind
      apply explains_bind
      refine explains_select (fun d₁ hd₁ => ?_) .outage
      apply explains_bind
      rw [explains_save]
      apply explains_bind
      rw [logOrderChange, explains_addLog]
      exact hsettle d₁ o _ _ rfl

/-- An error of `confirm_order_payment` has its reason in the database. -/
theorem explains_confirmOrderPayment (hP : ∀ d, P d → Coupled d ∧ Sized d) (orderId : Uuid) (user : User) :
    explains store P Later (confirmOrderPayment env orderId user) (.start .fresh none) last
      fun r _ _ => Excused P env (.confirmOrderPayment orderId user) r := by
  refine explains_settleOrder rfl fun d o entry settled hid => ?_
  subst hid
  apply explains_bind
  apply explains_bind
  refine explains_selectReservationByOrderForUpdate (fun d hd => (hP d hd).1) (fun d hd => ?_)
    (fun d r hd hr hlink => ?_) .outage
  · exact Option.isSome_of_eq_some (get_order_of_agrees hd.agrees List.mem_cons_self)
  · apply explains_bind
    refine explains_orNotFound (fun hnone => by contradiction) (fun y hy => ?_)
    obtain rfl := Option.some.inj hy
    simp only [explains_save]
    apply explains_bind
    refine explains_commitWork (fun d d' hd happly => .ok) (fun d e hd happly => ?_) .outage
    have hres : d.reservations.get r.id = some r :=
      get_reservation_of_agrees hd.agrees List.mem_cons_self
    have hord : d.orders.get o.id = some o :=
      get_order_of_agrees hd.agrees (List.mem_cons_of_mem _ List.mem_cons_self)
    have hwork := applyAll_settling_error hord happly
    rw [Store.applyAll_singleton] at hwork
    have hnone := apply_setReservationStatus_error hwork
    cases hres.symm.trans hnone

/-- An error of `cancel_order` has its reason in the database. -/
theorem explains_cancelOrder (hP : ∀ d, P d → Coupled d ∧ Sized d) (orderId : Uuid) (user : User) :
    explains store P Later (cancelOrder env orderId user) (.start .fresh none) last
      fun r _ _ => Excused P env (.cancelOrder orderId user) r := by
  refine explains_settleOrder rfl fun d o entry settled hid => ?_
  subst hid
  apply explains_bind
  apply explains_bind
  refine explains_selectReservationByOrderForUpdate (fun d hd => (hP d hd).1) (fun d hd => ?_)
    (fun d r hd hr hlink => ?_) .outage
  · exact Option.isSome_of_eq_some (get_order_of_agrees hd.agrees List.mem_cons_self)
  apply explains_bind
  refine explains_orNotFound (fun hnone => by contradiction) (fun y hy => ?_)
  obtain rfl := Option.some.inj hy
  apply explains_bind
  refine explains_selectProductForUpdate (fun d hd hnone => ?_) (fun d x hd hx => ?_) .outage
  · have hres : d.reservations.get r.id = some r :=
      get_reservation_of_agrees hd.agrees List.mem_cons_self
    have hproduct := (hP d hd.here).1.product r (Table.mem_of_get hres)
    rw [hnone] at hproduct
    contradiction
  have hpid : x.id = r.productId := Table.key_of_get hx
  apply explains_bind
  rw [returnStock, explains_save]
  rw [explains_save]
  apply explains_bind
  refine explains_commitWork (fun d d' hd happly => .ok) (fun d e hd happly => ?_) .outage
  have hprod : d.products.get r.productId = some x :=
    get_product_of_agrees hd.agrees List.mem_cons_self
  have hres : d.reservations.get r.id = some r :=
    get_reservation_of_agrees hd.agrees (List.mem_cons_of_mem _ List.mem_cons_self)
  have hord : d.orders.get o.id = some o :=
    get_order_of_agrees hd.agrees (List.mem_cons_of_mem _ (List.mem_cons_of_mem _ List.mem_cons_self))
  have hmem := Table.mem_of_get hres
  have hpos := (hP d hd.here).1.positive r hmem
  simp only [Known.push, Known.hold, settling, List.append_assoc] at happly
  have hwork := applyAll_settling_error hord happly
  by_cases hfull : int32Max < x.qtyAvailable.val + r.qtyReserved
  · rcases Store.applyAll_cons_error.mp hwork with hstock | ⟨_, hstock, _⟩
    · rcases apply_setStock_error hstock with hnone | hqty
      · rw [hpid] at hnone
        cases hprod.symm.trans hnone
      · rw [Stock.ofInt, if_pos (.inl hfull)] at hqty
        obtain rfl := Except.error.inj hqty
        exact .refused hd (.cancelFull r x hmem hlink hprod hfull)
    · obtain ⟨_, q, _, hq, _⟩ := apply_setStock.mp hstock
      have hhigh := q.property.2
      omega
  · obtain ⟨q, -, hreturn⟩ := applyAll_return (d := { d with
      orders := d.orders.set (o.move .cancelled env.now)
      auditLogs := d.auditLogs ++ entry.toList }) .cancelled env.now hres hprod (by omega)
      (Int.not_lt.mp hfull)
    cases hreturn.symm.trans hwork

end

/-! ## Calls -/

/-- **Every error is accounted for**, but outages. -/
theorem explains_program {P : Db → Prop} {last : Db} (hP : ∀ d, P d → Coupled d ∧ Sized d) (env : Env)
    {c : Call} (hc : ∀ id, c ≠ .releaseReservation id) :
    explains store P Later (c.program env) (.start .fresh none) last
      fun r _ _ => Excused P env c r := by
  apply explains_inSession
  have hmap : ∀ {α : Type} {x : Tx α} {f : α → Response}, c.service env = f <$> x →
      explains store P Later x (.start .fresh none) last (fun r _ _ => Excused P env c r) →
      explains store P Later (c.service env) (.start .fresh none) last
        fun r _ _ => Excused P env c r := by
    intro α x f hservice hx
    rw [hservice]
    exact explains_map (explains_mono (fun r _ _ h => h.map f) hx)
  have hmove : ∀ m : Moderation, c.moderation = some m → c.service env =
      .product <$> moveProduct env m.move m.productId m.owner m.actor m.metadata →
      explains store P Later (c.service env) (.start .fresh none) last
        fun r _ _ => Excused P env c r :=
    fun m hm hservice => hmap hservice (explains_moveProduct hm)
  cases c with
  | createProduct ownerId data user => exact hmap rfl (explains_createProduct ownerId data user)
  | updateProduct id data user => exact hmap rfl (explains_updateProduct id data user)
  | submitForModeration | changeStatus | claimForModeration | approveProduct | rejectProduct =>
      exact hmove _ rfl rfl
  | reserveItems userId key data => exact hmap rfl (explains_reserveItems userId key data)
  | createOrder user data => exact hmap rfl (explains_createOrder hP user data)
  | confirmOrderPayment id user => exact hmap rfl (explains_confirmOrderPayment hP id user)
  | cancelOrder id user => exact hmap rfl (explains_cancelOrder hP id user)
  | releaseReservation id => exact absurd rfl (hc id)

/-- A step of the moderation succeeds only with a commit. -/
theorem earned_moveProduct (env : Env) (m : Move) (id : Uuid) (owner : Option User) (user : User)
    (metadata : Option Snapshot) : (moveProduct env m id owner user metadata).Earned :=
  earned_bind fun _ => earned_bind fun _ => earned_bind fun _ => earned_bind fun _ =>
    earned_bind fun _ => earned_commitWork.bind _

/-- So does the settling of an order. -/
theorem earned_settleOrder (env : Env) (id : Uuid) (user : User) (status : OrderStatus)
    (action : String) (settle : Tx Unit) :
    (settleOrder env id user status action settle).Earned :=
  earned_bind fun _ => earned_bind fun _ => earned_bind fun _ => earned_bind fun _ =>
    earned_bind fun _ => earned_bind fun _ => earned_commitWork.bind _

/-- **A call succeeds after its commit.** -/
theorem earned_program (env : Env) {c : Call} (hc : ∀ id, c ≠ .releaseReservation id) :
    (c.program env).Earned := by
  apply Prog.Earned.inSession
  cases c with
  | createProduct =>
      refine Prog.Earned.map ?_ _
      exact earned_bind fun _ => earned_bind fun _ => earned_bind fun _ => earned_commitWork.bind _
  | updateProduct =>
      refine Prog.Earned.map ?_ _
      exact earned_bind fun _ => earned_bind fun _ => earned_bind fun _ => earned_bind fun _ =>
        earned_bind fun _ => earned_commitWork.bind _
  | submitForModeration | changeStatus | claimForModeration | approveProduct | rejectProduct =>
      exact (earned_moveProduct _ _ _ _ _ _).map _
  | reserveItems =>
      refine Prog.Earned.map ?_ _
      refine earned_bind fun _ => earned_bind fun _ => earned_bind fun _ => earned_bind fun _ =>
        earned_bind fun _ => earned_tryCatch (earned_commitWork.bind _) fun e => ?_
      cases e with
      | integrityError => exact earned_bind fun _ => earned_throw _
      | _ => exact earned_throw _
  | createOrder =>
      refine Prog.Earned.map ?_ _
      exact earned_bind fun _ => earned_bind fun _ => earned_bind fun _ => earned_bind fun _ =>
        earned_bind fun _ => earned_bind fun _ => earned_bind fun _ => earned_bind fun _ =>
          earned_bind fun _ => earned_bind fun _ => earned_bind fun _ => earned_commitWork.bind _
  | confirmOrderPayment | cancelOrder => exact (earned_settleOrder _ _ _ _ _ _).map _
  | releaseReservation id => exact absurd rfl (hc id)

/-- No row that a call updates or reads back is gone. -/
theorem Refused.ne_staleData {env : Env} {d : Db} {c : Call} {e : Failure} (h : Refused env d c e) :
    e ≠ .staleData := by
  have hrow : ∀ p : ProductObj, p.row ≠ .error .staleData := by
    intro p hp
    unfold ProductObj.row at hp
    split at hp
    · next name price qty _ _ _ =>
        rcases bind_eq_error.mp hp with hprice | ⟨_, _, hp⟩
        · unfold Price.ofDecimal at hprice
          split at hprice
          · contradiction
          · split at hprice <;> contradiction
        · rcases bind_eq_error.mp hp with hstock | ⟨_, _, hnone⟩
          · unfold Stock.ofInt at hstock
            split at hstock
            · contradiction
            · split at hstock <;> contradiction
          · contradiction
    · contradiction
  have hcheck : ∀ (user : User) (obj : Owned), checkOwnership user obj ≠ .error .staleData := by
    intro user obj h
    unfold checkOwnership at h
    split at h
    · contradiction
    · split at h
      · split at h <;> contradiction
      · split at h <;> contradiction
      · contradiction
  have hcurrent : ∀ (owner : Option User) (p : Product),
      checkCurrentUser owner p ≠ .error .staleData := by
    intro owner p
    cases owner with
    | none => exact nofun
    | some user => exact hcheck user p.owned
  rintro rfl
  cases h with
  | newInvalid h => exact hrow _ h
  | editForeign p hp h => exact hcheck _ _ h
  | editNull p hp h =>
      unfold ProductRead.modelValidate at h
      split at h <;> contradiction
  | editInvalid p hp h => exact hrow _ h
  | moveForeign hc p hp h => exact hcurrent _ _ h
  | settleForeign hc o ho h => exact hcheck _ _ h

/-! ## Runs -/

section
variable {T : Type} {actors : T → Actor} {evs : List (Event Db Write T)} {t : T} {c : Call} {env : Env}

/-- A commit leads to a later database. -/
theorem Actor.Commits.later {exact : Prop} {a : Actor} {d d' : Db} (h : Coupled d)
    (hc : a.Commits exact d d') : Later d d' := by
  refine ⟨hc.preserves h, fun id hid => ?_⟩
  obtain ⟨p, hp⟩ := Option.isSome_iff_exists.mp hid
  cases a with
  | request call env =>
      obtain ⟨p', hp', -⟩ := Change.row_step hc hp
      exact Option.isSome_of_eq_some hp'
  | sweep env expireOnCommit scan =>
      obtain ⟨id', r, x, q, orders, hget, hstatus, hx, _, _⟩ := hc
      exact Table.isSome_get_set.trans hid

/-- What the answer to a call tells. -/
def AnsweredTruly (env : Env) (c : Call) (t : T) (evs : List (Event Db Write T)) :
    Except Failure Response → Prop
  | .ok _ => ∃ ev ∈ evs, ev.txn = t ∧ Change env false ev.before c ev.after
  | .error e => e = .operationalError ∨ ((∀ ev ∈ evs, ev.txn = t → ev.after = ev.before) ∧
      ∃ ev ∈ evs, ev.txn = t ∧ Refused env ev.before c e)

variable [DecidableEq T] {ok : World T → T → Prop} {s : World T}

/-- What every event of a run finds and leaves. -/
theorem sound_of_event (hrun : Run store ok (World.start actors) evs s) :
    ∀ ev ∈ evs, (Coupled ev.before ∧ Sized ev.before) ∧ Later ev.before ev.after := by
  obtain ⟨-, -, hlaw⟩ := World.tracks_any hrun
  intro ev hev
  obtain ⟨pre, post, hsplit⟩ := List.append_of_mem hev
  obtain ⟨s₁, hrun₁, hdb⟩ := hrun.before_event hsplit
  refine ⟨⟨(hlaw ev hev).1, hdb ▸ sized_of_run hrun₁⟩, ?_⟩
  rcases (hlaw ev hev).cases with hsame | hcommits
  · rw [hsame]
    exact .refl _
  · exact hcommits.later (hlaw ev hev).1

/-- A call that ends in an error of its own has changed nothing. -/
theorem unchanged_of_failed (hrun : Run store ok (World.start actors) evs s)
    (hactor : actors t = .request c env) {e : Failure} (hended : s.ended t = some (.error e))
    (hout : e ≠ .operationalError) (hstale : e ≠ .staleData) :
    ∀ ev ∈ evs, ev.txn = t → ev.after = ev.before := by
  obtain ⟨htracks, -, hlaw⟩ := World.tracks_any hrun
  obtain ⟨p, hp, hcount⟩ := htracks t
  have hends := hp.ended hended
  rw [hactor] at hends
  have hnone : p.commits = 0 := by
    rcases hends.2.2 e rfl with hzero | hout' | hstale'
    · exact hzero
    · exact absurd hout' hout
    · exact absurd hstale' hstale
  intro ev hev ht
  have hquiet := commit_of_commitsOf (hcount ▸ hnone) ev hev ht
  have hcommit := (hlaw ev hev).2.2
  rw [hquiet] at hcommit
  exact hcommit

/-- **Answers are true**: in every interleaving, a call that succeeds has made its
change, and a call that fails, but for an outage, has changed nothing and has a
reason in the database at one of its statements. -/
theorem answered_truly (hrun : Run store ok (World.start actors) evs s)
    (hactor : actors t = .request c env) (hc : ∀ id, c ≠ .releaseReservation id)
    {r : Except Failure Response} (hended : s.ended t = some r) : AnsweredTruly env c t evs r := by
  have hprogram : (actors t).program = c.program env := by
    rw [hactor]
    rfl
  obtain ⟨-, -, hlaw⟩ := World.tracks_any hrun
  cases r with
  | ok x =>
      obtain ⟨ev, hev, ht, hcommit⟩ := hrun.commit_of_ok (hprogram ▸ earned_program env hc) hended
      have hchange := (hlaw ev hev).2.2
      split at hchange
      · next hnone =>
          rw [hnone] at hcommit
          contradiction
      · rw [ht, hactor] at hchange
        exact ⟨ev, hev, ht, hchange⟩
  | error e =>
      have htracked : Tracked actors ok (fun _ _ => True) False fun _ _ _ => True :=
        tracked_of_ascending fun t => (actors t).ascending_top
      let P : Db → Prop := fun d => (Coupled d ∧ Sized d) ∧ ∃ ev ∈ evs, ev.txn = t ∧ ev.before = d
      have hhere : ∀ ev ∈ evs, ev.txn = t → P ev.before :=
        fun ev hev ht => ⟨(sound_of_event hrun ev hev).1, ev, hev, ht, rfl⟩
      have hlater : ∀ ev ∈ evs, Later ev.before ev.after :=
        fun ev hev => (sound_of_event hrun ev hev).2
      have hexplains : explains store P Later (actors t).program (.start .fresh none) Db.empty
          fun r _ _ => Excused P env c r :=
        hprogram ▸ explains_program (fun _ hd => hd.1) env hc
      obtain ⟨p, last, hfollows⟩ := Run.explains htracked.start (invariants actors) htracked.grants
        Later.refl (fun _ _ _ => Later.trans) hexplains hrun hlater hhere
      rcases hfollows.ended hended e rfl with hout | ⟨d, ⟨-, ev, hev, ht, rfl⟩, hrefused⟩
      · exact .inl hout
      · by_cases hout : e = .operationalError
        · exact .inl hout
        · exact .inr ⟨unchanged_of_failed hrun hactor hended hout hrefused.ne_staleData, ev, hev, ht,
            hrefused⟩

end

/-- The call has been refused. -/
def refusedWith : Except Failure Response → Bool
  | .ok _ => false
  | .error e => e.refusal

/-- One key for two products: whoever comes second is told that it is taken. -/
theorem answered_truly_duplicates : ∃ evs s e, Run store Anything (World.start duplicateActors) evs s ∧
    s.ended 3 = some (.error e) ∧ e.refusal ∧
      AnsweredTruly (shopEnv 1 1) (.reserveItems seller.id "key" ⟨1, three⟩) 3 evs (.error e) := by
  have hexec : ((World.start duplicateActors).exec store (fun _ _ => true)
      (turns [(0, 6), (1, 6), (2, 3), (3, 3), (2, 3), (3, 3)])).any (fun x =>
        (x.2.ended 3).any refusedWith) := by decide +kernel
  obtain ⟨evs, s, hrun, hend⟩ := Run.of_exec_any (fun _ _ _ => trivial) hexec
  have hactor : duplicateActors 3 =
      .request (.reserveItems seller.id "key" ⟨1, three⟩) (shopEnv 1 1) := rfl
  obtain ⟨r, hended, hrefused⟩ := (Option.any_eq_true _ _).mp hend
  cases r with
  | ok x => contradiction
  | error e =>
      exact ⟨evs, s, e, hrun, hended, hrefused,
        answered_truly hrun hactor (fun id hcall => by contradiction) hended⟩

end FairDrop
