import FairDrop.Actors
import FairDrop.Lifecycle

/-!
# FairDrop.Orders.Amounts

Totals of orders.  The price of a product and the quantity of a reservation fit
their columns, each by itself; that their product fits the column of the total is
checked nowhere before the order is written (`turnsIntoOrder_iff`).
-/

namespace FairDrop

open RowStore

/-! ## Live reservations -/

/-- What `create_order_from_reservation` asks of a reservation. -/
structure Reservation.Live (r : Reservation) (d : Db) (env : Env) (user : User) : Prop where
  stored : d.reservations.get r.id = some r
  owner : r.userId = user.id
  pending : r.status = .pending
  due : ¬ r.expiresAt < env.now
  unlinked : r.orderId = none

/-- The ids of the order and of its item are new ones. -/
structure Db.DrawsOrder (d : Db) (env : Env) : Prop where
  order : d.orders.get (env.uuid 0) = none
  item : d.orderItems.get (env.uuid 1) = none

/-- The order is made, and its total is exactly so many cents. -/
def TurnsIntoOrder (env : Env) (user : User) (data : OrderCreate) (d : Db) (total : Int) : Prop :=
  let outcome := exec store (createOrderFromReservation env user data) [] d [] .fresh
  (∃ order, outcome.value = .ok order ∧ order.totalAmount = .ofCents total) ∧
    ∃ row, outcome.db.orders.get (env.uuid 0) = some row ∧ row.totalAmount.val = total

/-- No reservation is of more units than a product can have. -/
def Sized (d : Db) : Prop := ∀ r ∈ d.reservations.rows, r.qtyReserved ≤ int32Max

/-! ## Quantities -/

section
variable {env : Env} {alone : Bool} {c : Call} {d d' : Db}

theorem Sized.set {r : Reservation} (h : Sized d) {b : Reservation}
    (hr : d.reservations.get r.id = some r) (hqty : b.qtyReserved = r.qtyReserved) {e : Db}
    (he : e.reservations = d.reservations.set b) : Sized e := by
  intro x hx
  rw [he] at hx
  cases Table.mem_set hx with
  | inl heq =>
      rw [heq, hqty]
      exact h r (Table.mem_of_get hr)
  | inr hold => exact h x hold.1

/-- A reservation takes its units off a shelf. -/
theorem Change.sized (hd : Coupled d) (h : Sized d) (hc : Change env alone d c d') : Sized d' := by
  obtain hsame | ⟨a, b, ha, hstep, hset⟩ | ⟨userId, key, data, hnew, rfl, hadd⟩ :=
    hc.reservations_cases hd
  · unfold Sized
    rw [hsame]
    exact h
  · exact h.set ha hstep.qtyReserved hset
  · cases hc with
    | moderate _ _ _ _ hm => contradiction
    | reserveItems p q hget hq =>
        intro x hx
        cases (Table.mem_insert hnew).mp hx with
        | inl hold => exact h x hold
        | inr hlast =>
            rw [hlast]
            change data.quantity.val ≤ int32Max
            have hlow := q.property.1
            have hhigh := p.qtyAvailable.property.2
            omega

theorem Actor.Commits.sized {exact : Prop} {a : Actor} (hd : Coupled d) (h : Sized d)
    (hc : a.Commits exact d d') : Sized d' := by
  cases a with
  | request call env => exact Change.sized hd h hc
  | sweep env expireOnCommit scan =>
      obtain ⟨id, r, p, q, orders, hget⟩ := hc
      have hid : r.id = id := Table.key_of_get hget
      exact h.set (r := r) (b := { r with status := .expired }) (hid ▸ hget) rfl rfl

theorem sized_of_run {T : Type} [DecidableEq T] {actors : T → Actor} {ok : World T → T → Prop}
    {s : World T} {evs : List (Event Db Write T)}
    (hrun : Run store ok (World.start actors) evs s) : Sized s.db := by
  obtain ⟨-, -, hlaw⟩ := World.tracks_any hrun
  have hempty : Sized Db.empty := fun r hr => absurd hr List.not_mem_nil
  refine (hrun.keeps hempty fun ev hev h => ?_).1
  cases (hlaw ev hev).cases with
  | inl hsame =>
      rw [hsame]
      exact h
  | inr hcommits => exact hcommits.sized (hlaw ev hev).1 h

end

/-! ## Totals -/

section
variable {env : Env} {user : User} {d : Db} {r : Reservation} {p : Product}

theorem amount_ok {x : Decimal} (h : 0 ≤ x.cents ∧ x.cents < numericBound) :
    Amount.ofDecimal x = .ok ⟨x.cents, h⟩ := by
  have hbound : (0 : Int) < numericBound := by decide
  rw [Amount.ofDecimal, if_neg (by omega), dif_pos h]

theorem itemPrice_ok {x : Decimal} (h : -numericBound < x.cents ∧ x.cents < numericBound) :
    ItemPrice.ofDecimal x = .ok ⟨x.cents, h⟩ := by
  rw [ItemPrice.ofDecimal, dif_pos h]

/-- The total of the order, in cents. -/
theorem cents_newOrder (data : OrderCreate) :
    (newOrder env user data r p).totalAmount = .ofCents (p.price.val * r.qtyReserved) := rfl

/-- What the call has written when it comes to its commit. -/
def orderWrites (env : Env) (user : User) (data : OrderCreate) (r : Reservation) (p : Product)
    (entry : Option AuditLog) : List Write :=
  [.addOrder (newOrder env user data r p) env.now, .addOrderItem (newOrderItem env r p),
    .linkOrder r.id (env.uuid 0)] ++ entry.toList.map .addAuditLog

/-- With a live reservation all depends on the commit. -/
theorem exec_createOrder (shippingAddress : Option String) (hlive : r.Live d env user)
    (hp : d.products.get r.productId = some p) : ∃ (entry : Option AuditLog) (order : OrderObj),
      order.totalAmount = .ofCents (p.price.val * r.qtyReserved) ∧
      exec store (createOrderFromReservation env user ⟨r.id, shippingAddress⟩) [] d [] .fresh =
        exec store (Prog.commitWork >>= fun _ => pure order : Tx OrderObj) [] d
          (orderWrites env user ⟨r.id, shippingAddress⟩ r p entry) .fresh := by
  have hcond : (r.userId = user.id ∧ r.status = .pending) := ⟨hlive.owner, hlive.pending⟩
  have hfound : (d.reservations.get r.id).filter
      (fun r => r.userId = user.id ∧ r.status = .pending) = some r := by
    rw [hlive.stored, Option.filter_some, if_pos (decide_eq_true hcond)]
  let stored := d.orderItems.rows.filter fun i => i.orderId = env.uuid 0
  let order := { newOrder env user ⟨r.id, shippingAddress⟩ r p with
    items := stored.map OrderItemObj.load ++ [newOrderItem env r p] }
  refine ⟨orderEntry env user order none "create", order, rfl, ?_⟩
  change exec store ((orNotFound ((d.reservations.get r.id).filter _)).bind _) [] d [] .fresh = _
  rw [hfound]
  change exec store ((raiseIf (r.expiresAt < env.now) .conflict).bind _) [] d [] .fresh = _
  rw [raiseIf, if_neg hlive.due]
  change exec store ((raiseIf r.orderId.isSome .conflict).bind _) [] d [] .fresh = _
  rw [hlive.unlinked]
  change exec store ((orNotFound (d.products.get r.productId)).bind _) [] d [] .fresh = _
  rw [hp]
  change exec store ((addLog (orderEntry env user order none "create")).bind _) [] d
    ([.addOrder (newOrder env user ⟨r.id, shippingAddress⟩ r p) env.now,
      .addOrderItem (newOrderItem env r p), .linkOrder r.id (env.uuid 0)]) .fresh = _
  cases orderEntry env user order none "create" <;> rfl

/-- A total that fits is stored. -/
theorem applyAll_order (data : OrderCreate) (entry : Option AuditLog) (hlive : r.Live d env user)
    (hp : d.products.get r.productId = some p) (hfresh : d.DrawsOrder env) (hpos : 0 < r.qtyReserved)
    (hsize : r.qtyReserved ≤ int32Max) (hfits : p.price.val * r.qtyReserved < numericBound) :
    ∃ d' row, store.applyAll (orderWrites env user data r p entry) d = .ok d' ∧
      d'.orders.get (env.uuid 0) = some row ∧ row.totalAmount.val = p.price.val * r.qtyReserved := by
  have hprice := p.price.property
  have hnonneg : 0 ≤ p.price.val * r.qtyReserved := Int.mul_nonneg (by omega) (by omega)
  let row : Order := ⟨env.uuid 0, user.id, .pending, ⟨p.price.val * r.qtyReserved, hnonneg, hfits⟩,
    data.shippingAddress, env.now, env.now⟩
  let item : OrderItem := ⟨env.uuid 1, env.uuid 0, r.productId, p.name, r.qtyReserved,
    ⟨p.price.val, by omega⟩⟩
  have hrow : d.orders.get row.id = none := hfresh.order
  have hget : (d.orders.insert row hrow).get (env.uuid 0) = some row := by
    rw [Table.get_insert hrow]
    exact if_pos rfl
  have hadd : store.apply (.addOrder (newOrder env user data r p) env.now) d =
      .ok { d with orders := d.orders.insert row hrow } := by
    refine apply_addOrder.mpr ⟨row, hrow, rfl, rfl, rfl, ?_, rfl, rfl, rfl, rfl⟩
    have hcents : (newOrder env user data r p).totalAmount.cents = p.price.val * r.qtyReserved := by
      rw [cents_newOrder, Decimal.cents_ofCents]
    rw [amount_ok (hcents ▸ ⟨hnonneg, hfits⟩)]
    exact congrArg Except.ok (Subtype.ext hcents)
  have hitem : store.apply (.addOrderItem (newOrderItem env r p))
      { d with orders := d.orders.insert row hrow } =
        .ok { d with
          orders := d.orders.insert row hrow
          orderItems := d.orderItems.insert item hfresh.item } := by
    refine apply_addOrderItem.mpr ⟨item, hfresh.item, rfl, rfl, rfl, rfl, rfl, ?_, ?_, ?_, ?_, rfl⟩
    · have hcents : (newOrderItem env r p).price.cents = p.price.val := Decimal.cents_ofCents _
      rw [itemPrice_ok (by rw [hcents]; omega)]
      exact congrArg Except.ok (Subtype.ext hcents)
    · exact ⟨by show -int32Max - 1 ≤ r.qtyReserved; omega, hsize⟩
    · exact Option.isSome_of_eq_some hget
    · exact Option.isSome_of_eq_some hp
  let linked : Db := { d with
    reservations := d.reservations.set { r with orderId := some (env.uuid 0) }
    orders := d.orders.insert row hrow
    orderItems := d.orderItems.insert item hfresh.item }
  have hlink : store.apply (.linkOrder r.id (env.uuid 0)) { d with
      orders := d.orders.insert row hrow
      orderItems := d.orderItems.insert item hfresh.item } = .ok linked :=
    apply_linkOrder.mpr ⟨r, hlive.stored, Option.isSome_of_eq_some hget, rfl⟩
  have hlogs : store.applyAll (entry.toList.map .addAuditLog) linked =
      .ok { linked with auditLogs := linked.auditLogs ++ entry.toList } := applyAll_logs.mpr rfl
  have hwritten := Store.applyAll_append.mpr ⟨linked, Store.applyAll_cons.mpr ⟨_, hadd,
    Store.applyAll_cons.mpr ⟨_, hitem, Store.applyAll_singleton.trans hlink⟩⟩, hlogs⟩
  exact ⟨_, row, hwritten, hget, rfl⟩

/-- And one that does not is refused. -/
theorem applyAll_order_error (data : OrderCreate) (entry : Option AuditLog)
    (hlarge : numericBound ≤ p.price.val * r.qtyReserved) :
    store.applyAll (orderWrites env user data r p entry) d = .error .dataError := by
  have hamount : Amount.ofDecimal (newOrder env user data r p).totalAmount = .error .dataError := by
    rw [cents_newOrder, Amount.ofDecimal, Decimal.cents_ofCents, if_pos (.inl hlarge)]
  have hfirst : store.apply (.addOrder (newOrder env user data r p) env.now) d =
      .error .dataError := by
    change (do
      let totalAmount ← Amount.ofDecimal (newOrder env user data r p).totalAmount
      _) = _
    rw [hamount]
    rfl
  rw [orderWrites, List.cons_append, Store.applyAll, hfirst]

/-- Whether the order of a live reservation is made is a question of its total. -/
theorem turnsIntoOrder_of_live (shippingAddress : Option String) (hlive : r.Live d env user)
    (hp : d.products.get r.productId = some p) (hfresh : d.DrawsOrder env) (hpos : 0 < r.qtyReserved)
    (hsize : r.qtyReserved ≤ int32Max) :
    TurnsIntoOrder env user ⟨r.id, shippingAddress⟩ d (p.price.val * r.qtyReserved) ↔
      p.price.val * r.qtyReserved < numericBound := by
  obtain ⟨entry, order, htotal, hexec⟩ := exec_createOrder shippingAddress hlive hp
  unfold TurnsIntoOrder
  rw [hexec]
  constructor
  · rintro ⟨⟨order', hvalue, -⟩, -⟩
    by_contra hlarge
    rw [exec_commitWork_error order (applyAll_order_error _ entry (Int.not_lt.mp hlarge))] at hvalue
    contradiction
  · intro hfits
    obtain ⟨d', row, hwork, hrow, hamount⟩ :=
      applyAll_order ⟨r.id, shippingAddress⟩ entry hlive hp hfresh hpos hsize hfits
    obtain ⟨hvalue, hdb⟩ := exec_commitWork_ok (s := Session.fresh) order hwork
    refine ⟨⟨order, hvalue, htotal⟩, row, ?_, hamount⟩
    rw [hdb]
    exact hrow

end

/-- **A live reservation can be turned into an order** exactly if its total, at the
price that the product has by then, fits the column. -/
theorem turnsIntoOrder_iff {T : Type} [DecidableEq T] {actors : T → Actor} {ok : World T → T → Prop}
    {s : World T} {evs : List (Event Db Write T)} {env : Env} {user : User} {r : Reservation}
    (hrun : Run store ok (World.start actors) evs s) (hlive : r.Live s.db env user)
    (hfresh : s.db.DrawsOrder env) (shippingAddress : Option String) :
    ∃ p, s.db.products.get r.productId = some p ∧
      (TurnsIntoOrder env user ⟨r.id, shippingAddress⟩ s.db (p.price.val * r.qtyReserved) ↔
        p.price.val * r.qtyReserved < numericBound) := by
  obtain ⟨-, hcoupled, -⟩ := World.tracks_any hrun
  have hmem := Table.mem_of_get hlive.stored
  obtain ⟨p, hp⟩ := Option.isSome_iff_exists.mp (hcoupled.product r hmem)
  exact ⟨p, hp, turnsIntoOrder_of_live shippingAddress hlive hp hfresh (hcoupled.positive r hmem)
    (sized_of_run hrun r hmem)⟩

/-- Two units of a product at `price` are reserved. -/
def reservingActors (price : PosDecimal) : Fin 2 → Actor
  | 0 => .request (.createProduct seller.id { lamp with price := price } seller) (shopEnv 0 0)
  | 1 => .request (.reserveItems buyer.id "key" ⟨0, two⟩) (shopEnv 1 1)

/-- The reservation that `reservingActors` leave, and the price of its product. -/
def Db.reservedAt (d : Db) (price : Int) : Bool :=
  (d.reservations.get 1).any (fun r => decide (r.userId = buyer.id ∧ r.status = .pending ∧
    ¬ r.expiresAt < 2 ∧ r.orderId = none ∧ r.id = 1 ∧ r.productId = 0 ∧ r.qtyReserved = 2)) &&
  (d.products.get 0).any (fun p => decide (p.price.val = price)) &&
  decide (d.orders.get 2 = none ∧ d.orderItems.get 3 = none)

theorem Db.of_reservedAt {d : Db} {price : Int} (h : d.reservedAt price) :
    ∃ (r : Reservation) (p : Product),
    r.Live d (shopEnv 2 2) buyer ∧ d.DrawsOrder (shopEnv 2 2) ∧
      d.products.get r.productId = some p ∧ p.price.val = price ∧ r.id = 1 ∧ r.qtyReserved = 2 := by
  obtain ⟨hrows, hfresh⟩ := Bool.and_eq_true_iff.mp h
  obtain ⟨hreservation, hproduct⟩ := Bool.and_eq_true_iff.mp hrows
  obtain ⟨r, hr, hstate⟩ := (Option.any_eq_true _ _).mp hreservation
  obtain ⟨howner, hpending, hdue, hunlinked, hid, hof, hqty⟩ := of_decide_eq_true hstate
  obtain ⟨p, hp, hprice⟩ := (Option.any_eq_true _ _).mp hproduct
  obtain ⟨horder, hitem⟩ := of_decide_eq_true hfresh
  exact ⟨r, p, ⟨hid ▸ hr, howner, hpending, hdue, hunlinked⟩, ⟨horder, hitem⟩, hof ▸ hp,
    of_decide_eq_true hprice, hid, hqty⟩

theorem turnsIntoOrder_lamps : ∃ evs s,
    Run store Anything (World.start (reservingActors lamp.price)) evs s ∧
      TurnsIntoOrder (shopEnv 2 2) buyer ⟨1, none⟩ s.db 1998 := by
  have hexec : ((World.start (reservingActors lamp.price)).exec store (fun _ _ => true)
      (turns [(0, 6), (1, 6)])).any (fun x => x.2.db.reservedAt 999) := by decide +kernel
  obtain ⟨evs, s, hrun, hend⟩ := Run.of_exec_any (fun _ _ _ => trivial) hexec
  obtain ⟨r, p, hlive, hfresh, hp, hprice, hid, hqty⟩ := Db.of_reservedAt hend
  obtain ⟨p', hp', hiff⟩ := turnsIntoOrder_iff hrun hlive hfresh none
  have hsame : p' = p := Option.some.inj (hp'.symm.trans hp)
  rw [hsame, hprice, hqty, hid] at hiff
  exact ⟨evs, s, hrun, hiff.mpr (by decide)⟩

/-- The dearest product there is, twice. -/
theorem not_turnsIntoOrder : ¬ ∀ (T : Type) [DecidableEq T] (actors : T → Actor)
    (evs : List (Event Db Write T)) (s : World T), Run store Anything (World.start actors) evs s →
      ∀ (env : Env) (user : User) (r : Reservation), r.Live s.db env user → s.db.DrawsOrder env →
        ∀ shippingAddress : Option String, ∃ p, s.db.products.get r.productId = some p ∧
          TurnsIntoOrder env user ⟨r.id, shippingAddress⟩ s.db (p.price.val * r.qtyReserved) := by
  intro hall
  have hexec : ((World.start (reservingActors ⟨⟨9999999999, -2⟩, by decide⟩)).exec store
      (fun _ _ => true) (turns [(0, 6), (1, 6)])).any (fun x => x.2.db.reservedAt 9999999999) := by
    decide +kernel
  obtain ⟨evs, s, hrun, hend⟩ := Run.of_exec_any (fun _ _ _ => trivial) hexec
  obtain ⟨r, p, hlive, hfresh, hp, hprice, -, hqty⟩ := Db.of_reservedAt hend
  obtain ⟨p', hp', hmade⟩ := hall _ _ evs s hrun (shopEnv 2 2) buyer r hlive hfresh none
  have hsame : p' = p := Option.some.inj (hp'.symm.trans hp)
  have hsize : r.qtyReserved ≤ int32Max := by
    rw [hqty]
    decide
  have hsmall := (turnsIntoOrder_of_live none hlive hp' hfresh (by omega) hsize).mp hmade
  rw [hsame, hprice, hqty] at hsmall
  exact absurd hsmall (by decide)

end FairDrop
