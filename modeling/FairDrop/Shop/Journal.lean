import FairDrop.Diffs
import FairDrop.Shop.Auditing
import FairDrop.Shop.StaffAccess

/-!
# FairDrop.Shop.Journal

The audit log as a journal: the new values of its entries, written one over the
other, tell what the tables hold.  Of a product they tell what is on offer and
its moderation status, of an order its owner, its total and how it was settled.

They do not tell the stock, and not the orders that the sweep cancels: neither
the sweep nor a reservation is logged.  `log_tells` is the exact statement.
-/

namespace FairDrop

open RowStore

/-! ## Reading the log -/

/-- The entries about a target. -/
def entriesOf (log : List AuditLog) (target : AuditTarget) : List AuditLog :=
  log.filter fun e => e.targetType = target.type ∧ e.targetId = target.id

/-- The new values of the entries about a target, one over the other. -/
def replay (log : List AuditLog) (target : AuditTarget) : Snapshot :=
  (entriesOf log target).foldl (fun s e => s.applyNew e.changes) []

section
variable {log : List AuditLog} {target : AuditTarget} {e : AuditLog} {key : String} {v w : Json}

/-- An entry about something else tells nothing. -/
theorem replay_other (h : e.targetType ≠ target.type ∨ e.targetId ≠ target.id) :
    replay (log ++ [e]) target = replay log target := by
  have hskip : ¬ (e.targetType = target.type ∧ e.targetId = target.id) := by
    rw [not_and_or]
    exact h
  simp [replay, entriesOf, hskip]

/-- An entry about the target tells the fields that it mentions. -/
theorem get?_replay_snoc (htype : e.targetType = target.type) (hid : e.targetId = target.id)
    (hunique : e.changes.Unique) :
    (replay (log ++ [e]) target).get? key =
      ((e.changes.get? key).map (Snapshot.item 1)).or ((replay log target).get? key) := by
  have hsplit : replay (log ++ [e]) target = (replay log target).applyNew e.changes := by
    simp [replay, entriesOf, htype, hid]
  rw [hsplit]
  exact Snapshot.get?_patch hunique

end

/-! ## Entries of a change -/

/-- The extra data of an entry does not speak of a field. -/
def Leaves (extra : Option Snapshot) (key : String) : Prop :=
  ∀ x ∈ extra, x.Unique ∧ x.get? key = none

section
variable {env : Env} {actorId : Uuid} {action : String} {old new : Snapshot}
  {extra : Option Snapshot} {log : List AuditLog} {target : AuditTarget} {key : String} {v w : Json}

/-- An entry about something else tells nothing. -/
theorem replay_unrelated {ty : String} {id : Uuid} {old new : Option Snapshot}
    (h : ty ≠ target.type ∨ id ≠ target.id) :
    replay (log ++ (logObjectChange env actorId id ty action old new extra).toList) target =
      replay log target := by
  unfold logObjectChange
  by_cases hnil : getDiff old new = []
  · simp [hnil]
  · simp only [hnil, if_false, Option.toList_some]
    exact replay_other h

variable (env actorId action log target)

/-- An entry tells the new values of its difference. -/
theorem get?_replay_logEvent {diff : Snapshot} (hdiff : diff.Unique) (hextra : Leaves extra key) :
    (replay (log ++ [logEvent env actorId target.type target.id action diff extra]) target).get? key =
      ((diff.get? key).map (Snapshot.item 1)).or ((replay log target).get? key) := by
  cases extra with
  | none => exact get?_replay_snoc rfl rfl hdiff
  | some x =>
      obtain ⟨hx, hkey⟩ := hextra x rfl
      have hget : (diff.update x).get? key = diff.get? key := by
        rw [Snapshot.get?_update hx, hkey, Option.none_or]
      rw [get?_replay_snoc rfl rfl (show (diff.update x).Unique from hdiff.update), ← hget]
      rfl

/-- **The entry of a change** tells the fields that changed anew, and the others
as before. -/
theorem get?_replay_change (h : old.SameKeys new) (hextra : Leaves extra key)
    (hnew : new.get? key = some v) :
    (replay (log ++ (logObjectChange env actorId target.id target.type action (some old) (some new)
      extra).toList) target).get? key =
        if v.Equal (old.get key) then (replay log target).get? key else some (masked key v) := by
  have hdiff := Snapshot.unique_getDiff h
  have hfield : ((Snapshot.get? (getDiff (some old) (some new)) key).map (Snapshot.item 1)).or
      ((replay log target).get? key) =
        if v.Equal (old.get key) then (replay log target).get? key else some (masked key v) := by
    split
    · next heq => rw [Snapshot.get?_getDiff_of_equal h hnew heq, Option.map_none, Option.none_or]
    · next hne =>
        rw [Snapshot.get?_getDiff_of_ne h hnew hne]
        rfl
  by_cases hnil : getDiff (some old) (some new) = []
  · rw [← hfield, hnil]
    simp [logObjectChange, hnil]
  · rw [← hfield, logObjectChange_of_ne hnil]
    exact get?_replay_logEvent env actorId action log target hdiff hextra

/-- The first entry of an object tells all of its fields. -/
theorem get?_replay_create (h : new.Unique) (hnew : new.get? key = some v) :
    (replay (log ++ (logObjectChange env actorId target.id target.type action none (some new)
      none).toList) target).get? key = some (masked key v) := by
  have hunique : Snapshot.Unique (getDiff none (some new)) := by
    rw [Snapshot.Unique, getDiff, Snapshot.keys_map fun key v => .arr [.null, masked key v]]
    exact h
  have hfield : Snapshot.get? (getDiff none (some new)) key =
      some (.arr [.null, masked key v]) := by
    rw [getDiff, Snapshot.get?_map fun key v => .arr [.null, masked key v], hnew, Option.map_some]
  have hne : getDiff none (some new) ≠ [] := by
    intro hnil
    rw [hnil] at hfield
    contradiction
  have hextra : Leaves none key := fun _ hx => by contradiction
  rw [logObjectChange_of_ne hne, Option.toList_some,
    get?_replay_logEvent env actorId action log target hunique hextra, hfield]
  rfl

/-- A field whose equal values are one is told as it is. -/
theorem get?_replay_field (h : old.SameKeys new) (hextra : Leaves extra key)
    (hkey : key ∉ sensitiveFields) (hnew : new.get? key = some v) (hold : old.get? key = some w)
    (htold : (replay log target).get? key = some w) (hinj : v.Equal w → v = w) :
    (replay (log ++ (logObjectChange env actorId target.id target.type action (some old) (some new)
      extra).toList) target).get? key = some v := by
  rw [get?_replay_change env actorId action log target h hextra hnew, Snapshot.get_eq, hold,
    Option.getD_some, masked, if_neg hkey]
  split
  · next heq => rw [htold, hinj heq]
  · rfl

end

/-! ## What the log tells of a row -/

/-- The log tells what is on offer. -/
structure Product.Told (p : Product) (s : Snapshot) : Prop where
  id : s.get? "id" = some (.scalar (.uuid p.id))
  name : s.get? "name" = some (.str p.name)
  description : s.get? "description" = some (.optStr p.description)
  price : ∃ d : Decimal, s.get? "price" = some (.scalar (.decimal d)) ∧ d.cents = p.price.val
  status : s.get? "status" = some (.str p.status.text)
  createdAt : s.get? "created_at" = some (.scalar (.datetime p.createdAt))

/-- The log tells what an order is, except for its address, and that it has the
status `status`. -/
structure Order.Told (o : Order) (status : OrderStatus) (s : Snapshot) : Prop where
  id : s.get? "id" = some (.scalar (.uuid o.id))
  userId : s.get? "user_id" = some (.scalar (.uuid o.userId))
  totalAmount : ∃ d : Decimal, s.get? "total_amount" = some (.scalar (.decimal d)) ∧
    d.cents = o.totalAmount.val
  status : s.get? "status" = some (.str status.text)
  shippingAddress : s.get? "shipping_address" = some hidden

/-- The status that the log knows of an order: the sweep does not log. -/
def Order.toldStatus (o : Order) (r : Reservation) : OrderStatus :=
  if r.status = .expired then .pending else o.status

def ProductsTold (products : Table Product) (log : List AuditLog) : Prop :=
  ∀ p ∈ products.rows, p.Told (replay log (.product p.id))

def OrdersTold (reservations : Table Reservation) (orders : Table Order) (log : List AuditLog) :
    Prop :=
  ∀ o ∈ orders.rows, ∃ r ∈ reservations.rows, r.orderId = some o.id ∧
    o.Told (o.toldStatus r) (replay log (.order o.id))

/-- The log tells what the tables hold. -/
structure Db.ToldBy (d : Db) (log : List AuditLog) : Prop where
  product : ProductsTold d.products log
  order : OrdersTold d.reservations d.orders log

/-- Any two product dumps have the same keys. -/
theorem ProductRead.sameKeys (a b : ProductRead) : a.dump.SameKeys b.dump where
  left := by simp [ProductRead.dump, Snapshot.Unique, Snapshot.keys]
  right := by simp [ProductRead.dump, Snapshot.Unique, Snapshot.keys]
  keys key := by simp [ProductRead.dump, Snapshot.keys]

/-- Any two order dumps have the same keys. -/
theorem OrderObj.sameKeys (a b : OrderObj) : a.dump.SameKeys b.dump where
  left := by simp [OrderObj.dump, Snapshot.Unique, Snapshot.keys]
  right := by simp [OrderObj.dump, Snapshot.Unique, Snapshot.keys]
  keys key := by simp [OrderObj.dump, Snapshot.keys]

section
variable (r : ProductRead) (o : OrderObj)

@[simp] theorem ProductRead.get?_id : r.dump.get? "id" = some (.scalar (.uuid r.id)) := by
  simp [dump, Snapshot.get?]

@[simp] theorem ProductRead.get?_name : r.dump.get? "name" = some (.str r.name) := by
  simp [dump, Snapshot.get?]

@[simp] theorem ProductRead.get?_description :
    r.dump.get? "description" = some (.optStr r.description) := by
  simp [dump, Snapshot.get?]

@[simp] theorem ProductRead.get?_price :
    r.dump.get? "price" = some (.scalar (.decimal r.price)) := by
  simp [dump, Snapshot.get?]

@[simp] theorem ProductRead.get?_status : r.dump.get? "status" = some (.str r.status.text) := by
  simp [dump, Snapshot.get?]

@[simp] theorem ProductRead.get?_createdAt :
    r.dump.get? "created_at" = some (.scalar (.datetime r.createdAt)) := by
  simp [dump, Snapshot.get?]

@[simp] theorem OrderObj.get?_id : o.dump.get? "id" = some (.scalar (.uuid o.id)) := by
  simp [dump, Snapshot.get?]

@[simp] theorem OrderObj.get?_userId :
    o.dump.get? "user_id" = some (.scalar (.uuid o.userId)) := by
  simp [dump, Snapshot.get?]

@[simp] theorem OrderObj.get?_status : o.dump.get? "status" = some (.str o.status.text) := by
  simp [dump, Snapshot.get?]

@[simp] theorem OrderObj.get?_totalAmount :
    o.dump.get? "total_amount" = some (.scalar (.decimal o.totalAmount)) := by
  simp [dump, Snapshot.get?]

@[simp] theorem OrderObj.get?_shippingAddress :
    o.dump.get? "shipping_address" = some (.optStr o.shippingAddress) := by
  simp [dump, Snapshot.get?]

end

/-! ## Entries of products -/

section
variable {env : Env} {user : User} {action : String} {log : List AuditLog} {p p' : Product}
  {obj : ProductObj} {new old : ProductRead} {entry : Option AuditLog} {extra : Option Snapshot}

/-- What a response says of the row that an instance is stored as. -/
theorem ProductRead.of_storedAs (hs : obj.StoredAs p) (h : ProductRead.modelValidate obj = .ok new) :
    new.id = p.id ∧ new.name = p.name ∧ new.description = p.description ∧
      new.price.cents = p.price.val ∧ new.status = p.status ∧ new.createdAt = p.createdAt := by
  obtain ⟨hid, _, hname, hdesc, ⟨d, hd, hprice⟩, hqty, hcreated, hstatus, _, _⟩ := hs
  simp only [ProductRead.modelValidate, hname, hd, hqty, Except.ok.injEq] at h
  subst h
  exact ⟨hid.symm, rfl, hdesc.symm, hprice.symm, hstatus.symm, hcreated.symm⟩

/-- The entry of a product compares the snapshot from before with the new one. -/
theorem productEntry_cases {snapshot : Option ProductRead}
    (h : productEntry env user obj snapshot action extra = .ok entry) :
    ∃ new, ProductRead.modelValidate obj = .ok new ∧
      entry = logObjectChange env user.id obj.id "product" action (snapshot.map ProductRead.dump)
        (some new.dump) extra := by
  rw [productEntry] at h
  cases hnew : ProductRead.modelValidate obj with
  | error e =>
      rw [hnew] at h
      contradiction
  | ok new =>
      rw [hnew] at h
      exact ⟨new, rfl, (Except.ok.inj h).symm⟩

/-- The entry written for a new product tells everything about its row. -/
theorem Product.told_create (hs : obj.StoredAs p)
    (hlog : productEntry env user obj none action none = .ok entry) :
    p.Told (replay (log ++ entry.toList) (.product p.id)) := by
  obtain ⟨new, hnew, rfl⟩ := productEntry_cases hlog
  obtain ⟨hid, hname, hdesc, hprice, hstatus, hcreated⟩ := ProductRead.of_storedAs hs hnew
  have hunique := (new.sameKeys new).left
  have hfield : ∀ key v, key ∉ sensitiveFields → new.dump.get? key = some v →
      (replay (log ++ (logObjectChange env user.id obj.id "product" action none
        (some new.dump) none).toList) (.product p.id)).get? key = some v := by
    intro key v hkey hget
    have htold := get?_replay_create env user.id action log (.product obj.id) hunique hget
    rw [masked, if_neg hkey] at htold
    rw [hs.id]
    exact htold
  exact {
    id := hfield _ _ (by decide) (by simp [hid])
    name := hfield _ _ (by decide) (by simp [hname])
    description := hfield _ _ (by decide) (by simp [hdesc])
    price := ⟨new.price, hfield _ _ (by decide) new.get?_price, hprice⟩
    status := hfield _ _ (by decide) (by simp [hstatus])
    createdAt := hfield _ _ (by decide) (by simp [hcreated]) }

/-- An entry for a change of a product that the log tells. -/
theorem Product.Told.edit (h : p.Told (replay log (.product obj.id))) (hs : obj.StoredAs p')
    (hold : ProductRead.modelValidate (.load p) = .ok old)
    (hlog : productEntry env user obj (some old) action extra = .ok entry)
    (hextra : ∀ key ∈ old.dump.keys, Leaves extra key) :
    p'.Told (replay (log ++ entry.toList) (.product obj.id)) := by
  obtain ⟨new, hnew, rfl⟩ := productEntry_cases hlog
  obtain ⟨hid, hname, hdesc, hprice, hstatus, hcreated⟩ := ProductRead.of_storedAs hs hnew
  obtain ⟨hid', hname', hdesc', hprice', hstatus', hcreated'⟩ : old.id = p.id ∧
      old.name = p.name ∧ old.description = p.description ∧ old.price = .ofCents p.price.val ∧
        old.status = p.status ∧ old.createdAt = p.createdAt := by
    obtain rfl := Except.ok.inj hold
    exact ⟨rfl, rfl, rfl, rfl, rfl, rfl⟩
  have hsame := old.sameKeys new
  have hleaves : ∀ {key v}, old.dump.get? key = some v → Leaves extra key := fun hget =>
    hextra _ (Snapshot.get?_isSome.mp (by rw [hget]; rfl))
  have hfield : ∀ key v w, key ∉ sensitiveFields → new.dump.get? key = some v →
      old.dump.get? key = some w → (replay log (.product obj.id)).get? key = some w →
        (v.Equal w → v = w) →
      (replay (log ++ (logObjectChange env user.id obj.id "product" action (some old.dump)
        (some new.dump) extra).toList) (.product obj.id)).get? key = some v :=
    fun key v w hkey hv hw htold hinj =>
      get?_replay_field env user.id action log (.product obj.id) hsame (hleaves hw) hkey hv hw
        htold hinj
  have htoldPrice : ∃ d : Decimal, (replay (log ++ (logObjectChange env user.id obj.id "product"
      action (some old.dump) (some new.dump) extra).toList) (.product obj.id)).get? "price" =
        some (.scalar (.decimal d)) ∧ d.cents = p'.price.val := by
    -- A price of the same value is not logged again, whatever its digits.
    obtain ⟨d, hd, hcents⟩ := h.price
    have htold := get?_replay_change env user.id action log (.product obj.id) hsame
      (hleaves old.get?_price) new.get?_price
    rw [Snapshot.get_eq, old.get?_price, Option.getD_some] at htold
    split at htold
    · next heq =>
        refine ⟨d, htold.trans hd, ?_⟩
        rw [hcents, ← hprice, Json.equal_decimal.mp heq, hprice', Decimal.cents_ofCents]
    · exact ⟨new.price, htold, hprice⟩
  exact {
    id := hfield _ _ _ (by decide) (by simp [hid]) (by simp [hid']) h.id
      fun he => by rw [Json.equal_uuid.mp he]
    name := hfield _ _ _ (by decide) (by simp [hname]) (by simp [hname']) h.name
      fun he => by rw [Json.equal_str.mp he]
    description := hfield _ _ _ (by decide) (by simp [hdesc]) (by simp [hdesc']) h.description
      fun he => by rw [Json.equal_optStr.mp he]
    price := htoldPrice
    status := hfield _ _ _ (by decide) (by simp [hstatus]) (by simp [hstatus']) h.status
      fun he => by rw [Json.equal_str.mp he]
    createdAt := hfield _ _ _ (by decide) (by simp [hcreated]) (by simp [hcreated']) h.createdAt
      fun he => by rw [Json.equal_datetime.mp he] }

end

/-! ## Entries of orders -/

section
variable {env : Env} {user : User} {data : OrderCreate} {log : List AuditLog} {r : Reservation}
  {p : Product} {o : Order} {i : OrderItem} {items : List OrderItemObj} {stored : List OrderItem}
  {action : String} {status status' : OrderStatus}

/-- A new order is told as it is, without its address. -/
theorem Order.told_create (hord : Ordered env user data r p o i) :
    o.Told .pending (replay (log ++ (orderEntry env user
      { newOrder env user data r p with items := items } none "create").toList)
        (.order o.id)) := by
  let obj : OrderObj := { newOrder env user data r p with items := items }
  have hfield : ∀ key v, obj.dump.get? key = some v →
      (replay (log ++ (orderEntry env user obj none "create").toList) (.order o.id)).get? key =
        some (masked key v) := by
    intro key v hget
    rw [hord.id]
    exact get?_replay_create env user.id "create" log (.order (env.uuid 0)) (obj.sameKeys obj).left
      hget
  refine ⟨?_, ?_, ⟨obj.totalAmount, hfield _ _ obj.get?_totalAmount, ?_⟩,
    hfield _ _ obj.get?_status, hfield _ _ obj.get?_shippingAddress⟩
  · refine (hfield _ _ obj.get?_id).trans ?_
    rw [hord.id]
    rfl
  · rw [hord.userId]
    exact hfield _ _ obj.get?_userId
  · rw [hord.totalAmount]
    exact Decimal.cents_scale_ofCents _ _

/-- An entry of an order that moves on tells its new status, and nothing else. -/
theorem Order.Told.move (h : o.Told o.status (replay log (.order o.id))) (now : Timestamp) :
    (o.move status now).Told status (replay (log ++ (orderEntry env user
      ((OrderObj.load o stored).moved status) (some (.load o stored)) action).toList)
        (.order o.id)) := by
  let old := OrderObj.load o stored
  have hsame := old.sameKeys (old.moved status)
  have hextra : ∀ {key}, Leaves none key := fun _ hx => by contradiction
  have hkept : ∀ key v, (old.moved status).dump.get? key = some v → old.dump.get? key = some v →
      (replay (log ++ (orderEntry env user (old.moved status) (some old) action).toList)
        (.order o.id)).get? key = (replay log (.order o.id)).get? key := by
    intro key v hnew hold
    have htold := get?_replay_change env user.id action log (.order o.id) hsame hextra hnew
    rw [Snapshot.get_eq, hold, Option.getD_some, if_pos (.refl v)] at htold
    exact htold
  obtain ⟨d, hd, hcents⟩ := h.totalAmount
  refine ⟨?_, ?_, ⟨d, ?_, ?_⟩, ?_, ?_⟩
  · rw [Order.id_move]
    exact (hkept _ _ (old.moved status).get?_id old.get?_id).trans h.id
  · rw [Order.userId_move]
    exact (hkept _ _ (old.moved status).get?_userId old.get?_userId).trans h.userId
  · exact (hkept _ _ (old.moved status).get?_totalAmount old.get?_totalAmount).trans hd
  · rw [Order.totalAmount_move]
    exact hcents
  · exact get?_replay_field env user.id action log (.order o.id) hsame hextra (by decide)
      (old.moved status).get?_status old.get?_status h.status fun he => by rw [Json.equal_str.mp he]
  · exact (hkept _ _ (old.moved status).get?_shippingAddress old.get?_shippingAddress).trans
      h.shippingAddress

end

/-! ## Every operation is told -/

section
variable {env : Env} {user : User} {action : String} {log : List AuditLog} {d : Db}
  {products : Table Product} {reservations : Table Reservation} {orders : Table Order}
  {entry : Option AuditLog}

/-- Entries of other types do not matter. -/
theorem ProductsTold.other {id : Uuid} {ty : String} {old new extra : Option Snapshot} {actorId : Uuid}
    (h : ProductsTold products log) (hty : ty ≠ "product") : ProductsTold products
      (log ++ (logObjectChange env actorId id ty action old new extra).toList) := by
  intro p hp
  rw [replay_unrelated (.inl hty)]
  exact h p hp

/-- An entry about something other than an order keeps what is told of the orders. -/
theorem OrdersTold.other {id : Uuid} {ty : String} {old new extra : Option Snapshot} {actorId : Uuid}
    (h : OrdersTold reservations orders log) (hty : ty ≠ "order") : OrdersTold reservations orders
      (log ++ (logObjectChange env actorId id ty action old new extra).toList) := by
  intro o ho
  rw [replay_unrelated (.inl hty)]
  exact h o ho

/-- A product's entry keeps what is told of the orders. -/
theorem OrdersTold.productEntry {obj : ProductObj} {snapshot : Option ProductRead}
    {extra : Option Snapshot} (h : OrdersTold reservations orders log)
    (hlog : FairDrop.productEntry env user obj snapshot action extra = .ok entry) :
    OrdersTold reservations orders (log ++ entry.toList) := by
  obtain ⟨new, -, rfl⟩ := productEntry_cases hlog
  exact h.other (by decide)

/-- The stock is not told. -/
theorem ProductsTold.stock {p : Product} {q : Stock} {now : Timestamp} (h : ProductsTold products log)
    (hp : products.get p.id = some p) :
    ProductsTold (products.set { p with qtyAvailable := q, updatedAt := now }) log := by
  intro x hx
  cases Table.mem_set hx with
  | inl hx =>
      have hp := h p (Table.mem_of_get hp)
      rw [hx]
      exact ⟨hp.id, hp.name, hp.description, hp.price, hp.status, hp.createdAt⟩
  | inr hx => exact h x hx.1

/-- Giving units back changes no field of a product that the log tells. -/
theorem ProductsTold.restocks {r : Reservation} (h : ProductsTold d.products log)
    (hstock : Restocks env d r products) : ProductsTold products log := by
  obtain ⟨p, q, hp, _, rfl⟩ := hstock
  have hid : p.id = r.productId := Table.key_of_get hp
  exact h.stock (hid ▸ hp)

/-- A product created with its entry is told. -/
theorem ProductsTold.create {p : Product} {obj : ProductObj} (h : ProductsTold products log)
    (hs : obj.StoredAs p) (hnew : products.get p.id = none)
    (hlog : productEntry env user obj none action none = .ok entry) :
    ProductsTold (products.insert p hnew) (log ++ entry.toList) := by
  intro x hx
  cases (Table.mem_insert hnew).mp hx with
  | inl hx =>
      have hne : x.id ≠ p.id := Table.get_eq_none_iff.mp hnew x hx
      obtain ⟨new, -, rfl⟩ := productEntry_cases hlog
      rw [replay_unrelated (.inr (hs.id ▸ hne.symm))]
      exact h x hx
  | inr hx =>
      rw [hx]
      exact Product.told_create hs hlog

/-- A product edited with its entry is told: the diff covers every field that has moved. -/
theorem ProductsTold.edit {p p' : Product} {obj : ProductObj} {old : ProductRead}
    {extra : Option Snapshot} (h : ProductsTold products log) (hp : products.get p.id = some p)
    (hid : obj.id = p.id) (hs : obj.StoredAs p')
    (hold : ProductRead.modelValidate (.load p) = .ok old)
    (hlog : productEntry env user obj (some old) action extra = .ok entry)
    (hextra : ∀ key ∈ old.dump.keys, Leaves extra key) :
    ProductsTold (products.set p') (log ++ entry.toList) := by
  intro x hx
  cases Table.mem_set hx with
  | inl hx =>
      rw [hx, hs.id]
      exact (hid ▸ h p (Table.mem_of_get hp)).edit hs hold hlog hextra
  | inr hx =>
      have hne : x.id ≠ p'.id := hx.2
      obtain ⟨new, -, rfl⟩ := productEntry_cases hlog
      rw [replay_unrelated (.inr (hs.id ▸ hne.symm))]
      exact h x hx.1

/-- A new reservation has no order, so it changes nothing that the log has to tell. -/
theorem OrdersTold.reserve {r : Reservation} (h : OrdersTold reservations orders log)
    (hnew : reservations.get r.id = none) :
    OrdersTold (reservations.insert r hnew) orders log := by
  intro o ho
  obtain ⟨x, hx, htold⟩ := h o ho
  exact ⟨x, (Table.mem_insert hnew).mpr (.inl hx), htold⟩

/-- Another reservation than that of an order was rewritten. -/
theorem OrdersTold.beside {r r' : Reservation} {o : Order} (h : OrdersTold reservations orders log)
    (ho : o ∈ orders.rows) (hr : r ∈ reservations.rows) (hid : r'.id = r.id)
    (hlink : r.orderId ≠ some o.id) : ∃ x ∈ (reservations.set r').rows, x.orderId = some o.id ∧
      o.Told (o.toldStatus x) (replay log (.order o.id)) := by
  obtain ⟨x, hx, hxlink, htold⟩ := h o ho
  have hne : x.id ≠ r'.id := by
    intro heq
    obtain rfl : x = r := reservations.eq_of_key hx hr (heq.trans hid)
    exact hlink hxlink
  exact ⟨x, Table.mem_set_of_ne hx hne, hxlink, htold⟩

/-- The log tells a pending order by its status. -/
theorem OrdersTold.pending {r : Reservation} {o : Order} (h : OrdersTold d.reservations d.orders log)
    (hcoupled : Coupled d) (hr : r ∈ d.reservations.rows) (hlink : r.orderId = some o.id)
    (ho : d.orders.get o.id = some o) (hstatus : r.status = .pending) :
    o.Told o.status (replay log (.order o.id)) := by
  obtain ⟨x, hx, hxlink, htold⟩ := h o (Table.mem_of_get ho)
  obtain rfl := hcoupled.injective x hx r hr o.id hxlink hlink
  rw [Order.toldStatus, if_neg (by simp [hstatus])] at htold
  exact htold

/-- An order created with its entry is told, and so is its reservation's new link. -/
theorem OrdersTold.create {data : OrderCreate} {r : Reservation} {p : Product} {o : Order}
    {i : OrderItem} {items : List OrderItemObj} (h : OrdersTold reservations orders log)
    (hr : reservations.get r.id = some r) (hstatus : r.status = .pending) (hlink : r.orderId = none)
    (ho : orders.get o.id = none) (hord : Ordered env user data r p o i) :
    OrdersTold (reservations.set { r with orderId := some o.id }) (orders.insert o ho)
      (log ++ (orderEntry env user { newOrder env user data r p with items := items } none
        "create").toList) := by
  intro x hx
  cases (Table.mem_insert ho).mp hx with
  | inl hx =>
      have hne : x.id ≠ o.id := Table.get_eq_none_iff.mp ho x hx
      have hentry : env.uuid 0 ≠ x.id := hord.id ▸ hne.symm
      unfold orderEntry
      rw [replay_unrelated (.inr hentry)]
      exact h.beside hx (Table.mem_of_get hr) rfl (by simp [hlink])
  | inr hx =>
      subst hx
      refine ⟨{ r with orderId := some x.id }, Table.mem_set_self (Table.mem_of_get hr) rfl, rfl, ?_⟩
      rw [Order.toldStatus, if_neg (by simp [hstatus]), hord.status]
      exact Order.told_create hord

/-- A settled order keeps being told: only its status and its date have moved. -/
theorem OrdersTold.settle {r : Reservation} {o : Order} {s status : OrderStatus} {now : Timestamp}
    {stored : List OrderItem} (h : OrdersTold d.reservations d.orders log) (hcoupled : Coupled d)
    (hr : r ∈ d.reservations.rows) (hlink : r.orderId = some o.id)
    (ho : d.orders.get o.id = some o) (hstatus : o.status = .pending) (hs : s ≠ .expired) :
    OrdersTold (d.reservations.set { r with status := s }) (d.orders.set (o.move status now))
      (log ++ (orderEntry env user ((OrderObj.load o stored).moved status) (some (.load o stored))
        action).toList) := by
  have hpending := hcoupled.pending_of_order hr ho hlink hstatus
  intro x hx
  cases Table.mem_set hx with
  | inl hx =>
      refine ⟨{ r with status := s }, Table.mem_set_self hr rfl, by simp [hx, hlink], ?_⟩
      rw [hx, Order.toldStatus, if_neg hs, Order.status_move, Order.id_move]
      exact (h.pending hcoupled hr hlink ho hpending).move now
  | inr hx =>
      have hne : x.id ≠ o.id := fun heq => hx.2 (heq.trans (o.id_move status now).symm)
      unfold orderEntry
      rw [replay_unrelated (.inr hne.symm)]
      exact h.beside hx.1 hr rfl (by simp [hlink, hne.symm])

/-- A released reservation takes its pending order with it, as the log allows. -/
theorem OrdersTold.release {r : Reservation} (h : OrdersTold d.reservations d.orders log)
    (hcoupled : Coupled d) (hr : r ∈ d.reservations.rows) (hstatus : r.status = .pending)
    (horders : CancelsLinked env d r orders) :
    OrdersTold (d.reservations.set { r with status := .expired }) orders log := by
  unfold CancelsLinked at horders
  split at horders
  · next hnone =>
      subst horders
      exact fun x hx => h.beside hx hr rfl (by simp [hnone])
  · next orderId hlink =>
      obtain ⟨o, ho, rfl⟩ := horders
      obtain rfl : o.id = orderId := Table.key_of_get ho
      have hpending := hcoupled.pending_of_reservation hr ho hlink hstatus
      intro x hx
      cases Table.mem_set hx with
      | inl hx =>
          have htold := h.pending hcoupled hr hlink ho hstatus
          refine ⟨{ r with status := .expired }, Table.mem_set_self hr rfl, by simp [hx, hlink], ?_⟩
          rw [hx, Order.toldStatus, if_pos rfl, Order.id_move]
          rw [hpending] at htold
          exact ⟨by simpa using htold.id, by simpa using htold.userId,
            by simpa using htold.totalAmount, htold.status, htold.shippingAddress⟩
      | inr hx =>
          have hne : x.id ≠ o.id := fun heq => hx.2 (heq.trans (o.id_move .cancelled env.now).symm)
          exact h.beside hx.1 hr rfl (by simp [hlink, hne.symm])

/-- The reason of a rejection is no field of a product. -/
theorem leaves_of_moderation {c : Call} {m : Moderation} (h : c.moderation = some m)
    (old : ProductRead) : ∀ key ∈ old.dump.keys, Leaves m.metadata key := by
  intro key hkey x hx
  cases c with
  | rejectProduct id user reason =>
      obtain rfl := Option.some.inj h
      obtain rfl := Option.some.inj hx
      refine ⟨by simp [Snapshot.Unique, Snapshot.keys], ?_⟩
      rw [Snapshot.get?_eq_none]
      rintro hreason
      simp only [Snapshot.keys, List.map_cons, List.map_nil, List.mem_singleton] at hreason
      subst hreason
      simp [ProductRead.dump, Snapshot.keys] at hkey
  | submitForModeration | changeStatus | claimForModeration | approveProduct =>
      obtain rfl := Option.some.inj h
      contradiction
  | _ => contradiction

/-- **Every call** is told by the log that it leaves. -/
theorem Change.told {alone : Bool} {c : Call} {d' : Db} (hcoupled : Coupled d)
    (h : d.ToldBy d.auditLogs) (hc : Change env alone d c d') : d'.ToldBy d'.auditLogs := by
  obtain ⟨hproducts, horders⟩ := h
  cases hc with
  | createProduct p entry hs hnew hlog =>
      exact ⟨hproducts.create hs hnew hlog, horders.productEntry hlog⟩
  | updateProduct p p' old entry hget howner hfree hs hold hlog =>
      have hid : p.id = _ := Table.key_of_get hget
      exact ⟨hproducts.edit (hid ▸ hget) (ProductObj.id_edit _ _) hs hold hlog
        fun _ _ _ hx => by contradiction, horders.productEntry hlog⟩
  | @moderate c m p p' old entry hmod hget howner hallowed hs hold hlog =>
      have hid : p.id = _ := Table.key_of_get hget
      exact ⟨hproducts.edit (hid ▸ hget) rfl hs hold hlog (leaves_of_moderation hmod old),
        horders.productEntry hlog⟩
  | reserveItems p q hget hq hkey hnew =>
      have hid : p.id = _ := Table.key_of_get hget
      exact ⟨hproducts.stock (hid ▸ hget), horders.reserve hnew⟩
  | createOrder r p o i stored hget howner hstatus hdue hlink hread hp ho hi hord =>
      have hid : r.id = _ := Table.key_of_get hget
      exact ⟨hproducts.other (by decide), horders.create (hid ▸ hget) hstatus hlink ho hord⟩
  | confirmOrderPayment o r items hget howner hstatus hr hlink =>
      have hid : o.id = _ := Table.key_of_get hget
      exact ⟨hproducts.other (by decide),
        horders.settle hcoupled hr (hid ▸ hlink) (hid ▸ hget) hstatus (by decide)⟩
  | cancelOrder o r products items hget howner hstatus hr hlink hstock =>
      have hid : o.id = _ := Table.key_of_get hget
      exact ⟨(hproducts.restocks hstock).other (by decide),
        horders.settle hcoupled hr (hid ▸ hlink) (hid ▸ hget) hstatus (by decide)⟩
  | releaseReservation r products orders hget hstatus hstock hcancel =>
      exact ⟨hproducts.restocks hstock,
        horders.release hcoupled (Table.mem_of_get hget) hstatus hcancel⟩

/-- An entry of a view tells nothing of the order. -/
theorem OrdersTold.details {id : Uuid} (h : OrdersTold reservations orders log) :
    OrdersTold reservations orders (log ++ [detailsEntry id user env]) := by
  intro o ho
  obtain ⟨r, hr, hlink, htold⟩ := h o ho
  refine ⟨r, hr, hlink, ?_⟩
  by_cases hid : id = o.id
  · subst hid
    let diff : Snapshot :=
      [("pii_accessed", .scalar (.bool true)), ("reason", .optStr (some "admin_pii_view"))]
    have hkept : ∀ key, Snapshot.get? diff key = none →
        (replay (log ++ [detailsEntry o.id user env]) (.order o.id)).get? key =
          (replay log (.order o.id)).get? key := by
      intro key hkey
      have hunique : Snapshot.Unique diff := by simp [diff, Snapshot.Unique, Snapshot.keys]
      have hextra : Leaves none key := fun _ hx => by contradiction
      have hentry := get?_replay_logEvent env user.id "pii_access" log (.order o.id) hunique hextra
      rw [hkey, Option.map_none, Option.none_or] at hentry
      exact hentry
    obtain ⟨hid, huser, ⟨d, hd, hcents⟩, hstatus, haddress⟩ := htold
    exact {
      id := (hkept _ (by simp [diff, Snapshot.get?])).trans hid
      userId := (hkept _ (by simp [diff, Snapshot.get?])).trans huser
      totalAmount := ⟨d, (hkept _ (by simp [diff, Snapshot.get?])).trans hd, hcents⟩
      status := (hkept _ (by simp [diff, Snapshot.get?])).trans hstatus
      shippingAddress := (hkept _ (by simp [diff, Snapshot.get?])).trans haddress }
  · rw [replay_other (.inr hid)]
    exact htold

/-- The entry about reading a product's details says nothing of its fields. -/
theorem ProductsTold.details {id : Uuid} (h : ProductsTold products log) :
    ProductsTold products (log ++ [detailsEntry id user env]) := by
  intro p hp
  rw [replay_other (.inl (show "order" ≠ "product" by decide))]
  exact h p hp

/-- A release keeps the log telling the rows. -/
theorem Release.told {exact : Prop} {id : Uuid} {d' : Db} (hcoupled : Coupled d)
    (h : d.ToldBy d.auditLogs) (hc : Release exact env d id d') : d'.ToldBy d'.auditLogs := by
  obtain ⟨hproducts, horders⟩ := h
  obtain ⟨r, p, q, orders, hget, hstatus, hp, _, hcancel⟩ := hc
  have hid : p.id = r.productId := Table.key_of_get hp
  exact ⟨hproducts.stock (hid ▸ hp), horders.release hcoupled (Table.mem_of_get hget) hstatus hcancel⟩

/-- **Every actor** leaves the tables and the log in agreement. -/
theorem ShopActor.Commits.told {a : ShopActor} {d d' : ShopDb} (hcoupled : Coupled d.db)
    (h : d.db.ToldBy d.db.auditLogs) (hc : a.Commits d d') : d'.db.ToldBy d'.db.auditLogs := by
  cases hc with
  | @shop actor _ x hc =>
      cases actor with
      | request c env => exact Change.told hcoupled h hc
      | sweep env expireOnCommit scan =>
          obtain ⟨id, hrelease⟩ := hc
          exact hrelease.told hcoupled h
  | deleteProduct p images =>
      exact ⟨fun x hx => h.product x (List.mem_filter.mp hx).1, h.order⟩
  | orderDetails hstaff => exact ⟨h.product.details, h.order.details⟩
  | createUploadUrl => exact h

end

/-! ## Runs -/

section
variable {T : Type} [DecidableEq T] {actors : T → ShopActor} {ok : ShopWorld T → T → Prop}
  {s : ShopWorld T} {evs : List (Event ShopDb ShopWrite T)}

/-- **The log is a journal**: in every state of a run its entries tell what the
tables hold, and a prefix of the last log tells what they held after each event. -/
theorem log_tells (hrun : Run shopStore ok (ShopWorld.start actors) evs s) :
    s.db.db.ToldBy s.db.db.auditLogs ∧
      ∀ ev ∈ evs, ∃ n, ev.after.db.ToldBy (s.db.db.auditLogs.take n) := by
  obtain ⟨_, _, hevs⟩ := ShopWorld.tracks hrun
  have hempty : Db.empty.ToldBy [] := ⟨fun p hp => (nomatch hp), fun o ho => (nomatch ho)⟩
  obtain ⟨hnow, hthen⟩ := hrun.keeps (I := fun d => d.db.ToldBy d.db.auditLogs) hempty
    fun ev hev hI => by
      obtain ⟨hcoupled, hlaw⟩ := hevs ev hev
      split at hlaw
      · rw [hlaw]
        exact hI
      · exact ShopActor.Commits.told hcoupled hI hlaw
  refine ⟨hnow, fun ev hev => ⟨ev.after.db.auditLogs.length, ?_⟩⟩
  have hprefix := (keeps_of_run hrun ev hev).2.logs
  rw [← List.prefix_iff_eq_take.mp hprefix]
  exact (hthen ev hev).2

end

/-- A lamp is ordered, then the sweep takes the order back: the log has it as
pending for good. -/
def lostActors : Fin 4 → ShopActor
  | 0 => .shop (.request (.createProduct seller.id lamp seller) (shopEnv 0 0))
  | 1 => .shop (.request (.reserveItems buyer.id "k" ⟨0, one⟩) (shopEnv 0 10))
  | 2 => .shop (.request (.createOrder buyer ⟨10, none⟩) (shopEnv 0 20))
  | 3 => .shop (.request (.releaseReservation 10) (shopEnv 1 30))

/-- A status that moves without an entry: the sweep cancels an order the log still calls
pending. -/
theorem log_tells_lost : ∃ evs s,
    Run shopStore Anything (ShopWorld.start lostActors) evs s ∧
    s.db.db.ToldBy s.db.db.auditLogs ∧ s.db.db.orders.rows.map (·.status) = [.cancelled] ∧
    (replay s.db.db.auditLogs (.order 20)).get? "status" = some (.str "PENDING") := by
  have hexec : ((ShopWorld.start lostActors).exec shopStore (fun _ _ => true)
      (turns [(0, 6), (1, 6), (2, 9), (3, 10)])).any (fun x =>
        x.2.db.db.orders.rows.map (·.status) = [.cancelled] ∧
        (replay x.2.db.db.auditLogs (.order 20)).get? "status" = some (.str "PENDING")) := by
    decide +kernel
  obtain ⟨evs, s, hrun, hlost⟩ := Run.of_exec_any (fun _ _ _ => trivial) hexec
  obtain ⟨hcancelled, htold⟩ := of_decide_eq_true hlost
  exact ⟨evs, s, hrun, (log_tells hrun).1, hcancelled, htold⟩

end FairDrop
