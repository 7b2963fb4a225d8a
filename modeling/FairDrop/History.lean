import FairDrop.Lifecycle
import FairDrop.Shop.Actors

/-!
# FairDrop.History

What the shop never takes back.  Whatever is run later, a reservation stays what
it was reserved as, an order keeps its buyer, its total, its address and its
items, and both leave `PENDING` once at most.  Only products disappear.
-/

namespace FairDrop

open RowStore

/-! ## Rows that stay -/

/-- The items of an order. -/
def Db.itemsOf (d : Db) (orderId : Uuid) : List OrderItem :=
  d.orderItems.rows.filter fun i => i.orderId = orderId

/-- `o'` is `o`, perhaps settled in between. -/
def Order.Settled (o o' : Order) : Prop :=
  (∃ status updatedAt, o' = { o with status := status, updatedAt := updatedAt }) ∧
    (o.status ≠ .pending → o' = o)

/-- `r'` is `r`, perhaps ordered or settled in between. -/
def Reservation.Settled (r r' : Reservation) : Prop :=
  (∃ status orderId, r' = { r with status := status, orderId := orderId }) ∧
    (r.status ≠ .pending → r' = r) ∧ ∀ id, r.orderId = some id → r'.orderId = some id

/-- `d'` may come after `d`. -/
structure Preserves (d d' : Db) : Prop where
  logs : d.auditLogs <+: d'.auditLogs
  reservation : ∀ id r, d.reservations.get id = some r →
    ∃ r', d'.reservations.get id = some r' ∧ r.Settled r'
  order : ∀ id o, d.orders.get id = some o → ∃ o', d'.orders.get id = some o' ∧ o.Settled o'
  items : ∀ id, (d.orders.get id).isSome → d'.itemsOf id = d.itemsOf id

/-- An order that has not changed. -/
theorem Order.Settled.refl (o : Order) : o.Settled o := ⟨⟨o.status, o.updatedAt, rfl⟩, fun _ => rfl⟩

/-- What has settled stays settled by further changes. -/
theorem Order.Settled.trans {o₁ o₂ o₃ : Order} (h : o₁.Settled o₂) (h' : o₂.Settled o₃) :
    o₁.Settled o₃ := by
  refine ⟨?_, fun hs => ?_⟩
  · obtain ⟨⟨status, updatedAt, rfl⟩, -⟩ := h
    obtain ⟨⟨status', updatedAt', rfl⟩, -⟩ := h'
    exact ⟨status', updatedAt', rfl⟩
  · obtain rfl := h.2 hs
    exact h'.2 hs

/-- A pending order may move to any status. -/
theorem Order.settled_move {o : Order} (h : o.status = .pending) (status : OrderStatus)
    (now : Timestamp) : o.Settled (o.move status now) := by
  refine ⟨?_, fun hs => absurd h hs⟩
  unfold Order.move
  split
  · exact ⟨o.status, o.updatedAt, rfl⟩
  · exact ⟨status, now, rfl⟩

/-- A reservation that has not changed. -/
theorem Reservation.Settled.refl (r : Reservation) : r.Settled r :=
  ⟨⟨r.status, r.orderId, rfl⟩, fun _ => rfl, fun _ h => h⟩

/-- What has settled stays settled by further changes. -/
theorem Reservation.Settled.trans {r₁ r₂ r₃ : Reservation} (h : r₁.Settled r₂)
    (h' : r₂.Settled r₃) : r₁.Settled r₃ := by
  refine ⟨?_, fun hs => ?_, fun id hid => h'.2.2 id (h.2.2 id hid)⟩
  · obtain ⟨⟨status, orderId, rfl⟩, -⟩ := h
    obtain ⟨⟨status', orderId', rfl⟩, -⟩ := h'
    exact ⟨status', orderId', rfl⟩
  · obtain rfl := h.2.1 hs
    exact h'.2.1 hs

/-- A pending reservation may take any status. -/
theorem Reservation.settled_status {r : Reservation} (h : r.status = .pending) (status : OrderStatus) :
    r.Settled { r with status := status } :=
  ⟨⟨status, r.orderId, rfl⟩, fun hs => absurd h hs, fun _ hid => hid⟩

/-- A pending reservation may get its order. -/
theorem Reservation.settled_link {r : Reservation} (h : r.status = .pending) (hlink : r.orderId = none)
    (id : Uuid) : r.Settled { r with orderId := some id } := by
  refine ⟨⟨r.status, some id, rfl⟩, fun hs => absurd h hs, fun id' hid => ?_⟩
  rw [hlink] at hid
  contradiction

namespace Preserves

variable {d d' : Db}

/-- A state preserves itself. -/
theorem refl (d : Db) : Preserves d d :=
  ⟨List.prefix_rfl, fun _ r hr => ⟨r, hr, .refl r⟩, fun _ o ho => ⟨o, ho, .refl o⟩, fun _ _ => rfl⟩

/-- What one change and the next preserve is preserved by both together. -/
theorem trans {d₁ d₂ d₃ : Db} (h : Preserves d₁ d₂) (h' : Preserves d₂ d₃) : Preserves d₁ d₃ where
  logs := h.logs.trans h'.logs
  reservation id r hr := by
    obtain ⟨r₂, hr₂, hstep⟩ := h.reservation id r hr
    obtain ⟨r₃, hr₃, hstep'⟩ := h'.reservation id r₂ hr₂
    exact ⟨r₃, hr₃, hstep.trans hstep'⟩
  order id o ho := by
    obtain ⟨o₂, ho₂, hstep⟩ := h.order id o ho
    obtain ⟨o₃, ho₃, hstep'⟩ := h'.order id o₂ ho₂
    exact ⟨o₃, ho₃, hstep.trans hstep'⟩
  items id hid := by
    obtain ⟨o, ho⟩ := Option.isSome_iff_exists.mp hid
    obtain ⟨o₂, ho₂, -⟩ := h.order id o ho
    rw [h'.items id (by rw [ho₂]; rfl), h.items id hid]

/-- Rewriting a reservation and an order, whatever happens to the products. -/
theorem settle {r r' : Reservation} {orders : Table Order} {products : Table Product}
    {logs : List AuditLog} (hr : d.reservations.get r.id = some r) (hid : r'.id = r.id)
    (hsettled : r.Settled r')
    (horders : orders = d.orders ∨ ∃ o o', d.orders.get o.id = some o ∧ o'.id = o.id ∧
      o.Settled o' ∧ orders = d.orders.set o') :
    Preserves d { d with
      products := products
      reservations := d.reservations.set r'
      orders := orders
      auditLogs := d.auditLogs ++ logs } where
  logs := List.prefix_append _ _
  reservation id x hx := by
    cases Table.get_set_cases hr hid hx with
    | inl h =>
        obtain ⟨rfl, hset⟩ := h
        exact ⟨r', hset, hsettled⟩
    | inr hkept => exact ⟨x, hkept, .refl x⟩
  order id x hx := by
    obtain rfl | ⟨o, o', ho, hoid, hmoved, rfl⟩ := horders
    · exact ⟨x, hx, .refl x⟩
    · cases Table.get_set_cases ho hoid hx with
      | inl h =>
          obtain ⟨rfl, hset⟩ := h
          exact ⟨o', hset, hmoved⟩
      | inr hkept => exact ⟨x, hkept, .refl x⟩
  items _ _ := rfl

end Preserves

/-! ## Every operation keeps them -/

section
variable {env : Env} {alone : Bool} {c : Call} {d d' : Db} {products : Table Product}

/-- Products and log entries do not matter. -/
theorem preserves_products (products : Table Product) (logs : List AuditLog) :
    Preserves d { d with products := products, auditLogs := d.auditLogs ++ logs } :=
  ⟨List.prefix_append _ _, fun _ r hr => ⟨r, hr, .refl r⟩, fun _ o ho => ⟨o, ho, .refl o⟩,
    fun _ _ => rfl⟩

/-- A release that cancels the order of its reservation. -/
theorem CancelsLinked.orders {r : Reservation} {orders : Table Order} (h : Coupled d)
    (hr : r ∈ d.reservations.rows) (hstatus : r.status = .pending)
    (horders : CancelsLinked env d r orders) :
    orders = d.orders ∨ ∃ o o', d.orders.get o.id = some o ∧ o'.id = o.id ∧ o.Settled o' ∧
      orders = d.orders.set o' := by
  unfold CancelsLinked at horders
  split at horders
  · exact .inl horders
  · next orderId hlink =>
      obtain ⟨o, ho, rfl⟩ := horders
      obtain rfl : o.id = orderId := Table.key_of_get ho
      have hpending := h.pending_of_reservation hr ho hlink hstatus
      exact .inr ⟨o, _, ho, o.id_move _ _, Order.settled_move hpending _ _, rfl⟩

/-- A release keeps every row: the reservation was pending, and so was its order. -/
theorem Preserves.release {r : Reservation} {orders : Table Order} (h : Coupled d)
    (hr : d.reservations.get r.id = some r) (hstatus : r.status = .pending)
    (horders : CancelsLinked env d r orders) :
    Preserves d { d with
      products := products
      reservations := d.reservations.set { r with status := .expired }
      orders := orders } := by
  have hsettle : Preserves d { d with
      products := products
      reservations := d.reservations.set { r with status := .expired }
      orders := orders
      auditLogs := d.auditLogs ++ [] } :=
    Preserves.settle hr rfl (Reservation.settled_status hstatus .expired)
      (horders.orders h (Table.mem_of_get hr) hstatus)
  rw [List.append_nil] at hsettle
  exact hsettle

/-- Every committed change of a service keeps the rows and the log. -/
theorem Change.preserves (h : Coupled d) (hc : Change env alone d c d') : Preserves d d' := by
  cases hc with
  | createProduct | updateProduct | moderate => exact preserves_products _ _
  | reserveItems p q hget hq hkey hnew =>
      exact ⟨List.prefix_rfl, fun id r hr => ⟨r, Table.get_insert_of_get hnew hr, .refl r⟩,
        fun _ o ho => ⟨o, ho, .refl o⟩, fun _ _ => rfl⟩
  | createOrder r p o i stored hget howner hstatus hdue hlink hread hp ho hi hord =>
      have hid : r.id = _ := Table.key_of_get hget
      refine ⟨List.prefix_append _ _, fun id x hx => ?_, fun id x hx => ?_, fun id hid => ?_⟩
      · cases Table.get_set_cases (b := { r with orderId := some o.id }) hget hid hx with
        | inl hsame =>
            obtain ⟨rfl, hset⟩ := hsame
            exact ⟨_, hset, Reservation.settled_link hstatus hlink _⟩
        | inr hkept => exact ⟨x, hkept, .refl x⟩
      · exact ⟨x, Table.get_insert_of_get ho hx, .refl x⟩
      · have hne : o.id ≠ id := by
          rintro rfl
          rw [ho] at hid
          contradiction
        simp [Db.itemsOf, Table.insert, List.filter_append, hord.orderId, hne]
  | confirmOrderPayment o r items hget howner hstatus hr hlink
  | cancelOrder o r products items hget howner hstatus hr hlink =>
      have hid : o.id = _ := Table.key_of_get hget
      have hpending := h.pending_of_order hr (hid ▸ hget) (hid ▸ hlink) hstatus
      exact .settle (Table.get_of_mem hr) rfl (Reservation.settled_status hpending _)
        (.inr ⟨o, _, hid ▸ hget, o.id_move _ _, Order.settled_move hstatus _ _, rfl⟩)
  | releaseReservation r products orders hget hstatus hstock horders =>
      have hid : r.id = _ := Table.key_of_get hget
      have hget' : d.reservations.get r.id = some r := hid ▸ hget
      exact .release h hget' hstatus horders

/-- Every commit of an actor keeps the rows and the log. -/
theorem Actor.Commits.preserves {exact : Prop} {a : Actor} (h : Coupled d) (hc : a.Commits exact d d') :
    Preserves d d' := by
  cases a with
  | request c env => exact Change.preserves h hc
  | sweep env expireOnCommit scan =>
      obtain ⟨id, r, p, q, orders, hget, hstatus, _, _, horders⟩ := hc
      have hid : r.id = id := Table.key_of_get hget
      exact .release h (hid ▸ hget) hstatus horders

/-- Every commit keeps the rows and the log, those of the shop's other services too. -/
theorem ShopActor.Commits.preserves {a : ShopActor} {d d' : ShopDb} (h : Coupled d.db)
    (hc : a.Commits d d') : Preserves d.db d'.db := by
  cases hc with
  | shop hc => exact hc.preserves h
  | createUploadUrl => exact .refl _
  | deleteProduct =>
      exact ⟨List.prefix_rfl, fun _ r hr => ⟨r, hr, .refl r⟩, fun _ o ho => ⟨o, ho, .refl o⟩,
        fun _ _ => rfl⟩
  | orderDetails => exact preserves_products _ _

end

/-! ## Runs -/

section
variable {T : Type} [DecidableEq T] {actors : T → Actor} {ok : World T → T → Prop} {s s' : World T}
  {evs evs' : List (Event Db Write T)}

/-- Each event of a run keeps the rows and the log. -/
theorem World.preserves_event (hrun : Run store ok (World.start actors) evs s) :
    ∀ ev ∈ evs, Preserves ev.before ev.after := by
  intro ev hev
  have hlaw := (World.tracks_any hrun).2.2 ev hev
  rcases hlaw.cases with hsame | hc
  · rw [hsame]
    exact .refl _
  · exact hc.preserves hlaw.1

/-- From every event of a run to its end the rows and the log are kept. -/
theorem World.preserves_of_run (hrun : Run store ok (World.start actors) evs s) :
    ∀ ev ∈ evs, Preserves ev.before s.db ∧ Preserves ev.after s.db :=
  hrun.since Preserves.refl (fun _ _ _ => Preserves.trans) (World.preserves_event hrun)

/-- From one point of a run to a later one. -/
theorem World.preserves (hrun : Run store ok (World.start actors) evs s)
    (hmore : Run store ok s evs' s') : Preserves s.db s'.db := by
  have hevs := World.preserves_event (hrun.append hmore)
  refine (hmore.keeps (.refl s.db) fun ev hev hI => hI.trans (hevs ev ?_)).1
  exact List.mem_append_right evs hev

end

section
variable {T : Type} [DecidableEq T] {actors : T → ShopActor} {ok : ShopWorld T → T → Prop}
  {s : ShopWorld T} {evs : List (Event ShopDb ShopWrite T)}

/-- Each event of a run of the whole shop keeps the rows and the log. -/
theorem ShopWorld.preserves_event (hrun : Run shopStore ok (ShopWorld.start actors) evs s) :
    ∀ ev ∈ evs, Preserves ev.before.db ev.after.db := by
  intro ev hev
  obtain ⟨hcoupled, hlaw⟩ := (ShopWorld.tracks hrun).2.2 ev hev
  split at hlaw
  · rw [hlaw]
    exact .refl _
  · exact ShopActor.Commits.preserves hcoupled hlaw

/-- From every event to the end of a run of the whole shop the rows and the log are kept. -/
theorem ShopWorld.preserves_of_run (hrun : Run shopStore ok (ShopWorld.start actors) evs s) :
    ∀ ev ∈ evs, Preserves ev.before.db s.db.db ∧ Preserves ev.after.db s.db.db :=
  hrun.since (r := fun d d' => Preserves d.db d'.db) (fun d => .refl d.db)
    (fun _ _ _ => Preserves.trans) (ShopWorld.preserves_event hrun)

/-- **Nothing is taken back**: what was stored at any point of a run is there at
its end, and only the status of a pending row has moved. -/
theorem stays_stored (hrun : Run shopStore ok (ShopWorld.start actors) evs s) :
    ∀ ev ∈ evs, ev.before.db.auditLogs <+: s.db.db.auditLogs ∧
      (∀ r ∈ ev.before.db.reservations.rows, ∃ r' ∈ s.db.db.reservations.rows, r.Settled r') ∧
      ∀ o ∈ ev.before.db.orders.rows, ∃ o' ∈ s.db.db.orders.rows, o.Settled o' ∧
        s.db.db.itemsOf o.id = ev.before.db.itemsOf o.id := by
  intro ev hev
  obtain ⟨h, -⟩ := ShopWorld.preserves_of_run hrun ev hev
  refine ⟨h.logs, fun r hr => ?_, fun o ho => ?_⟩
  · obtain ⟨r', hr', hsettled⟩ := h.reservation r.id r (Table.get_of_mem hr)
    exact ⟨r', Table.mem_of_get hr', hsettled⟩
  · have hget : ev.before.db.orders.get o.id = some o := Table.get_of_mem ho
    obtain ⟨o', ho', hsettled⟩ := h.order o.id o hget
    exact ⟨o', Table.mem_of_get ho', hsettled, h.items o.id (by rw [hget]; rfl)⟩

end

/-- A lamp is ordered and paid for. -/
def paidActors : Fin 4 → ShopActor
  | 0 => .shop (.request (.createProduct seller.id lamp seller) (shopEnv 0 0))
  | 1 => .shop (.request (.reserveItems buyer.id "k" ⟨0, one⟩) (shopEnv 0 10))
  | 2 => .shop (.request (.createOrder buyer ⟨10, none⟩) (shopEnv 0 20))
  | 3 => .shop (.request (.confirmOrderPayment 20 buyer) (shopEnv 1 30))

/-- A run in which an order is paid, with everything it has stored on the way. -/
theorem stays_stored_paid : ∃ evs s, Run shopStore Anything (ShopWorld.start paidActors) evs s ∧
    s.db.db.orders.rows.map (·.status) = [.paid] ∧
    ∀ ev ∈ evs, ev.before.db.auditLogs <+: s.db.db.auditLogs ∧
      (∀ r ∈ ev.before.db.reservations.rows, ∃ r' ∈ s.db.db.reservations.rows, r.Settled r') ∧
      ∀ o ∈ ev.before.db.orders.rows, ∃ o' ∈ s.db.db.orders.rows, o.Settled o' ∧
        s.db.db.itemsOf o.id = ev.before.db.itemsOf o.id := by
  have hexec : ((ShopWorld.start paidActors).exec shopStore (fun _ _ => true)
      (turns [(0, 6), (1, 6), (2, 9), (3, 7)])).any (fun x =>
        x.2.db.db.orders.rows.map (·.status) = [.paid]) := by decide +kernel
  obtain ⟨evs, s, hrun, hpaid⟩ := Run.of_exec_any (fun _ _ _ => trivial) hexec
  exact ⟨evs, s, hrun, of_decide_eq_true hpaid, stays_stored hrun⟩

end FairDrop
