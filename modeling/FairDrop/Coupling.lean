import FairDrop.Changes

/-!
# FairDrop.Coupling

The invariant that ties reservations and orders together.  Payment and
cancellation look at the status of the order only, the sweep at that of the
reservation only, and each writes both rows; that this is safe is what
`Coupled` says, and `Change.coupled` proves that every operation keeps it.
-/

namespace FairDrop

open RowStore

/-! ## The invariant -/

/-- The statuses that a reservation and its order can have together. -/
inductive StatusPair : OrderStatus → OrderStatus → Prop
  | pending : StatusPair .pending .pending
  | paid : StatusPair .completed .paid
  | cancelled : StatusPair .cancelled .cancelled
  | expired : StatusPair .expired .cancelled

theorem StatusPair.of_pending_order {s : OrderStatus} (h : StatusPair s .pending) : s = .pending := by
  cases h
  rfl

theorem StatusPair.of_pending_reservation {s : OrderStatus} (h : StatusPair .pending s) :
    s = .pending := by
  cases h
  rfl

theorem StatusPair.of_paid_order {s : OrderStatus} (h : StatusPair s .paid) : s = .completed := by
  cases h
  rfl

/-- `o` is the order of `r`, and `i` its only item. -/
structure OrderOf (d : Db) (r : Reservation) (o : Order) (i : OrderItem) : Prop where
  stored : d.orders.get o.id = some o
  link : r.orderId = some o.id
  userId : o.userId = r.userId
  items : (d.orderItems.rows.filter fun i => i.orderId = o.id) = [i]
  productId : i.productId = r.productId
  quantity : i.quantity = r.qtyReserved
  total : o.totalAmount.val = i.price.val * i.quantity
  status : StatusPair r.status o.status

structure Coupled (d : Db) : Prop where
  product : ∀ r ∈ d.reservations.rows, (d.products.get r.productId).isSome
  positive : ∀ r ∈ d.reservations.rows, 0 < r.qtyReserved
  key : ∀ r ∈ d.reservations.rows, ∀ r' ∈ d.reservations.rows,
    r.idempotencyKey = r'.idempotencyKey → r = r'
  unlinked : ∀ r ∈ d.reservations.rows, r.orderId = none → r.status = .pending ∨ r.status = .expired
  linked : ∀ r ∈ d.reservations.rows, ∀ id, r.orderId = some id → ∃ o i, o.id = id ∧ OrderOf d r o i
  referenced : ∀ o ∈ d.orders.rows, ∃ r ∈ d.reservations.rows, r.orderId = some o.id
  injective : ∀ r ∈ d.reservations.rows, ∀ r' ∈ d.reservations.rows, ∀ id,
    r.orderId = some id → r'.orderId = some id → r = r'
  owned : ∀ i ∈ d.orderItems.rows, (d.orders.get i.orderId).isSome

theorem coupled_empty : Coupled .empty := by
  constructor <;> simp [Db.empty]

namespace Coupled

variable {d : Db} {env : Env}

/-- The order of a linked reservation. -/
theorem orderOf (h : Coupled d) {r : Reservation} {o : Order} (hr : r ∈ d.reservations.rows)
    (ho : d.orders.get o.id = some o) (hlink : r.orderId = some o.id) : ∃ i, OrderOf d r o i := by
  obtain ⟨o', i, hid, horder⟩ := h.linked r hr o.id hlink
  have heq : o' = o := by
    have hstored := horder.stored
    rw [hid, ho] at hstored
    exact (Option.some.inj hstored).symm
  exact ⟨i, heq ▸ horder⟩

/-! ## Steps that keep it -/

/-- Products may change as long as none disappears; the log does not matter. -/
theorem congr_products (h : Coupled d) {products : Table Product} {logs : List AuditLog}
    (hp : ∀ id, (d.products.get id).isSome → (products.get id).isSome) :
    Coupled { d with products := products, auditLogs := logs } where
  product := fun r hr => hp r.productId (h.product r hr)
  positive := h.positive
  key := h.key
  unlinked := h.unlinked
  linked := by
    intro r hr id hid
    obtain ⟨o, i, ho, horder⟩ := h.linked r hr id hid
    exact ⟨o, i, ho, { horder with }⟩
  referenced := h.referenced
  injective := h.injective
  owned := h.owned

/-- A new reservation has no order yet. -/
theorem reserve (h : Coupled d) {r : Reservation} (hnew : d.reservations.get r.id = none)
    (hproduct : (d.products.get r.productId).isSome) (hpos : 0 < r.qtyReserved)
    (hkey : ∀ r' ∈ d.reservations.rows, r'.idempotencyKey ≠ r.idempotencyKey)
    (hlink : r.orderId = none) (hstatus : r.status = .pending) :
    Coupled { d with reservations := d.reservations.insert r hnew } := by
  have hmem : ∀ x, x ∈ (d.reservations.insert r hnew).rows ↔ x ∈ d.reservations.rows ∨ x = r :=
    fun x => Table.mem_insert hnew
  constructor
  case product =>
    intro x hx
    cases (hmem x).mp hx with
    | inl hx => exact h.product x hx
    | inr hx => exact hx ▸ hproduct
  case positive =>
    intro x hx
    cases (hmem x).mp hx with
    | inl hx => exact h.positive x hx
    | inr hx => exact hx ▸ hpos
  case key =>
    intro x hx y hy hxy
    cases (hmem x).mp hx with
    | inl hx =>
        cases (hmem y).mp hy with
        | inl hy => exact h.key x hx y hy hxy
        | inr hy => exact absurd (hy ▸ hxy) (hkey x hx)
    | inr hx =>
        cases (hmem y).mp hy with
        | inl hy => exact absurd (hx ▸ hxy.symm) (hkey y hy)
        | inr hy => rw [hx, hy]
  case unlinked =>
    intro x hx hnone
    cases (hmem x).mp hx with
    | inl hx => exact h.unlinked x hx hnone
    | inr hx => exact .inl (hx ▸ hstatus)
  case linked =>
    intro x hx id hid
    cases (hmem x).mp hx with
    | inl hx =>
        obtain ⟨o, i, ho, horder⟩ := h.linked x hx id hid
        exact ⟨o, i, ho, { horder with }⟩
    | inr hx => simp [hx, hlink] at hid
  case referenced =>
    intro o ho
    obtain ⟨x, hx, hid⟩ := h.referenced o ho
    exact ⟨x, (hmem x).mpr (.inl hx), hid⟩
  case injective =>
    intro x hx y hy id hxid hyid
    cases (hmem x).mp hx with
    | inl hx =>
        cases (hmem y).mp hy with
        | inl hy => exact h.injective x hx y hy id hxid hyid
        | inr hy => simp [hy, hlink] at hyid
    | inr hx => simp [hx, hlink] at hxid
  case owned => exact h.owned

/-- A rewritten reservation keeps the columns that the invariant reads of every row
by itself. -/
theorem rewritten (h : Coupled d) {r : Reservation} (r' : Reservation)
    (hr : d.reservations.get r.id = some r)
    (hsame : r' = { r with status := r'.status, orderId := r'.orderId }) :
    (∀ x ∈ (d.reservations.set r').rows, (d.products.get x.productId).isSome) ∧
      (∀ x ∈ (d.reservations.set r').rows, 0 < x.qtyReserved) ∧
        ∀ x ∈ (d.reservations.set r').rows, ∀ y ∈ (d.reservations.set r').rows,
          x.idempotencyKey = y.idempotencyKey → x = y := by
  have hcounterpart : ∀ x ∈ (d.reservations.set r').rows, ∃ y ∈ d.reservations.rows,
      x = { y with status := x.status, orderId := x.orderId } := by
    intro x hx
    cases Table.mem_set hx with
    | inl hx => exact ⟨r, Table.mem_of_get hr, hx ▸ hsame⟩
    | inr hx => exact ⟨x, hx.1, rfl⟩
  refine ⟨?_, ?_, ?_⟩
  · intro x hx
    obtain ⟨y, hy, hxy⟩ := hcounterpart x hx
    rw [hxy]
    exact h.product y hy
  · intro x hx
    obtain ⟨y, hy, hxy⟩ := hcounterpart x hx
    rw [hxy]
    exact h.positive y hy
  · intro x hx x' hx' hkey
    obtain ⟨y, hy, hxy⟩ := hcounterpart x hx
    obtain ⟨y', hy', hxy'⟩ := hcounterpart x' hx'
    rw [hxy, hxy'] at hkey
    have hyy' : y = y' := h.key y hy y' hy' hkey
    apply Table.eq_of_key _ hx hx'
    rw [key_reservation, key_reservation, hxy, hxy', hyy']

/-- An order that does not exist has no reservation. -/
theorem unused (h : Coupled d) {id : Uuid} (ho : d.orders.get id = none) :
    ∀ x ∈ d.reservations.rows, x.orderId ≠ some id := by
  intro x hx hid
  obtain ⟨o, _, rfl, horder⟩ := h.linked x hx id hid
  rw [horder.stored] at ho
  contradiction

/-- An order that does not exist has no items. -/
theorem noItems (h : Coupled d) {id : Uuid} (ho : d.orders.get id = none) :
    (d.orderItems.rows.filter fun i => i.orderId = id) = [] := by
  rw [List.filter_eq_nil_iff]
  intro x hx hid
  have hsome := h.owned x hx
  rw [decide_eq_true_eq.mp hid, ho] at hsome
  contradiction

/-- A new order for a pending reservation without one. -/
theorem order (h : Coupled d) {r : Reservation} {o : Order} {i : OrderItem}
    (hr : d.reservations.get r.id = some r) (hstatus : r.status = .pending)
    (hlink : r.orderId = none) (ho : d.orders.get o.id = none) (hi : d.orderItems.get i.id = none)
    (huser : o.userId = r.userId) (hostatus : o.status = .pending) (hitem : i.orderId = o.id)
    (hproduct : i.productId = r.productId) (hqty : i.quantity = r.qtyReserved)
    (htotal : o.totalAmount.val = i.price.val * i.quantity) :
    Coupled { d with
      reservations := d.reservations.set { r with orderId := some o.id }
      orders := d.orders.insert o ho
      orderItems := d.orderItems.insert i hi } := by
  have hmem : ∀ x, x ∈ (d.reservations.set { r with orderId := some o.id }).rows ↔
      x = { r with orderId := some o.id } ∨ (x ∈ d.reservations.rows ∧ x.id ≠ r.id) :=
    fun x => Table.mem_set_iff hr
  have hrmem : r ∈ d.reservations.rows := Table.mem_of_get hr
  have hunused := h.unused ho
  have hempty := h.noItems ho
  obtain ⟨hproducts, hpositive, hkeys⟩ := h.rewritten { r with orderId := some o.id } hr rfl
  have hmemo : ∀ x, x ∈ (d.orders.insert o ho).rows ↔ x ∈ d.orders.rows ∨ x = o :=
    fun x => Table.mem_insert ho
  constructor
  case product => exact hproducts
  case positive => exact hpositive
  case key => exact hkeys
  case unlinked =>
    intro x hx hnone
    cases (hmem x).mp hx with
    | inl hx => simp [hx] at hnone
    | inr hx => exact h.unlinked x hx.1 hnone
  case linked =>
    intro x hx id hid
    cases (hmem x).mp hx with
    | inl hx =>
        have hid : o.id = id := by simpa [hx] using hid
        refine ⟨o, i, hid, ?_⟩
        rw [hx]
        exact {
          stored := Table.get_of_mem ((hmemo o).mpr (.inr rfl))
          link := rfl
          userId := huser
          items := by simp [Table.insert, List.filter_append, hempty, hitem]
          productId := hproduct
          quantity := hqty
          total := htotal
          status := by
            rw [hostatus]
            exact hstatus ▸ .pending }
    | inr hx =>
        obtain ⟨o', i', ho', horder⟩ := h.linked x hx.1 id hid
        have hne : o.id ≠ o'.id := by
          intro heq
          exact hunused x hx.1 (by rw [hid, ← ho', heq])
        refine ⟨o', i', ho', { horder with stored := ?_, items := ?_ }⟩
        · exact Table.get_insert_of_get ho horder.stored
        · have hitems := horder.items
          simp [Table.insert, List.filter_append, hitem, hne, hitems]
  case referenced =>
    intro x hx
    cases (hmemo x).mp hx with
    | inl hx =>
        obtain ⟨y, hy, hid⟩ := h.referenced x hx
        refine ⟨y, (hmem y).mpr (.inr ⟨hy, ?_⟩), hid⟩
        intro heq
        have hyr : y = r := d.reservations.eq_of_key hy hrmem heq
        rw [hyr, hlink] at hid
        contradiction
    | inr hx => exact ⟨_, (hmem _).mpr (.inl rfl), by rw [hx]⟩
  case injective =>
    intro x hx y hy id hxid hyid
    cases (hmem x).mp hx with
    | inl hx =>
        cases (hmem y).mp hy with
        | inl hy => rw [hx, hy]
        | inr hy =>
            have hid : o.id = id := by simpa [hx] using hxid
            exact absurd (hid ▸ hyid) (hunused y hy.1)
    | inr hx =>
        cases (hmem y).mp hy with
        | inl hy =>
            have hid : o.id = id := by simpa [hy] using hyid
            exact absurd (hid ▸ hxid) (hunused x hx.1)
        | inr hy => exact h.injective x hx.1 y hy.1 id hxid hyid
  case owned =>
    intro x hx
    cases (Table.mem_insert hi).mp hx with
    | inl hx =>
        obtain ⟨o', ho'⟩ := Option.isSome_iff_exists.mp (h.owned x hx)
        have hkept : (d.orders.insert o ho).get x.orderId = some o' :=
          Table.get_insert_of_get ho ho'
        exact Option.isSome_iff_exists.mpr ⟨o', hkept⟩
    | inr hx =>
        have hget : (d.orders.insert o ho).get o.id = some o :=
          Table.get_of_mem ((hmemo o).mpr (.inr rfl))
        change ((d.orders.insert o ho).get x.orderId).isSome
        rw [hx, hitem, hget]
        rfl

/-- A reservation leaves `PENDING` together with its order. -/
theorem settle (h : Coupled d) {r : Reservation} {s : OrderStatus} {orders : Table Order}
    (hr : r ∈ d.reservations.rows)
    (horders : (r.orderId = none ∧ s = .expired ∧ orders = d.orders) ∨
      ∃ o s' now, d.orders.get o.id = some o ∧ r.orderId = some o.id ∧ StatusPair s s' ∧
        orders = d.orders.set (o.move s' now)) :
    Coupled { d with
      reservations := d.reservations.set { r with status := s }
      orders := orders } := by
  have hget : d.reservations.get r.id = some r := Table.get_of_mem hr
  have hmem : ∀ x, x ∈ (d.reservations.set { r with status := s }).rows ↔
      x = { r with status := s } ∨ (x ∈ d.reservations.rows ∧ x.id ≠ r.id) :=
    fun x => Table.mem_set_iff hget
  -- Each row has a counterpart that differs in the status at most.
  have hold : ∀ x ∈ (d.reservations.set { r with status := s }).rows,
      ∃ y ∈ d.reservations.rows, y.id = x.id ∧ x = { y with status := x.status } := by
    intro x hx
    cases (hmem x).mp hx with
    | inl hx => exact ⟨r, hr, by rw [hx], by rw [hx]⟩
    | inr hx => exact ⟨x, hx.1, rfl, rfl⟩
  have hsame : ∀ x ∈ (d.reservations.set { r with status := s }).rows,
      ∀ y ∈ (d.reservations.set { r with status := s }).rows, x.id = y.id → x = y :=
    fun x hx y hy hxy => Table.eq_of_key _ hx hy hxy
  have hisSome : ∀ id, (orders.get id).isSome = (d.orders.get id).isSome := by
    intro id
    rcases horders with ⟨_, _, rfl⟩ | ⟨o, s', now, _, _, _, rfl⟩
    · rfl
    · exact Table.isSome_get_set
  obtain ⟨hproducts, hpositive, hkeys⟩ := h.rewritten { r with status := s } hget rfl
  constructor
  case product => exact hproducts
  case positive => exact hpositive
  case key => exact hkeys
  case unlinked =>
    intro x hx hnone
    cases (hmem x).mp hx with
    | inl hx =>
        rcases horders with ⟨_, hs, _⟩ | ⟨o, _, _, _, hlink, _⟩
        · exact .inr (by rw [hx, hs])
        · rw [hx] at hnone
          exact absurd (hlink.symm.trans hnone) (by simp)
    | inr hx => exact h.unlinked x hx.1 hnone
  case linked =>
    intro x hmemx id hid
    cases (hmem x).mp hmemx with
    | inl hx =>
        rcases horders with ⟨hnone, _⟩ | ⟨o, s', now, ho, hlink, hpair, rfl⟩
        · rw [hx] at hid
          exact absurd (hnone.symm.trans hid) (by simp)
        · obtain ⟨i, horder⟩ := h.orderOf hr ho hlink
          have hidr : o.id = id := by
            rw [hx] at hid
            exact Option.some.inj (hlink.symm.trans hid)
          refine ⟨o.move s' now, i, by simp [hidr], ?_⟩
          rw [hx]
          exact {
            stored := Table.get_set_self (x := o) (by simpa using ho)
            link := by simpa using hlink
            userId := by simpa using horder.userId
            items := by simpa using horder.items
            productId := horder.productId
            quantity := horder.quantity
            total := by simpa using horder.total
            status := by simpa using hpair }
    | inr hx =>
        obtain ⟨o', i', ho', horder⟩ := h.linked x hx.1 id hid
        refine ⟨o', i', ho', { horder with stored := ?_ }⟩
        rcases horders with ⟨_, _, rfl⟩ | ⟨o, s', now, ho, hlink, _, rfl⟩
        · exact horder.stored
        · have hne : Keyed.key (o.move s' now) ≠ o'.id := by
            intro heq
            have hlink' : r.orderId = some id := by
              rw [hlink, ← ho', ← heq, key_order, Order.id_move]
            have hxr := h.injective x hx.1 r hr id hid hlink'
            exact hx.2 (congrArg Reservation.id hxr)
          rw [Table.get_set_ne hne]
          exact horder.stored
  case referenced =>
    have hfind : ∀ id, (∃ y ∈ d.reservations.rows, y.orderId = some id) →
        ∃ x ∈ (d.reservations.set { r with status := s }).rows, x.orderId = some id := by
      rintro id ⟨y, hy, hid⟩
      by_cases hyr : y.id = r.id
      · have heq : y = r := d.reservations.eq_of_key hy hr hyr
        exact ⟨_, (hmem _).mpr (.inl rfl), by rw [← hid, heq]⟩
      · exact ⟨y, (hmem y).mpr (.inr ⟨hy, hyr⟩), hid⟩
    intro x hx
    rcases horders with ⟨_, _, rfl⟩ | ⟨o, s', now, ho, _, _, rfl⟩
    · exact hfind x.id (h.referenced x hx)
    · cases Table.mem_set hx with
      | inl hx =>
          rw [hx, Order.id_move]
          exact hfind o.id (h.referenced o (Table.mem_of_get ho))
      | inr hx => exact hfind x.id (h.referenced x hx.1)
  case injective =>
    intro x hx x' hx' id hid hid'
    obtain ⟨y, hy, hyid, hxy⟩ := hold x hx
    obtain ⟨y', hy', hyid', hxy'⟩ := hold x' hx'
    have heq : y = y' := by
      apply h.injective y hy y' hy' id
      · rw [hxy] at hid
        exact hid
      · rw [hxy'] at hid'
        exact hid'
    exact hsame x hx x' hx' (by rw [← hyid, ← hyid', heq])
  case owned =>
    intro i hi
    change (orders.get i.orderId).isSome
    rw [hisSome]
    exact h.owned i hi

/-- The sweep expires a reservation and cancels its order, whatever it does to
the stock. -/
theorem release (h : Coupled d) {r : Reservation} {orders : Table Order}
    (hr : r ∈ d.reservations.rows) (horders : CancelsLinked env d r orders)
    {products : Table Product}
    (hp : ∀ id, (d.products.get id).isSome → (products.get id).isSome) :
    Coupled { d with
      products := products
      reservations := d.reservations.set { r with status := .expired }
      orders := orders } := by
  have hcancel : (r.orderId = none ∧ OrderStatus.expired = .expired ∧ orders = d.orders) ∨
      ∃ o s' now, d.orders.get o.id = some o ∧ r.orderId = some o.id ∧
        StatusPair .expired s' ∧ orders = d.orders.set (o.move s' now) := by
    unfold CancelsLinked at horders
    split at horders
    · next hnone => exact .inl ⟨hnone, rfl, horders⟩
    · next id hid =>
        obtain ⟨o, ho, rfl⟩ := horders
        have hoid : o.id = id := Table.key_of_get ho
        exact .inr ⟨o, .cancelled, env.now, hoid ▸ ho, hoid ▸ hid, .expired, rfl⟩
  exact (h.settle hr hcancel).congr_products hp

end Coupled

/-! ## Every operation keeps it -/

/-- Restocking rewrites one product row. -/
theorem Restocks.isSome {env : Env} {d : Db} {r : Reservation} {products : Table Product}
    (h : Restocks env d r products) (id : Uuid) :
    (products.get id).isSome = (d.products.get id).isSome := by
  obtain ⟨p, q, _, _, rfl⟩ := h
  exact Table.isSome_get_set

theorem Change.coupled {env : Env} {alone : Bool} {c : Call} {d d' : Db} (h : Coupled d)
    (hc : Change env alone d c d') : Coupled d' := by
  cases hc with
  | createProduct p entry hs hnew =>
      apply h.congr_products
      intro id hid
      rw [Table.get_insert hnew]
      split
      · rfl
      · exact hid
  | updateProduct p p' old entry =>
      apply h.congr_products
      intro id hid
      rw [Table.isSome_get_set]
      exact hid
  | moderate p p' old entry =>
      apply h.congr_products
      intro id hid
      rw [Table.isSome_get_set]
      exact hid
  | @reserveItems userId key data p q hget hq hkey hnew =>
      have hsome : (d.products.get data.productId).isSome := by rw [hget]; rfl
      have hres := h.reserve hnew hsome data.quantity.property hkey rfl rfl
      apply hres.congr_products
      intro id hid
      rw [Table.isSome_get_set]
      exact hid
  | createOrder r p o i stored hget howner hstatus hdue hlink hread hp ho hi hord =>
      have hrid : r.id = _ := Table.key_of_get hget
      have htotal : o.totalAmount.val = i.price.val * i.quantity := by
        rw [hord.totalAmount, hord.price, hord.quantity]
      have horder := h.order (hrid ▸ hget) hstatus hlink ho hi (hord.userId.trans howner.symm)
        hord.status hord.orderId hord.productId hord.quantity htotal
      exact horder.congr_products fun id hid => hid
  | confirmOrderPayment o r items hget howner hstatus hr hlink =>
      have hoid : o.id = _ := Table.key_of_get hget
      have hsettled := h.settle hr
        (.inr ⟨o, .paid, env.now, hoid ▸ hget, hoid ▸ hlink, .paid, rfl⟩)
      exact hsettled.congr_products fun id hid => hid
  | cancelOrder o r products items hget howner hstatus hr hlink hstock =>
      have hoid : o.id = _ := Table.key_of_get hget
      have hsettled := h.settle hr
        (.inr ⟨o, .cancelled, env.now, hoid ▸ hget, hoid ▸ hlink, .cancelled, rfl⟩)
      exact hsettled.congr_products fun id hid => (hstock.isSome id).trans hid
  | releaseReservation r products orders hget hstatus hstock horders =>
      exact h.release (Table.mem_of_get hget) horders fun id hid => (hstock.isSome id).trans hid

theorem Release.coupled {exact : Prop} {env : Env} {d d' : Db} {id : Uuid}
    (hc : Release exact env d id d') (h : Coupled d) : Coupled d' := by
  obtain ⟨r, p, q, orders, hget, _, hp, _, horders⟩ := hc
  have hid : p.id = r.productId := Table.key_of_get hp
  refine h.release (Table.mem_of_get hget) horders fun id hsome => ?_
  rw [Table.isSome_get_set]
  exact hsome

end FairDrop
