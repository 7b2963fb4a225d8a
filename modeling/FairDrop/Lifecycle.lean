import FairDrop.Commits

/-!
# FairDrop.Lifecycle

What can happen to one reservation and to one order.  A row that has left
`PENDING` never changes again: no operation checks this on both rows, it
follows from the coupling.
-/

namespace FairDrop

open RowStore

/-! ## Row steps -/

/-- `r'` is what a reservation `r` can become. -/
structure Reservation.Step (r r' : Reservation) : Prop where
  id : r'.id = r.id
  userId : r'.userId = r.userId
  productId : r'.productId = r.productId
  qtyReserved : r'.qtyReserved = r.qtyReserved
  idempotencyKey : r'.idempotencyKey = r.idempotencyKey
  settled : r.status ≠ .pending → r' = r
  link : ∀ id, r.orderId = some id → r'.orderId = some id

theorem Reservation.Step.refl (r : Reservation) : r.Step r :=
  ⟨rfl, rfl, rfl, rfl, rfl, fun _ => rfl, fun _ h => h⟩

theorem Reservation.Step.trans {r₁ r₂ r₃ : Reservation} (h₁ : r₁.Step r₂) (h₂ : r₂.Step r₃) :
    r₁.Step r₃ where
  id := h₂.id.trans h₁.id
  userId := h₂.userId.trans h₁.userId
  productId := h₂.productId.trans h₁.productId
  qtyReserved := h₂.qtyReserved.trans h₁.qtyReserved
  idempotencyKey := h₂.idempotencyKey.trans h₁.idempotencyKey
  settled := by
    intro hs
    have heq := h₁.settled hs
    rw [heq] at h₂
    exact h₂.settled hs
  link := fun id hid => h₂.link id (h₁.link id hid)

/-- A pending reservation may take any status. -/
theorem Reservation.Step.setStatus {r : Reservation} (h : r.status = .pending) (s : OrderStatus) :
    r.Step { r with status := s } :=
  ⟨rfl, rfl, rfl, rfl, rfl, fun hs => absurd h hs, fun _ hid => hid⟩

/-- `o'` is what an order `o` can become. -/
structure Order.Step (o o' : Order) : Prop where
  id : o'.id = o.id
  userId : o'.userId = o.userId
  totalAmount : o'.totalAmount = o.totalAmount
  settled : o.status ≠ .pending → o' = o

theorem Order.Step.refl (o : Order) : o.Step o := ⟨rfl, rfl, rfl, fun _ => rfl⟩

theorem Order.Step.trans {o₁ o₂ o₃ : Order} (h₁ : o₁.Step o₂) (h₂ : o₂.Step o₃) : o₁.Step o₃ where
  id := h₂.id.trans h₁.id
  userId := h₂.userId.trans h₁.userId
  totalAmount := h₂.totalAmount.trans h₁.totalAmount
  settled := by
    intro hs
    have heq := h₁.settled hs
    rw [heq] at h₂
    exact h₂.settled hs

/-! ## The coupled statuses -/

namespace Coupled

variable {d : Db} {r : Reservation} {o : Order}

/-- The reservation of a pending order is pending. -/
theorem pending_of_order (h : Coupled d) (hr : r ∈ d.reservations.rows)
    (ho : d.orders.get o.id = some o) (hlink : r.orderId = some o.id) (hs : o.status = .pending) :
    r.status = .pending := by
  obtain ⟨i, horder⟩ := h.orderOf hr ho hlink
  exact StatusPair.of_pending_order (hs ▸ horder.status)

/-- The order of a pending reservation is pending. -/
theorem pending_of_reservation (h : Coupled d) (hr : r ∈ d.reservations.rows)
    (ho : d.orders.get o.id = some o) (hlink : r.orderId = some o.id) (hs : r.status = .pending) :
    o.status = .pending := by
  obtain ⟨i, horder⟩ := h.orderOf hr ho hlink
  exact StatusPair.of_pending_reservation (hs ▸ horder.status)

/-- The reservation of a paid order is completed. -/
theorem completed_of_paid (h : Coupled d) (hr : r ∈ d.reservations.rows)
    (ho : d.orders.get o.id = some o) (hlink : r.orderId = some o.id) (hs : o.status = .paid) :
    r.status = .completed := by
  obtain ⟨i, horder⟩ := h.orderOf hr ho hlink
  exact StatusPair.of_paid_order (hs ▸ horder.status)

end Coupled

/-! ## Every operation makes row steps -/

section
variable {env : Env} {alone : Bool} {c : Call} {d d' : Db}

/-- What an operation does to the table of reservations. -/
theorem Change.reservations_cases (h : Coupled d) (hc : Change env alone d c d') :
    d'.reservations = d.reservations ∨
      (∃ r r', d.reservations.get r.id = some r ∧ r.Step r' ∧
        d'.reservations = d.reservations.set r') ∨
      ∃ userId key data hnew, c = .reserveItems userId key data ∧
        d'.reservations = d.reservations.insert (newReservation env userId key data) hnew := by
  cases hc with
  | createProduct | updateProduct | moderate => exact .inl rfl
  | reserveItems p q hget hq hkey hnew => exact .inr (.inr ⟨_, _, _, hnew, rfl, rfl⟩)
  | createOrder r p o i stored hget howner hstatus hdue hlink =>
      have hid : r.id = _ := Table.key_of_get hget
      have hstep : r.Step { r with orderId := some o.id } := by
        refine ⟨rfl, rfl, rfl, rfl, rfl, fun hs => absurd hstatus hs, ?_⟩
        intro orderId horder
        rw [hlink] at horder
        contradiction
      exact .inr (.inl ⟨r, _, hid ▸ hget, hstep, rfl⟩)
  | confirmOrderPayment o r items hget howner hstatus hr hlink =>
      have hoid : o.id = _ := Table.key_of_get hget
      have hpending := h.pending_of_order hr (hoid ▸ hget) (hoid ▸ hlink) hstatus
      exact .inr (.inl ⟨r, _, Table.get_of_mem hr, .setStatus hpending _, rfl⟩)
  | cancelOrder o r products items hget howner hstatus hr hlink =>
      have hoid : o.id = _ := Table.key_of_get hget
      have hpending := h.pending_of_order hr (hoid ▸ hget) (hoid ▸ hlink) hstatus
      exact .inr (.inl ⟨r, _, Table.get_of_mem hr, .setStatus hpending _, rfl⟩)
  | releaseReservation r products orders hget hstatus =>
      have hid : r.id = _ := Table.key_of_get hget
      exact .inr (.inl ⟨r, _, hid ▸ hget, .setStatus hstatus _, rfl⟩)

/-- An update of one reservation is a step of every reservation. -/
theorem reservation_step_set {a b : Reservation} (hget : d.reservations.get a.id = some a)
    (hstep : a.Step b) {r : Reservation} {id : Uuid} (hr : d.reservations.get id = some r) :
    ∃ r', (d.reservations.set b).get id = some r' ∧ r.Step r' := by
  cases Table.get_set_cases hget hstep.id hr with
  | inl h =>
      obtain ⟨rfl, hb⟩ := h
      exact ⟨b, hb, hstep⟩
  | inr hkept => exact ⟨r, hkept, .refl r⟩

/-- Every change of a service is a step of every reservation. -/
theorem Change.reservation_step (h : Coupled d) (hc : Change env alone d c d') {id : Uuid}
    {r : Reservation} (hr : d.reservations.get id = some r) :
    ∃ r', d'.reservations.get id = some r' ∧ r.Step r' := by
  obtain hsame | ⟨a, b, ha, hstep, hset⟩ | ⟨userId, key, data, hnew, _, hadd⟩ :=
    hc.reservations_cases h
  · exact ⟨r, hsame ▸ hr, .refl r⟩
  · rw [hset]
    exact reservation_step_set ha hstep hr
  · refine ⟨r, ?_, .refl r⟩
    rw [hadd]
    exact Table.get_insert_of_get hnew hr

/-- A release is a step of every reservation. -/
theorem Release.reservation_step {exact : Prop} {resId : Uuid} (hc : Release exact env d resId d')
    {id : Uuid} {r : Reservation} (hr : d.reservations.get id = some r) :
    ∃ r', d'.reservations.get id = some r' ∧ r.Step r' := by
  obtain ⟨a, p, q, orders, hget, hstatus⟩ := hc
  have hid : a.id = resId := Table.key_of_get hget
  exact reservation_step_set (hid ▸ hget) (.setStatus hstatus _) hr

/-- A pending order that moves is a step of every order. -/
theorem order_step_move {o₀ : Order} {status : OrderStatus} {now : Timestamp}
    (hget : d.orders.get o₀.id = some o₀) (hpending : o₀.status = .pending) {o : Order} {id : Uuid}
    (ho : d.orders.get id = some o) :
    ∃ o', (d.orders.set (o₀.move status now)).get id = some o' ∧ o.Step o' := by
  cases Table.get_set_cases hget (o₀.id_move status now) ho with
  | inl h =>
      obtain ⟨rfl, hmoved⟩ := h
      refine ⟨_, hmoved, by simp, by simp, by simp, ?_⟩
      intro hs
      exact absurd hpending hs
  | inr hkept => exact ⟨o, hkept, .refl o⟩

/-- Cancelling the linked order is a step of every order. -/
theorem CancelsLinked.order_step (h : Coupled d) {r : Reservation} {orders : Table Order} {resId : Uuid}
    (hget : d.reservations.get resId = some r) (hstatus : r.status = .pending)
    (horders : CancelsLinked env d r orders) {o : Order} {id : Uuid}
    (ho : d.orders.get id = some o) : ∃ o', orders.get id = some o' ∧ o.Step o' := by
  unfold CancelsLinked at horders
  split at horders
  · subst horders
    exact ⟨o, ho, .refl o⟩
  · next orderId hlink =>
      obtain ⟨o₀, ho₀, rfl⟩ := horders
      have hid : o₀.id = orderId := Table.key_of_get ho₀
      have hpending := h.pending_of_reservation (Table.mem_of_get hget) (hid ▸ ho₀) (hid ▸ hlink)
        hstatus
      exact order_step_move (hid ▸ ho₀) hpending ho

/-- A release is a step of every order. -/
theorem Release.order_step {exact : Prop} {resId : Uuid} (h : Coupled d)
    (hc : Release exact env d resId d') {id : Uuid} {o : Order} (ho : d.orders.get id = some o) :
    ∃ o', d'.orders.get id = some o' ∧ o.Step o' := by
  obtain ⟨r, p, q, orders, hget, hstatus, _, _, horders⟩ := hc
  exact horders.order_step h hget hstatus ho

/-- Every change of a service is a step of every order. -/
theorem Change.order_step (h : Coupled d) (hc : Change env alone d c d') {id : Uuid} {o : Order}
    (ho : d.orders.get id = some o) : ∃ o', d'.orders.get id = some o' ∧ o.Step o' := by
  cases hc with
  | createProduct | updateProduct | moderate | reserveItems => exact ⟨o, ho, .refl o⟩
  | createOrder r p o₀ i stored hget howner hstatus hdue hlink hread hp hnew =>
      have hkept : (d.orders.insert o₀ hnew).get id = some o := Table.get_insert_of_get hnew ho
      exact ⟨o, hkept, .refl o⟩
  | confirmOrderPayment o₀ r items hget howner hstatus =>
      have hid : o₀.id = _ := Table.key_of_get hget
      exact order_step_move (hid ▸ hget) hstatus ho
  | cancelOrder o₀ r products items hget howner hstatus =>
      have hid : o₀.id = _ := Table.key_of_get hget
      exact order_step_move (hid ▸ hget) hstatus ho
  | releaseReservation r products orders hget hstatus hstock horders =>
      exact horders.order_step h hget hstatus ho

end

/-! ## Runs -/

/-- A run is a step of every reservation. -/
theorem reservation_run {d : Db} (h : Coupled d) (qs : List Request) {id : Uuid} {r : Reservation}
    (hr : d.reservations.get id = some r) :
    ∃ r', (run d qs).reservations.get id = some r' ∧ r.Step r' := by
  induction qs generalizing d r with
  | nil => exact ⟨r, hr, .refl r⟩
  | cons q qs ih =>
      have hstep : ∃ r', (step d q).reservations.get id = some r' ∧ r.Step r' := by
        cases step_cases q h with
        | inl heq => rw [heq]; exact ⟨r, hr, .refl r⟩
        | inr hchange => exact hchange.reservation_step h hr
      obtain ⟨r₁, hr₁, h₁⟩ := hstep
      obtain ⟨r₂, hr₂, h₂⟩ := ih (coupled_step q h) hr₁
      exact ⟨r₂, hr₂, h₁.trans h₂⟩

/-- A run is a step of every order. -/
theorem order_run {d : Db} (h : Coupled d) (qs : List Request) {id : Uuid} {o : Order}
    (ho : d.orders.get id = some o) : ∃ o', (run d qs).orders.get id = some o' ∧ o.Step o' := by
  induction qs generalizing d o with
  | nil => exact ⟨o, ho, .refl o⟩
  | cons q qs ih =>
      have hstep : ∃ o', (step d q).orders.get id = some o' ∧ o.Step o' := by
        cases step_cases q h with
        | inl heq => rw [heq]; exact ⟨o, ho, .refl o⟩
        | inr hchange => exact hchange.order_step h ho
      obtain ⟨o₁, ho₁, h₁⟩ := hstep
      obtain ⟨o₂, ho₂, h₂⟩ := ih (coupled_step q h) ho₁
      exact ⟨o₂, ho₂, h₁.trans h₂⟩

/-- **Reservations and orders stay in step**: in every reachable state each
order belongs to exactly one reservation, with the same user, one item of the
reserved units, the exact total and a matching status; a reservation without an
order is pending or expired; and a paid order stays paid, its units sold,
whatever is run later. -/
theorem orders_match_reservations (qs : List Request) :
    (∀ o ∈ (run .empty qs).orders.rows, ∃ r ∈ (run .empty qs).reservations.rows,
      (∃ i, OrderOf (run .empty qs) r o i) ∧
        ∀ r' ∈ (run .empty qs).reservations.rows, r'.orderId = some o.id → r' = r) ∧
    (∀ r ∈ (run .empty qs).reservations.rows, r.orderId = none →
      r.status = .pending ∨ r.status = .expired) ∧
    ∀ o ∈ (run .empty qs).orders.rows, o.status = .paid → ∀ qs',
      (run .empty (qs ++ qs')).orders.get o.id = some o ∧
        ∃ r ∈ (run .empty (qs ++ qs')).reservations.rows,
          r.orderId = some o.id ∧ r.status = .completed := by
  have h := coupled_run qs
  refine ⟨?_, h.unlinked, ?_⟩
  · intro o ho
    obtain ⟨r, hr, hlink⟩ := h.referenced o ho
    have horder := h.orderOf hr (Table.get_of_mem ho) hlink
    exact ⟨r, hr, horder, fun r' hr' hlink' => h.injective r' hr' r hr o.id hlink' hlink⟩
  · intro o ho hpaid qs'
    rw [run_append]
    obtain ⟨r, hr, hlink⟩ := h.referenced o ho
    have hdone := h.completed_of_paid hr (Table.get_of_mem ho) hlink hpaid
    obtain ⟨o', ho', hostep⟩ := order_run h qs' (Table.get_of_mem ho)
    obtain ⟨r', hr', hrstep⟩ := reservation_run h qs' (Table.get_of_mem hr)
    have hsameo : o' = o := hostep.settled (by rw [hpaid]; decide)
    have hsamer : r' = r := hrstep.settled (by rw [hdone]; decide)
    subst hsameo hsamer
    exact ⟨ho', r', Table.mem_of_get hr', hlink, hdone⟩

end FairDrop
