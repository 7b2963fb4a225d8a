import FairDrop.Obligations

/-!
# FairDrop.Orders.Commits

The order services meet their obligations.
-/

namespace FairDrop

open RowStore

variable {lt : Uuid → Uuid → Prop} {env : Env} {snap : Option Db}

section
variable {ru : Rules Session Db Row Write} {p : Known Session Db Row RowVal Write}

/-! ## Helpers -/

theorem wp_selectItems {orderId : Uuid}
    {Q : Except Failure (List OrderItem) → Known Session Db Row RowVal Write → Prop}
    (hok : ∀ items, Q (.ok items) p) (herr : Q (.error .operationalError) p.abort) :
    wp store ru (selectItems orderId) p Q := by
  apply wp_bind
  exact wp_select (fun d _ _ => hok _) herr

theorem wp_getOrderForUpdate {orderId : Uuid} {user : User}
    {Q : Except Failure Order → Known Session Db Row RowVal Write → Prop}
    (hok : ∀ x, x.id = orderId → checkOwnership user x.owned = .ok () →
      Q (.ok x) (p.hold (.order orderId) (.order (some x))))
    (hreq : ∀ d, ru.request p.rows d (.order orderId))
    (hfail : ∀ e p', p'.commits = p.commits → Q (.error e) p') :
    wp store ru (getOrderForUpdate orderId user) p Q := by
  apply wp_bind
  apply wp_selectOrderForUpdate
  · intro d hd hi hnone
    exact hfail _ _ rfl
  · intro d x hd hi hx
    refine ⟨hreq d, fun _ => ?_⟩
    apply wp_bind
    refine wp_orNotFound (fun hnone => by contradiction) (fun y hy => ?_)
    obtain rfl := Option.some.inj hy
    apply wp_bind
    apply wp_ofExcept
    cases hcheck : checkOwnership user x.owned with
    | error e => exact hfail _ _ rfl
    | ok u => exact hok x (Table.key_of_get hx) hcheck
  · exact hfail _ _ rfl

end

/-! ## Creation -/

/-- The unit of work of a new order. -/
theorem applyAll_createOrder {d d' : Db} {user : User} {data : OrderCreate} {r : Reservation}
    {p : Product} {entry : Option AuditLog} (hr : d.reservations.get r.id = some r)
    (h : store.applyAll ([.addOrder (newOrder env user data r p) env.now,
      .addOrderItem (newOrderItem env r p), .linkOrder r.id (env.uuid 0)] ++
        entry.toList.map .addAuditLog) d = .ok d') :
    ∃ (o : Order) (i : OrderItem) (ho : d.orders.get o.id = none)
      (hi : d.orderItems.get i.id = none), Ordered env user data r p o i ∧
        d' = { d with
          reservations := d.reservations.set { r with orderId := some o.id }
          orders := d.orders.insert o ho
          orderItems := d.orderItems.insert i hi
          auditLogs := d.auditLogs ++ entry.toList } := by
  simp only [Store.applyAll_append, Store.applyAll_cons, Store.applyAll_nil, applyAll_logs] at h
  obtain ⟨_, ⟨d₁, hadd, d₂, hitem, d₃, hlink, rfl⟩, rfl⟩ := h
  obtain ⟨o, ho, hid, huser, hstatus, htotal, haddress, _, _, rfl⟩ := apply_addOrder.mp hadd
  obtain ⟨i, hi, hiid, horder, hproduct, hname, hqty, hprice, _, _, _, rfl⟩ :=
    apply_addOrderItem.mp hitem
  obtain ⟨r', hr', _, rfl⟩ := apply_linkOrder.mp hlink
  have hsame : r' = r := Option.some.inj (hr'.symm.trans hr)
  have htotal' := Amount.ofDecimal_val htotal
  have hprice' := ItemPrice.ofDecimal_val hprice
  subst hsame
  refine ⟨o, i, ho, hi, ?_, by rw [show o.id = env.uuid 0 from hid]⟩
  exact {
    id := hid
    userId := huser
    status := hstatus
    totalAmount := by simpa [newOrder] using htotal'
    shippingAddress := haddress
    itemId := hiid
    orderId := horder.trans hid.symm
    productId := hproduct
    productName := hname
    quantity := hqty
    price := by simpa [newOrderItem] using hprice' }

theorem wp_createOrder (user : User) (data : OrderCreate) :
    wp store (requestRules lt env (.createOrder user data))
      (createOrderFromReservation env user data) (.start .fresh snap) Finished := by
  apply wp_bind
  apply wp_selectReservationForUpdate
  · intro d hd hi hnone
    exact .failed rfl
  · intro d₀ r hd₀ hi₀ hr₀ hcond
    refine ⟨requestRules_nil d₀ _, fun _ => ?_⟩
    simp only [Bool.decide_and, Bool.and_eq_true, decide_eq_true_eq] at hcond
    have hrid : r.id = data.reservationId := Table.key_of_get hr₀
    apply wp_bind
    refine wp_orNotFound (fun hnone => by contradiction) (fun y hy => ?_)
    obtain rfl := Option.some.inj hy
    apply wp_bind
    refine wp_raiseIf (fun _ => .failed rfl) (fun hdue => ?_)
    apply wp_bind
    refine wp_raiseIf (fun _ => .failed rfl) (fun hlink => ?_)
    have hnolink : r.orderId = none := by simpa using hlink
    apply wp_bind
    refine wp_select (fun d₁ hd₁ _ => ?_) (.failed rfl)
    apply wp_bind
    refine wp_orNotFound (fun _ => .failed rfl) (fun p hp => ?_)
    apply wp_bind
    rw [wp_save]
    apply wp_bind
    rw [wp_save]
    apply wp_bind
    rw [wp_save]
    apply wp_bind
    refine wp_selectItems (fun stored => ?_) (.failed rfl)
    apply wp_bind
    rw [logOrderChange, wp_addLog]
    apply wp_bind
    refine wp_commitWork (fun d d' hd _ happly => ?_) (fun e => .failed rfl)
    have hget : d.reservations.get data.reservationId = some r :=
      get_reservation_of_agrees hd List.mem_cons_self
    obtain ⟨o, i, ho, hi, hord, rfl⟩ := applyAll_createOrder (hrid ▸ hget) happly
    have hread : snap.isSome = true → d.products.get r.productId = some p := by
      intro halone
      obtain ⟨d₂, hsnap⟩ := Option.isSome_iff_exists.mp halone
      rw [hd.2 d₂ hsnap, ← hd₁.2 d₂ hsnap]
      exact hp
    refine ⟨?_, ?_, .done (le_refl _)⟩
    · exact .createOrder r p o i stored hget hcond.1 hcond.2 hdue hnolink (Table.key_of_get hp)
        hread ho hi hord
    · apply frame_writes _ happly
      intro w hw row hrow
      cases List.mem_append.mp (show w ∈ [_, _, _] ++ _ from hw) with
      | inl hw =>
          simp only [List.mem_cons, List.not_mem_nil, or_false] at hw
          rcases hw with rfl | rfl | rfl
          · contradiction
          · contradiction
          · obtain rfl := Option.some.inj hrow
            rw [hrid]
            exact List.mem_cons_self
      | inr hw =>
          obtain ⟨a, _, rfl⟩ := List.mem_map.mp hw
          contradiction
  · exact .failed rfl

/-! ## Payment and cancellation -/

/-- What a payment or a cancellation has written when it turns to the
reservation. -/
def settlingWrites (env : Env) (o : Order) (status : OrderStatus) (entry : Option AuditLog) :
    List Write :=
  .setOrderStatus o.id status env.now :: entry.toList.map .addAuditLog

/-- What it knows then. -/
def settling (env : Env) (snap : Option Db) (o : Order) (status : OrderStatus)
    (entry : Option AuditLog) : Known Session Db Row RowVal Write where
  held := [(.order o.id, .order (some o))]
  pending := settlingWrites env o status entry
  session := .fresh
  snapshot := snap
  commits := 0

/-- The order in hand is the one being settled. -/
theorem holdsSettled_settling {c : Call} {p : Known Session Db Row RowVal Write} {d : Db}
    {o : Order} (hc : c.settles o) (hd : p.Agrees store d)
    (hheld : (.order o.id, .order (some o)) ∈ p.held)
    (honly : ∀ id, .order id ∈ p.rows → id = o.id) : HoldsSettled c.settles p.rows d := by
  intro o' ho' hget
  rw [honly o'.id ho', get_order_of_agrees hd hheld] at hget
  exact Option.some.inj hget ▸ hc

theorem wp_settleOrder {c : Call} {orderId : Uuid} {user : User} {status : OrderStatus}
    {action : String} {settle : Tx Unit}
    (hsettle : ∀ (o : Order) (items : List OrderItem), o.id = orderId →
      checkOwnership user o.owned = .ok () → o.status = .pending →
        wp store (requestRules lt env c) settle
          (settling env snap o status (orderEntry env user ((OrderObj.load o items).moved status)
            (some (.load o items)) action))
          fun r p' => match r with
            | .ok _ => wp store (requestRules lt env c)
                (do Prog.commitWork
                    return (OrderObj.load o items).moved status) p' Finished
            | .error e => Finished (.error e : Except Failure OrderObj) p') :
    wp store (requestRules lt env c) (settleOrder env orderId user status action settle)
      (.start .fresh snap) Finished := by
  apply wp_bind
  refine wp_getOrderForUpdate (fun o hid howner => ?_) (fun d => requestRules_nil d _)
    (fun e p' hp => .failed hp)
  subst hid
  apply wp_bind
  refine wp_raiseIf (fun _ => .failed rfl) (fun hstatus => ?_)
  apply wp_bind
  refine wp_selectItems (fun items => ?_) (.failed rfl)
  apply wp_bind
  rw [wp_save]
  apply wp_bind
  rw [logOrderChange, wp_addLog]
  apply wp_bind
  refine wp_mono (fun x p' hx => ?_) (hsettle o items rfl howner (by simpa using hstatus))
  cases x with
  | ok u => exact hx
  | error e => exact hx

/-- The order and its log entry are written; what follows changes the rest. -/
theorem applyAll_settling {d d' : Db} {o : Order} {status : OrderStatus}
    {entry : Option AuditLog} {ws : List Write} (ho : d.orders.get o.id = some o)
    (h : store.applyAll (settlingWrites env o status entry ++ ws) d = .ok d') :
    store.applyAll ws { d with
      orders := d.orders.set (o.move status env.now)
      auditLogs := d.auditLogs ++ entry.toList } = .ok d' := by
  simp only [settlingWrites, List.cons_append, Store.applyAll_cons, Store.applyAll_append,
    applyAll_logs] at h
  obtain ⟨d₁, hset, _, rfl, hrest⟩ := h
  obtain ⟨o', ho', rfl⟩ := apply_setOrderStatus.mp hset
  have hsame : o' = o := Option.some.inj (ho'.symm.trans ho)
  subst hsame
  exact hrest

/-- The rows that a settlement updates are the order and what it locked since. -/
theorem target_settling {o : Order} {status : OrderStatus} {entry : Option AuditLog}
    {ws : List Write} {rows : List Row} (hws : ∀ w ∈ ws, ∀ r, w.target = some r → r ∈ rows)
    (ho : .order o.id ∈ rows) {w : Write}
    (hw : w ∈ settlingWrites env o status entry ++ ws) {r : Row}
    (hr : w.target = some r) : r ∈ rows := by
  cases List.mem_append.mp hw with
  | inl hw =>
      cases List.mem_cons.mp hw with
      | inl hw =>
          subst hw
          exact (Option.some.inj hr) ▸ ho
      | inr hw =>
          obtain ⟨a, _, rfl⟩ := List.mem_map.mp hw
          contradiction
  | inr hw => exact hws w hw r hr

theorem wp_confirmOrderPayment (orderId : Uuid) (user : User) :
    wp store (requestRules lt env (.confirmOrderPayment orderId user))
      (confirmOrderPayment env orderId user) (.start .fresh snap) Finished := by
  apply wp_settleOrder
  intro o items hid howner hstatus
  subst hid
  apply wp_bind
  apply wp_selectReservationByOrderForUpdate
  · intro d hd hi hnone
    exact .failed rfl
  · intro d₀ r hd₀ hi₀ hr₀ hlink
    refine ⟨⟨?_, ?_⟩, fun _ x hx => ?_⟩
    · intro h hmem
      obtain rfl := List.mem_singleton.mp hmem
      exact .orderReservation _ _
    · refine holdsSettled_settling (o := o) ⟨rfl, howner⟩ hd₀ List.mem_cons_self ?_
      intro id hid
      simpa [Known.rows, settling] using hid
    · rcases hx with rfl | rfl
      · apply wp_bind
        refine wp_orNotFound (fun hnone => by contradiction) (fun y hy => ?_)
        obtain rfl := Option.some.inj hy
        apply wp_bind
        refine wp_commitWork (fun d d' hd _ happly => ?_) (fun e => .failed rfl)
        have hres : d.reservations.get r.id = some r :=
          get_reservation_of_agrees hd List.mem_cons_self
        have hord : d.orders.get o.id = some o :=
          get_order_of_agrees hd (List.mem_cons_of_mem _ List.mem_cons_self)
        have hwork := applyAll_settling hord happly
        simp only [Store.applyAll_cons, Store.applyAll_nil] at hwork
        obtain ⟨d₁, hset, rfl⟩ := hwork
        obtain ⟨r', hr', rfl⟩ := apply_setReservationStatus.mp hset
        have hsame : r' = r := Option.some.inj (hr'.symm.trans hres)
        subst hsame
        refine ⟨?_, ?_, .done (le_refl _)⟩
        · exact .confirmOrderPayment o r' items hord howner hstatus (Table.mem_of_get hres) hlink
        · apply frame_writes (fun w hw row hrow => ?_) happly
          refine target_settling ?_ (List.mem_cons_of_mem _ List.mem_cons_self) hw hrow
          intro w' hw' row' hrow'
          obtain rfl := List.mem_singleton.mp hw'
          obtain rfl := Option.some.inj hrow'
          exact List.mem_cons_self
      · exact .failed rfl
  · exact .failed rfl

theorem wp_cancelOrder (orderId : Uuid) (user : User) :
    wp store (requestRules lt env (.cancelOrder orderId user)) (cancelOrder env orderId user)
      (.start .fresh snap) Finished := by
  apply wp_settleOrder
  intro o items hid howner hstatus
  subst hid
  apply wp_bind
  apply wp_selectReservationByOrderForUpdate
  · intro d hd hi hnone
    exact .failed rfl
  · intro d₀ r hd₀ hi₀ hr₀ hlink
    refine ⟨⟨?_, ?_⟩, fun _ x hx => ?_⟩
    · intro h hmem
      obtain rfl := List.mem_singleton.mp hmem
      exact .orderReservation _ _
    · refine holdsSettled_settling (o := o) ⟨rfl, howner⟩ hd₀ List.mem_cons_self ?_
      intro id hid
      simpa [Known.rows, settling] using hid
    · rcases hx with rfl | rfl
      · apply wp_bind
        refine wp_orNotFound (fun hnone => by contradiction) (fun y hy => ?_)
        obtain rfl := Option.some.inj hy
        apply wp_bind
        apply wp_selectProductForUpdate
        · intro d hd hi hnone
          have hres : d.reservations.get r.id = some r :=
            get_reservation_of_agrees hd List.mem_cons_self
          have hsome := Coupled.product hi r (Table.mem_of_get hres)
          rw [hnone] at hsome
          contradiction
        · intro d₁ p hd₁ hi₁ hp₁
          have hpid : p.id = r.productId := Table.key_of_get hp₁
          refine ⟨⟨?_, ?_⟩, fun _ => ?_⟩
          · intro h hmem
            simp only [Known.rows, Known.hold, settling, List.map_cons, List.map_nil,
              List.mem_cons, List.not_mem_nil, or_false] at hmem
            rcases hmem with rfl | rfl
            · exact .reservationProduct _ _
            · exact .orderProduct _ _
          · refine holdsSettled_settling (o := o) ⟨rfl, howner⟩ hd₁
              (List.mem_cons_of_mem _ List.mem_cons_self) ?_
            intro id hid
            simpa [Known.rows, Known.hold, settling] using hid
          · apply wp_bind
            rw [returnStock, wp_save]
            apply wp_bind
            refine wp_commitWork (fun d d' hd _ happly => ?_) (fun e => .failed rfl)
            have hprod : d.products.get r.productId = some p :=
              get_product_of_agrees hd List.mem_cons_self
            have hres : d.reservations.get r.id = some r :=
              get_reservation_of_agrees hd (List.mem_cons_of_mem _ List.mem_cons_self)
            have hord : d.orders.get o.id = some o :=
              get_order_of_agrees hd
                (List.mem_cons_of_mem _ (List.mem_cons_of_mem _ List.mem_cons_self))
            simp only [Known.push, Known.hold, settling, List.append_assoc] at happly
            have hwork := applyAll_settling hord happly
            simp only [List.cons_append, List.nil_append, Store.applyAll_cons,
              Store.applyAll_nil] at hwork
            obtain ⟨d₂, hstock, d₃, hset, rfl⟩ := hwork
            obtain ⟨p', q, hp', hq, rfl⟩ := apply_setStock.mp hstock
            obtain ⟨r', hr', rfl⟩ := apply_setReservationStatus.mp hset
            have hsamer : r' = r := Option.some.inj (hr'.symm.trans hres)
            have hsamep : p' = p := Option.some.inj (hp'.symm.trans (hpid ▸ hprod))
            subst hsamer hsamep
            refine ⟨?_, ?_, .done (le_refl _)⟩
            · exact .cancelOrder o r' _ items hord howner hstatus (Table.mem_of_get hres) hlink
                ⟨p', q, hprod, hq, rfl⟩
            · apply frame_writes (fun w hw row hrow => ?_) happly
              refine target_settling ?_
                (List.mem_cons_of_mem _ (List.mem_cons_of_mem _ List.mem_cons_self)) hw hrow
              intro w' hw' row' hrow'
              simp only [List.cons_append, List.nil_append, List.mem_cons, List.not_mem_nil,
                or_false] at hw'
              rcases hw' with rfl | rfl
              · obtain rfl := Option.some.inj hrow'
                rw [hpid]
                exact List.mem_cons_self
              · obtain rfl := Option.some.inj hrow'
                exact List.mem_cons_of_mem _ List.mem_cons_self
        · exact .failed rfl
      · exact .failed rfl
  · exact .failed rfl

end FairDrop
