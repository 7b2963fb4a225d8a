import FairDrop.Inventory.Payloads
import FairDrop.Refusals
import FairDrop.RowStore.Retrace
import FairDrop.RowStore.Serial

/-!
# FairDrop.SerialOrder

The requests of a run, side by side and with failing statements, against the same
requests one after the other.  Each commit is what the request would have done
alone at that moment, but for two that decide on rows they have not locked
(`Call.Skewed`): a product beyond the seller's limit, and an order at a price or
name that the product does not have any more.  Without these the run is serial in
the order of its commits (`serializable`).
-/

namespace FairDrop

open RowStore

/-! ## Statements -/

section
variable {α β : Type} {P : Db → Prop} {skew : Db → Db → Prop} {last : Db}
  {p : Known Session Db Row RowVal Write} {same : Db → Prop}

/-- A check retraces when both of its outcomes do. -/
theorem retraces_raiseIf {c : Prop} [Decidable c] {e : Failure}
    {Q : Except Failure Unit → Known Session Db Row RowVal Write → Db → (Db → Prop) → Prop}
    (hraise : c → Q (.error e) p last same) (hgo : ¬ c → Q (.ok ()) p last same) :
    retraces store P Later skew (raiseIf c e) p last same Q := by
  unfold raiseIf
  split
  · next h => exact hraise h
  · next h => exact hgo h

/-- A lookup that must find something retraces when both of its outcomes do. -/
theorem retraces_orNotFound {x : Option α}
    {Q : Except Failure α → Known Session Db Row RowVal Write → Db → (Db → Prop) → Prop}
    (hnone : x = none → Q (.error .notFound) p last same)
    (hsome : ∀ a, x = some a → Q (.ok a) p last same) :
    retraces store P Later skew (orNotFound x) p last same Q := by
  cases x with
  | none => exact hnone rfl
  | some a => exact hsome a rfl

/-- An entry of the log is one more write held back. -/
theorem retraces_addLog (a : Option AuditLog)
    (Q : Except Failure Unit → Known Session Db Row RowVal Write → Db → (Db → Prop) → Prop) :
    retraces store P Later skew (addLog a) p last same Q =
      Q (.ok ()) { p with pending := p.pending ++ a.toList.map .addAuditLog } last same := by
  cases a with
  | none =>
      change Q (.ok ()) p last same = Q (.ok ()) { p with pending := p.pending ++ [] } last same
      rw [List.append_nil]
  | some a => rfl

/-- A check of rows that are not locked. -/
theorem retraces_check {c : Db → Prop} [∀ d, Decidable (c d)] {e : Failure}
    {Q : Except Failure Unit → Known Session Db Row RowVal Write → Db → (Db → Prop) → Prop}
    (hraise : ∀ d, p.Sees store P Later last d → c d → Q (.error e) p d fun _ => False)
    (hgo : ∀ d, p.Sees store P Later last d → ¬ c d → Q (.ok ()) p d fun d' => same d' ∧ ¬ c d')
    (hout : Q (.error .operationalError) p.abort last fun _ => False) :
    retraces store P Later skew (Prog.select >>= fun d => raiseIf (c d) e) p last same Q := by
  refine ⟨fun d hd => ?_, hout⟩
  by_cases hc : c d
  · refine ⟨fun _ => False, fun _ h => h.elim, ?_⟩
    change retraces store P Later skew (raiseIf (c d) e) p d _ Q
    exact retraces_raiseIf (fun _ => hraise d hd hc) fun hnot => absurd hc hnot
  · refine ⟨fun d' => same d' ∧ ¬ c d', fun d' hd' => ⟨hd'.1, ?_⟩, ?_⟩
    · change raiseIf (c d') e = raiseIf (c d) e
      rw [raiseIf, if_neg hd'.2, raiseIf, if_neg hc]
    · change retraces store P Later skew (raiseIf (c d) e) p d _ Q
      exact retraces_raiseIf (fun h => absurd h hc) fun _ => hgo d hd hc

/-- A row that is read without a lock, and of which `f` is used. -/
theorem retraces_readRow {find : Db → Option β} {γ : Type} (f : β → γ) {k : β → Tx α}
    (hk : ∀ x y, f x = f y → k x = k y)
    {Q : Except Failure α → Known Session Db Row RowVal Write → Db → (Db → Prop) → Prop}
    (hnone : ∀ d, p.Sees store P Later last d → find d = none →
      Q (.error .notFound) p d fun _ => False)
    (hsome : ∀ d x, p.Sees store P Later last d → find d = some x →
      retraces store P Later skew (k x) p d
        (fun d' => same d' ∧ ∃ y, find d' = some y ∧ f y = f x) Q)
    (hout : Q (.error .operationalError) p.abort last fun _ => False) :
    retraces store P Later skew (Prog.select >>= fun d => orNotFound (find d) >>= k) p last same
      Q := by
  refine ⟨fun d hd => ?_, hout⟩
  change ∃ same' : Db → Prop, (∀ d', same' d' → same d' ∧
    (orNotFound (find d') >>= k) = (orNotFound (find d) >>= k)) ∧
      retraces store P Later skew (orNotFound (find d) >>= k) p d same' Q
  cases hx : find d with
  | none => exact ⟨fun _ => False, fun _ h => h.elim, hnone d hd hx⟩
  | some x =>
      refine ⟨_, ?_, hsome d x hd hx⟩
      rintro d' ⟨hsame, y, hy, hf⟩
      rw [hy]
      exact ⟨hsame, hk y x hf⟩

/-- A row that is locked if it is there. -/
theorem retraces_lockRow {find : Db → Option β} {row : Row} {val : Option β → RowVal}
    (hval : ∀ d x, find d = some x → store.view d row = val (some x))
    {Q : Except Failure (Option β) → Known Session Db Row RowVal Write → Db → (Db → Prop) → Prop}
    (hnone : ∀ d, p.Sees store P Later last d → find d = none →
      Q (.ok none) p d fun d' => same d' ∧ find d' = none)
    (hsome : ∀ d x, p.Sees store P Later last d → find d = some x →
      Q (.ok (some x)) (p.hold row (val (some x))) d fun d' => same d' ∧ find d' = some x)
    (hout : Q (.error .operationalError) p.abort last fun _ => False) :
    retraces store P Later skew (do
      let d ← Prog.selectForUpdate fun d => (find d).map fun _ => row
      return find d) p last same Q := by
  refine retraces_lock pure find (fun d hd hf => ?_) (fun d r hd hf => ?_) hout
  · have hx : find d = none := by simpa using hf
    rw [retraces_pure, hx]
    exact hnone d hd hx
  · obtain ⟨x, hx, rfl⟩ := Option.map_eq_some_iff.mp hf
    rw [retraces_pure, hx, hval d x hx]
    exact hsome d x hd hx

/-- Locking a product retraces: what it found stays true until the commit. -/
theorem retraces_selectProductForUpdate {id : Uuid}
    {Q : Except Failure (Option Product) → Known Session Db Row RowVal Write → Db → (Db → Prop) → Prop}
    (hnone : ∀ d, p.Sees store P Later last d → d.products.get id = none →
      Q (.ok none) p d fun d' => same d' ∧ d'.products.get id = none)
    (hsome : ∀ d x, p.Sees store P Later last d → d.products.get id = some x →
      Q (.ok (some x)) (p.hold (.product id) (.product (some x))) d
        fun d' => same d' ∧ d'.products.get id = some x)
    (hout : Q (.error .operationalError) p.abort last fun _ => False) :
    retraces store P Later skew (selectProductForUpdate id) p last same Q := by
  refine retraces_lockRow (fun d x h => ?_) hnone hsome hout
  exact congrArg RowVal.product h

/-- Locking a reservation retraces: what it found stays true until the commit. -/
theorem retraces_selectReservationForUpdate {id : Uuid} {cond : Reservation → Bool}
    {Q : Except Failure (Option Reservation) → Known Session Db Row RowVal Write → Db →
      (Db → Prop) → Prop}
    (hnone : ∀ d, p.Sees store P Later last d → (d.reservations.get id).filter cond = none →
      Q (.ok none) p d fun d' => same d' ∧ (d'.reservations.get id).filter cond = none)
    (hsome : ∀ d x, p.Sees store P Later last d → (d.reservations.get id).filter cond = some x →
      Q (.ok (some x)) (p.hold (.reservation id) (.reservation (some x))) d
        fun d' => same d' ∧ (d'.reservations.get id).filter cond = some x)
    (hout : Q (.error .operationalError) p.abort last fun _ => False) :
    retraces store P Later skew (selectReservationForUpdate id cond) p last same Q := by
  refine retraces_lockRow (fun d x h => ?_) hnone hsome hout
  exact congrArg RowVal.reservation (Option.filter_eq_some_iff.mp h).1

/-- Locking an order retraces: what it found stays true until the commit. -/
theorem retraces_selectOrderForUpdate {id : Uuid}
    {Q : Except Failure (Option Order) → Known Session Db Row RowVal Write → Db → (Db → Prop) → Prop}
    (hnone : ∀ d, p.Sees store P Later last d → d.orders.get id = none →
      Q (.ok none) p d fun d' => same d' ∧ d'.orders.get id = none)
    (hsome : ∀ d x, p.Sees store P Later last d → d.orders.get id = some x →
      Q (.ok (some x)) (p.hold (.order id) (.order (some x))) d
        fun d' => same d' ∧ d'.orders.get id = some x)
    (hout : Q (.error .operationalError) p.abort last fun _ => False) :
    retraces store P Later skew (selectOrderForUpdate id) p last same Q := by
  refine retraces_lockRow (fun d x h => ?_) hnone hsome hout
  exact congrArg RowVal.order h

/-- The one reservation of an order that is there. -/
theorem retraces_selectReservationByOrderForUpdate {orderId : Uuid} (hP : ∀ d, P d → Coupled d)
    (horder : ∀ d, p.Sees store P Later last d → (d.orders.get orderId).isSome)
    {Q : Except Failure (Option Reservation) → Known Session Db Row RowVal Write → Db →
      (Db → Prop) → Prop}
    (hsome : ∀ d r, p.Sees store P Later last d → r ∈ d.reservations.rows →
      r.orderId = some orderId →
        Q (.ok (some r)) (p.hold (.reservation r.id) (.reservation (some r))) d
          fun d' => same d' ∧ d'.linkedTo orderId = [r])
    (hout : Q (.error .operationalError) p.abort last fun _ => False) :
    retraces store P Later skew (selectReservationByOrderForUpdate orderId) p last same Q := by
  refine retraces_lock scalarOneOrNone (·.linkedTo orderId) (fun d hd hf => ?_) (fun d row hd hf => ?_)
    hout
  · obtain ⟨r, hr, hlink, -⟩ := (hP d hd.here).linkedTo_eq (horder d hd)
    have hall : ∀ x ∈ d.reservations.rows, x.orderId ≠ some orderId := by
      simpa [List.find?_eq_none] using hf
    exact absurd hlink (hall r hr)
  · obtain ⟨r, hr, hlink, hone⟩ := (hP d hd.here).linkedTo_eq (horder d hd)
    rw [Db.find_linked hone] at hf
    obtain rfl := Option.some.inj hf
    have hview : store.view d (.reservation r.id) = .reservation (some r) :=
      congrArg RowVal.reservation (Table.get_of_mem hr)
    simp only [hone, hview]
    exact hsome d r hd hr hlink

end

/-! ## Skews -/

/-- The commits that decide on what is not locked: a product beyond the limit of
its seller, and an order whose item is not the product as it is. -/
def Call.Skewed (env : Env) (d d' : Db) : Call → Prop
  | .createProduct _ _ user => user.isStaff = false ∧
      sellerLimit env user ≤ (d.products.rows.filter fun p => p.ownerId = user.id).length
  | .createOrder _ _ => ∃ i p, d'.orderItems.get (env.uuid 1) = some i ∧
      d.products.get i.productId = some p ∧ (i.productName ≠ p.name ∨ i.price.val ≠ p.price.val)
  | _ => False

/-! ## Services -/

section
variable {P : Db → Prop} {env : Env} {c : Call} {last : Db} {skew : Db → Db → Prop}
  {p : Known Session Db Row RowVal Write} {same : Db → Prop}

/-- The entry about a product depends on what is locked only. -/
theorem retraces_logProductChange {user : User} {product : ProductObj} {old : Option ProductRead}
    {action : String} {metadata : Option Snapshot}
    {Q : Except Failure Unit → Known Session Db Row RowVal Write → Db → (Db → Prop) → Prop}
    (hok : ∀ entry : Option AuditLog,
      Q (.ok ()) { p with pending := p.pending ++ entry.toList.map .addAuditLog } last same)
    (herr : ∀ e, Q (.error e) p last same) :
    retraces store P Later skew (logProductChange env user product old action metadata) p last same
      Q := by
  apply retraces_bind
  apply retraces_ofExcept
  cases productEntry env user product old action metadata with
  | error e => exact herr e
  | ok entry =>
      change retraces store P Later skew (addLog entry) p last same Q
      rw [retraces_addLog]
      exact hok entry

/-! ### Products -/

/-- Creating a product retraces unless its seller has reached the limit since. -/
theorem retraceable_createProduct (ownerId : Uuid) (data : ProductCreate) (user : User) :
    Retraceable store P Later (fun d d' => (Call.createProduct ownerId data user).Skewed env d d')
      (createProduct env ownerId data user) (.start .fresh none) last fun _ => True := by
  have hrest : ∀ last (same : Db → Prop), (∀ d, same d ∨ user.isStaff = false ∧
      sellerLimit env user ≤ (d.products.rows.filter fun p => p.ownerId = user.id).length) →
      Retraceable store P Later (fun d d' => (Call.createProduct ownerId data user).Skewed env d d')
        (do
          let newProduct := ProductObj.create data ownerId (env.uuid 0) env.now
          Prog.save (.addProduct newProduct)
          logProductChange env user newProduct none "create" none
          Prog.commitWork
          refreshProduct newProduct.id) (.start .fresh none) last same := by
    intro last same hsame
    apply retraces_bind
    rw [retraces_save]
    apply retraces_bind
    refine retraces_logProductChange (fun entry => ?_) fun e => trivial
    exact retraces_commitWork (fun d d' hd happly => (hsame d).symm) (fun _ _ _ _ => trivial) trivial
  apply retraces_bind
  unfold checkSellerLimit
  split
  · exact hrest last _ fun d => .inl trivial
  · next hstaff =>
      have hnot : user.isStaff = false := by simpa [User.isStaff] using hstaff
      refine retraces_check (fun d hd _ => trivial) (fun d hd _ => ?_) trivial
      refine hrest d _ fun d' => ?_
      by_cases hfull : sellerLimit env user ≤
          (d'.products.rows.filter fun p => p.ownerId = user.id).length
      · exact .inr ⟨hnot, hfull⟩
      · exact .inl ⟨trivial, hfull⟩

/-- Looking up an owned product for update retraces once the row is locked. -/
theorem retraces_getProductForUpdate {id : Uuid} {owner : Option User}
    {Q : Except Failure Product → Known Session Db Row RowVal Write → Db → (Db → Prop) → Prop}
    (herr : ∀ e p' d same', Q (.error e) p' d same')
    (hok : ∀ d x, p.Sees store P Later last d → d.products.get id = some x →
      Q (.ok x) (p.hold (.product id) (.product (some x))) d
        fun d' => same d' ∧ d'.products.get id = some x) :
    retraces store P Later skew (getProductForUpdate id owner) p last same Q := by
  apply retraces_bind
  refine retraces_selectProductForUpdate (fun d hd hx => herr _ _ _ _) (fun d x hd hx => ?_)
    (herr _ _ _ _)
  apply retraces_bind
  refine retraces_orNotFound (fun h => by contradiction) (fun y hy => ?_)
  obtain rfl := Option.some.inj hy
  apply retraces_bind
  apply retraces_ofExcept
  cases checkCurrentUser owner x with
  | error e => exact herr _ _ _ _
  | ok u => exact hok d x hd hx

/-- The common end of an edit and of a move: the product is locked. -/
theorem retraceable_storeProduct {user : User} {x : Product} {edited : ProductObj} {old : ProductRead}
    {action : String} {metadata : Option Snapshot} {id : Uuid}
    (hx : (.product id, .product (some x)) ∈ p.held)
    (hsame : ∀ d, d.products.get id = some x → same d) :
    Retraceable store P Later skew
      (do Prog.save (.updateProduct edited env.now)
          logProductChange env user edited (some old) action metadata
          Prog.commitWork
          refreshProduct id) p last same := by
  apply retraces_bind
  rw [retraces_save]
  apply retraces_bind
  refine retraces_logProductChange (fun entry => ?_) fun e => trivial
  refine retraces_commitWork (fun d d' hd happly => .inr (hsame d ?_)) (fun _ _ _ _ => trivial) trivial
  exact get_product_of_agrees hd.agrees hx

/-- Editing a product decides on the locked row only. -/
theorem retraceable_updateProduct (id : Uuid) (data : ProductUpdate) (user : User) :
    Retraceable store P Later skew (updateProduct env id data user) (.start .fresh none) last
      fun _ => True := by
  apply retraces_bind
  refine retraces_getProductForUpdate (fun _ _ _ _ => trivial) (fun d x hd hx => ?_)
  apply retraces_bind
  refine retraces_raiseIf (fun _ => trivial) (fun _ => ?_)
  apply retraces_bind
  apply retraces_ofExcept
  cases ProductRead.modelValidate (.load x) with
  | error e => trivial
  | ok old => exact retraceable_storeProduct List.mem_cons_self fun d hd => ⟨trivial, hd⟩

/-- Moving a product to another status decides on the locked row only. -/
theorem retraceable_moveProduct {m : Move} {id : Uuid} {owner : Option User} {user : User}
    {metadata : Option Snapshot} :
    Retraceable store P Later skew (moveProduct env m id owner user metadata) (.start .fresh none) last
      fun _ => True := by
  apply retraces_bind
  refine retraces_getProductForUpdate (fun _ _ _ _ => trivial) (fun d x hd hx => ?_)
  apply retraces_bind
  refine retraces_raiseIf (fun _ => trivial) (fun _ => ?_)
  apply retraces_bind
  apply retraces_ofExcept
  cases ProductRead.modelValidate (.load x) with
  | error e => trivial
  | ok old => exact retraceable_storeProduct List.mem_cons_self fun d hd => ⟨trivial, hd⟩

/-! ### Reservations -/

/-- Reserving decides on the locked product only. -/
theorem retraceable_reserveItems (userId : Uuid) (key : String) (data : ReservationCreate) :
    Retraceable store P Later skew (reserveItems env userId key data) (.start .fresh none) last
      fun _ => True := by
  apply retraces_bind
  refine retraces_selectProductForUpdate (fun d hd hnone => trivial) (fun d x hd hx => ?_) trivial
  apply retraces_bind
  refine retraces_orNotFound (fun hnone => by contradiction) (fun y hy => ?_)
  obtain rfl := Option.some.inj hy
  apply retraces_bind
  refine retraces_raiseIf (fun _ => trivial) (fun _ => ?_)
  apply retraces_bind
  rw [retraces_save]
  apply retraces_bind
  rw [retraces_save]
  apply retraces_tryCatch
  refine retraces_commitWork (fun d d' hd happly => .inr ⟨trivial, ?_⟩) (fun _ e _ _ => ?_) trivial
  · exact get_product_of_agrees hd.agrees List.mem_cons_self
  · -- what is raised here is not followed by a commit
    cases e <;> trivial

/-! ### Orders -/

/-- The order is priced by what has been read of the product. -/
theorem newOrder_congr {user : User} {data : OrderCreate} {r : Reservation} {x y : Product}
    (h : x.price = y.price) : newOrder env user data r x = newOrder env user data r y := by
  simp only [newOrder, h]

/-- An order's item depends on the product's name and price. -/
theorem newOrderItem_congr {r : Reservation} {x y : Product} (hname : x.name = y.name)
    (hprice : x.price = y.price) : newOrderItem env r x = newOrderItem env r y := by
  simp only [newOrderItem, hname, hprice]

/-- The items of an order that is not there. -/
theorem Coupled.itemsOf_eq_nil {d : Db} (h : Coupled d) {id : Uuid} (hid : d.orders.get id = none) :
    d.itemsOf id = [] := by
  refine List.filter_eq_nil_iff.mpr fun i hi horder => ?_
  have hsome := h.owned i hi
  rw [of_decide_eq_true horder, hid] at hsome
  contradiction

/-- Creating an order retraces unless its product's name or price has changed since. -/
theorem retraceable_createOrder (hP : ∀ d, P d → Coupled d ∧ Sized d) (user : User)
    (data : OrderCreate) :
    Retraceable store P Later (fun d d' => (Call.createOrder user data).Skewed env d d')
      (createOrderFromReservation env user data) (.start .fresh none) last fun _ => True := by
  apply retraces_bind
  refine retraces_selectReservationForUpdate (fun d hd hnone => trivial) (fun d r hd hr => ?_) trivial
  obtain ⟨hget, hcond⟩ := Option.filter_eq_some_iff.mp hr
  have hid : r.id = data.reservationId := Table.key_of_get hget
  apply retraces_bind
  refine retraces_orNotFound (fun hnone => by contradiction) (fun y hy => ?_)
  obtain rfl := Option.some.inj hy
  apply retraces_bind
  refine retraces_raiseIf (fun _ => trivial) (fun _ => ?_)
  apply retraces_bind
  refine retraces_raiseIf (fun _ => trivial) (fun _ => ?_)
  refine retraces_readRow (fun x => (x.name, x.price)) (fun x y hxy => ?_) (fun d₁ hd₁ hnone => trivial)
    (fun d₁ x hd₁ hx => ?_) trivial
  · obtain ⟨hname, hprice⟩ := Prod.mk.inj hxy
    simp only [newOrder_congr hprice, newOrderItem_congr hname hprice]
  apply retraces_bind
  rw [retraces_save]
  apply retraces_bind
  rw [retraces_save]
  apply retraces_bind
  rw [retraces_save]
  apply retraces_bind
  refine retraces_query pure (fun d => Db.itemsOf d (env.uuid 0)) (fun d₂ hd₂ => ?_) trivial
  rw [retraces_pure]
  apply retraces_bind
  rw [logOrderChange, retraces_addLog]
  refine retraces_commitWork (fun d₃ d' hd₃ happly => ?_) (fun _ _ _ _ => trivial) trivial
  have hget₃ : d₃.reservations.get data.reservationId = some r :=
    get_reservation_of_agrees hd₃.agrees List.mem_cons_self
  have hcoupled₃ := (hP d₃ hd₃.here).1
  obtain ⟨o, i, ho, hi, hord, rfl⟩ := applyAll_createOrder (hid ▸ hget₃) happly
  obtain ⟨y, hy⟩ := Option.isSome_iff_exists.mp (hcoupled₃.product r (Table.mem_of_get hget₃))
  by_cases hkept : y.name = x.name ∧ y.price = x.price
  · refine .inr ⟨⟨⟨trivial, ?_⟩, y, hy, by rw [hkept.1, hkept.2]⟩, ?_⟩
    · rw [hget₃, Option.filter_some, if_pos hcond]
    · -- nobody has items of an order that is only made now
      have hnone₃ : d₃.orders.get (env.uuid 0) = none := hord.id ▸ ho
      have hnone₂ : d₂.orders.get (env.uuid 0) = none := by
        cases hbefore : d₂.orders.get (env.uuid 0) with
        | none => rfl
        | some o₂ =>
            obtain ⟨o₃, ho₃, -⟩ := hd₃.after.preserves.order _ _ hbefore
            cases hnone₃.symm.trans ho₃
      rw [hcoupled₃.itemsOf_eq_nil hnone₃, (hP d₂ hd₂.here).1.itemsOf_eq_nil hnone₂]
  · refine .inl ⟨i, y, ?_, by rw [hord.productId]; exact hy, ?_⟩
    · rw [← hord.itemId]
      exact (Table.get_insert hi _).trans (if_pos rfl)
    · by_contra hsame
      simp only [ne_eq, not_or, not_not] at hsame
      refine hkept ⟨?_, ?_⟩
      · rw [← hsame.1, hord.productName]
      · exact Subtype.ext (by rw [← hsame.2, hord.price])

/-- A settlement can be retraced if what it does to the reservation can. -/
theorem retraceable_settleOrder {orderId : Uuid} {user : User} {status : OrderStatus}
    {action : String} {settle : Tx Unit}
    (hsettle : ∀ (d : Db) (o : Order) (entry : Option AuditLog) (settled : OrderObj)
      (same : Db → Prop), o.id = orderId →
      (∀ d', Later d d' → d'.orders.get o.id = some o → same d') →
      Retraceable store P Later skew (settle >>= fun _ => Prog.commitWork >>= fun _ => pure settled)
        (settling env none o status entry) d same) :
    Retraceable store P Later skew (settleOrder env orderId user status action settle)
      (.start .fresh none) last fun _ => True := by
  apply retraces_bind
  apply retraces_bind
  refine retraces_selectOrderForUpdate (fun d hd hnone => trivial) (fun d o hd ho => ?_) trivial
  obtain rfl : o.id = orderId := Table.key_of_get ho
  apply retraces_bind
  refine retraces_orNotFound (fun hnone => by contradiction) (fun y hy => ?_)
  obtain rfl := Option.some.inj hy
  apply retraces_bind
  apply retraces_ofExcept
  cases checkOwnership user o.owned with
  | error e => trivial
  | ok u =>
      rw [retraces_pure]
      apply retraces_bind
      refine retraces_raiseIf (fun _ => trivial) (fun _ => ?_)
      apply retraces_bind
      refine retraces_query pure (fun d => Db.itemsOf d o.id) (fun d₁ hd₁ => ?_) trivial
      have ho₁ : d₁.orders.get o.id = some o := get_order_of_agrees hd₁.agrees List.mem_cons_self
      rw [retraces_pure]
      apply retraces_bind
      rw [retraces_save]
      apply retraces_bind
      rw [logOrderChange, retraces_addLog]
      refine hsettle d₁ o _ _ _ rfl fun d' hlater ho' => ⟨⟨trivial, ho'⟩, ?_⟩
      exact hlater.preserves.items o.id (Option.isSome_of_eq_some ho₁)

/-- Confirming a payment decides on the locked rows only. -/
theorem retraceable_confirmOrderPayment (hP : ∀ d, P d → Coupled d ∧ Sized d) (orderId : Uuid)
    (user : User) :
    Retraceable store P Later skew (confirmOrderPayment env orderId user) (.start .fresh none) last
      fun _ => True := by
  refine retraceable_settleOrder fun d o entry settled same hid hsame => ?_
  subst hid
  apply retraces_bind
  apply retraces_bind
  refine retraces_selectReservationByOrderForUpdate (fun d hd => (hP d hd).1) (fun d hd => ?_)
    (fun d₁ r hd₁ hr hlink => ?_) trivial
  · exact Option.isSome_of_eq_some (get_order_of_agrees hd.agrees List.mem_cons_self)
  apply retraces_bind
  refine retraces_orNotFound (fun hnone => by contradiction) (fun y hy => ?_)
  obtain rfl := Option.some.inj hy
  simp only [retraces_save]
  refine retraces_commitWork (fun d₂ d' hd₂ happly => .inr ⟨?_, ?_⟩) (fun _ _ _ _ => trivial) trivial
  · refine hsame d₂ (hd₁.after.trans hd₂.after) ?_
    exact get_order_of_agrees hd₂.agrees (List.mem_cons_of_mem _ List.mem_cons_self)
  · have hres : d₂.reservations.get r.id = some r :=
      get_reservation_of_agrees hd₂.agrees List.mem_cons_self
    exact (hP d₂ hd₂.here).1.linkedTo_of_link (Table.mem_of_get hres) hlink

/-- Cancelling an order decides on the locked rows only. -/
theorem retraceable_cancelOrder (hP : ∀ d, P d → Coupled d ∧ Sized d) (orderId : Uuid) (user : User) :
    Retraceable store P Later skew (cancelOrder env orderId user) (.start .fresh none) last
      fun _ => True := by
  refine retraceable_settleOrder fun d o entry settled same hid hsame => ?_
  subst hid
  apply retraces_bind
  apply retraces_bind
  refine retraces_selectReservationByOrderForUpdate (fun d hd => (hP d hd).1) (fun d hd => ?_)
    (fun d₁ r hd₁ hr hlink => ?_) trivial
  · exact Option.isSome_of_eq_some (get_order_of_agrees hd.agrees List.mem_cons_self)
  apply retraces_bind
  refine retraces_orNotFound (fun hnone => by contradiction) (fun y hy => ?_)
  obtain rfl := Option.some.inj hy
  apply retraces_bind
  refine retraces_selectProductForUpdate (fun d₂ hd₂ hnone => ?_) (fun d₂ x hd₂ hx => ?_) trivial
  · have hres : d₂.reservations.get r.id = some r :=
      get_reservation_of_agrees hd₂.agrees List.mem_cons_self
    have hproduct := (hP d₂ hd₂.here).1.product r (Table.mem_of_get hres)
    rw [hnone] at hproduct
    contradiction
  apply retraces_bind
  rw [returnStock, retraces_save]
  rw [retraces_save]
  refine retraces_commitWork (fun d₃ d' hd₃ happly => .inr ⟨⟨?_, ?_⟩, ?_⟩) (fun _ _ _ _ => trivial)
    trivial
  · refine hsame d₃ (hd₁.after.trans (hd₂.after.trans hd₃.after)) ?_
    exact get_order_of_agrees hd₃.agrees
      (List.mem_cons_of_mem _ (List.mem_cons_of_mem _ List.mem_cons_self))
  · have hres : d₃.reservations.get r.id = some r :=
      get_reservation_of_agrees hd₃.agrees (List.mem_cons_of_mem _ List.mem_cons_self)
    exact (hP d₃ hd₃.here).1.linkedTo_of_link (Table.mem_of_get hres) hlink
  · exact get_product_of_agrees hd₃.agrees List.mem_cons_self

/-- One iteration of the sweep in a session of its own. -/
theorem retraceable_releaseIteration (hP : ∀ d, P d → Coupled d ∧ Sized d) (b : Bool) (id : Uuid) :
    Retraceable store P Later skew (releaseIteration env b id) (.start .fresh none) last
      fun _ => True := by
  apply retraces_tryCatch
  apply retraces_bind
  refine retraces_selectReservationForUpdate (fun d hd hnone => trivial) (fun d r hd hr => ?_) trivial
  obtain ⟨hget, -⟩ := Option.filter_eq_some_iff.mp hr
  obtain rfl : r.id = id := Table.key_of_get hget
  dsimp only
  split
  · trivial
  have hlocked : ∀ {p : Known Session Db Row RowVal Write} {last d : Db},
      (.reservation r.id, .reservation (some r)) ∈ p.held → p.Sees store P Later last d →
        (d.reservations.get r.id).filter (fun _ => true) = some r := by
    intro p last d hheld hd
    rw [get_reservation_of_agrees hd.agrees hheld]
    rfl
  apply retraces_bind
  refine retraces_selectProductForUpdate (fun d₁ hd₁ hnone => ?_) (fun d₁ x hd₁ hx => ?_) trivial
  · have hres : d₁.reservations.get r.id = some r :=
      get_reservation_of_agrees hd₁.agrees List.mem_cons_self
    have hproduct := (hP d₁ hd₁.here).1.product r (Table.mem_of_get hres)
    rw [hnone] at hproduct
    contradiction
  apply retraces_bind
  rw [returnStockInSession]
  apply retraces_bind
  rw [retraces_getSession]
  apply retraces_bind
  rw [retraces_save]
  rw [retraces_putSession]
  apply retraces_bind
  rw [retraces_save]
  apply retraces_bind
  unfold cancelLinkedOrder
  split
  · next orderId hlink =>
      apply retraces_bind
      refine retraces_selectOrderForUpdate (fun d₂ hd₂ hnone => trivial) (fun d₂ o hd₂ ho => ?_) trivial
      apply retraces_bind
      refine retraces_orNotFound (fun hnone => by contradiction) (fun y hy => ?_)
      obtain rfl := Option.some.inj hy
      dsimp only
      rw [retraces_save]
      refine retraces_commitWork (fun d₃ d' hd₃ _ => .inr ⟨⟨⟨trivial, ?_⟩, ?_⟩, ?_⟩)
        (fun _ _ _ _ => trivial) trivial
      · exact hlocked (List.mem_cons_of_mem _ (List.mem_cons_of_mem _ List.mem_cons_self)) hd₃
      · exact get_product_of_agrees hd₃.agrees (List.mem_cons_of_mem _ List.mem_cons_self)
      · exact get_order_of_agrees hd₃.agrees List.mem_cons_self
  · rw [retraces_pure]
    refine retraces_commitWork (fun d₃ d' hd₃ _ => .inr ⟨⟨trivial, ?_⟩, ?_⟩) (fun _ _ _ _ => trivial)
      trivial
    · exact hlocked (List.mem_cons_of_mem _ List.mem_cons_self) hd₃
    · exact get_product_of_agrees hd₃.agrees List.mem_cons_self

end

/-! ## Calls -/

/-- Every call retraces unless it is skewed. -/
theorem retraceable_program {P : Db → Prop} {last : Db} (hP : ∀ d, P d → Coupled d ∧ Sized d)
    (env : Env) (c : Call) :
    Retraceable store P Later (fun d d' => c.Skewed env d d') (c.program env) (.start .fresh none) last
      fun _ => True := by
  apply Retraceable.inSession
  cases c with
  | createProduct ownerId data user => exact (retraceable_createProduct ownerId data user).map _
  | updateProduct id data user => exact (retraceable_updateProduct id data user).map _
  | submitForModeration | changeStatus | claimForModeration | approveProduct | rejectProduct =>
      exact retraceable_moveProduct.map _
  | reserveItems userId key data => exact (retraceable_reserveItems userId key data).map _
  | createOrder user data => exact (retraceable_createOrder hP user data).map _
  | confirmOrderPayment id user => exact (retraceable_confirmOrderPayment hP id user).map _
  | cancelOrder id user => exact (retraceable_cancelOrder hP id user).map _
  | releaseReservation id => exact (retraceable_releaseIteration hP workerExpireOnCommit id).map _

/-- The one commit of a request that runs alone leads to its end. -/
theorem step_eq_of_commit {d d' : Db} {ws : List Write} {q : Request} (h : Coupled d)
    (hhead : (q.perform d).commits.head? = some ⟨d, ws, d'⟩) : step d q = d' := by
  have hprogram := @wp_program (fun _ _ => True) q.env (some d) q.call
  obtain ⟨hnil, -⟩ | ⟨ws', hone, -⟩ := exec_cases (fun _ _ _ => trivial) q.call.keeps hprogram
    (fun r p hQ => hQ.2.1) h q.faults
  · rw [Request.perform, hnil] at hhead
    contradiction
  · rw [Request.perform, hone] at hhead
    exact congrArg Commit.after (Option.some.inj hhead)

/-- A seller who has too many products gets no other alone. -/
theorem step_createProduct_of_full {d : Db} {env : Env} {ownerId : Uuid} {data : ProductCreate}
    {user : User} (hstaff : user.isStaff = false)
    (hfull : sellerLimit env user ≤ (d.products.rows.filter fun p => p.ownerId = user.id).length) :
    step d ⟨.createProduct ownerId data user, env, []⟩ = d := by
  change (exec store (Prog.inSession (Response.product <$> createProduct env ownerId data user)) [] d
    [] .fresh).db = d
  rw [exec_inSession, exec_map_db]
  have hnot : ¬ (user.role = .admin ∨ user.role = .moderator) := by simpa [User.isStaff] using hstaff
  rw [createProduct, checkSellerLimit, if_neg hnot]
  change (exec store (raiseIf (sellerLimit env user ≤
    (d.products.rows.filter fun p => p.ownerId = user.id).length) _ >>= _) [] d [] .fresh).db = d
  rw [exec_raiseIf, if_pos hfull]

/-- A skew is not what the request would have done alone. -/
theorem step_ne_of_skewed {d d' : Db} {c : Call} {env : Env} (h : Coupled d)
    (hc : Change env false d c d') (hskew : c.Skewed env d d') : step d ⟨c, env, []⟩ ≠ d' := by
  intro hstep
  cases c with
  | createProduct ownerId data user =>
      rw [step_createProduct_of_full hskew.1 hskew.2] at hstep
      cases hc with
      | createProduct p entry hs hnew hlog =>
          have hget := (Table.get_insert hnew p.id).trans (if_pos rfl)
          have hsame := congrArg (fun x : Db => x.products.get p.id) hstep
          rw [hnew] at hsame
          cases hsame.trans hget
      | moderate p p' old entry hc => contradiction
  | createOrder user data =>
      obtain ⟨i, p, hi, hp, hdiffers⟩ := hskew
      cases step_cases ⟨.createOrder user data, env, []⟩ h with
      | inl hsame =>
          rw [hsame] at hstep
          cases hc with
          | createOrder r p₀ o i₀ stored hget howner hstatus hdue hlink hread hp₀ ho hi₀ hord =>
              have hadded := (Table.get_insert ho o.id).trans (if_pos rfl)
              have hsame := congrArg (fun x : Db => x.orders.get o.id) hstep
              rw [ho] at hsame
              cases hsame.trans hadded
          | moderate p p' old entry hc => contradiction
      | inr halone =>
          rw [hstep] at halone
          cases halone with
          | createOrder r p₀ o i₀ stored hget howner hstatus hdue hlink hread hp₀ ho hi₀ hord =>
              have hitem : (d.orderItems.insert i₀ hi₀).get (env.uuid 1) = some i₀ :=
                (Table.get_insert hi₀ _).trans (if_pos hord.itemId)
              obtain rfl := Option.some.inj (hi.symm.trans hitem)
              rw [hord.productId, hp₀ rfl] at hp
              obtain rfl := Option.some.inj hp
              rcases hdiffers with hname | hprice
              · exact hname hord.productName
              · exact hprice hord.price
          | moderate p p' old entry hc => contradiction
  | _ => exact hskew

/-! ## The sweep -/

/-- What is released is determined. -/
theorem Release.eq_of_change {env : Env} {alone : Bool} {d d' d'' : Db} {id : Uuid}
    (h : Release True env d id d') (hc : Change env alone d (.releaseReservation id) d'') :
    d'' = d' := by
  obtain ⟨r, p, q, orders, hget, hstatus, hp, hq, horders⟩ := h
  cases hc with
  | moderate p p' old entry hc => contradiction
  | releaseReservation r' products' orders' hget' hstatus' hstock' horders' =>
      obtain rfl := Option.some.inj (hget.symm.trans hget')
      obtain ⟨p', q', hp', hq', rfl⟩ := hstock'
      obtain rfl := Option.some.inj (hp.symm.trans hp')
      obtain rfl : q' = q := Subtype.ext (hq'.trans (hq trivial).symm)
      have hsame : orders' = orders := by
        cases hlink : r.orderId with
        | none =>
            simp only [CancelsLinked, hlink] at horders horders'
            rw [horders, horders']
        | some orderId =>
            simp only [CancelsLinked, hlink] at horders horders'
            obtain ⟨o, ho, rfl⟩ := horders
            obtain ⟨o', ho', rfl⟩ := horders'
            rw [Option.some.inj (ho.symm.trans ho')]
      rw [hsame]

/-- A reservation that can be released is released by an iteration of its own. -/
theorem step_release {env : Env} {d d' : Db} {resId : Uuid} (h : Coupled d)
    (hrelease : Release True env d resId d') :
    step d ⟨.releaseReservation resId, env, []⟩ = d' := by
  obtain ⟨r, p, q, orders, hget, hstatus, hp, hq, horders⟩ := id hrelease
  obtain rfl : r.id = resId := Table.key_of_get hget
  have hfits : stock d r.productId + r.qtyReserved ≤ int32Max := by
    rw [stock_of_get hp, ← hq trivial]
    exact q.property.2
  obtain ⟨hvalue, hreturns⟩ : Releases env .fresh d r :=
    releases_of_fits h (Table.mem_of_get hget) hstatus (Session.shows_fresh d) hfits
  have hstep : step d ⟨.releaseReservation r.id, env, []⟩ =
      (exec store (releaseReservation env workerExpireOnCommit r.id) [] d [] .fresh).db := by
    change (exec store (Prog.inSession ((fun _ => Response.none) <$>
      releaseIteration env workerExpireOnCommit r.id)) [] d [] .fresh).db = _
    rw [exec_inSession, exec_map_db, exec_eq_advance.2, exec_eq_advance.2, releaseIteration,
      advance_tryCatch, Progress.orElse, ← exec_eq_advance.1, hvalue]
  cases step_cases ⟨.releaseReservation r.id, env, []⟩ h with
  | inl hsame =>
      rw [← hstep, hsame] at hreturns
      simp [returnsUnits, hget, Reservation.holds, Reservation.released, hstatus] at hreturns
  | inr hchange => exact hrelease.eq_of_change hchange

/-! ## Runs -/

/-- Whether a commit of an actor depends on what it could not know: that of a
request by `Call.Skewed`, that of the sweep if the stock that it writes is not what
the return of the units makes of the stock that is there. -/
def Actor.Skewed (d d' : Db) : Actor → Prop
  | .request c env => c.Skewed env d d'
  | .sweep _ _ _ => ∃ r p p', d.reservations.get r.id = some r ∧ r.status = .pending ∧
      d'.reservations.get r.id = some { r with status := .expired } ∧
      d.products.get r.productId = some p ∧ d'.products.get r.productId = some p' ∧
      p'.qtyAvailable.val ≠ p.qtyAvailable.val + r.qtyReserved

/-- The request that a commit of an actor stands for. -/
def Actor.Makes : Actor → Request → Prop
  | .request c env, q => q = ⟨c, env, []⟩
  | .sweep env _ _, q => ∃ id, q = ⟨.releaseReservation id, env, []⟩

/-- The commits of a run against the requests that they stand for. -/
structure InCommitOrder {T : Type} (actors : T → Actor) (evs : List (Event Db Write T)) (d : Db) :
    Prop where
  /-- A commit is made alone exactly if it is not skewed. -/
  alone : ∀ ev ∈ evs, ev.commit.isSome → ((∃ q, (actors ev.txn).Makes q ∧
    step ev.before q = ev.after) ↔ ¬ (actors ev.txn).Skewed ev.before ev.after)
  /-- Without skews the requests lead to the same database one after the other. -/
  serial : (∀ ev ∈ evs, ev.commit.isSome → ¬ (actors ev.txn).Skewed ev.before ev.after) →
    ∃ qs, List.Forall₂ (fun ev q => (actors ev.txn).Makes q) (evs.filter (·.commit.isSome)) qs ∧
      run .empty qs = d

/-- A release that writes the right stock is made alone, and no other. -/
theorem release_alone_iff {env : Env} {expireOnCommit : Bool} {scan : Scan Uuid} {d d' : Db}
    {resId : Uuid} (h : Coupled d) (hrelease : Release False env d resId d') :
    (∃ id, step d ⟨.releaseReservation id, env, []⟩ = d') ↔
      ¬ (Actor.sweep env expireOnCommit scan).Skewed d d' := by
  constructor
  · rintro ⟨id, hstep⟩ ⟨r, p, p', hget, hstatus, hget', hp, hp', hdiffers⟩
    cases step_cases ⟨.releaseReservation id, env, []⟩ h with
    | inl hsame =>
        rw [← hstep, hsame, hget] at hget'
        rw [Option.some.inj hget'] at hstatus
        contradiction
    | inr hchange =>
        rw [hstep] at hchange
        cases hchange with
        | moderate x x' old entry hc => contradiction
        | releaseReservation r₀ products orders hget₀ hstatus₀ hstock horders =>
            obtain ⟨p₀, q, hp₀, hq, rfl⟩ := hstock
            have hid₀ : r₀.id = id := Table.key_of_get hget₀
            have hrow := (Table.get_set_of_key (r := { r₀ with status := .expired }) hget₀ hid₀
              r.id).symm.trans hget'
            split at hrow
            · next hid =>
                rw [← hid, hget₀] at hget
                obtain rfl := Option.some.inj hget
                obtain rfl := Option.some.inj (hp₀.symm.trans hp)
                have hpid : p₀.id = r₀.productId := Table.key_of_get hp₀
                have hshelf : (d.products.set { p₀ with qtyAvailable := q, updatedAt := env.now }).get
                    r₀.productId = some { p₀ with qtyAvailable := q, updatedAt := env.now } :=
                  Table.get_set_at hp₀ hpid
                obtain rfl := Option.some.inj (hshelf.symm.trans hp')
                exact hdiffers hq
            · rw [hget] at hrow
              rw [Option.some.inj hrow] at hstatus
              contradiction
  · intro hnot
    refine ⟨resId, step_release h ?_⟩
    obtain ⟨r, p, q, orders, hget, hstatus, hp, -, horders⟩ := hrelease
    refine ⟨r, p, q, orders, hget, hstatus, hp, fun _ => ?_, horders⟩
    by_contra hdiffers
    obtain rfl : r.id = resId := Table.key_of_get hget
    have hpid : p.id = r.productId := Table.key_of_get hp
    exact hnot ⟨r, p, { p with qtyAvailable := q, updatedAt := env.now }, hget, hstatus,
      Table.get_set_at hget rfl, hp, Table.get_set_at hp hpid, hdiffers⟩

section
variable {T : Type} [DecidableEq T] {actors : T → Actor} {ok : World T → T → Prop} {s : World T}
  {evs : List (Event Db Write T)}

/-- A request commits once. -/
theorem request_commits_le_one (hrun : Run store ok (World.start actors) evs s) {t : T} {c : Call}
    {env : Env} (hactor : actors t = .request c env) : commitsOf t evs ≤ 1 := by
  obtain ⟨p, htracks, hcommits⟩ := (World.tracks_any hrun).1 t
  rw [← hcommits]
  refine wp_commits_le (fun r p' hends => ?_) htracks.rest
  rw [hactor] at hends
  exact hends.2.1

/-- The commit of a request. -/
theorem request_alone_iff (hrun : Run store ok (World.start actors) evs s) {ev : Event Db Write T}
    (hev : ev ∈ evs) (hsome : ev.commit.isSome) {c : Call} {env : Env}
    (hactor : actors ev.txn = .request c env) :
    step ev.before ⟨c, env, []⟩ = ev.after ↔ ¬ c.Skewed env ev.before ev.after := by
  have hprogram : (actors ev.txn).program = c.program env := by
    rw [hactor]
    rfl
  have hsound := sound_of_event hrun
  have hcoupled := (hsound ev hev).1.1
  constructor
  · intro hstep hskew
    have hcommit := ((World.tracks_any hrun).2.2 ev hev).2.2
    split at hcommit
    · next hnone =>
        rw [hnone] at hsome
        contradiction
    · rw [hactor] at hcommit
      exact step_ne_of_skewed hcoupled hcommit hskew hstep
  · intro hnot
    have htracked : Tracked actors ok (fun _ _ => True) False fun _ _ _ => True :=
      tracked_of_ascending fun t => (actors t).ascending_top
    have hretraces : Retraceable store (fun d => Coupled d ∧ Sized d) Later
        (fun d d' => c.Skewed env d d') (actors ev.txn).program (.start .fresh none) Db.empty
          fun _ => True := hprogram ▸ retraceable_program (fun _ hd => hd) env c
    have halone := Run.commits_alone htracked.start (invariants actors) htracked.grants Later.refl
      (fun _ _ _ => Later.trans) hretraces hrun (fun ev' hev' => (hsound ev' hev').2)
      (fun ev' hev' _ => (hsound ev' hev').1) (request_commits_le_one hrun hactor) ev hev rfl hsome
    rcases halone with hskew | ⟨ws, hhead⟩
    · exact absurd hskew hnot
    · rw [hprogram] at hhead
      exact step_eq_of_commit hcoupled hhead

/-- The commit of an actor. -/
theorem actor_alone_iff (hrun : Run store ok (World.start actors) evs s) {ev : Event Db Write T}
    (hev : ev ∈ evs) (hsome : ev.commit.isSome) :
    (∃ q, (actors ev.txn).Makes q ∧ step ev.before q = ev.after) ↔
      ¬ (actors ev.txn).Skewed ev.before ev.after := by
  cases hactor : actors ev.txn with
  | request c env =>
      have hiff := request_alone_iff hrun hev hsome hactor
      constructor
      · rintro ⟨q, rfl, hstep⟩
        exact hiff.mp hstep
      · intro hnot
        exact ⟨_, rfl, hiff.mpr hnot⟩
  | sweep env expireOnCommit scan =>
      obtain ⟨hcoupled, -, hcommit⟩ := (World.tracks_any hrun).2.2 ev hev
      split at hcommit
      · next hnone =>
          rw [hnone] at hsome
          contradiction
      · rw [hactor] at hcommit
        obtain ⟨resId, hrelease⟩ := hcommit
        rw [← release_alone_iff hcoupled hrelease]
        constructor
        · rintro ⟨q, ⟨id, rfl⟩, hstep⟩
          exact ⟨id, hstep⟩
        · rintro ⟨id, hstep⟩
          exact ⟨_, ⟨id, rfl⟩, hstep⟩

/-- Commits that could be made alone could be made one after the other. -/
theorem serial_of_alone (hrun : Run store ok (World.start actors) evs s)
    (halone : ∀ ev ∈ evs, ev.commit.isSome →
      ∃ q, (actors ev.txn).Makes q ∧ step ev.before q = ev.after) :
    ∃ qs, List.Forall₂ (fun ev q => (actors ev.txn).Makes q) (evs.filter (·.commit.isSome)) qs ∧
      run .empty qs = s.db := by
  induction hrun with
  | nil => exact ⟨[], .nil, rfl⟩
  | @snoc evs s t fault c s' _ _ hs ih =>
      obtain ⟨qs, hqs, hdb⟩ := ih fun ev hev => halone ev (by simp [hev])
      cases c with
      | none =>
          have hsame := Store.applyAll_nil.mp (Sys.step_db hs)
          exact ⟨qs, by simpa using hqs, hdb.trans hsame.symm⟩
      | some ws =>
          obtain ⟨q, hq, hstep⟩ := halone ⟨t, some ws, s.db, s'.db⟩ (by simp) rfl
          refine ⟨qs ++ [q], ?_, ?_⟩
          · rw [List.filter_append]
            exact List.rel_append hqs (.cons hq .nil)
          · rw [run_append, hdb]
            exact hstep

/-- **Runs are serial** in the order of their commits, but for skews: whatever is
interleaved and whichever statements fail. -/
theorem serializable (hrun : Run store ok (World.start actors) evs s) :
    InCommitOrder actors evs s.db where
  alone _ hev hsome := actor_alone_iff hrun hev hsome
  serial hnone := serial_of_alone hrun fun ev hev hsome =>
    (actor_alone_iff hrun hev hsome).mpr (hnone ev hev hsome)

end

/-- A product listed by the staff, and two reservations of it that overlap. -/
def sharedActors : Fin 3 → Actor
  | 0 => .request (.createProduct seller.id lamp moderator) (shopEnv 0 0)
  | 1 => .request (.reserveItems buyer.id "key" ⟨0, two⟩) (shopEnv 1 1)
  | 2 => .request (.reserveItems buyer.id "other" ⟨0, three⟩) (shopEnv 1 2)

/-- A shared run of three actors that some order of solo runs explains. -/
theorem serializable_shared : ∃ evs s qs, Run store Anything (World.start sharedActors) evs s ∧
    (s.db.products.get 0).map (·.qtyAvailable.val) = some 5 ∧
      List.Forall₂ (fun ev q => (sharedActors ev.txn).Makes q) (evs.filter (·.commit.isSome)) qs ∧
        run .empty qs = s.db := by
  have hexec : ((World.start sharedActors).exec store (fun _ _ => true)
      (turns [(0, 5), (1, 4), (2, 4), (1, 2), (2, 2)])).any (fun x =>
        (x.2.db.products.get 0).map (·.qtyAvailable.val) == some 5) := by decide +kernel
  obtain ⟨evs, s, hrun, hend⟩ := Run.of_exec_any (fun _ _ _ => trivial) hexec
  obtain ⟨qs, hqs, hdb⟩ := (serializable hrun).serial fun ev hev hsome hskew => by
    generalize ev.txn = t at hskew
    match t with
    | 0 => exact Bool.noConfusion hskew.1
    | 1 | 2 => exact hskew
  exact ⟨evs, s, qs, hrun, by simpa using hend, hqs, hdb⟩

end FairDrop
