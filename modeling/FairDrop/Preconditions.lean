import FairDrop.Inventory.Payloads
import FairDrop.RowStore.Alone
import FairDrop.SerialOrder

/-!
# FairDrop.Preconditions

The reasons of `Refused` are all there are, and each of them is one.  A request
that has the database of any reachable state to itself, and no failing
statements, succeeds exactly if nothing in that database speaks against it
(`answered_exactly`).
-/

namespace FairDrop

open RowStore

/-! ## Outages come from statements -/

section
variable {α β : Type} {e : Failure}

/-- A sequence does not raise an error that none of its parts raises. -/
theorem bind_ne_error {x : Except Failure α} {f : α → Except Failure β} (hx : x ≠ .error e)
    (hf : ∀ a, f a ≠ .error e) : (x >>= f) ≠ .error e := by
  intro h
  rcases bind_eq_error.mp h with hx' | ⟨a, -, ha⟩
  · exact hx hx'
  · exact hf a ha

/-- A refused check raises the error it states, never an outage. -/
theorem demand_ne_outage {c : Prop} [Decidable c] (h : e ≠ .operationalError) :
    demand c e ≠ .error .operationalError := fun hd => h (demand_eq_error.mp hd).2

/-- A missing row is no outage. -/
theorem storedRow_ne_outage {κ : Type} [Keyed α κ] [DecidableEq κ] {t : Table α} {k : κ} :
    storedRow t k ≠ .error .operationalError := fun h => by
  cases (storedRow_eq_error.mp h).2

/-- A taken key is no outage. -/
theorem addRow_ne_outage {κ : Type} [Keyed α κ] [DecidableEq κ] {t : Table α} {r : α} :
    addRow t r ≠ .error .operationalError := fun h => by
  cases (addRow_eq_error.mp h).2

/-- A stock out of range is no outage. -/
theorem stock_ne_outage (n : Int) : Stock.ofInt n ≠ .error .operationalError := by
  unfold Stock.ofInt
  split
  · simp
  · split <;> simp

/-- A price out of range is no outage. -/
theorem price_ne_outage (x : Decimal) : Price.ofDecimal x ≠ .error .operationalError := by
  unfold Price.ofDecimal
  split
  · simp
  · split <;> simp

/-- An amount out of range is no outage. -/
theorem amount_ne_outage (x : Decimal) : Amount.ofDecimal x ≠ .error .operationalError := by
  unfold Amount.ofDecimal
  split
  · simp
  · split <;> simp

/-- An item's price out of range is no outage. -/
theorem itemPrice_ne_outage (x : Decimal) : ItemPrice.ofDecimal x ≠ .error .operationalError := by
  unfold ItemPrice.ofDecimal
  split <;> simp

/-- A product that cannot be stored is no outage. -/
theorem row_ne_outage (p : ProductObj) : p.row ≠ .error .operationalError := by
  unfold ProductObj.row
  split
  · exact bind_ne_error (price_ne_outage _) fun _ => bind_ne_error (stock_ne_outage _) fun _ => by
      simp [pure, Except.pure]
  · simp

/-- No write ends in an outage of its own: those come from outside. -/
theorem apply_ne_outage (w : Write) (d : Db) : w.apply d ≠ .error .operationalError := by
  have hpure : ∀ d : Db, (pure d : Except Failure Db) ≠ .error .operationalError := by
    simp [pure, Except.pure]
  cases w with
  | addProduct p =>
      exact bind_ne_error (row_ne_outage p) fun _ => bind_ne_error addRow_ne_outage fun _ => hpure _
  | updateProduct p now =>
      refine bind_ne_error storedRow_ne_outage fun old => ?_
      split
      · exact bind_ne_error (row_ne_outage p) fun _ => hpure _
      · exact hpure _
  | setStock id qty now =>
      exact bind_ne_error storedRow_ne_outage fun _ => bind_ne_error (stock_ne_outage qty) fun _ =>
        hpure _
  | addReservation r =>
      exact bind_ne_error (demand_ne_outage (by simp)) fun _ =>
        bind_ne_error (demand_ne_outage (by simp)) fun _ =>
          bind_ne_error (demand_ne_outage (by simp)) fun _ =>
            bind_ne_error addRow_ne_outage fun _ => hpure _
  | setReservationStatus id status => exact bind_ne_error storedRow_ne_outage fun _ => hpure _
  | linkOrder id orderId =>
      exact bind_ne_error storedRow_ne_outage fun _ =>
        bind_ne_error (demand_ne_outage (by simp)) fun _ => hpure _
  | addOrder o now =>
      exact bind_ne_error (amount_ne_outage _) fun _ => bind_ne_error addRow_ne_outage fun _ =>
        hpure _
  | addOrderItem i =>
      exact bind_ne_error (itemPrice_ne_outage _) fun _ =>
        bind_ne_error (demand_ne_outage (by simp)) fun _ =>
          bind_ne_error (demand_ne_outage (by simp)) fun _ =>
            bind_ne_error (demand_ne_outage (by simp)) fun _ =>
              bind_ne_error addRow_ne_outage fun _ => hpure _
  | setOrderStatus id status now => exact bind_ne_error storedRow_ne_outage fun _ => hpure _
  | addAuditLog a => exact hpure _

/-- Nor does a unit of work. -/
theorem applyAll_ne_outage (ws : List Write) (d : Db) :
    store.applyAll ws d ≠ .error .operationalError := by
  induction ws generalizing d with
  | nil => simp [Store.applyAll]
  | cons w ws ih =>
      intro h
      rcases Store.applyAll_cons_error.mp h with hw | ⟨d', -, hws⟩
      · exact apply_ne_outage w d hw
      · exact ih d' hws

end

/-! ## Programs do not raise them -/

section
variable {α : Type} {env : Env}

/-- A check spares the outage if its error is another. -/
theorem spares_raiseIf {c : Prop} [Decidable c] {e : Failure} (h : e ≠ .operationalError) :
    (raiseIf c e).Spares .operationalError := by
  unfold raiseIf
  split
  · exact h
  · trivial

/-- A lookup that finds nothing is no outage. -/
theorem spares_orNotFound (x : Option α) : (orNotFound x).Spares .operationalError := by
  cases x with
  | none => exact fun h => by contradiction
  | some a => trivial

/-- A row that has gone is no outage. -/
theorem spares_orStale (x : Option α) : (orStale x).Spares .operationalError := by
  cases x with
  | none => exact fun h => by contradiction
  | some a => trivial

/-- More rows than one are no outage. -/
theorem spares_scalarOneOrNone (l : List α) : (scalarOneOrNone l).Spares .operationalError := by
  unfold scalarOneOrNone
  split
  · trivial
  · trivial
  · exact fun h => by contradiction

/-- An entry of the log is held back and raises nothing. -/
theorem spares_addLog (a : Option AuditLog) : (addLog a).Spares .operationalError := by
  cases a <;> trivial

/-- The ownership check raises a refusal, never an outage. -/
theorem checkOwnership_ne_outage (user : User) (obj : Owned) :
    checkOwnership user obj ≠ .error .operationalError := by
  unfold checkOwnership
  split
  · simp
  · split
    · split <;> simp
    · split <;> simp
    · simp

/-- The same of the check in front of the moderation. -/
theorem checkCurrentUser_ne_outage (owner : Option User) (p : Product) :
    checkCurrentUser owner p ≠ .error .operationalError := by
  cases owner with
  | none => exact fun h => by contradiction
  | some user => exact checkOwnership_ne_outage user p.owned

/-- Validating a snapshot fails with a validation error only. -/
theorem modelValidate_ne_outage (p : ProductObj) :
    ProductRead.modelValidate p ≠ .error .operationalError := by
  unfold ProductRead.modelValidate
  split <;> simp

/-- Locking an order's reservation raises no outage of its own. -/
theorem spares_selectReservationByOrder (orderId : Uuid) :
    (selectReservationByOrderForUpdate orderId).Spares .operationalError :=
  spares_selectForUpdate _ |>.bind fun _ => spares_scalarOneOrNone _

/-- Looking up a product for update raises no outage of its own. -/
theorem spares_getProductForUpdate (id : Uuid) (owner : Option User) :
    (getProductForUpdate id owner).Spares .operationalError :=
  ((spares_selectForUpdate _).map _).bind fun _ => (spares_orNotFound _).bind fun x =>
    (spares_ofExcept (checkCurrentUser_ne_outage owner x)).map _

/-- Logging a product's change raises no outage of its own. -/
theorem spares_logProductChange (user : User) (product : ProductObj) (old : Option ProductRead)
    (action : String) (metadata : Option Snapshot) :
    (logProductChange env user product old action metadata).Spares .operationalError := by
  have hentry : productEntry env user product old action metadata ≠ .error .operationalError :=
    bind_ne_error (modelValidate_ne_outage product) fun _ h => by contradiction
  exact (spares_ofExcept hentry).bind fun entry => spares_addLog entry

/-- Counting a seller's products raises the limit error or nothing. -/
theorem spares_checkSellerLimit (user : User) :
    (checkSellerLimit env user).Spares .operationalError := by
  unfold checkSellerLimit
  split
  · trivial
  · exact spares_select.bind fun d => spares_raiseIf fun h => by contradiction

/-- Creating a product raises no outage where the statements go through. -/
theorem spares_createProduct (ownerId : Uuid) (data : ProductCreate) (user : User) :
    (createProduct env ownerId data user).Spares .operationalError :=
  (spares_checkSellerLimit user).bind fun _ => (spares_save _).bind fun _ =>
    (spares_logProductChange _ _ _ _ _).bind fun _ => spares_commitWork.bind fun _ =>
      spares_select.bind fun _ => spares_orStale _

/-- Nor does editing one. -/
theorem spares_updateProduct (id : Uuid) (data : ProductUpdate) (user : User) :
    (updateProduct env id data user).Spares .operationalError :=
  (spares_getProductForUpdate id _).bind fun _ =>
    (spares_raiseIf fun h => by contradiction).bind fun _ =>
      (spares_ofExcept (modelValidate_ne_outage _)).bind fun _ => (spares_save _).bind fun _ =>
        (spares_logProductChange _ _ _ _ _).bind fun _ => spares_commitWork.bind fun _ =>
          spares_select.bind fun _ => spares_orStale _

/-- Nor does a step of the moderation. -/
theorem spares_moveProduct (m : Move) (id : Uuid) (owner : Option User) (user : User)
    (metadata : Option Snapshot) :
    (moveProduct env m id owner user metadata).Spares .operationalError :=
  (spares_getProductForUpdate id owner).bind fun _ =>
    (spares_raiseIf fun h => by contradiction).bind fun _ =>
      (spares_ofExcept (modelValidate_ne_outage _)).bind fun _ => (spares_save _).bind fun _ =>
        (spares_logProductChange _ _ _ _ _).bind fun _ => spares_commitWork.bind fun _ =>
          spares_select.bind fun _ => spares_orStale _

/-- Nor does a reservation. -/
theorem spares_reserveItems (userId : Uuid) (key : String) (data : ReservationCreate) :
    (reserveItems env userId key data).Spares .operationalError := by
  have hcommit : (Prog.commitWork >>= fun _ => refreshReservation (env.uuid 0) : Tx Reservation).Spares
      Failure.operationalError :=
    spares_commitWork.bind fun _ => spares_select.bind fun _ => spares_orStale _
  refine ((spares_selectForUpdate _).map _).bind fun _ => (spares_orNotFound _).bind fun _ =>
    (spares_raiseIf fun h => by contradiction).bind fun _ => (spares_save _).bind fun _ =>
      (spares_save _).bind fun _ => hcommit.tryCatch fun e he => ?_
  -- a key that is taken becomes a conflict, everything else goes on
  cases e with
  | integrityError => exact fun h => by contradiction
  | _ => exact he

/-- Nor does ordering a reservation. -/
theorem spares_createOrder (user : User) (data : OrderCreate) :
    (createOrderFromReservation env user data).Spares .operationalError :=
  ((spares_selectForUpdate _).map _).bind fun _ => (spares_orNotFound _).bind fun _ =>
    (spares_raiseIf fun h => by contradiction).bind fun _ =>
      (spares_raiseIf fun h => by contradiction).bind fun _ => spares_select.bind fun _ =>
        (spares_orNotFound _).bind fun _ => (spares_save _).bind fun _ =>
          (spares_save _).bind fun _ => (spares_save _).bind fun _ =>
            (spares_select.map _).bind fun _ => (spares_addLog _).bind fun _ =>
              spares_commitWork.map _

/-- Settling an order spares the outage if what it does to the reservation does. -/
theorem spares_settleOrder {orderId : Uuid} {user : User} {status : OrderStatus} {action : String}
    {settle : Tx Unit} (hsettle : settle.Spares .operationalError) :
    (settleOrder env orderId user status action settle).Spares .operationalError := by
  have hget : (getOrderForUpdate orderId user).Spares .operationalError :=
    ((spares_selectForUpdate _).map _).bind fun _ => (spares_orNotFound _).bind fun x =>
      (spares_ofExcept (checkOwnership_ne_outage user x.owned)).map _
  exact hget.bind fun _ => (spares_raiseIf fun h => by contradiction).bind fun _ =>
    (spares_select.map _).bind fun _ => (spares_save _).bind fun _ =>
      (spares_addLog _).bind fun _ => hsettle.bind fun _ => spares_commitWork.map _

/-- Completing the reservation of an order spares the outage. -/
theorem spares_markReservation (orderId : Uuid) :
    (markReservationByOrderAsCompleted orderId).Spares .operationalError :=
  (spares_selectReservationByOrder orderId).bind fun _ => (spares_orNotFound _).bind fun _ =>
    spares_save _

/-- Cancelling it spares the outage too. -/
theorem spares_cancelReservation (orderId : Uuid) :
    (cancelReservationByOrderAndReturnStock env orderId).Spares .operationalError := by
  refine (spares_selectReservationByOrder orderId).bind fun _ => (spares_orNotFound _).bind fun r =>
    ((spares_selectForUpdate _).map _).bind fun x => ?_
  have hreturn : (returnStock env r x).Spares .operationalError := by
    cases x <;> trivial
  exact hreturn.bind fun _ => spares_save _

/-- **No call raises an outage of its own.** -/
theorem spares_program {c : Call} (hc : ∀ id, c ≠ .releaseReservation id) :
    (c.program env).Spares .operationalError := by
  apply Prog.Spares.inSession
  cases c with
  | createProduct ownerId data user => exact (spares_createProduct ownerId data user).map _
  | updateProduct id data user => exact (spares_updateProduct id data user).map _
  | submitForModeration | changeStatus | claimForModeration | approveProduct | rejectProduct =>
      exact (spares_moveProduct _ _ _ _ _).map _
  | reserveItems userId key data => exact (spares_reserveItems userId key data).map _
  | createOrder user data => exact (spares_createOrder user data).map _
  | confirmOrderPayment id user => exact (spares_settleOrder (spares_markReservation id)).map _
  | cancelOrder id user => exact (spares_settleOrder (spares_cancelReservation id)).map _
  | releaseReservation id => exact absurd rfl (hc id)

end

/-! ## Reasons are reasons -/

section
variable {d d' : Db} {c : Call} {env : Env} {e : Failure}

/-- What an object is stored as is its row. -/
theorem ProductObj.StoredAs.row_eq_ok {p : ProductObj} {r : Product} (h : p.StoredAs r) :
    ∃ row, p.row = .ok row := by
  obtain ⟨x, hx, hcents⟩ := h.price
  refine row_ok.mpr ⟨⟨r.name, h.name⟩, ⟨x, hx, ?_⟩, r.qtyAvailable.val, h.qtyAvailable,
    r.qtyAvailable.property⟩
  unfold Decimal.IsPrice
  rw [← hcents]
  exact r.price.property

/-- A stored object passes its own snapshot check. -/
theorem ProductObj.StoredAs.modelValidate_eq_ok {p : ProductObj} {r : Product} (h : p.StoredAs r) :
    ∃ x, ProductRead.modelValidate p = .ok x := by
  obtain ⟨x, hx, -⟩ := h.price
  unfold ProductRead.modelValidate
  rw [h.name, hx, h.qtyAvailable]
  exact ⟨_, rfl⟩

/-! What each change has found, in a database that nobody else works on. -/

/-- A created product was not there before, and is there after. -/
theorem Change.created {ownerId : Uuid} {data : ProductCreate} {user : User}
    (h : Change env true d (.createProduct ownerId data user) d') :
    ∃ p, (ProductObj.create data ownerId (env.uuid 0) env.now).StoredAs p ∧
      d.products.get (env.uuid 0) = none ∧ d'.products.get (env.uuid 0) = some p := by
  cases h with
  | createProduct p entry hs hnew hlog =>
      have hid : p.id = env.uuid 0 := hs.id
      exact ⟨p, hs, hid ▸ hnew, (Table.get_insert hnew _).trans (if_pos hid)⟩
  | moderate p p' old entry hm => contradiction

/-- An edited product was the user's or the staff's, and not under moderation. -/
theorem Change.edited {id : Uuid} {data : ProductUpdate} {user : User}
    (h : Change env true d (.updateProduct id data user) d') :
    ∃ p p', d.products.get id = some p ∧ checkOwnership user p.owned = .ok () ∧
      ¬ (p.status = .pendingModeration ∨ p.status = .moderationInProgress) ∧
      ((ProductObj.load p).edit data).StoredAs p' := by
  cases h with
  | updateProduct p p' old entry hget howner hfree hs => exact ⟨p, p', hget, howner, hfree, hs⟩
  | moderate p p' old entry hm => contradiction

/-- A moderated product was in a status from which the step is allowed. -/
theorem Change.moderated {m : Moderation} (h : Change env true d c d') (hc : c.moderation = some m) :
    ∃ p, d.products.get m.productId = some p ∧ checkCurrentUser m.owner p = .ok () ∧
      m.move.allowed p.status = true := by
  cases h with
  | moderate p p' old entry hm hget howner hallowed =>
      cases Option.some.inj (hm.symm.trans hc)
      exact ⟨p, hget, howner, hallowed⟩
  | _ => contradiction

/-- A product that is reserved had the units, and the key was new. -/
theorem Change.reserved {userId : Uuid} {key : String} {data : ReservationCreate}
    (h : Change env true d (.reserveItems userId key data) d') :
    ∃ p, d.products.get data.productId = some p ∧ data.quantity.val ≤ p.qtyAvailable.val ∧
      (∀ r ∈ d.reservations.rows, r.idempotencyKey ≠ key) ∧
      d.reservations.get (env.uuid 0) = none := by
  cases h with
  | reserveItems p q hget hq hkey hnew =>
      have hlow := q.property.1
      exact ⟨p, hget, by omega, hkey, hnew⟩
  | moderate p p' old entry hm => contradiction

/-- An ordered reservation was open, not late, not linked, and its total fits. -/
theorem Change.ordered {user : User} {data : OrderCreate}
    (h : Change env true d (.createOrder user data) d') :
    ∃ (r : Reservation) (p : Product), r.Open d user data.reservationId ∧
      ¬ (r.expiresAt < env.now ∨ r.orderId.isSome) ∧ d.products.get r.productId = some p ∧
      p.price.val * r.qtyReserved < numericBound ∧ d.DrawsOrder env := by
  cases h with
  | createOrder r p o i stored hget howner hstatus hdue hlink hread hp ho hi hord =>
      refine ⟨r, p, ⟨hget, howner, hstatus⟩, ?_, hp rfl, ?_, hord.id ▸ ho, hord.itemId ▸ hi⟩
      · rw [hlink]
        exact fun hlate => hlate.elim hdue fun hnone => by contradiction
      · rw [← hord.totalAmount]
        exact o.totalAmount.property.2
  | moderate p p' old entry hm => contradiction

/-- A payment and a cancellation ask the same of the order. -/
theorem Change.settled {orderId : Uuid} {user : User} (h : Change env true d c d')
    (hc : c.settlement = some (orderId, user)) :
    ∃ o, d.orders.get orderId = some o ∧ checkOwnership user o.owned = .ok () ∧ o.status = .pending := by
  cases h with
  | confirmOrderPayment o r items hget howner hstatus =>
      cases Option.some.inj hc
      exact ⟨o, hget, howner, hstatus⟩
  | cancelOrder o r products items hget howner hstatus =>
      cases Option.some.inj hc
      exact ⟨o, hget, howner, hstatus⟩
  | moderate p p' old entry hm => cases c <;> contradiction
  | _ => contradiction

/-- The units of a cancelled order fit beside the stock. -/
theorem Change.returned {orderId : Uuid} {user : User}
    (h : Change env true d (.cancelOrder orderId user) d') :
    ∃ (r : Reservation) (p : Product), r ∈ d.reservations.rows ∧ r.orderId = some orderId ∧
      d.products.get r.productId = some p ∧ p.qtyAvailable.val + r.qtyReserved ≤ int32Max := by
  cases h with
  | cancelOrder o r products items hget howner hstatus hr hlink hstock =>
      obtain ⟨p, q, hp, hq, -⟩ := hstock
      exact ⟨r, p, hr, hlink, hp, hq ▸ q.property.2⟩
  | moderate p p' old entry hm => contradiction

/-- **What is refused is not done**, by a request that has the database to itself. -/
theorem Refused.not_done (h : Refused env d c e) (hd : Coupled d) :
    ¬ Change env true d c (step d ⟨c, env, []⟩) := by
  intro hchange
  cases h with
  | limitReached message hstaff hfull =>
      obtain ⟨p, -, hnone, hadded⟩ := hchange.created
      rw [step_createProduct_of_full hstaff hfull, hnone] at hadded
      contradiction
  | newInvalid hrow =>
      obtain ⟨p, hs, -⟩ := hchange.created
      obtain ⟨row, hok⟩ := hs.row_eq_ok
      cases hok.symm.trans hrow
  | newDrawn hsome =>
      obtain ⟨p, -, hnone, -⟩ := hchange.created
      rw [hnone] at hsome
      contradiction
  | editUnknown hnone =>
      obtain ⟨p, p', hget, -⟩ := hchange.edited
      cases hget.symm.trans hnone
  | editForeign p hp hforeign =>
      obtain ⟨p₀, p', hget, howner, -⟩ := hchange.edited
      obtain rfl := Option.some.inj (hget.symm.trans hp)
      cases howner.symm.trans hforeign
  | editLocked message p hp hlocked =>
      obtain ⟨p₀, p', hget, -, hfree, -⟩ := hchange.edited
      obtain rfl := Option.some.inj (hget.symm.trans hp)
      exact hfree hlocked
  | editNull p hp hnull =>
      obtain ⟨p₀, p', hget, -, -, hs⟩ := hchange.edited
      obtain rfl := Option.some.inj (hget.symm.trans hp)
      obtain ⟨x, hok⟩ := hs.modelValidate_eq_ok
      cases hok.symm.trans hnull
  | editInvalid p hp hrow =>
      obtain ⟨p₀, p', hget, -, -, hs⟩ := hchange.edited
      obtain rfl := Option.some.inj (hget.symm.trans hp)
      obtain ⟨row, hok⟩ := hs.row_eq_ok
      cases hok.symm.trans hrow
  | moveUnknown hc hnone =>
      obtain ⟨p, hget, -⟩ := hchange.moderated hc
      cases hget.symm.trans hnone
  | moveForeign hc p hp hforeign =>
      obtain ⟨p₀, hget, howner, -⟩ := hchange.moderated hc
      obtain rfl := Option.some.inj (hget.symm.trans hp)
      cases howner.symm.trans hforeign
  | moveIllegal hc p hp hillegal =>
      obtain ⟨p₀, hget, -, hallowed⟩ := hchange.moderated hc
      obtain rfl := Option.some.inj (hget.symm.trans hp)
      cases hallowed.symm.trans hillegal
  | reserveUnknown hnone =>
      obtain ⟨p, hget, -⟩ := hchange.reserved
      cases hget.symm.trans hnone
  | reserveShort p hp hshort =>
      obtain ⟨p₀, hget, henough, -⟩ := hchange.reserved
      obtain rfl := Option.some.inj (hget.symm.trans hp)
      omega
  | reserveTaken htaken =>
      obtain ⟨p, -, -, hkey, hnew⟩ := hchange.reserved
      rcases htaken with ⟨r, hr, hsame⟩ | hsome
      · exact hkey r hr hsame
      · rw [hnew] at hsome
        contradiction
  | orderUnknown hnone =>
      obtain ⟨r, p, hopen, -⟩ := hchange.ordered
      exact hnone r hopen
  | orderLate r hr hlate =>
      obtain ⟨r₀, p, hopen, hfree, -⟩ := hchange.ordered
      obtain rfl := Option.some.inj (hopen.stored.symm.trans hr.stored)
      exact hfree hlate
  | orderLarge r p hr hp hlarge =>
      obtain ⟨r₀, p₀, hopen, -, hp₀, hsmall, -⟩ := hchange.ordered
      obtain rfl := Option.some.inj (hopen.stored.symm.trans hr.stored)
      obtain rfl := Option.some.inj (hp₀.symm.trans hp)
      omega
  | orderDrawn hdrawn =>
      obtain ⟨r, p, -, -, -, -, hdraws⟩ := hchange.ordered
      exact hdrawn hdraws
  | settleUnknown hc hnone =>
      obtain ⟨o, hget, -⟩ := hchange.settled hc
      cases hget.symm.trans hnone
  | settleForeign hc o ho hforeign =>
      obtain ⟨o₀, hget, howner, -⟩ := hchange.settled hc
      obtain rfl := Option.some.inj (hget.symm.trans ho)
      cases howner.symm.trans hforeign
  | settleOver hc o ho hover =>
      obtain ⟨o₀, hget, -, hpending⟩ := hchange.settled hc
      obtain rfl := Option.some.inj (hget.symm.trans ho)
      exact hover hpending
  | cancelFull r p hr hlink hp hfull =>
      obtain ⟨r₀, p₀, hr₀, hlink₀, hp₀, hfits⟩ := hchange.returned
      obtain rfl := hd.injective r hr r₀ hr₀ _ hlink hlink₀
      obtain rfl := Option.some.inj (hp₀.symm.trans hp)
      omega

end

/-! ## Requests alone -/

/-- A result that is not an error is one. -/
theorem exists_of_toBool {α : Type} {x : Except Failure α} (h : x.toBool) : ∃ a, x = .ok a := by
  cases x with
  | ok a => exact ⟨a, rfl⟩
  | error e => contradiction

/-- A result that is none is an error. -/
theorem exists_of_not_toBool {α : Type} {x : Except Failure α} (h : !x.toBool) :
    ∃ e, x = .error e := by
  cases x with
  | ok a => contradiction
  | error e => exact ⟨e, rfl⟩

/-- How a request ends that has the database to itself: it does its work if
nothing speaks against it, and otherwise nothing. -/
structure AnsweredExactly (env : Env) (d : Db) (c : Call) : Prop where
  ok_iff : (∃ x, (Request.perform ⟨c, env, []⟩ d).value = .ok x) ↔ ∀ e, ¬ Refused env d c e
  done : ∀ x, (Request.perform ⟨c, env, []⟩ d).value = .ok x →
    Change env true d c (step d ⟨c, env, []⟩)
  refused : ∀ e, (Request.perform ⟨c, env, []⟩ d).value = .error e →
    Refused env d c e ∧ step d ⟨c, env, []⟩ = d

section
variable {d : Db} {c : Call} {env : Env} {e : Failure}

/-- An error of the call's own comes without a commit. -/
theorem commits_eq_nil_of_failed (hd : Coupled d)
    (herror : (Request.perform ⟨c, env, []⟩ d).value = .error e) (hout : e ≠ .operationalError)
    (hstale : e ≠ .staleData) : (Request.perform ⟨c, env, []⟩ d).commits = [] := by
  have hprogram := @wp_program (fun _ _ => True) env (some d) c
  obtain ⟨p, hfinished, -, hcount, -⟩ := exec_sound [] (fun _ _ _ => trivial) c.keeps hprogram
    (Known.agrees_start Session.fresh (some d) fun d₀ h => Option.some.inj h) hd
  have hnone : p.commits = 0 := by
    rcases hfinished.2.2 e herror with hzero | hout' | hstale'
    · exact hzero
    · exact absurd hout' hout
    · exact absurd hstale' hstale
  simp only [hnone, Known.start, Nat.zero_add] at hcount
  exact List.length_eq_zero_iff.mp hcount.symm

/-- **An error is accounted for** by the database that the request has found. -/
theorem refused_of_error (hd : Coupled d) (hsized : Sized d) (hc : ∀ id, c ≠ .releaseReservation id)
    (herror : (Request.perform ⟨c, env, []⟩ d).value = .error e) :
    Refused env d c e ∧ (Request.perform ⟨c, env, []⟩ d).commits = [] := by
  let q : Request := ⟨c, env, []⟩
  let P : Db → Prop := fun x => (Coupled x ∧ Sized x) ∧ (x = d ∨ (q.perform d).commits ≠ [])
  have hstart : (Known.start .fresh none : Known Session Db Row RowVal Write).Sees store P Later d d :=
    ⟨Known.agrees_start _ _ fun d₀ h => by contradiction, ⟨⟨hd, hsized⟩, .inl rfl⟩, .refl d⟩
  have hcommits : ∀ x ∈ (q.perform d).commits, P x.after := by
    intro x hx
    have hne := List.ne_nil_of_mem hx
    have hprogram := @wp_program (fun _ _ => True) env (some d) c
    obtain ⟨hnil, -⟩ | ⟨ws, hone, hchange⟩ := exec_cases (fun _ _ _ => trivial) c.keeps hprogram
      (fun r p hQ => hQ.2.1) hd []
    · exact absurd hnil hne
    · obtain rfl := List.mem_singleton.mp (hone ▸ hx)
      exact ⟨⟨hchange.coupled hd, hchange.sized hd hsized⟩, .inr hne⟩
  have hexplains : explains store P Later (c.program env) (.start .fresh none) d
      fun r _ _ => Excused P env c r := explains_program (fun x hx => hx.1) env hc
  obtain ⟨p, last, hexcused⟩ := exec_explains Later.refl hexplains hstart hcommits
  have hout : e ≠ .operationalError := by
    rintro rfl
    exact exec_spares (spares_program hc) applyAll_ne_outage herror
  rcases hexcused e herror with hout' | ⟨x, ⟨-, hx⟩, hrefused⟩
  · exact absurd hout' hout
  · have hnil := commits_eq_nil_of_failed hd herror hout hrefused.ne_staleData
    rcases hx with rfl | hne
    · exact ⟨hrefused, hnil⟩
    · exact absurd hnil hne

/-- **Exactly the reasons**: in every state of every run, a request that has the
database to itself succeeds if and only if no reason of `Refused` applies. -/
theorem answered_exactly {T : Type} [DecidableEq T] {actors : T → Actor} {ok : World T → T → Prop}
    {evs : List (Event Db Write T)} {s : World T} (hrun : Run store ok (World.start actors) evs s)
    (env : Env) (hc : ∀ id, c ≠ .releaseReservation id) : AnsweredExactly env s.db c := by
  obtain ⟨-, hcoupled, -⟩ := World.tracks_any hrun
  have hrefused : ∀ e, (Request.perform ⟨c, env, []⟩ s.db).value = .error e →
      Refused env s.db c e ∧ step s.db ⟨c, env, []⟩ = s.db := by
    intro e herror
    obtain ⟨hreason, hnil⟩ := refused_of_error hcoupled (sized_of_run hrun) hc herror
    obtain ⟨-, hsame⟩ | ⟨hne, -⟩ := perform_cases ⟨c, env, []⟩ hcoupled
    · exact ⟨hreason, hsame⟩
    · exact absurd hnil hne
  have hdone : ∀ x, (Request.perform ⟨c, env, []⟩ s.db).value = .ok x →
      Change env true s.db c (step s.db ⟨c, env, []⟩) := by
    intro x hok
    obtain ⟨hnil, -⟩ | ⟨-, hchange⟩ := perform_cases ⟨c, env, []⟩ hcoupled
    · exact absurd hnil (exec_earned (earned_program env hc) hok)
    · exact hchange
  refine ⟨⟨?_, ?_⟩, hdone, hrefused⟩
  · rintro ⟨x, hok⟩ e hreason
    exact hreason.not_done hcoupled (hdone x hok)
  · intro hfree
    cases hvalue : (Request.perform ⟨c, env, []⟩ s.db).value with
    | ok x => exact ⟨x, rfl⟩
    | error e => exact absurd (hrefused e hvalue).1 (hfree e)

end

/-- Three lamps under a key. -/
def threeMore (key : String) : Call := .reserveItems buyer.id key ⟨0, three⟩

/-- Five lamps are left: three more go under a key of its own, not under one that is taken. -/
theorem answered_exactly_shared : ∃ evs s, Run store Anything (World.start sharedActors) evs s ∧
    (∀ e, ¬ Refused (shopEnv 2 3) s.db (threeMore "third") e) ∧
    (∃ e, Refused (shopEnv 2 3) s.db (threeMore "key") e) ∧
    ∀ key, AnsweredExactly (shopEnv 2 3) s.db (threeMore key) := by
  have hcall : ∀ key id, threeMore key ≠ .releaseReservation id := by
    intro key id h
    cases h
  have hexec : ((World.start sharedActors).exec store (fun _ _ => true)
      (turns [(0, 5), (1, 4), (2, 4), (1, 2), (2, 2)])).any (fun x =>
        (Request.perform ⟨threeMore "third", shopEnv 2 3, []⟩ x.2.db).value.toBool &&
          !(Request.perform ⟨threeMore "key", shopEnv 2 3, []⟩ x.2.db).value.toBool) := by
    decide +kernel
  obtain ⟨evs, s, hrun, hend⟩ := Run.of_exec_any (fun _ _ _ => trivial) hexec
  have hexact : ∀ key, AnsweredExactly (shopEnv 2 3) s.db (threeMore key) :=
    fun key => answered_exactly hrun (shopEnv 2 3) (hcall key)
  have hends := Bool.and_eq_true_iff.mp hend
  refine ⟨evs, s, hrun, (hexact "third").ok_iff.mp (exists_of_toBool hends.1), ?_, hexact⟩
  obtain ⟨e, he⟩ := exists_of_not_toBool hends.2
  exact ⟨e, ((hexact "key").refused e he).1⟩

end FairDrop
