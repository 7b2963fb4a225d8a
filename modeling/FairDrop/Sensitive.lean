import FairDrop.Requests
import FairDrop.RowStore.TwoRuns

/-!
# FairDrop.Sensitive

What the audit log tells of sensitive fields: that they changed.  Two pairs of
snapshots that agree on that and on all other fields make one entry
(`logObjectChange_blind`), and two runs of the order operations that differ in
the shipping addresses alone write one log (`log_hides_sensitive`).
-/

namespace FairDrop

open RowStore

/-! ## Diffs -/

namespace Snapshot

/-- Snapshots of one schema that may differ in sensitive fields. -/
def AgreeOpenly (a b : Snapshot) : Prop :=
  List.Forall₂ (fun f g => f.1 = g.1 ∧ (f.1 ∉ sensitiveFields → f.2 = g.2)) a b

/-- The field has another value in the new snapshot. -/
def Changes (old new : Snapshot) (key : String) : Prop := ¬ (new.get key).Equal (old.get key)

instance (old new : Snapshot) (key : String) : Decidable (old.Changes new key) :=
  inferInstanceAs (Decidable (¬ _))

variable {a b old new old' new' : Snapshot}

/-- An open field is the same in both. -/
theorem AgreeOpenly.get (h : a.AgreeOpenly b) {key : String} (hopen : key ∉ sensitiveFields) :
    a.get key = b.get key := by
  unfold AgreeOpenly at h
  induction h with
  | nil => rfl
  | @cons f g a b hfg _ ih =>
      obtain ⟨k, v⟩ := f
      obtain ⟨k', v'⟩ := g
      obtain ⟨hkey, hvalue⟩ := hfg
      dsimp only at hkey hvalue
      subst hkey
      by_cases hk : k = key
      · subst hk
        rw [hvalue hopen]
        simp [Snapshot.get]
      · simpa [Snapshot.get, List.find?_cons, hk] using ih

/-- The keys are the same in both. -/
theorem AgreeOpenly.keys (h : a.AgreeOpenly b) : a.keys = b.keys := by
  unfold AgreeOpenly at h
  unfold Snapshot.keys
  induction h with
  | nil => rfl
  | cons hfg _ ih => rw [List.map_cons, List.map_cons, hfg.1, ih]

end Snapshot

/-- Two pairs of an old and a new snapshot agree on all open fields, and on which
sensitive fields changed. -/
inductive AgreeOpenly : Option Snapshot → Option Snapshot → Option Snapshot → Option Snapshot → Prop
  | absent : AgreeOpenly none none none none
  | created {new new' : Snapshot} (h : new.AgreeOpenly new') :
      AgreeOpenly none (some new) none (some new')
  | deleted {old old' : Snapshot} (h : old.AgreeOpenly old') :
      AgreeOpenly (some old) none (some old') none
  | updated {old new old' new' : Snapshot} (hold : old.AgreeOpenly old') (hnew : new.AgreeOpenly new')
      (hunique : new.Unique)
      (hchanges : ∀ key ∈ sensitiveFields, old.Changes new key ↔ old'.Changes new' key) :
      AgreeOpenly (some old) (some new) (some old') (some new')

section
variable {f g : String × Json} {old old' : Snapshot}

/-- A masked field shows no difference. -/
theorem masked_eq (h : f.1 = g.1 ∧ (f.1 ∉ sensitiveFields → f.2 = g.2)) :
    masked f.1 f.2 = masked g.1 g.2 := by
  unfold masked
  rw [← h.1]
  split
  · rfl
  · next hopen => exact h.2 hopen

/-- What is made of the fields of a snapshot with their values masked. -/
theorem map_masked_eq {a b : Snapshot} (h : a.AgreeOpenly b) (entry : Json → Json) :
    a.map (fun f => (f.1, entry (masked f.1 f.2))) =
      b.map (fun f => (f.1, entry (masked f.1 f.2))) := by
  unfold Snapshot.AgreeOpenly at h
  induction h with
  | nil => rfl
  | cons hfg _ ih => rw [List.map_cons, List.map_cons, ih, masked_eq hfg, hfg.1]

/-- What the diff says of a field that both new snapshots have. -/
def diffEntry (old : Snapshot) (f : String × Json) : Option (String × Json) :=
  if ¬ f.2.Equal (old.get f.1) then some (f.1, .arr [masked f.1 (old.get f.1), masked f.1 f.2])
  else none

/-- An entry of the diff shows whether a sensitive field has changed, and nothing else of it. -/
theorem diffEntry_eq (hold : old.AgreeOpenly old')
    (h : f.1 = g.1 ∧ (f.1 ∉ sensitiveFields → f.2 = g.2))
    (hchanges : f.1 ∈ sensitiveFields → (f.2.Equal (old.get f.1) ↔ g.2.Equal (old'.get g.1))) :
    diffEntry old f = diffEntry old' g := by
  obtain ⟨k, v⟩ := f
  obtain ⟨k', v'⟩ := g
  obtain ⟨hkey, hvalue⟩ := h
  dsimp only at hkey hvalue hchanges
  subst hkey
  unfold diffEntry
  dsimp only
  by_cases hk : k ∈ sensitiveFields
  · simp only [masked, if_pos hk, hchanges hk]
  · rw [hvalue hk, hold.get hk]

end

/-- **The diff is blind** for the values of sensitive fields. -/
theorem getDiff_blind {old new old' new' : Option Snapshot} (h : AgreeOpenly old new old' new') :
    getDiff old new = getDiff old' new' := by
  cases h with
  | absent => rfl
  | created h => exact map_masked_eq h fun value => .arr [.null, value]
  | deleted h => exact map_masked_eq h fun value => .arr [value, .null]
  | @updated old new old' new' hold hnew hunique hchanges =>
      have hunique' : new'.Unique := by
        unfold Snapshot.Unique at hunique ⊢
        rwa [← hnew.keys]
      obtain ⟨hlength, hzip⟩ := List.forall₂_iff_zip.mp hnew
      have hentries : List.Forall₂ (fun f g => diffEntry old f = diffEntry old' g) new new' := by
        refine List.forall₂_iff_zip.mpr ⟨hlength, fun {f g} hfg => ?_⟩
        obtain ⟨hf, hg⟩ := List.of_mem_zip hfg
        have hpair := hzip hfg
        refine diffEntry_eq hold hpair fun hk => ?_
        have hiff := hchanges f.1 hk
        unfold Snapshot.Changes at hiff
        rw [hunique.get_of_mem hf, hpair.1, hunique'.get_of_mem hg] at hiff
        rw [hpair.1]
        exact not_iff_not.mp hiff
      change new.filterMap (diffEntry old) = new'.filterMap (diffEntry old')
      clear hnew hunique hunique' hlength hzip hchanges
      induction hentries with
      | nil => rfl
      | cons hfg _ ih => rw [List.filterMap_cons, List.filterMap_cons, hfg, ih]

/-- The log entry is the same for both. -/
theorem logObjectChange_blind {old new old' new' : Option Snapshot}
    (h : AgreeOpenly old new old' new') (env : Env) (actorId targetId : Uuid)
    (targetType action : String) (extraData : Option Snapshot) :
    logObjectChange env actorId targetId targetType action old new extraData =
      logObjectChange env actorId targetId targetType action old' new' extraData := by
  unfold logObjectChange
  rw [getDiff_blind h]

/-! ## Two databases -/

/-- Rows, and instances, of one order with different addresses. -/
def Order.SameButAddress (o o' : Order) : Prop := ∃ a, o' = { o with shippingAddress := a }

def OrderObj.SameButAddress (o o' : OrderObj) : Prop := ∃ a, o' = { o with shippingAddress := a }

structure Db.SameButAddresses (d d' : Db) : Prop where
  products : d.products = d'.products
  reservations : d.reservations = d'.reservations
  orders : d.orders.Like Order.SameButAddress d'.orders
  orderItems : d.orderItems = d'.orderItems
  auditLogs : d.auditLogs = d'.auditLogs

inductive Write.SameButAddress : Write → Write → Prop
  | same (w : Write) : Write.SameButAddress w w
  | addOrder {o o' : OrderObj} (h : o.SameButAddress o') (now : Timestamp) :
      Write.SameButAddress (.addOrder o now) (.addOrder o' now)

/-- The id is not the address. -/
theorem Order.SameButAddress.key {o o' : Order} (h : o.SameButAddress o') :
    Keyed.key o = Keyed.key o' := by
  obtain ⟨a, rfl⟩ := h
  rfl

/-- A move keeps the address as it is. -/
theorem Order.SameButAddress.move {o o' : Order} (h : o.SameButAddress o') (status : OrderStatus)
    (now : Timestamp) : (o.move status now).SameButAddress (o'.move status now) := by
  obtain ⟨a, rfl⟩ := h
  unfold Order.move
  dsimp only
  split
  · exact ⟨a, rfl⟩
  · exact ⟨a, rfl⟩

section
variable {d d' : Db}

/-- The orders of the two databases are the same but for the addresses. -/
theorem Db.SameButAddresses.getOrder (h : d.SameButAddresses d') (id : Uuid) :
    Option.Rel Order.SameButAddress (d.orders.get id) (d'.orders.get id) :=
  h.orders.get (fun _ _ => Order.SameButAddress.key) id

/-- There is an order in both databases, or in neither. -/
theorem Db.SameButAddresses.isSome_getOrder (h : d.SameButAddresses d') (id : Uuid) :
    (d.orders.get id).isSome = (d'.orders.get id).isSome := by
  have hget := h.getOrder id
  generalize d.orders.get id = x at hget ⊢
  generalize d'.orders.get id = y at hget ⊢
  cases hget <;> rfl

/-- Adding them is refused in both tables or in neither. -/
theorem addRow_like {t t' : Table Order} (h : t.Like Order.SameButAddress t') {o o' : Order}
    (ho : o.SameButAddress o') :
    ExceptRel (Table.Like Order.SameButAddress) (addRow t o) (addRow t' o') := by
  have hinsert := h.insert? (fun _ _ => Order.SameButAddress.key) ho
  unfold addRow
  generalize t.insert? o = x at hinsert ⊢
  generalize t'.insert? o' = y at hinsert ⊢
  cases hinsert with
  | none => exact .error _
  | some h => exact .ok h

/-- They are found in both tables or in neither. -/
theorem storedOrder_like (h : d.SameButAddresses d') (id : Uuid) :
    ExceptRel Order.SameButAddress (storedRow d.orders id) (storedRow d'.orders id) := by
  have hget := h.getOrder id
  unfold storedRow
  generalize d.orders.get id = x at hget ⊢
  generalize d'.orders.get id = y at hget ⊢
  cases hget with
  | none => exact .error _
  | some h => exact .ok h

/-- No statement looks at an address. -/
theorem store_respects : store.Respects Db.SameButAddresses Write.SameButAddress := by
  intro w w' d d' hw hd
  have hsome := hd.isSome_getOrder
  have hstored := storedOrder_like hd
  obtain ⟨products, reservations, orders, orderItems, auditLogs⟩ := d
  obtain ⟨products', reservations', orders', orderItems', auditLogs'⟩ := d'
  obtain ⟨rfl, rfl, horders, rfl, rfl⟩ := hd
  dsimp only at hsome hstored
  cases hw with
  | addOrder h now =>
      obtain ⟨a, rfl⟩ := h
      refine .bind_same fun totalAmount => .bind (addRow_like horders ⟨a, rfl⟩) ?_
      exact fun _ _ h => .ok ⟨rfl, rfl, h, rfl, rfl⟩
  | same =>
      cases w with
      | addProduct p =>
          exact .bind_same fun _ => .bind_same fun _ => .ok ⟨rfl, rfl, horders, rfl, rfl⟩
      | updateProduct p now =>
          refine .bind_same fun old => ?_
          dsimp only
          split
          · exact .bind_same fun _ => .ok ⟨rfl, rfl, horders, rfl, rfl⟩
          · exact .ok ⟨rfl, rfl, horders, rfl, rfl⟩
      | setStock id qty now =>
          exact .bind_same fun _ => .bind_same fun _ => .ok ⟨rfl, rfl, horders, rfl, rfl⟩
      | addReservation r =>
          exact .bind_same fun _ => .bind_same fun _ => .bind_same fun _ => .bind_same fun _ =>
            .ok ⟨rfl, rfl, horders, rfl, rfl⟩
      | setReservationStatus id status =>
          exact .bind_same fun _ => .ok ⟨rfl, rfl, horders, rfl, rfl⟩
      | linkOrder id orderId =>
          unfold store Write.apply
          simp only [hsome]
          exact .bind_same fun _ => .bind_same fun _ => .ok ⟨rfl, rfl, horders, rfl, rfl⟩
      | addOrder o now =>
          refine .bind_same fun totalAmount => .bind (addRow_like horders ⟨o.shippingAddress, rfl⟩) ?_
          exact fun _ _ h => .ok ⟨rfl, rfl, h, rfl, rfl⟩
      | addOrderItem i =>
          unfold store Write.apply
          simp only [hsome]
          exact .bind_same fun _ => .bind_same fun _ => .bind_same fun _ => .bind_same fun _ =>
            .bind_same fun _ => .ok ⟨rfl, rfl, horders, rfl, rfl⟩
      | setOrderStatus id status now =>
          refine .bind (hstored id) ?_
          rintro o _ ⟨a, rfl⟩
          refine .ok ⟨rfl, rfl, horders.set (fun _ _ => Order.SameButAddress.key) ?_, rfl, rfl⟩
          exact Order.SameButAddress.move ⟨a, rfl⟩ status now
      | addAuditLog a => exact .ok ⟨rfl, rfl, horders, rfl, rfl⟩

end

/-! ## Two calls -/

/-- The calls do the same, but for addresses, and return related results. -/
abbrev TwinCalls {α : Type} (results : α → α → Prop) (x y : Tx α) : Prop :=
  Twin Db.SameButAddresses Write.SameButAddress results x y

section
variable {α : Type} {d d' : Db} {env : Env}

/-- A check takes the same branch in both runs. -/
theorem twin_raiseIf (c : Prop) [Decidable c] (e : Failure) :
    TwinCalls (fun _ _ => True) (raiseIf c e) (raiseIf c e) := by
  unfold raiseIf
  split
  · exact .fail e
  · exact .pure trivial

/-- A row is found in both runs or in neither. -/
theorem twin_orNotFound {r : α → α → Prop} {x y : Option α} (h : Option.Rel r x y) :
    TwinCalls r (orNotFound x) (orNotFound y) := by
  cases h with
  | none => exact .fail _
  | some h => exact .pure h

/-- What is read of a reservation, a product or an item does not depend on addresses. -/
theorem twin_orNotFound_same (x : Option α) : TwinCalls Eq (orNotFound x) (orNotFound x) := by
  cases x with
  | none => exact .fail _
  | some a => exact .pure rfl

/-- A reservation is the same in both runs. -/
theorem twin_selectReservation (id : Uuid) (cond : Reservation → Bool) :
    TwinCalls Eq (selectReservationForUpdate id cond) (selectReservationForUpdate id cond) :=
  twin_bind (twin_selectForUpdate fun d d' h => by rw [h.reservations]) fun d d' h =>
    twin_pure (by rw [h.reservations])

/-- So is the reservation of an order. -/
theorem twin_selectReservationByOrder (orderId : Uuid) :
    TwinCalls Eq (selectReservationByOrderForUpdate orderId)
      (selectReservationByOrderForUpdate orderId) := by
  refine twin_bind (twin_selectForUpdate fun d d' h => by rw [h.reservations]) fun d d' h => ?_
  rw [h.reservations]
  generalize d'.reservations.rows.filter (fun r => r.orderId = some orderId) = rows
  match rows with
  | [] => exact twin_pure rfl
  | [r] => exact twin_pure rfl
  | _ :: _ :: _ => exact twin_throw _

/-- So is a product. -/
theorem twin_selectProduct (id : Uuid) :
    TwinCalls Eq (selectProductForUpdate id) (selectProductForUpdate id) :=
  twin_bind (twin_selectForUpdate fun d d' h => by rw [h.products]) fun d d' h =>
    twin_pure (by rw [h.products])

/-- An order is the same but for its address. -/
theorem twin_selectOrder (id : Uuid) :
    TwinCalls (Option.Rel Order.SameButAddress) (selectOrderForUpdate id) (selectOrderForUpdate id) := by
  refine twin_bind (twin_selectForUpdate fun d d' h => ?_) fun d d' h => twin_pure (h.getOrder id)
  have hget := h.getOrder id
  generalize d.orders.get id = x at hget ⊢
  generalize d'.orders.get id = y at hget ⊢
  cases hget <;> rfl

/-- The items of an order are the same. -/
theorem twin_selectItems (orderId : Uuid) :
    TwinCalls Eq (selectItems orderId) (selectItems orderId) :=
  twin_bind twin_select fun d d' h => twin_pure (by rw [h.orderItems])

/-- A log entry that is the same keeps the runs together. -/
theorem twin_addLog (entry : Option AuditLog) :
    TwinCalls (fun _ _ => True) (addLog entry) (addLog entry) := by
  cases entry with
  | none => exact .pure trivial
  | some a => exact twin_save (.same _)

/-! ## Entries -/

/-- The dumps of the orders agree on all open fields. -/
theorem OrderObj.SameButAddress.dump {o o' : OrderObj} (h : o.SameButAddress o') :
    o.dump.AgreeOpenly o'.dump := by
  obtain ⟨a, rfl⟩ := h
  simp [Snapshot.AgreeOpenly, OrderObj.dump, sensitiveFields]

/-- A dump has no field twice. -/
theorem unique_dump_order (o : OrderObj) : o.dump.Unique := by
  simp [Snapshot.Unique, Snapshot.keys, OrderObj.dump]

/-- A status change leaves the sensitive fields alone. -/
theorem not_changes_moved (o : OrderObj) (status : OrderStatus) {key : String}
    (hkey : key ∈ sensitiveFields) : ¬ o.dump.Changes (o.moved status).dump key := by
  unfold Snapshot.Changes
  have hsame : (o.moved status).dump.get key = o.dump.get key := by
    simp only [sensitiveFields, List.mem_cons, List.not_mem_nil, or_false] at hkey
    rcases hkey with rfl | rfl
    · rfl
    · rfl
  rw [hsame]
  exact not_not.mpr (Json.Equal.refl _)

/-- The entry of a new order does not tell its address. -/
theorem orderEntry_created {o : OrderObj} (o' : OrderObj) (h : o.SameButAddress o') (user : User)
    (action : String) : orderEntry env user o none action = orderEntry env user o' none action := by
  have hid : o.id = o'.id := by
    obtain ⟨a, rfl⟩ := h
    rfl
  unfold orderEntry
  rw [hid]
  exact logObjectChange_blind (.created h.dump) _ _ _ _ _ _

/-- Nor does that of a settled one. -/
theorem orderEntry_settled {o : OrderObj} (o' : OrderObj) (h : o.SameButAddress o') (user : User)
    (status : OrderStatus) (action : String) :
    orderEntry env user (o.moved status) (some o) action =
      orderEntry env user (o'.moved status) (some o') action := by
  have hmoved : (o.moved status).SameButAddress (o'.moved status) := by
    obtain ⟨a, rfl⟩ := h
    exact ⟨a, rfl⟩
  have hid : (o.moved status).id = (o'.moved status).id := by
    obtain ⟨a, rfl⟩ := h
    rfl
  unfold orderEntry
  rw [hid]
  refine logObjectChange_blind (.updated h.dump hmoved.dump (unique_dump_order _) fun key hkey => ?_)
    _ _ _ _ _ _
  exact iff_of_false (not_changes_moved o status hkey) (not_changes_moved o' status hkey)

/-! ## Creation -/

/-- Ordering leads to the same order but for the address. -/
theorem twin_createOrder (user : User) (reservationId : Uuid) (address address' : Option String) :
    TwinCalls OrderObj.SameButAddress
      (createOrderFromReservation env user ⟨reservationId, address⟩)
      (createOrderFromReservation env user ⟨reservationId, address'⟩) := by
  refine twin_bind (twin_selectReservation _ _) ?_
  rintro found _ rfl
  refine twin_bind (twin_orNotFound_same found) ?_
  rintro r _ rfl
  refine twin_bind (twin_raiseIf _ _) fun _ _ _ => ?_
  refine twin_bind (twin_raiseIf _ _) fun _ _ _ => ?_
  refine twin_bind twin_select fun d d' h => ?_
  rw [h.products]
  refine twin_bind (twin_orNotFound_same _) ?_
  rintro p _ rfl
  refine twin_bind (twin_save (.addOrder ⟨address', rfl⟩ _)) fun _ _ _ => ?_
  refine twin_bind (twin_save (.same _)) fun _ _ _ => ?_
  refine twin_bind (twin_save (.same _)) fun _ _ _ => ?_
  refine twin_bind (twin_selectItems _) ?_
  rintro stored _ rfl
  dsimp only
  unfold logOrderChange
  rw [orderEntry_created ({ newOrder env user ⟨reservationId, address'⟩ r p with
    items := stored.map .load ++ [newOrderItem env r p] }) ⟨address', rfl⟩]
  refine twin_bind (twin_addLog _) fun _ _ _ => ?_
  exact twin_bind twin_commitWork fun _ _ _ => twin_pure ⟨address', rfl⟩

/-! ## Payment and cancellation -/

/-- An order for an update is the same but for the address. -/
theorem twin_getOrder (orderId : Uuid) (user : User) : TwinCalls Order.SameButAddress
    (getOrderForUpdate orderId user) (getOrderForUpdate orderId user) := by
  refine twin_bind (twin_selectOrder orderId) fun _ _ hfound => ?_
  refine twin_bind (twin_orNotFound hfound) ?_
  rintro o _ ⟨a, rfl⟩
  refine twin_bind (twin_ofExcept (.refl (fun _ => rfl) _)) fun _ _ _ => ?_
  exact twin_pure ⟨a, rfl⟩

/-- Settling it keeps the runs together. -/
theorem twin_settleOrder (orderId : Uuid) (user : User) (status : OrderStatus) (action : String)
    {settle : Tx Unit} (hsettle : TwinCalls (fun _ _ => True) settle settle) :
    TwinCalls OrderObj.SameButAddress (settleOrder env orderId user status action settle)
      (settleOrder env orderId user status action settle) := by
  refine twin_bind (twin_getOrder orderId user) ?_
  rintro o _ ⟨a, rfl⟩
  refine twin_bind (twin_raiseIf _ _) fun _ _ _ => ?_
  refine twin_bind (twin_selectItems orderId) ?_
  rintro items _ rfl
  dsimp only
  refine twin_bind (twin_save (.same _)) fun _ _ _ => ?_
  unfold logOrderChange
  rw [orderEntry_settled (.load { o with shippingAddress := a } items) ⟨a, rfl⟩]
  refine twin_bind (twin_addLog _) fun _ _ _ => ?_
  refine twin_bind hsettle fun _ _ _ => ?_
  exact twin_bind twin_commitWork fun _ _ _ => twin_pure ⟨a, rfl⟩

/-- So does the completion of its reservation. -/
theorem twin_markCompleted (orderId : Uuid) : TwinCalls (fun _ _ => True)
    (markReservationByOrderAsCompleted orderId) (markReservationByOrderAsCompleted orderId) := by
  refine twin_bind (twin_selectReservationByOrder orderId) ?_
  rintro found _ rfl
  refine twin_bind (twin_orNotFound_same found) ?_
  rintro r _ rfl
  exact twin_save (.same _)

/-- So does the return of its units. -/
theorem twin_returnStock (r : Reservation) (product : Option Product) :
    TwinCalls (fun _ _ => True) (returnStock env r product) (returnStock env r product) := by
  cases product with
  | none => exact .pure trivial
  | some p => exact twin_save (.same _)

/-- So does the cancellation of its reservation. -/
theorem twin_cancelReservation (orderId : Uuid) : TwinCalls (fun _ _ => True)
    (cancelReservationByOrderAndReturnStock env orderId)
    (cancelReservationByOrderAndReturnStock env orderId) := by
  refine twin_bind (twin_selectReservationByOrder orderId) ?_
  rintro found _ rfl
  refine twin_bind (twin_orNotFound_same found) ?_
  rintro r _ rfl
  refine twin_bind (twin_selectProduct _) ?_
  rintro product _ rfl
  exact twin_bind (twin_returnStock r product) fun _ _ _ => twin_save (.same _)

end

/-! ## Two runs -/

/-- The operations on orders; two creations may have different addresses. -/
inductive Call.SameButAddress : Call → Call → Prop
  | createOrder (user : User) (reservationId : Uuid) (address address' : Option String) :
      Call.SameButAddress (.createOrder user ⟨reservationId, address⟩)
        (.createOrder user ⟨reservationId, address'⟩)
  | confirmOrderPayment (orderId : Uuid) (user : User) :
      Call.SameButAddress (.confirmOrderPayment orderId user) (.confirmOrderPayment orderId user)
  | cancelOrder (orderId : Uuid) (user : User) :
      Call.SameButAddress (.cancelOrder orderId user) (.cancelOrder orderId user)

/-- Calls that differ in addresses alone keep the runs together. -/
theorem Call.SameButAddress.twin {c c' : Call} (h : c.SameButAddress c') (env : Env) :
    TwinCalls (fun _ _ => True) (c.program env) (c'.program env) := by
  refine twin_inSession ?_
  cases h with
  | createOrder user reservationId address address' =>
      exact twin_map (twin_createOrder user reservationId address address') fun _ _ _ => trivial
  | confirmOrderPayment orderId user =>
      exact twin_map (twin_settleOrder orderId user _ _ (twin_markCompleted orderId))
        fun _ _ _ => trivial
  | cancelOrder orderId user =>
      exact twin_map (twin_settleOrder orderId user _ _ (twin_cancelReservation orderId))
        fun _ _ _ => trivial

section
variable {T : Type} [DecidableEq T]

/-- Calls that run at the same time on the database `d`. -/
def callsOn (d : Db) (calls : T → Call × Env) :
    Sys Session Db Row Write Failure Response T :=
  .start d fun t => ((calls t).1.program (calls t).2, .fresh)

/-- Who committed when, and the log as it was after each step. -/
def logs (x : List (Event Db Write T) × Sys Session Db Row Write Failure Response T) :
    List (T × Bool × List AuditLog) × List AuditLog :=
  (x.1.map fun ev => (ev.txn, ev.commit.isSome, ev.after.auditLogs), x.2.db.auditLogs)

/-- The two interleaved runs write the same log. -/
theorem map_logs_eq {d d' : Db} {calls calls' : T → Call × Env} (hd : d.SameButAddresses d')
    (hcalls : ∀ t, (calls t).1.SameButAddress (calls' t).1 ∧ (calls t).2 = (calls' t).2)
    (sched : List (T × Bool)) :
    ((callsOn d calls).exec store (fun _ _ => true) sched).map logs =
      ((callsOn d' calls').exec store (fun _ _ => true) sched).map logs := by
  have hstart : Alike Db.SameButAddresses Write.SameButAddress (fun _ _ => True) (callsOn d calls)
      (callsOn d' calls') :=
    alike_start hd (fun t => (hcalls t).2 ▸ (hcalls t).1.twin _) fun _ => rfl
  have hexec := hstart.exec store_respects sched
  generalize (callsOn d calls).exec store (fun _ _ => true) sched = x at hexec ⊢
  generalize (callsOn d' calls').exec store (fun _ _ => true) sched = y at hexec ⊢
  cases hexec with
  | none => rfl
  | @some x y hxy =>
      obtain ⟨hevs, hend⟩ := hxy
      obtain ⟨evs, s⟩ := x
      obtain ⟨evs', s'⟩ := y
      refine congrArg some (Prod.ext ?_ hend.db.auditLogs)
      dsimp only [logs] at hevs ⊢
      clear hend
      induction hevs with
      | nil => rfl
      | cons hev _ ih =>
          rw [List.map_cons, List.map_cons, ih, hev.txn, hev.commit, hev.after.auditLogs]

end

/-- **No sensitive value reaches the log.**  Under one schedule, with the same
failing statements, two runs of order operations that differ in shipping addresses
alone commit at the same points and write the same log; and two pairs of
snapshots that agree on all other fields, and on which sensitive ones changed,
make the same entry. -/
theorem log_hides_sensitive :
    (∀ (T : Type) [DecidableEq T] (d d' : Db) (calls calls' : T → Call × Env),
      d.SameButAddresses d' →
      (∀ t, (calls t).1.SameButAddress (calls' t).1 ∧ (calls t).2 = (calls' t).2) →
      ∀ sched, ((callsOn d calls).exec store (fun _ _ => true) sched).map logs =
        ((callsOn d' calls').exec store (fun _ _ => true) sched).map logs) ∧
    ∀ old new old' new' : Option Snapshot, AgreeOpenly old new old' new' →
      ∀ env actorId targetId targetType action extraData,
        logObjectChange env actorId targetId targetType action old new extraData =
          logObjectChange env actorId targetId targetType action old' new' extraData :=
  ⟨fun _ _ _ _ _ _ hd hcalls sched => map_logs_eq hd hcalls sched,
    fun _ _ _ _ h => logObjectChange_blind h⟩

/-- Two of ten lamps are reserved. -/
def reservedDb : Db where
  products := ⟨[⟨0, 1, "Lamp", none, ⟨999, by decide⟩, ⟨8, by decide⟩, 0, 0, .active, none, none⟩],
    by simp⟩
  reservations := ⟨[⟨1, 2, 3, 0, .pending, "key", none, 900⟩], by simp⟩
  orders := .empty
  orderItems := .empty
  auditLogs := []

/-- The buyer orders them, to `address`. -/
def orderTo (address : Option String) (_ : Fin 1) : Call × Env :=
  (.createOrder buyer ⟨1, address⟩, shopEnv 2 2)

/-- One entry is written, whether or not there is an address. -/
theorem log_hides_sensitive_lamps :
    (((callsOn reservedDb (orderTo none)).exec store (fun _ _ => true) (turns [(0, 8)])).any
      fun x => decide ((logs x).2.length = 1)) = true ∧
    ((callsOn reservedDb (orderTo none)).exec store (fun _ _ => true) (turns [(0, 8)])).map logs =
      ((callsOn reservedDb (orderTo (some "Main St 1"))).exec store (fun _ _ => true)
        (turns [(0, 8)])).map logs ∧
    logObjectChange (shopEnv 2 2) 3 4 "user" "update" (some [("email", .str "a@b")])
        (some [("email", .str "c@d")]) none =
      logObjectChange (shopEnv 2 2) 3 4 "user" "update" (some [("email", .null)])
        (some [("email", .str "e@f")]) none := by
  have hsame : reservedDb.SameButAddresses reservedDb := ⟨rfl, rfl, .nil, rfl, rfl⟩
  have hcalls : ∀ t, (orderTo none t).1.SameButAddress (orderTo (some "Main St 1") t).1 ∧
      (orderTo none t).2 = (orderTo (some "Main St 1") t).2 :=
    fun _ => ⟨.createOrder buyer 1 none (some "Main St 1"), rfl⟩
  refine ⟨by decide +kernel, log_hides_sensitive.1 _ _ _ _ _ hsame hcalls _,
    log_hides_sensitive.2 _ _ _ _ ?_ _ _ _ _ _ _⟩
  refine .updated ?_ ?_ (by simp [Snapshot.Unique, Snapshot.keys]) ?_
  · simp [Snapshot.AgreeOpenly, sensitiveFields]
  · simp [Snapshot.AgreeOpenly, sensitiveFields]
  · decide +kernel

end FairDrop
