import FairDrop.Expiry
import FairDrop.ExpiryPass
import Mathlib.Algebra.Order.BigOperators.Group.List

/-!
# FairDrop.Returns

Room for the units that come back.  A cancellation and a release add the units of
a pending reservation to a stock that the seller may have set anew since they were
taken off.  What keeps the sum in its column is a property of whole runs: beside
each stock there is room for all the units that are pending (`HasRoom`).  Only an
edit of the quantity can take that room away (`Call.LeavesRoom`).
-/

namespace FairDrop

open RowStore

/-! ## Pending units -/

/-- Units of `p` that a reservation may still return. -/
def pendingOf (p : Uuid) (r : Reservation) : Int :=
  if r.productId = p ∧ r.status = .pending then r.qtyReserved else 0

def pendingUnits (d : Db) (p : Uuid) : Int := d.reservations.sum (pendingOf p)

/-- Beside each stock there is room for all the units that are pending. -/
def HasRoom (d : Db) : Prop := ∀ p, stock d p + pendingUnits d p ≤ int32Max

/-- A new quantity leaves room for the units that are pending. -/
def Call.LeavesRoom (d : Db) : Call → Prop
  | .updateProduct id data _ => match data.qtyAvailable with
    | some (some n) => n.val + pendingUnits d id ≤ int32Max
    | some none | none => True
  | _ => True

instance (d : Db) (c : Call) : Decidable (c.LeavesRoom d) := by
  unfold Call.LeavesRoom
  split
  · split <;> infer_instance
  · infer_instance

section
variable {d d' : Db} {env : Env} {alone : Bool} {c : Call}

theorem pendingOf_nonneg (h : Coupled d) {r : Reservation} (hr : r ∈ d.reservations.rows)
    (p : Uuid) : 0 ≤ pendingOf p r := by
  have hpos := h.positive r hr
  unfold pendingOf
  split <;> omega

/-- The units of one reservation are among those that are pending. -/
theorem qtyReserved_le_pendingUnits (h : Coupled d) {r : Reservation}
    (hr : r ∈ d.reservations.rows) (hpending : r.status = .pending) :
    r.qtyReserved ≤ pendingUnits d r.productId := by
  have hown : pendingOf r.productId r = r.qtyReserved := if_pos ⟨rfl, hpending⟩
  rw [← hown]
  refine List.single_le_sum (fun x hx => ?_) _ (List.mem_map_of_mem hr)
  obtain ⟨r', hr', rfl⟩ := List.mem_map.mp hx
  exact pendingOf_nonneg h hr' _

/-- Nobody has reserved what does not exist. -/
theorem pendingUnits_of_unlisted (h : Coupled d) {p : Uuid} (hp : d.products.get p = none) :
    pendingUnits d p = 0 := by
  refine List.sum_eq_zero fun x hx => ?_
  obtain ⟨r, hr, rfl⟩ := List.mem_map.mp hx
  refine if_neg fun hof => ?_
  have hsome := h.product r hr
  rw [hof.1, hp] at hsome
  contradiction

/-! ## One change -/

theorem pendingOf_le_unitsOf {r : Reservation} (hqty : 0 ≤ r.qtyReserved) (p : Uuid) :
    pendingOf p r ≤ unitsOf p r := by
  unfold pendingOf unitsOf Reservation.holds
  split
  · next hpending => simp [hpending]
  · split
    · exact hqty
    · exact le_refl 0

theorem pendingOf_of_pending {r : Reservation} (hpending : r.status = .pending) (p : Uuid) :
    pendingOf p r = unitsOf p r := by
  simp [pendingOf, unitsOf, Reservation.holds, hpending]

/-- The units that are held beyond the pending ones are sold, and stay so. -/
theorem Change.pendingUnits_le (h : Coupled d) (hc : Change env alone d c d') (p : Uuid) :
    pendingUnits d' p - pendingUnits d p ≤ heldUnits d' p - heldUnits d p := by
  unfold pendingUnits heldUnits
  obtain hsame | ⟨a, b, ha, hstep, hset⟩ | ⟨userId, key, data, hnew, -, hadd⟩ :=
    hc.reservations_cases h
  · rw [hsame]
    omega
  · have hkey : Keyed.key b = a.id := hstep.id
    have hpending := Table.sum_set (hkey.symm ▸ ha) (pendingOf p)
    have hheld := Table.sum_set (hkey.symm ▸ ha) (unitsOf p)
    rw [hset, hpending, hheld]
    by_cases hstatus : a.status = .pending
    · have hpos := h.positive a (Table.mem_of_get ha)
      have hqty := hstep.qtyReserved
      have hle : pendingOf p b ≤ unitsOf p b := pendingOf_le_unitsOf (by omega) p
      have heq := pendingOf_of_pending hstatus p
      omega
    · rw [hstep.settled hstatus]
      omega
  · rw [hadd, Table.sum_insert, Table.sum_insert]
    have heq := pendingOf_of_pending (r := newReservation env userId key data) rfl p
    omega

/-- **A change keeps the room**, if it leaves it. -/
theorem HasRoom.change (hroom : HasRoom d) (h : Coupled d) (hc : Change env alone d c d')
    (hleaves : c.LeavesRoom d) : HasRoom d' := by
  intro p
  have hbefore := hroom p
  have hconserves := hc.conserves h p
  have hpending := hc.pendingUnits_le h p
  cases c with
  | createProduct ownerId data user =>
      simp only [supplyOf] at hconserves
      split at hconserves
      · next hid =>
          have hqty : data.qtyAvailable.val ≤ int32Max := by
            cases hc with
            | moderate _ _ _ _ hm => contradiction
            | createProduct x entry hs hnew =>
                have hstored := Option.some.inj hs.qtyAvailable
                have hmax := x.qtyAvailable.property.2
                change data.qtyAvailable.val = _ at hstored
                omega
          have hnone : d.products.get p = none := by
            cases hc with
            | moderate _ _ _ _ hm => contradiction
            | createProduct x entry hs hnew =>
                have hxid : x.id = p := hs.id.trans hid
                exact hxid ▸ hnew
          have hstock : stock d p = 0 := by rw [stock, hnone]
          have hzero := pendingUnits_of_unlisted h hnone
          omega
      · omega
  | updateProduct id data user =>
      simp only [supplyOf] at hconserves
      simp only [Call.LeavesRoom] at hleaves
      split at hconserves
      · next n hset =>
          rw [hset] at hleaves
          split at hconserves
          · next hid =>
              subst hid
              omega
          · omega
      · omega
      · omega
  | _ =>
      simp only [supplyOf] at hconserves
      omega

end

/-! ## Runs -/

section
variable {T : Type} {actors : T → Actor}

/-- A request leaves room when it commits, and a pass sees the committed stock. -/
def KeepsRoom (actors : T → Actor) (s : World T) (t : T) : Prop :=
  match actors t with
  | .request call _ => s.committing t → call.LeavesRoom s.db
  | .sweep _ _ _ => SeesCommitted s t

instance (actors : T → Actor) (s : World T) (t : T) : Decidable (KeepsRoom actors s t) := by
  unfold KeepsRoom
  split <;> infer_instance

theorem tracked_keepsRoom :
    Tracked actors (KeepsRoom actors) (fun _ _ => True) True UpToDate where
  sorted := tracked_seesCommitted.sorted
  fresh := tracked_seesCommitted.fresh
  grants := fun s t h => by
    unfold KeepsRoom at h
    cases hactor : actors t with
    | request call env =>
        intro find k r _ _
        trivial
    | sweep env expireOnCommit scan =>
        rw [hactor] at h
        have hsees : Tracked actors SeesCommitted (fun _ _ => True) True UpToDate :=
          tracked_seesCommitted
        have hgrant := hsees.grants s t h
        rwa [hactor] at hgrant

variable [DecidableEq T] {s : World T} {evs : List (Event Db Write T)}

/-- **There is room** in every state of such a run. -/
theorem hasRoom (hrun : Run store (KeepsRoom actors) (World.start actors) evs s) :
    HasRoom s.db := by
  obtain ⟨-, -, hlaws⟩ := World.tracks tracked_keepsRoom hrun
  have hempty : HasRoom Db.empty := fun p => by
    change (0 : Int) + 0 ≤ int32Max
    decide
  refine (hrun.keeps hempty fun ev hev hroom => ?_).1
  obtain ⟨hbefore, -, hlaw⟩ := hlaws ev hev
  cases hcommit : ev.commit with
  | none =>
      rw [hcommit] at hlaw
      exact hlaw ▸ hroom
  | some ws =>
      rw [hcommit] at hlaw
      obtain ⟨pre, s₁, -, hkeeps, hcommitting, hdb⟩ :=
        hrun.at_commit hev (Option.isSome_of_eq_some hcommit)
      unfold KeepsRoom at hkeeps
      cases hactor : actors ev.txn with
      | request call env =>
          rw [hactor] at hlaw hkeeps
          have hleaves := hkeeps hcommitting
          exact hroom.change hbefore hlaw (hdb ▸ hleaves)
      | sweep env expireOnCommit scan =>
          rw [hactor] at hlaw
          obtain ⟨id, hrelease⟩ := hlaw
          have hchange : Change env false _ (.releaseReservation id) _ := hrelease.change trivial
          exact hroom.change hbefore hchange trivial

end

/-! ## Cancellations and releases -/

section
variable {env : Env} {d : Db} {r : Reservation} {p : Product}

/-- A stock with room for the units is written, and the reservation settled. -/
theorem applyAll_return (status : OrderStatus) (now : Timestamp)
    (hr : d.reservations.get r.id = some r) (hp : d.products.get r.productId = some p)
    (hqty : 0 ≤ r.qtyReserved) (hfits : p.qtyAvailable.val + r.qtyReserved ≤ int32Max) :
    ∃ q : Stock, q.val = p.qtyAvailable.val + r.qtyReserved ∧
      store.applyAll [.setStock p.id (p.qtyAvailable.val + r.qtyReserved) now,
        .setReservationStatus r.id status] d = .ok { d with
          products := d.products.set { p with qtyAvailable := q, updatedAt := now }
          reservations := d.reservations.set { r with status := status } } := by
  have hpid : p.id = r.productId := Table.key_of_get hp
  have hnonneg := p.qtyAvailable.property.1
  let q : Stock := ⟨p.qtyAvailable.val + r.qtyReserved, by omega, hfits⟩
  let restocked : Db := { d with
    products := d.products.set { p with qtyAvailable := q, updatedAt := now } }
  have hstock : store.apply (.setStock p.id (p.qtyAvailable.val + r.qtyReserved) now) d =
      .ok restocked := apply_setStock.mpr ⟨p, q, hpid ▸ hp, rfl, rfl⟩
  have hstatus : store.apply (.setReservationStatus r.id status) restocked = .ok { restocked with
      reservations := d.reservations.set { r with status := status } } :=
    apply_setReservationStatus.mpr ⟨r, hr, rfl⟩
  exact ⟨q, rfl, Store.applyAll_cons.mpr ⟨restocked, hstock,
    Store.applyAll_singleton.trans hstatus⟩⟩

/-- The linked order, if there is one, is cancelled. -/
theorem applyAll_cancelWrites (env : Env)
    (hlinked : ∀ orderId, r.orderId = some orderId → (d.orders.get orderId).isSome) :
    ∃ orders, store.applyAll (cancelWrites env r) d = .ok { d with orders := orders } := by
  unfold cancelWrites
  cases hlink : r.orderId with
  | none => exact ⟨d.orders, rfl⟩
  | some orderId =>
      obtain ⟨o, ho⟩ := Option.isSome_iff_exists.mp (hlinked orderId hlink)
      have hmoved : store.apply (.setOrderStatus orderId .cancelled env.now) d =
          .ok { d with orders := d.orders.set (o.move .cancelled env.now) } :=
        apply_setOrderStatus.mpr ⟨o, ho, rfl⟩
      exact ⟨_, Store.applyAll_singleton.trans hmoved⟩

theorem returnsUnits_of_restocks {status : OrderStatus} {e : Db}
    (hr : d.reservations.get r.id = some r) (hpending : r.status = .pending)
    (hreleased : ({ r with status := status } : Reservation).released)
    (hset : e.reservations = d.reservations.set { r with status := status })
    (hstock : Restocks env d r e.products) : returnsUnits d e r.id := by
  have hget : e.reservations.get r.id = some { r with status := status } := by
    rw [hset]
    exact Table.get_set_self (x := r) hr
  have hback := hstock.stock r.productId
  rw [if_pos rfl] at hback
  have hholds : r.holds := by simp [Reservation.holds, hpending]
  unfold returnsUnits
  rw [hr, hget]
  simp [hholds, hreleased, hback]

/-- With a pending order all depends on the commit. -/
theorem exec_cancelOrder (env : Env) {user : User} {o : Order} (ho : d.orders.get o.id = some o)
    (howner : checkOwnership user o.owned = .ok ()) (hstatus : o.status = .pending)
    (hr : d.reservations.rows.filter (fun r => r.orderId = some o.id) = [r])
    (hp : d.products.get r.productId = some p) : ∃ (entry : Option AuditLog) (order : OrderObj),
      exec store (cancelOrder env o.id user) [] d [] .fresh =
        exec store (Prog.commitWork >>= fun _ => pure order : Tx OrderObj) [] d
          (settlingWrites env o .cancelled entry ++
            [.setStock p.id (p.qtyAvailable.val + r.qtyReserved) env.now,
              .setReservationStatus r.id .cancelled]) .fresh := by
  let items := d.orderItems.rows.filter fun i => i.orderId = o.id
  let order := (OrderObj.load o items).moved .cancelled
  refine ⟨orderEntry env user order (some (.load o items)) "cancel", order, ?_⟩
  change exec store (((orNotFound (d.orders.get o.id)).bind _).bind _) [] d [] .fresh = _
  rw [ho]
  change exec store (((Prog.ofExcept (checkOwnership user o.owned)).bind _).bind _) [] d []
    Session.fresh = _
  rw [howner]
  change exec store ((raiseIf (o.status ≠ .pending) .conflict).bind _) [] d [] .fresh = _
  rw [raiseIf, if_neg (not_not.mpr hstatus)]
  change exec store ((addLog (orderEntry env user order (some (.load o items)) "cancel")).bind _) []
    d [.setOrderStatus o.id .cancelled env.now] Session.fresh = _
  cases orderEntry env user order (some (.load o items)) "cancel"
  all_goals
    change exec store (((scalarOneOrNone (d.reservations.rows.filter fun r =>
      r.orderId = some o.id)).bind _).bind _) [] d _ Session.fresh = _
    rw [hr]
    change exec store (((returnStock env r (d.products.get r.productId)).bind _).bind _) [] d _
      Session.fresh = _
    rw [hp]
    rfl

theorem exec_selectReservationForUpdate {α : Type} {id : Uuid} {cond : Reservation → Bool}
    {f : Option Reservation → Tx α} {ws : List Write} {session : Session} :
    exec store (selectReservationForUpdate id cond >>= f) [] d ws session =
      exec store (f ((d.reservations.get id).filter cond)) [] d ws session := rfl

/-- With a pending reservation too. -/
theorem exec_releaseReservation {session : Session} (hr : d.reservations.get r.id = some r)
    (hstatus : r.status = .pending) (hp : d.products.get r.productId = some p)
    (hshows : session.qtyAvailable p = p.qtyAvailable.val)
    (hlinked : ∀ orderId, r.orderId = some orderId → (d.orders.get orderId).isSome) :
    exec store (releaseReservation env workerExpireOnCommit r.id) [] d [] session =
      exec store (Prog.commitWork >>= fun _ => pure () : Tx Unit) [] d
        ([.setStock p.id (p.qtyAvailable.val + r.qtyReserved) env.now,
          .setReservationStatus r.id .expired] ++ cancelWrites env r)
        ⟨some (p.id, p.qtyAvailable.val + r.qtyReserved)⟩ := by
  have hfound : (d.reservations.get r.id).filter (fun _ => true) = some r := by
    rw [hr]
    rfl
  rw [releaseReservation, exec_selectReservationForUpdate, hfound]
  simp only [hstatus, ne_eq, not_true_eq_false, if_false]
  change exec store ((returnStockInSession env r (d.products.get r.productId)).bind _) [] d []
    session = _
  rw [hp]
  change exec store ((cancelLinkedOrder env r).bind _) [] d
    [.setStock p.id (session.qtyAvailable p + r.qtyReserved) env.now,
      .setReservationStatus r.id .expired]
    ⟨some (p.id, session.qtyAvailable p + r.qtyReserved)⟩ = _
  rw [hshows]
  unfold cancelLinkedOrder cancelWrites
  cases hlink : r.orderId with
  | none => rfl
  | some orderId =>
      obtain ⟨o, ho⟩ := Option.isSome_iff_exists.mp (hlinked orderId hlink)
      obtain rfl : o.id = orderId := Table.key_of_get ho
      change exec store (((orNotFound (d.orders.get o.id)).bind _).bind _) [] d _ _ = _
      rw [ho]
      rfl

/-- The order of the reservation is cancelled, and its units are back. -/
def Cancels (env : Env) (user : User) (d : Db) (o : Order) : Prop :=
  let outcome := exec store (cancelOrder env o.id user) [] d [] .fresh
  (∃ order, outcome.value = .ok order) ∧
    ∃ r ∈ d.reservations.rows, r.orderId = some o.id ∧ returnsUnits d outcome.db r.id

/-- The reservation expires, and its units are back. -/
def Releases (env : Env) (session : Session) (d : Db) (r : Reservation) : Prop :=
  let outcome := exec store (releaseReservation env workerExpireOnCommit r.id) [] d [] session
  outcome.value = .ok () ∧ returnsUnits d outcome.db r.id

/-- The units of every pending reservation fit beside the stock, so its order can be
cancelled and, by a session that sees the stock, the reservation released. -/
structure Returnable (d : Db) : Prop where
  fits : ∀ r ∈ d.reservations.rows, r.status = .pending →
    stock d r.productId + r.qtyReserved ≤ int32Max
  cancels : ∀ env user, ∀ o ∈ d.orders.rows, o.status = .pending →
    checkOwnership user o.owned = .ok () → Cancels env user d o
  releases : ∀ env session, ∀ r ∈ d.reservations.rows, r.status = .pending → session.Shows d →
    Releases env session d r

theorem cancels_of_fits (h : Coupled d) {user : User} {o : Order} (ho : o ∈ d.orders.rows)
    (hstatus : o.status = .pending) (howner : checkOwnership user o.owned = .ok ())
    (hfits : ∀ r ∈ d.reservations.rows, r.status = .pending →
      stock d r.productId + r.qtyReserved ≤ int32Max) : Cancels env user d o := by
  obtain ⟨r, hr, hlink⟩ := h.referenced o ho
  have hpending := h.pending_of_order hr (Table.get_of_mem ho) hlink hstatus
  have hone : d.reservations.rows.filter (fun r => r.orderId = some o.id) = [r] := by
    refine Table.filter_eq_singleton hr (decide_eq_true hlink) fun x hx hxlink => ?_
    rw [h.injective x hx r hr o.id (of_decide_eq_true hxlink) hlink]
  obtain ⟨p, hp⟩ := Option.isSome_iff_exists.mp (h.product r hr)
  have hfit := hfits r hr hpending
  rw [stock_of_get hp] at hfit
  have hpos := h.positive r hr
  obtain ⟨entry, order, hexec⟩ := exec_cancelOrder env (Table.get_of_mem ho) howner hstatus hone hp
  let settled : Db := { d with
    orders := d.orders.set (o.move .cancelled env.now)
    auditLogs := d.auditLogs ++ entry.toList }
  have hmoved : store.apply (.setOrderStatus o.id .cancelled env.now) d =
      .ok { d with orders := d.orders.set (o.move .cancelled env.now) } :=
    apply_setOrderStatus.mpr ⟨o, Table.get_of_mem ho, rfl⟩
  have hsettled : store.applyAll (settlingWrites env o .cancelled entry) d = .ok settled :=
    Store.applyAll_cons.mpr ⟨_, hmoved, applyAll_logs.mpr rfl⟩
  have hget : settled.reservations.get r.id = some r := Table.get_of_mem hr
  obtain ⟨q, hq, hreturn⟩ := applyAll_return .cancelled env.now hget hp (by omega) hfit
  obtain ⟨hvalue, hdb⟩ := exec_commitWork_ok (s := Session.fresh) order
    (Store.applyAll_append.mpr ⟨settled, hsettled, hreturn⟩)
  unfold Cancels
  rw [hexec]
  refine ⟨⟨order, hvalue⟩, r, hr, hlink, ?_⟩
  rw [hdb]
  exact returnsUnits_of_restocks (Table.get_of_mem hr) hpending rfl rfl ⟨p, q, hp, hq, rfl⟩

theorem releases_of_fits (h : Coupled d) {session : Session} (hr : r ∈ d.reservations.rows)
    (hpending : r.status = .pending) (hshows : session.Shows d)
    (hfits : stock d r.productId + r.qtyReserved ≤ int32Max) : Releases env session d r := by
  have hget := Table.get_of_mem hr
  obtain ⟨p, hp⟩ := Option.isSome_iff_exists.mp (h.product r hr)
  have hpid : p.id = r.productId := Table.key_of_get hp
  rw [stock_of_get hp] at hfits
  have hpos := h.positive r hr
  have hlinked : ∀ orderId, r.orderId = some orderId → (d.orders.get orderId).isSome := by
    intro orderId hlink
    obtain ⟨o, i, hid, horder⟩ := h.linked r hr orderId hlink
    exact Option.isSome_of_eq_some (hid ▸ horder.stored)
  obtain ⟨q, hq, hreturn⟩ := applyAll_return .expired env.now hget hp (by omega) hfits
  let returned : Db := { d with
    products := d.products.set { p with qtyAvailable := q, updatedAt := env.now }
    reservations := d.reservations.set { r with status := .expired } }
  obtain ⟨orders, hcancel⟩ := applyAll_cancelWrites (d := returned) env hlinked
  obtain ⟨hvalue, hdb⟩ := exec_commitWork_ok
    (s := (⟨some (p.id, p.qtyAvailable.val + r.qtyReserved)⟩ : Session)) ()
    (Store.applyAll_append.mpr ⟨_, hreturn, hcancel⟩)
  unfold Releases
  rw [exec_releaseReservation hget hpending hp (hshows p (hpid ▸ hp)) hlinked]
  refine ⟨hvalue, ?_⟩
  rw [hdb]
  exact returnsUnits_of_restocks hget hpending rfl rfl ⟨p, q, hp, hq, rfl⟩

end

/-- **Units can come back** in every state of a run whose edits leave room for what
is pending and whose passes see the stock as it is committed. -/
theorem returnable {T : Type} [DecidableEq T] {actors : T → Actor} {s : World T}
    {evs : List (Event Db Write T)}
    (hrun : Run store (KeepsRoom actors) (World.start actors) evs s) : Returnable s.db := by
  obtain ⟨-, hcoupled, -⟩ := World.tracks tracked_keepsRoom hrun
  have hroom := hasRoom hrun
  have hfits : ∀ r ∈ s.db.reservations.rows, r.status = .pending →
      stock s.db r.productId + r.qtyReserved ≤ int32Max := by
    intro r hr hpending
    have hamong := qtyReserved_le_pendingUnits hcoupled hr hpending
    have hall := hroom r.productId
    omega
  refine ⟨hfits, fun env user o ho hstatus howner => ?_, fun env session r hr hpending hshows => ?_⟩
  · exact cancels_of_fits hcoupled ho hstatus howner hfits
  · exact releases_of_fits hcoupled hr hpending hshows (hfits r hr hpending)

/-- Two lamps of ten are ordered, and the seller sets the stock anew. -/
def restockedActors (qty : NonnegInt) : Fin 4 → Actor
  | 0 => .request (.createProduct seller.id lamp seller) (shopEnv 0 0)
  | 1 => .request (.reserveItems buyer.id "key" ⟨0, two⟩) (shopEnv 1 1)
  | 2 => .request (.createOrder buyer ⟨1, none⟩) (shopEnv 2 2)
  | 3 => .request (.updateProduct 0 ⟨none, none, none, some (some qty)⟩ seller) (shopEnv 3 3)

theorem returnable_restocked : ∃ evs s, Run store
    (KeepsRoom (restockedActors ⟨int32Max - 2, by decide⟩))
    (World.start (restockedActors ⟨int32Max - 2, by decide⟩)) evs s ∧
      Returnable s.db ∧ stock s.db 0 = int32Max - 2 ∧ pendingUnits s.db 0 = 2 := by
  have hexec : ((World.start (restockedActors ⟨int32Max - 2, by decide⟩)).exec store
      (fun s t => decide (KeepsRoom (restockedActors ⟨int32Max - 2, by decide⟩) s t))
      (turns [(0, 6), (1, 6), (2, 9), (3, 6)])).any (fun x =>
        decide (stock x.2.db 0 = int32Max - 2 ∧ pendingUnits x.2.db 0 = 2)) := by decide +kernel
  obtain ⟨evs, s, hrun, hend⟩ := Run.of_exec_any (fun _ _ h => of_decide_eq_true h) hexec
  exact ⟨evs, s, hrun, returnable hrun, of_decide_eq_true hend⟩

/-- The seller may set any quantity that fits: two more units do not. -/
theorem not_returnable : ¬ ∀ (T : Type) [DecidableEq T] (actors : T → Actor)
    (evs : List (Event Db Write T)) (s : World T),
    Run store Anything (World.start actors) evs s → Returnable s.db := by
  intro hall
  have hexec : ((World.start (restockedActors ⟨int32Max, by decide⟩)).exec store
      (fun _ _ => true) (turns [(0, 6), (1, 6), (2, 9), (3, 6)])).any (fun x =>
        x.2.db.reservations.rows.any fun r => decide (r.status = .pending ∧
          int32Max < stock x.2.db r.productId + r.qtyReserved)) := by decide +kernel
  obtain ⟨evs, s, hrun, hend⟩ := Run.of_exec_any (fun _ _ _ => trivial) hexec
  obtain ⟨r, hr, hover⟩ := List.any_eq_true.mp hend
  obtain ⟨hpending, hlarge⟩ := of_decide_eq_true hover
  have hfits := (hall _ _ evs s hrun).fits r hr hpending
  exact absurd hlarge (Int.not_lt.mpr hfits)

end FairDrop
