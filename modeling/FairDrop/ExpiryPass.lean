import FairDrop.Expiry
import FairDrop.RowStore.Progress
import Mathlib.Data.Finset.Lattice.Lemmas
import Mathlib.Data.Finset.SDiff
import Mathlib.Algebra.BigOperators.Group.List.Lemmas

/-!
# FairDrop.ExpiryPass

A pass of the sweep that nobody disturbs.  An iteration may fail at any of its
statements: it releases its reservation, or it leaves no trace
(`attempt_releaseReservation`).  The instance that the session keeps across a
commit is then always as committed, and what a whole pass leaves behind is told
by the set of the released reservations (`Released`), not by their order.

The clock of the pass is one value, so `updated_at` says which rows it touched
and not when.
-/

namespace FairDrop

open RowStore

/-! ## What a pass does -/

section
variable (d : Db) (released : Finset Uuid)

/-- Units that go back to the shelf of `p` when the reservations in `released` expire. -/
def returnedUnits (p : Uuid) : Int :=
  d.reservations.sum fun r => if r.id ∈ released ∧ r.productId = p then r.qtyReserved else 0

def RestocksProduct (p : Uuid) : Prop :=
  ∃ r ∈ d.reservations.rows, r.id ∈ released ∧ r.productId = p

def CancelsOrder (o : Uuid) : Prop :=
  ∃ r ∈ d.reservations.rows, r.id ∈ released ∧ r.orderId = some o

instance (p : Uuid) : Decidable (RestocksProduct d released p) :=
  inferInstanceAs (Decidable (∃ r ∈ d.reservations.rows, _))

instance (o : Uuid) : Decidable (CancelsOrder d released o) :=
  inferInstanceAs (Decidable (∃ r ∈ d.reservations.rows, _))

/-- `d'` is `d` after the reservations in `released` have expired, each once:
their units are back, their orders are cancelled, and the rest is as before. -/
structure Released (env : Env) (d' : Db) : Prop where
  reservationKeys : d.reservations.rows.map (·.id) = d'.reservations.rows.map (·.id)
  productKeys : d.products.rows.map (·.id) = d'.products.rows.map (·.id)
  orderKeys : d.orders.rows.map (·.id) = d'.orders.rows.map (·.id)
  reservation : ∀ r ∈ d.reservations.rows, d'.reservations.get r.id =
    some (if r.id ∈ released then { r with status := .expired } else r)
  product : ∀ p ∈ d.products.rows, ∃ q : Stock,
    q.val = p.qtyAvailable.val + returnedUnits d released p.id ∧
      d'.products.get p.id = some { p with
        qtyAvailable := q
        updatedAt := if RestocksProduct d released p.id then env.now else p.updatedAt }
  order : ∀ o ∈ d.orders.rows, d'.orders.get o.id =
    some (if CancelsOrder d released o.id then o.move .cancelled env.now else o)
  orderItems : d'.orderItems = d.orderItems
  auditLogs : d'.auditLogs = d.auditLogs

end

/-- The ids whose iterations fail when a pass over `ids` goes on from here. -/
def failedIterations (env : Env) : List Uuid → List Bool → Db → List Write → Session → Finset Uuid
  | [], _, _, _, _ => ∅
  | id :: ids, fs, d, ws, s =>
      let p := advance store (releaseIteration env workerExpireOnCommit id) fs d ws s
      let failed := failedIterations env ids p.faults p.db p.pending p.session
      match (advance store (releaseReservation env workerExpireOnCommit id) fs d ws s).value with
      | .ok _ => failed
      | .error _ => insert id failed

/-! ## Released sets -/

section
variable {env : Env} {d d' d'' : Db} {released : Finset Uuid} {id : Uuid}

/-- Nothing is returned, touched or cancelled for the empty set. -/
theorem Released.refl : Released d ∅ env d where
  reservationKeys := rfl
  productKeys := rfl
  orderKeys := rfl
  reservation := by
    intro r hr
    simpa using Table.get_of_mem hr
  product := by
    intro p hp
    refine ⟨p.qtyAvailable, ?_, ?_⟩
    · simp [returnedUnits, Table.sum]
    · simpa [RestocksProduct] using Table.get_of_mem hp
  order := by
    intro o ho
    simpa [CancelsOrder] using Table.get_of_mem ho
  orderItems := rfl
  auditLogs := rfl

/-- The released set determines what the pass has left. -/
theorem Released.unique (h : Released d released env d') (h' : Released d released env d'') :
    d' = d'' := by
  have hreservations : d'.reservations = d''.reservations := by
    apply Table.ext_get (h.reservationKeys.symm.trans h'.reservationKeys)
    intro k hk
    obtain ⟨r, hr, rfl⟩ := List.mem_map.mp (h.reservationKeys.symm ▸ hk)
    exact (h.reservation r hr).trans (h'.reservation r hr).symm
  have hproducts : d'.products = d''.products := by
    apply Table.ext_get (h.productKeys.symm.trans h'.productKeys)
    intro k hk
    obtain ⟨p, hp, rfl⟩ := List.mem_map.mp (h.productKeys.symm ▸ hk)
    obtain ⟨q, hq, hget⟩ := h.product p hp
    obtain ⟨q', hq', hget'⟩ := h'.product p hp
    obtain rfl : q = q' := Subtype.ext (hq.trans hq'.symm)
    exact hget.trans hget'.symm
  have horders : d'.orders = d''.orders := by
    apply Table.ext_get (h.orderKeys.symm.trans h'.orderKeys)
    intro k hk
    obtain ⟨o, ho, rfl⟩ := List.mem_map.mp (h.orderKeys.symm ▸ hk)
    exact (h.order o ho).trans (h'.order o ho).symm
  obtain ⟨products, reservations, orders, items, logs⟩ := d'
  obtain ⟨products', reservations', orders', items', logs'⟩ := d''
  obtain rfl : products = products' := hproducts
  obtain rfl : reservations = reservations' := hreservations
  obtain rfl : orders = orders' := horders
  obtain rfl : items = items' := h.orderItems.trans h'.orderItems.symm
  obtain rfl : logs = logs' := h.auditLogs.trans h'.auditLogs.symm
  rfl

/-- The products stay. -/
theorem Released.isSome_product (h : Released d released env d') {p : Uuid}
    (hp : (d.products.get p).isSome) : (d'.products.get p).isSome := by
  obtain ⟨x, hx⟩ := Option.isSome_iff_exists.mp hp
  obtain rfl : x.id = p := Table.key_of_get hx
  obtain ⟨q, _, hget⟩ := h.product x (Table.mem_of_get hx)
  rw [hget]
  rfl

/-! ### One more release -/

/-- One more reservation returns its own units, and once. -/
theorem returnedUnits_insert {r : Reservation} (hr : r ∈ d.reservations.rows)
    (hid : r.id ∉ released) (p : Uuid) :
    returnedUnits d (insert r.id released) p =
      returnedUnits d released p + if r.productId = p then r.qtyReserved else 0 := by
  have hsingle := Table.sum_eq_single hr
    (fun x => if x.id = r.id ∧ x.productId = p then x.qtyReserved else 0) ?_
  · have hsplit : ∀ x : Reservation,
        (if x.id ∈ insert r.id released ∧ x.productId = p then x.qtyReserved else 0) =
          (if x.id ∈ released ∧ x.productId = p then x.qtyReserved else 0) +
            if x.id = r.id ∧ x.productId = p then x.qtyReserved else 0 := by
      intro x
      by_cases hx : x.id = r.id
      · simp [hx, hid]
      · simp [hx]
    simp only [returnedUnits, hsplit, Table.sum, List.sum_map_add] at hsingle ⊢
    rw [hsingle]
    simp
  · intro x hx hne
    rw [if_neg]
    rintro ⟨hxid, _⟩
    exact hne (d.reservations.eq_of_key hx hr hxid)

theorem restocksProduct_insert {r : Reservation} (hr : r ∈ d.reservations.rows) (p : Uuid) :
    RestocksProduct d (insert r.id released) p ↔
      RestocksProduct d released p ∨ r.productId = p := by
  simp only [RestocksProduct, Finset.mem_insert]
  constructor
  · rintro ⟨x, hx, hxid | hxid, hp⟩
    · rw [d.reservations.eq_of_key hx hr hxid] at hp
      exact .inr hp
    · exact .inl ⟨x, hx, hxid, hp⟩
  · rintro (⟨x, hx, hxid, hp⟩ | hp)
    · exact ⟨x, hx, .inr hxid, hp⟩
    · exact ⟨r, hr, .inl rfl, hp⟩

theorem cancelsOrder_insert {r : Reservation} (hr : r ∈ d.reservations.rows) (o : Uuid) :
    CancelsOrder d (insert r.id released) o ↔ CancelsOrder d released o ∨ r.orderId = some o := by
  simp only [CancelsOrder, Finset.mem_insert]
  constructor
  · rintro ⟨x, hx, hxid | hxid, ho⟩
    · rw [d.reservations.eq_of_key hx hr hxid] at ho
      exact .inr ho
    · exact .inl ⟨x, hx, hxid, ho⟩
  · rintro (⟨x, hx, hxid, ho⟩ | ho)
    · exact ⟨x, hx, .inr hxid, ho⟩
    · exact ⟨r, hr, .inl rfl, ho⟩

/-- Cancelling an order for the second time changes nothing. -/
theorem Order.move_move (o : Order) (status : OrderStatus) (now : Timestamp) :
    (o.move status now).move status now = o.move status now := by
  rw [move, if_pos (o.status_move status now)]

/-- What `CancelsLinked` does to an order. -/
theorem CancelsLinked.get {r : Reservation} {orders : Table Order}
    (h : CancelsLinked env d r orders) {o : Order} {k : Uuid} (ho : d.orders.get k = some o) :
    orders.get k = some (if r.orderId = some k then o.move .cancelled env.now else o) := by
  unfold CancelsLinked at h
  split at h
  · next hlink => simp [h, hlink, ho]
  · next orderId hlink =>
      obtain ⟨o', ho', rfl⟩ := h
      have hid : o'.id = orderId := Table.key_of_get ho'
      have hkey : Keyed.key (o'.move .cancelled env.now) = orderId := (o'.id_move _ _).trans hid
      rw [Table.get_set_of_key ho' hkey, hlink]
      by_cases hk : orderId = k
      · obtain rfl : o' = o := Option.some.inj ((hk ▸ ho').symm.trans ho)
        simp [hk]
      · simp [hk, ho]

theorem CancelsLinked.keys {r : Reservation} {orders : Table Order}
    (h : CancelsLinked env d r orders) :
    d.orders.rows.map (·.id) = orders.rows.map (·.id) := by
  unfold CancelsLinked at h
  split at h
  · rw [h]
  · obtain ⟨o, ho, rfl⟩ := h
    exact Table.map_key_set.symm

/-- **A release** adds its reservation to those that are released. -/
theorem Released.release {r : Reservation} (h : Released d released env d')
    (hr : r ∈ d.reservations.rows) (hid : r.id ∉ released)
    (hrelease : Release True env d' r.id d'') : Released d (insert r.id released) env d'' := by
  have hrow := h.reservation r hr
  rw [if_neg hid] at hrow
  obtain ⟨r', x, q, orders, hget, hstatus, hx, hq, horders⟩ := hrelease
  obtain rfl : r = r' := Option.some.inj (hrow.symm.trans hget)
  have hxid : x.id = r.productId := Table.key_of_get hx
  constructor
  case reservationKeys => exact h.reservationKeys.trans Table.map_key_set.symm
  case productKeys => exact h.productKeys.trans Table.map_key_set.symm
  case orderKeys => exact h.orderKeys.trans horders.keys
  case reservation =>
    intro r' hr'
    have hset := Table.get_set_of_key (r := { r with status := .expired }) hget rfl r'.id
    rw [hset, h.reservation r' hr']
    by_cases heq : r.id = r'.id
    · obtain rfl : r = r' := d.reservations.eq_of_key hr hr' heq
      simp
    · simp [heq, Ne.symm heq]
  case product =>
    intro p hp
    obtain ⟨n, hn, hgetp⟩ := h.product p hp
    have hset := Table.get_set_of_key (r := { x with qtyAvailable := q, updatedAt := env.now })
      hx hxid p.id
    simp only [hset, hgetp, returnedUnits_insert hr hid, restocksProduct_insert hr]
    by_cases heq : r.productId = p.id
    · rw [heq, hgetp] at hx
      obtain rfl := Option.some.inj hx
      refine ⟨q, ?_, ?_⟩
      · rw [hq trivial, hn, if_pos heq]
        omega
      · simp [heq]
    · exact ⟨n, by simp [heq, hn], by simp [heq]⟩
  case order =>
    intro o ho
    change orders.get o.id = _
    rw [horders.get (h.order o ho)]
    simp only [cancelsOrder_insert hr]
    by_cases hlink : r.orderId = some o.id
    · by_cases hcancels : CancelsOrder d released o.id
      · simp [hlink, hcancels, Order.move_move]
      · simp [hlink, hcancels]
    · simp [hlink]
  case orderItems => exact h.orderItems
  case auditLogs => exact h.auditLogs

end

/-! ## One iteration -/

/-- A session whose product instance, if it has one, is as committed. -/
def Session.Shows (s : Session) (d : Db) : Prop :=
  ∀ x, d.products.get x.id = some x → s.qtyAvailable x = x.qtyAvailable.val

theorem Session.shows_fresh (d : Db) : Session.fresh.Shows d := fun _ _ => rfl

/-- After a release the instance that the loop holds is the row it has written. -/
theorem Release.shows {env : Env} {d d' : Db} {r : Reservation} {x : Product}
    (hr : d.reservations.get r.id = some r) (hx : d.products.get r.productId = some x)
    (h : Release True env d r.id d') :
    Session.Shows ⟨some (x.id, x.qtyAvailable.val + r.qtyReserved)⟩ d' := by
  obtain ⟨r', x', q, orders, hget, hstatus, hx', hq, horders⟩ := h
  obtain rfl : r = r' := Option.some.inj (hr.symm.trans hget)
  obtain rfl : x = x' := Option.some.inj (hx.symm.trans hx')
  have hxid : x.id = r.productId := Table.key_of_get hx
  intro y hy
  have hset := Table.get_set_of_key (r := { x with qtyAvailable := q, updatedAt := env.now })
    hx hxid y.id
  unfold Session.qtyAvailable
  simp only
  split
  · next hid =>
      rw [← hxid, if_pos hid] at hset
      obtain rfl := Option.some.inj (hset.symm.trans hy)
      exact (hq trivial).symm
  · rfl

section
variable {env : Env} {d d₀ : Db} {fs : List Bool} {ws : List Write} {s : Session}

/-- The linked order is found and its cancellation pending, or the part fails. -/
theorem attempt_cancelLinkedOrder {r : Reservation} :
    (advance store (cancelLinkedOrder env r) fs d ws s).Attempt d
      fun _ d' ws' s' => d = d' ∧ ws ++ cancelWrites env r = ws' ∧ s = s' := by
  unfold cancelLinkedOrder cancelWrites
  cases r.orderId with
  | none => exact attempt_pure ⟨rfl, List.append_nil ws, rfl⟩
  | some orderId =>
      apply attempt_selectForUpdate
      intro fs'
      cases ho : d.orders.get orderId with
      | none => exact attempt_fail
      | some o =>
          obtain rfl : o.id = orderId := Table.key_of_get ho
          exact ⟨rfl, rfl, rfl⟩

/-- **The body of the loop** releases the reservation in one unit of work, or
it fails and nothing is committed. -/
theorem attempt_releaseReservation (env : Env) (fs : List Bool) {r : Reservation}
    (hr : d.reservations.get r.id = some r)
    (hstatus : r.status = .pending) (hproduct : (d.products.get r.productId).isSome)
    (hshows : s.Shows d) :
    (advance store (releaseReservation env workerExpireOnCommit r.id) fs d [] s).Attempt d
      fun _ d' ws' s' => Release True env d r.id d' ∧ ws' = [] ∧ s'.Shows d' := by
  obtain ⟨x, hx⟩ := Option.isSome_iff_exists.mp hproduct
  have hxid : x.id = r.productId := Table.key_of_get hx
  have hqty : s.qtyAvailable x = x.qtyAvailable.val := hshows x (hxid ▸ hx)
  apply attempt_selectForUpdate
  intro fs₁
  simp only [hr, Option.filter_some, if_true, hstatus, ne_eq, not_true_eq_false, if_false]
  apply attempt_selectForUpdate
  intro fs₂
  rw [hx]
  change (advance store (cancelLinkedOrder env r >>= fun _ => commitInSession workerExpireOnCommit)
    fs₂ d [.setStock x.id (s.qtyAvailable x + r.qtyReserved) env.now,
      .setReservationStatus r.id .expired] _).Attempt d _
  rw [hqty]
  apply attempt_bind attempt_cancelLinkedOrder
  rintro _ fs₃ _ _ _ ⟨rfl, rfl, rfl⟩
  apply attempt_commitWork
  intro d' fs₄ happly
  have hrelease : Release True env d r.id d' :=
    applyAll_release hr hstatus hx (fun _ => rfl) happly
  exact attempt_pure ⟨hrelease, rfl, hrelease.shows hr hx⟩

/-- **An iteration** releases its reservation, or it is one of those that fail
and nothing is committed; it never breaks off the pass. -/
theorem releaseIteration_cases (env : Env) (fs : List Bool) {r : Reservation}
    (hr : d.reservations.get r.id = some r)
    (hstatus : r.status = .pending) (hproduct : (d.products.get r.productId).isSome)
    (hshows : s.Shows d) (ids : List Uuid) : ∃ fs' d' s',
      advance store (releaseAll env workerExpireOnCommit (r.id :: ids)) fs d [] s =
        advance store (releaseAll env workerExpireOnCommit ids) fs' d' [] s' ∧ s'.Shows d' ∧
      ((Release True env d r.id d' ∧ failedIterations env (r.id :: ids) fs d [] s =
          failedIterations env ids fs' d' [] s') ∨
        (d' = d ∧ failedIterations env (r.id :: ids) fs d [] s =
          insert r.id (failedIterations env ids fs' d' [] s'))) := by
  obtain ⟨fs', d', ws', s', hadvance, hcases⟩ :=
    attempt_recover Session.fresh (attempt_releaseReservation env fs hr hstatus hproduct hshows)
  have hall : advance store (releaseAll env workerExpireOnCommit (r.id :: ids)) fs d [] s =
      advance store (releaseAll env workerExpireOnCommit ids) fs' d' ws' s' := by
    change advance store (releaseIteration env workerExpireOnCommit r.id >>= fun _ =>
      releaseAll env workerExpireOnCommit ids) fs d [] s = _
    rw [advance_bind]
    unfold releaseIteration
    rw [hadvance]
    rfl
  rw [hall, failedIterations]
  unfold releaseIteration
  rw [hadvance]
  cases hcases with
  | inl hok =>
      obtain ⟨_, hvalue, hrelease, rfl, hsees⟩ := hok
      rw [hvalue]
      exact ⟨fs', d', s', rfl, hsees, .inl ⟨hrelease, rfl⟩⟩
  | inr hfail =>
      obtain ⟨⟨e, hvalue⟩, rfl, rfl, rfl⟩ := hfail
      rw [hvalue]
      exact ⟨fs', d', .fresh, rfl, Session.shows_fresh d', .inr ⟨rfl, rfl⟩⟩

end

/-! ## Passes -/

section
variable {env : Env} {d : Db} {ids : List Uuid} {faults : List Bool}

theorem failedIterations_subset {fs : List Bool} {ws : List Write} {s : Session} :
    ∀ id ∈ failedIterations env ids fs d ws s, id ∈ ids := by
  induction ids generalizing fs d ws s with
  | nil => simp [failedIterations]
  | cons id ids ih =>
      intro k hk
      rw [failedIterations] at hk
      split at hk
      · exact List.mem_cons_of_mem _ (ih k hk)
      · cases Finset.mem_insert.mp hk with
        | inl heq => exact heq ▸ List.mem_cons_self
        | inr hk => exact List.mem_cons_of_mem _ (ih k hk)

theorem exists_of_mem_expiredIds {id : Uuid} {now : Timestamp} (h : id ∈ expiredIds d now) :
    ∃ r ∈ d.reservations.rows, r.id = id ∧ r.status = .pending := by
  obtain ⟨r, hr, rfl⟩ := List.mem_map.mp h
  obtain ⟨hr, hdue⟩ := List.mem_filter.mp hr
  exact ⟨r, hr, rfl, (of_decide_eq_true hdue).1⟩

/-- A pass goes on from `d'`, where the reservations in `released` are released. -/
theorem released_releaseAll (h : Coupled d) (hnodup : ids.Nodup)
    (hdue : ids ⊆ expiredIds d env.now) {released : Finset Uuid}
    (hdisjoint : ∀ id ∈ ids, id ∉ released) {d' : Db} (hreleased : Released d released env d')
    (fs : List Bool) {s : Session} (hshows : s.Shows d') :
    Released d (released ∪ (ids.toFinset \ failedIterations env ids fs d' [] s)) env
      (advance store (releaseAll env workerExpireOnCommit ids) fs d' [] s).db := by
  induction ids generalizing released d' fs s with
  | nil =>
      rw [List.toFinset_nil, Finset.empty_sdiff, Finset.union_empty]
      exact hreleased
  | cons id ids ih =>
      obtain ⟨hid, hrest⟩ := List.nodup_cons.mp hnodup
      obtain ⟨hhead, htail⟩ := List.forall_mem_cons.mp hdisjoint
      obtain ⟨hdueid, hdueids⟩ := List.cons_subset.mp hdue
      obtain ⟨r, hr, rfl, hstatus⟩ := exists_of_mem_expiredIds hdueid
      have hrow := hreleased.reservation r hr
      rw [if_neg hhead] at hrow
      have hproduct := hreleased.isSome_product (h.product r hr)
      obtain ⟨fs', d'', s', hadvance, hsees, hcases⟩ :=
        releaseIteration_cases env fs hrow hstatus hproduct hshows ids
      have hkept : r.id ∉ failedIterations env ids fs' d'' [] s' :=
        fun hmem => hid (failedIterations_subset _ hmem)
      rw [hadvance, List.toFinset_cons]
      cases hcases with
      | inl hok =>
          obtain ⟨hrelease, hfailed⟩ := hok
          have hdisjoint' : ∀ k ∈ ids, k ∉ insert r.id released := by
            intro k hk hmem
            cases Finset.mem_insert.mp hmem with
            | inl heq => exact hid (heq ▸ hk)
            | inr hmem => exact htail k hk hmem
          rw [hfailed, Finset.insert_sdiff_of_notMem _ hkept, Finset.union_insert,
            ← Finset.insert_union]
          exact ih hrest hdueids hdisjoint' (hreleased.release hr hhead hrelease) _ hsees
      | inr hfail =>
          obtain ⟨rfl, hfailed⟩ := hfail
          have hnot : r.id ∉ ids.toFinset := by simpa using hid
          rw [hfailed, Finset.insert_sdiff_insert, Finset.sdiff_insert_of_notMem hnot]
          exact ih hrest hdueids htail hreleased _ hsees

/-- The order of a released reservation is cancelled, that of another one is as before. -/
theorem Released.linked_order (h : Coupled d) {released : Finset Uuid} {d' : Db}
    (hreleased : Released d released env d') {r : Reservation} (hr : r ∈ d.reservations.rows)
    {orderId : Uuid} (hlink : r.orderId = some orderId) :
    (r.id ∈ released → ∃ o, d'.orders.get orderId = some o ∧ o.status = .cancelled) ∧
      (r.id ∉ released → d'.orders.get orderId = d.orders.get orderId) := by
  obtain ⟨o, i, rfl, horder⟩ := h.linked r hr orderId hlink
  have hget := hreleased.order o (Table.mem_of_get horder.stored)
  constructor
  · intro hmem
    rw [if_pos ⟨r, hr, hmem, hlink⟩] at hget
    exact ⟨_, hget, o.status_move _ _⟩
  · intro hnot
    have hother : ¬ CancelsOrder d released o.id := by
      rintro ⟨r', hr', hmem, hlink'⟩
      rw [h.injective r hr r' hr' o.id hlink hlink'] at hnot
      exact hnot hmem
    rw [if_neg hother] at hget
    rw [hget, horder.stored]

/-- The database after the loop has gone over `ids` in a new session. -/
def pass (env : Env) (ids : List Uuid) (faults : List Bool) (d : Db) : Db :=
  (exec store (releaseAll env workerExpireOnCommit ids) faults d [] .fresh).db

/-- The iterations of that loop which fail. -/
def failedIn (env : Env) (ids : List Uuid) (faults : List Bool) (d : Db) : Finset Uuid :=
  failedIterations env ids faults d [] .fresh

/-- The task is a pass over what its query finds, in the order in which it finds it. -/
theorem releaseExpiredReservations_db (scan : Scan Uuid) :
    (exec store (releaseExpiredReservations env workerExpireOnCommit scan) faults d [] .fresh).db =
      if faults.headD false then d
      else pass env (scan.val (expiredIds d env.now)) faults.tail d := by
  rw [releaseExpiredReservations, exec_select]
  split <;> rfl

theorem released_pass (h : Coupled d) (hnodup : ids.Nodup) (hdue : ids ⊆ expiredIds d env.now)
    (faults : List Bool) :
    Released d (ids.toFinset \ failedIn env ids faults d) env (pass env ids faults d) := by
  rw [pass, exec_eq_advance.2]
  have hpass := released_releaseAll h hnodup hdue (fun _ _ => Finset.notMem_empty _) .refl faults
    (Session.shows_fresh d)
  rw [Finset.empty_union] at hpass
  exact hpass

/-- **Failures stay in their iteration**: a pass over expired reservations
releases those whose iterations do not fail, each once and with its order, and
leaves everything else as it was; in whatever order it takes them, what is left
depends only on which ones fail. -/
theorem pass_isolates (h : Coupled d) (hnodup : ids.Nodup) (hdue : ids ⊆ expiredIds d env.now)
    (faults : List Bool) :
    Released d (ids.toFinset \ failedIn env ids faults d) env (pass env ids faults d) ∧
      (∀ r ∈ d.reservations.rows, ∀ orderId, r.orderId = some orderId →
        (r.id ∈ ids ∧ r.id ∉ failedIn env ids faults d →
          ∃ o, (pass env ids faults d).orders.get orderId = some o ∧ o.status = .cancelled) ∧
        (r.id ∈ failedIn env ids faults d →
          (pass env ids faults d).orders.get orderId = d.orders.get orderId)) ∧
      ∀ ids' faults', ids'.Perm ids →
        failedIn env ids' faults' d = failedIn env ids faults d →
          pass env ids' faults' d = pass env ids faults d := by
  have hreleased := released_pass h hnodup hdue faults
  refine ⟨hreleased, ?_, ?_⟩
  · intro r hr orderId hlink
    obtain ⟨hcancelled, hkept⟩ := hreleased.linked_order h hr hlink
    simp only [Finset.mem_sdiff, List.mem_toFinset] at hcancelled hkept
    exact ⟨hcancelled, fun hfailed => hkept fun hmem => hmem.2 hfailed⟩
  · intro ids' faults' hperm hfailed
    have hdue' : ids' ⊆ expiredIds d env.now := fun id hid => hdue (hperm.mem_iff.mp hid)
    have hreleased' := released_pass h (hperm.nodup_iff.mpr hnodup) hdue' faults'
    rw [hfailed, List.toFinset_eq_of_perm _ _ hperm] at hreleased'
    exact hreleased'.unique hreleased

end

/-- Three reservations of one lamp are due, the first one ordered. -/
def dueShop : Db := run .empty [
  (Call.createProduct seller.id lamp seller).at 0 0,
  (Call.reserveItems buyer.id "first" ⟨0, two⟩).at 1 1,
  (Call.reserveItems buyer.id "second" ⟨0, two⟩).at 2 2,
  (Call.reserveItems buyer.id "third" ⟨0, three⟩).at 3 3,
  (Call.createOrder buyer ⟨1, none⟩).at 4 4]

/-- The second iteration loses the database at its second statement; the stock of the
other two comes back through the instance that the session keeps. -/
theorem pass_isolates_second :
    let env := shopEnv (reserveEnd + 4) 0
    let faults := [false, false, false, false, false, true]
    let d' := pass env [1, 2, 3] faults dueShop
    Released dueShop ([1, 2, 3].toFinset \ failedIn env [1, 2, 3] faults dueShop) env d' ∧
      failedIn env [1, 2, 3] faults dueShop = {2} ∧ stock dueShop 0 = 3 ∧ stock d' 0 = 8 ∧
        d'.orders.rows.map (·.status) = [.cancelled] := by
  have hdue : [1, 2, 3] ⊆ expiredIds dueShop (shopEnv (reserveEnd + 4) 0).now := by decide +kernel
  refine ⟨(pass_isolates (coupled_run _) (by decide) hdue _).1, ?_, ?_, ?_, ?_⟩ <;> decide +kernel

end FairDrop
