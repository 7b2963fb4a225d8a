import FairDrop.BuyerUser.Service
import Mathlib.Data.Multiset.Basic

/-!
# FairDrop.Dashboards

What the pages of a seller and of a buyer show of the tables.  The counts are
the lengths of the lists (`stats_eq_lengths`), and the orders of a seller are
made of the seller's share alone (`getMyOrders_share`).
-/

namespace FairDrop

open RowStore Query

/-! ## Tables -/

namespace Db

/-- What a call returns on this database when nobody else writes to it. -/
def answer {α : Type} (d : Db) (x : Tx α) : Except Failure α :=
  (exec store x [] d [] .fresh).value

/-- `order_items.product_id` is a foreign key. -/
def ItemsReference (d : Db) : Prop := ∀ i ∈ d.orderItems.rows, (d.products.get i.productId).isSome

/-- The item is of a product of the seller. -/
def Sells (d : Db) (s : Uuid) (i : OrderItem) : Prop :=
  ∃ p ∈ d.products.rows, p.id = i.productId ∧ p.ownerId = s

instance (d : Db) (s : Uuid) (i : OrderItem) : Decidable (d.Sells s i) :=
  inferInstanceAs (Decidable (∃ p ∈ d.products.rows, _))

/-- The items of an order that are the seller's. -/
def sellerItems (d : Db) (s : Uuid) (o : Order) : List OrderItem :=
  d.orderItems.rows.filter fun i => i.orderId = o.id ∧ d.Sells s i

/-- The orders with an item of the seller: all of them, or those of one status. -/
def sellerOrders (d : Db) (s : Uuid) (status : Option OrderStatus) : List Order :=
  d.orders.rows.filter fun o =>
    (status = none ∨ status = some o.status) ∧ d.sellerItems s o ≠ []

variable {d d' : Db} {s : Uuid} {o : Order} {i : OrderItem}

/-- Every write checks the foreign key, or leaves products and items in place. -/
theorem ItemsReference.apply (h : d.ItemsReference) {w : Write} (hw : w.apply d = .ok d') :
    d'.ItemsReference := by
  cases w with
  | addProduct p =>
      obtain ⟨r, -, hfresh, rfl⟩ := apply_addProduct.mp hw
      intro i hi
      obtain ⟨p, hp⟩ := Option.isSome_iff_exists.mp (h i hi)
      show ((d.products.insert r hfresh).get i.productId).isSome
      rw [Table.get_insert_of_get hfresh hp]
      rfl
  | updateProduct p now =>
      obtain ⟨_, _, -, -, rfl⟩ := apply_updateProduct hw
      exact fun i hi => Table.isSome_get_set.trans (h i hi)
  | setStock id qty now =>
      obtain ⟨_, _, -, -, rfl⟩ := apply_setStock.mp hw
      exact fun i hi => Table.isSome_get_set.trans (h i hi)
  | addReservation r =>
      obtain ⟨-, -, -, _, rfl⟩ := apply_addReservation.mp hw
      exact h
  | setReservationStatus id status =>
      obtain ⟨_, -, rfl⟩ := apply_setReservationStatus.mp hw
      exact h
  | linkOrder id orderId =>
      obtain ⟨_, -, -, rfl⟩ := apply_linkOrder.mp hw
      exact h
  | addOrder o now =>
      obtain ⟨_, _, -, -, -, -, -, -, -, rfl⟩ := apply_addOrder.mp hw
      exact h
  | addOrderItem i =>
      obtain ⟨r, hfresh, -, -, hproduct, -, -, -, -, -, hexists, rfl⟩ := apply_addOrderItem.mp hw
      intro i' hi'
      rcases (Table.mem_insert hfresh).mp hi' with hi' | rfl
      · exact h i' hi'
      · show (d.products.get i'.productId).isSome
        rw [hproduct]
        exact hexists
  | setOrderStatus id status now =>
      obtain ⟨_, -, rfl⟩ := apply_setOrderStatus.mp hw
      exact h
  | addAuditLog a =>
      obtain rfl := apply_addAuditLog.mp hw
      exact h

/-- Items keep referring to stored orders and products through any writes. -/
theorem ItemsReference.applyAll (h : d.ItemsReference) {ws : List Write}
    (hws : store.applyAll ws d = .ok d') : d'.ItemsReference := by
  induction ws generalizing d with
  | nil =>
      rw [Store.applyAll_nil.mp hws]
      exact h
  | cons w ws ih =>
      obtain ⟨d₁, hw, hrest⟩ := Store.applyAll_cons.mp hws
      exact ih (h.apply hw) hrest

/-- A seller's items of an order are its items of products that the seller owns. -/
theorem mem_sellerItems : i ∈ d.sellerItems s o ↔
    i ∈ d.orderItems.rows ∧ i.orderId = o.id ∧ d.Sells s i := by
  simp [sellerItems]

/-- The orders of the seller are those that pass the `WHERE` of the query and
have an item of the seller. -/
theorem mem_sellerOrders {status : Option OrderStatus} : o ∈ d.sellerOrders s status ↔
    o ∈ d.orders.rows ∧ Selected status o.status ∧
      ∃ i ∈ d.orderItems.rows, i.orderId = o.id ∧ d.Sells s i := by
  simp only [sellerOrders, List.mem_filter, decide_eq_true_eq, ne_eq, List.eq_nil_iff_forall_not_mem,
    not_forall, not_not, mem_sellerItems, selected_iff]

/-- An order is listed by its id. -/
theorem nodup_sellerOrders (d : Db) (s : Uuid) (status : Option OrderStatus) :
    ((d.sellerOrders s status).map Order.id).Nodup :=
  d.orders.nodup.sublist (List.filter_sublist.map _)

/-- A seller's items of an order are listed once each. -/
theorem nodup_sellerItems (d : Db) (s : Uuid) (o : Order) : (d.sellerItems s o).Nodup :=
  d.orderItems.nodup.of_map.filter _

end Db

/-! ## Queries -/

namespace SellerUser

section
variable {d : Db} {s : Uuid} {status : Option OrderStatus} {r : (Order × OrderItem) × Product}

/-- The rows of the seller's join, without the join. -/
theorem mem_soldRows : r ∈ soldRows d s ↔
    r.1.1 ∈ d.orders.rows ∧ r.1.2 ∈ d.orderItems.rows ∧ r.1.2.orderId = r.1.1.id ∧
      r.2 ∈ d.products.rows ∧ r.2.id = r.1.2.productId ∧ r.2.ownerId = s := by
  simp only [soldRows, List.mem_filter, mem_join, decide_eq_true_eq, and_assoc]

/-- The join shows the orders of the seller, once for each item. -/
theorem mem_sellerOrders_iff_row {o : Order} : o ∈ d.sellerOrders s status ↔
    ∃ r ∈ soldRows d s, Selected status r.1.1.status ∧ r.1.1 = o := by
  rw [Db.mem_sellerOrders]
  constructor
  · rintro ⟨ho, hstatus, i, hi, hio, p, hp, hpi, hps⟩
    exact ⟨((o, i), p), mem_soldRows.mpr ⟨ho, hi, hio, hp, hpi, hps⟩, hstatus, rfl⟩
  · rintro ⟨r, hr, hstatus, rfl⟩
    obtain ⟨ho, hi, hio, hp, hpi, hps⟩ := mem_soldRows.mp hr
    exact ⟨ho, hstatus, r.1.2, hi, hio, r.2, hp, hpi, hps⟩

/-- The ids that the first query of `get_my_orders` answers. -/
def soldIds (d : Db) (s : Uuid) (status : Option OrderStatus) : List Uuid :=
  ((soldRows d s).filter fun ((order, _), _) => Selected status order.status).map
    fun ((order, _), _) => order.id

/-- The orders selected for a seller are those of `sellerOrders`. -/
theorem mem_soldIds {id : Uuid} :
    id ∈ soldIds d s status ↔ ∃ o ∈ d.sellerOrders s status, o.id = id := by
  simp only [soldIds, List.mem_map, List.mem_filter, decide_eq_true_eq, mem_sellerOrders_iff_row]
  constructor
  · rintro ⟨r, ⟨hr, hstatus⟩, rfl⟩
    exact ⟨r.1.1, ⟨r, hr, hstatus, rfl⟩, rfl⟩
  · rintro ⟨o, ⟨r, hr, hstatus, rfl⟩, rfl⟩
    exact ⟨r, ⟨hr, hstatus⟩, rfl⟩

/-- `Order.id.in_(order_ids)` finds the orders of the seller, each once. -/
theorem filter_soldIds {ids : List Uuid} (h : ids.Perm (soldIds d s status)) :
    (d.orders.rows.filter fun o => o.id ∈ ids) = d.sellerOrders s status := by
  refine List.filter_congr fun o ho => ?_
  have hiff : o.id ∈ ids ↔ o ∈ d.sellerOrders s status := by
    rw [h.mem_iff, mem_soldIds]
    constructor
    · rintro ⟨o', ho', hid⟩
      obtain rfl := d.orders.eq_of_key (Db.mem_sellerOrders.mp ho').1 ho hid
      exact ho'
    · exact fun h => ⟨o, h, rfl⟩
  rw [decide_eq_decide, hiff, Db.sellerOrders, List.mem_filter, decide_eq_true_eq]
  exact and_iff_right ho

/-! ## The loop -/

/-- An order as the seller sees it, up to the order of its items. -/
def OrderView := (Uuid × OrderStatus × Timestamp × Option String) × Multiset SellerOrderItemRead

def SellerOrderRead.view (r : SellerOrderRead) : OrderView :=
  ((r.id, r.status, r.createdAt, r.shippingAddress), r.sellerItems)

/-- What every seller of an order is to see of it: not the address of an order
that is not paid for, that has failed or that was cancelled. -/
def orderShare (o : Order) : Uuid × OrderStatus × Timestamp × Option String :=
  (o.id, o.status, o.createdAt,
    match o.status with
    | .pending | .failed | .cancelled => none
    | .paid | .shipped | .completed | .expired => o.shippingAddress)

/-- What the seller of an item is to see of it. -/
def itemShare (i : OrderItem) : SellerOrderItemRead :=
  ⟨i.id, i.productId, i.productName, i.quantity, .ofCents i.price.val⟩

/-- What the seller is to see of an order. -/
def orderView (d : Db) (s : Uuid) (o : Order) : OrderView :=
  (orderShare o, ((d.sellerItems s o).map itemShare : List SellerOrderItemRead))

/-- The address that the loop shows is the one that is for the sellers. -/
theorem orderShare_eq (o : Order) : orderShare o = (o.id, o.status, o.createdAt, displayAddress o) := by
  obtain ⟨id, userId, status, totalAmount, shippingAddress, createdAt, updatedAt⟩ := o
  cases status <;> rfl

/-- An item is shown with its own columns. -/
theorem ofItem_eq_itemShare (i : OrderItem) : SellerOrderItemRead.ofItem i = itemShare i := rfl

/-- Of the items the loop takes those of the seller. -/
theorem myItems_eq_ok {products : List Product} {items : List OrderItem}
    (h : ∀ i ∈ items, ∃ p ∈ d.products.rows, p.id = i.productId ∧
      products.find? (fun p => p.id = i.productId) = some p) :
    myItems products s items =
      .ok ((items.filter fun i => d.Sells s i).map itemShare) := by
  induction items with
  | nil => rfl
  | cons i items ih =>
      obtain ⟨p, hp, hid, hfind⟩ := h i List.mem_cons_self
      have hrest := ih fun i' hi' => h i' (List.mem_cons_of_mem i hi')
      have howner : p.ownerId = s ↔ d.Sells s i := by
        constructor
        · exact fun howner => ⟨p, hp, hid, howner⟩
        · rintro ⟨p', hp', hid', howner⟩
          obtain rfl := d.products.eq_of_key hp hp' (hid.trans hid'.symm)
          exact howner
      simp only [myItems, hfind, hrest, bind, Except.bind, pure, Except.pure, howner,
        ofItem_eq_itemShare]
      by_cases hsells : d.Sells s i <;> simp [hsells]

/-- A loop that goes through has one result for each element. -/
theorem mapM_eq_ok {α β γ ε : Type} {f : α → Except ε β} {view : β → γ} {want : α → γ} {l : List α}
    (h : ∀ a ∈ l, ∃ b, f a = .ok b ∧ view b = want a) :
    ∃ bs, l.mapM f = .ok bs ∧ bs.map view = l.map want := by
  induction l with
  | nil => exact ⟨[], rfl, rfl⟩
  | cons a l ih =>
      obtain ⟨b, hb, hview⟩ := h a List.mem_cons_self
      obtain ⟨bs, hbs, hviews⟩ := ih fun a' ha' => h a' (List.mem_cons_of_mem a ha')
      refine ⟨b :: bs, ?_, by rw [List.map_cons, List.map_cons, hview, hviews]⟩
      rw [List.mapM_cons, hb, hbs]
      rfl

/-- An order is shown with the seller's items, from what the loaders have found. -/
theorem sellerOrder_view {ids : List Uuid} {items : List OrderItem} {o : Order}
    (hd : d.ItemsReference) (hid : o.id ∈ ids)
    (hitems : items.Perm (d.orderItems.rows.filter fun i => i.orderId ∈ ids)) :
    ∃ r, sellerOrder (d.products.rows.filter fun p => p.id ∈ items.map OrderItem.productId) items s
      o = .ok r ∧ r.view = orderView d s o := by
  have hown : (items.filter fun i => i.orderId = o.id).Perm
      (d.orderItems.rows.filter fun i => i.orderId = o.id) := by
    refine (hitems.filter _).trans (List.Perm.of_eq ?_)
    rw [List.filter_filter]
    refine List.filter_congr fun i _ => ?_
    by_cases hi : i.orderId = o.id <;> simp [hi, hid]
  have hloaded : ∀ i ∈ items.filter (fun i => i.orderId = o.id), ∃ p ∈ d.products.rows,
      p.id = i.productId ∧ (d.products.rows.filter fun p =>
        p.id ∈ items.map OrderItem.productId).find? (fun p => p.id = i.productId) = some p := by
    intro i hi
    have hrow : i ∈ d.orderItems.rows := (List.mem_filter.mp (hown.subset hi)).1
    obtain ⟨p, hp⟩ := Option.isSome_iff_exists.mp (hd i hrow)
    have hpid : p.id = i.productId := Table.key_of_get hp
    have hkey : p.id ∈ items.map OrderItem.productId :=
      List.mem_map.mpr ⟨i, (List.mem_filter.mp hi).1, hpid.symm⟩
    refine ⟨p, Table.mem_of_get hp, hpid, ?_⟩
    have hfind : d.products.rows.find? (fun q => decide (q.id = i.productId)) = some p := hp
    rw [List.find?_filter, ← hfind]
    congr 1
    funext q
    by_cases hq : q.id = i.productId
    · simp only [hq, ← hpid, hkey, and_self, decide_true]
    · simp [hq]
  refine ⟨_, by rw [sellerOrder, myItems_eq_ok hloaded]; rfl, ?_⟩
  have hsame : ((items.filter fun i => i.orderId = o.id).filter fun i => d.Sells s i).Perm
      (d.sellerItems s o) := by
    refine (hown.filter _).trans (List.Perm.of_eq ?_)
    rw [List.filter_filter, Db.sellerItems]
    exact List.filter_congr fun i _ => by rw [Bool.decide_and, Bool.and_comm]
  rw [orderView, orderShare_eq]
  exact congrArg (Prod.mk _) (Multiset.coe_eq_coe.mpr (hsame.map _))

end

end SellerUser

/-! ## Calls -/

section
variable {d : Db} {s : Uuid}

/-- Loading by an empty list of keys is as good as loading, when no row has such a key. -/
theorem exec_loadIn {α β : Type} {keys : List Uuid} {rows : Db → List α} {f : List α → Tx β}
    {session : Session} (h : keys = [] → rows d = []) :
    exec store (loadIn keys rows >>= f) [] d [] session = exec store (f (rows d)) [] d [] session := by
  unfold loadIn
  split
  · next hkeys =>
      rw [h hkeys]
      rfl
  · rfl

/-- A pure outcome is the value of the block. -/
theorem exec_ofExcept {α : Type} (x : Except Failure α) (session : Session) :
    (exec store (Prog.ofExcept x : Tx α) [] d [] session).value = x := by
  cases x <;> rfl

/-- `ORDER BY created_at DESC` -/
def NewestFirst (times : List Timestamp) : Prop := times.Pairwise fun t t' => t' ≤ t

/-- Sorting by date puts the newest first. -/
theorem newestFirst_mergeSort {α : Type} (createdAt : α → Timestamp) (l : List α) :
    NewestFirst ((l.mergeSort fun a b => createdAt b ≤ createdAt a).map createdAt) := by
  refine List.pairwise_map.mpr ?_
  have hsorted := @List.pairwise_mergeSort α fun a b => decide (createdAt b ≤ createdAt a)
  refine (hsorted ?_ ?_ l).imp fun h => of_decide_eq_true h
  · intro a b c hab hbc
    have h := Int.le_trans (of_decide_eq_true hbc) (of_decide_eq_true hab)
    exact decide_eq_true h
  · intro a b
    rw [Bool.or_eq_true, decide_eq_true_eq, decide_eq_true_eq]
    exact Int.le_total _ _

/-- The orders that `get_my_orders` goes through. -/
def foundOrders (scans : SellerUser.OrderScans) (d : Db) (s : Uuid) (status : Option OrderStatus) :
    List Order :=
  (scans.orders.val (d.sellerOrders s status)).mergeSort fun o o' => o'.createdAt ≤ o.createdAt

/-- Their items, of all sellers. -/
def foundItems (scans : SellerUser.OrderScans) (d : Db) (s : Uuid) (status : Option OrderStatus) :
    List OrderItem :=
  scans.items.val (d.orderItems.rows.filter fun i =>
    i.orderId ∈ (foundOrders scans d s status).map Order.id)

/-- The orders that the query finds are the seller's, in some order. -/
theorem foundOrders_perm (scans : SellerUser.OrderScans) (d : Db) (s : Uuid)
    (status : Option OrderStatus) : (foundOrders scans d s status).Perm (d.sellerOrders s status) :=
  (List.mergeSort_perm _ _).trans (scans.orders.property _)

/-- The seller's list of orders is made from the orders, items and products found. -/
theorem answer_getMyOrders_eq (scans : SellerUser.OrderScans) (status : Option OrderStatus) :
    d.answer (SellerUser.getMyOrders scans s status) =
      (foundOrders scans d s status).mapM (SellerUser.sellerOrder
        (d.products.rows.filter fun p =>
          p.id ∈ (foundItems scans d s status).map OrderItem.productId)
        (foundItems scans d s status) s) := by
  have hfilter := SellerUser.filter_soldIds (scans.ids.property (SellerUser.soldIds d s status))
  have hcall : d.answer (SellerUser.getMyOrders scans s status) =
      (exec store (if scans.ids.val (SellerUser.soldIds d s status) = [] then pure [] else _)
        [] d [] Session.fresh).value := rfl
  rw [hcall]
  split
  · next hnone =>
      have hempty : d.sellerOrders s status = [] := by
        rw [← hfilter, hnone]
        simp
      have hfound := foundOrders_perm scans d s status
      rw [hempty] at hfound
      rw [hfound.eq_nil]
      rfl
  · -- the two loaders, and the loop over what they have found
    have hloaders : ∀ orders : List Order, (exec store (do
          let items ← loadIn (orders.map Order.id) fun d =>
            scans.items.val (d.orderItems.rows.filter fun i => i.orderId ∈ orders.map Order.id)
          let products ← loadIn (items.map OrderItem.productId) fun d =>
            d.products.rows.filter fun p => p.id ∈ items.map OrderItem.productId
          Prog.ofExcept (orders.mapM (SellerUser.sellerOrder products items s)))
        [] d [] Session.fresh).value =
          orders.mapM (SellerUser.sellerOrder
            (d.products.rows.filter fun p => p.id ∈ (scans.items.val (d.orderItems.rows.filter
              fun i => i.orderId ∈ orders.map Order.id)).map OrderItem.productId)
            (scans.items.val (d.orderItems.rows.filter fun i =>
              i.orderId ∈ orders.map Order.id)) s) := by
      intro orders
      rw [exec_loadIn, exec_loadIn, exec_ofExcept]
      · intro hkeys
        rw [hkeys]
        simp
      · intro hkeys
        simp only [hkeys, List.not_mem_nil, decide_false, List.filter_false]
        exact (scans.items.property []).eq_nil
    rw [foundItems, foundOrders, ← hfilter]
    exact hloaders _

/-- **`get_my_orders` of a seller** shows the orders that contain the seller's
items, as the seller is to see them, the newest first. -/
theorem answer_getMyOrders (hd : d.ItemsReference) (scans : SellerUser.OrderScans)
    (status : Option OrderStatus) :
    ∃ orders, d.answer (SellerUser.getMyOrders scans s status) = .ok orders ∧
      (orders.map SellerUser.SellerOrderRead.view).Perm
        ((d.sellerOrders s status).map (SellerUser.orderView d s)) ∧
      NewestFirst (orders.map (·.createdAt)) := by
  rw [answer_getMyOrders_eq]
  have hshown : ∀ o ∈ foundOrders scans d s status, ∃ r, SellerUser.sellerOrder
      (d.products.rows.filter fun p =>
        p.id ∈ (foundItems scans d s status).map OrderItem.productId)
      (foundItems scans d s status) s o = .ok r ∧ r.view = SellerUser.orderView d s o :=
    fun o ho => SellerUser.sellerOrder_view hd (List.mem_map_of_mem ho) (scans.items.property _)
  obtain ⟨orders, horders, hviews⟩ := SellerUser.mapM_eq_ok hshown
  refine ⟨orders, horders, ?_, ?_⟩
  · rw [hviews]
    exact (foundOrders_perm scans d s status).map _
  · have htimes : orders.map (·.createdAt) =
        (foundOrders scans d s status).map Order.createdAt := by
      have htime := congrArg (List.map fun v : SellerUser.OrderView => v.1.2.2.1) hviews
      rw [List.map_map, List.map_map] at htime
      exact htime
    rw [htimes]
    exact newestFirst_mergeSort Order.createdAt _

/-! ## Statistics -/

/-- The seller's list of products has one entry for each product of that status. -/
theorem length_getMyProducts (scan : Scan Product) (status : Option ProductStatus) :
    (d.answer (SellerUser.getMyProducts scan s status)).map List.length =
      .ok (d.products.rows.filter fun p => p.ownerId = s ∧ Selected status p.status).length := by
  show Except.ok _ = Except.ok _
  rw [List.length_mergeSort, (scan.property _).length_eq]

/-- The seller's list of orders has one entry for each order of that status. -/
theorem length_getMyOrders (hd : d.ItemsReference) (scans : SellerUser.OrderScans)
    (status : Option OrderStatus) :
    (d.answer (SellerUser.getMyOrders scans s status)).map List.length =
      .ok (d.sellerOrders s status).length := by
  obtain ⟨orders, horders, hviews, -⟩ := answer_getMyOrders hd scans status
  rw [horders]
  have hlength := hviews.length_eq
  rw [List.length_map, List.length_map] at hlength
  exact congrArg Except.ok hlength

/-- Each order is counted once, however many items of the seller it has. -/
theorem countDistinct_soldRows (status : OrderStatus) :
    countDistinct (fun r : (Order × OrderItem) × Product => r.1.1.id)
      ((SellerUser.soldRows d s).filter fun r => r.1.1.status = status) =
        (d.sellerOrders s (some status)).length := by
  rw [countDistinct_eq (d.nodup_sellerOrders s (some status)), List.length_map]
  intro id
  simp only [List.mem_map, SellerUser.mem_sellerOrders_iff_row, List.mem_filter, decide_eq_true_eq,
    Selected, Option.mem_some_iff, forall_eq']
  constructor
  · rintro ⟨o, ⟨r, hr, hstatus, rfl⟩, rfl⟩
    exact ⟨r, ⟨hr, hstatus⟩, rfl⟩
  · rintro ⟨r, ⟨hr, hstatus⟩, rfl⟩
    exact ⟨r.1.1, ⟨r, hr, hstatus, rfl⟩, rfl⟩

/-- The buyer's list of orders has one entry for each order of that status. -/
theorem length_getMyOrders_buyer (scan : Scan Order) (scanItems : Scan OrderItem)
    (status : Option OrderStatus) :
    (d.answer (BuyerUser.getMyOrders scan scanItems s status)).map List.length =
      .ok (d.orders.rows.filter fun o => o.userId = s ∧ Selected status o.status).length := by
  have hload : ∀ orders : List Order, ((exec store (do
        let items ← loadIn (orders.map Order.id) fun d =>
          scanItems.val (d.orderItems.rows.filter fun i => i.orderId ∈ orders.map Order.id)
        return orders.map fun o => OrderObj.load o (items.filter fun i => i.orderId = o.id))
      [] d [] Session.fresh).value).map List.length = .ok orders.length := by
    intro orders
    rw [exec_loadIn]
    · exact congrArg Except.ok (List.length_map _)
    · intro hkeys
      simp only [hkeys, List.not_mem_nil, decide_false, List.filter_false]
      exact (scanItems.property []).eq_nil
  rw [← (scan.property _).length_eq, ← List.length_mergeSort]
  exact hload _

/-- Without a status every row is selected. -/
theorem filter_selected_none {α σ : Type} [DecidableEq σ] {p : α → Prop} [DecidablePred p]
    (col : α → σ) (l : List α) :
    (l.filter fun a => p a ∧ Selected none (col a)) = l.filter fun a => p a := by
  refine List.filter_congr fun a _ => ?_
  simp [Selected]

/-- With a status the rows in it are selected. -/
theorem filter_selected_some {α σ : Type} [DecidableEq σ] {p : α → Prop} [DecidablePred p]
    (col : α → σ) (k : σ) (l : List α) :
    (l.filter fun a => p a ∧ Selected (some k) (col a)) =
      (l.filter fun a => p a).filter fun a => col a = k := by
  rw [List.filter_filter]
  refine List.filter_congr fun a _ => ?_
  by_cases ha : col a = k <;> simp [Selected, ha]

/-- A count of a group is the length of the filtered list. -/
theorem getD_groupBy_length {α σ : Type} [DecidableEq σ] {p : α → Prop} [DecidablePred p]
    {col : α → σ} {l : List α} (scan : Scan (σ × Nat)) (k : σ) :
    getD (scan.val (groupBy col List.length (l.filter fun a => p a))) k 0 =
      (l.filter fun a => p a ∧ Selected (some k) (col a)).length := by
  rw [filter_selected_some]
  exact getD_groupBy (scan.property _) k

/-- Counts by status add up to the number of rows. -/
theorem sum_groupBy_length {α σ : Type} [DecidableEq σ] {p : α → Prop} [DecidablePred p]
    {col : α → σ} {l : List α} (scan : Scan (σ × Nat)) :
    ((scan.val (groupBy col List.length (l.filter fun a => p a))).map Prod.snd).sum =
      (l.filter fun a => p a ∧ Selected none (col a)).length := by
  rw [filter_selected_none]
  exact sum_groupBy (scan.property _)

/-- The count of a status is the number of the seller's orders in it. -/
theorem getD_soldOrders (scan : Scan (OrderStatus × Nat)) (status : OrderStatus) :
    getD (scan.val (groupBy (fun r : (Order × OrderItem) × Product => r.1.1.status)
      (countDistinct fun r => r.1.1.id) (SellerUser.soldRows d s))) status 0 =
      (d.sellerOrders s (some status)).length := by
  rw [← countDistinct_soldRows]
  exact getD_groupBy (scan.property _) status

/-- An order is listed once. -/
theorem nodup_getMyOrders (hd : d.ItemsReference) (scans : SellerUser.OrderScans)
    (status : Option OrderStatus) {orders : List SellerUser.SellerOrderRead}
    (h : d.answer (SellerUser.getMyOrders scans s status) = .ok orders) :
    (orders.map (·.id)).Nodup := by
  obtain ⟨orders', horders', hviews, -⟩ := answer_getMyOrders (s := s) hd scans status
  obtain rfl := Except.ok.inj (h.symm.trans horders')
  have hids := hviews.map fun v : SellerUser.OrderView => v.1.1
  rw [List.map_map, List.map_map] at hids
  exact hids.nodup_iff.mpr (d.nodup_sellerOrders s status)

/-- **The dashboards agree with the lists**, for sellers and for buyers. -/
theorem stats_eq_lengths (hd : d.ItemsReference) (s : Uuid) (products : Scan Product)
    (orders : SellerUser.OrderScans) (counts : SellerUser.StatScans) (mine : Scan Order)
    (items : Scan OrderItem) (groups : Scan (OrderStatus × Nat)) :
    (∃ stats, d.answer (SellerUser.getMyStats counts s) = .ok stats ∧
      (d.answer (SellerUser.getMyProducts products s none)).map List.length =
        .ok stats.totalProducts ∧
      (d.answer (SellerUser.getMyProducts products s (some .active))).map List.length =
        .ok stats.activeProducts ∧
      (d.answer (SellerUser.getMyProducts products s (some .pendingModeration))).map List.length =
        .ok stats.pendingModeration ∧
      (d.answer (SellerUser.getMyProducts products s (some .rejected))).map List.length =
        .ok stats.rejectedProducts ∧
      (d.answer (SellerUser.getMyOrders orders s (some .pending))).map List.length =
        .ok stats.pendingOrders ∧
      (d.answer (SellerUser.getMyOrders orders s (some .paid))).map List.length =
        .ok stats.paidOrders ∧
      ∀ status list, d.answer (SellerUser.getMyOrders orders s status) = .ok list →
        (list.map (·.id)).Nodup) ∧
    (∃ stats, d.answer (BuyerUser.getMyStats groups s) = .ok stats ∧
      (d.answer (BuyerUser.getMyOrders mine items s none)).map List.length =
        .ok stats.totalOrders ∧
      (d.answer (BuyerUser.getMyOrders mine items s (some .pending))).map List.length =
        .ok stats.pendingOrders ∧
      (d.answer (BuyerUser.getMyOrders mine items s (some .paid))).map List.length =
        .ok stats.paidOrders ∧
      (d.answer (BuyerUser.getMyOrders mine items s (some .shipped))).map List.length =
        .ok stats.shippedOrders) := by
  simp only [length_getMyProducts, length_getMyOrders hd, length_getMyOrders_buyer]
  refine ⟨⟨_, rfl, ?_, ?_, ?_, ?_, ?_, ?_, fun status list => nodup_getMyOrders hd orders status⟩,
    ⟨_, rfl, ?_, ?_, ?_, ?_⟩⟩
  · exact congrArg Except.ok (sum_groupBy_length counts.products).symm
  · exact congrArg Except.ok (getD_groupBy_length counts.products .active).symm
  · exact congrArg Except.ok (getD_groupBy_length counts.products .pendingModeration).symm
  · exact congrArg Except.ok (getD_groupBy_length counts.products .rejected).symm
  · exact congrArg Except.ok (getD_soldOrders counts.orders .pending).symm
  · exact congrArg Except.ok (getD_soldOrders counts.orders .paid).symm
  · exact congrArg Except.ok (sum_groupBy_length groups).symm
  · exact congrArg Except.ok (getD_groupBy_length groups .pending).symm
  · exact congrArg Except.ok (getD_groupBy_length groups .paid).symm
  · exact congrArg Except.ok (getD_groupBy_length groups .shipped).symm

/-! ## The seller's share -/

/-- The databases agree on the seller's items and on what an order shows to its
sellers: not on its buyer, its total, items of other sellers, or the address of
an order that is pending, failed or cancelled. -/
structure SameShare (s : Uuid) (d d' : Db) : Prop where
  orders : ∀ id, (d.orders.get id).map SellerUser.orderShare =
    (d'.orders.get id).map SellerUser.orderShare
  items : ∀ i, i ∈ d.orderItems.rows ∧ d.Sells s i ↔ i ∈ d'.orderItems.rows ∧ d'.Sells s i

variable {d' : Db}

/-- Sharing the seller's view of the orders goes both ways. -/
theorem SameShare.symm (h : SameShare s d d') : SameShare s d' d :=
  ⟨fun id => (h.orders id).symm, fun i => (h.items i).symm⟩

/-- The views of the orders of one database are those of the other. -/
theorem SameShare.view_mem {status : Option OrderStatus} (h : SameShare s d d')
    {v : SellerUser.OrderView} (hv : v ∈ (d.sellerOrders s status).map (SellerUser.orderView d s)) :
    v ∈ (d'.sellerOrders s status).map (SellerUser.orderView d' s) := by
  obtain ⟨o, ho, rfl⟩ := List.mem_map.mp hv
  obtain ⟨hrow, hstatus, i, hi, hio, hsells⟩ := Db.mem_sellerOrders.mp ho
  have hshare := h.orders o.id
  rw [show d.orders.get o.id = some o from Table.get_of_mem hrow, Option.map_some] at hshare
  obtain ⟨o', ho', heq⟩ := Option.map_eq_some_iff.mp hshare.symm
  obtain ⟨hid, hsame, -⟩ : o'.id = o.id ∧ o'.status = o.status ∧ _ := by
    simpa [SellerUser.orderShare] using heq
  have hitems : (d'.sellerItems s o').Perm (d.sellerItems s o) := by
    refine (List.perm_ext_iff_of_nodup (d'.nodup_sellerItems s o') (d.nodup_sellerItems s o)).mpr
      fun i => ?_
    rw [Db.mem_sellerItems, Db.mem_sellerItems, hid]
    have hitem := h.items i
    tauto
  refine List.mem_map.mpr ⟨o', Db.mem_sellerOrders.mpr ⟨Table.mem_of_get ho', ?_, ?_⟩, ?_⟩
  · rw [hsame]
    exact hstatus
  · obtain ⟨hi', hsells'⟩ := (h.items i).mp ⟨hi, hsells⟩
    exact ⟨i, hi', hio.trans hid.symm, hsells'⟩
  · exact Prod.ext heq (Multiset.coe_eq_coe.mpr (hitems.map _))

/-- The views of different orders differ. -/
theorem nodup_views (d : Db) (s : Uuid) (status : Option OrderStatus) :
    ((d.sellerOrders s status).map (SellerUser.orderView d s)).Nodup := by
  refine List.Nodup.of_map (fun v : SellerUser.OrderView => v.1.1) ?_
  rw [List.map_map]
  exact d.nodup_sellerOrders s status

/-- States with the same share have the same views, in some order. -/
theorem SameShare.views_perm (h : SameShare s d d') (status : Option OrderStatus) :
    ((d.sellerOrders s status).map (SellerUser.orderView d s)).Perm
      ((d'.sellerOrders s status).map (SellerUser.orderView d' s)) :=
  (List.perm_ext_iff_of_nodup (nodup_views d s status) (nodup_views d' s status)).mpr
    fun _ => ⟨h.view_mem, h.symm.view_mem⟩

/-- **A seller sees the seller's share**: `get_my_orders` shows exactly the
orders with an item of the seller, each once and with these items, and shows
the same of two databases that differ in nothing else. -/
theorem getMyOrders_share (hd : d.ItemsReference) (scans : SellerUser.OrderScans)
    (status : Option OrderStatus) :
    ∃ orders, d.answer (SellerUser.getMyOrders scans s status) = .ok orders ∧
      (orders.map SellerUser.SellerOrderRead.view).Perm
        ((d.sellerOrders s status).map (SellerUser.orderView d s)) ∧
      (orders.map (·.id)).Nodup ∧ NewestFirst (orders.map (·.createdAt)) ∧
      ∀ d' scans', d'.ItemsReference → SameShare s d d' →
        ∃ orders', d'.answer (SellerUser.getMyOrders scans' s status) = .ok orders' ∧
          (orders'.map SellerUser.SellerOrderRead.view).Perm
            (orders.map SellerUser.SellerOrderRead.view) ∧
          NewestFirst (orders'.map (·.createdAt)) := by
  obtain ⟨orders, horders, hviews, hnewest⟩ := answer_getMyOrders (s := s) hd scans status
  refine ⟨orders, horders, hviews, nodup_getMyOrders hd scans status horders, hnewest, ?_⟩
  intro d' scans' hd' hsame
  obtain ⟨orders', horders', hviews', hnewest'⟩ := answer_getMyOrders (s := s) hd' scans' status
  exact ⟨orders', horders', (hviews'.trans (hsame.views_perm status).symm).trans hviews.symm,
    hnewest'⟩

end

/-! ## A desk -/

/-- Seller 7 sells the lamp, seller 8 the chair and, not published yet, the sofa. -/
def deskProducts : Table Product :=
  ⟨[⟨1, 7, "Lamp", none, ⟨1000, by decide⟩, ⟨5, by decide⟩, 0, 0, .active, none, none⟩,
    ⟨2, 8, "Chair", none, ⟨2500, by decide⟩, ⟨5, by decide⟩, 0, 0, .active, none, none⟩,
    ⟨3, 8, "Sofa", none, ⟨9000, by decide⟩, ⟨1, by decide⟩, 0, 0, .draft, none, none⟩], by simp⟩

/-- Two lines of the paid order, and the line of the order that is not paid. -/
def deskLamps : List OrderItem :=
  [⟨21, 11, 1, "Lamp", 1, ⟨1000, by decide⟩⟩, ⟨22, 11, 1, "Lamp", 2, ⟨1000, by decide⟩⟩,
    ⟨24, 12, 1, "Lamp", 1, ⟨1000, by decide⟩⟩]

def deskChair : OrderItem := ⟨23, 11, 2, "Chair", 1, ⟨2500, by decide⟩⟩

/-- A paid order with the lamp twice, and a pending one with a lamp. -/
def lampsDb : Db where
  products := deskProducts
  reservations := .empty
  orders := ⟨[⟨11, 5, .paid, ⟨3000, by decide⟩, some "Main St 1", 3, 3⟩,
    ⟨12, 5, .pending, ⟨1000, by decide⟩, some "Park Ave 2", 4, 4⟩], by simp⟩
  orderItems := ⟨deskLamps, by simp [deskLamps]⟩
  auditLogs := []

/-- The orders of another buyer, the first with a chair as well, the second to
another address. -/
def chairDb : Db where
  products := deskProducts
  reservations := .empty
  orders := ⟨[⟨11, 6, .paid, ⟨5500, by decide⟩, some "Main St 1", 3, 3⟩,
    ⟨12, 6, .pending, ⟨1000, by decide⟩, some "Hill Rd 9", 4, 4⟩], by simp⟩
  orderItems := ⟨deskChair :: deskLamps, by simp [deskLamps, deskChair]⟩
  auditLogs := []

/-- The desk's items refer to stored rows. -/
theorem lampsDb_references : lampsDb.ItemsReference := by
  simp [Db.ItemsReference, lampsDb, deskLamps, deskProducts, Table.get]

/-- The chair shop's items refer to stored rows. -/
theorem chairDb_references : chairDb.ItemsReference := by
  simp [Db.ItemsReference, chairDb, deskLamps, deskChair, deskProducts, Table.get]

/-- The pending order has two addresses in the two databases and shows neither. -/
theorem lampsDb_share : SameShare 7 lampsDb chairDb where
  orders id := by
    by_cases hpaid : 11 = id
    · simp [lampsDb, chairDb, Table.get, hpaid, SellerUser.orderShare]
    · by_cases hpending : 12 = id <;>
        simp [lampsDb, chairDb, Table.get, hpaid, hpending, SellerUser.orderShare]
  items i := by
    have hchair : ¬ chairDb.Sells 7 deskChair := by
      simp [Db.Sells, chairDb, deskProducts, deskChair]
    have hsells : lampsDb.Sells 7 i ↔ chairDb.Sells 7 i := Iff.rfl
    show i ∈ deskLamps ∧ _ ↔ i ∈ deskChair :: deskLamps ∧ _
    rw [hsells, List.mem_cons]
    constructor
    · exact fun h => ⟨.inr h.1, h.2⟩
    · rintro ⟨rfl | hi, h⟩
      · exact absurd h hchair
      · exact ⟨hi, h⟩

/-- The order in which the rows are stored. -/
def asStored {α : Type} : Scan α := ⟨id, List.Perm.refl⟩

def tableScans : SellerUser.OrderScans := ⟨asStored, asStored, asStored⟩

/-- The order with two items of seller 7 is counted once. -/
theorem stats_eq_lengths_lamps : ∃ stats,
    lampsDb.answer (SellerUser.getMyStats ⟨⟨id, fun _ => .refl _⟩, ⟨id, fun _ => .refl _⟩⟩ 7) =
      .ok stats ∧
    (lampsDb.answer (SellerUser.getMyOrders tableScans 7 (some .paid))).map List.length =
      .ok stats.paidOrders := by
  obtain ⟨⟨stats, hstats, -, -, -, -, -, hpaid, -⟩, -⟩ := stats_eq_lengths lampsDb_references 7
    ⟨id, fun _ => .refl _⟩ tableScans ⟨⟨id, fun _ => .refl _⟩, ⟨id, fun _ => .refl _⟩⟩
    ⟨id, fun _ => .refl _⟩ ⟨id, fun _ => .refl _⟩ ⟨id, fun _ => .refl _⟩
  exact ⟨stats, hstats, hpaid⟩

/-- Seller 7 does not see the chair, nor who bought it, nor where the unpaid
lamp is to be sent: the order shows no address, and the same for any address. -/
theorem getMyOrders_share_lamps :
    (lampsDb.orders.get 12).map Order.shippingAddress ≠
      (chairDb.orders.get 12).map Order.shippingAddress ∧
    ∃ orders orders',
      lampsDb.answer (SellerUser.getMyOrders tableScans 7 none) = .ok orders ∧
      chairDb.answer (SellerUser.getMyOrders tableScans 7 none) = .ok orders' ∧
      (orders.map (·.shippingAddress)).Perm [some "Main St 1", none] ∧
      (orders'.map SellerUser.SellerOrderRead.view).Perm
        (orders.map SellerUser.SellerOrderRead.view) := by
  obtain ⟨orders, horders, hviews, -, -, hsame⟩ :=
    getMyOrders_share (s := 7) lampsDb_references tableScans none
  obtain ⟨orders', horders', hviews', -⟩ := hsame chairDb tableScans chairDb_references lampsDb_share
  refine ⟨by decide, orders, orders', horders, horders', ?_, hviews'⟩
  have haddresses := hviews.map fun v : SellerUser.OrderView => v.1.2.2.2
  rw [List.map_map, List.map_map] at haddresses
  exact haddresses

end FairDrop
