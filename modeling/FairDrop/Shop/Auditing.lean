import FairDrop.Shop.Actors

/-!
# FairDrop.Shop.Auditing

What the audit log says of the operations of users.  An entry is written if two
snapshots of the target differ: the one from before the change and the one from
after it.  Every operation but one passes these; a deletion passes one snapshot
twice, so it leaves no trace (`audit_complete`).
-/

namespace FairDrop

open RowStore

/-! ## Targets -/

inductive AuditTarget where
  | product (id : Uuid)
  | order (id : Uuid)

/-- A dumped response without its `updated_at`. -/
def Snapshot.untimed (s : Snapshot) : Snapshot := s.filter fun f => f.1 ≠ "updated_at"

/-- The `ProductRead` of a row. -/
def Product.view (p : Product) : Option Snapshot :=
  (ProductRead.modelValidate (.load p)).toOption.map fun response => response.dump.untimed

/-- The `OrderResponse` of a row. -/
def Order.view (o : Order) (items : List OrderItem) : Snapshot := (OrderObj.load o items).dump.untimed

namespace AuditTarget

def type : AuditTarget → String
  | .product _ => "product"
  | .order _ => "order"

def id : AuditTarget → Uuid
  | .product id | .order id => id

/-- What a response shows of the target, its `updated_at` aside. -/
def view (d : Db) : AuditTarget → Option Snapshot
  | .product id => (d.products.get id).bind Product.view
  | .order id => (d.orders.get id).map fun o =>
      o.view (d.orderItems.rows.filter fun i => i.orderId = id)

end AuditTarget

/-- What an operation is to be logged as. -/
structure Audited where
  target : AuditTarget
  actorId : Uuid
  action : String

/-- The entry is for the operation. -/
structure Audited.Logs (a : Audited) (entry : AuditLog) : Prop where
  targetType : entry.targetType = a.target.type
  targetId : entry.targetId = a.target.id
  actorId : entry.actorId = a.actorId
  action : entry.action = a.action

/-- The operations of users on products and orders. -/
def Call.audited (env : Env) : Call → Option Audited
  | .createProduct _ _ user => some ⟨.product (env.uuid 0), user.id, "create"⟩
  | .updateProduct id _ user => some ⟨.product id, user.id, "update"⟩
  | .submitForModeration id user => some ⟨.product id, user.id, "submit_for_moderation"⟩
  | .claimForModeration id user => some ⟨.product id, user.id, "claim_for_moderation"⟩
  | .approveProduct id user => some ⟨.product id, user.id, "approve"⟩
  | .rejectProduct id user _ => some ⟨.product id, user.id, "reject"⟩
  | .changeStatus id _ user => some ⟨.product id, user.id, "update"⟩
  | .createOrder user _ => some ⟨.order (env.uuid 0), user.id, "create"⟩
  | .confirmOrderPayment id user => some ⟨.order id, user.id, "payment"⟩
  | .cancelOrder id user => some ⟨.order id, user.id, "cancel"⟩
  | .reserveItems _ _ _ | .releaseReservation _ => none

def ShopActor.audited : ShopActor → Option Audited
  | .shop (.request c env) => c.audited env
  | .deleteProduct id user _ => some ⟨.product id, user.id, "delete"⟩
  | .shop (.sweep _ _ _) | .orderDetails _ _ _ | .createUploadUrl _ _ _ _ _ => none

/-! ## Differences -/

theorem ProductStatus.text_inj {a b : ProductStatus} : a.text = b.text ↔ a = b := by
  constructor
  · cases a <;> cases b <;> simp [ProductStatus.text]
  · exact congrArg _

theorem OrderStatus.text_inj {a b : OrderStatus} : a.text = b.text ↔ a = b := by
  constructor
  · cases a <;> cases b <;> simp [OrderStatus.text]
  · exact congrArg _

/-- Two responses without a difference are one. -/
theorem ProductRead.getDiff_eq_nil {a b : ProductRead} :
    getDiff (some a.dump) (some b.dump) = [] ↔ b = a := by
  obtain ⟨id, name, description, price, qty, status, created, updated⟩ := a
  obtain ⟨id', name', description', price', qty', status', created', updated'⟩ := b
  simp only [getDiff, List.filterMap_eq_nil_iff]
  simp [ProductRead.dump, Snapshot.get, ProductStatus.text_inj, Json.Equal.refl]

theorem OrderObj.status_of_getDiff {a b : OrderObj} (h : getDiff (some a.dump) (some b.dump) = []) :
    b.status = a.status := by
  simp only [getDiff, List.filterMap_eq_nil_iff] at h
  simp [OrderObj.dump, Snapshot.get, OrderStatus.text_inj] at h
  exact h.2.2.1

section
variable {env : Env} {user : User} {action : String}

/-- Of a difference there is an entry. -/
theorem logObjectChange_of_ne {actorId targetId : Uuid} {targetType : String}
    {old new extra : Option Snapshot} (h : getDiff old new ≠ []) :
    logObjectChange env actorId targetId targetType action old new extra =
      some (logEvent env actorId targetType targetId action (getDiff old new) extra) := by
  simp [logObjectChange, h]

/-- An instance without a difference is stored as a row that shows none. -/
theorem view_of_storedAs {obj : ProductObj} {p p' : Product} (hs : obj.StoredAs p')
    (h : ProductRead.modelValidate obj = ProductRead.modelValidate (.load p)) :
    p'.view = p.view := by
  obtain ⟨hid, _, hname, hdesc, ⟨d, hd, hprice⟩, hqty, hcreated, hstatus, _, _⟩ := hs
  simp only [ProductRead.modelValidate, hname, hd, hqty, ProductObj.load, Except.ok.injEq,
    ProductRead.mk.injEq] at h
  obtain ⟨hid', hname', hdesc', rfl, hqty', hstatus', hcreated', _⟩ := h
  rw [Decimal.cents_ofCents] at hprice
  simp [Product.view, ProductRead.modelValidate, ProductObj.load, ProductRead.dump,
    Snapshot.untimed, hid, hid', hname', hdesc, hdesc', hprice, hqty', hstatus, hstatus', hcreated,
    hcreated', Except.toOption]

/-- The entry of an edited product. -/
theorem logs_of_edit {obj : ProductObj} {p p' : Product} {old : ProductRead}
    {metadata : Option Snapshot} {entry : Option AuditLog} (hs : obj.StoredAs p')
    (hold : ProductRead.modelValidate (.load p) = .ok old)
    (hlog : productEntry env user obj (some old) action metadata = .ok entry)
    (hview : p'.view ≠ p.view) :
    ∃ e, entry = some e ∧ (⟨.product obj.id, user.id, action⟩ : Audited).Logs e := by
  rw [productEntry] at hlog
  cases hnew : ProductRead.modelValidate obj with
  | error e =>
      rw [hnew] at hlog
      contradiction
  | ok new =>
      rw [hnew] at hlog
      obtain rfl := Except.ok.inj hlog
      have hdiff : getDiff (some old.dump) (some new.dump) ≠ [] := by
        rw [ne_eq, ProductRead.getDiff_eq_nil]
        rintro rfl
        exact hview (view_of_storedAs hs (hnew.trans hold.symm))
      exact ⟨_, logObjectChange_of_ne hdiff, rfl, rfl, rfl, rfl⟩

/-- The entry of an order that moves on. -/
theorem logs_of_move {d : Db} {o : Order} {items : List OrderItem} {id : Uuid} {status : OrderStatus}
    (hget : d.orders.get id = some o) (h : o.status ≠ status) :
    ∃ e, d.auditLogs ++ (orderEntry env user ((OrderObj.load o items).moved status)
        (some (.load o items)) action).toList = d.auditLogs ++ [e] ∧
      (⟨.order id, user.id, action⟩ : Audited).Logs e := by
  obtain rfl : o.id = id := Table.key_of_get hget
  have hdiff : getDiff (some (OrderObj.load o items).dump)
      (some ((OrderObj.load o items).moved status).dump) ≠ [] :=
    fun hnil => h (OrderObj.status_of_getDiff hnil).symm
  have hentry : orderEntry env user ((OrderObj.load o items).moved status) (some (.load o items))
      action = _ := logObjectChange_of_ne hdiff
  rw [hentry]
  exact ⟨_, rfl, rfl, rfl, rfl, rfl⟩

theorem audited_of_moderation {c : Call} {m : Moderation} (h : c.moderation = some m) :
    c.audited env = some ⟨.product m.productId, m.actor.id, m.move.action⟩ := by
  cases c with
  | submitForModeration | changeStatus | claimForModeration | approveProduct | rejectProduct =>
      cases h
      rfl
  | _ => contradiction

/-- The entry of an edited row. -/
theorem logs_of_set {d : Db} {obj : ProductObj} {p p' : Product} {id : Uuid} {old : ProductRead}
    {metadata : Option Snapshot} {entry : Option AuditLog} (hget : d.products.get id = some p)
    (hid : obj.id = p.id) (hs : obj.StoredAs p')
    (hold : ProductRead.modelValidate (.load p) = .ok old)
    (hlog : productEntry env user obj (some old) action metadata = .ok entry)
    (hview : (AuditTarget.product id).view
      { d with products := d.products.set p', auditLogs := d.auditLogs ++ entry.toList } ≠
        (AuditTarget.product id).view d) :
    ∃ e, d.auditLogs ++ entry.toList = d.auditLogs ++ [e] ∧
      (⟨.product id, user.id, action⟩ : Audited).Logs e := by
  obtain rfl : p.id = id := Table.key_of_get hget
  have hkey : p'.id = p.id := hs.id.trans hid
  have hafter : (d.products.set p').get p.id = some p' := by
    rw [← hkey] at hget ⊢
    exact Table.get_set_self hget
  simp only [AuditTarget.view, hafter, hget, Option.bind_some] at hview
  obtain ⟨e, rfl, he⟩ := logs_of_edit hs hold hlog hview
  exact ⟨e, rfl, hid ▸ he⟩

/-- **One call** logs what it does to its target. -/
theorem logs_of_change {alone : Bool} {c : Call} {d d' : Db} {a : Audited}
    (ha : c.audited env = some a) (hc : Change env alone d c d')
    (hview : a.target.view d' ≠ a.target.view d) :
    ∃ e, d'.auditLogs = d.auditLogs ++ [e] ∧ a.Logs e := by
  cases hc with
  | createProduct p entry hs hnew hlog =>
      obtain rfl := Option.some.inj ha
      obtain rfl := Except.ok.inj hlog
      exact ⟨_, rfl, rfl, rfl, rfl, rfl⟩
  | updateProduct p p' old entry hget howner hfree hs hold hlog =>
      obtain rfl := Option.some.inj ha
      exact logs_of_set hget (ProductObj.id_edit _ _) hs hold hlog hview
  | moderate p p' old entry hmod hget howner hallowed hs hold hlog =>
      rw [audited_of_moderation hmod] at ha
      obtain rfl := Option.some.inj ha
      exact logs_of_set hget rfl hs hold hlog hview
  | createOrder r p o i stored hget howner hstatus hdue hlink hread hp ho hi hord =>
      obtain rfl := Option.some.inj ha
      exact ⟨_, rfl, rfl, rfl, rfl, rfl⟩
  | confirmOrderPayment o r items hget howner hstatus hr hlink =>
      obtain rfl := Option.some.inj ha
      exact logs_of_move hget (by simp [hstatus])
  | cancelOrder o r products items hget howner hstatus hr hlink hstock =>
      obtain rfl := Option.some.inj ha
      exact logs_of_move hget (by simp [hstatus])
  | reserveItems | releaseReservation => contradiction

end

/-! ## Runs -/

/-- Every operation on a target leaves its entry when it commits a change, and
none before. -/
def AuditComplete {T : Type} [DecidableEq T] (actors : T → ShopActor)
    (evs : List (Event ShopDb ShopWrite T)) : Prop :=
  ∀ t a, (actors t).audited = some a → commitsOf t evs ≤ 1 ∧ ∀ ev ∈ evs, ev.txn = t →
    (ev.commit = none → ev.after.db.auditLogs = ev.before.db.auditLogs) ∧
    (ev.commit.isSome → a.target.view ev.after.db ≠ a.target.view ev.before.db →
      ∃ e, ev.after.db.auditLogs = ev.before.db.auditLogs ++ [e] ∧ a.Logs e)

/-- Whoever deletes a product. -/
def ShopActor.deletes : ShopActor → Bool
  | .deleteProduct _ _ _ => true
  | .shop _ | .orderDetails _ _ _ | .createUploadUrl _ _ _ _ _ => false

/-- A deletion goes unlogged. -/
theorem unlogged_of_delete {id : Uuid} {user : User} {env : Env} {d d' : ShopDb} {a : Audited}
    (ha : (ShopActor.deleteProduct id user env).audited = some a)
    (hc : (ShopActor.deleteProduct id user env).Commits d d') :
    a.target.view d'.db ≠ a.target.view d.db ∧ d'.db.auditLogs = d.db.auditLogs := by
  obtain rfl := Option.some.inj ha
  cases hc with
  | deleteProduct p images hget howner hreservations hitems himages =>
      refine ⟨?_, rfl⟩
      simp [AuditTarget.view, Table.get_erase_self, hget, Product.view, ProductRead.modelValidate,
        ProductObj.load, Except.toOption]

section
variable {T : Type} [DecidableEq T] {actors : T → ShopActor} {ok : ShopWorld T → T → Prop}
  {s : ShopWorld T} {evs : List (Event ShopDb ShopWrite T)}

/-- An operation on a target commits once. -/
theorem commitsOf_le_one (hrun : Run shopStore ok (ShopWorld.start actors) evs s) {t : T}
    {a : Audited} (ha : (actors t).audited = some a) : commitsOf t evs ≤ 1 := by
  obtain ⟨p, htracks, hcommits⟩ := (ShopWorld.tracks hrun).1 t
  rw [← hcommits]
  refine wp_commits_le ?_ htracks.rest
  intro r p' hend
  cases hactor : actors t with
  | shop actor =>
      rw [hactor] at ha hend
      cases actor with
      | request c env => exact hend
      | sweep env expireOnCommit scan => contradiction
  | deleteProduct id user env | createUploadUrl settings id req user env =>
      rw [hactor] at hend
      exact hend
  | orderDetails id user env =>
      rw [hactor] at ha
      contradiction

/-- **The audit log is complete** in a run exactly if no deletion commits. -/
theorem audit_complete (hrun : Run shopStore ok (ShopWorld.start actors) evs s) :
    AuditComplete actors evs ↔
      ∀ ev ∈ evs, ev.commit.isSome → (actors ev.txn).deletes = false := by
  obtain ⟨_, _, hevs⟩ := ShopWorld.tracks hrun
  constructor
  · intro hcomplete ev hev hcommit
    obtain ⟨_, hlaw⟩ := hevs ev hev
    obtain ⟨ws, hws⟩ := Option.isSome_iff_exists.mp hcommit
    cases hactor : actors ev.txn with
    | shop | orderDetails | createUploadUrl => rfl
    | deleteProduct id user env =>
        rw [hws, hactor] at hlaw
        have ha : (actors ev.txn).audited = some ⟨.product id, user.id, "delete"⟩ := by
          rw [hactor]
          rfl
        obtain ⟨hview, hsame⟩ := unlogged_of_delete rfl hlaw
        obtain ⟨e, hlogged, _⟩ := ((hcomplete ev.txn _ ha).2 ev hev rfl).2 hcommit hview
        rw [hsame] at hlogged
        simp at hlogged
  · intro hkeeps t a ha
    refine ⟨commitsOf_le_one hrun ha, fun ev hev ht => ⟨fun hquiet => ?_, fun hcommit hview => ?_⟩⟩
    · obtain ⟨_, hlaw⟩ := hevs ev hev
      rw [hquiet] at hlaw
      rw [hlaw]
    · obtain ⟨_, hlaw⟩ := hevs ev hev
      have hstays := hkeeps ev hev hcommit
      obtain ⟨ws, hws⟩ := Option.isSome_iff_exists.mp hcommit
      subst ht
      rw [hws] at hlaw
      cases hactor : actors ev.txn with
      | shop actor =>
          rw [hactor] at ha hlaw
          obtain ⟨hchange, _⟩ := ShopActor.Commits.of_shop hlaw
          cases actor with
          | request c env => exact logs_of_change ha hchange hview
          | sweep env expireOnCommit scan => contradiction
      | deleteProduct id user env =>
          rw [hactor] at hstays
          contradiction
      | orderDetails id user env | createUploadUrl settings id req user env =>
          rw [hactor] at ha
          contradiction

end

/-! ## A product that disappears -/

/-- A lamp is offered; a moderator deletes it, or marks it active. -/
def shelfActors (last : ShopActor) : Fin 2 → ShopActor
  | 0 => .shop (.request (.createProduct seller.id lamp seller) (shopEnv 0 0))
  | 1 => last

theorem audit_complete_activation : ∃ evs s,
    Run shopStore Anything (ShopWorld.start (shelfActors
      (.shop (.request (.changeStatus 0 .active moderator) (shopEnv 1 1))))) evs s ∧
    AuditComplete (shelfActors
      (.shop (.request (.changeStatus 0 .active moderator) (shopEnv 1 1)))) evs ∧
    s.db.db.auditLogs.length = 2 := by
  have hexec : ((ShopWorld.start (shelfActors
      (.shop (.request (.changeStatus 0 .active moderator) (shopEnv 1 1))))).exec shopStore
      (fun _ _ => true) (turns [(0, 6), (1, 5)])).any
      (fun x => x.2.db.db.auditLogs.length = 2) := by decide +kernel
  obtain ⟨evs, s, hrun, hlength⟩ := Run.of_exec_any (fun _ _ _ => trivial) hexec
  refine ⟨evs, s, hrun, (audit_complete hrun).mpr fun ev _ _ => ?_, of_decide_eq_true hlength⟩
  match ev.txn with
  | 0 | 1 => rfl

/-- The deletion of the lamp is nowhere in the log. -/
theorem not_audit_complete : ¬ ∀ (T : Type) [DecidableEq T] (actors : T → ShopActor)
    (evs : List (Event ShopDb ShopWrite T)) (s : ShopWorld T),
    Run shopStore Anything (ShopWorld.start actors) evs s → AuditComplete actors evs := by
  intro hall
  have hexec : ((ShopWorld.start (shelfActors
      (.deleteProduct 0 moderator (shopEnv 1 1)))).exec shopStore
      (fun _ _ => true) (turns [(0, 6), (1, 4)])).any (fun x => x.1.any fun ev =>
        decide (ev.txn = 1 ∧ ev.commit.isSome ∧
          (AuditTarget.product 0).view ev.after.db ≠ (AuditTarget.product 0).view ev.before.db ∧
          ev.after.db.auditLogs.length = ev.before.db.auditLogs.length)) := by decide +kernel
  obtain ⟨evs, s, hrun, hgone⟩ := Run.of_exec_any (fun _ _ _ => trivial) hexec
  obtain ⟨ev, hev, hgone⟩ := List.any_eq_true.mp hgone
  obtain ⟨htxn, hcommit, hview, hlength⟩ := of_decide_eq_true hgone
  obtain ⟨e, hlogged, _⟩ := ((hall _ _ evs s hrun 1 _ rfl).2 ev hev htxn).2 hcommit hview
  rw [hlogged] at hlength
  simp at hlength

end FairDrop
