import FairDrop.Inventory.Commits
import FairDrop.ProductRows

/-!
# FairDrop.Inventory.Payloads

Which of the payloads that the product schemas admit can be stored.  The schemas
ask for a price above zero and a quantity that is not negative, the table for a
price of ten cents and values that its columns hold; and an update may set a
required field to null (`stored_iff_fits`).
-/

namespace FairDrop

open RowStore

/-! ## Payloads -/

/-- A payload of `POST /products`, or one of `PATCH /products/{id}` for a product. -/
inductive Payload where
  | create (ownerId : Uuid) (data : ProductCreate)
  | update (product : Product) (data : ProductUpdate)

namespace Payload

/-- The call of the service. -/
def call (c : Payload) (env : Env) (user : User) : Tx Product :=
  match c with
  | .create ownerId data => createProduct env ownerId data user
  | .update product data => updateProduct env product.id data user

/-- The instance that the call flushes and takes a snapshot of. -/
def written (c : Payload) (env : Env) : ProductObj :=
  match c with
  | .create ownerId data => .create data ownerId (env.uuid 0) env.now
  | .update product data => (ProductObj.load product).edit data

/-- The id is a new one; the product is there and may be edited. -/
def Applies (c : Payload) (env : Env) (d : Db) : Prop :=
  match c with
  | .create _ _ => d.products.get (env.uuid 0) = none
  | .update product _ => d.products.get product.id = some product ∧ product.underModeration = false

end Payload

/-- Errors of a value that does not fit; no exception handler maps them. -/
def Failure.ofPayload : Failure → Bool
  | .integrityError | .dataError | .validationError => true
  | _ => false

/-- The row meets its constraints, the snapshot for the log is a `ProductRead`,
and the call does not end in an error of the payload, whatever fails. -/
structure Payload.Stored (c : Payload) (env : Env) (user : User) (d : Db) : Prop where
  row : ∃ row, (c.written env).row = .ok row
  snapshot : ∃ snapshot, ProductRead.modelValidate (c.written env) = .ok snapshot
  answer : ∀ faults e, (exec store (c.call env user) faults d [] .fresh).value = .error e →
    e.ofPayload = false

/-- A price of ten cents at least, once it is rounded, of eight digits at most
before the point. -/
def Decimal.IsPrice (x : Decimal) : Prop := 10 ≤ x.cents ∧ x.cents < numericBound

/-- No required field is set to null, and the values that are set are those of
the columns. -/
structure ProductUpdate.Fits (data : ProductUpdate) : Prop where
  name : data.name ≠ some none
  price : ∀ price, data.price = some price → ∃ x, price = some x ∧ x.val.IsPrice
  qtyAvailable : ∀ qty, data.qtyAvailable = some qty → ∃ n, qty = some n ∧ n.val ≤ int32Max

def Payload.Fits : Payload → Prop
  | .create _ data => data.price.val.IsPrice ∧ data.qtyAvailable.val ≤ int32Max
  | .update _ data => data.Fits

/-! ## Rows -/

section
variable {p : ProductObj} {x : Decimal} {n : Int}

theorem price_ok : (∃ c, Price.ofDecimal x = .ok c) ↔ x.IsPrice := by
  constructor
  · rintro ⟨c, hc⟩
    have hval := Price.ofDecimal_val hc
    unfold Decimal.IsPrice
    rw [← hval]
    exact c.property
  · rintro ⟨hlow, hhigh⟩
    refine ⟨⟨x.cents, hlow, hhigh⟩, ?_⟩
    have hbound : (0 : Int) < numericBound := by decide
    rw [Price.ofDecimal, if_neg (by omega), dif_pos ⟨hlow, hhigh⟩]

theorem stock_ok : (∃ q, Stock.ofInt n = .ok q) ↔ 0 ≤ n ∧ n ≤ int32Max := by
  constructor
  · rintro ⟨q, hq⟩
    exact Stock.ofInt_eq_ok.mp hq ▸ q.property
  · exact fun h => ⟨⟨n, h⟩, Stock.ofInt_eq_ok.mpr rfl⟩

/-- An instance can be stored if its required columns hold values of their types. -/
theorem row_ok : (∃ row, p.row = .ok row) ↔ (∃ name, p.name = some name) ∧
    (∃ x, p.price = some x ∧ x.IsPrice) ∧ ∃ n, p.qtyAvailable = some n ∧ 0 ≤ n ∧ n ≤ int32Max := by
  unfold ProductObj.row
  constructor
  · rintro ⟨row, hrow⟩
    split at hrow
    · next name price qty hname hprice hqty =>
        obtain ⟨c, hc, hrest⟩ := bind_eq_ok.mp hrow
        obtain ⟨q, hq, -⟩ := bind_eq_ok.mp hrest
        exact ⟨⟨name, hname⟩, ⟨price, hprice, price_ok.mp ⟨c, hc⟩⟩, qty, hqty, stock_ok.mp ⟨q, hq⟩⟩
    · contradiction
  · rintro ⟨⟨name, hname⟩, ⟨price, hprice, hfits⟩, qty, hqty, hrange⟩
    obtain ⟨c, hc⟩ := price_ok.mpr hfits
    obtain ⟨q, hq⟩ := stock_ok.mpr hrange
    simp only [hname, hprice, hqty, hc, hq]
    exact ⟨_, rfl⟩

/-- And it reads back if they hold any. -/
theorem snapshot_ok : (∃ snapshot, ProductRead.modelValidate p = .ok snapshot) ↔
    (∃ name, p.name = some name) ∧ (∃ x, p.price = some x) ∧ ∃ n, p.qtyAvailable = some n := by
  unfold ProductRead.modelValidate
  constructor
  · rintro ⟨snapshot, hsnapshot⟩
    split at hsnapshot
    · next name price qty hname hprice hqty => exact ⟨⟨name, hname⟩, ⟨price, hprice⟩, qty, hqty⟩
    · contradiction
  · rintro ⟨⟨name, hname⟩, ⟨price, hprice⟩, qty, hqty⟩
    rw [hname, hprice, hqty]
    exact ⟨_, rfl⟩

/-- What can be stored reads back. -/
theorem snapshot_of_row (h : ∃ row, p.row = .ok row) :
    ∃ snapshot, ProductRead.modelValidate p = .ok snapshot := by
  obtain ⟨hname, ⟨x, hx, -⟩, n, hn, -⟩ := row_ok.mp h
  exact snapshot_ok.mpr ⟨hname, ⟨x, hx⟩, n, hn⟩

end

section
variable {env : Env} {user : User} {d : Db}

/-- A stored price is one. -/
theorem Product.isPrice (p : Product) : (Decimal.ofCents p.price.val).IsPrice := by
  unfold Decimal.IsPrice
  rw [Decimal.cents_ofCents]
  exact p.price.property

/-- A field that held a value with `P` holds one still, unless it was set to null
or to a value without. -/
theorem assigned_iff {α β : Type} (f : α → β) (set : Option (Option α)) {b : β} {P : β → Prop}
    (hb : P b) : (∃ x, (set.map (Option.map f)).getD (some b) = some x ∧ P x) ↔
      ∀ v, set = some v → ∃ a, v = some a ∧ P (f a) := by
  cases set with
  | none => simpa using hb
  | some v => cases v <;> simp

/-- The row of an edited product. -/
theorem row_edit (p : Product) (data : ProductUpdate) :
    (∃ row, ((ProductObj.load p).edit data).row = .ok row) ↔ data.Fits := by
  have hname : (∃ name, data.name.getD (some p.name) = some name) ↔ data.name ≠ some none := by
    cases data.name with
    | none => simp
    | some name => cases name <;> simp
  have hprice := assigned_iff Subtype.val data.price p.isPrice
  have hqty := assigned_iff (P := fun n => 0 ≤ n ∧ n ≤ int32Max) Subtype.val data.qtyAvailable
    p.qtyAvailable.property
  rw [row_ok, ProductObj.name_edit, ProductObj.price_edit, ProductObj.qtyAvailable_edit]
  rw [show (ProductObj.load p).name = some p.name from rfl, hname,
    show (ProductObj.load p).price = some (.ofCents p.price.val) from rfl, hprice,
    show (ProductObj.load p).qtyAvailable = some p.qtyAvailable.val from rfl, hqty]
  constructor
  · rintro ⟨hname, hprice, hqty⟩
    refine ⟨hname, hprice, fun qty hset => ?_⟩
    obtain ⟨n, hn, -, hmax⟩ := hqty qty hset
    exact ⟨n, hn, hmax⟩
  · rintro ⟨hname, hprice, hqty⟩
    refine ⟨hname, hprice, fun qty hset => ?_⟩
    obtain ⟨n, hn, hmax⟩ := hqty qty hset
    exact ⟨n, hn, n.property, hmax⟩

theorem Payload.row_written (c : Payload) (env : Env) :
    (∃ row, (c.written env).row = .ok row) ↔ c.Fits := by
  cases c with
  | create ownerId data =>
      rw [row_ok]
      constructor
      · rintro ⟨-, ⟨x, hx, hprice⟩, n, hn, -, hmax⟩
        obtain rfl := Option.some.inj hx
        obtain rfl := Option.some.inj hn
        exact ⟨hprice, hmax⟩
      · rintro ⟨hprice, hmax⟩
        exact ⟨⟨_, rfl⟩, ⟨_, rfl, hprice⟩, _, rfl, data.qtyAvailable.property, hmax⟩
  | update product data => exact row_edit product data

/-! ## Calls -/

/-- The call fails in no error of its payload. -/
def Answers (o : Outcome Db Write Failure Product) : Prop :=
  ∀ e, o.value = .error e → e.ofPayload = false

theorem answers_error {e : Failure} (h : e.ofPayload = false) :
    Answers ⟨.error e, d, []⟩ := by
  intro e' he
  obtain rfl := Except.error.inj he
  exact h

theorem answers_refreshProduct {id : Uuid} {faults : List Bool} (hrow : (d.products.get id).isSome) :
    Answers (exec store (refreshProduct id) faults d [] .fresh) := by
  obtain ⟨row, hrow⟩ := Option.isSome_iff_exists.mp hrow
  unfold refreshProduct
  rw [exec_select, hrow]
  split
  · exact answers_error rfl
  · intro e he
    contradiction

/-- A write that goes through, and its entry in the log. -/
theorem answers_store {w : Write} {product : ProductObj} (old : Option ProductRead)
    {action : String} {id : Uuid} {faults : List Bool} {d' : Db}
    (hsnapshot : ∃ snapshot, ProductRead.modelValidate product = .ok snapshot)
    (happly : w.apply d = .ok d') (hrow : (d'.products.get id).isSome) :
    Answers (exec store (do
      Prog.save w
      logProductChange env user product old action none
      Prog.commitWork
      refreshProduct id) faults d [] .fresh) := by
  obtain ⟨snapshot, hsnapshot⟩ := hsnapshot
  obtain ⟨entry, hentry⟩ : ∃ entry, productEntry env user product old action none = .ok entry := by
    unfold productEntry
    rw [hsnapshot]
    exact ⟨_, rfl⟩
  have hwork : store.applyAll ([w] ++ entry.toList.map .addAuditLog) d =
      .ok { d' with auditLogs := d'.auditLogs ++ entry.toList } :=
    Store.applyAll_append.mpr ⟨d', Store.applyAll_singleton.trans happly, applyAll_logs.mpr rfl⟩
  unfold logProductChange
  rw [hentry]
  have hcommit : Answers (exec store (.commit fun a => (Prog.ofExcept a).bind fun _ => refreshProduct id)
      faults d ([w] ++ entry.toList.map .addAuditLog) .fresh) := by
    cases hfault : faults.headD false with
    | true =>
        rw [exec, if_pos hfault]
        exact answers_error rfl
    | false =>
        intro e he
        rw [(exec_commit_ok hfault hwork).1] at he
        have hafter : (({ d' with auditLogs := d'.auditLogs ++ entry.toList } : Db).products.get
          id).isSome := hrow
        exact answers_refreshProduct hafter e he
  cases entry <;> exact hcommit

theorem exec_raiseIf {c : Prop} [Decidable c] {e : Failure} {f : Unit → Tx Product}
    {faults : List Bool} : exec store (raiseIf c e >>= f) faults d [] .fresh =
      if c then ⟨.error e, d, []⟩ else exec store (f ()) faults d [] .fresh := by
  unfold raiseIf
  split <;> rfl

/-- A check on what is stored goes through, or ends the call. -/
theorem exec_select_raiseIf {c : Db → Prop} [∀ d, Decidable (c d)] {e : Failure}
    (he : e.ofPayload = false) {f : Unit → Tx Product} {faults : List Bool} :
    (∃ faults', exec store ((Prog.select >>= fun d => raiseIf (c d) e) >>= f) faults d [] .fresh =
      exec store (f ()) faults' d [] .fresh) ∨
    ∃ e', e'.ofPayload = false ∧
      exec store ((Prog.select >>= fun d => raiseIf (c d) e) >>= f) faults d [] .fresh =
        ⟨.error e', d, []⟩ := by
  change (∃ faults', (if faults.headD false then _ else exec store (raiseIf _ _ >>= f) _ _ _ _) =
    _) ∨ ∃ e, _ ∧ (if faults.headD false then _ else exec store (raiseIf _ _ >>= f) _ _ _ _) = _
  rw [exec_raiseIf]
  split
  · exact .inr ⟨.operationalError, rfl, rfl⟩
  · split
    · exact .inr ⟨e, he, rfl⟩
    · exact .inl ⟨faults.tail, rfl⟩

theorem exec_checkSellerLimit {f : Unit → Tx Product} {faults : List Bool} :
    (∃ faults', exec store (checkSellerLimit env user >>= f) faults d [] .fresh =
      exec store (f ()) faults' d [] .fresh) ∨
    ∃ e, e.ofPayload = false ∧
      exec store (checkSellerLimit env user >>= f) faults d [] .fresh = ⟨.error e, d, []⟩ := by
  unfold checkSellerLimit
  split
  · exact .inl ⟨faults, rfl⟩
  · exact exec_select_raiseIf rfl

/-- A product is listed, or the seller has too many. -/
theorem answers_createProduct {ownerId : Uuid} {data : ProductCreate} {faults : List Bool}
    (hnew : d.products.get (env.uuid 0) = none)
    (hrow : ∃ row, (ProductObj.create data ownerId (env.uuid 0) env.now).row = .ok row) :
    Answers (exec store (createProduct env ownerId data user) faults d [] .fresh) := by
  have hsnapshot := snapshot_of_row hrow
  obtain ⟨row, hrow⟩ := hrow
  have hid : row.id = env.uuid 0 := (ProductObj.storedAs_of_row hrow).id
  have hnew' : d.products.get row.id = none := hid ▸ hnew
  have happly := apply_addProduct.mpr ⟨row, hrow, hnew', rfl⟩
  have hadded : ((d.products.insert row hnew').get (env.uuid 0)).isSome := by
    rw [Table.get_insert hnew', key_product, if_pos hid]
    rfl
  unfold createProduct
  rcases exec_checkSellerLimit with ⟨faults', hgo⟩ | ⟨e, he, hstop⟩
  · rw [hgo]
    exact answers_store none hsnapshot happly hadded
  · rw [hstop]
    exact answers_error he

/-- The edited row is written, if it is not what it was. -/
theorem apply_updateProduct_ok {product : Product} {edited : ProductObj} (now : Timestamp)
    (hget : d.products.get product.id = some product) (hid : edited.id = product.id)
    (hrow : ∃ row, edited.row = .ok row) :
    ∃ d', (Write.updateProduct edited now).apply d = .ok d' ∧
      (d'.products.get product.id).isSome := by
  obtain ⟨row, hrow⟩ := hrow
  have hsome : (d.products.get product.id).isSome := by rw [hget]; rfl
  have hstored : storedRow d.products edited.id = .ok product :=
    storedRow_eq_ok.mpr (hid ▸ hget)
  by_cases hdirty : edited.dirty product
  · refine ⟨{ d with products := d.products.set { row with updatedAt := now } }, ?_, ?_⟩
    · simp only [Write.apply, bind_eq_ok]
      exact ⟨product, hstored, by rw [if_pos hdirty, hrow]; rfl⟩
    · rw [Table.isSome_get_set]
      exact hsome
  · refine ⟨d, ?_, hsome⟩
    simp only [Write.apply, bind_eq_ok]
    exact ⟨product, hstored, if_neg hdirty⟩

/-- Who may not edit a product is told so. -/
theorem ofPayload_checkCurrentUser {product : Product} {e : Failure}
    (h : checkCurrentUser (some user) product = .error e) : e.ofPayload = false := by
  simp only [checkCurrentUser, checkOwnership, Product.owned] at h
  split at h
  · contradiction
  · split at h
    · obtain rfl := Except.error.inj h
      rfl
    · contradiction

/-- A product is edited, or the user may not. -/
theorem answers_updateProduct {product : Product} {data : ProductUpdate} {faults : List Bool}
    (hget : d.products.get product.id = some product) (hfree : product.underModeration = false)
    (hrow : ∃ row, ((ProductObj.load product).edit data).row = .ok row) :
    Answers (exec store (updateProduct env product.id data user) faults d [] .fresh) := by
  have hsnapshot := snapshot_of_row hrow
  have hid : ((ProductObj.load product).edit data).id = product.id := ProductObj.id_edit _ _
  obtain ⟨old, hold⟩ := ProductRead.modelValidate_load product
  obtain ⟨d', happly, hstored⟩ := apply_updateProduct_ok env.now hget hid hrow
  have hfree' : ¬ (product.status = .pendingModeration ∨ product.status = .moderationInProgress) := by
    simpa [Product.underModeration] using hfree
  have hlocked : (fun d : Db => (d.products.get product.id).map fun _ => Row.product product.id) d =
      some (.product product.id) := by
    simp [hget]
  change Answers (if faults.headD false then _ else
    exec store (((orNotFound (d.products.get product.id)).bind _).bind _) _ _ _ _)
  rw [hget]
  split
  · exact answers_error rfl
  · change Answers (exec store (((Prog.ofExcept (checkCurrentUser (some user) product)).bind _).bind _)
      _ _ _ _)
    cases hcheck : checkCurrentUser (some user) product with
    | error e => exact answers_error (ofPayload_checkCurrentUser hcheck)
    | ok u =>
        change Answers (exec store (raiseIf _ _ >>= _) _ _ _ _)
        rw [exec_raiseIf, if_neg hfree', hold]
        exact answers_store (some old) hsnapshot happly hstored

end

/-- **A payload can be stored** if and only if its price and its quantity are
those of the table once the price is rounded, and no required field is null. -/
theorem stored_iff_fits {c : Payload} {env : Env} {user : User} {d : Db} (h : c.Applies env d) :
    c.Stored env user d ↔ c.Fits := by
  rw [← c.row_written env]
  refine ⟨Payload.Stored.row, fun hrow => ⟨hrow, snapshot_of_row hrow, fun faults => ?_⟩⟩
  cases c with
  | create ownerId data => exact answers_createProduct h hrow
  | update product data => exact answers_updateProduct h.1 h.2 hrow

/-! ## Two payloads -/

/-- Lamps at a price of so many cents. -/
def lampsAt (cents : Int) (h : 0 < cents) : Payload :=
  .create 7 ⟨"Lamp", none, ⟨⟨cents, -2⟩, h⟩, ⟨3, by decide⟩⟩

theorem stored_lamps :
    (lampsAt 999 (by decide)).Stored (shopEnv 0 1) ⟨7, .seller, true⟩ .empty := by
  have happlies : (lampsAt 999 (by decide)).Applies (shopEnv 0 1) .empty := rfl
  have hfits : (lampsAt 999 (by decide)).Fits := by
    unfold Payload.Fits lampsAt Decimal.IsPrice
    decide
  exact (stored_iff_fits happlies).mpr hfits

/-- A price of five cents passes the schema and not the table. -/
theorem not_stored : ¬ ∀ (c : Payload) (env : Env) (user : User) (d : Db), c.Applies env d →
    c.Stored env user d := by
  intro hall
  obtain ⟨row, hrow⟩ := (hall (lampsAt 5 (by decide)) (shopEnv 0 1) ⟨7, .seller, true⟩ .empty rfl).row
  obtain ⟨-, ⟨x, hx, hlow, -⟩, -⟩ := row_ok.mp ⟨row, hrow⟩
  obtain rfl := Option.some.inj hx
  exact absurd hlow (by decide)

end FairDrop
