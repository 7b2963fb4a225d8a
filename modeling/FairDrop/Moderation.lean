import FairDrop.ProductRows

/-!
# FairDrop.Moderation

What buyers may see is what a moderator passed.  `History` follows a run and
remembers, for each product, the content it had when it was last made `ACTIVE`
and whether its seller has changed the offer since.

The catalogue keeps to it (`published_is_approved`): editing an active product
takes it down in the same transaction.  Orders need a condition
(`ordered_as_approved`), because neither the reservation nor the order looks at
the status of the product.
-/

namespace FairDrop

open RowStore

/-! ## Product rows -/

/-- What an order copies from a product. -/
def Product.offer (p : Product) : String × Price := (p.name, p.price)

/-- What one operation can do to a product row. -/
inductive ProductStep (c : Call) (p p' : Product) : Prop
  | kept (content : p'.content = p.content) (status : p'.status = p.status)
  | moved (m : Moderation) (call : c.moderation = some m) (id : m.productId = p.id)
      (content : p'.content = p.content) (status : p'.status = m.move.status)
  | edited (data : ProductUpdate) (user : User) (call : c = .updateProduct p.id data user)
      (free : p.underModeration = false) (status : p'.status ≠ .active)

section
variable {env : Env} {alone : Bool} {c : Call} {d d' : Db}

theorem Product.Step.productStep {p p' : Product} (h : p.Step c p') : ProductStep c p p' := by
  cases h with
  | kept hcontent hstatus => exact .kept hcontent hstatus
  | moved m hc hid hallowed hcontent hstatus => exact .moved m hc hid hcontent hstatus
  | edited data user hc hfree hinactive hstatus =>
      exact .edited data user hc hfree (hstatus ▸ hinactive)
  | withdrawn data user hc hfree hstatus =>
      exact .edited data user hc hfree (by simp [hstatus])

/-- Every change moves each product by one of its steps. -/
theorem Change.product_step (hc : Change env alone d c d') {id : Uuid} {p : Product}
    (hp : d.products.get id = some p) :
    ∃ p', d'.products.get id = some p' ∧ ProductStep c p p' := by
  obtain ⟨p', hp', hstep⟩ := hc.row_step hp
  exact ⟨p', hp', hstep.productStep⟩

end

/-! ## History -/

/-- The product that a call makes `ACTIVE` if it succeeds. -/
def Call.activates : Call → Option Uuid
  | .approveProduct id _ => some id
  | .changeStatus id .active _ => some id
  | _ => none

theorem activates_of_move {c : Call} {m : Moderation} (hc : c.moderation = some m)
    (hm : m.move.status = .active) : c.activates = some m.productId := by
  cases c <;> simp only [Call.moderation, Option.some.injEq, reduceCtorEq] at hc
  case changeStatus id status user =>
    subst hc
    change status = .active at hm
    subst hm
    rfl
  case approveProduct id user => subst hc; rfl
  all_goals
    subst hc
    contradiction

/-- What a run has approved: of each product, the content it had when it was
last made `ACTIVE`, and whether a later edit changed its offer. -/
structure History where
  approved : Uuid → Option Content
  edited : Uuid → Bool

def History.empty : History := ⟨fun _ => none, fun _ => false⟩

/-- Follow a request that runs on `d`. -/
def History.record (h : History) (d : Db) (q : Request) : History :=
  if (q.perform d).commits.isEmpty then h
  else {
    approved := fun p =>
      if q.call.activates = some p then ((step d q).products.get p).map Product.content
      else h.approved p
    edited := fun p =>
      if q.call.activates = some p then false
      else h.edited p ||
        decide ((d.products.get p).map Product.offer ≠ ((step d q).products.get p).map Product.offer) }

/-- Follow a run from `d`. -/
def History.follow (h : History) (d : Db) : List Request → History
  | [] => h
  | q :: qs => (h.record d q).follow (step d q) qs

/-- The history of a run from the empty database. -/
def history (qs : List Request) : History := History.empty.follow .empty qs

/-- What the history says about the products on sale, and about the unedited ones. -/
structure Approved (h : History) (d : Db) : Prop where
  active : ∀ p ∈ d.products.rows, p.status = .active → h.approved p.id = some p.content
  offer : ∀ p ∈ d.products.rows, ∀ c, h.approved p.id = some c → h.edited p.id = false →
    p.name = c.name ∧ p.price = c.price
  unknown : ∀ id, d.products.get id = none → h.approved id = none

theorem approved_empty : Approved .empty .empty := by
  constructor <;> simp [Db.empty, History.empty]

/-- One request keeps what the history says. -/
theorem Approved.record {h : History} {d : Db} (ha : Approved h d) (hd : Coupled d) (q : Request) :
    Approved (h.record d q) (step d q) := by
  obtain ⟨hnil, hsame⟩ | ⟨hne, hchange⟩ := perform_cases q hd
  · have hrecord : h.record d q = h := by simp [History.record, hnil]
    rw [hrecord, hsame]
    exact ha
  · have hcommitted : (q.perform d).commits.isEmpty = false := by
      simpa [List.isEmpty_iff] using hne
    -- What a product of the new state was before the request.
    have hbefore : ∀ p ∈ (step d q).products.rows,
        (d.products.get p.id = none ∧ p.status = .draft) ∨
          ∃ p₀, d.products.get p.id = some p₀ ∧ p₀.id = p.id ∧ ProductStep q.call p₀ p := by
      intro p hp
      have hget' : (step d q).products.get p.id = some p := Table.get_of_mem hp
      cases hget : d.products.get p.id with
      | none => exact .inl ⟨rfl, (hchange.new_row hget hget').1⟩
      | some p₀ =>
          obtain ⟨p', hp', hstep⟩ := hchange.product_step hget
          have hpp : p' = p := Option.some.inj (hp'.symm.trans hget')
          exact .inr ⟨p₀, rfl, Table.key_of_get hget, hpp ▸ hstep⟩
    have happroved : ∀ id, (h.record d q).approved id =
        if q.call.activates = some id then ((step d q).products.get id).map Product.content
        else h.approved id := by
      intro id
      simp [History.record, hcommitted]
    constructor
    case active =>
      intro p hp hactive
      have hget' : (step d q).products.get p.id = some p := Table.get_of_mem hp
      rw [happroved]
      split
      · rw [hget']
        rfl
      · next hnot =>
          obtain ⟨_, hdraft⟩ | ⟨p₀, hp₀, hid, hstep⟩ := hbefore p hp
          · rw [hactive] at hdraft
            contradiction
          · cases hstep with
            | kept hcontent hstatus =>
                rw [hcontent, ← hid]
                exact ha.active p₀ (Table.mem_of_get hp₀) (hstatus ▸ hactive)
            | moved m hc hpid hcontent hstatus =>
                have hact := activates_of_move hc (hstatus ▸ hactive)
                rw [hpid, hid] at hact
                exact absurd hact hnot
            | edited data user hc hfree hstatus => exact absurd hactive hstatus
    case offer =>
      intro p hp c hc hedited
      have hget' : (step d q).products.get p.id = some p := Table.get_of_mem hp
      rw [happroved] at hc
      split at hc
      · rw [hget'] at hc
        obtain rfl := Option.some.inj hc
        exact ⟨rfl, rfl⟩
      · next hnot =>
          have hkept : h.edited p.id = false ∧
              (d.products.get p.id).map Product.offer =
                ((step d q).products.get p.id).map Product.offer := by
            simpa [History.record, hcommitted, hnot] using hedited
          cases hget : d.products.get p.id with
          | none =>
              rw [ha.unknown p.id hget] at hc
              contradiction
          | some p₀ =>
              have hid : p₀.id = p.id := Table.key_of_get hget
              obtain ⟨hname, hprice⟩ := ha.offer p₀ (Table.mem_of_get hget) c (hid ▸ hc)
                (hid ▸ hkept.1)
              have hoffer := hkept.2
              rw [hget, hget'] at hoffer
              have heq : p₀.offer = p.offer := Option.some.inj hoffer
              have hsplit : p₀.name = p.name ∧ p₀.price = p.price := Prod.mk.inj heq
              exact ⟨hsplit.1 ▸ hname, hsplit.2 ▸ hprice⟩
    case unknown =>
      intro id hnone
      have hwas : d.products.get id = none := by
        cases hget : d.products.get id with
        | none => rfl
        | some p₀ =>
            obtain ⟨p', hp', _⟩ := hchange.product_step hget
            rw [hnone] at hp'
            contradiction
      rw [happroved, hnone]
      split
      · rfl
      · exact ha.unknown id hwas

/-- What is approved stays recorded through a run. -/
theorem Approved.follow {h : History} {d : Db} (ha : Approved h d) (hd : Coupled d)
    (qs : List Request) : Approved (h.follow d qs) (run d qs) := by
  induction qs generalizing h d with
  | nil => exact ha
  | cons q qs ih => exact ih (ha.record hd q) (coupled_step q hd)

/-- Everything approved after a run from the empty database is in its history. -/
theorem approved_run (qs : List Request) : Approved (history qs) (run .empty qs) :=
  approved_empty.follow coupled_empty qs

/-! ## The catalogue -/

/-- The rows that a listing returns are products with the status it asks for. -/
theorem mem_getProducts {d : Db} {scan : Scan Product} {status : ProductStatus} {skip limit : Nat}
    {faults : List Bool} {ps : List Product}
    (h : (exec store (getProducts scan (some status) skip limit) faults d [] .fresh).value = .ok ps)
    {p : Product} (hp : p ∈ ps) : p ∈ d.products.rows ∧ p.status = status := by
  obtain rfl := exec_query (f := productPage scan (some status) skip limit) h
  have hscan := Query.page_sublist.subset hp
  have hmem := (scan.property _).mem_iff.mp hscan
  simpa [Selected] using List.mem_filter.mp hmem

/-- The rows of the catalogue are active products. -/
theorem mem_getExternalCatalog {d : Db} {scan : Scan Product} {faults : List Bool}
    {ps : List Product}
    (h : (exec store (getExternalCatalog scan) faults d [] .fresh).value = .ok ps)
    {p : Product} (hp : p ∈ ps) : p ∈ d.products.rows ∧ p.status = .active := by
  obtain rfl := exec_query (f := fun d : Db =>
    (scan.val (d.products.rows.filter fun p => p.status = .active)).mergeSort
      fun p q => p.name ≤ q.name) h
  have hscan := (List.mergeSort_perm _ _).mem_iff.mp hp
  have hmem := (scan.property _).mem_iff.mp hscan
  simpa using List.mem_filter.mp hmem

/-- **Published content is approved content**: in every reachable state the
products on sale have the content they were last activated with, no operation
changes the content of a product under moderation, and the listings of active
products show approved content only. -/
theorem published_is_approved (qs : List Request) :
    (∀ p ∈ (run .empty qs).products.rows, p.status = .active →
      (history qs).approved p.id = some p.content) ∧
    (∀ p ∈ (run .empty qs).products.rows, p.underModeration = true → ∀ q,
      ∃ p', (step (run .empty qs) q).products.get p.id = some p' ∧ p'.content = p.content) ∧
    (∀ scan skip limit faults ps,
      (exec store (getProducts scan (some .active) skip limit) faults (run .empty qs) []
        .fresh).value = .ok ps →
        ∀ p ∈ ps, (history qs).approved p.id = some p.content) ∧
    ∀ scan faults ps,
      (exec store (getExternalCatalog scan) faults (run .empty qs) [] .fresh).value = .ok ps →
        ∀ p ∈ ps, (history qs).approved p.id = some p.content := by
  have hactive := (approved_run qs).active
  refine ⟨hactive, ?_, ?_, ?_⟩
  · intro p hp hmoderated q
    have hget : (run .empty qs).products.get p.id = some p := Table.get_of_mem hp
    cases step_cases q (coupled_run qs) with
    | inl hsame =>
        rw [hsame]
        exact ⟨p, hget, rfl⟩
    | inr hchange =>
        obtain ⟨p', hp', hstep⟩ := hchange.product_step hget
        refine ⟨p', hp', ?_⟩
        cases hstep with
        | kept hcontent => exact hcontent
        | moved m hc hid hcontent => exact hcontent
        | edited data user hc hfree =>
            rw [hmoderated] at hfree
            contradiction
  · intro scan skip limit faults ps hps p hp
    obtain ⟨hmem, hstatus⟩ := mem_getProducts hps hp
    exact hactive p hmem hstatus
  · intro scan faults ps hps p hp
    obtain ⟨hmem, hstatus⟩ := mem_getExternalCatalog hps hp
    exact hactive p hmem hstatus

/-! ## Orders -/

/-- `P` holds of every request of a run, with the history and the database
before it. -/
def EachStep (P : History → Db → Request → Prop) (h : History) (d : Db) : List Request → Prop
  | [] => True
  | q :: qs => P h d q ∧ EachStep P (h.record d q) (step d q) qs

instance decidableEachStep (P : History → Db → Request → Prop) [∀ h d q, Decidable (P h d q)]
    (h : History) (d : Db) : (qs : List Request) → Decidable (EachStep P h d qs)
  | [] => isTrue trivial
  | q :: qs =>
      have := decidableEachStep P (h.record d q) (step d q) qs
      inferInstanceAs (Decidable (P h d q ∧ EachStep P (h.record d q) (step d q) qs))

/-- If the request orders a product, that product is on sale, or it was on sale
and its offer has not been edited since. -/
def OffersListed (h : History) (d : Db) (q : Request) : Prop :=
  match q.call with
  | .createOrder _ data =>
      match d.reservations.get data.reservationId with
      | some r =>
          match d.products.get r.productId with
          | some p =>
              p.status = .active ∨ ((h.approved p.id).isSome = true ∧ h.edited p.id = false)
          | none => True
      | none => True
  | _ => True

instance (h : History) (d : Db) (q : Request) : Decidable (OffersListed h d q) := by
  unfold OffersListed
  split
  · split
    · split <;> infer_instance
    · infer_instance
  · infer_instance

/-- A new order item shows the name and the price that were last approved, and
its order is charged by them. -/
def OrderedAsApproved (h : History) (d : Db) (q : Request) : Prop :=
  ∀ i ∈ (step d q).orderItems.rows, d.orderItems.get i.id = none →
    ∃ c, h.approved i.productId = some c ∧ i.productName = c.name ∧ i.price.val = c.price.val ∧
      ∃ o, (step d q).orders.get i.orderId = some o ∧ o.totalAmount.val = c.price.val * i.quantity

/-- A request for a listed product orders what was approved. -/
theorem orderedAsApproved_of_listed {h : History} {d : Db} (ha : Approved h d) (hd : Coupled d)
    {q : Request} (hlisted : OffersListed h d q) : OrderedAsApproved h d q := by
  intro i hi hnew
  have hold : (step d q).orderItems = d.orderItems → False := by
    intro hsame
    rw [hsame] at hi
    have hsome : d.orderItems.get i.id = some i := Table.get_of_mem hi
    rw [hnew] at hsome
    contradiction
  obtain hsame | hchange := step_cases q hd
  · exact (hold (by rw [hsame])).elim
  · generalize hcall : q.call = c at hchange
    generalize hdb : step d q = d' at hchange hi hold ⊢
    cases hchange with
    | createProduct | updateProduct | moderate | reserveItems | confirmOrderPayment | cancelOrder
    | releaseReservation => exact (hold rfl).elim
    | @createOrder user data r p o i' stored hget howner hstatus hdue hlink hread hp ho hi' hord =>
        have hprod : d.products.get r.productId = some p := hp rfl
        have hmem := Table.mem_of_get hprod
        obtain ⟨c, hc, hname, hprice⟩ : ∃ c, h.approved p.id = some c ∧ p.name = c.name ∧
            p.price = c.price := by
          have hcond : p.status = .active ∨
              ((h.approved p.id).isSome = true ∧ h.edited p.id = false) := by
            simpa [OffersListed, hcall, hget, hprod] using hlisted
          cases hcond with
          | inl hactive => exact ⟨_, ha.active p hmem hactive, rfl, rfl⟩
          | inr hunedited =>
              obtain ⟨c, hc⟩ := Option.isSome_iff_exists.mp hunedited.1
              exact ⟨c, hc, ha.offer p hmem c hc hunedited.2⟩
        have hitem : i = i' := by
          cases (Table.mem_insert hi').mp hi with
          | inl hmem =>
              have hsome : d.orderItems.get i.id = some i := Table.get_of_mem hmem
              rw [hnew] at hsome
              contradiction
          | inr heq => exact heq
        subst hitem
        refine ⟨c, ?_, ?_, ?_, o, ?_, ?_⟩
        · rw [hord.productId, ← hread]
          exact hc
        · rw [hord.productName, hname]
        · rw [hord.price, hprice]
        · rw [hord.orderId]
          exact Table.get_of_mem ((Table.mem_insert ho).mpr (.inr rfl))
        · rw [hord.totalAmount, hord.quantity, hprice]

/-- A run that only orders listed products orders what was approved. -/
theorem eachStep_of_listed {h : History} {d : Db} (ha : Approved h d) (hd : Coupled d)
    {qs : List Request} (hlisted : EachStep OffersListed h d qs) :
    EachStep OrderedAsApproved h d qs := by
  induction qs generalizing h d with
  | nil => trivial
  | cons q qs ih =>
      exact ⟨orderedAsApproved_of_listed ha hd hlisted.1,
        ih (ha.record hd q) (coupled_step q hd) hlisted.2⟩

/-- **Orders are placed on approved offers** in every run that only orders
products on sale, or products taken off sale and not edited since. -/
theorem ordered_as_approved (qs : List Request) (h : EachStep OffersListed .empty .empty qs) :
    EachStep OrderedAsApproved .empty .empty qs :=
  eachStep_of_listed approved_empty coupled_empty h

/-- A lamp is listed, passed by a moderator, reserved and ordered. -/
def saleRun : List Request :=
  [(Call.createProduct seller.id lamp seller).at 0 0,
    (Call.submitForModeration 0 seller).at 1 0,
    (Call.claimForModeration 0 moderator).at 2 0,
    (Call.approveProduct 0 moderator).at 3 0,
    (Call.reserveItems buyer.id "key" ⟨0, two⟩).at 4 0,
    (Call.createOrder buyer ⟨0, none⟩).at 5 0]

theorem ordered_as_approved_saleRun : EachStep OrderedAsApproved .empty .empty saleRun :=
  ordered_as_approved saleRun (by decide +kernel)

/-- The same without the moderator: the lamp is still a draft. -/
def draftRun : List Request :=
  [(Call.createProduct seller.id lamp seller).at 0 0,
    (Call.reserveItems buyer.id "key" ⟨0, two⟩).at 1 0,
    (Call.createOrder buyer ⟨0, none⟩).at 2 0]

theorem not_ordered_as_approved : ¬ ∀ qs, EachStep OrderedAsApproved .empty .empty qs := by
  intro hall
  obtain ⟨_, _, horder, _⟩ := hall draftRun
  -- the item is written, and nothing was ever approved
  have hitem : ∃ i ∈ (run .empty draftRun).orderItems.rows,
      (run .empty (draftRun.take 2)).orderItems.get i.id = none ∧
        (history (draftRun.take 2)).approved i.productId = none := by decide +kernel
  obtain ⟨i, hi, hnew, hnone⟩ := hitem
  obtain ⟨c, hc, _⟩ := horder i hi hnew
  have hcontra := hnone.symm.trans hc
  contradiction

end FairDrop
