import FairDrop.Obligations

/-!
# FairDrop.Inventory.Commits

The product and reservation services meet their obligations: each commits its
`Change` and nothing else.
-/

namespace FairDrop

open RowStore

section
variable {ru : Rules Session Db Row Write} {p : Known Session Db Row RowVal Write}

/-! ## Helpers -/

theorem wp_refreshProduct {id : Uuid}
    {Q : Except Failure Product → Known Session Db Row RowVal Write → Prop}
    (hok : ∀ x, Q (.ok x) p) (hstale : Q (.error .staleData) p)
    (herr : Q (.error .operationalError) p.abort) :
    wp store ru (refreshProduct id) p Q := by
  apply wp_bind
  exact wp_select (fun d _ _ => wp_orStale hstale hok) herr

theorem wp_refreshReservation {id : Uuid}
    {Q : Except Failure Reservation → Known Session Db Row RowVal Write → Prop}
    (hok : ∀ x, Q (.ok x) p) (hstale : Q (.error .staleData) p)
    (herr : Q (.error .operationalError) p.abort) :
    wp store ru (refreshReservation id) p Q := by
  apply wp_bind
  exact wp_select (fun d _ _ => wp_orStale hstale hok) herr

theorem wp_checkSellerLimit {env : Env} {user : User}
    {Q : Except Failure Unit → Known Session Db Row RowVal Write → Prop} (hok : Q (.ok ()) p)
    (herr : ∀ e, Q (.error e) p) (hout : Q (.error .operationalError) p.abort) :
    wp store ru (checkSellerLimit env user) p Q := by
  unfold checkSellerLimit
  split
  · exact hok
  · apply wp_bind
    refine wp_select (fun d _ _ => ?_) hout
    exact wp_raiseIf (fun _ => herr _) (fun _ => hok)

/-- Looking up a product for update finds an owned one, or fails. -/
theorem wp_getProductForUpdate {id : Uuid} {owner : Option User}
    {Q : Except Failure Product → Known Session Db Row RowVal Write → Prop}
    (hok : ∀ d x, p.Agrees store d → ru.inv d → d.products.get id = some x →
      checkCurrentUser owner x = .ok () → Q (.ok x) (p.hold (.product id) (.product (some x))))
    (hreq : ∀ d, ru.request p.rows d (.product id))
    (hfail : ∀ e p', p'.commits = p.commits → Q (.error e) p') :
    wp store ru (getProductForUpdate id owner) p Q := by
  apply wp_bind
  apply wp_selectProductForUpdate
  · intro d hd hi hnone
    exact hfail _ _ rfl
  · intro d x hd hi hx
    refine ⟨hreq d, fun _ => ?_⟩
    apply wp_bind
    apply wp_orNotFound
    · intro hnone
      contradiction
    · intro y hy
      obtain rfl := Option.some.inj hy
      apply wp_bind
      apply wp_ofExcept
      cases hcheck : checkCurrentUser owner x with
      | error e => exact hfail _ _ rfl
      | ok u => exact hok d x hd hi hx hcheck
  · exact hfail _ _ rfl

theorem wp_logProductChange {env : Env} {user : User} {product : ProductObj}
    {old : Option ProductRead} {action : String} {metadata : Option Snapshot}
    {Q : Except Failure Unit → Known Session Db Row RowVal Write → Prop}
    (hok : ∀ entry, productEntry env user product old action metadata = .ok entry →
      Q (.ok ()) { p with pending := p.pending ++ entry.toList.map .addAuditLog })
    (herr : ∀ e, Q (.error e) p) :
    wp store ru (logProductChange env user product old action metadata) p Q := by
  apply wp_bind
  apply wp_ofExcept
  cases h : productEntry env user product old action metadata with
  | error e => exact herr e
  | ok entry =>
      simp only [wp_addLog]
      exact hok entry h

end

/-! ## Products -/

variable {lt : Uuid → Uuid → Prop} {env : Env} {snap : Option Db}

/-- The unit of work of a new product: its row and its log entry. -/
theorem applyAll_addProduct {d d' : Db} {p : ProductObj} {entry : Option AuditLog}
    (h : store.applyAll ([.addProduct p] ++ entry.toList.map .addAuditLog) d = .ok d') :
    ∃ (row : Product) (_ : p.row = .ok row) (hnew : d.products.get row.id = none),
      d' = { d with
        products := d.products.insert row hnew
        auditLogs := d.auditLogs ++ entry.toList } := by
  simp only [Store.applyAll_append, Store.applyAll_cons, Store.applyAll_nil, applyAll_logs] at h
  obtain ⟨_, ⟨d₁, hadd, rfl⟩, rfl⟩ := h
  obtain ⟨row, hrow, hnew, rfl⟩ := apply_addProduct.mp hadd
  exact ⟨row, hrow, hnew, rfl⟩

/-- A new product touches no row that exists. -/
theorem frame_addProduct {d d' : Db} {p : ProductObj} {entry : Option AuditLog} {rows : List Row}
    (h : store.applyAll ([.addProduct p] ++ entry.toList.map .addAuditLog) d = .ok d') :
    Frame store rows d d' := by
  apply frame_writes _ h
  intro w hw r hr
  cases List.mem_append.mp hw with
  | inl hw =>
      rw [List.mem_singleton] at hw
      subst hw
      contradiction
  | inr hw =>
      obtain ⟨a, _, rfl⟩ := List.mem_map.mp hw
      contradiction

/-- The unit of work of an edit or a move: one product row and its log entry. -/
theorem applyAll_updateProduct {d d' : Db} {p : ProductObj} {entry : Option AuditLog}
    (h : store.applyAll ([.updateProduct p env.now] ++ entry.toList.map .addAuditLog) d = .ok d') :
    ∃ old new, d.products.get p.id = some old ∧ p.StoredAs new ∧
      d' = { d with products := d.products.set new, auditLogs := d.auditLogs ++ entry.toList } := by
  simp only [Store.applyAll_append, Store.applyAll_cons, Store.applyAll_nil, applyAll_logs] at h
  obtain ⟨_, ⟨d₁, hupdate, rfl⟩, rfl⟩ := h
  obtain ⟨old, new, hold, hs, rfl⟩ := apply_updateProduct hupdate
  exact ⟨old, new, hold, hs, rfl⟩

theorem target_updateProduct {p : ProductObj} {entry : Option AuditLog} {w : Write} {r : Row}
    (hw : w ∈ [.updateProduct p env.now] ++ entry.toList.map .addAuditLog)
    (hr : w.target = some r) : r = .product p.id := by
  cases List.mem_append.mp hw with
  | inl hw =>
      rw [List.mem_singleton] at hw
      subst hw
      exact (Option.some.inj hr).symm
  | inr hw =>
      obtain ⟨a, _, rfl⟩ := List.mem_map.mp hw
      contradiction

/-- Creating a product keeps the rules of its request. -/
theorem wp_createProduct (ownerId : Uuid) (data : ProductCreate) (user : User) :
    wp store (requestRules lt env (.createProduct ownerId data user))
      (createProduct env ownerId data user) (.start .fresh snap) Finished := by
  apply wp_bind
  refine wp_checkSellerLimit ?_ (fun e => .failed rfl) (.failed rfl)
  apply wp_bind
  rw [wp_save]
  apply wp_bind
  refine wp_logProductChange (fun entry hentry => ?_) (fun e => .failed rfl)
  apply wp_bind
  refine wp_commitWork (fun d d' hd hi happly => ?_) (fun e => .failed rfl)
  obtain ⟨row, hrow, hnew, hd'⟩ := applyAll_addProduct happly
  refine ⟨?_, frame_addProduct happly, ?_⟩
  · exact hd' ▸ .createProduct row entry (ProductObj.storedAs_of_row hrow) hnew hentry
  · exact wp_refreshProduct (fun x => .done (le_refl _)) (.stale (le_refl _))
      (.outage (le_refl _))

/-- The common end of an edit and of a move: write the instance, log it, commit. -/
theorem wp_storeProduct {c : Call} {user : User} {x : Product} {edited : ProductObj}
    {old : ProductRead} {action : String} {metadata : Option Snapshot} (hid : edited.id = x.id)
    (hchange : ∀ alone d x' entry, d.products.get x.id = some x → edited.StoredAs x' →
      productEntry env user edited (some old) action metadata = .ok entry →
        Change env alone d c { d with
          products := d.products.set x'
          auditLogs := d.auditLogs ++ entry.toList }) :
    wp store (requestRules lt env c)
      (do Prog.save (.updateProduct edited env.now)
          logProductChange env user edited (some old) action metadata
          Prog.commitWork
          refreshProduct x.id)
      ((Known.start .fresh snap).hold (.product x.id) (.product (some x))) Finished := by
  apply wp_bind
  rw [wp_save]
  apply wp_bind
  refine wp_logProductChange (fun entry hentry => ?_) (fun e => .failed rfl)
  apply wp_bind
  refine wp_commitWork (fun d d' hd hi happly => ?_) (fun e => .failed rfl)
  have hget : d.products.get x.id = some x := get_product_of_agrees hd List.mem_cons_self
  obtain ⟨x₀, x', _, hs, rfl⟩ := applyAll_updateProduct happly
  refine ⟨hchange _ d x' entry hget hs hentry, ?_, ?_⟩
  · apply frame_writes _ happly
    intro w hw r hr
    rw [target_updateProduct hw hr, hid]
    exact List.mem_cons_self
  · exact wp_refreshProduct (fun x => .done (le_refl _)) (.stale (le_refl _))
      (.outage (le_refl _))

/-- Editing a product keeps the rules of its request. -/
theorem wp_updateProduct (id : Uuid) (data : ProductUpdate) (user : User) :
    wp store (requestRules lt env (.updateProduct id data user)) (updateProduct env id data user)
      (.start .fresh snap) Finished := by
  apply wp_bind
  refine wp_getProductForUpdate (fun d₀ x hd₀ _ hx₀ howner => ?_) (fun d => requestRules_nil d _)
    (fun e p' hp => .failed hp)
  obtain rfl : x.id = id := Table.key_of_get hx₀
  apply wp_bind
  refine wp_raiseIf (fun _ => .failed rfl) (fun hfree => ?_)
  obtain ⟨old, hold⟩ := ProductRead.modelValidate_load x
  apply wp_bind
  apply wp_ofExcept
  rw [hold]
  apply wp_storeProduct (by rw [ProductObj.id_edit]; rfl)
  intro alone d x' entry hget hs hentry
  exact .updateProduct x x' old entry hget howner hfree hs hold hentry

/-- Moving a product keeps the rules of its request. -/
theorem wp_moveProduct {c : Call} {m : Moderation} (hc : c.moderation = some m) :
    wp store (requestRules lt env c)
      (moveProduct env m.move m.productId m.owner m.actor m.metadata) (.start .fresh snap)
      Finished := by
  apply wp_bind
  refine wp_getProductForUpdate (fun d₀ x hd₀ _ hx₀ howner => ?_) (fun d => requestRules_nil d _)
    (fun e p' hp => .failed hp)
  have hid : x.id = m.productId := Table.key_of_get hx₀
  rw [← hid]
  apply wp_bind
  refine wp_raiseIf (fun _ => .failed rfl) (fun hallowed => ?_)
  obtain ⟨old, hold⟩ := ProductRead.modelValidate_load x
  apply wp_bind
  apply wp_ofExcept
  rw [hold]
  have hmoved : (m.move.apply x).id = x.id := rfl
  apply wp_storeProduct hmoved
  intro alone d x' entry hget hs hentry
  exact .moderate x x' old entry hc (hid ▸ hget) howner (by simpa using hallowed) hs hold hentry

/-! ## Reservations -/

/-- Reserving keeps the rules of its request. -/
theorem wp_reserveItems (userId : Uuid) (key : String) (data : ReservationCreate) :
    wp store (requestRules lt env (.reserveItems userId key data))
      (reserveItems env userId key data) (.start .fresh snap) Finished := by
  apply wp_bind
  apply wp_selectProductForUpdate
  · intro d hd hi hnone
    exact .failed rfl
  · intro d₀ x hd₀ hi₀ hx₀
    refine ⟨requestRules_nil _ _, fun _ => ?_⟩
    have hid : x.id = data.productId := Table.key_of_get hx₀
    apply wp_bind
    refine wp_orNotFound (fun hnone => by contradiction) (fun y hy => ?_)
    obtain rfl := Option.some.inj hy
    apply wp_bind
    refine wp_raiseIf (fun _ => .failed rfl) (fun henough => ?_)
    apply wp_bind
    rw [wp_save]
    apply wp_bind
    rw [wp_save]
    apply wp_tryCatch
    apply wp_bind
    apply wp_commitWork
    · intro d d' hd hi happly
      have hget : d.products.get data.productId = some x :=
        get_product_of_agrees hd List.mem_cons_self
      have hwork := happly
      simp only [Known.push, Known.hold, Known.start, List.nil_append, List.cons_append,
        Store.applyAll_cons, Store.applyAll_nil] at hwork
      obtain ⟨d₁, hstock, d₂, hadd, rfl⟩ := hwork
      obtain ⟨x₀, q, hx, hq, rfl⟩ := apply_setStock.mp hstock
      obtain ⟨_, _, hkey, hnew, rfl⟩ := apply_addReservation.mp hadd
      have hsame : x₀ = x := by
        rw [hid, hget] at hx
        exact (Option.some.inj hx).symm
      subst hsame
      refine ⟨.reserveItems x₀ q hget hq hkey hnew, ?_, ?_⟩
      · apply frame_writes _ happly
        intro w hw r hr
        simp only [Known.push, Known.hold, Known.start, List.nil_append, List.cons_append,
          List.mem_cons, List.not_mem_nil, or_false] at hw
        rcases hw with rfl | rfl
        · obtain rfl := Option.some.inj hr
          rw [hid]
          exact List.mem_cons_self
        · contradiction
      · exact wp_refreshReservation (fun x => .done (le_refl _)) (.stale (le_refl _))
          (.outage (le_refl _))
    · intro e
      cases e <;> exact .failed rfl
  · exact .failed rfl

end FairDrop
