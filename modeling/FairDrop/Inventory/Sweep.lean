import FairDrop.Obligations

/-!
# FairDrop.Inventory.Sweep

The expiry sweep meets its obligations: an iteration commits the release of its
reservation and nothing else, provided that the product instance it works on is
as fresh as the row (`Ready`).
-/

namespace FairDrop

open RowStore

/-! ## Rules -/

/-- The rules of a sweep over reservations of `due`.  What it may assume of its
session when a row is granted is a parameter, and so is whether its releases
have to be `exact`. -/
def sweepRules (lt : Uuid → Uuid → Prop) (exact : Prop) (grant : Session → Db → Row → Prop)
    (env : Env) (due : Uuid → Prop) : Rules Session Db Row Write where
  inv := Coupled
  grant := grant
  request held d r := (Upward lt held r ∨ OwnOrder held d r) ∧ HoldsSettled (fun _ => False) held d
  commit _ _ d d' := ∃ id, due id ∧ Release exact env d id d'

/-- Whenever a product row is granted to this session, the session sees the
stock that is committed. -/
def Ready (grant : Session → Db → Row → Prop) (s : Session) : Prop :=
  ∀ d x, d.products.get x.id = some x → grant s d (.product x.id) →
    s.qtyAvailable x = x.qtyAvailable.val

/-- A session without an instance loads the row. -/
theorem ready_fresh (grant : Session → Db → Row → Prop) : Ready grant .fresh :=
  fun _ _ _ _ => rfl

/-! ## The unit of work -/

/-- What the release of `r` writes to its order. -/
def cancelWrites (env : Env) (r : Reservation) : List Write :=
  match r.orderId with
  | some orderId => [.setOrderStatus orderId .cancelled env.now]
  | none => []

theorem applyAll_release {exact : Prop} {env : Env} {d d' : Db} {r : Reservation} {x : Product}
    {qty : Int} (hr : d.reservations.get r.id = some r) (hstatus : r.status = .pending)
    (hx : d.products.get r.productId = some x)
    (hqty : exact → qty = x.qtyAvailable.val + r.qtyReserved)
    (h : store.applyAll ([.setStock x.id qty env.now, .setReservationStatus r.id .expired] ++
      cancelWrites env r) d = .ok d') :
    Release exact env d r.id d' := by
  have hxid : x.id = r.productId := Table.key_of_get hx
  simp only [Store.applyAll_append, Store.applyAll_cons, Store.applyAll_nil] at h
  obtain ⟨_, ⟨d₁, hstock, d₂, hset, rfl⟩, hcancel⟩ := h
  obtain ⟨x', q, hx', rfl, rfl⟩ := apply_setStock.mp hstock
  obtain ⟨r', hr', rfl⟩ := apply_setReservationStatus.mp hset
  have hsamer : r' = r := Option.some.inj (hr'.symm.trans hr)
  have hsamex : x' = x := Option.some.inj (hx'.symm.trans (hxid ▸ hx))
  subst hsamer hsamex
  unfold cancelWrites at hcancel
  split at hcancel
  · next orderId hlink =>
      simp only [Store.applyAll_cons, Store.applyAll_nil] at hcancel
      obtain ⟨d₃, hcancel, rfl⟩ := hcancel
      obtain ⟨o, ho, rfl⟩ := apply_setOrderStatus.mp hcancel
      refine .mk r' x' q _ hr hstatus hx hqty ?_
      unfold CancelsLinked
      rw [hlink]
      exact ⟨o, ho, rfl⟩
  · next hlink =>
      rw [Store.applyAll_nil] at hcancel
      subst hcancel
      refine .mk r' x' q _ hr hstatus hx hqty ?_
      unfold CancelsLinked
      rw [hlink]

theorem target_release {env : Env} {r : Reservation} {x : Product} {qty : Int} {rows : List Row}
    (hr : .reservation r.id ∈ rows) (hx : .product x.id ∈ rows)
    (ho : ∀ orderId, r.orderId = some orderId → .order orderId ∈ rows) {w : Write}
    (hw : w ∈ [.setStock x.id qty env.now, .setReservationStatus r.id .expired] ++
      cancelWrites env r) {row : Row} (hrow : w.target = some row) : row ∈ rows := by
  cases List.mem_append.mp hw with
  | inl hw =>
      simp only [List.mem_cons, List.not_mem_nil, or_false] at hw
      rcases hw with rfl | rfl
      · exact (Option.some.inj hrow) ▸ hx
      · exact (Option.some.inj hrow) ▸ hr
  | inr hw =>
      unfold cancelWrites at hw
      split at hw
      · next orderId hlink =>
          rw [List.mem_singleton] at hw
          subst hw
          exact (Option.some.inj hrow) ▸ ho orderId hlink
      · contradiction

/-! ## One iteration -/

section
variable {lt : Uuid → Uuid → Prop} {exact : Prop} {grant : Session → Db → Row → Prop} {env : Env}
  {due : Uuid → Prop} {expireOnCommit : Bool} {p : Known Session Db Row RowVal Write}

theorem wp_commitInSession {Q : Except Failure Unit → Known Session Db Row RowVal Write → Prop}
    (hok : ∀ d d', p.Agrees store d → store.applyAll p.pending d = .ok d' →
      (∃ id, due id ∧ Release exact env d id d') ∧ Frame store p.rows d d')
    (hdone : ∀ p' : Known Session Db Row RowVal Write, p'.pending = [] → p'.rows = [] →
      (expireOnCommit = true → p'.session = .fresh) → p'.commits = p.commits + 1 → Q (.ok ()) p')
    (herr : ∀ e, Q (.error e) p.abort) :
    wp store (sweepRules lt exact grant env due) (commitInSession expireOnCommit) p Q := by
  apply wp_bind
  refine wp_commitWork (fun d d' hd _ happly => ?_) herr
  obtain ⟨hchange, hframe⟩ := hok d d' hd happly
  refine ⟨hchange, hframe, ?_⟩
  cases expireOnCommit with
  | true => exact hdone _ rfl rfl (fun _ => rfl) rfl
  | false => exact hdone _ rfl rfl (fun h => by contradiction) rfl

theorem wp_cancelLinkedOrder {r : Reservation}
    {Q : Except Failure Unit → Known Session Db Row RowVal Write → Prop}
    (hheld : (.reservation r.id, .reservation (some r)) ∈ p.held) (hstatus : r.status = .pending)
    (hnoorder : ∀ id, .order id ∉ p.rows)
    (hok : ∀ p' : Known Session Db Row RowVal Write, p'.pending = p.pending ++ cancelWrites env r →
      (∀ h ∈ p.held, h ∈ p'.held) →
      (∀ orderId, r.orderId = some orderId → .order orderId ∈ p'.rows) →
      p'.commits = p.commits → Q (.ok ()) p')
    (herr : ∀ e p', p'.commits = p.commits → Q (.error e) p') :
    wp store (sweepRules lt exact grant env due) (cancelLinkedOrder env r) p Q := by
  unfold cancelLinkedOrder
  cases hlink : r.orderId with
  | none =>
      rw [wp_pure]
      refine hok p ?_ (fun h hmem => hmem) ?_ rfl
      · simp [cancelWrites, hlink]
      · intro orderId hid
        rw [hlink] at hid
        contradiction
  | some orderId =>
      apply wp_bind
      apply wp_selectOrderForUpdate
      · intro d hd hi hnone
        exact herr _ _ rfl
      · intro d o hd hi ho
        have hoid : o.id = orderId := Table.key_of_get ho
        have hres : d.reservations.get r.id = some r := get_reservation_of_agrees hd hheld
        have hown : OwnOrder p.rows d (.order orderId) :=
          ⟨r, orderId, rfl, Known.mem_rows hheld, hres, hstatus, hlink⟩
        refine ⟨⟨.inr hown, holdsSettled_of_no_order hnoorder⟩, fun _ => ?_⟩
        apply wp_bind
        refine wp_orNotFound (fun hnone => by contradiction) (fun y hy => ?_)
        obtain rfl := Option.some.inj hy
        refine hok _ ?_ (fun h hmem => List.mem_cons_of_mem _ hmem) ?_ rfl
        · simp [Known.push, Known.hold, cancelWrites, hlink, hoid]
        · intro orderId' hid
          rw [hlink] at hid
          rw [Option.some.inj hid.symm]
          exact List.mem_cons_self
      · exact herr _ _ rfl

/-- The end of an iteration that has written the release of `r`. -/
theorem wp_commitRelease {r : Reservation} {x : Product} {qty : Int}
    {Q : Except Failure Unit → Known Session Db Row RowVal Write → Prop} (hdue : due r.id)
    (hstatus : r.status = .pending) (hqty : exact → qty = x.qtyAvailable.val + r.qtyReserved)
    (hpending : p.pending = [.setStock x.id qty env.now, .setReservationStatus r.id .expired] ++
      cancelWrites env r)
    (hheldx : (.product x.id, .product (some x)) ∈ p.held) (hx : x.id = r.productId)
    (hheldr : (.reservation r.id, .reservation (some r)) ∈ p.held)
    (hheldo : ∀ orderId, r.orderId = some orderId → .order orderId ∈ p.rows)
    (hdone : ∀ p' : Known Session Db Row RowVal Write, p'.pending = [] → p'.rows = [] →
      (expireOnCommit = true → p'.session = .fresh) → p'.commits = p.commits + 1 → Q (.ok ()) p')
    (herr : ∀ e p', p'.commits = p.commits → Q (.error e) p') :
    wp store (sweepRules lt exact grant env due) (commitInSession expireOnCommit) p Q := by
  refine wp_commitInSession (fun d d' hd happly => ?_) hdone (fun e => herr e _ rfl)
  have hres : d.reservations.get r.id = some r := get_reservation_of_agrees hd hheldr
  have hprod : d.products.get x.id = some x := get_product_of_agrees hd hheldx
  rw [hpending] at happly
  refine ⟨⟨r.id, hdue, applyAll_release hres hstatus (hx ▸ hprod) hqty happly⟩, ?_⟩
  refine frame_writes (fun w hw row hrow => ?_) happly
  exact target_release (Known.mem_rows hheldr) (Known.mem_rows hheldx) hheldo hw hrow

/-- **One iteration** skips its reservation and keeps the lock, commits its
release, or is rolled back. -/
theorem wp_releaseIteration {id : Uuid}
    {Q : Except Failure Unit → Known Session Db Row RowVal Write → Prop} (hdue : due id)
    (hready : exact → Ready grant p.session) (hpending : p.pending = [])
    (hheld : ∀ h ∈ p.rows, ∃ a, h = .reservation a ∧ lt a id)
    (hQ : ∀ p' : Known Session Db Row RowVal Write, p'.pending = [] →
      (∀ h ∈ p'.rows, h = .reservation id ∨ h ∈ p.rows) →
      (expireOnCommit = true → p'.session = p.session ∨ p'.session = .fresh) →
      p'.commits ≤ p.commits + 1 → Q (.ok ()) p') :
    wp store (sweepRules lt exact grant env due) (releaseIteration env expireOnCommit id) p Q := by
  have hfail : ∀ (e : Failure) (p' : Known Session Db Row RowVal Write), p'.commits = p.commits →
      wp store (sweepRules lt exact grant env due)
        (do Prog.rollbackWork
            Prog.putSession .fresh) p' Q := by
    intro e p' hcommits
    refine hQ _ rfl ?_ (fun _ => .inr rfl) ?_
    · intro h hmem
      contradiction
    · change p'.commits ≤ _
      omega
  have hnoorder : ∀ id, .order id ∉ p.rows := by
    intro id hmem
    obtain ⟨a, ha, _⟩ := hheld _ hmem
    contradiction
  apply wp_tryCatch
  apply wp_bind
  apply wp_selectReservationForUpdate
  · intro d hd hi hnone
    exact hQ p hpending (fun h hmem => .inr hmem) (fun _ => .inl rfl) (by omega)
  · intro d₀ r hd₀ hi₀ hr₀ _
    obtain rfl : r.id = id := Table.key_of_get hr₀
    refine ⟨⟨.inl ?_, holdsSettled_of_no_order hnoorder⟩, fun _ => ?_⟩
    · intro h hmem
      obtain ⟨a, rfl, hlt⟩ := hheld h hmem
      exact .reservations hlt
    · change wp store _ (if r.status ≠ .pending then pure () else _) _ _
      split
      · -- skipped: the lock stays
        refine hQ _ hpending ?_ (fun _ => .inl rfl) (Nat.le_succ _)
        intro h hmem
        cases List.mem_cons.mp hmem with
        | inl heq => exact .inl heq
        | inr hmem => exact .inr hmem
      · next hstatus =>
        have hstatus : r.status = .pending := by simpa using hstatus
        apply wp_bind
        apply wp_selectProductForUpdate
        · intro d hd hi hnone
          have hres : d.reservations.get r.id = some r :=
            get_reservation_of_agrees hd List.mem_cons_self
          have hsome := Coupled.product hi r (Table.mem_of_get hres)
          rw [hnone] at hsome
          contradiction
        · intro d₁ x hd₁ hi₁ hx₁
          have hxid : x.id = r.productId := Table.key_of_get hx₁
          rw [← hxid] at hx₁ ⊢
          refine ⟨⟨.inl ?_, holdsSettled_of_no_order (by simpa using hnoorder)⟩, fun hgrant => ?_⟩
          · intro h hmem
            cases List.mem_cons.mp hmem with
            | inl heq =>
                rw [heq]
                exact .reservationProduct _ _
            | inr hmem =>
                obtain ⟨a, rfl, _⟩ := hheld h hmem
                exact .reservationProduct _ _
          · have hqty : exact → p.session.qtyAvailable x + r.qtyReserved =
                x.qtyAvailable.val + r.qtyReserved := by
              intro he
              rw [hready he d₁ x hx₁ hgrant]
            apply wp_bind
            apply wp_bind
            rw [wp_getSession]
            apply wp_bind
            rw [wp_save]
            apply wp_bind
            apply wp_bind
            refine wp_cancelLinkedOrder (List.mem_cons_of_mem _ List.mem_cons_self) hstatus
              (show ∀ id, .order id ∉ .product x.id :: .reservation r.id :: p.rows by
                simpa using hnoorder)
              (fun p' hwrites hkeep hheldo hcommits => ?_) (fun e p' hc => hfail e p' hc)
            refine wp_commitRelease hdue hstatus hqty ?_ (hkeep _ List.mem_cons_self) hxid
              (hkeep _ (List.mem_cons_of_mem _ List.mem_cons_self)) hheldo ?_ ?_
            · rw [hwrites]
              simp [Known.push, Known.hold, hpending]
            · intro p'' hnil hrows hsession hcount
              refine hQ p'' hnil ?_ (fun h => .inr (hsession h)) ?_
              · intro h hmem
                rw [hrows] at hmem
                contradiction
              · rw [hcount, hcommits]
                exact le_refl _
            · intro e p'' hc
              exact hfail e p'' (hc.trans hcommits)
        · exact hfail .operationalError _ rfl
  · exact hfail .operationalError _ rfl

/-! ## The loop -/

/-- **The sweep** over ids that ascend in the lock order.  Its releases are
exact if commits expire its instance, or by assumption. -/
theorem wp_releaseAll {ids : List Uuid} (hdue : ∀ id ∈ ids, due id) (hsorted : ids.Pairwise lt)
    (hready : exact → Ready grant p.session)
    (hfresh : expireOnCommit = true ∨ (exact → ∀ s, Ready grant s)) (hpending : p.pending = [])
    (hheld : ∀ h ∈ p.rows, ∃ a, h = .reservation a ∧ ∀ id ∈ ids, lt a id) :
    wp store (sweepRules lt exact grant env due) (releaseAll env expireOnCommit ids) p
      fun _ _ => True := by
  induction ids generalizing p with
  | nil => trivial
  | cons id ids ih =>
      obtain ⟨hhead, htail⟩ := List.pairwise_cons.mp hsorted
      apply wp_bind
      refine wp_releaseIteration (hdue id List.mem_cons_self) hready hpending ?_ ?_
      · intro h hmem
        obtain ⟨a, ha, hlt⟩ := hheld h hmem
        exact ⟨a, ha, hlt id List.mem_cons_self⟩
      · intro p' hpending' hrows hsession hcommits
        apply ih (fun id' hid' => hdue id' (List.mem_cons_of_mem _ hid')) htail _ hpending'
        · intro h hmem
          cases hrows h hmem with
          | inl heq => exact ⟨id, heq, hhead⟩
          | inr hmem =>
              obtain ⟨a, ha, hlt⟩ := hheld h hmem
              exact ⟨a, ha, fun id' hid' => hlt id' (List.mem_cons_of_mem _ hid')⟩
        · intro he
          cases hfresh with
          | inl hexpire =>
              cases hsession hexpire with
              | inl hs => rw [hs]; exact hready he
              | inr hs => rw [hs]; exact ready_fresh grant
          | inr hall => exact hall he _

theorem wp_releaseExpiredReservations {scan : Scan Uuid} {s : Session} {snap : Option Db}
    (hdue : ∀ id, due id) (hready : exact → Ready grant s)
    (hsorted : ∀ d, (scan.val (expiredIds d env.now)).Pairwise lt)
    (hfresh : expireOnCommit = true ∨ (exact → ∀ s, Ready grant s)) :
    wp store (sweepRules lt exact grant env due)
      (releaseExpiredReservations env expireOnCommit scan) (.start s snap) fun _ _ => True := by
  apply wp_bind
  refine wp_select (fun d hd _ => ?_) trivial
  refine wp_releaseAll (fun id _ => hdue id) (hsorted d) hready hfresh rfl ?_
  intro h hmem
  contradiction

end

end FairDrop
