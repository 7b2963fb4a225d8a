import FairDrop.Actors
import FairDrop.Shop.Service

/-!
# FairDrop.Shop.Actors

Requests that the inventory, order and media services handle side by side on
one database: the actors of `FairDrop.Actors`, and next to them deletions of
products, views of orders and upload URLs.

`ShopWorld.tracks` says what each of them can have committed, in every run.
-/

namespace FairDrop

open RowStore

/-! ## Actors -/

inductive ShopActor where
  | shop (a : Actor)
  | deleteProduct (productId : Uuid) (currentUser : User) (env : Env)
  | orderDetails (orderId : Uuid) (currentUser : User) (env : Env)
  | createUploadUrl (settings : MediaSettings) (productId : Uuid) (req : ImageUploadRequest)
      (currentUser : User) (env : Env)

inductive ShopResponse where
  | shop (r : Response)
  | details (o : Order)
  | upload (post : PresignedPost)
  | none

/-- The log entry of a view. -/
def detailsEntry (orderId : Uuid) (currentUser : User) (env : Env) : AuditLog :=
  logPiiAccess env currentUser.id orderId "order" (some "admin_pii_view")

namespace ShopActor

def program : ShopActor → ShopTx ShopResponse
  | .shop a => .shop <$> a.program.onShop
  | .deleteProduct id user env =>
      Prog.inSession ((fun _ => .none) <$> FairDrop.deleteProduct env id user)
  | .orderDetails id user env =>
      Prog.inSession (.details <$> (getOrderForDetails env id user).onShop)
  | .createUploadUrl settings id req user env =>
      Prog.inSession (.upload <$> FairDrop.createUploadUrl settings env id req user)

/-- What an actor may commit. -/
inductive Commits : ShopActor → ShopDb → ShopDb → Prop
  | shop {a d} {x : Db} (h : a.Commits False d.db x) : Commits (.shop a) d { d with db := x }
  | deleteProduct {id user env d} (p : Product) (images : Table ProductImage)
      (hget : d.db.products.get id = some p) (howner : checkOwnership user p.owned = .ok ())
      (hreservations : ∀ r ∈ d.db.reservations.rows, r.productId ≠ id)
      (hitems : ∀ i ∈ d.db.orderItems.rows, i.productId ≠ id)
      (himages : ∀ i ∈ images.rows, i ∈ d.images.rows) :
      Commits (.deleteProduct id user env) d
        ⟨{ d.db with products := d.db.products.erase id }, images⟩
  | orderDetails {id user env d} (hstaff : user.isStaff) :
      Commits (.orderDetails id user env) d { d with db := { d.db with
        auditLogs := d.db.auditLogs ++ [detailsEntry id user env] } }
  | createUploadUrl {settings id req user env d} (hproduct : (d.db.products.get id).isSome)
      (hnew : d.images.get (newImage id (env.uuid 0) req).id = none) :
      Commits (.createUploadUrl settings id req user env) d
        { d with images := d.images.insert (newImage id (env.uuid 0) req) hnew }

/-- The rules of an actor among others, apart from the order of its locks. -/
def rules (a : ShopActor) : Rules Session ShopDb Row ShopWrite where
  inv d := Coupled d.db
  grant _ _ _ := True
  request _ _ _ := True
  commit alone _ d d' := alone = false → a.Commits d d'

/-- How an actor ends.  A view of somebody else's order is logged by then. -/
def Ends (a : ShopActor) (r : Except Failure ShopResponse)
    (p : Known Session ShopDb Row RowVal ShopWrite) : Prop :=
  match a with
  | .orderDetails id user _ =>
      ∀ a, r = .ok a → ∃ o, a = .details o ∧ o.id = id ∧ (user.inspects o → p.commits = 1)
  | .shop (.request _ _) | .deleteProduct _ _ _ | .createUploadUrl _ _ _ _ _ => p.commits ≤ 1
  | .shop (.sweep _ _ _) => True

end ShopActor

/-! ## Obligations -/

section
variable {α : Type} {snap : Option ShopDb} {env : Env} {a : ShopActor}

/-- Rules of a service on the tables it knows: `commit` is what it may commit. -/
def partRules (commit : Db → Db → Prop) : Rules Session Db Row Write where
  inv := Coupled
  grant _ _ _ := True
  request _ _ _ := True
  commit _ _ d d' := commit d d'

/-- A service keeps the rules of an actor that may commit what it commits. -/
theorem wp_onShop {x : Tx α} {commit : Db → Db → Prop} {p : Known Session Db Row RowVal Write}
    {p' : Known Session ShopDb Row RowVal ShopWrite}
    {Q : Except Failure α → Known Session Db Row RowVal Write → Prop}
    (hcommit : ∀ (d : ShopDb) x, commit d.db x → a.Commits d { d with db := x })
    (hp : shopPart.Same p p') (hx : wp store (partRules commit) x p Q) :
    wp shopStore a.rules x.onShop p' fun r p' => ∃ p, shopPart.Same p p' ∧ Q r p := by
  have hweak : (shopPart.rules (partRules commit)).Weakens a.rules := by
    refine ⟨fun _ h => h, fun _ _ _ h => h, fun _ _ _ h => h, ?_⟩
    rintro alone ws d d' ⟨ws₀, x, rfl, rfl, h⟩ _
    exact hcommit d x h
  exact wp_weaken hweak (shopPart.wp_run hx hp)

/-- The log of a deletion is empty. -/
theorem productEntry_delete {user : User} {p : Product} {old : ProductRead}
    {entry : Option AuditLog} (hold : ProductRead.modelValidate (.load p) = .ok old)
    (h : productEntry env user (.load p) (some old) "delete" none = .ok entry) : entry = none := by
  rw [productEntry, hold] at h
  obtain rfl := Except.ok.inj h
  exact logObjectChange_self _ _ _ _ _ _ (by simp [ProductRead.dump]) _

/-- The unit of work of a deletion. -/
theorem applyAll_deleteProduct {d d' : ShopDb} {ids : List Uuid} {id : Uuid}
    (h : shopStore.applyAll (ids.map .deleteImage ++ [.deleteProduct id]) d = .ok d') :
    (∀ r ∈ d.db.reservations.rows, r.productId ≠ id) ∧
      (∀ i ∈ d.db.orderItems.rows, i.productId ≠ id) ∧ (∀ i ∈ d'.images.rows, i ∈ d.images.rows) ∧
        d'.db = { d.db with products := d.db.products.erase id } := by
  rw [Store.applyAll_append] at h
  obtain ⟨d₁, himages, hproduct⟩ := h
  obtain ⟨hdb, hsub⟩ := applyAll_deleteImages himages
  obtain ⟨d₂, hdelete, hnil⟩ := Store.applyAll_cons.mp hproduct
  obtain rfl := Store.applyAll_nil.mp hnil
  obtain ⟨⟨hres, hitems, _⟩, rfl⟩ := apply_deleteProduct.mp hdelete
  rw [hdb] at hres hitems
  exact ⟨hres, hitems, hsub, by rw [hdb]⟩

/-- A deletion touches the row that it has locked. -/
theorem frame_deleteProduct {d d' : ShopDb} {id : Uuid} {rows : List Row}
    (hid : .product id ∈ rows) (h : d'.db = { d.db with products := d.db.products.erase id }) :
    Frame shopStore rows d d' := by
  intro r hr
  change d'.db.view r ≠ d.db.view r at hr
  rw [h] at hr
  cases r with
  | product k =>
      by_cases hk : id = k
      · exact .inl (hk ▸ hid)
      · exact absurd (congrArg RowVal.product (Table.get_erase_ne hk)) hr
  | reservation k | order k => exact absurd rfl hr

/-- The end of a deletion. -/
theorem wp_commitDelete {x : Product} {user : User} {ids : List Uuid}
    {p : Known Session ShopDb Row RowVal ShopWrite} (howner : checkOwnership user x.owned = .ok ())
    (hheld : (.product x.id, .product (some x)) ∈ p.held)
    (hpending : p.pending = ids.map .deleteImage ++ [.deleteProduct x.id]) (hcommits : p.commits = 0) :
    wp shopStore (ShopActor.deleteProduct x.id user env).rules (Prog.commitWork (E := Failure)) p
      fun _ p => p.commits ≤ 1 := by
  refine wp_commitWork (fun d d' hd _ happly => ?_) fun _ => by simp [Known.abort, hcommits]
  have hx : d.db.products.get x.id = some x := RowVal.product.inj (hd.1 _ hheld)
  rw [hpending] at happly
  obtain ⟨hres, hitems, himages, hdb⟩ := applyAll_deleteProduct happly
  refine ⟨?_, frame_deleteProduct (Known.mem_rows hheld) hdb, by simp [Known.committed, hcommits]⟩
  obtain ⟨db, images⟩ := d'
  obtain rfl : db = { d.db with products := d.db.products.erase x.id } := hdb
  exact fun _ => .deleteProduct x images hx howner hres hitems himages

theorem wp_deleteProduct (id : Uuid) (user : User) :
    wp shopStore (ShopActor.deleteProduct id user env).rules (deleteProduct env id user)
      (.start .fresh snap) fun _ p => p.commits ≤ 1 := by
  have hquiet : ∀ (d : ShopDb) (x : Db), False →
      ShopActor.Commits (.deleteProduct id user env) d { d with db := x } :=
    fun _ _ h => h.elim
  have hget : wp store (partRules fun _ _ => False) (getProductForUpdate id (some user))
      (.start .fresh (snap.map ShopDb.db)) fun r p => p.commits = 0 ∧ ∀ x, r = .ok x →
        p = (Known.start .fresh (snap.map ShopDb.db)).hold (.product x.id) (.product (some x)) ∧
          x.id = id ∧ checkOwnership user x.owned = .ok () := by
    refine wp_getProductForUpdate (fun d x _ _ hx hcheck => ?_) (fun _ => trivial) ?_
    · obtain rfl : x.id = id := Table.key_of_get hx
      exact ⟨rfl, fun y hy => Except.ok.inj hy ▸ ⟨rfl, rfl, hcheck⟩⟩
    · exact fun e p' hc => ⟨hc, fun x hx => by contradiction⟩
  apply wp_bind
  refine wp_mono (fun r p' hr => ?_) (wp_onShop hquiet (shopPart.same_start Session.fresh snap) hget)
  obtain ⟨p, hsame, hcommits, hok⟩ := hr
  cases r with
  | error e =>
      show p'.commits ≤ 1
      rw [hsame.commits, hcommits]
      omega
  | ok x =>
      obtain ⟨rfl, rfl, howner⟩ := hok x rfl
      apply wp_bind
      apply wp_ofExcept
      obtain ⟨old, hold⟩ := ProductRead.modelValidate_load x
      rw [hold]
      apply wp_bind
      have hlog : wp store (partRules fun _ _ => False)
          (logProductChange env user (.load x) (some old) "delete" none)
          ((Known.start .fresh (snap.map ShopDb.db)).hold (.product x.id) (.product (some x)))
          fun r p => p = (Known.start .fresh (snap.map ShopDb.db)).hold (.product x.id)
            (.product (some x)) := by
        refine wp_logProductChange (fun entry hentry => ?_) fun _ => rfl
        rw [productEntry_delete hold hentry]
        rfl
      refine wp_mono (fun r p' hr => ?_) (wp_onShop hquiet hsame hlog)
      obtain ⟨q, hsame, rfl⟩ := hr
      have hheld : p'.held = [(.product x.id, .product (some x))] := hsame.held
      have hpending : p'.pending = [] := hsame.pending
      have hcommits : p'.commits = 0 := hsame.commits
      have hfail : p'.commits ≤ 1 := by omega
      cases r with
      | error e => exact hfail
      | ok _ =>
          apply wp_bind
          refine wp_select (fun d _ _ => ?_) hfail
          apply wp_bind
          rw [wp_saveAll]
          apply wp_bind
          rw [wp_save]
          refine @wp_commitDelete _ _ _ ((d.imagesOf x.id).map (·.id)) _ howner ?_ ?_ hcommits
          · simp [Known.push, hheld]
          · simp [Known.push, hpending]

theorem wp_getOrder {id : Uuid} {user : User} {ru : Rules Session Db Row Write}
    {p : Known Session Db Row RowVal Write}
    {Q : Except Failure Order → Known Session Db Row RowVal Write → Prop}
    (hok : ∀ o : Order, o.id = id → checkOwnership user o.owned = .ok () → Q (.ok o) p)
    (hfail : ∀ e p', Q (.error e) p') : wp store ru (getOrder id user) p Q := by
  apply wp_bind
  refine wp_select (fun d _ _ => ?_) (hfail _ _)
  apply wp_bind
  refine wp_orNotFound (fun _ => hfail _ _) fun o ho => ?_
  apply wp_bind
  apply wp_ofExcept
  cases hcheck : checkOwnership user o.owned with
  | error e => exact hfail _ _
  | ok _ => exact hok o (Table.key_of_get ho) hcheck

theorem wp_getOrderForDetails (id : Uuid) (user : User) {snap : Option Db} :
    wp store
      (partRules fun d d' => user.isStaff ∧
        d' = { d with auditLogs := d.auditLogs ++ [detailsEntry id user env] })
      (getOrderForDetails env id user) (.start .fresh snap) fun r p =>
        ∀ o, r = .ok o → o.id = id ∧ (user.inspects o → p.commits = 1) := by
  apply wp_bind
  refine wp_getOrder (fun o hid _ => ?_) fun e p' o ho => by contradiction
  obtain rfl := hid
  change wp _ _ (if _ then _ else _) _ _
  split
  · next hinspects =>
      apply wp_bind
      rw [wp_save]
      apply wp_bind
      refine wp_commitWork (fun d d' _ _ happly => ?_) fun _ o ho => by contradiction
      have hd' : d' = { d with auditLogs := d.auditLogs ++ [detailsEntry o.id user env] } :=
        applyAll_logs.mp happly
      subst hd'
      refine ⟨⟨?_, rfl⟩, fun r hr => ?_, fun o' ho' => ?_⟩
      · simp only [User.inspects, decide_eq_true_eq] at hinspects
        exact hinspects.2
      · cases r <;> exact absurd rfl hr
      · exact Except.ok.inj ho' ▸ ⟨rfl, fun _ => rfl⟩
  · next hinspects =>
      intro o' ho'
      obtain rfl := Except.ok.inj ho'
      exact ⟨rfl, fun h => absurd h hinspects⟩

theorem wp_createUploadUrl (settings : MediaSettings) (id : Uuid) (req : ImageUploadRequest)
    (user : User) :
    wp shopStore (ShopActor.createUploadUrl settings id req user env).rules
      (createUploadUrl settings env id req user) (.start .fresh snap) fun _ p => p.commits ≤ 1 := by
  have hexists : wp store (partRules fun _ _ => False) (ensureProductExists id)
      (.start .fresh (snap.map ShopDb.db)) fun _ p => p.pending = [] ∧ p.commits = 0 := by
    apply wp_bind
    refine wp_select (fun d _ _ => ?_) ⟨rfl, rfl⟩
    exact wp_raiseIf (fun _ => ⟨rfl, rfl⟩) fun _ => ⟨rfl, rfl⟩
  apply wp_bind
  refine wp_mono (fun r p' hr => ?_)
    (wp_onShop (fun _ _ h => h.elim) (shopPart.same_start Session.fresh snap) hexists)
  obtain ⟨p, hsame, hnil, hcommits⟩ := hr
  have hpending : p'.pending = [] := by rw [hsame.pending, hnil, List.map_nil]
  have hfail : p'.commits ≤ 1 := by
    rw [hsame.commits, hcommits]
    omega
  cases r with
  | error e => exact hfail
  | ok _ =>
      apply wp_bind
      rw [wp_save]
      apply wp_bind
      refine wp_commitWork (fun d d' _ _ happly => ?_) fun _ => hfail
      rw [Known.push, hpending, List.nil_append] at happly
      obtain ⟨d₁, hadd, hend⟩ := Store.applyAll_cons.mp happly
      obtain rfl := Store.applyAll_nil.mp hend
      obtain ⟨hproduct, hnew, rfl⟩ := apply_addImage.mp hadd
      refine ⟨fun _ => .createUploadUrl hproduct hnew, fun r hr => absurd rfl hr, ?_⟩
      show p'.commits + 1 ≤ 1
      rw [hsame.commits, hcommits]

/-- **Every actor** commits what it may, and ends as it should. -/
theorem ShopActor.wp_program (a : ShopActor) :
    wp shopStore a.rules a.program (.start .fresh none) a.Ends := by
  cases a with
  | shop a =>
      apply wp_map
      have hprogram : wp store (a.rules (fun _ _ => True) False fun _ _ _ => True) a.program
          (.start .fresh none) a.Ends := a.wp_program a.ascending_top (.inr fun h => h.elim)
      have hweak : (shopPart.rules (a.rules (fun _ _ => True) False fun _ _ _ => True)).Weakens
          (ShopActor.shop a).rules := by
        refine ⟨fun d hd => ?_, fun s d r _ => ?_, fun _ _ _ _ => trivial, ?_⟩
        · change (a.rules _ _ _).inv d.db
          rw [a.rules_inv]
          exact hd
        · cases a <;> trivial
        · rintro alone ws d d' ⟨ws₀, x, rfl, rfl, h⟩ rfl
          exact .shop (Actor.commits_of_rule h)
      refine wp_mono (fun r p' hr => ?_)
        (wp_weaken hweak (shopPart.wp_run hprogram (shopPart.same_start Session.fresh none)))
      obtain ⟨p, hsame, _, hend⟩ := hr
      cases a with
      | request call env =>
          show p'.commits ≤ 1
          rw [hsame.commits]
          exact hend.1
      | sweep env expireOnCommit scan => trivial
  | deleteProduct id user env =>
      apply wp_inSession
      apply wp_map
      exact wp_deleteProduct id user
  | orderDetails id user env =>
      apply wp_inSession
      apply wp_map
      refine wp_mono (fun r p' hr a ha => ?_) (wp_onShop ?_ (shopPart.same_start Session.fresh none)
        (wp_getOrderForDetails id user))
      · obtain ⟨p, hsame, hdetails⟩ := hr
        cases r with
        | error e => contradiction
        | ok o =>
            obtain rfl := Except.ok.inj ha
            rw [show p'.abort.commits = p.commits from hsame.commits]
            exact ⟨o, rfl, hdetails o rfl⟩
      · rintro d x ⟨hstaff, rfl⟩
        exact .orderDetails hstaff
  | createUploadUrl settings id req user env =>
      apply wp_inSession
      apply wp_map
      exact wp_createUploadUrl settings id req user

/-- A product that no reservation is for may go. -/
theorem Coupled.withdraw {d : Db} (h : Coupled d) {id : Uuid}
    (hfree : ∀ r ∈ d.reservations.rows, r.productId ≠ id) :
    Coupled { d with products := d.products.erase id } where
  product := by
    intro r hr
    rw [show (d.products.erase id).get r.productId = d.products.get r.productId from
      Table.get_erase_ne (Ne.symm (hfree r hr))]
    exact h.product r hr
  positive := h.positive
  key := h.key
  unlinked := h.unlinked
  linked := by
    intro r hr orderId hlink
    obtain ⟨o, i, ho, horder⟩ := h.linked r hr orderId hlink
    exact ⟨o, i, ho, { horder with }⟩
  referenced := h.referenced
  injective := h.injective
  owned := h.owned

/-- What the inventory and order services commit is a change of their tables. -/
theorem ShopActor.Commits.of_shop {actor : Actor} {d d' : ShopDb}
    (hc : (ShopActor.shop actor).Commits d d') :
    actor.Commits False d.db d'.db ∧ d'.images = d.images := by
  cases hc with
  | shop hc => exact ⟨hc, rfl⟩

theorem ShopActor.Commits.coupled {d d' : ShopDb} (hc : a.Commits d d') (h : Coupled d.db) :
    Coupled d'.db := by
  cases hc with
  | shop hc => exact hc.coupled h
  | deleteProduct p images hget howner hreservations hitems himages => exact h.withdraw hreservations
  | orderDetails hstaff => exact h.congr_products fun _ hp => hp
  | createUploadUrl hproduct hnew => exact h

end

/-! ## Runs -/

/-- The database, its locks, and the actors of `T` at work. -/
abbrev ShopWorld (T : Type) := Sys Session ShopDb Row ShopWrite Failure ShopResponse T

/-- Nobody has begun, and there are no rows. -/
def ShopWorld.start {T : Type} (actors : T → ShopActor) : ShopWorld T :=
  Sys.start ShopDb.empty fun t => ((actors t).program, .fresh)

section
variable {T : Type} {actors : T → ShopActor} {ok : ShopWorld T → T → Prop} {s : ShopWorld T}
  {evs : List (Event ShopDb ShopWrite T)}

/-- What an event of a run is: nothing, or a commit of its actor. -/
def ShopLawful (actors : T → ShopActor) (ev : Event ShopDb ShopWrite T) : Prop :=
  Coupled ev.before.db ∧ match ev.commit with
    | none => ev.after = ev.before
    | some _ => (actors ev.txn).Commits ev.before ev.after

theorem shopInvariants (actors : T → ShopActor) :
    Invariants (fun t => (actors t).rules) .empty where
  start _ := coupled_empty
  keep _ _ _ _ _ h hc := (hc rfl).coupled h

variable [DecidableEq T]

/-- **Every state and every event** of a run. -/
theorem ShopWorld.tracks (hrun : Run shopStore ok (ShopWorld.start actors) evs s) :
    (∀ t, ∃ p, Tracks shopStore (actors t).rules (actors t).Ends s t p ∧
      p.commits = commitsOf t evs) ∧
    Coupled s.db.db ∧ ∀ ev ∈ evs, ShopLawful actors ev := by
  have hwp : ∀ t, wp shopStore (actors t).rules (actors t).program (.start .fresh none)
      (actors t).Ends := fun t => (actors t).wp_program
  have hgrant : ∀ s t, ok s t → GrantOk (actors t).rules s t := fun _ _ _ _ _ _ _ _ => trivial
  have hcoupled := Run.db_induct hwp (shopInvariants actors) hgrant
    (I := fun d => Coupled d.db) coupled_empty (fun t ws d d' hd hc => (hc rfl).coupled hd) hrun
  obtain ⟨htracks, _, hevs⟩ := Run.tracks hwp (shopInvariants actors) hgrant hrun
  refine ⟨htracks, hcoupled.1, fun ev hev => ⟨(hcoupled.2 ev hev).1, ?_⟩⟩
  have hok := hevs ev hev
  unfold EventOk at hok
  split
  · next hnone =>
      rw [hnone] at hok
      exact hok
  · next ws hsome =>
      rw [hsome] at hok
      exact hok rfl

end

end FairDrop
