import FairDrop.Shop.Requests

/-!
# FairDrop.Shop.Ownership

What a user can do to the products of others.  The row of a product is guarded
by `check_ownership` wherever it is edited; only its stock moves, and only by a
reservation or by the cancellation of an order.  Its images are not guarded:
`create_upload_url` asks for a login and for nothing else.
-/

namespace FairDrop

open RowStore

/-! ## What is left alone -/

/-- The request moves units of the product: it reserves some, or cancels the
order of a reservation of its user. -/
inductive MovesStock (q : ShopRequest) (d : Db) (p : Product) : Prop
  | reserves (key : String) (data : ReservationCreate)
      (endpoint : q.endpoint = .reservationData key data) (product : data.productId = p.id)
  | returns (orderId : Uuid) (r : Reservation) (endpoint : q.endpoint = .cancelOrder orderId)
      (stored : r ∈ d.reservations.rows) (link : r.orderId = some orderId)
      (owner : r.userId = q.currentUser.id) (product : r.productId = p.id)

/-- Between `d` and `d'` nothing happened to the product but that units of it moved. -/
structure LeftAlone (q : ShopRequest) (d d' : ShopDb) (p : Product) : Prop where
  row : ∃ p', d'.db.products.get p.id = some p' ∧
    p' = { p with qtyAvailable := p'.qtyAvailable, updatedAt := p'.updatedAt } ∧
    (p' ≠ p → MovesStock q d.db p)
  images : d'.imagesOf p.id = d.imagesOf p.id

theorem LeftAlone.refl {q : ShopRequest} {d : ShopDb} {p : Product}
    (hp : d.db.products.get p.id = some p) : LeftAlone q d d p :=
  ⟨⟨p, hp, rfl, fun h => absurd rfl h⟩, rfl⟩

section
variable {q : ShopRequest} {d : ShopDb} {p : Product}

/-- A change of the other tables. -/
theorem leftAlone_same {x : Db} (hp : d.db.products.get p.id = some p)
    (hx : x.products.get p.id = d.db.products.get p.id) : LeftAlone q d { d with db := x } p :=
  ⟨⟨p, hx.trans hp, rfl, fun h => absurd rfl h⟩, rfl⟩

/-- A product of somebody else was rewritten. -/
theorem leftAlone_other {x : Db} {p₀ p₁ : Product} (hp : d.db.products.get p.id = some p)
    (hget : d.db.products.get p₀.id = some p₀) (hid : p₁.id = p₀.id)
    (hx : x.products = d.db.products.set p₁) (howner : p₀.ownerId = q.currentUser.id)
    (hother : p.ownerId ≠ q.currentUser.id) : LeftAlone q d { d with db := x } p := by
  refine leftAlone_same hp ?_
  rw [hx]
  refine Table.get_set_ne ?_
  intro hkey
  have hsame : p₀ = p := by
    rw [show p₀.id = p.id from hid.symm.trans hkey, hp] at hget
    exact (Option.some.inj hget).symm
  exact hother (hsame ▸ howner)

/-- Units of a product have moved. -/
theorem leftAlone_stock {x : Db} {p₀ : Product} {n : Stock} {now : Timestamp}
    (hp : d.db.products.get p.id = some p) (hget : d.db.products.get p₀.id = some p₀)
    (hx : x.products = d.db.products.set { p₀ with qtyAvailable := n, updatedAt := now })
    (hmoves : p₀.id = p.id → MovesStock q d.db p) : LeftAlone q d { d with db := x } p := by
  cases Table.get_set_cases (b := { p₀ with qtyAvailable := n, updatedAt := now }) hget rfl hp with
  | inl h =>
      obtain ⟨rfl, hset⟩ := h
      refine ⟨⟨{ p₀ with qtyAvailable := n, updatedAt := now }, ?_, rfl, fun _ => hmoves rfl⟩, rfl⟩
      rw [hx]
      exact hset
  | inr hkept =>
      refine leftAlone_same hp ?_
      rw [hx, hkept, hp]

/-- The upload URLs that a request asks for are for products of its user. -/
def OwnUploads (q : ShopRequest) (d : Db) : Prop :=
  ∀ settings id req, q.endpoint = .createUploadUrl settings id req →
    ∀ x, d.products.get id = some x → x.ownerId = q.currentUser.id

/-- A product is edited by its owner, if not by the staff. -/
theorem owner_of_check {user : User} (hstaff : user.isStaff = false)
    (h : checkOwnership user p.owned = .ok ()) : p.ownerId = user.id := by
  cases checkOwnership_product.mp h with
  | inl hyes => simp [hstaff] at hyes
  | inr howner => exact howner

/-- What a call does in the name of the user of the request. -/
structure ActsFor (q : ShopRequest) (c : Call) : Prop where
  update : ∀ id data user, c = .updateProduct id data user → user = q.currentUser
  moderation : ∀ m, c.moderation = some m → m.owner = some q.currentUser
  reserve : ∀ userId key data, c = .reserveItems userId key data →
    q.endpoint = .reservationData key data
  cancel : ∀ id user, c = .cancelOrder id user →
    user = q.currentUser ∧ q.endpoint = .cancelOrder id
  release : ∀ id, c ≠ .releaseReservation id

/-- The calls of an endpoint that is not for the staff. -/
theorem ShopRequest.actsFor {c : Call} {env : Env}
    (hadmin : q.endpoint.allowedRoles ≠ some ShopEndpoint.adminDependency)
    (h : q.actor = .shop (.request c env)) : ActsFor q c := by
  obtain ⟨endpoint, user, env, admitted⟩ := q
  cases endpoint with
  | activateProduct | deleteProduct | approveProduct | rejectProduct | claimForModeration =>
      exact absurd rfl hadmin
  | getOrderDetails | createUploadUrl => cases h
  | createProduct | updateProduct | reservationData | submitForModeration | createOrder
  | confirmOrderPayment | cancelOrder =>
      cases h
      constructor <;> simp [Call.moderation]

/-- The reservation behind an order is a reservation of its user. -/
theorem userId_of_link (hd : Coupled d.db) {o : Order} {r : Reservation} {id : Uuid}
    (ho : d.db.orders.get id = some o) (hr : r ∈ d.db.reservations.rows)
    (hlink : r.orderId = some id) : r.userId = o.userId := by
  obtain rfl : o.id = id := Table.key_of_get ho
  obtain ⟨i, horder⟩ := hd.orderOf hr ho hlink
  exact horder.userId.symm

/-- **One call** leaves the products of others alone. -/
theorem leftAlone_change {c : Call} {env : Env} {x : Db} (hstaff : q.currentUser.isStaff = false)
    (hd : Coupled d.db) (hq : ActsFor q c) (hc : Change env false d.db c x)
    (hp : d.db.products.get p.id = some p) (hother : p.ownerId ≠ q.currentUser.id) :
    LeftAlone q d { d with db := x } p := by
  cases hc with
  | createProduct x entry hs hnew hlog =>
      have hkept : (d.db.products.insert x hnew).get p.id = some p :=
        Table.get_insert_of_get hnew hp
      exact leftAlone_same hp (hkept.trans hp.symm)
  | @updateProduct id data user x x' old entry hget howner hfree hs hold hlog =>
      obtain rfl := hq.update _ _ _ rfl
      obtain rfl : x.id = id := Table.key_of_get hget
      have hid : x'.id = x.id := by rw [hs.id, ProductObj.id_edit]; rfl
      exact leftAlone_other hp hget hid rfl (owner_of_check hstaff howner) hother
  | @moderate _ m x x' old entry hmod hget howner hallowed hs hold hlog =>
      have hid : x.id = m.productId := Table.key_of_get hget
      rw [hq.moderation m hmod] at howner
      exact leftAlone_other hp (hid ▸ hget) hs.id rfl (owner_of_check hstaff howner) hother
  | @reserveItems userId key data x n hget hn hkey hnew =>
      have hid : x.id = data.productId := Table.key_of_get hget
      exact leftAlone_stock hp (hid ▸ hget) rfl fun heq =>
        .reserves key data (hq.reserve _ _ _ rfl) (hid.symm.trans heq)
  | createOrder | confirmOrderPayment => exact leftAlone_same hp rfl
  | @cancelOrder orderId user o r products items hget howner hstatus hr hlink hstock =>
      obtain ⟨rfl, hendpoint⟩ := hq.cancel _ _ rfl
      obtain ⟨x, n, hx, hn, rfl⟩ := hstock
      have hid : x.id = r.productId := Table.key_of_get hx
      have huser : o.userId = q.currentUser.id := by
        cases checkOwnership_order.mp howner with
        | inl hyes => simp [hstaff] at hyes
        | inr hmine => exact hmine
      exact leftAlone_stock hp (hid ▸ hx) rfl fun heq =>
        .returns orderId r hendpoint hr hlink ((userId_of_link hd hget hr hlink).trans huser)
          (hid.symm.trans heq)
  | releaseReservation => exact absurd rfl (hq.release _)

/-- **One request** leaves the products of others alone. -/
theorem ShopRequest.leavesAlone {d' : ShopDb} (hstaff : q.currentUser.isStaff = false)
    (hd : Coupled d.db) (hc : q.actor.Commits d d') (hp : d.db.products.get p.id = some p)
    (hother : p.ownerId ≠ q.currentUser.id) (huploads : OwnUploads q d.db) :
    LeftAlone q d d' p := by
  have hadmin : q.endpoint.allowedRoles ≠ some ShopEndpoint.adminDependency := by
    intro hroles
    have hyes := q.isStaff hroles
    rw [hstaff] at hyes
    contradiction
  cases hactor : q.actor with
  | shop a =>
      rw [hactor] at hc
      obtain ⟨hc⟩ := hc
      cases a with
      | request c env => exact leftAlone_change hstaff hd (q.actsFor hadmin hactor) hc hp hother
      | sweep env expireOnCommit scan =>
          obtain ⟨endpoint, user, env, admitted⟩ := q
          cases endpoint <;> cases hactor
  | deleteProduct id user env =>
      obtain ⟨endpoint, user, env, admitted⟩ := q
      cases endpoint <;> cases hactor
      exact absurd rfl hadmin
  | orderDetails id user env =>
      rw [hactor] at hc
      obtain ⟨hstaff⟩ := hc
      exact leftAlone_same hp rfl
  | createUploadUrl settings id req user env =>
      have hown : ∀ x, d.db.products.get id = some x → x.ownerId = q.currentUser.id := by
        obtain ⟨endpoint, user', env', admitted⟩ := q
        cases endpoint <;> cases hactor
        exact huploads _ _ _ rfl
      rw [hactor] at hc
      cases hc with
      | createUploadUrl hproduct hnew =>
          refine ⟨⟨p, hp, rfl, fun h => absurd rfl h⟩, ?_⟩
          have hid : id ≠ p.id := by
            intro hid
            exact hother (hown p (hid ▸ hp))
          simp [ShopDb.imagesOf, Table.insert, List.filter_append, newImage, hid]

end

/-! ## Runs -/

/-- Only its owner, the staff aside, changes a product. -/
def OwnersOnly {T : Type} (actors : T → ShopActor) (evs : List (Event ShopDb ShopWrite T)) : Prop :=
  ∀ ev ∈ evs, ∀ q : ShopRequest, actors ev.txn = q.actor → q.currentUser.isStaff = false →
    ∀ p ∈ ev.before.db.products.rows, p.ownerId ≠ q.currentUser.id →
      LeftAlone q ev.before ev.after p

/-- Whoever is about to commit an image owns its product, or is of the staff. -/
def OwnersUpload {T : Type} (actors : T → ShopActor) (s : ShopWorld T) (t : T) : Prop :=
  s.committing t → ∀ q : ShopRequest, actors t = q.actor → q.currentUser.isStaff = false →
    OwnUploads q s.db.db

/-- **Only its owner changes a product**, in every run in which images are added by
the owners of their products. -/
theorem owners_only {T : Type} [DecidableEq T] {actors : T → ShopActor} {s : ShopWorld T}
    {evs : List (Event ShopDb ShopWrite T)}
    (hrun : Run shopStore (OwnersUpload actors) (ShopWorld.start actors) evs s) :
    OwnersOnly actors evs := by
  intro ev hev q hactor hstaff p hp hother
  obtain ⟨hcoupled, hlaw⟩ := (ShopWorld.tracks hrun).2.2 ev hev
  have hget : ev.before.db.products.get p.id = some p := Table.get_of_mem hp
  split at hlaw
  · rw [hlaw]
    exact .refl hget
  · next ws hcommit =>
      rw [hactor] at hlaw
      obtain ⟨_, s₁, _, huploads, hcommitting, hdb⟩ := hrun.at_commit hev (by simp [hcommit])
      have hown := huploads hcommitting q hactor hstaff
      rw [hdb] at hown
      exact q.leavesAlone hstaff hcoupled hlaw hget hother hown

/-! ## An upload for somebody else's product -/

def lampUpload (user : User) : ShopRequest where
  endpoint := .createUploadUrl
    ⟨"fairdrop-media", 1, 5242880, 3600⟩ 0 ⟨"lamp.png", "image/png"⟩
  currentUser := user
  env := shopEnv 1 7
  admitted := by simp [ShopEndpoint.allowedRoles]

def lampOffer : ShopRequest where
  endpoint := .createProduct lamp
  currentUser := seller
  env := shopEnv 0 0
  admitted := by decide

/-- A lamp is offered, and `user` asks for an upload URL. -/
def uploadActors (user : User) : Fin 2 → ShopActor
  | 0 => lampOffer.actor
  | 1 => (lampUpload user).actor

theorem currentUser_of_upload {user : User} {t : Fin 2} {q : ShopRequest} {settings : MediaSettings}
    {id : Uuid} {req : ImageUploadRequest} (h : uploadActors user t = q.actor)
    (hendpoint : q.endpoint = .createUploadUrl settings id req) : q.currentUser = user := by
  obtain ⟨endpoint, user', env, admitted⟩ := q
  obtain rfl : endpoint = .createUploadUrl settings id req := hendpoint
  match t with
  | 0 => cases h
  | 1 =>
      cases h
      rfl

theorem owners_only_seller : ∃ evs s,
    Run shopStore (OwnersUpload (uploadActors seller)) (ShopWorld.start (uploadActors seller)) evs s ∧
      OwnersOnly (uploadActors seller) evs ∧ s.db.images.rows.length = 1 := by
  have hcheck : ∀ (s : ShopWorld (Fin 2)) t,
      (s.db.db.products.rows.all fun x => x.ownerId = seller.id) →
        OwnersUpload (uploadActors seller) s t := by
    intro s t h _ q hactor _ settings id req hendpoint x hx
    rw [currentUser_of_upload hactor hendpoint]
    exact of_decide_eq_true (List.all_eq_true.mp h x (Table.mem_of_get hx))
  have hexec : ((ShopWorld.start (uploadActors seller)).exec shopStore
      (fun s _ => s.db.db.products.rows.all fun x => x.ownerId = seller.id)
      (turns [(0, 6), (1, 4)])).any (fun x => x.2.db.images.rows.length = 1) := by decide +kernel
  obtain ⟨evs, s, hrun, hlength⟩ := Run.of_exec_any hcheck hexec
  exact ⟨evs, s, hrun, owners_only hrun, of_decide_eq_true hlength⟩

/-- A buyer adds an image to the lamp of the seller. -/
theorem not_owners_only : ¬ ∀ (T : Type) [DecidableEq T] (actors : T → ShopActor)
    (evs : List (Event ShopDb ShopWrite T)) (s : ShopWorld T),
    Run shopStore Anything (ShopWorld.start actors) evs s → OwnersOnly actors evs := by
  intro hall
  have hexec : ((ShopWorld.start (uploadActors buyer)).exec shopStore (fun _ _ => true)
      (turns [(0, 6), (1, 4)])).any (fun x => x.1.any fun ev => decide (ev.txn = 1 ∧
        ∃ p ∈ ev.before.db.products.rows, p.ownerId = seller.id ∧
          ev.after.imagesOf p.id ≠ ev.before.imagesOf p.id)) := by decide +kernel
  obtain ⟨evs, s, hrun, hadded⟩ := Run.of_exec_any (fun _ _ _ => trivial) hexec
  obtain ⟨ev, hev, hadded⟩ := List.any_eq_true.mp hadded
  obtain ⟨htxn, p, hp, howner, himages⟩ := of_decide_eq_true hadded
  have hother : p.ownerId ≠ buyer.id := by
    rw [howner]
    decide
  have hactor : uploadActors buyer ev.txn = (lampUpload buyer).actor := by rw [htxn]; rfl
  exact himages (hall _ (uploadActors buyer) evs s hrun ev hev (lampUpload buyer) hactor rfl p hp
    hother).images

end FairDrop
