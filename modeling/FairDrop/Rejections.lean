import FairDrop.Dashboards
import FairDrop.ProductRows
import FairDrop.Shop.Actors

/-!
# FairDrop.Rejections

Why a product was rejected.  The reason goes to the log; the column that the
seller's page shows, `moderation_comment`, is written by none of the operations
(`uncommented`).  So the page never tells it (`seesReasons_iff`).
-/

namespace FairDrop

open RowStore

/-! ## Rejections in a run -/

/-- A call that gives its product the status `REJECTED`. -/
def Call.MakesRejected : Call → Prop
  | .rejectProduct _ _ _ => True
  | .changeStatus _ status _ => status = .rejected
  | _ => False

section
variable {T : Type} (actors : T → ShopActor) (evs : List (Event ShopDb ShopWrite T))

/-- The event commits a rejection of the product `id` for `reason`. -/
def Rejects (ev : Event ShopDb ShopWrite T) (id : Uuid) (reason : String) : Prop :=
  ev.commit.isSome ∧ ∃ user env, actors ev.txn = .shop (.request (.rejectProduct id user reason) env)

/-- The event commits a call that gives its product the status `REJECTED`. -/
def MakesRejected (ev : Event ShopDb ShopWrite T) : Prop :=
  ev.commit.isSome ∧ ∃ c env, actors ev.txn = .shop (.request c env) ∧ c.MakesRejected

/-- The latest rejection of the product `id` among the events is for `reason`. -/
def LatestReason (id : Uuid) (reason : String) : Prop :=
  ∃ pre ev post, evs = pre ++ ev :: post ∧ Rejects actors ev id reason ∧
    ∀ ev' ∈ post, ∀ reason', ¬ Rejects actors ev' id reason'

/-- The page of the owner shows the product with `comment`, whichever filter that
selects the status is set. -/
def ShowsComment (d : Db) (p : Product) (comment : Option String) : Prop :=
  ∀ scan status, Selected status p.status → ∃ products,
    d.answer (SellerUser.fetchMyProducts scan p.ownerId status) = .ok products ∧
      ∃ r ∈ products, r.id = p.id ∧ r.status = p.status ∧ r.moderationComment = comment

/-- Every seller sees of each rejected product why it was rejected last. -/
def SeesReasons (d : Db) : Prop :=
  ∀ p ∈ d.products.rows, p.status = .rejected →
    ∃ reason, LatestReason actors evs p.id reason ∧ ShowsComment d p (some reason)

end

/-! ## Nobody comments -/

/-- No product has a comment. -/
def Uncommented (products : Table Product) : Prop :=
  ∀ p ∈ products.rows, p.moderationComment = none

section
variable {d d' : Db} {env : Env} {alone : Bool} {c : Call}

theorem Uncommented.set {products : Table Product} (h : Uncommented products) {p : Product}
    (hp : p.moderationComment = none) : Uncommented (products.set p) := by
  intro x hx
  cases Table.mem_set hx with
  | inl hx => exact hx ▸ hp
  | inr hx => exact h x hx.1

theorem Uncommented.insert {products : Table Product} (h : Uncommented products) {p : Product}
    (hnew : products.get p.id = none) (hp : p.moderationComment = none) :
    Uncommented (products.insert p hnew) := by
  intro x hx
  cases (Table.mem_insert hnew).mp hx with
  | inl hx => exact h x hx
  | inr hx => exact hx ▸ hp

/-- Another stock, no comment. -/
theorem Uncommented.restock (h : Uncommented d.products) {p : Product} {id : Uuid}
    (hp : d.products.get id = some p) (q : Stock) (now : Timestamp) :
    Uncommented (d.products.set { p with qtyAvailable := q, updatedAt := now }) :=
  h.set (h p (Table.mem_of_get hp))

theorem Change.uncommented (hc : Change env alone d c d') (h : Uncommented d.products) :
    Uncommented d'.products := by
  cases hc with
  | createProduct p entry hs hnew => exact h.insert hnew hs.moderationComment
  | @updateProduct id data user p p' old entry hget howner hfree hs =>
      refine h.set (hs.moderationComment.trans ?_)
      have hkept : ((ProductObj.load p).edit data).moderationComment = p.moderationComment := by
        unfold ProductObj.edit
        dsimp only
        split <;> rfl
      exact hkept.trans (h p (Table.mem_of_get hget))
  | moderate p p' old entry hm hget howner hallowed hs =>
      exact h.set (hs.moderationComment.trans (h p (Table.mem_of_get hget)))
  | reserveItems p q hget => exact h.restock hget q _
  | createOrder | confirmOrderPayment => exact h
  | cancelOrder o r products items hget howner hstatus hr hlink hstock =>
      obtain ⟨p, q, hp, -, rfl⟩ := hstock
      exact h.restock hp q _
  | releaseReservation r products orders hget hstatus hstock =>
      obtain ⟨p, q, hp, -, rfl⟩ := hstock
      exact h.restock hp q _

theorem ShopActor.Commits.uncommented {a : ShopActor} {d d' : ShopDb} (hc : a.Commits d d')
    (h : Uncommented d.db.products) : Uncommented d'.db.products := by
  cases hc with
  | @shop actor _ x hc =>
      cases actor with
      | request c env => exact Change.uncommented hc h
      | sweep env expireOnCommit scan =>
          obtain ⟨id, r, p, q, orders, hget, hstatus, hp, hq, horders⟩ := hc
          exact h.restock hp q _
  | deleteProduct p images hget => exact fun x hx => h x (Table.mem_erase.mp hx).1
  | orderDetails | createUploadUrl => exact h

end

/-! ## Nobody rejects -/

/-- No product is rejected. -/
def Unrejected (products : Table Product) : Prop := ∀ p ∈ products.rows, p.status ≠ .rejected

section
variable {d d' : Db} {env : Env} {alone : Bool} {c : Call}

theorem Product.Step.unrejected {p p' : Product} (h : p.Step c p') (hc : ¬ c.MakesRejected)
    (hp : p.status ≠ .rejected) : p'.status ≠ .rejected := by
  cases h with
  | kept hcontent hstatus => exact hstatus ▸ hp
  | moved m hm hid hallowed hcontent hstatus =>
      rw [hstatus]
      cases c with
      | rejectProduct id user reason => exact absurd trivial hc
      | changeStatus id status user =>
          obtain rfl := Option.some.inj hm
          exact hc
      | submitForModeration | claimForModeration | approveProduct =>
          obtain rfl := Option.some.inj hm
          simp [Move.submit, Move.claim, Move.approve]
      | createProduct | updateProduct | reserveItems | createOrder | confirmOrderPayment
      | cancelOrder | releaseReservation => contradiction
  | edited data user hc hfree hinactive hstatus => exact hstatus ▸ hp
  | withdrawn data user hc hfree hstatus => simp [hstatus]

theorem Change.unrejected (hchange : Change env alone d c d') (hc : ¬ c.MakesRejected)
    (h : Unrejected d.products) : Unrejected d'.products := by
  intro p' hp'
  have hget' : d'.products.get p'.id = some p' := Table.get_of_mem hp'
  cases hget : d.products.get p'.id with
  | none =>
      rw [(hchange.new_row hget hget').1]
      decide
  | some p =>
      obtain ⟨x, hx, hstep⟩ := hchange.row_step hget
      obtain rfl : x = p' := Option.some.inj (hx.symm.trans hget')
      exact hstep.unrejected hc (h p (Table.mem_of_get hget))

theorem ShopActor.Commits.unrejected {a : ShopActor} {d d' : ShopDb} (hcommits : a.Commits d d')
    (hc : ∀ c env, a = .shop (.request c env) → ¬ c.MakesRejected)
    (h : Unrejected d.db.products) : Unrejected d'.db.products := by
  cases hcommits with
  | @shop actor _ x hchange =>
      cases actor with
      | request c env => exact Change.unrejected hchange (hc c env rfl) h
      | sweep env expireOnCommit scan =>
          obtain ⟨id, r, p, q, orders, hget, hstatus, hp, hq, horders⟩ := hchange
          intro x hx
          cases Table.mem_set hx with
          | inl hx => exact hx ▸ h p (Table.mem_of_get hp)
          | inr hx => exact h x hx.1
  | deleteProduct p images hget => exact fun x hx => h x (Table.mem_erase.mp hx).1
  | orderDetails | createUploadUrl => exact h

end

/-! ## What the seller sees -/

section
variable {d : Db} {p : Product}

/-- The page lists the row as it is. -/
theorem showsComment_row (hp : p ∈ d.products.rows) : ShowsComment d p p.moderationComment := by
  intro scan status hselected
  refine ⟨_, rfl, SellerUser.SellerProductRead.modelValidate p, ?_, rfl, rfl, rfl⟩
  refine List.mem_map_of_mem (List.mem_mergeSort.mpr ((scan.property _).mem_iff.mpr ?_))
  exact List.mem_filter.mpr ⟨hp, decide_eq_true ⟨rfl, hselected⟩⟩

/-- The page lists a product once. -/
theorem ShowsComment.eq_row {comment : Option String} (h : ShowsComment d p comment)
    (hp : p ∈ d.products.rows) : comment = p.moderationComment := by
  obtain ⟨products, hok, r, hr, hid, -, hcomment⟩ := h ⟨id, fun _ => .refl _⟩ none (by simp [Selected])
  obtain rfl := Except.ok.inj hok
  obtain ⟨x, hx, rfl⟩ := List.mem_map.mp hr
  have hmem : x ∈ d.products.rows := (List.mem_filter.mp (List.mem_mergeSort.mp hx)).1
  obtain rfl : x = p := d.products.eq_of_key hmem hp hid
  exact hcomment.symm

end

section
variable {T : Type} [DecidableEq T] {actors : T → ShopActor} {ok : ShopWorld T → T → Prop}
  {s : ShopWorld T} {evs : List (Event ShopDb ShopWrite T)}

theorem uncommented (hrun : Run shopStore ok (ShopWorld.start actors) evs s) :
    Uncommented s.db.db.products := by
  obtain ⟨-, -, hevs⟩ := ShopWorld.tracks hrun
  refine (hrun.keeps (I := fun d => Uncommented d.db.products) (fun p hp => ?_)
    fun ev hev h => ?_).1
  · contradiction
  · obtain ⟨-, hlaw⟩ := hevs ev hev
    split at hlaw
    · rw [hlaw]
      exact h
    · exact hlaw.uncommented h

theorem unrejected (hrun : Run shopStore ok (ShopWorld.start actors) evs s)
    (hspared : ∀ ev ∈ evs, ¬ MakesRejected actors ev) : Unrejected s.db.db.products := by
  obtain ⟨-, -, hevs⟩ := ShopWorld.tracks hrun
  refine (hrun.keeps (I := fun d => Unrejected d.db.products) (fun p hp => ?_)
    fun ev hev h => ?_).1
  · contradiction
  · obtain ⟨-, hlaw⟩ := hevs ev hev
    split at hlaw
    · rw [hlaw]
      exact h
    · next ws hcommit =>
        refine hlaw.unrejected (fun c env hactor hrejects => ?_) h
        exact hspared ev hev ⟨by simp [hcommit], c, env, hactor, hrejects⟩

/-- **Sellers see why a product was rejected** only where none is: in every state of
every run the pages tell the reasons exactly if no product is rejected, as in the runs
that reject none. -/
theorem seesReasons_iff (hrun : Run shopStore ok (ShopWorld.start actors) evs s) :
    (SeesReasons actors evs s.db.db ↔ ∀ p ∈ s.db.db.products.rows, p.status ≠ .rejected) ∧
      ((∀ ev ∈ evs, ¬ MakesRejected actors ev) → SeesReasons actors evs s.db.db) := by
  have hiff : SeesReasons actors evs s.db.db ↔ Unrejected s.db.db.products := by
    constructor
    · intro hsees p hp hrejected
      obtain ⟨reason, -, hshows⟩ := hsees p hp hrejected
      have hcomment := hshows.eq_row hp
      rw [uncommented hrun p hp] at hcomment
      contradiction
    · intro hnone p hp hrejected
      exact absurd hrejected (hnone p hp)
  exact ⟨hiff, fun hspared => hiff.mpr (unrejected hrun hspared)⟩

end

/-! ## A lamp that is rejected -/

/-- A lamp is offered, submitted, claimed, and rejected. -/
def rejectedActors : Fin 4 → ShopActor
  | 0 => .shop (.request (.createProduct seller.id lamp seller) (shopEnv 0 0))
  | 1 => .shop (.request (.submitForModeration 0 seller) (shopEnv 1 1))
  | 2 => .shop (.request (.claimForModeration 0 moderator) (shopEnv 2 2))
  | 3 => .shop (.request (.rejectProduct 0 moderator "blurred picture") (shopEnv 3 3))

/-- Before the decision nothing is rejected yet. -/
theorem seesReasons_claimed : ∃ evs s,
    Run shopStore Anything (ShopWorld.start rejectedActors) evs s ∧
      s.db.db.products.rows.map (·.status) = [.moderationInProgress] ∧
        SeesReasons rejectedActors evs s.db.db := by
  have hexec : ((ShopWorld.start rejectedActors).exec shopStore (fun _ _ => true)
      (turns [(0, 6), (1, 5), (2, 5)])).any (fun x => decide
        (x.2.db.db.products.rows.map (·.status) = [.moderationInProgress])) := by decide +kernel
  obtain ⟨evs, s, hrun, hend⟩ := Run.of_exec_any (fun _ _ _ => trivial) hexec
  have hstatus : s.db.db.products.rows.map (·.status) = [.moderationInProgress] :=
    of_decide_eq_true hend
  have hnone : ∀ p ∈ s.db.db.products.rows, p.status ≠ .rejected := by
    intro p hp hrejected
    have hmem := List.mem_map.mpr ⟨p, hp, hrejected⟩
    rw [hstatus] at hmem
    simp at hmem
  exact ⟨evs, s, hrun, hstatus, (seesReasons_iff hrun).1.mpr hnone⟩

/-- The seller is not told what is wrong with the picture. -/
theorem not_seesReasons : ¬ ∀ (T : Type) [DecidableEq T] (actors : T → ShopActor)
    (evs : List (Event ShopDb ShopWrite T)) (s : ShopWorld T),
    Run shopStore Anything (ShopWorld.start actors) evs s → SeesReasons actors evs s.db.db := by
  intro hall
  have hexec : ((ShopWorld.start rejectedActors).exec shopStore (fun _ _ => true)
      (turns [(0, 6), (1, 5), (2, 5), (3, 5)])).any (fun x => x.2.db.db.products.rows.any fun p =>
        decide (p.status = .rejected ∧ p.moderationComment = none)) := by decide +kernel
  obtain ⟨evs, s, hrun, hend⟩ := Run.of_exec_any (fun _ _ _ => trivial) hexec
  obtain ⟨p, hp, hrejected⟩ := List.any_eq_true.mp hend
  obtain ⟨hstatus, hcomment⟩ := of_decide_eq_true hrejected
  obtain ⟨reason, -, hshows⟩ := hall _ _ evs s hrun p hp hstatus
  have hrow := hshows.eq_row hp
  rw [hcomment] at hrow
  cases hrow

end FairDrop
