import FairDrop.Inventory.Commits
import FairDrop.RowStore.Interleave

/-!
# FairDrop.Inventory.SellerLimit

One seller who lists products from any number of requests side by side.  The
limit of the account type is checked against a count that each request takes
before its insert, and nothing else keeps it: the seller stays within the limit
as long as the count would still pass when the insert is committed
(`within_limit`).
-/

namespace FairDrop

open RowStore

/-! ## The seller -/

/-- A seller, as the limit applies to one: not staff.  The settings are those of
every process. -/
structure Lister where
  user : User
  settings : Settings
  notStaff : user.isStaff = false

/-- The arguments of a `create_product`. -/
structure Listing where
  productData : ProductCreate
  env : Env

/-- The number of products of an owner. -/
def Db.listed (d : Db) (ownerId : Uuid) : Nat :=
  (d.products.rows.filter fun p => p.ownerId = ownerId).length

namespace Lister

/-- The limit of the account type. -/
def limit (l : Lister) : Nat :=
  if (l.user.role = .seller ∨ l.user.role = .sellerB2b) ∧ l.user.isVerified then
    l.settings.verifiedSellerLimit
  else l.settings.unverifiedSellerLimit

/-- `SellerLimitExceededError` -/
def exceeded (l : Lister) : Failure :=
  .sellerLimitExceeded s!"Limit of {l.limit} products reached for your account type"

def program (l : Lister) (c : Listing) : Tx Product :=
  Prog.inSession
    (createProduct { c.env with settings := l.settings } l.user.id c.productData l.user)

/-- The check is that of `_check_seller_limit`. -/
theorem checkSellerLimit_eq (l : Lister) (env : Env) :
    checkSellerLimit { env with settings := l.settings } l.user =
      Prog.select >>= fun d => raiseIf (l.limit ≤ d.listed l.user.id) l.exceeded := by
  have hstaff : ¬ (l.user.role = .admin ∨ l.user.role = .moderator) := by
    simpa [User.isStaff] using l.notStaff
  rw [checkSellerLimit, if_neg hstaff]
  rfl

/-- Another product of the seller, and what is logged about it. -/
def Adds (l : Lister) (d d' : Db) : Prop :=
  ∃ (p : Product) (h : d.products.get p.id = none) (logs : List AuditLog), p.ownerId = l.user.id ∧
    d' = { d with products := d.products.insert p h, auditLogs := d.auditLogs ++ logs }

/-- All that a call commits is a product. -/
def rules (l : Lister) (inv : Db → Prop) : Rules Session Db Row Write where
  inv := inv
  grant _ _ _ := True
  request _ _ _ := True
  commit _ _ d d' := l.Adds d d'

end Lister

abbrev ListingWorld (T : Type) := Sys Session Db Row Write Failure Product T

def ListingWorld.start {T : Type} (d : Db) (l : Lister) (calls : T → Listing) : ListingWorld T :=
  Sys.start d fun t => (l.program (calls t), .fresh)

/-! ## The limit -/

/-- At its commit a call would still pass the check. -/
def CountHolds {T : Type} (l : Lister) (s : ListingWorld T) (t : T) : Prop :=
  s.committing t → s.db.listed l.user.id < l.limit

/-- Errors of the database, as opposed to those that the services raise. -/
def Failure.ofDatabase : Failure → Bool
  | .integrityError | .dataError | .staleData | .operationalError => true
  | _ => false

/-- How a call ends, and how often it has committed by then: `full` is what it
has seen if it raises `SellerLimitExceededError`. -/
inductive Lister.Ends (l : Lister) (full : Prop) : Except Failure Product → Nat → Prop
  | listed (p : Product) : Ends l full (.ok p) 1
  | exceeded (h : full) : Ends l full (.error l.exceeded) 0
  | database (e : Failure) (n : Nat) (h : e.ofDatabase) : Ends l full (.error e) n

/-- The seller is within the limit: every commit lists one more product, and
there was room for it; a call that is not failed by the database either commits
once, or there is no room for its product and it raises
`SellerLimitExceededError`. -/
structure WithinLimit {T : Type} [DecidableEq T] (l : Lister)
    (evs : List (Event Db Write T)) (s : ListingWorld T) : Prop where
  within : s.db.listed l.user.id ≤ l.limit
  room : ∀ ev ∈ evs, ev.commit.isSome → ev.before.listed l.user.id < l.limit ∧
    ev.after.listed l.user.id = ev.before.listed l.user.id + 1
  quiet : ∀ ev ∈ evs, ev.commit = none → ev.after = ev.before
  raising : ∀ t r, s.ended t = some r →
    l.Ends (s.db.listed l.user.id = l.limit) r (commitsOf t evs)

/-! ## Inserts -/

section
variable {d d' : Db} {l : Lister}

theorem Lister.Adds.listed (h : l.Adds d d') : d'.listed l.user.id = d.listed l.user.id + 1 := by
  obtain ⟨p, hnew, logs, howner, rfl⟩ := h
  simp [Db.listed, Table.insert, howner]

theorem error_price {x : Decimal} {e : Failure} (h : Price.ofDecimal x = .error e) :
    e.ofDatabase := by
  unfold Price.ofDecimal at h
  split at h
  · exact Except.error.inj h ▸ rfl
  · split at h
    · contradiction
    · exact Except.error.inj h ▸ rfl

theorem error_stock {n : Int} {e : Failure} (h : Stock.ofInt n = .error e) : e.ofDatabase := by
  unfold Stock.ofInt at h
  split at h
  · exact Except.error.inj h ▸ rfl
  · split at h
    · contradiction
    · exact Except.error.inj h ▸ rfl

/-- A value that its column cannot store. -/
theorem error_row {p : ProductObj} {e : Failure} (h : p.row = .error e) : e.ofDatabase := by
  unfold ProductObj.row at h
  split at h
  · next price qty _ _ _ =>
      cases hp : Price.ofDecimal price with
      | error e' =>
          rw [hp] at h
          exact error_price (Except.error.inj h ▸ hp)
      | ok c =>
          cases hs : Stock.ofInt qty with
          | error e' =>
              rw [hp, hs] at h
              exact error_stock (Except.error.inj h ▸ hs)
          | ok q =>
              rw [hp, hs] at h
              contradiction
  · exact Except.error.inj h ▸ rfl

/-- A product that the database refuses. -/
theorem error_addProduct {p : ProductObj} {e : Failure}
    (h : (Write.addProduct p).apply d = .error e) : e.ofDatabase := by
  rw [Write.apply] at h
  cases hrow : p.row with
  | error e' =>
      rw [hrow] at h
      exact error_row ((Except.error.inj h) ▸ hrow)
  | ok row =>
      simp only [hrow, addRow, bind, Except.bind] at h
      split at h
      · next e' hadd =>
          split at hadd
          · contradiction
          · rw [← Except.error.inj h, ← Except.error.inj hadd]
            rfl
      · contradiction

/-- Log entries are never refused. -/
theorem error_addProduct_logged {p : ProductObj} {logs : List AuditLog} {e : Failure}
    (h : store.applyAll ([.addProduct p] ++ logs.map .addAuditLog) d = .error e) :
    e.ofDatabase := by
  rw [List.singleton_append, Store.applyAll] at h
  split at h
  · next d₁ _ =>
      rw [applyAll_logs.mpr rfl] at h
      contradiction
  · next hadd => exact error_addProduct (Except.error.inj h ▸ hadd)

end

/-! ## Runs -/

section
variable {l : Lister}

/-- A new product has what its response requires, so it can be logged. -/
theorem productEntry_create (env : Env) (user : User) (data : ProductCreate) (ownerId : Uuid) :
    ∃ entry, productEntry env user (.create data ownerId (env.uuid 0) env.now) none "create" none =
      .ok entry := ⟨_, rfl⟩

/-- What a call does, and how it can end. -/
theorem Lister.wp_program (c : Listing) {inv : Db → Prop} {full : Prop}
    (hfull : ∀ d, inv d → l.limit ≤ d.listed l.user.id → full) :
    wp store (l.rules inv) (l.program c) (.start .fresh none) fun r p =>
      l.Ends full r p.commits := by
  apply wp_inSession
  apply wp_bind
  rw [checkSellerLimit_eq]
  apply wp_bind
  refine wp_select (fun d _ hd => ?_) (.database _ _ rfl)
  refine wp_raiseIf (fun hlimit => .exceeded (hfull d hd hlimit)) fun _ => ?_
  apply wp_bind
  rw [wp_save]
  apply wp_bind
  obtain ⟨entry, hentry⟩ := productEntry_create { c.env with settings := l.settings } l.user
    c.productData l.user.id
  apply wp_bind
  apply wp_ofExcept
  rw [hentry]
  dsimp only
  rw [wp_addLog]
  apply wp_bind
  refine wp_commitWork_cases (fun d d' _ _ happly => ?_) (fun d e happly => ?_)
    (.database _ _ rfl)
  · obtain ⟨row, hrow, hnew, hd'⟩ := applyAll_addProduct happly
    refine ⟨⟨row, hnew, entry.toList, (ProductObj.storedAs_of_row hrow).ownerId, hd'⟩,
      frame_addProduct happly, ?_⟩
    exact wp_refreshProduct (fun x => .listed x) (.database _ _ rfl) (.database _ _ rfl)
  · exact .database _ _ (error_addProduct_logged happly)

variable {T : Type} [DecidableEq T] {calls : T → Listing} {d₀ : Db} {s : ListingWorld T}
  {evs : List (Event Db Write T)}

/-- Every commit lists a product, and finds room for it. -/
theorem listing_events
    (hrun : Run store (CountHolds l) (ListingWorld.start d₀ l calls) evs s) :
    ∀ ev ∈ evs, (ev.commit.isSome → ev.before.listed l.user.id < l.limit ∧
      ev.after.listed l.user.id = ev.before.listed l.user.id + 1) ∧
        (ev.commit = none → ev.after = ev.before) := by
  have hwp : ∀ t, wp store (l.rules fun _ => True) (l.program (calls t)) (.start .fresh none)
      fun r p => l.Ends True r p.commits := fun t => l.wp_program (calls t) fun _ _ _ => trivial
  obtain ⟨_, hevs⟩ := Run.tracks_of_inv hwp (fun _ _ _ _ _ _ _ _ => trivial) hrun
    fun _ _ => trivial
  intro ev hev
  have hok := hevs ev hev
  constructor
  · intro hcommit
    obtain ⟨ws, hws⟩ := Option.isSome_iff_exists.mp hcommit
    obtain ⟨_, s₁, _, hcount, hcommitting, hdb⟩ := hrun.at_commit hev hcommit
    simp only [EventOk, hws] at hok
    exact ⟨hdb ▸ hcount hcommitting, Lister.Adds.listed hok⟩
  · intro hnone
    simpa only [EventOk, hnone] using hok

/-- **The limit holds**, in every run in which the count of each call still passes
when it commits. -/
theorem within_limit (h₀ : d₀.listed l.user.id ≤ l.limit)
    (hrun : Run store (CountHolds l) (ListingWorld.start d₀ l calls) evs s) :
    WithinLimit l evs s := by
  have hevs := listing_events hrun
  have hwithin : s.db.listed l.user.id ≤ l.limit := by
    refine (hrun.keeps (I := fun d => d.listed l.user.id ≤ l.limit) h₀ fun ev hev hbefore => ?_).1
    cases hcommit : ev.commit with
    | none => rwa [(hevs ev hev).2 hcommit]
    | some ws =>
        obtain ⟨hroom, hone⟩ := (hevs ev hev).1 (by simp [hcommit])
        omega
  refine ⟨hwithin, fun ev hev => (hevs ev hev).1, fun ev hev => (hevs ev hev).2, ?_⟩
  have hgrows : ∀ ev ∈ evs, ev.before.listed l.user.id ≤ s.db.listed l.user.id := by
    intro ev hev
    refine (hrun.since (r := fun d d' => d.listed l.user.id ≤ d'.listed l.user.id)
      (fun _ => le_refl _) (fun _ _ _ => le_trans) (fun ev hev => ?_) ev hev).1
    cases hcommit : ev.commit with
    | none => rw [(hevs ev hev).2 hcommit]
    | some ws =>
        obtain ⟨_, hone⟩ := (hevs ev hev).1 (by simp [hcommit])
        omega
  have hwp : ∀ t, wp store (l.rules fun d => d.listed l.user.id ≤ s.db.listed l.user.id)
      (l.program (calls t)) (.start .fresh none) fun r p =>
        l.Ends (s.db.listed l.user.id = l.limit) r p.commits :=
    fun t => l.wp_program (calls t) fun d hd hlimit =>
      le_antisymm hwithin (hlimit.trans hd)
  intro t r hended
  obtain ⟨p, hp, hcommits⟩ :=
    (Run.tracks_of_inv hwp (fun _ _ _ _ _ _ _ _ => trivial) hrun hgrows).1 t
  exact hcommits ▸ hp.ended hended

end

/-! ## A seller at the limit -/

instance {T : Type} (l : Lister) (s : ListingWorld T) (t : T) : Decidable (CountHolds l s t) :=
  inferInstanceAs (Decidable (_ → _))

/-- A seller who may list one product. -/
def hobbySeller : Lister where
  user := ⟨7, .seller, false⟩
  settings := ⟨15, 1, 100⟩
  notStaff := rfl

def hobbyListing (t : Fin 2) : Listing where
  productData := ⟨"Lamp", none, ⟨⟨1000, -2⟩, by decide⟩, ⟨1, by decide⟩⟩
  env := shopEnv 0 t.val

/-- One after the other: the second is refused. -/
theorem within_limit_inTurn : ∃ evs s,
    Run store (CountHolds hobbySeller) (ListingWorld.start .empty hobbySeller hobbyListing) evs s ∧
      WithinLimit hobbySeller evs s ∧ s.ended 1 = some (.error hobbySeller.exceeded) := by
  have hexec : ((ListingWorld.start .empty hobbySeller hobbyListing).exec store
      (fun s t => decide (CountHolds hobbySeller s t)) (turns [(0, 5), (1, 2)])).any
      (fun x => decide (x.2.ended 1 = some (.error hobbySeller.exceeded))) := by decide +kernel
  obtain ⟨evs, s, hrun, hend⟩ := Run.of_exec_any (fun _ _ h => of_decide_eq_true h) hexec
  exact ⟨evs, s, hrun, within_limit (Nat.zero_le _) hrun, of_decide_eq_true hend⟩

/-- Both count before either has committed: the seller owns two products. -/
theorem not_within_limit : ¬ ∀ (T : Type) [DecidableEq T] (l : Lister) (calls : T → Listing)
    (d₀ : Db) (evs : List (Event Db Write T)) (s : ListingWorld T),
    d₀.listed l.user.id ≤ l.limit →
    Run store Anything (ListingWorld.start d₀ l calls) evs s → WithinLimit l evs s := by
  intro hall
  have hexec : ((ListingWorld.start .empty hobbySeller hobbyListing).exec store
      (fun _ _ => true) (turns [(0, 1), (1, 5), (0, 4)])).any
      (fun x => decide (x.2.db.listed hobbySeller.user.id = 2)) := by decide +kernel
  obtain ⟨evs, s, hrun, htwo⟩ := Run.of_exec_any (fun _ _ _ => trivial) hexec
  have hwithin := (hall _ hobbySeller hobbyListing .empty evs s (Nat.zero_le _) hrun).within
  rw [of_decide_eq_true htwo] at hwithin
  exact absurd hwithin (by decide)

end FairDrop
