import FairDrop.Outcomes
import FairDrop.ProductRows

/-!
# FairDrop.Assignments

Who moderates what.  A claim records its moderator in the product row; a
decision only looks at the status.  So a decision is always about content that
somebody has claimed and nobody has changed since (`decided_as_claimed`), but
not by whom it was claimed.

The row and the status go together as long as no product is activated over the
head of the moderator who has claimed it (`bookkept_of_spares`).
-/

namespace FairDrop

open RowStore

/-! ## Claims and decisions in a run -/

section
variable {T : Type}

/-- The event commits the work of `c`. -/
def Committed (calls : T → Call × Env) (ev : Event Db Write T) (c : Call) : Prop :=
  ev.commit.isSome ∧ (calls ev.txn).1 = c

/-- `user` approves or rejects the product `id`. -/
def Decides (calls : T → Call × Env) (ev : Event Db Write T) (id : Uuid) (user : User) : Prop :=
  Committed calls ev (.approveProduct id user) ∨
    ∃ reason, Committed calls ev (.rejectProduct id user reason)

/-- The latest claim of the product `id` among the events is by `moderator`, and
from this claim on its content has been `content`. -/
def LatestClaim (calls : T → Call × Env) (evs : List (Event Db Write T)) (id : Uuid)
    (moderator : User) (content : Content) : Prop :=
  ∃ pre claim post, evs = pre ++ claim :: post ∧
    Committed calls claim (.claimForModeration id moderator) ∧
    (∀ ev ∈ post, ∀ user, ¬ Committed calls ev (.claimForModeration id user)) ∧
    ∀ ev ∈ claim :: post, (ev.after.products.get id).map Product.content = some content

/-- The only route to `change_status` makes a product `ACTIVE`. -/
def Call.Routed : Call → Prop
  | .changeStatus _ status _ => status = .active
  | _ => True

/-- Every decision is about a product that is claimed, by the moderator in its
row, with the content that it has had since and still has afterwards. -/
def DecidedAsClaimed (calls : T → Call × Env) (evs : List (Event Db Write T)) : Prop :=
  ∀ pre ev post, evs = pre ++ ev :: post → ∀ id user, Decides calls ev id user →
    ∃ moderator p, ev.before.products.get id = some p ∧ p.moderatorId = some moderator.id ∧
      LatestClaim calls pre id moderator p.content ∧
      (ev.after.products.get id).map Product.content = some p.content

/-- The same, and whoever decides has made the claim. -/
def DecidedByClaimer (calls : T → Call × Env) (evs : List (Event Db Write T)) : Prop :=
  ∀ pre ev post, evs = pre ++ ev :: post → ∀ id user, Decides calls ev id user →
    ∃ p, ev.before.products.get id = some p ∧ LatestClaim calls pre id user p.content

/-- A moderator is recorded exactly while a product is being moderated. -/
def Bookkept (d : Db) : Prop :=
  ∀ p ∈ d.products.rows, p.moderatorId.isSome ↔ p.status = .moderationInProgress

/-- A direct change of status neither begins nor ends the moderation of a product. -/
def Call.SparesClaims (c : Call) (d : Db) : Prop :=
  match c with
  | .changeStatus id status _ => ∀ p ∈ d.products.rows, p.id = id →
      (p.status = .moderationInProgress ↔ status = .moderationInProgress)
  | _ => True

instance (c : Call) (d : Db) : Decidable (c.SparesClaims d) := by
  unfold Call.SparesClaims
  split <;> infer_instance

instance (d : Db) : Decidable (Bookkept d) := by
  unfold Bookkept
  infer_instance

/-! ## One commit -/

section
variable {env : Env} {alone : Bool} {c : Call} {d d' : Db}

/-- A moderation operation moves its product. -/
theorem Change.moved_row (hc : Change env alone d c d') {m : Moderation}
    (hm : c.moderation = some m) :
    ∃ p p', d.products.get m.productId = some p ∧ m.move.allowed p.status = true ∧
      d'.products.get m.productId = some p' ∧ p'.content = p.content ∧
      p'.status = m.move.status ∧ p'.moderatorId = m.move.moderator p.moderatorId := by
  cases hc with
  | @moderate c m' p p' old entry hm' hget howner hallowed hs =>
      obtain rfl : m' = m := Option.some.inj (hm'.symm.trans hm)
      obtain ⟨hcontent, hstatus, hmoderator⟩ := row_of_move hs
      have hid : p'.id = m'.productId := hs.id.trans (Table.key_of_get hget)
      have hget' : (d.products.set p').get m'.productId = some p' := by
        rw [← hid] at hget ⊢
        exact Table.get_set_self hget
      exact ⟨p, p', hget, hallowed, hget', hcontent, hstatus, hmoderator⟩
  | createProduct | updateProduct | reserveItems | createOrder | confirmOrderPayment | cancelOrder
  | releaseReservation => contradiction

/-- Products are moderated after a claim only. -/
theorem Product.Step.claimed {p p' : Product} (h : p.Step c p') (hrouted : c.Routed)
    (hclaim : ∀ user, c ≠ .claimForModeration p.id user)
    (hstatus : p'.status = .moderationInProgress) :
    p.status = .moderationInProgress ∧ p'.content = p.content ∧ p'.moderatorId = p.moderatorId := by
  cases h with
  | kept hcontent hkept hmoderator => exact ⟨hkept ▸ hstatus, hcontent, hmoderator⟩
  | moved m hm hid hallowed hcontent hmoved hmoderator =>
      rw [hstatus] at hmoved
      cases c with
      | claimForModeration id user =>
          obtain rfl := Option.some.inj hm
          exact absurd (congrArg (Call.claimForModeration · user) hid) (hclaim user)
      | changeStatus id status user =>
          obtain rfl := Option.some.inj hm
          obtain rfl : status = .active := hrouted
          contradiction
      | submitForModeration | approveProduct | rejectProduct =>
          obtain rfl := Option.some.inj hm
          contradiction
      | createProduct | updateProduct | reserveItems | createOrder | confirmOrderPayment
      | cancelOrder | releaseReservation => contradiction
  | edited data user hc hfree hinactive hkept hmoderator =>
      rw [hstatus] at hkept
      simp [Product.underModeration, ← hkept] at hfree
  | withdrawn data user hc hfree hpending =>
      rw [hstatus] at hpending
      contradiction

/-- A step keeps the books unless it is a change of status that does not. -/
theorem Product.Step.bookkept {p p' : Product} (h : p.Step c p')
    (hspares : ∀ id status user, c = .changeStatus id status user → p.id = id →
      (p.status = .moderationInProgress ↔ status = .moderationInProgress))
    (hp : p.moderatorId.isSome ↔ p.status = .moderationInProgress) :
    p'.moderatorId.isSome ↔ p'.status = .moderationInProgress := by
  cases h with
  | kept hcontent hstatus hmoderator => rw [hstatus, hmoderator, hp]
  | moved m hm hid hallowed hcontent hstatus hmoderator =>
      rw [hstatus, hmoderator]
      cases c with
      | changeStatus id status user =>
          obtain rfl := Option.some.inj hm
          exact hp.trans (hspares id status user rfl hid.symm)
      | submitForModeration | claimForModeration | approveProduct | rejectProduct =>
          obtain rfl := Option.some.inj hm
          simp [Move.submit, Move.claim, Move.approve, Move.reject]
      | createProduct | updateProduct | reserveItems | createOrder | confirmOrderPayment
      | cancelOrder | releaseReservation => contradiction
  | edited data user hc hfree hinactive hstatus hmoderator => rw [hstatus, hmoderator, hp]
  | withdrawn data user hc hfree hstatus hmoderator => simp [hstatus, hmoderator]

end

/-! ## Runs -/

variable {calls : T → Call × Env} {evs : List (Event Db Write T)}

/-- A claim that is committed now is the latest one. -/
theorem LatestClaim.now {ev : Event Db Write T} {id : Uuid} {moderator : User} {content : Content}
    (hclaim : Committed calls ev (.claimForModeration id moderator))
    (hcontent : (ev.after.products.get id).map Product.content = some content) :
    LatestClaim calls (evs ++ [ev]) id moderator content :=
  ⟨evs, ev, [], rfl, hclaim, by simp, by simpa using hcontent⟩

/-- A claim stays the latest one as long as nobody claims the product again. -/
theorem LatestClaim.snoc {ev : Event Db Write T} {id : Uuid} {moderator : User} {content : Content}
    (h : LatestClaim calls evs id moderator content)
    (hclaim : ∀ user, ¬ Committed calls ev (.claimForModeration id user))
    (hcontent : (ev.after.products.get id).map Product.content = some content) :
    LatestClaim calls (evs ++ [ev]) id moderator content := by
  obtain ⟨pre, claim, post, rfl, hcommitted, hlatest, hkept⟩ := h
  refine ⟨pre, claim, post ++ [ev], by simp, hcommitted, ?_, ?_⟩
  · intro ev' hev' user
    cases List.mem_append.mp hev' with
    | inl hold => exact hlatest ev' hold user
    | inr hnew =>
        obtain rfl := List.mem_singleton.mp hnew
        exact hclaim user
  · intro ev' hev'
    rw [← List.cons_append] at hev'
    cases List.mem_append.mp hev' with
    | inl hold => exact hkept ev' hold
    | inr hnew =>
        obtain rfl := List.mem_singleton.mp hnew
        exact hcontent

/-- Whatever is being moderated is claimed by the moderator in its row, and as
it was when it was claimed. -/
def Assigned (calls : T → Call × Env) (evs : List (Event Db Write T)) (d : Db) : Prop :=
  ∀ id p, d.products.get id = some p → p.status = .moderationInProgress →
    ∃ moderator, LatestClaim calls evs id moderator p.content ∧ p.moderatorId = some moderator.id

/-- One event keeps the assignments. -/
theorem Assigned.snoc {ev : Event Db Write T} (h : Assigned calls evs ev.before)
    (hrouted : (calls ev.txn).1.Routed) (hev : Lawful (fun t => .request (calls t).1 (calls t).2)
      False ev) : Assigned calls (evs ++ [ev]) ev.after := by
  intro id p' hp' hstatus
  obtain ⟨_, _, hcommit⟩ := hev
  split at hcommit
  · next hnone =>
      rw [hcommit] at hp'
      obtain ⟨moderator, hlatest, hmoderator⟩ := h id p' hp' hstatus
      refine ⟨moderator, hlatest.snoc (fun user hc => ?_) ?_, hmoderator⟩
      · have hsome := hc.1
        rw [hnone] at hsome
        contradiction
      · rw [hcommit, hp']
        rfl
  · next ws hsome =>
      have hchange : Change (calls ev.txn).2 false ev.before (calls ev.txn).1 ev.after := hcommit
      have hcontent : (ev.after.products.get id).map Product.content = some p'.content := by
        rw [hp']
        rfl
      by_cases hclaim : ∃ user, Committed calls ev (.claimForModeration id user)
      · obtain ⟨user, hclaim⟩ := hclaim
        have hmove : (calls ev.txn).1.moderation = some ⟨.claim user.id, id, none, user, none⟩ := by
          rw [hclaim.2]
          rfl
        obtain ⟨_, x, _, _, hx, _, _, hmoderator⟩ := hchange.moved_row hmove
        obtain rfl : x = p' := Option.some.inj (hx.symm.trans hp')
        exact ⟨user, .now hclaim hcontent, hmoderator⟩
      · cases hp : ev.before.products.get id with
        | none =>
            have hdraft := (hchange.new_row hp hp').1
            rw [hstatus] at hdraft
            contradiction
        | some p =>
            obtain ⟨x, hx, hstep⟩ := hchange.row_step hp
            obtain rfl : x = p' := Option.some.inj (hx.symm.trans hp')
            have hid : p.id = id := Table.key_of_get hp
            have hother : ∀ user, (calls ev.txn).1 ≠ .claimForModeration p.id user := by
              intro user hcall
              exact hclaim ⟨user, by simp [hsome], hid ▸ hcall⟩
            obtain ⟨hwas, hsame, hmod⟩ := hstep.claimed hrouted hother hstatus
            obtain ⟨moderator, hlatest, hmoderator⟩ := h id p hp hwas
            refine ⟨moderator, ?_, hmod.trans hmoderator⟩
            rw [hsame] at hcontent ⊢
            exact hlatest.snoc (fun user hc => hclaim ⟨user, hc⟩) hcontent

variable [DecidableEq T] {s : World T}

theorem assigned_of_run (hrouted : ∀ t, (calls t).1.Routed)
    (hrun : Run store Anything (World.requests calls) evs s) : Assigned calls evs s.db := by
  induction hrun with
  | nil => intro id p hp; contradiction
  | @snoc evs s t fault c s' hrun hok hs ih =>
      obtain ⟨_, _, hlaw⟩ := World.tracks_any (hrun.snoc hok hs)
      exact ih.snoc (hrouted t) (hlaw ⟨t, c, s.db, s'.db⟩ (by simp))

/-- **Decisions are about claimed content** in every interleaving: whenever
somebody approves or rejects a product, its row shows who made the latest claim
of it, and its content has not changed since. -/
theorem decided_as_claimed (hrouted : ∀ t, (calls t).1.Routed)
    (hrun : Run store Anything (World.requests calls) evs s) : DecidedAsClaimed calls evs := by
  intro pre ev post hsplit id user hdecides
  obtain ⟨s₁, hbefore, hdb⟩ := hrun.before_event hsplit
  have hassigned := assigned_of_run hrouted hbefore
  obtain ⟨_, _, hlaw⟩ := World.tracks_any hrun
  obtain ⟨_, _, hcommit⟩ := hlaw ev (by simp [hsplit])
  obtain ⟨m, hm, hid, hallowed⟩ : ∃ m, (calls ev.txn).1.moderation = some m ∧ m.productId = id ∧
      m.move.allowed = Move.approve.allowed := by
    obtain ⟨_, hcall⟩ | ⟨reason, _, hcall⟩ := hdecides
    · exact ⟨_, by rw [hcall]; rfl, rfl, rfl⟩
    · exact ⟨_, by rw [hcall]; rfl, rfl, rfl⟩
  have hsome : ev.commit.isSome := by
    obtain ⟨hsome, _⟩ | ⟨_, hsome, _⟩ := hdecides <;> exact hsome
  obtain ⟨ws, hws⟩ := Option.isSome_iff_exists.mp hsome
  rw [hws] at hcommit
  obtain ⟨p, p', hp, hstatus, hp', hcontent, _⟩ := Change.moved_row hcommit hm
  rw [hid] at hp hp'
  have hmoderated : p.status = .moderationInProgress := by
    rw [hallowed] at hstatus
    exact of_decide_eq_true hstatus
  obtain ⟨moderator, hlatest, hmoderator⟩ := hassigned id p (hdb ▸ hp) hmoderated
  refine ⟨moderator, p, hp, hmoderator, hlatest, ?_⟩
  rw [hp', ← hcontent]
  rfl

end

/-! ## A second pair of eyes -/

def colleague : User := ⟨4, .admin, true⟩

/-- A moderator claims the lamp, and then something else happens to it. -/
def afterClaim (c : Call) : Fin 4 → Call × Env
  | 0 => (.createProduct seller.id lamp seller, shopEnv 0 0)
  | 1 => (.submitForModeration 0 seller, shopEnv 1 0)
  | 2 => (.claimForModeration 0 moderator, shopEnv 2 0)
  | 3 => (c, shopEnv 3 0)

/-- One after the other, each to its end. -/
def inTurn : List (Fin 4 × Bool) := turns [(0, 6), (1, 6), (2, 6), (3, 6)]

theorem afterClaim_routed {c : Call} (hc : c.Routed) (t : Fin 4) : (afterClaim c t).1.Routed := by
  match t with
  | 0 | 1 | 2 => trivial
  | 3 => exact hc

/-- The approval of a colleague is committed. -/
theorem colleague_approves : ∃ evs s,
    Run store Anything (World.requests (afterClaim (.approveProduct 0 colleague))) evs s ∧
      ∃ ev ∈ evs, Decides (afterClaim (.approveProduct 0 colleague)) ev 0 colleague := by
  have hexec : ((World.requests (afterClaim (.approveProduct 0 colleague))).exec store
      (fun _ _ => true) inTurn).any
        (fun x => x.1.any fun ev => decide (ev.txn = 3) && ev.commit.isSome) := by decide +kernel
  obtain ⟨evs, s, hrun, hend⟩ := Run.of_exec_any (fun _ _ _ => trivial) hexec
  obtain ⟨ev, hev, hlast⟩ := List.any_eq_true.mp hend
  obtain ⟨htxn, hcommit⟩ := Bool.and_eq_true_iff.mp hlast
  refine ⟨evs, s, hrun, ev, hev, .inl ⟨hcommit, ?_⟩⟩
  rw [of_decide_eq_true htxn]
  rfl

theorem decided_as_claimed_colleague : ∃ evs s,
    Run store Anything (World.requests (afterClaim (.approveProduct 0 colleague))) evs s ∧
    (∃ ev ∈ evs, Decides (afterClaim (.approveProduct 0 colleague)) ev 0 colleague) ∧
    DecidedAsClaimed (afterClaim (.approveProduct 0 colleague)) evs := by
  obtain ⟨evs, s, hrun, hdecides⟩ := colleague_approves
  exact ⟨evs, s, hrun, hdecides, decided_as_claimed (afterClaim_routed trivial) hrun⟩

/-- What one moderator has claimed another one decides. -/
theorem not_decided_by_claimer : ∃ evs s,
    (∀ t, (afterClaim (.approveProduct 0 colleague) t).1.Routed) ∧
    Run store Anything (World.requests (afterClaim (.approveProduct 0 colleague))) evs s ∧
    ¬ DecidedByClaimer (afterClaim (.approveProduct 0 colleague)) evs := by
  obtain ⟨evs, s, hrun, ev, hev, hdecides⟩ := colleague_approves
  refine ⟨evs, s, afterClaim_routed trivial, hrun, fun h => ?_⟩
  obtain ⟨pre, post, hsplit⟩ := List.append_of_mem hev
  obtain ⟨p, _, _, claim, _, _, ⟨_, hcall⟩, _⟩ := h pre ev post hsplit 0 colleague hdecides
  -- the colleague has claimed nothing
  have hnever : ∀ t, (afterClaim (.approveProduct 0 colleague) t).1 ≠
      .claimForModeration 0 colleague := by
    intro t ht
    match t with
    | 0 | 1 | 3 => contradiction
    | 2 => exact absurd (Call.claimForModeration.inj ht).2 (by decide)
  exact hnever claim.txn hcall

/-! ## Bookkeeping -/

section
variable {T : Type} [DecidableEq T] {calls : T → Call × Env} {evs : List (Event Db Write T)}
  {s : World T}

/-- **The books are kept** in every run whose direct changes of status, when they
are committed, leave claimed products alone. -/
theorem bookkept_of_spares (hrun : Run store Anything (World.requests calls) evs s)
    (hspares : ∀ ev ∈ evs, ev.commit.isSome → (calls ev.txn).1.SparesClaims ev.before) :
    Bookkept s.db ∧ ∀ ev ∈ evs, Bookkept ev.after := by
  induction hrun with
  | nil => exact ⟨by simp [Bookkept, World.requests, World.start, Sys.start, Db.empty], by simp⟩
  | @snoc evs s t fault c s' hrun hok hs ih =>
      obtain ⟨hbook, hevs⟩ := ih fun ev hev => hspares ev (by simp [hev])
      obtain ⟨_, _, hlaw⟩ := World.tracks_any (hrun.snoc hok hs)
      have hnew : Bookkept s'.db := by
        obtain ⟨_, _, hcommit⟩ := hlaw ⟨t, c, s.db, s'.db⟩ (by simp)
        cases c with
        | none =>
            rw [show s'.db = s.db from hcommit]
            exact hbook
        | some ws =>
            have hchange : Change (calls t).2 false s.db (calls t).1 s'.db := hcommit
            have hspare : (calls t).1.SparesClaims s.db :=
              hspares ⟨t, some ws, s.db, s'.db⟩ (by simp) rfl
            intro p' hp'
            have hget' : s'.db.products.get p'.id = some p' := Table.get_of_mem hp'
            cases hp : s.db.products.get p'.id with
            | none =>
                obtain ⟨hstatus, hmoderator⟩ := hchange.new_row hp hget'
                simp [hstatus, hmoderator]
            | some p =>
                obtain ⟨x, hx, hstep⟩ := hchange.row_step hp
                obtain rfl : x = p' := Option.some.inj (hx.symm.trans hget')
                apply hstep.bookkept _ (hbook p (Table.mem_of_get hp))
                intro id status user hcall hid
                rw [hcall] at hspare
                exact hspare p (Table.mem_of_get hp) hid
      refine ⟨hnew, fun ev hev => ?_⟩
      cases List.mem_append.mp hev with
      | inl hold => exact hevs ev hold
      | inr hlast =>
          obtain rfl := List.mem_singleton.mp hlast
          exact hnew

end

/-- A moderator claims one lamp, and a colleague activates the other one. -/
def besidesClaim : Fin 5 → Call × Env
  | 0 => (.createProduct seller.id lamp seller, shopEnv 0 0)
  | 1 => (.submitForModeration 0 seller, shopEnv 1 0)
  | 2 => (.claimForModeration 0 moderator, shopEnv 2 0)
  | 3 => (.createProduct seller.id lamp seller, shopEnv 3 1)
  | 4 => (.changeStatus 1 .active colleague, shopEnv 4 0)

/-- The activation is committed, and the first lamp stays with its moderator. -/
theorem bookkept_of_spares_colleague : ∃ evs s,
    Run store Anything (World.requests besidesClaim) evs s ∧
    (∃ ev ∈ evs, ev.txn = 4 ∧ ev.commit.isSome) ∧
    (s.db.products.get 0).bind Product.moderatorId = some moderator.id ∧
    (s.db.products.get 1).map Product.status = some .active ∧
    Bookkept s.db ∧ ∀ ev ∈ evs, Bookkept ev.after := by
  have hexec : ((World.requests besidesClaim).exec store (fun _ _ => true)
      (turns [(0, 6), (1, 6), (2, 6), (3, 6), (4, 6)])).any (fun x =>
        ((decide (∀ ev ∈ x.1, (besidesClaim ev.txn).1.SparesClaims ev.before) &&
          decide (∃ ev ∈ x.1, ev.txn = 4 ∧ ev.commit.isSome)) &&
          decide ((x.2.db.products.get 0).bind Product.moderatorId = some moderator.id)) &&
          decide ((x.2.db.products.get 1).map Product.status = some .active)) := by decide +kernel
  obtain ⟨evs, s, hrun, hend⟩ := Run.of_exec_any (fun _ _ _ => trivial) hexec
  simp only [Bool.and_eq_true, decide_eq_true_eq] at hend
  obtain ⟨⟨⟨hspares, hactivated⟩, hclaimed⟩, hactive⟩ := hend
  exact ⟨evs, s, hrun, hactivated, hclaimed, hactive,
    bookkept_of_spares hrun fun ev hev _ => hspares ev hev⟩

/-- An activated product still names the moderator who had claimed it. -/
theorem not_bookkept : ∃ evs s,
    (∀ t, (afterClaim (.changeStatus 0 .active colleague) t).1.Routed) ∧
    Run store Anything (World.requests (afterClaim (.changeStatus 0 .active colleague))) evs s ∧
    ¬ Bookkept s.db := by
  have hexec : ((World.requests (afterClaim (.changeStatus 0 .active colleague))).exec store
      (fun _ _ => true) inTurn).any (fun x => !decide (Bookkept x.2.db)) := by decide +kernel
  obtain ⟨evs, s, hrun, hend⟩ := Run.of_exec_any (fun _ _ _ => trivial) hexec
  refine ⟨evs, s, afterClaim_routed rfl, hrun, ?_⟩
  simpa using hend

end FairDrop
