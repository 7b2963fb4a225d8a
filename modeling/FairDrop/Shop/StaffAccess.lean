import FairDrop.Lifecycle
import FairDrop.Shop.Routes

/-!
# FairDrop.Shop.StaffAccess

Members of the staff may see the orders of others (`check_ownership`), and the
log is to say so.  `get_order_for_details` writes it down; payments and
cancellations answer with the same response and write nothing of the kind, and
a replay does not even get there.
-/

namespace FairDrop

open RowStore

/-- The log has an entry on the access of the user to the order. -/
def Accessed (d : Db) (userId orderId : Uuid) : Prop :=
  ∃ e ∈ d.auditLogs, e.action = "pii_access" ∧ e.targetType = "order" ∧ e.targetId = orderId ∧
    e.actorId = userId

instance (d : Db) (userId orderId : Uuid) : Decidable (Accessed d userId orderId) := by
  unfold Accessed
  infer_instance

/-! ## Logs and orders stay -/

/-- The log of `d` is the beginning of that of `d'`, and the orders of `d` are
still there. -/
structure Keeps (d d' : Db) : Prop where
  logs : d.auditLogs <+: d'.auditLogs
  order : ∀ id o, d.orders.get id = some o → ∃ o', d'.orders.get id = some o' ∧ o.Step o'

theorem Keeps.refl (d : Db) : Keeps d d := ⟨List.prefix_rfl, fun _ o ho => ⟨o, ho, .refl o⟩⟩

theorem Keeps.trans {d₁ d₂ d₃ : Db} (h₁ : Keeps d₁ d₂) (h₂ : Keeps d₂ d₃) : Keeps d₁ d₃ where
  logs := h₁.logs.trans h₂.logs
  order id o ho := by
    obtain ⟨o₂, ho₂, hstep⟩ := h₁.order id o ho
    obtain ⟨o₃, ho₃, hstep'⟩ := h₂.order id o₂ ho₂
    exact ⟨o₃, ho₃, hstep.trans hstep'⟩

/-- An access once logged stays logged. -/
theorem Accessed.keep {d d' : Db} {userId orderId : Uuid} (h : Accessed d userId orderId)
    (hkeeps : Keeps d d') : Accessed d' userId orderId := by
  obtain ⟨e, he, hentry⟩ := h
  exact ⟨e, hkeeps.logs.subset he, hentry⟩

section
variable {env : Env} {alone : Bool} {c : Call} {d d' : Db}

/-- Every change keeps the accesses logged. -/
theorem Change.keeps (h : Coupled d) (hc : Change env alone d c d') : Keeps d d' := by
  refine ⟨?_, fun id o ho => hc.order_step h ho⟩
  cases hc with
  | reserveItems | releaseReservation => exact List.prefix_rfl
  | _ => exact List.prefix_append _ _

theorem ShopActor.Commits.keeps {a : ShopActor} {d d' : ShopDb} (h : Coupled d.db)
    (hc : a.Commits d d') : Keeps d.db d'.db := by
  cases hc with
  | @shop actor _ x hc =>
      cases actor with
      | request c env => exact Change.keeps h hc
      | sweep env expireOnCommit scan =>
          obtain ⟨id, hrelease⟩ := hc
          refine ⟨?_, fun id o ho => hrelease.order_step h ho⟩
          cases hrelease
          exact List.prefix_rfl
  | createUploadUrl => exact .refl _
  | deleteProduct => exact ⟨List.prefix_rfl, fun id o ho => ⟨o, ho, .refl o⟩⟩
  | orderDetails => exact ⟨List.prefix_append _ _, fun id o ho => ⟨o, ho, .refl o⟩⟩

theorem accessed_of_view {id : Uuid} {user : User} {d d' : ShopDb}
    (hc : (ShopActor.orderDetails id user env).Commits d d') : Accessed d'.db user.id id := by
  cases hc with
  | orderDetails =>
      exact ⟨detailsEntry id user env, List.mem_append_right _ (List.mem_singleton_self _), rfl, rfl,
        rfl, rfl⟩

end

/-! ## What the services return -/

section
variable {P : Db → Prop} {env : Env} {id : Uuid} {user : User}

/-- The order is one that has been read. -/
def ReadOrder (P : Db → Prop) (id : Uuid) (o : OrderObj) : Prop :=
  o.id = id ∧ ∃ d row, P d ∧ d.orders.get id = some row ∧ row.userId = o.userId

theorem ends_getOrderForUpdate : ends store P (getOrderForUpdate id user)
    (Succeeds fun o => ∃ d, P d ∧ d.orders.get id = some o) := by
  have hselect : ends store P (selectOrderForUpdate id)
      (Succeeds fun x => ∃ d, P d ∧ d.orders.get id = x) :=
    ends_then ends_selectForUpdate fun d hd => ends_pure ⟨d, hd, rfl⟩
  refine ends_then hselect fun x hx => ?_
  cases x with
  | none => exact ends_throw _
  | some o =>
      show ends store P (Prog.ofExcept (checkOwnership user o.owned) >>= fun _ => pure o) _
      exact ends_next fun _ => ends_pure hx

/-- A settled order is one that was read. -/
theorem ends_settleOrder (status : OrderStatus) (action : String) (settle : Tx Unit) :
    ends store P (settleOrder env id user status action settle) (Succeeds (ReadOrder P id)) := by
  refine ends_then ends_getOrderForUpdate fun o ho => ?_
  obtain ⟨d, hd, hget⟩ := ho
  refine ends_next fun _ => ends_next fun items => ends_next fun _ => ends_next fun _ =>
    ends_next fun _ => ends_next fun _ => ends_pure ?_
  exact ⟨Table.key_of_get hget, d, o, hd, hget, rfl⟩

/-- A payment or a cancellation returns the order of the path. -/
theorem ends_settling (P : Db → Prop) {c : Call}
    (hc : c = .confirmOrderPayment id user ∨ c = .cancelOrder id user) :
    ends shopStore (fun d => P d.db) (ShopActor.shop (.request c env)).program
      (Succeeds fun r => ∃ o, r = .shop (.order o) ∧ ReadOrder P id o) := by
  have hservice : ends store P (c.program env) (Succeeds fun r => ∃ o, r = .order o ∧
      ReadOrder P id o) := by
    apply ends_inSession
    cases hc with
    | inl hpay =>
        subst hpay
        exact ends_map (ends_weaken (fun o ho => ⟨o, rfl, ho⟩) (ends_settleOrder _ _ _))
    | inr hcancel =>
        subst hcancel
        exact ends_map (ends_weaken (fun o ho => ⟨o, rfl, ho⟩) (ends_settleOrder _ _ _))
  refine ends_map (ends_weaken ?_ (shopPart.ends_run hservice))
  rintro r ⟨o, rfl, ho⟩
  exact ⟨o, rfl, ho⟩

end

/-! ## Runs -/

section
variable {T : Type} [DecidableEq T] {actors : T → ShopActor} {ok : ShopWorld T → T → Prop}
  {s : ShopWorld T} {evs : List (Event ShopDb ShopWrite T)} {t : T} {id : Uuid} {user : User}
  {env : Env}

/-- From every event to the end of a run the accesses logged are kept. -/
theorem keeps_of_run (hrun : Run shopStore ok (ShopWorld.start actors) evs s) :
    ∀ ev ∈ evs, Keeps ev.before.db s.db.db ∧ Keeps ev.after.db s.db.db := by
  have hevs := (ShopWorld.tracks hrun).2.2
  refine hrun.since (r := fun d d' => Keeps d.db d'.db) (fun d => .refl d.db)
    (fun a b c => Keeps.trans) fun ev hev => ?_
  obtain ⟨hcoupled, hlaw⟩ := hevs ev hev
  split at hlaw
  · rw [hlaw]
    exact .refl _
  · exact ShopActor.Commits.keeps hcoupled hlaw

/-- A payment or a cancellation that succeeds returns a stored order. -/
theorem order_of_ended {c : Call} (hrun : Run shopStore ok (ShopWorld.start actors) evs s)
    (hactor : actors t = .shop (.request c env))
    (hc : c = .confirmOrderPayment id user ∨ c = .cancelOrder id user) {r : ShopResponse}
    (hended : s.ended t = some (.ok r)) : ∃ o, r = .shop (.order o) ∧ o.id = id ∧
      ∃ row, s.db.db.orders.get id = some row ∧ row.userId = o.userId := by
  have hends : ends shopStore (fun d => Keeps d.db s.db.db) (actors t).program
      (Succeeds fun r => ∃ o, r = .shop (.order o) ∧
        ReadOrder (fun d => Keeps d s.db.db) id o) := by
    rw [hactor]
    exact ends_settling (fun d => Keeps d s.db.db) hc
  have hrest := Run.ends hends hrun fun ev hev _ _ _ _ _ => (keeps_of_run hrun ev hev).1
  obtain ⟨o, ho, hid, d, row, hkeeps, hget, huser⟩ := succeeds_ok.mp (Sys.ended_of_ends hrest hended)
  obtain ⟨row', hrow', hstep⟩ := hkeeps.order id row hget
  exact ⟨o, ho, hid, row', hrow', hstep.userId.trans huser⟩

/-- A view that succeeds is logged, if it has to be. -/
theorem accessed_of_ended (hrun : Run shopStore ok (ShopWorld.start actors) evs s)
    (hactor : actors t = .orderDetails id user env) {r : ShopResponse}
    (hended : s.ended t = some (.ok r)) : ∃ o, r = .details o ∧ o.id = id ∧
      (user.inspects o → Accessed s.db.db user.id id) := by
  obtain ⟨htracks, _, hevs⟩ := ShopWorld.tracks hrun
  obtain ⟨p, hp, hcommits⟩ := htracks t
  have hend : (actors t).Ends (.ok r) p := hp.ended hended
  rw [hactor] at hend
  obtain ⟨o, ho, hid, hone⟩ := hend r rfl
  refine ⟨o, ho, hid, fun hinspects => ?_⟩
  have hpos : 0 < commitsOf t evs := by rw [← hcommits, hone hinspects]; decide
  obtain ⟨ev, hev, rfl, hcommit⟩ := exists_of_commitsOf hpos
  obtain ⟨_, hlaw⟩ := hevs ev hev
  obtain ⟨ws, hws⟩ := Option.isSome_iff_exists.mp hcommit
  rw [hws, hactor] at hlaw
  exact (accessed_of_view hlaw).keep (keeps_of_run hrun ev hev).2

end

/-! ## The server -/

section
variable {parse : String → Option Uuid} {T J : Type} [DecidableEq T]

/-- The body of the answer to `t` shows the order `x`: its id and its user. -/
def Shows (shows : J → Option (Uuid × Uuid)) (send : ShopApiResponse → J)
    (s : Server T (ShopWorld T) ShopApiResponse ApiError J) (t : T) (x : Uuid × Uuid) : Prop :=
  ∃ answer body, s.stage t = .answered answer ∧ answer.body send = some body ∧ shows body = some x

/-- If the order is not the user's own, the log has the access of the user. -/
def LoggedFor (d : Db) (user : User) (x : Uuid × Uuid) : Prop :=
  x.2 ≠ user.id → Accessed d user.id x.1

instance (d : Db) (user : User) (x : Uuid × Uuid) : Decidable (LoggedFor d user x) :=
  inferInstanceAs (Decidable (_ → _))

/-- Whoever of the staff has been shown the order of somebody else is in the log
for it. -/
def AccessLogged (clients : T → ShopClient parse) (shows : J → Option (Uuid × Uuid))
    (send : ShopApiResponse → J) (s : Server T (ShopWorld T) ShopApiResponse ApiError J) : Prop :=
  ∀ t id user, (clients t).orderRequest = some (id, user) → user.isStaff →
    ∀ x, Shows shows send s t x → LoggedFor s.app.db.db user x

/-- What `t` is about to be answered with, from the cache or by the handler of
the endpoint, is logged for the user: the cached order, or the one of the path. -/
def AnswerLogged (shows : J → Option (Uuid × Uuid))
    (f : Decorated T Bool (ShopWorld T) ShopApiResponse ApiError J)
    (s : Server T (ShopWorld T) ShopApiResponse ApiError J) (t : T) (q : Uuid × User) : Prop :=
  match s.stage t with
  | .arrived => ∀ x ∈ ((f.redisKey t).bind s.redis).bind shows, LoggedFor s.app.db.db q.2 x
  | .executed _ _ => ∀ o ∈ s.app.db.db.orders.get q.1, LoggedFor s.app.db.db q.2 (q.1, o.userId)
  | _ => True

instance (shows : J → Option (Uuid × Uuid))
    (f : Decorated T Bool (ShopWorld T) ShopApiResponse ApiError J)
    (s : Server T (ShopWorld T) ShopApiResponse ApiError J) (t : T) (q : Uuid × User) :
    Decidable (AnswerLogged shows f s t q) := by
  unfold AnswerLogged
  split <;> infer_instance

/-- Before a payment or a cancellation by the staff is answered, the order is the
user's own, or the log has an entry on it. -/
def AnswersLogged (clients : T → ShopClient parse) (shows : J → Option (Uuid × Uuid))
    (f : Decorated T Bool (ShopWorld T) ShopApiResponse ApiError J)
    (s : Server T (ShopWorld T) ShopApiResponse ApiError J) : Server.Move T Bool → Prop
  | .advance t => ∀ q ∈ (clients t).orderRequest, q.2.isStaff → AnswerLogged shows f s t q
  | .work _ _ | .expire _ => True

instance (clients : T → ShopClient parse) (shows : J → Option (Uuid × Uuid))
    (f : Decorated T Bool (ShopWorld T) ShopApiResponse ApiError J)
    (s : Server T (ShopWorld T) ShopApiResponse ApiError J) (m : Server.Move T Bool) :
    Decidable (AnswersLogged clients shows f s m) := by
  unfold AnswersLogged
  split <;> infer_instance

variable {clients : T → ShopClient parse} {shows : J → Option (Uuid × Uuid)}
  {dump send : ShopApiResponse → J} {s s' : Server T (ShopWorld T) ShopApiResponse ApiError J}

/-- What holds in every state of the server. -/
structure Served (clients : T → ShopClient parse) (shows : J → Option (Uuid × Uuid))
    (dump send : ShopApiResponse → J) (s : Server T (ShopWorld T) ShopApiResponse ApiError J) :
    Prop where
  run : ∃ evs, Run shopStore Anything (ShopWorld.start fun t => (clients t).actor) evs s.app
  backed : Backed (shopApi clients dump send) (SameKey (shopApi clients dump send)) s
  logged : AccessLogged clients shows send s

/-- The endpoint without the decorator. -/
theorem ShopClient.direct_of_request {c : ShopClient parse} {id : Uuid} {user : User}
    (hrequest : c.orderRequest = some (id, user)) (hbypass : c.httpRequest = none) :
    ∃ env, c = .direct (.orderDetails id user env) := by
  unfold orderRequest at hrequest
  split at hrequest
  · contradiction
  · contradiction
  · contradiction
  · contradiction
  · contradiction
  · next env =>
      cases hrequest
      exact ⟨env, rfl⟩
  · contradiction
  · contradiction
  · contradiction

/-- The endpoints with it. -/
theorem ShopClient.settling_of_request {c : ShopClient parse} {id : Uuid} {user : User}
    (hrequest : c.orderRequest = some (id, user)) (hkeyed : c.httpRequest ≠ none) :
    ∃ call env, c.actor = .shop (.request call env) ∧
      (call = .confirmOrderPayment id user ∨ call = .cancelOrder id user) := by
  unfold orderRequest at hrequest
  split at hrequest
  · next env limit =>
      cases hrequest
      exact ⟨_, env, rfl, .inl rfl⟩
  · next env limit =>
      cases hrequest
      exact ⟨_, env, rfl, .inr rfl⟩
  · contradiction
  · contradiction
  · contradiction
  · exact absurd rfl hkeyed
  · contradiction
  · contradiction
  · contradiction

/-- An answer that is given now shows an order that is logged. -/
theorem Served.answers {t : T} (h : Served clients shows dump send s)
    (hsend : ∀ r, shows (send r) = r.order)
    (hok : AnswersLogged clients shows (shopApi clients dump send) s (.advance t)) {id : Uuid}
    {user : User} (hrequest : (clients t).orderRequest = some (id, user)) (hstaff : user.isStaff)
    {answer : Answer ShopApiResponse ApiError J} {body : J} {x : Uuid × Uuid}
    (hs : (shopApi clients dump send).Answers s t answer) (hbody : answer.body send = some body)
    (hx : shows body = some x) : LoggedFor s.app.db.db user x := by
  have hrule := hok (id, user) hrequest hstaff
  obtain ⟨evs, hrun⟩ := h.run
  unfold AnswerLogged at hrule
  cases hs with
  | refuse | fail => contradiction
  | @replay key body' harrived hkey hcached =>
      obtain rfl := Option.some.inj hbody
      rw [harrived] at hrule
      refine hrule x ?_
      rw [hkey, Option.bind_some, hcached]
      exact hx
  | @complete response hrunning hresult =>
      obtain rfl := Option.some.inj hbody
      obtain ⟨env, hclient⟩ := ShopClient.direct_of_request hrequest
        (h.backed.bypassed t (.inl hrunning))
      obtain ⟨r, hended, rfl⟩ := ended_of_shopApi hresult
      have hactor : (clients t).actor = .orderDetails id user env := by
        rw [hclient]
        rfl
      obtain ⟨o, rfl, rfl, hlogged⟩ := accessed_of_ended hrun hactor hended
      rw [hsend] at hx
      obtain rfl := Option.some.inj hx
      intro hother
      refine hlogged ?_
      simp only [User.inspects, decide_eq_true_eq]
      exact ⟨Ne.symm hother, hstaff⟩
  | @store key response hexecuted =>
      obtain rfl := Option.some.inj hbody
      rw [hexecuted] at hrule
      have hkey := h.backed.keyed t key (.inr ⟨response, hexecuted⟩)
      have hkeyed : (clients t).httpRequest ≠ none := by
        intro hnone
        simp [Decorated.redisKey, shopApi, hnone] at hkey
      obtain ⟨c, env, hactor, hc⟩ := ShopClient.settling_of_request hrequest hkeyed
      have hresult := h.backed.produced t response (by rw [hexecuted]; rfl)
      obtain ⟨r, hended, rfl⟩ := ended_of_shopApi hresult
      obtain ⟨o, rfl, rfl, row, hrow, huser⟩ := order_of_ended hrun hactor hc hended
      rw [hsend] at hx
      obtain rfl := Option.some.inj hx
      exact huser ▸ hrule row hrow

theorem Served.advance {t : T} (h : Served clients shows dump send s)
    (hsend : ∀ r, shows (send r) = r.order)
    (hok : AnswersLogged clients shows (shopApi clients dump send) s (.advance t))
    (hs : (shopApi clients dump send).Advance s t s') : AccessLogged clients shows send s' := by
  intro u id user hrequest hstaff x hshows
  obtain ⟨answer, body, hanswer, hbody, hx⟩ := hshows
  rw [hs.app]
  cases hs.answers hanswer with
  | inl hold => exact h.logged u id user hrequest hstaff x ⟨answer, body, hold, hbody, hx⟩
  | inr hnow =>
      obtain ⟨rfl, hanswers⟩ := hnow
      exact h.answers hsend hok hrequest hstaff hanswers hbody hx

/-- A step of a handler: the log grows. -/
theorem Served.work {t : T} {fault : Bool} (h : Served clients shows dump send s)
    (hs : (shopApi clients dump send).step s (.work t fault) = some s') :
    (∃ evs, Run shopStore Anything (ShopWorld.start fun t => (clients t).actor) evs s'.app) ∧
      AccessLogged clients shows send s' := by
  obtain ⟨c, world, hstep, rfl⟩ := step_of_shopApi hs
  obtain ⟨evs, hrun⟩ := h.run
  have hnext := hrun.snoc trivial hstep
  refine ⟨⟨_, hnext⟩, fun u id user hrequest hstaff x hshows hother => ?_⟩
  have hkeeps := (keeps_of_run hnext ⟨t, c, s.app.db, world.db⟩ (by simp)).1
  exact (h.logged u id user hrequest hstaff x hshows hother).keep hkeeps

/-- **Every access of the staff to an order is logged** in every run in which the
orders that it pays, cancels or is replayed are its own or logged before. -/
theorem access_logged (hsend : ∀ r, shows (send r) = r.order)
    (h : (shopApi clients dump send).Reaches
      (AnswersLogged clients shows (shopApi clients dump send)) (shopApiStart clients) s) :
    AccessLogged clients shows send s := by
  have hserved : Served clients shows dump send s := by
    induction h with
    | refl =>
        refine ⟨⟨[], .nil⟩, backed_start, ?_⟩
        rintro t id user _ _ x ⟨answer, body, hanswer, _⟩
        cases hanswer
    | tail _ hstep ih =>
        obtain ⟨m, hok, hs⟩ := hstep
        have hbacked := ih.backed.step (looksUpOwn_sameKey m) hs
        cases m with
        | advance t =>
            have hadvance := Decorated.advance_of_step hs
            exact ⟨hadvance.app ▸ ih.run, hbacked, ih.advance hsend hok hadvance⟩
        | work t fault =>
            obtain ⟨hrun, hlogged⟩ := ih.work hs
            exact ⟨hrun, hbacked, hlogged⟩
        | expire key =>
            obtain rfl := Option.some.inj hs
            exact ⟨ih.run, hbacked, ih.logged⟩
  exact hserved.logged

end

/-! ## A moderator cancels an order -/

/-- A buyer has ordered two lamps; a moderator looks at the order, and cancels it
twice under one key. -/
def deskClients : Fin 6 → ShopClient fun _ => some 0
  | 0 => .direct (.shop (.request (.createProduct seller.id lamp seller) (shopEnv 0 0)))
  | 1 => .direct (.shop (.request (.reserveItems buyer.id "a" ⟨0, two⟩) (shopEnv 1 0)))
  | 2 => .direct (.shop (.request (.createOrder buyer ⟨0, none⟩) (shopEnv 2 0)))
  | 3 => .direct (.orderDetails 0 moderator (shopEnv 3 0))
  | 4 | 5 => .client (.request ⟨.cancelOrder ⟨"0", 0, rfl⟩, moderator, "key", shopEnv 4 0, 1⟩)

def deskApi : Decorated (Fin 6) Bool (ShopWorld (Fin 6)) ShopApiResponse ApiError ShopApiResponse :=
  shopApi deskClients id id

/-- Requests that arrive, take some steps, and may go on, one after the other. -/
def visits (l : List (Fin 6 × Nat × Nat)) : List (Server.Move (Fin 6) Bool) :=
  l.flatMap fun x => .advance x.1 :: List.replicate x.2.1 (.work x.1 false) ++
    List.replicate x.2.2 (.advance x.1)

/-- The moderator has looked at the order before. -/
theorem access_logged_viewed : ∃ s,
    deskApi.Reaches (AnswersLogged deskClients ShopApiResponse.order deskApi)
      (shopApiStart deskClients) s ∧
    (s.stage 4).response.isSome ∧ (s.stage 5).replayed.isSome ∧
      AccessLogged deskClients ShopApiResponse.order id s := by
  have hexec : (deskApi.exec
      (fun s m => decide (AnswersLogged deskClients ShopApiResponse.order deskApi s m))
      (shopApiStart deskClients) (visits [(0, 6, 1), (1, 6, 1), (2, 9, 1), (3, 4, 1), (4, 10, 2),
        (5, 0, 0)])).any
      (fun s => (s.stage 4).response.isSome && (s.stage 5).replayed.isSome) := by decide +kernel
  obtain ⟨s, hs, hend⟩ := (Option.any_eq_true _ _).mp hexec
  obtain ⟨hfirst, hsecond⟩ := Bool.and_eq_true_iff.mp hend
  have hreaches := Decorated.Reaches.of_exec (fun s m hok => of_decide_eq_true hok) hs
  exact ⟨s, hreaches, hfirst, hsecond, access_logged (fun _ => rfl) hreaches⟩

/-- The moderator cancels the order without a look: the response shows it. -/
theorem not_access_logged : ∃ s,
    deskApi.Reaches (fun _ _ => True) (shopApiStart deskClients) s ∧
      ¬ AccessLogged deskClients ShopApiResponse.order id s := by
  have hexec : (deskApi.exec (fun _ _ => true) (shopApiStart deskClients)
      (visits [(0, 6, 1), (1, 6, 1), (2, 9, 1), (4, 10, 2)])).any (fun s =>
        decide ((s.stage 4).response.bind ShopApiResponse.order = some (0, buyer.id) ∧
          (s.stage 4).stored ∧ ¬ Accessed s.app.db.db moderator.id 0)) := by decide +kernel
  obtain ⟨s, hs, hend⟩ := (Option.any_eq_true _ _).mp hexec
  obtain ⟨horder, hstored, hnot⟩ := of_decide_eq_true hend
  refine ⟨s, Decorated.Reaches.of_exec (fun _ _ _ => trivial) hs, fun hlogged => hnot ?_⟩
  obtain ⟨response, hfresh⟩ := Stage.stored_iff.mp hstored
  rw [hfresh] at horder
  exact hlogged 4 0 moderator rfl rfl (0, buyer.id) ⟨_, response, hfresh, rfl, horder⟩ (by decide)

end FairDrop
