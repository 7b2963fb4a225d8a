import FairDrop.Refusals
import FairDrop.Replays
import FairDrop.RowStore.Answers

/-!
# FairDrop.ReservedOnce

A reservation that is requested again and again under one key.  The decorator
lets requests overlap and forgets its responses after a time, so the handler may
run often; the unique key of the table lets one of its executions succeed.  What
the clients see is that execution, wherever their answers come from.
-/

namespace FairDrop

open RowStore

/-! ## One execution -/

theorem ends_refreshReservation {P : Db → Prop} (id : Uuid) :
    ends store P (refreshReservation id)
      (Succeeds fun r => ∃ d, P d ∧ d.reservations.get id = some r) := by
  refine ends_then ends_select fun d hd => ?_
  cases hget : d.reservations.get id with
  | none => exact ends_throw _
  | some r => exact ends_pure ⟨d, hd, hget⟩

/-- An execution reports a row of the database. -/
theorem ends_reserveItems {P : Db → Prop} (env : Env) (userId : Uuid) (key : String)
    (data : ReservationCreate) :
    ends store P (Call.program env (.reserveItems userId key data)) (Succeeds fun x =>
      ∃ r, x = .reservation r ∧ ∃ d, P d ∧ d.reservations.get (env.uuid 0) = some r) := by
  apply ends_inSession
  apply ends_map
  refine ends_next fun product => ?_
  refine ends_next fun product => ?_
  refine ends_next fun _ => ?_
  refine ends_next fun _ => ?_
  refine ends_next fun _ => ?_
  apply ends_tryCatch
  refine ends_mono (fun r hr => ?_) (ends_next fun _ => ends_refreshReservation (P := P) (env.uuid 0))
  cases r with
  | ok r => exact succeeds_ok.mpr ⟨r, rfl, hr r rfl⟩
  | error e =>
      cases e with
      | integrityError => exact ends_next fun _ => ends_throw _
      | _ => exact ends_throw _

/-! ## Runs -/

section
variable {T : Type} [DecidableEq T] {actors : T → Actor} {ok : World T → T → Prop} {s : World T}
  {evs : List (Event Db Write T)} {env env' : Env} {userId userId' : Uuid} {key : String}
  {data data' : ReservationCreate} {t u : T}

/-- Somebody has reserved under this key. -/
def Db.keyTaken (d : Db) (key : String) : Bool :=
  d.reservations.rows.any (·.idempotencyKey = key)

theorem keyTaken_iff {d : Db} :
    d.keyTaken key ↔ ∃ r ∈ d.reservations.rows, r.idempotencyKey = key := by
  simp [Db.keyTaken]

theorem Change.takes_key {alone : Bool} {d d' : Db}
    (h : Change env alone d (.reserveItems userId key data) d') :
    (∀ r ∈ d.reservations.rows, r.idempotencyKey ≠ key) ∧
      ∃ r, d'.reservations.get (env.uuid 0) = some r ∧ r.idempotencyKey = key := by
  cases h with
  | moderate _ _ _ _ hm => contradiction
  | reserveItems p q hget hq hkey hnew =>
      exact ⟨hkey, newReservation env userId key data, (Table.get_insert hnew _).trans (if_pos rfl), rfl⟩

/-- An execution that succeeded has taken its key, and reports the row. -/
theorem reserved_of_ended (hrun : Run store ok (World.start actors) evs s)
    (hactor : actors t = .request (.reserveItems userId key data) env) {x : Response}
    (hended : s.ended t = some (.ok x)) :
    (∃ ev ∈ evs, ev.txn = t ∧ ev.before.keyTaken key = false ∧ ev.after.keyTaken key) ∧
      ∃ r r', x = .reservation r ∧ r' ∈ s.db.reservations.rows ∧ r.Settled r' ∧
        r'.idempotencyKey = key := by
  have hprogram : (actors t).program = Call.program env (.reserveItems userId key data) := by
    rw [hactor]
    rfl
  obtain ⟨ev, hev, ht, hchange⟩ := answered_truly hrun hactor (fun _ => nofun) hended
  obtain ⟨hfree, row, hnew, hrow⟩ := hchange.takes_key
  refine ⟨⟨ev, hev, ht, ?_, keyTaken_iff.mpr ⟨row, Table.mem_of_get hnew, hrow⟩⟩, ?_⟩
  · simpa [Db.keyTaken] using hfree
  · have hpreserves := World.preserves_of_run hrun
    obtain ⟨r, rfl, d, hd, hr⟩ : ∃ r, x = .reservation r ∧ ∃ d, Preserves d s.db ∧
        d.reservations.get (env.uuid 0) = some r := by
      have hends : ends store (Preserves · s.db) (actors t).program (Succeeds fun x =>
          ∃ r, x = .reservation r ∧ ∃ d, Preserves d s.db ∧
            d.reservations.get (env.uuid 0) = some r) :=
        hprogram ▸ ends_reserveItems env userId key data
      have hrest := Run.ends hends hrun fun ev hev _ _ _ _ _ => (hpreserves ev hev).1
      exact Sys.ended_of_ends hrest hended x rfl
    obtain ⟨r', hr', hsettled⟩ := hd.reservation _ r hr
    obtain ⟨row', hrow', hsame⟩ := (hpreserves ev hev).2.reservation _ row hnew
    obtain rfl := Option.some.inj (hr'.symm.trans hrow')
    obtain ⟨⟨status, orderId, rfl⟩, -⟩ := hsame
    exact ⟨r, _, rfl, Table.mem_of_get hr', hsettled, hrow⟩

/-- **One execution of a key succeeds**, whatever runs beside it. -/
theorem eq_of_reserved (hrun : Run store ok (World.start actors) evs s)
    (hactor : actors t = .request (.reserveItems userId key data) env)
    (hactor' : actors u = .request (.reserveItems userId' key data') env') {x y : Response}
    (ht : s.ended t = some (.ok x)) (hu : s.ended u = some (.ok y)) : t = u := by
  obtain ⟨⟨ev, hev, rfl, hraise⟩, -⟩ := reserved_of_ended hrun hactor ht
  obtain ⟨⟨ev', hev', rfl, hraise'⟩, -⟩ := reserved_of_ended hrun hactor' hu
  have hcount := hrun.countP_le_one (f := (·.keyTaken key))
    (p := fun ev => !ev.before.keyTaken key && ev.after.keyTaken key)
    (fun ev hev htaken => by
      obtain ⟨r, hr, hkey⟩ := keyTaken_iff.mp htaken
      obtain ⟨r', hr', hsettled⟩ := (World.preserves_event hrun ev hev).reservation r.id r
        (Table.get_of_mem hr)
      obtain ⟨⟨status, orderId, rfl⟩, -⟩ := hsettled
      exact keyTaken_iff.mpr ⟨_, Table.mem_of_get hr', hkey⟩)
    (fun ev hev hp => by simpa using hp)
  rw [eq_of_countP_le_one hcount hev (by simp [hraise]) hev' (by simp [hraise'])]

end

/-! ## Requests -/

section
variable {parse : String → Option Uuid}

/-- Requests to `reservation_data` with this key. -/
def Client.ReservesWith (key : String) : Client parse → Prop
  | .request q => (∃ data, q.endpoint = .reservationData data) ∧ q.idempotencyKey = key
  | .background _ => False

/-- The Redis key tells the reservations of one key from all other requests. -/
theorem reservesWith_of_redisKey {c c' : Client parse} {key redisKey : String}
    (hc : c.ReservesWith key) (h : c.httpRequest.bind HttpRequest.redisKey = some redisKey)
    (h' : c'.httpRequest.bind HttpRequest.redisKey = some redisKey) : c'.ReservesWith key := by
  cases c with
  | background a => exact hc.elim
  | request q =>
      cases c' with
      | background a => contradiction
      | request q' =>
          obtain ⟨⟨data, hdata⟩, rfl⟩ := hc
          obtain ⟨key, hkey, rfl⟩ := Option.map_eq_some_iff.mp h
          obtain ⟨key', hkey', hsame⟩ := Option.map_eq_some_iff.mp h'
          obtain rfl := Option.some.inj (Option.filter_eq_some_iff.mp hkey).1
          obtain rfl := Option.some.inj (Option.filter_eq_some_iff.mp hkey').1
          cases hend : q'.endpoint with
          | reservationData data' =>
              refine ⟨⟨data', hend⟩, ?_⟩
              simpa [toString, hdata, hend, Endpoint.path] using hsame
          | createOrder | confirmOrderPayment | cancelOrder =>
              -- the paths part behind the version
              have hchars := congrArg String.toList hsame
              simp [toString, hdata, hend, Endpoint.path] at hchars

/-- What such a request runs. -/
theorem Client.actor_of_reservesWith {c : Client parse} {key : String} (h : c.ReservesWith key) :
    ∃ userId data env, c.actor = .request (.reserveItems userId key data) env := by
  cases c with
  | background a => exact h.elim
  | request q =>
      obtain ⟨⟨data, hdata⟩, rfl⟩ := h
      exact ⟨q.currentUser.id, data, q.env, by rw [actor, hdata]; rfl⟩

variable {T J : Type} [DecidableEq T] {clients : T → Client parse} {dump send : ApiResponse → J}
  {ok : Server T (World T) ApiResponse ApiError J → Server.Move T Bool → Prop}
  {s : Server T (World T) ApiResponse ApiError J} {key : String} {t : T}

/-- Behind every body there is an execution with the same key. -/
theorem executed_of_answered (h : (api clients dump send).Reaches ok (apiStart clients) s)
    (ht : (clients t).ReservesWith key) {x : Answer ApiResponse ApiError J} {body : J}
    (hx : s.stage t = .answered x) (hbody : x.body send = some body) :
    ∃ u response, (clients u).ReservesWith key ∧ s.app.ended u = some (.ok response) ∧
      (body = send (.of response) ∨ body = dump (.of response)) := by
  have hrequest : ∃ r, (clients t).httpRequest = some r := by
    cases hclient : clients t with
    | request q => exact ⟨_, rfl⟩
    | background a =>
        rw [hclient] at ht
        exact ht.elim
  obtain ⟨r, hr⟩ := hrequest
  obtain ⟨u, response, redisKey, hkey, hkey', hended, hsent⟩ := executed_of_body h hr hx hbody
  exact ⟨u, response, reservesWith_of_redisKey ht hkey hkey', hended, hsent⟩

/-- One execution of the key has succeeded.  It has reserved `r`, which may have
become `r'`; the key has taken no stock but that; and whoever is told of a
reservation under the key is told of this one. -/
structure ReservedOnce (clients : T → Client parse) (dump send : ApiResponse → J)
    (s : Server T (World T) ApiResponse ApiError J) (key : String) (u : T) (r r' : Reservation) :
    Prop where
  succeeded : s.app.ended u = some (.ok (.reservation r))
  once : ∀ v, (clients v).actor.reservesWith key → ∀ x, s.app.ended v = some (.ok x) → v = u
  stored : r' ∈ s.app.db.reservations.rows
  idempotencyKey : r'.idempotencyKey = key
  settled : r.Settled r'
  taken : ∃ evs, Run store Anything (World.start fun t => (clients t).actor) evs s.app ∧
    ∀ p, takenWith (fun t => (clients t).actor) key p evs =
      if r'.productId = p then r'.qtyReserved else 0
  told : ∀ v x body, (clients v).ReservesWith key → s.stage v = .answered x →
    x.body send = some body → body = send (.reservation (.modelValidate r)) ∨
      body = dump (.reservation (.modelValidate r))

/-- **A key reserves once**: as soon as one request is told that it has
reserved, there is one execution that did, however many requests ran into each
other and whatever the cache has forgotten. -/
theorem reserved_once (h : (api clients dump send).Reaches ok (apiStart clients) s)
    (ht : (clients t).ReservesWith key) {x : Answer ApiResponse ApiError J} {body : J}
    (hx : s.stage t = .answered x) (hbody : x.body send = some body) :
    ∃ u r r', ReservedOnce clients dump send s key u r r' := by
  obtain ⟨evs, hrun⟩ := world_of_reaches (f := api clients dump send) rfl h
  obtain ⟨u, y, hu, hended, -⟩ := executed_of_answered h ht hx hbody
  obtain ⟨userId, data, env, hactor⟩ := Client.actor_of_reservesWith hu
  obtain ⟨-, r, r', rfl, hr', hsettled, hkey⟩ := reserved_of_ended hrun hactor hended
  have honce : ∀ v, (clients v).actor.reservesWith key → ∀ x, s.app.ended v = some (.ok x) → v = u := by
    intro v hv x hx
    cases hactor' : (clients v).actor with
    | sweep env expireOnCommit scan =>
        rw [hactor'] at hv
        contradiction
    | request call env' =>
        rw [hactor'] at hv
        cases call with
        | reserveItems userId' key' data' =>
            obtain rfl : key' = key := of_decide_eq_true hv
            exact eq_of_reserved hrun hactor' hactor hx hended
        | _ => contradiction
  refine ⟨u, r, r', hended, honce, hr', hkey, hsettled, ⟨evs, hrun, fun p => ?_⟩, ?_⟩
  · rw [takenWith_eq hrun]
    exact keyUnits_of_mem (World.tracks_any hrun).2.1 hr' hkey p
  · intro v x body hv hx hbody
    obtain ⟨w, z, hw, hendedw, hsent⟩ := executed_of_answered h hv hx hbody
    obtain ⟨_, _, _, hactorw⟩ := Client.actor_of_reservesWith hw
    obtain rfl := honce w (by rw [hactorw]; exact decide_eq_true rfl) z hendedw
    cases hendedw.symm.trans hended
    exact hsent

end

/-- A reservation, requested four times. -/
def againClients : Fin 5 → Client fun _ => none
  | 0 => .background (.request (.createProduct seller.id lamp seller) (shopEnv 0 0))
  | 1 => .request ⟨.reservationData ⟨0, two⟩, buyer, "key", shopEnv 1 0, 1⟩
  | 2 => .request ⟨.reservationData ⟨0, two⟩, buyer, "key", shopEnv 1 1, 1⟩
  | 3 => .request ⟨.reservationData ⟨0, two⟩, buyer, "key", shopEnv 2 2, 1⟩
  | 4 => .request ⟨.reservationData ⟨0, two⟩, buyer, "key", shopEnv 3 3, 1⟩

def againApi : Decorated (Fin 5) Bool (World (Fin 5)) ApiResponse ApiError ApiResponse :=
  api againClients id id

def Stage.failed {A E J : Type} : Stage A E J → Bool
  | .answered (.failed _) => true
  | _ => false

/-- The first two overlap, the third is answered from the cache, and the fourth
comes when the response is forgotten. -/
theorem reserved_once_again : ∃ s u r r',
    againApi.Reaches (fun _ _ => True) (apiStart againClients) s ∧
      (s.stage 2).failed ∧ (s.stage 3).replayed.isSome ∧ (s.stage 4).failed ∧
      ReservedOnce againClients id id s "key" u r r' := by
  have hexec : (againApi.exec (fun _ _ => true) (apiStart againClients)
      (working 0 6 ++ [.advance 1, .advance 2] ++ List.replicate 6 (.work 1 false) ++
        [.advance 1, .advance 1] ++ List.replicate 6 (.work 2 false) ++ [.advance 2, .advance 3,
          .expire "idempotency:POST:/api/v1/inventory/reserve:key"] ++
        working 4 6 ++ [.advance 4])).any (fun s => (s.stage 1).stored && (s.stage 2).failed &&
          (s.stage 3).replayed.isSome && (s.stage 4).failed) := by decide +kernel
  obtain ⟨s, hs, hend⟩ := (Option.any_eq_true _ _).mp hexec
  simp only [Bool.and_eq_true] at hend
  obtain ⟨⟨⟨hstored, hsecond⟩, hthird⟩, hfourth⟩ := hend
  have hreaches : againApi.Reaches (fun _ _ => True) (apiStart againClients) s :=
    Decorated.Reaches.of_exec (fun _ _ _ => trivial) hs
  have hreserves : (againClients 1).ReservesWith "key" := by
    refine ⟨⟨⟨0, two⟩, ?_⟩, ?_⟩
    · rfl
    · rfl
  obtain ⟨response, hfresh⟩ := Stage.stored_iff.mp hstored
  obtain ⟨u, r, r', honce⟩ := reserved_once hreaches hreserves hfresh rfl
  exact ⟨s, u, r, r', hreaches, hsecond, hthird, hfourth, honce⟩

end FairDrop
