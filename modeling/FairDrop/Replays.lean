import FairDrop.Routes

/-!
# FairDrop.Replays

Who is served what from the idempotency cache, and how often a handler runs
under one key.  The decorator promises neither: both hold as far as the requests
keep out of each other's keys and do not overlap.
-/

namespace FairDrop

open RowStore

section
variable {parse : String → Option Uuid} {T J : Type} [DecidableEq T]

/-! ## Isolation of the cache -/

/-- Whoever is answered from the cache gets what the handler returned to a
request for the same endpoint, by the same user, with the same payload. -/
def CacheIsolated (clients : T → Client parse) (dump send : ApiResponse → J)
    (s : Server T (World T) ApiResponse ApiError J) : Prop :=
  ∀ t body, s.stage t = .answered (.replayed body) → ∃ u response,
    (clients u).Same (clients t) ∧ s.stage u = .answered (.fresh response) ∧
      (api clients dump send).result u s.app = some (.ok response) ∧ body = dump response

/-- **The cache is isolated** in every run in which each lookup finds, under its
method, path and key, responses to the same user's request with the same
payload only. -/
theorem cache_isolated {clients : T → Client parse} {dump send : ApiResponse → J}
    {s : Server T (World T) ApiResponse ApiError J}
    (h : (api clients dump send).Reaches
      (LooksUpOwn (api clients dump send) fun u t => (clients u).Same (clients t))
      (apiStart clients) s) :
    (∃ evs, Run store Anything (World.start fun t => (clients t).actor) evs s.app) ∧
      CacheIsolated clients dump send s := by
  have hbacked := backed_of_reaches h
  refine ⟨world_of_reaches rfl h, fun t body ht => ?_⟩
  obtain ⟨u, response, hu, hdump, hsame⟩ := hbacked.replayed t body ht
  have hresult := hbacked.produced u response (by rw [hu]; rfl)
  exact ⟨u, response, hsame, hu, hresult, hdump⟩

end

/-! ## A shop with a cache -/

/-- A request to a decorated endpoint: the lookup, `n` steps of the handler, and
the storing of the response. -/
def handling {T : Type} (t : T) (n : Nat) : List (Server.Move T Bool) :=
  .advance t :: List.replicate n (.work t false) ++ [.advance t, .advance t]

/-- The work of somebody else. -/
def working {T : Type} (t : T) (n : Nat) : List (Server.Move T Bool) :=
  .advance t :: List.replicate n (.work t false)

/-- Two users with a reservation each order under one key; the first of them
sends the request again. -/
def keyClients : Fin 6 → Client fun _ => none
  | 0 => .background (.request (.createProduct seller.id lamp seller) (shopEnv 0 0))
  | 1 => .background (.request (.reserveItems buyer.id "a" ⟨0, two⟩) (shopEnv 1 0))
  | 2 => .background (.request (.reserveItems seller.id "b" ⟨0, one⟩) (shopEnv 1 1))
  | 3 | 4 => .request ⟨.createOrder ⟨0, some "Home"⟩, buyer, "key", shopEnv 2 0, 1⟩
  | 5 => .request ⟨.createOrder ⟨1, none⟩, seller, "key", shopEnv 2 1, 1⟩

def keyApi : Decorated (Fin 6) Bool (World (Fin 6)) ApiResponse ApiError ApiResponse :=
  api keyClients id id

/-- The product and the reservations. -/
def keyStock : List (Server.Move (Fin 6) Bool) := working 0 6 ++ working 1 6 ++ working 2 6

/-- An order of this user. -/
def ApiResponse.orderOf (userId : Uuid) : ApiResponse → Bool
  | .order o => o.userId = userId
  | _ => false

/-- The first user sends the request twice. -/
theorem cache_isolated_duplicate : ∃ s,
    keyApi.Reaches (LooksUpOwn keyApi fun u t => (keyClients u).Same (keyClients t))
      (apiStart keyClients) s ∧
    (∃ body, s.stage 4 = .answered (.replayed body) ∧ body.orderOf buyer.id) ∧
    CacheIsolated keyClients id id s := by
  have hexec : (keyApi.exec
      (fun s m => decide (LooksUpOwn keyApi (fun u t => (keyClients u).Same (keyClients t)) s m))
      (apiStart keyClients) (keyStock ++ handling 3 9 ++ [.advance 4])).any
        (fun s => (s.stage 4).replayed.any (·.orderOf buyer.id)) := by decide +kernel
  obtain ⟨s, hs, hend⟩ := (Option.any_eq_true _ _).mp hexec
  obtain ⟨body, hbody, horder⟩ := (Option.any_eq_true _ _).mp hend
  have hreaches := Decorated.Reaches.of_exec (fun s m hok => of_decide_eq_true hok) hs
  exact ⟨s, hreaches, ⟨body, Stage.replayed_eq_some hbody, horder⟩, (cache_isolated hreaches).2⟩

/-- The second user uses the key of the first, and is served the order of the
first. -/
theorem not_cache_isolated : ∃ s,
    keyApi.Reaches (fun _ _ => True) (apiStart keyClients) s ∧
    (∃ body, s.stage 5 = .answered (.replayed body) ∧ body.orderOf buyer.id) ∧
    ¬ CacheIsolated keyClients id id s := by
  have hexec : (keyApi.exec (fun _ _ => true) (apiStart keyClients)
      (keyStock ++ handling 3 9 ++ [.advance 5])).any
        (fun s => (s.stage 5).replayed.any (·.orderOf buyer.id)) := by decide +kernel
  obtain ⟨s, hs, hend⟩ := (Option.any_eq_true _ _).mp hexec
  obtain ⟨body, hbody, horder⟩ := (Option.any_eq_true _ _).mp hend
  have hstage := Stage.replayed_eq_some hbody
  refine ⟨s, Decorated.Reaches.of_exec (fun _ _ _ => trivial) hs, ⟨body, hstage, horder⟩, fun h => ?_⟩
  obtain ⟨u, response, hsame, hu, _, _⟩ := h 5 body hstage
  -- nobody else has asked for this
  have hself : ∀ u, (keyClients u).Same (keyClients 5) → u = 5 := by decide
  rw [hself u hsame, hstage] at hu
  simp at hu

/-! ## One execution per key -/

section
variable {T C σ A E J : Type} [DecidableEq T]

/-- Of the requests with one method, path and key at most one makes the handler
succeed, and all that succeed are answered with one body. -/
def HandledOnce (f : Decorated T C σ A E J) (s : Server T σ A E J) : Prop :=
  ∀ t u r, f.request t = some r → f.request u = some r →
    ((s.stage t).response.isSome → (s.stage u).response.isSome → t = u) ∧
    ∀ x y body body', s.stage t = .answered x → s.stage u = .answered y →
      x.body f.send = some body → y.body f.send = some body' → body = body'

/-- At most one of the requests with one method, path and key succeeds, in
whatever form the framework sends the responses. -/
theorem succeeds_once {f : Decorated T C σ A E J} {app : σ} {s : Server T σ A E J}
    (h : f.Reaches (NoOverlap f) (Server.start app) s) {t u : T} {r : HttpRequest}
    (ht : f.request t = some r) (hu : f.request u = some r)
    (htook : (s.stage t).response.isSome) (hutook : (s.stage u).response.isSome) : t = u := by
  obtain ⟨hbacked, hexclusive⟩ := exclusive_of_reaches h
  have hkey : f.redisKey t = f.redisKey u := by rw [Decorated.redisKey, Decorated.redisKey, ht, hu]
  exact hexclusive.once hbacked ht hu hkey htook hutook

/-- **A handler succeeds once per key** in every run in which no request looks
up a key under which another one is in flight, nothing expires, and responses
are sent in the form in which they are stored. -/
theorem handled_once {f : Decorated T C σ A E J} {app : σ} {s : Server T σ A E J}
    (hsend : ∀ t app response, f.result t app = some (.ok response) →
      f.send response = f.dump response)
    (h : f.Reaches (NoOverlap f) (Server.start app) s) : HandledOnce f s := by
  obtain ⟨hbacked, hexclusive⟩ := exclusive_of_reaches h
  intro t u r ht hu
  have hkey : f.redisKey t = f.redisKey u := by rw [Decorated.redisKey, Decorated.redisKey, ht, hu]
  refine ⟨succeeds_once h ht hu, ?_⟩
  intro x y body body' hx hy hbody hbody'
  obtain ⟨v, response, hv, hfresh, rfl⟩ := hbacked.source hsend ht hx hbody
  obtain ⟨w, response', hw, hfresh', rfl⟩ := hbacked.source hsend hu hy hbody'
  have hvw : v = w := by
    have hkey' : f.redisKey v = f.redisKey w := hv.trans (hkey.trans hw.symm)
    exact (hexclusive.settled w v response' hfresh' hkey').2 (by rw [hfresh]; rfl)
  subst hvw
  rw [hfresh] at hfresh'
  cases hfresh'
  rfl

end

/-- A reservation, requested twice. -/
def retryClients : Fin 3 → Client fun _ => none
  | 0 => .background (.request (.createProduct seller.id lamp seller) (shopEnv 0 0))
  | 1 | 2 => .request ⟨.reservationData ⟨0, two⟩, buyer, "key", shopEnv 1 0, 1⟩

def retryApi : Decorated (Fin 3) Bool (World (Fin 3)) ApiResponse ApiError ApiResponse :=
  api retryClients id id

theorem handled_once_retry : ∃ s, retryApi.Reaches (NoOverlap retryApi) (apiStart retryClients) s ∧
    (s.stage 1).response.isSome ∧ (∃ body, s.stage 2 = .answered (.replayed body)) ∧
      HandledOnce retryApi s := by
  have hexec : (retryApi.exec (fun s m => decide (NoOverlap retryApi s m)) (apiStart retryClients)
      (working 0 6 ++ handling 1 6 ++ [.advance 2])).any (fun s =>
        (s.stage 1).response.isSome && (s.stage 2).replayed.isSome) := by decide +kernel
  obtain ⟨s, hs, hend⟩ := (Option.any_eq_true _ _).mp hexec
  obtain ⟨hfirst, hsecond⟩ := Bool.and_eq_true_iff.mp hend
  have hreaches := Decorated.Reaches.of_exec (fun s m hok => of_decide_eq_true hok) hs
  obtain ⟨body, hbody⟩ := Option.isSome_iff_exists.mp hsecond
  exact ⟨s, hreaches, hfirst, ⟨body, Stage.replayed_eq_some hbody⟩,
    handled_once (fun _ _ _ _ => rfl) hreaches⟩

/-- Two requests under one key look it up before either has stored a response:
both orders are created. -/
theorem not_handled_once : ∃ s, keyApi.Reaches (fun _ _ => True) (apiStart keyClients) s ∧
    ¬ HandledOnce keyApi s := by
  have hexec : (keyApi.exec (fun _ _ => true) (apiStart keyClients)
      (keyStock ++ [.advance 3] ++ handling 5 9 ++ List.replicate 9 (.work 3 false) ++
        [.advance 3, .advance 3])).any (fun s =>
          (s.stage 3).response.isSome && (s.stage 5).response.isSome) := by decide +kernel
  obtain ⟨s, hs, hend⟩ := (Option.any_eq_true _ _).mp hexec
  obtain ⟨hfirst, hsecond⟩ := Bool.and_eq_true_iff.mp hend
  refine ⟨s, Decorated.Reaches.of_exec (fun _ _ _ => trivial) hs, fun h => ?_⟩
  have hsame := (h 3 5 _ rfl rfl).1 hfirst hsecond
  exact absurd hsame (by decide)

end FairDrop
