import Mathlib.Data.Fintype.Basic
import Mathlib.Logic.Function.Basic
import Mathlib.Logic.Relation

/-!
# FairDrop.Shared.Decorators

The `idempotent` decorator (`shared/decorators.py`) around any handlers, with
any number of requests at the server.  A request does a Redis `GET`, the steps
of its handler and a Redis `SETEX`; between any two of them others may move, and
a stored response may expire.

What the decorator looks at is the method, the path and the key header, not the
user or the payload, and nothing keeps other requests out between its steps.
`Backed` and `Exclusive` are what holds when the requests see to that
themselves.
-/

namespace FairDrop

/-! ## Requests -/

/-- What the decorator reads of a request. -/
structure HttpRequest where
  method : String
  path : String
  /-- The `X-Idempotency-Key` header. -/
  idempotencyKey : Option String

/-- The Redis key; there is none if the header is missing or empty. -/
def HttpRequest.redisKey (r : HttpRequest) : Option String :=
  (r.idempotencyKey.filter fun key => !key.isEmpty).map fun key =>
    s!"idempotency:{r.method}:{r.path}:{key}"

/-- Decorated handlers: calls `T`, application states `σ`, responses `A`, errors
`E`, and the JSON bodies `J` that responses are cached as.  A handler takes any
number of steps; `C` is what the application leaves open in a step. -/
structure Decorated (T C σ A E J : Type) where
  /-- The `Request` among the arguments of a call, if there is one. -/
  request : T → Option HttpRequest
  work : T → C → σ → Option σ
  /-- What the handler has returned or raised. -/
  result : T → σ → Option (Except E A)
  /-- `response.model_dump_json()` or `orjson.dumps(jsonable_encoder(response))` -/
  dump : A → J
  /-- What the framework makes of a response that is returned. -/
  send : A → J
  stable : ∀ t u c app app' x, work u c app = some app' → result t app = some x →
    result t app' = some x

/-- How a call is answered. -/
inductive Answer (A E J : Type) where
  | httpException (status : Nat) (detail : String)
  | replayed (body : J)
  /-- The response was stored and returned. -/
  | fresh (response : A)
  /-- There was no request object, so nothing was stored. -/
  | direct (response : A)
  | failed (e : E)

/-- Where a call is. -/
inductive Stage (A E J : Type) where
  | arrived
  /-- In the handler; the response is to be stored under the key. -/
  | running (redisKey : Option String)
  /-- The handler has succeeded, the response is not stored yet. -/
  | executed (redisKey : String) (response : A)
  | answered (x : Answer A E J)

section
variable {A E J : Type}

/-- What the client gets if the request succeeded. -/
def Answer.body (send : A → J) : Answer A E J → Option J
  | .replayed body => some body
  | .fresh response | .direct response => some (send response)
  | .httpException _ _ | .failed _ => none

namespace Stage

/-- After the handler. -/
def returned : Option String → Except E A → Stage A E J
  | none, .ok response => .answered (.direct response)
  | some key, .ok response => .executed key response
  | _, .error e => .answered (.failed e)

/-- A handler that fails is answered with its error, with a key or without. -/
theorem returned_error (key : Option String) (e : E) :
    (returned key (.error e) : Stage A E J) = .answered (.failed e) := by
  cases key <;> rfl

/-- The handler has succeeded. -/
def response : Stage A E J → Option A
  | .executed _ response | .answered (.fresh response) | .answered (.direct response) =>
      some response
  | _ => none

/-- The body that was replayed. -/
def replayed : Stage A E J → Option J
  | .answered (.replayed body) => some body
  | _ => none

/-- The response has been stored. -/
def stored : Stage A E J → Bool
  | .answered (.fresh _) => true
  | _ => false

/-- Between a lookup that found nothing and the end of the request. -/
def inFlight : Stage A E J → Bool
  | .running (some _) | .executed _ _ => true
  | _ => false

/-- The handler has been called. -/
def begun : Stage A E J → Bool
  | .arrived | .answered (.httpException _ _) | .answered (.replayed _) => false
  | _ => true

/-- A body is replayed in the answer of a replay only. -/
theorem replayed_eq_some {x : Stage A E J} {body : J} (h : x.replayed = some body) :
    x = .answered (.replayed body) := by
  unfold replayed at h
  split at h
  · rw [Option.some.inj h]
  · contradiction

/-- The response has been stored exactly when it is answered as fresh. -/
theorem stored_iff {x : Stage A E J} : x.stored ↔ ∃ response, x = .answered (.fresh response) := by
  unfold stored
  split <;> simp_all

end Stage

end

/-! ## The server -/

structure Server (T σ A E J : Type) where
  app : σ
  redis : String → Option J
  stage : T → Stage A E J

inductive Server.Move (T C : Type) where
  | advance (t : T)
  | work (t : T) (c : C)
  /-- The TTL of an entry is over. -/
  | expire (redisKey : String)

section
variable {T C σ A E J : Type}

def Decorated.redisKey (f : Decorated T C σ A E J) (t : T) : Option String :=
  (f.request t).bind HttpRequest.redisKey

/-- Nothing is cached, and every call is about to be made. -/
def Server.start (app : σ) : Server T σ A E J := ⟨app, fun _ => none, fun _ => .arrived⟩

variable [DecidableEq T]

def Server.goto (s : Server T σ A E J) (t : T) (x : Stage A E J) : Server T σ A E J :=
  { s with stage := Function.update s.stage t x }

/-- `wrapper`, one step of one call. -/
def Decorated.step (f : Decorated T C σ A E J) (s : Server T σ A E J) :
    Server.Move T C → Option (Server T σ A E J)
  | .advance t => match s.stage t with
    | .arrived => match f.request t with
      | none => some (s.goto t (.running none))
      | some r => match r.redisKey with
        | none =>
            some (s.goto t (.answered (.httpException 400 "Missing X-Idempotency-Key header")))
        | some key => match s.redis key with
          | some body => some (s.goto t (.answered (.replayed body)))
          | none => some (s.goto t (.running (some key)))
    | .running key => (f.result t s.app).map fun x => s.goto t (.returned key x)
    | .executed key response =>
        some { s.goto t (.answered (.fresh response)) with
          redis := Function.update s.redis key (some (f.dump response)) }
    | .answered _ => none
  | .work t c => match s.stage t with
    | .running _ => (f.work t c s.app).map fun app => { s with app := app }
    | _ => none
  | .expire key => some { s with redis := Function.update s.redis key none }

/-- The server gets from `s₀` to `s` by moves that meet `ok`. -/
def Decorated.Reaches (f : Decorated T C σ A E J) (ok : Server T σ A E J → Server.Move T C → Prop)
    (s₀ s : Server T σ A E J) : Prop :=
  Relation.ReflTransGen (fun s s' => ∃ m, ok s m ∧ f.step s m = some s') s₀ s

/-- Make moves as long as they meet `ok`. -/
def Decorated.exec (f : Decorated T C σ A E J) (ok : Server T σ A E J → Server.Move T C → Bool)
    (s : Server T σ A E J) : List (Server.Move T C) → Option (Server T σ A E J)
  | [] => some s
  | m :: ms =>
      if ok s m then match f.step s m with
        | some s' => f.exec ok s' ms
        | none => none
      else none

variable {f : Decorated T C σ A E J} {ok : Server T σ A E J → Server.Move T C → Prop}
  {s₀ s s' : Server T σ A E J}

/-- What is reached under one condition is reached under a weaker one. -/
theorem Decorated.Reaches.mono {ok' : Server T σ A E J → Server.Move T C → Prop}
    (hok : ∀ s m, ok s m → ok' s m) (h : f.Reaches ok s₀ s) : f.Reaches ok' s₀ s := by
  induction h with
  | refl => exact .refl
  | tail _ hstep ih =>
      obtain ⟨m, hm, hs⟩ := hstep
      exact ih.tail ⟨m, hok _ m hm, hs⟩

/-- Moves that a check lets through reach a state. -/
theorem Decorated.Reaches.of_exec {check : Server T σ A E J → Server.Move T C → Bool}
    (hcheck : ∀ s m, check s m → ok s m) {ms : List (Server.Move T C)}
    (h : f.exec check s ms = some s') : f.Reaches ok s s' := by
  induction ms generalizing s with
  | nil =>
      rw [exec, Option.some.injEq] at h
      rw [h]
      exact .refl
  | cons m ms ih =>
      rw [exec] at h
      split at h
      · next hok =>
          split at h
          · next s₁ hs => exact .head ⟨m, hcheck s m hok, hs⟩ (ih h)
          · contradiction
      · contradiction

/-- What a call does when it advances. -/
inductive Decorated.Advance (f : Decorated T C σ A E J) (s : Server T σ A E J) (t : T) :
    Server T σ A E J → Prop
  | bypass : s.stage t = .arrived → f.request t = none → Advance f s t (s.goto t (.running none))
  | refuse {status detail} : s.stage t = .arrived → f.redisKey t = none →
      Advance f s t (s.goto t (.answered (.httpException status detail)))
  | replay {key body} : s.stage t = .arrived → f.redisKey t = some key → s.redis key = some body →
      Advance f s t (s.goto t (.answered (.replayed body)))
  | miss {key} : s.stage t = .arrived → f.redisKey t = some key → s.redis key = none →
      Advance f s t (s.goto t (.running (some key)))
  | complete {response} : s.stage t = .running none → f.result t s.app = some (.ok response) →
      Advance f s t (s.goto t (.answered (.direct response)))
  | execute {key response} : s.stage t = .running (some key) →
      f.result t s.app = some (.ok response) → Advance f s t (s.goto t (.executed key response))
  | fail {key e} : s.stage t = .running key → f.result t s.app = some (.error e) →
      Advance f s t (s.goto t (.answered (.failed e)))
  | store {key response} : s.stage t = .executed key response →
      Advance f s t { s.goto t (.answered (.fresh response)) with
        redis := Function.update s.redis key (some (f.dump response)) }

/-- A step of a call is one of its advances. -/
theorem Decorated.advance_of_step {t : T} (h : f.step s (.advance t) = some s') :
    f.Advance s t s' := by
  simp only [step] at h
  split at h
  · next harrived =>
      split at h
      · next hrequest => exact Option.some.inj h ▸ .bypass harrived hrequest
      · next r hrequest =>
          split at h
          · next hkey =>
              exact Option.some.inj h ▸ .refuse harrived (by rw [redisKey, hrequest]; exact hkey)
          · next key hkey =>
              have hkey' : f.redisKey t = some key := by rw [redisKey, hrequest]; exact hkey
              split at h
              · next body hbody => exact Option.some.inj h ▸ .replay harrived hkey' hbody
              · next hnone => exact Option.some.inj h ▸ .miss harrived hkey' hnone
  · next key hrunning =>
      obtain ⟨x, hresult, rfl⟩ := Option.map_eq_some_iff.mp h
      cases x with
      | error e =>
          rw [Stage.returned_error]
          exact .fail hrunning hresult
      | ok response =>
          cases key with
          | none => exact .complete hrunning hresult
          | some key => exact .execute hrunning hresult
  · next key response hexec => exact Option.some.inj h ▸ .store hexec
  · contradiction

/-- A handler at work changes the application state and nothing else. -/
theorem Decorated.work_of_step {t : T} {c : C} (h : f.step s (.work t c) = some s') :
    ∃ app, f.work t c s.app = some app ∧ s' = { s with app := app } := by
  simp only [step] at h
  split at h
  · obtain ⟨app, happ, rfl⟩ := Option.map_eq_some_iff.mp h
    exact ⟨app, happ, rfl⟩
  · contradiction

/-- The stages after one call has moved. -/
theorem Server.stage_goto (s : Server T σ A E J) (t u : T) (x : Stage A E J) :
    (s.goto t x).stage u = if u = t then x else s.stage u :=
  Function.update_apply s.stage t x u

/-- Advancing is no work. -/
theorem Decorated.Advance.app {t : T} (h : f.Advance s t s') : s'.app = s.app := by
  cases h <;> rfl

/-- An answer is final. -/
theorem Decorated.Advance.answered {t u : T} (h : f.Advance s t s') {x : Answer A E J}
    (hu : s.stage u = .answered x) : s'.stage u = .answered x := by
  have hne : s.stage t ≠ .answered x → u ≠ t := by
    rintro ht rfl
    exact ht hu
  cases h <;> simp_all [Server.goto]

/-- A handler is called once. -/
theorem Decorated.Advance.begun {t u : T} (h : f.Advance s t s') (hu : (s.stage u).begun) :
    (s'.stage u).begun := by
  by_cases hut : u = t
  · subst hut
    cases h <;> simp_all [Server.goto, Stage.begun]
  · cases h <;> simpa [Server.goto, hut] using hu

/-- The wrapper does the same around handlers that have come to the same. -/
theorem Decorated.advance_of_result {C' τ : Type} {f' : Decorated T C' τ A E J} {app : τ} {t : T}
    (hrequest : f'.request t = f.request t) (hdump : f'.dump = f.dump)
    (hresult : ∀ x, f.result t s.app = some x → f'.result t app = some x)
    (h : f.step s (.advance t) = some s') :
    f'.step ⟨app, s.redis, s.stage⟩ (.advance t) = some ⟨app, s'.redis, s'.stage⟩ := by
  simp only [step] at h ⊢
  cases hstage : s.stage t with
  | arrived =>
      simp only [hstage, hrequest] at h ⊢
      cases hr : f.request t with
      | none =>
          rw [hr] at h
          obtain rfl := Option.some.inj h
          rfl
      | some r =>
          simp only [hr] at h ⊢
          cases hkey : r.redisKey with
          | none =>
              rw [hkey] at h
              obtain rfl := Option.some.inj h
              rfl
          | some key =>
              simp only [hkey] at h ⊢
              cases hbody : s.redis key with
              | none =>
                  rw [hbody] at h
                  obtain rfl := Option.some.inj h
                  rfl
              | some body =>
                  rw [hbody] at h
                  obtain rfl := Option.some.inj h
                  rfl
  | running key =>
      simp only [hstage] at h ⊢
      obtain ⟨x, hx, rfl⟩ := Option.map_eq_some_iff.mp h
      rw [hresult x hx]
      rfl
  | executed key response =>
      simp only [hstage, hdump] at h ⊢
      obtain rfl := Option.some.inj h
      rfl
  | answered x =>
      simp only [hstage] at h
      contradiction

/-- How a call that advances is answered, if it is. -/
inductive Decorated.Answers (f : Decorated T C σ A E J) (s : Server T σ A E J) (t : T) :
    Answer A E J → Prop
  | refuse {status detail} : Answers f s t (.httpException status detail)
  | replay {key body} : s.stage t = .arrived → f.redisKey t = some key → s.redis key = some body →
      Answers f s t (.replayed body)
  | complete {response} : s.stage t = .running none → f.result t s.app = some (.ok response) →
      Answers f s t (.direct response)
  | fail {e} : Answers f s t (.failed e)
  | store {key response} : s.stage t = .executed key response → Answers f s t (.fresh response)

/-- An answer is there already, or is given now. -/
theorem Decorated.Advance.answers {t u : T} (h : f.Advance s t s') {x : Answer A E J}
    (hu : s'.stage u = .answered x) : s.stage u = .answered x ∨ (u = t ∧ f.Answers s t x) := by
  by_cases hut : u = t
  · subst hut
    cases h with
    | bypass | miss | execute => simp [Server.goto] at hu
    | refuse =>
        obtain rfl : _ = x := by simpa [Server.goto] using hu
        exact .inr ⟨rfl, .refuse⟩
    | replay harrived hkey hbody =>
        obtain rfl : _ = x := by simpa [Server.goto] using hu
        exact .inr ⟨rfl, .replay harrived hkey hbody⟩
    | complete hrunning hresult =>
        obtain rfl : _ = x := by simpa [Server.goto] using hu
        exact .inr ⟨rfl, .complete hrunning hresult⟩
    | fail =>
        obtain rfl : _ = x := by simpa [Server.goto] using hu
        exact .inr ⟨rfl, .fail⟩
    | store hexec =>
        obtain rfl : _ = x := by simpa [Server.goto] using hu
        exact .inr ⟨rfl, .store hexec⟩
  · refine .inl ?_
    cases h <;> simpa [Server.goto, hut] using hu

/-! ## Whose response is replayed -/

/-- A request looks up its key when all responses stored under it come from
requests that are the `same`. -/
def LooksUpOwn (f : Decorated T C σ A E J) (same : T → T → Prop) (s : Server T σ A E J) :
    Server.Move T C → Prop
  | .advance t => match s.stage t with
    | .arrived => ∀ u, (s.stage u).stored → f.redisKey u = f.redisKey t → same u t
    | _ => True
  | .work _ _ | .expire _ => True

instance [Fintype T] (same : T → T → Prop) [DecidableRel same] (s : Server T σ A E J)
    (m : Server.Move T C) : Decidable (LooksUpOwn f same s m) := by
  unfold LooksUpOwn
  split
  · split <;> infer_instance
  · infer_instance
  · infer_instance

/-- What is cached and replayed goes back to an execution of a handler. -/
structure Backed (f : Decorated T C σ A E J) (same : T → T → Prop) (s : Server T σ A E J) :
    Prop where
  keyed : ∀ t key, (s.stage t = .running (some key) ∨ ∃ response, s.stage t = .executed key response) →
    f.redisKey t = some key
  bypassed : ∀ t, (s.stage t = .running none ∨ ∃ response, s.stage t = .answered (.direct response)) →
    f.request t = none
  produced : ∀ t response, (s.stage t).response = some response →
    f.result t s.app = some (.ok response)
  stored : ∀ key body, s.redis key = some body → ∃ u response, f.redisKey u = some key ∧
    s.stage u = .answered (.fresh response) ∧ body = f.dump response
  replayed : ∀ t body, s.stage t = .answered (.replayed body) → ∃ u response,
    s.stage u = .answered (.fresh response) ∧ body = f.dump response ∧ same u t

variable {same : T → T → Prop}

/-- What is stored is backed by a response through every advance of a call. -/
theorem Backed.advance {t : T} (h : Backed f same s) (hok : LooksUpOwn f same s (.advance t))
    (hs : f.Advance s t s') : Backed f same s' := by
  have hfinal : ∀ u response, s.stage u = .answered (.fresh response) →
      s'.stage u = .answered (.fresh response) := fun u response hu => hs.answered hu
  constructor
  case keyed =>
    intro u key hu
    have hkeyed := h.keyed u key
    cases hs <;> grind [Server.stage_goto]
  case bypassed =>
    intro u hu
    have hbypassed := h.bypassed u
    cases hs <;> grind [Server.stage_goto]
  case produced =>
    intro u response hu
    rw [hs.app]
    have hproduced := h.produced u response
    cases hs <;> grind [Server.stage_goto, Stage.returned, Stage.response]
  case stored =>
    intro key body hbody
    cases hs with
    | @store key' response hexec =>
        have hkey := h.keyed t key' (.inr ⟨response, hexec⟩)
        simp only [Function.update_apply] at hbody
        split at hbody
        · next heq =>
            refine ⟨t, response, heq ▸ hkey, ?_, (Option.some.inj hbody).symm⟩
            exact Function.update_self t _ s.stage
        · obtain ⟨u, response', hkey', hu, hdump⟩ := h.stored key body hbody
          exact ⟨u, response', hkey', hfinal u response' hu, hdump⟩
    | bypass | refuse | replay | miss | complete | execute | fail =>
        obtain ⟨u, response, hkey, hu, hdump⟩ := h.stored key body hbody
        exact ⟨u, response, hkey, hfinal u response hu, hdump⟩
  case replayed =>
    intro u body hu
    have hbefore : s.stage u = .answered (.replayed body) ∨ (u = t ∧ s.stage t = .arrived ∧
        ∃ key, f.redisKey t = some key ∧ s.redis key = some body) := by
      cases hs <;> grind [Server.stage_goto]
    cases hbefore with
    | inl hold =>
        obtain ⟨v, response, hv, hdump, hsame⟩ := h.replayed u body hold
        exact ⟨v, response, hfinal v response hv, hdump, hsame⟩
    | inr hnow =>
        obtain ⟨rfl, harrived, key, hkey, hbody⟩ := hnow
        obtain ⟨v, response, hkey', hv, hdump⟩ := h.stored key body hbody
        have hsame : same v u := by
          simp only [LooksUpOwn, harrived] at hok
          exact hok v (by rw [hv]; rfl) (hkey'.trans hkey.symm)
        exact ⟨v, response, hfinal v response hv, hdump, hsame⟩

/-- What is stored stays backed while a handler works. -/
theorem Backed.work {t : T} {c : C} (h : Backed f same s)
    (hs : f.step s (.work t c) = some s') : Backed f same s' := by
  obtain ⟨app, hwork, rfl⟩ := Decorated.work_of_step hs
  refine ⟨h.keyed, h.bypassed, ?_, h.stored, h.replayed⟩
  intro u response hu
  exact f.stable u t c s.app app _ hwork (h.produced u response hu)

/-- What is stored stays backed when a key expires. -/
theorem Backed.expire {key : String} (h : Backed f same s)
    (hs : f.step s (.expire key) = some s') : Backed f same s' := by
  obtain rfl := Option.some.inj hs
  refine ⟨h.keyed, h.bypassed, h.produced, ?_, h.replayed⟩
  intro key' body hbody
  simp only [Function.update_apply] at hbody
  split at hbody
  · contradiction
  · exact h.stored key' body hbody

omit [DecidableEq T] in
/-- Nothing is stored at first. -/
theorem backed_start {app : σ} : Backed f same (Server.start app) := by
  constructor <;> simp [Server.start, Stage.response]

/-- What is stored stays backed through every move of the server. -/
theorem Backed.step {m : Server.Move T C} (h : Backed f same s) (hok : LooksUpOwn f same s m)
    (hs : f.step s m = some s') : Backed f same s' := by
  cases m with
  | advance t => exact h.advance hok (Decorated.advance_of_step hs)
  | work t c => exact h.work hs
  | expire key => exact h.expire hs

/-- **Replays are one's own**: if every lookup finds, under its key, responses
of the same kind of request only, then what is replayed to a request goes back
to an execution of the handler for such a request. -/
theorem backed_of_reaches {app : σ} (h : f.Reaches (LooksUpOwn f same) (Server.start app) s) :
    Backed f same s := by
  induction h with
  | refl => exact backed_start
  | tail _ hstep ih =>
      obtain ⟨m, hok, hs⟩ := hstep
      exact ih.step hok hs

/-- A request without a key is turned away. -/
theorem keyed_of_reaches {app : σ} (h : f.Reaches ok (Server.start app) s) {t : T} {r : HttpRequest}
    (ht : f.request t = some r) {x : Answer A E J} (hx : s.stage t = .answered x) {body : J}
    (hbody : x.body f.send = some body) : (f.redisKey t).isSome := by
  by_contra hnone
  have hkey : f.redisKey t = none := by simpa using hnone
  have haway : s.stage t = .arrived ∨
      ∃ status detail, s.stage t = .answered (.httpException status detail) := by
    clear hx
    induction h with
    | refl => exact .inl rfl
    | tail _ hstep ih =>
        obtain ⟨m, -, hs⟩ := hstep
        cases m with
        | work u c =>
            obtain ⟨app, -, rfl⟩ := Decorated.work_of_step hs
            exact ih
        | expire key =>
            obtain rfl := Option.some.inj hs
            exact ih
        | advance u =>
            have hadvance := Decorated.advance_of_step hs
            by_cases htu : t = u
            · subst htu
              cases hadvance <;> grind [Server.stage_goto]
            · cases hadvance <;> simpa [Server.goto, htu] using ih
  rw [hx] at haway
  obtain h | ⟨status, detail, h⟩ := haway
  · contradiction
  · cases h
    contradiction

/-- The one error of the wrapper itself. -/
theorem badRequest_of_reaches {app : σ} (h : f.Reaches ok (Server.start app) s) {t : T} {status : Nat}
    {detail : String} (ht : s.stage t = .answered (.httpException status detail)) : status = 400 := by
  induction h with
  | refl => cases ht
  | @tail s s' _ hstep ih =>
      obtain ⟨m, -, hs⟩ := hstep
      cases m with
      | work u c =>
          obtain ⟨app, -, rfl⟩ := Decorated.work_of_step hs
          exact ih ht
      | expire key =>
          obtain rfl := Option.some.inj hs
          exact ih ht
      | advance u =>
          by_cases htu : t = u
          · subst htu
            simp only [Decorated.step] at hs
            split at hs
            · split at hs
              · obtain rfl := Option.some.inj hs
                simp [Server.goto] at ht
              · split at hs
                · obtain rfl := Option.some.inj hs
                  simp only [Server.goto, Function.update_self, Stage.answered.injEq,
                    Answer.httpException.injEq] at ht
                  exact ht.1.symm
                · split at hs
                  all_goals
                    obtain rfl := Option.some.inj hs
                    simp [Server.goto] at ht
            · next key _ =>
                obtain ⟨x, _, rfl⟩ := Option.map_eq_some_iff.mp hs
                cases key <;> cases x <;> simp [Server.goto, Stage.returned] at ht
            · obtain rfl := Option.some.inj hs
              simp [Server.goto] at ht
            · contradiction
          · refine ih ?_
            have hadvance := Decorated.advance_of_step hs
            cases hadvance <;> simpa [Server.goto, htu] using ht

/-- Who is told of an error has been told by the handler. -/
theorem failed_of_reaches {app : σ} (h : f.Reaches ok (Server.start app) s) {t : T} {e : E}
    (ht : s.stage t = .answered (.failed e)) : f.result t s.app = some (.error e) := by
  induction h with
  | refl => cases ht
  | @tail s s' _ hstep ih =>
      obtain ⟨m, -, hs⟩ := hstep
      cases m with
      | work u c =>
          obtain ⟨app, hwork, rfl⟩ := Decorated.work_of_step hs
          exact f.stable t u c _ app _ hwork (ih ht)
      | expire key =>
          obtain rfl := Option.some.inj hs
          exact ih ht
      | advance u =>
          have hadvance := Decorated.advance_of_step hs
          rw [hadvance.app]
          by_cases htu : t = u
          · subst htu
            cases hadvance <;> grind [Server.stage_goto]
          · refine ih ?_
            cases hadvance <;> simpa [Server.goto, htu] using ht

/-! ## How often the handler runs -/

/-- A request looks up its key when no other request under it is in flight, and
nothing expires. -/
def NoOverlap (f : Decorated T C σ A E J) (s : Server T σ A E J) : Server.Move T C → Prop
  | .advance t => match s.stage t with
    | .arrived => ∀ u, f.redisKey u = f.redisKey t → (s.stage u).inFlight = false
    | _ => True
  | .work _ _ => True
  | .expire _ => False

instance [Fintype T] (s : Server T σ A E J) (m : Server.Move T C) :
    Decidable (NoOverlap f s m) := by
  unfold NoOverlap
  split
  · split <;> infer_instance
  · infer_instance
  · infer_instance

/-- One request of a key is in flight at a time, and none once a response is
stored. -/
structure Exclusive (f : Decorated T C σ A E J) (s : Server T σ A E J) : Prop where
  alone : ∀ t u, f.redisKey t = f.redisKey u → (s.stage t).inFlight → (s.stage u).inFlight → t = u
  cached : ∀ t response key, s.stage t = .answered (.fresh response) → f.redisKey t = some key →
    (s.redis key).isSome
  settled : ∀ t u response, s.stage t = .answered (.fresh response) →
    f.redisKey u = f.redisKey t → (s.stage u).inFlight = false ∧ ((s.stage u).stored → u = t)

omit [DecidableEq T] in
/-- Nobody takes off and nobody lands with a response. -/
theorem Exclusive.mono (h : Exclusive f s)
    (hflight : ∀ u, (s'.stage u).inFlight → (s.stage u).inFlight)
    (hfresh : ∀ u response, s'.stage u = .answered (.fresh response) →
      s.stage u = .answered (.fresh response)) (hredis : s'.redis = s.redis) : Exclusive f s' where
  alone t u hkey ht hu := h.alone t u hkey (hflight t ht) (hflight u hu)
  cached t response key ht hkey := hredis ▸ h.cached t response key (hfresh t response ht) hkey
  settled t u response ht hkey := by
    obtain ⟨hgrounded, honly⟩ := h.settled t u response (hfresh t response ht) hkey
    constructor
    · cases hu : (s'.stage u).inFlight with
      | false => rfl
      | true => rw [hflight u hu] at hgrounded; contradiction
    · intro hu
      obtain ⟨response', hu⟩ := Stage.stored_iff.mp hu
      exact honly (Stage.stored_iff.mpr ⟨response', hfresh u response' hu⟩)

/-- A lookup that misses starts the only execution under its key. -/
theorem Exclusive.miss {t : T} {key : String} (h : Exclusive f s) (hkey : f.redisKey t = some key)
    (hnone : s.redis key = none)
    (hfree : ∀ u, f.redisKey u = f.redisKey t → (s.stage u).inFlight = false) :
    Exclusive f (s.goto t (.running (some key))) := by
  have hstage := s.stage_goto t
  constructor
  case alone =>
    intro u v huv hu hv
    have hu' := hfree u
    have hv' := hfree v
    have hold := h.alone u v huv
    grind
  case cached =>
    intro u response key' hu hkey'
    rw [hstage] at hu
    split at hu
    · contradiction
    · exact h.cached u response key' hu hkey'
  case settled =>
    intro u v response hu huv
    rw [hstage] at hu ⊢
    split at hu
    · contradiction
    · split
      · next hvt =>
          -- the lookup would have found the response of `u`
          subst hvt
          have hcached := h.cached u response key hu (huv ▸ hkey)
          rw [hnone] at hcached
          contradiction
      · exact h.settled u v response hu huv

/-- Storing a response ends the only execution under its key. -/
theorem Exclusive.store {t : T} {key : String} {response : A} (h : Exclusive f s)
    (hexec : s.stage t = .executed key response) (hkey : f.redisKey t = some key) :
    Exclusive f { s.goto t (.answered (.fresh response)) with
      redis := Function.update s.redis key (some (f.dump response)) } := by
  have hflight : (s.stage t).inFlight := by rw [hexec]; rfl
  have hstage := s.stage_goto t
  constructor
  case alone =>
    intro u v huv hu hv
    simp only [hstage] at hu hv
    split at hu
    · contradiction
    · split at hv
      · contradiction
      · exact h.alone u v huv hu hv
  case cached =>
    intro u response' key' hu hkey'
    simp only [hstage, Function.update_apply] at hu ⊢
    split at hu
    · next hut =>
        subst hut
        obtain rfl := Option.some.inj (hkey.symm.trans hkey')
        simp
    · have hcached := h.cached u response' key' hu hkey'
      split
      · rfl
      · exact hcached
  case settled =>
    intro u v response' hu huv
    simp only [hstage] at hu ⊢
    split at hu
    · next hut =>
        -- the new response: others under the key are neither in flight nor stored
        subst hut
        split
        · next hvu => exact ⟨rfl, fun _ => hvu⟩
        · next hne =>
            refine ⟨?_, fun hv => ?_⟩
            · cases hv : (s.stage v).inFlight with
              | false => rfl
              | true => exact absurd (h.alone v u huv hv hflight) hne
            · obtain ⟨response'', hv⟩ := Stage.stored_iff.mp hv
              have hgrounded := (h.settled v u response'' hv huv.symm).1
              rw [hflight] at hgrounded
              contradiction
    · split
      · next hvt =>
          subst hvt
          have hgrounded := (h.settled u v response' hu huv).1
          rw [hflight] at hgrounded
          contradiction
      · exact h.settled u v response' hu huv

/-- Executions under one key stay exclusive through every advance without overlap. -/
theorem Exclusive.advance {t : T} (h : Exclusive f s) (hb : Backed f same s)
    (hok : NoOverlap f s (.advance t)) (hs : f.Advance s t s') : Exclusive f s' := by
  have hstage := s.stage_goto t
  cases hs with
  | bypass | refuse | replay | complete | execute | fail =>
      refine Exclusive.mono h ?_ ?_ ?_
      · intro u hu
        grind [Stage.inFlight]
      · intro u response hu
        grind
      · rfl
  | miss harrived hkey hnone =>
      simp only [NoOverlap, harrived] at hok
      exact h.miss hkey hnone hok
  | store hexec => exact h.store hexec (hb.keyed t _ (.inr ⟨_, hexec⟩))

omit [DecidableEq T] in
/-- At first nothing is executed. -/
theorem exclusive_start {app : σ} : Exclusive f (Server.start app) := by
  constructor <;> simp [Server.start, Stage.inFlight]

/-- The requests under one key. -/
def SameKey (f : Decorated T C σ A E J) (t u : T) : Prop := f.redisKey t = f.redisKey u

omit [DecidableEq T] in
/-- Responses are looked up by key. -/
theorem looksUpOwn_sameKey [DecidableEq T] (m : Server.Move T C) : LooksUpOwn f (SameKey f) s m := by
  unfold LooksUpOwn
  split
  · split
    · exact fun u _ hkey => hkey
    · trivial
  · trivial
  · trivial

/-- Without overlap what is stored is backed, and executions under one key are exclusive. -/
theorem exclusive_of_reaches {app : σ} (h : f.Reaches (NoOverlap f) (Server.start app) s) :
    Backed f (SameKey f) s ∧ Exclusive f s := by
  induction h with
  | refl => exact ⟨backed_start, exclusive_start⟩
  | tail _ hstep ih =>
      obtain ⟨m, hok, hs⟩ := hstep
      refine ⟨ih.1.step (looksUpOwn_sameKey m) hs, ?_⟩
      cases m with
      | advance t => exact ih.2.advance ih.1 hok (Decorated.advance_of_step hs)
      | work t c =>
          obtain ⟨app, _, rfl⟩ := Decorated.work_of_step hs
          exact ih.2.mono (fun _ hu => hu) (fun _ _ hu => hu) rfl
      | expire key => exact hok.elim

omit [DecidableEq T] in
/-- A request whose handler has succeeded is in flight, or its response is stored. -/
theorem Backed.flown (h : Backed f same s) {t : T} {r : HttpRequest} (ht : f.request t = some r)
    (hresponse : (s.stage t).response.isSome) : (s.stage t).inFlight ∨ (s.stage t).stored := by
  unfold Stage.response at hresponse
  split at hresponse
  · next key response hexec =>
      rw [hexec]
      exact .inl rfl
  · next response hfresh =>
      rw [hfresh]
      exact .inr rfl
  · next response hdirect =>
      rw [h.bypassed t (.inr ⟨response, hdirect⟩)] at ht
      contradiction
  · contradiction

omit [DecidableEq T] in
/-- At most one request of a key succeeds. -/
theorem Exclusive.once (h : Exclusive f s) (hb : Backed f same s) {t u : T} {r r' : HttpRequest}
    (hrt : f.request t = some r) (hru : f.request u = some r') (hkey : f.redisKey t = f.redisKey u)
    (ht : (s.stage t).response.isSome) (hu : (s.stage u).response.isSome) : t = u := by
  cases hb.flown hrt ht with
  | inl hflight =>
      cases hb.flown hru hu with
      | inl hflight' => exact h.alone t u hkey hflight hflight'
      | inr hstored =>
          obtain ⟨response, hfresh⟩ := Stage.stored_iff.mp hstored
          have hgrounded := (h.settled u t response hfresh hkey).1
          rw [hflight] at hgrounded
          contradiction
  | inr hstored =>
      obtain ⟨response, hfresh⟩ := Stage.stored_iff.mp hstored
      obtain ⟨hgrounded, honly⟩ := h.settled t u response hfresh hkey.symm
      cases hb.flown hru hu with
      | inl hflight =>
          rw [hflight] at hgrounded
          contradiction
      | inr hstored' => exact (honly hstored').symm

omit [DecidableEq T] in
/-- A body that a request is answered with is the stored response of a request
under its key, if responses are sent as they are stored. -/
theorem Backed.source (h : Backed f (SameKey f) s)
    (hsend : ∀ t app response, f.result t app = some (.ok response) →
      f.send response = f.dump response) {t : T} {r : HttpRequest} (ht : f.request t = some r)
    {x : Answer A E J} {body : J} (hx : s.stage t = .answered x) (hbody : x.body f.send = some body) :
    ∃ u response, SameKey f u t ∧ s.stage u = .answered (.fresh response) ∧
      body = f.dump response := by
  cases x with
  | replayed body' =>
      obtain rfl := Option.some.inj hbody
      obtain ⟨u, response, hu, hdump, hsame⟩ := h.replayed t body' hx
      exact ⟨u, response, hsame, hu, hdump⟩
  | fresh response =>
      obtain rfl := Option.some.inj hbody
      have hresult := h.produced t response (by rw [hx]; rfl)
      exact ⟨t, response, rfl, hx, hsend t s.app response hresult⟩
  | direct response =>
      rw [h.bypassed t (.inr ⟨response, hx⟩)] at ht
      contradiction
  | httpException | failed => contradiction

end

end FairDrop
