import FairDrop.Redis.Keys
import Mathlib.Data.List.Induction
import Mathlib.Tactic.Ring

/-!
# FairDrop.Shared.RateLimit

The rate limiter: the Lua script (`core/lua_scripts.py`) and its caller
(`shared/rate_limit.py`).

A bucket is a counter that is born by an accepted call and dies `ttl` later,
whatever happens in between (`Window`).  So an interval of length `ttl` meets at
most two generations of a bucket, and each of them counts to its limit.
-/

namespace FairDrop

open Redis

/-! ## The script -/

/-- `KEYS` and `ARGV` of one execution. -/
structure ScriptCall (κ : Type) where
  userKey : κ
  itemKey : κ
  userLimit : Int
  itemLimit : Int
  ttl : Int

/-- `EXPIRE`, if this was the first `INCR`. -/
def expireFirst {κ : Type} [DecidableEq κ] (s : Store κ) (now : Int) (k : κ) (ttl count : Int) :
    Store κ :=
  if count = 0 then s.expire now k ttl else s

/-- `RATE_LIMIT_LUA_SCRIPT`, run at one moment. -/
def rateLimitScript {κ : Type} [DecidableEq κ] (c : ScriptCall κ) (now : Int) (s : Store κ) :
    Int × Store κ :=
  let currentUserCount := (s.get now c.userKey).getD 0
  let currentItemCount := (s.get now c.itemKey).getD 0
  if c.userLimit ≤ currentUserCount then (0, s)
  else if c.itemLimit ≤ currentItemCount then (-1, s)
  else
    let s := (s.incr now c.userKey).incr now c.itemKey
    let s := expireFirst s now c.userKey c.ttl currentUserCount
    let s := expireFirst s now c.itemKey c.ttl currentItemCount
    (1, s)

/-! ## The caller -/

/-- How a call is turned away. -/
inductive RateLimitError where
  /-- 429, with its detail. -/
  | tooManyRequests (detail : String)
  /-- A key or an argument of the script is missing. -/
  | scriptError
  deriving DecidableEq, Repr

def userExceededLimit : String := "Rate limit exceeded for this identifier"

def globalExceededLimit : String := "Global rate limit exceeded"

/-- What the script reads of `KEYS` and `ARGV`. -/
def ScriptCall.ofArgs {κ : Type} : List κ → List Int → Option (ScriptCall κ)
  | userKey :: itemKey :: _, userLimit :: itemLimit :: ttl :: _ =>
      some ⟨userKey, itemKey, userLimit, itemLimit, ttl⟩
  | _, _ => none

/-- The second key of a call that has one key only. -/
def dummyKey (key : String) : String := "rate_limit:dummy:" ++ key

def RateLimit.checkRateLimit (keys : List String) (limits : List Int) (ttl now : Int)
    (s : Store String) : Except RateLimitError Bool × Store String :=
  let (keys, limits) := match keys with
    | [key] => ([key, dummyKey key], limits ++ [999999999])
    | _ => (keys, limits)
  match ScriptCall.ofArgs keys (limits ++ [ttl]) with
  | none => (.error .scriptError, s)
  | some c =>
      let (result, s) := rateLimitScript c now s
      if result = 0 then (.error (.tooManyRequests userExceededLimit), s)
      else if result = -1 then (.error (.tooManyRequests globalExceededLimit), s)
      else (.ok true, s)

/-! ## One execution -/

section
variable {κ : Type} [DecidableEq κ] {c : ScriptCall κ} {now : Int} {s : Store κ} {k : κ}

theorem rateLimitScript_answer : (rateLimitScript c now s).1 = 1 ∨
    (rateLimitScript c now s).1 = 0 ∨ (rateLimitScript c now s).1 = -1 := by
  by_cases huser : c.userLimit ≤ (s.get now c.userKey).getD 0
  · simp [rateLimitScript, huser]
  · by_cases hitem : c.itemLimit ≤ (s.get now c.itemKey).getD 0
    · simp [rateLimitScript, huser, hitem]
    · simp [rateLimitScript, huser, hitem]

/-- A rejected call changes nothing. -/
theorem rateLimitScript_rejected (h : (rateLimitScript c now s).1 ≠ 1) :
    (rateLimitScript c now s).2 = s := by
  by_cases huser : c.userLimit ≤ (s.get now c.userKey).getD 0
  · simp [rateLimitScript, huser]
  · by_cases hitem : c.itemLimit ≤ (s.get now c.itemKey).getD 0
    · simp [rateLimitScript, huser, hitem]
    · simp [rateLimitScript, huser, hitem] at h

/-- An accepted call has found both counters below their limits. -/
theorem rateLimitScript_below (h : (rateLimitScript c now s).1 = 1) :
    (s.get now c.userKey).getD 0 < c.userLimit ∧ (s.get now c.itemKey).getD 0 < c.itemLimit := by
  by_cases huser : c.userLimit ≤ (s.get now c.userKey).getD 0
  · simp [rateLimitScript, huser] at h
  · by_cases hitem : c.itemLimit ≤ (s.get now c.itemKey).getD 0
    · simp [rateLimitScript, huser, hitem] at h
    · omega

/-- A rejected call has found a counter at its limit. -/
theorem rateLimitScript_full (h : (rateLimitScript c now s).1 ≠ 1) :
    ((rateLimitScript c now s).1 = 0 ∧ c.userLimit ≤ (s.get now c.userKey).getD 0) ∨
      ((rateLimitScript c now s).1 = -1 ∧ c.itemLimit ≤ (s.get now c.itemKey).getD 0) := by
  by_cases huser : c.userLimit ≤ (s.get now c.userKey).getD 0
  · exact .inl ⟨by simp [rateLimitScript, huser], huser⟩
  · by_cases hitem : c.itemLimit ≤ (s.get now c.itemKey).getD 0
    · exact .inr ⟨by simp [rateLimitScript, huser, hitem], hitem⟩
    · simp [rateLimitScript, huser, hitem] at h

/-- What an accepted call makes of the entry of a key that it names. -/
def counted (now : Int) (ttl : Int) : Option Entry → Entry
  | none => ⟨1, some (now + ttl)⟩
  | some e => { e with value := e.value + 1 }

@[simp] theorem expireFirst_of_ne {k' : κ} {ttl count : Int} (h : k' ≠ k) :
    expireFirst s now k ttl count k' = s k' := by
  unfold expireFirst
  split
  · exact Store.expire_of_ne h
  · rfl

theorem expireFirst_congr {s' : Store κ} {ttl count : Int} (h : s k = s' k) :
    expireFirst s now k ttl count k = expireFirst s' now k ttl count k := by
  unfold expireFirst
  split
  · exact Store.expire_congr h
  · exact h

/-- `INCR`, then `EXPIRE` on the first one, of a counter that is not at zero. -/
theorem expireFirst_incr {ttl : Int} (hpos : ∀ e, s k = some e → 0 < e.value) :
    expireFirst (s.incr now k) now k ttl ((s.get now k).getD 0) k =
      some (counted now ttl (s.entry now k)) := by
  unfold expireFirst
  cases he : s.entry now k with
  | none =>
      rw [Store.get_eq_none.mpr he]
      exact Store.expire_of_fresh (Store.incr_of_absent he)
  | some e =>
      have hvalue := hpos e (Store.entry_eq_some.mp he).1
      rw [Store.get_of_entry he, Option.getD_some, if_neg (by omega)]
      exact Store.incr_of_entry he

/-- **The accepted call**: both keys are counted, and nothing else changes. -/
theorem rateLimitScript_accepted (hne : c.userKey ≠ c.itemKey)
    (hpos : ∀ k e, s k = some e → 0 < e.value) (h : (rateLimitScript c now s).1 = 1) :
    (rateLimitScript c now s).2 = fun k =>
      if c.userKey = k ∨ c.itemKey = k then some (counted now c.ttl (s.entry now k)) else s k := by
  obtain ⟨huser, hitem⟩ := rateLimitScript_below h
  simp only [rateLimitScript]
  rw [if_neg (by omega), if_neg (by omega)]
  have hitemIncr : (s.incr now c.userKey).incr now c.itemKey c.itemKey =
      s.incr now c.itemKey c.itemKey := Store.incr_congr (Store.incr_of_ne hne.symm)
  have huserIncr : (s.incr now c.userKey).incr now c.itemKey c.userKey =
      s.incr now c.userKey c.userKey := Store.incr_of_ne hne
  funext k
  dsimp only
  by_cases huk : c.userKey = k
  · subst huk
    rw [if_pos (.inl rfl), expireFirst_of_ne hne, expireFirst_congr huserIncr,
      expireFirst_incr (hpos c.userKey)]
  · by_cases hik : c.itemKey = k
    · subst hik
      have hitemStore : expireFirst ((s.incr now c.userKey).incr now c.itemKey) now c.userKey c.ttl
          ((s.get now c.userKey).getD 0) c.itemKey = s.incr now c.itemKey c.itemKey :=
        (expireFirst_of_ne (Ne.symm huk)).trans hitemIncr
      rw [if_pos (.inr rfl), expireFirst_congr hitemStore, expireFirst_incr (hpos c.itemKey)]
    · simp [huk, hik, Ne.symm huk, Ne.symm hik]

end

/-! ## Executions -/

/-- One execution of the script, with its answer. -/
structure Execution (κ : Type) where
  call : ScriptCall κ
  now : Int
  result : Int

section
variable {κ : Type} [DecidableEq κ]

/-- The call was accepted and names `k`. -/
def Execution.Accepts (x : Execution κ) (k : κ) : Prop :=
  x.result = 1 ∧ (x.call.userKey = k ∨ x.call.itemKey = k)

instance (x : Execution κ) (k : κ) : Decidable (x.Accepts k) :=
  inferInstanceAs (Decidable (_ ∧ _))

/-- Executions one after the other, at times that do not decrease, and the keys
that they leave. -/
inductive Executions : List (Execution κ) → Store κ → Prop
  | nil : Executions [] .empty
  | snoc {hist s} (c : ScriptCall κ) (now : Int) : Executions hist s →
      (∀ x ∈ hist, x.now ≤ now) →
      Executions (hist ++ [⟨c, now, (rateLimitScript c now s).1⟩]) (rateLimitScript c now s).2

/-- Every key has one limit and one time to live. -/
structure Buckets (κ : Type) where
  limit : κ → Int
  ttl : κ → Int
  limit_pos : ∀ k, 1 ≤ limit k
  ttl_pos : ∀ k, 0 < ttl k

/-- A call with two keys, and what belongs to them. -/
structure ScriptCall.Fits (b : Buckets κ) (c : ScriptCall κ) : Prop where
  distinct : c.userKey ≠ c.itemKey
  userLimit : c.userLimit = b.limit c.userKey
  itemLimit : c.itemLimit = b.limit c.itemKey
  userTtl : c.ttl = b.ttl c.userKey
  itemTtl : c.ttl = b.ttl c.itemKey

/-- The life of a counter so far: `first` has found no key and made it, it
expires a `ttl` later, and its value counts the calls accepted since. -/
structure Window (b : Buckets κ) (hist : List (Execution κ)) (k : κ) (e : Entry)
    (before : List (Execution κ)) (first : Execution κ) (since : List (Execution κ)) : Prop where
  split : hist = before ++ first :: since
  created : first.Accepts k ∧ ∃ s₀, Executions before s₀ ∧ s₀.get first.now k = none
  expiry : e.expiry = some (first.now + b.ttl k)
  value : e.value = 1 + since.countP (·.Accepts k)
  limit : e.value ≤ b.limit k
  earlier : ∀ x ∈ before, x.Accepts k → x.now < first.now
  later : ∀ x ∈ since, x.Accepts k → x.now < first.now + b.ttl k

/-- Every entry is a counter in its window, and a key without an entry was never counted. -/
structure Counted (b : Buckets κ) (hist : List (Execution κ)) (s : Store κ) : Prop where
  window : ∀ k e, s k = some e → ∃ before first since, Window b hist k e before first since
  unused : ∀ k, s k = none → ∀ x ∈ hist, ¬ x.Accepts k

variable {b : Buckets κ} {hist before since : List (Execution κ)} {s : Store κ} {k : κ} {e : Entry}
  {first x : Execution κ}

/-! ## Windows -/

theorem Window.pos (w : Window b hist k e before first since) : 0 < e.value := by
  have hvalue := w.value
  omega

/-- What was accepted before a key expires is accepted before it expires. -/
theorem Window.bound (w : Window b hist k e before first since) (hx : x ∈ hist)
    (hacc : x.Accepts k) : x.now < first.now + b.ttl k := by
  have httl := b.ttl_pos k
  rw [w.split] at hx
  cases List.mem_append.mp hx with
  | inl hbefore =>
      have hlt := w.earlier x hbefore hacc
      omega
  | inr hrest =>
      cases List.mem_cons.mp hrest with
      | inl hfirst =>
          subst hfirst
          omega
      | inr hsince => exact w.later x hsince hacc

/-- An execution that does not touch the key leaves its window as it is. -/
theorem Window.skip (w : Window b hist k e before first since) (hx : ¬ x.Accepts k) :
    Window b (hist ++ [x]) k e before first (since ++ [x]) where
  split := by simp [w.split]
  created := w.created
  expiry := w.expiry
  value := by simp [w.value, hx]
  limit := w.limit
  earlier := w.earlier
  later := by
    intro y hy hacc
    cases List.mem_append.mp hy with
    | inl hold => exact w.later y hold hacc
    | inr hnew =>
        obtain rfl := List.mem_singleton.mp hnew
        exact absurd hacc hx

/-- A call that is accepted inside the window is counted. -/
theorem Window.count (w : Window b hist k e before first since) (hx : x.Accepts k)
    (hlive : x.now < first.now + b.ttl k) (hlimit : e.value < b.limit k) :
    Window b (hist ++ [x]) k { e with value := e.value + 1 } before first (since ++ [x]) where
  split := by simp [w.split]
  created := w.created
  expiry := w.expiry
  value := by
    have hvalue := w.value
    simp [hx]
    omega
  limit := hlimit
  earlier := w.earlier
  later := by
    intro y hy hacc
    cases List.mem_append.mp hy with
    | inl hold => exact w.later y hold hacc
    | inr hnew =>
        obtain rfl := List.mem_singleton.mp hnew
        exact hlive

/-- The calls of a window, all or some of them. -/
theorem Window.countP_le (w : Window b hist k e before first since) (P : Execution κ → Prop)
    [DecidablePred P] : ((first :: since).countP fun x => x.Accepts k ∧ P x) ≤ e.value := by
  have hsome : ((first :: since).countP fun x => x.Accepts k ∧ P x) ≤
      (first :: since).countP (·.Accepts k) := by
    apply List.countP_mono_left
    intro x _ hx
    exact decide_eq_true (of_decide_eq_true hx).1
  have hall : (first :: since).countP (·.Accepts k) = since.countP (·.Accepts k) + 1 :=
    List.countP_cons_of_pos (decide_eq_true w.created.1)
  have hvalue := w.value
  omega

theorem Counted.pos (h : Counted b hist s) (k : κ) (e : Entry) (he : s k = some e) :
    0 < e.value := by
  obtain ⟨before, first, since, w⟩ := h.window k e he
  exact w.pos

/-- A key that is absent now was not accepted at this moment. -/
theorem Counted.before_absent (h : Counted b hist s) {now : Int} (habsent : s.get now k = none)
    (hx : x ∈ hist) (hacc : x.Accepts k) : x.now < now := by
  have hexpired := Store.entry_eq_none.mp (Store.get_eq_none.mp habsent)
  cases hk : s k with
  | none => exact absurd hacc (h.unused k hk x hx)
  | some e =>
      obtain ⟨before, first, since, w⟩ := h.window k e hk
      obtain ⟨t, ht, hle⟩ := hexpired e hk
      rw [w.expiry] at ht
      obtain rfl := Option.some.inj ht
      have hlt := w.bound hx hacc
      omega

/-- A call that fits, at a key that it names. -/
theorem ScriptCall.Fits.at_key {c : ScriptCall κ} (h : c.Fits b)
    (hk : c.userKey = k ∨ c.itemKey = k) {now : Int} (hacc : (rateLimitScript c now s).1 = 1) :
    c.ttl = b.ttl k ∧ (s.get now k).getD 0 < b.limit k := by
  obtain ⟨huser, hitem⟩ := rateLimitScript_below hacc
  cases hk with
  | inl heq =>
      subst heq
      exact ⟨h.userTtl, h.userLimit ▸ huser⟩
  | inr heq =>
      subst heq
      exact ⟨h.itemTtl, h.itemLimit ▸ hitem⟩

/-- An accepted call opens a window at each key that it names, or is counted there. -/
theorem Counted.accept (h : Counted b hist s) (hrun : Executions hist s) {c : ScriptCall κ}
    {now : Int} (hfits : c.Fits b) (hacc : (rateLimitScript c now s).1 = 1)
    (hk : c.userKey = k ∨ c.itemKey = k) :
    ∃ before first since, Window b (hist ++ [⟨c, now, 1⟩]) k
      (counted now c.ttl (s.entry now k)) before first since := by
  obtain ⟨httl, hbelow⟩ := hfits.at_key hk hacc
  have haccepts : (⟨c, now, 1⟩ : Execution κ).Accepts k := ⟨rfl, hk⟩
  cases hentry : s.entry now k with
  | none =>
      have habsent := Store.get_eq_none.mpr hentry
      refine ⟨hist, ⟨c, now, 1⟩, [], rfl, ⟨haccepts, s, hrun, habsent⟩, ?_, rfl, b.limit_pos k, ?_,
        by simp⟩
      · rw [counted, httl]
      · exact fun x hx hxk => h.before_absent habsent hx hxk
  | some e =>
      obtain ⟨hstored, hlive⟩ := Store.entry_eq_some.mp hentry
      obtain ⟨before, first, since, w⟩ := h.window k e hstored
      rw [Store.get_of_entry hentry] at hbelow
      have hnow : now < first.now + b.ttl k := by simpa [Entry.live, w.expiry] using hlive
      exact ⟨before, first, _, w.count haccepts hnow hbelow⟩

/-- One execution keeps the counters. -/
theorem Counted.snoc (h : Counted b hist s) (hrun : Executions hist s) {c : ScriptCall κ}
    {now : Int} (hfits : c.Fits b) :
    Counted b (hist ++ [⟨c, now, (rateLimitScript c now s).1⟩]) (rateLimitScript c now s).2 := by
  by_cases hacc : (rateLimitScript c now s).1 = 1
  · rw [rateLimitScript_accepted hfits.distinct h.pos hacc, hacc]
    constructor
    case window =>
      intro k e he
      by_cases hk : c.userKey = k ∨ c.itemKey = k
      · rw [if_pos hk] at he
        obtain rfl := Option.some.inj he
        exact h.accept hrun hfits hacc hk
      · rw [if_neg hk] at he
        obtain ⟨before, first, since, w⟩ := h.window k e he
        exact ⟨before, first, _, w.skip fun hx => hk hx.2⟩
    case unused =>
      intro k hnone x hx
      by_cases hk : c.userKey = k ∨ c.itemKey = k
      · rw [if_pos hk] at hnone
        contradiction
      · rw [if_neg hk] at hnone
        cases List.mem_append.mp hx with
        | inl hold => exact h.unused k hnone x hold
        | inr hnew =>
            obtain rfl := List.mem_singleton.mp hnew
            exact fun hx => hk hx.2
  · rw [rateLimitScript_rejected hacc]
    constructor
    case window =>
      intro k e he
      obtain ⟨before, first, since, w⟩ := h.window k e he
      exact ⟨before, first, _, w.skip fun hx => hacc hx.1⟩
    case unused =>
      intro k hnone x hx
      cases List.mem_append.mp hx with
      | inl hold => exact h.unused k hnone x hold
      | inr hnew =>
          obtain rfl := List.mem_singleton.mp hnew
          exact fun hx => hacc hx.1

/-- **Every key** counts in windows. -/
theorem counted_of_executions (hrun : Executions hist s) (hfits : ∀ x ∈ hist, x.call.Fits b) :
    Counted b hist s := by
  induction hrun with
  | nil => exact ⟨fun k e he => by contradiction, by simp⟩
  | snoc c now hrun hmono ih =>
      have hlast := hfits ⟨c, now, _⟩ (List.mem_append_right _ List.mem_cons_self)
      exact (ih fun x hx => hfits x (by simp [hx])).snoc hrun hlast

/-! ## Intervals -/

/-- The calls from `a` on, while the key is absent: at most one window of them
if less than a `ttl` has passed since `a`. -/
theorem countP_le_limit (hrun : Executions hist s) (hfits : ∀ x ∈ hist, x.call.Fits b) {a now : Int}
    (habsent : s.get now k = none) (ha : now ≤ a + b.ttl k) :
    (hist.countP fun x => x.Accepts k ∧ a ≤ x.now : Int) ≤ b.limit k := by
  have hcounted := counted_of_executions hrun hfits
  cases hk : s k with
  | none =>
      have hzero : hist.countP (fun x => x.Accepts k ∧ a ≤ x.now) = 0 := by
        rw [List.countP_eq_zero]
        intro x hx
        simp [hcounted.unused k hk x hx]
      have hpos := b.limit_pos k
      omega
  | some e =>
      obtain ⟨before, first, since, w⟩ := hcounted.window k e hk
      obtain ⟨t, ht, hle⟩ := Store.entry_eq_none.mp (Store.get_eq_none.mp habsent) e hk
      rw [w.expiry] at ht
      obtain rfl := Option.some.inj ht
      -- the window before this one is over at `a`
      have hbefore : before.countP (fun x => x.Accepts k ∧ a ≤ x.now) = 0 := by
        rw [List.countP_eq_zero]
        intro x hx hcond
        obtain ⟨hacc, hge⟩ := of_decide_eq_true hcond
        have hlt := w.earlier x hx hacc
        omega
      have hwindow := w.countP_le fun x => a ≤ x.now
      have hlimit := w.limit
      rw [w.split, List.countP_append, hbefore]
      omega

/-- Times do not decrease. -/
theorem Executions.le_last {c : ScriptCall κ} {now r : Int}
    (hrun : Executions (hist ++ [⟨c, now, r⟩]) s) (hx : x ∈ hist ++ [⟨c, now, r⟩]) : x.now ≤ now := by
  generalize hall : hist ++ [⟨c, now, r⟩] = all at hrun hx
  cases hrun with
  | nil => simp at hall
  | snoc c' now' hrun' hmono =>
      obtain ⟨rfl, hlast⟩ := List.append_inj' hall rfl
      obtain rfl : now = now' := congrArg Execution.now (List.singleton_inj.mp hlast)
      cases List.mem_append.mp hx with
      | inl hold => exact hmono x hold
      | inr hnew =>
          obtain rfl := List.mem_singleton.mp hnew
          exact Int.le_refl _

/-- Every execution was one after those before it. -/
theorem Executions.split {post : List (Execution κ)} (hrun : Executions (before ++ x :: post) s) :
    ∃ s₀, Executions before s₀ ∧ (∀ y ∈ before, y.now ≤ x.now) ∧
      x.result = (rateLimitScript x.call x.now s₀).1 := by
  induction post using List.reverseRecOn generalizing s with
  | nil =>
      generalize hall : before ++ [x] = all at hrun
      cases hrun with
      | nil => simp at hall
      | @snoc hist s₀ c now hrun hmono =>
          obtain ⟨rfl, hlast⟩ := List.append_inj' hall rfl
          obtain rfl := List.singleton_inj.mp hlast
          exact ⟨s₀, hrun, hmono, rfl⟩
  | append_singleton post y ih =>
      generalize hall : before ++ x :: (post ++ [y]) = all at hrun
      cases hrun with
      | nil => simp at hall
      | @snoc hist s₀ c now hrun hmono =>
          rw [← List.cons_append, ← List.append_assoc] at hall
          obtain ⟨rfl, -⟩ := List.append_inj' hall rfl
          exact ih hrun

/-- A counter at its limit has counted as many calls in the last `ttl`. -/
theorem Executions.limit_le_countP (hrun : Executions hist s) (hfits : ∀ x ∈ hist, x.call.Fits b)
    {now : Int} (hfull : b.limit k ≤ (s.get now k).getD 0) :
    b.limit k ≤ (hist.countP fun x => x.Accepts k ∧ now < x.now + b.ttl k : Int) := by
  have hpos := b.limit_pos k
  cases hentry : s.entry now k with
  | none =>
      rw [Store.get_eq_none.mpr hentry, Option.getD_none] at hfull
      omega
  | some e =>
      rw [Store.get_of_entry hentry, Option.getD_some] at hfull
      obtain ⟨hstored, hlive⟩ := Store.entry_eq_some.mp hentry
      obtain ⟨before, first, since, w⟩ := (counted_of_executions hrun hfits).window k e hstored
      have hnow : now < first.now + b.ttl k := by simpa [Entry.live, w.expiry] using hlive
      -- what is in the window is not older than the window
      have hlater : ∀ x ∈ first :: since, first.now ≤ x.now := by
        intro x hx
        cases List.mem_cons.mp hx with
        | inl hfirst => rw [hfirst]
        | inr hsince =>
            obtain ⟨mid, post, hsplit⟩ := List.append_of_mem hsince
            have hwhole : hist = (before ++ first :: mid) ++ x :: post := by
              rw [w.split, hsplit, List.append_assoc, List.cons_append]
            obtain ⟨_, _, hmono, _⟩ := Executions.split (hwhole ▸ hrun)
            exact hmono first (by simp)
      have hwindow : (first :: since).countP (·.Accepts k) ≤
          (first :: since).countP fun x => x.Accepts k ∧ now < x.now + b.ttl k := by
        apply List.countP_mono_left
        intro x hx hacc
        have hle := hlater x hx
        exact decide_eq_true ⟨of_decide_eq_true hacc, by omega⟩
      have hall : (first :: since).countP (·.Accepts k) = since.countP (·.Accepts k) + 1 :=
        List.countP_cons_of_pos (decide_eq_true w.created.1)
      have hvalue := w.value
      rw [w.split, List.countP_append]
      omega

/-- **Nobody is turned away for nothing**: a rejected call has found as many
calls as the limit, accepted in the `ttl` before it, at the key that it was
rejected for. -/
theorem Executions.turned_away (hrun : Executions hist s) (hfits : ∀ x ∈ hist, x.call.Fits b)
    (hx : x ∈ hist) (hrejected : x.result ≠ 1) :
    ∃ k, ((x.result = 0 ∧ k = x.call.userKey) ∨ (x.result = -1 ∧ k = x.call.itemKey)) ∧
      b.limit k ≤ (hist.countP fun y => y.Accepts k ∧ y.now ≤ x.now ∧ x.now < y.now + b.ttl k : Int) := by
  obtain ⟨before, post, hsplit⟩ := List.append_of_mem hx
  obtain ⟨s₀, hbefore, hmono, hresult⟩ := Executions.split (hsplit ▸ hrun)
  have hfitsBefore : ∀ y ∈ before, y.call.Fits b := fun y hy => hfits y (by simp [hsplit, hy])
  have hcount : ∀ k, b.limit k ≤ (s₀.get x.now k).getD 0 → b.limit k ≤
      (hist.countP fun y => y.Accepts k ∧ y.now ≤ x.now ∧ x.now < y.now + b.ttl k : Int) := by
    intro k hfull
    have hlimit := hbefore.limit_le_countP hfitsBefore hfull
    have hmore : before.countP (fun y => y.Accepts k ∧ x.now < y.now + b.ttl k) ≤
        before.countP (fun y => y.Accepts k ∧ y.now ≤ x.now ∧ x.now < y.now + b.ttl k) := by
      apply List.countP_mono_left
      intro y hy hcond
      obtain ⟨hacc, hlt⟩ := of_decide_eq_true hcond
      exact decide_eq_true ⟨hacc, hmono y hy, hlt⟩
    rw [hsplit, List.countP_append]
    omega
  have hxfits := hfits x hx
  rw [hresult] at hrejected ⊢
  cases rateLimitScript_full hrejected with
  | inl huser => exact ⟨_, .inl ⟨huser.1, rfl⟩, hcount _ (hxfits.userLimit ▸ huser.2)⟩
  | inr hitem => exact ⟨_, .inr ⟨hitem.1, rfl⟩, hcount _ (hxfits.itemLimit ▸ hitem.2)⟩

/-- An interval of length `ttl` meets two windows at most. -/
theorem countP_le_two_limits (hrun : Executions hist s) (hfits : ∀ x ∈ hist, x.call.Fits b)
    (k : κ) (a : Int) :
    (hist.countP fun x => x.Accepts k ∧ a ≤ x.now ∧ x.now ≤ a + b.ttl k : Int) ≤
      2 * b.limit k := by
  induction hrun with
  | nil =>
      have hpos := b.limit_pos k
      simp
      omega
  | @snoc hist s c now hrun hmono ih =>
      have hrest := ih fun x hx => hfits x (by simp [hx])
      have hnext := hrun.snoc c now hmono
      have hcounted := counted_of_executions hnext hfits
      generalize (rateLimitScript c now s).1 = r at *
      by_cases hlast : (⟨c, now, r⟩ : Execution κ).Accepts k ∧ a ≤ now ∧ now ≤ a + b.ttl k
      · obtain ⟨hacc, hge, hle⟩ := hlast
        cases hk : (rateLimitScript c now s).2 k with
        | none => exact absurd hacc (hcounted.unused k hk _ (by simp))
        | some e =>
            obtain ⟨before, first, since, w⟩ := hcounted.window k e hk
            obtain ⟨_, s₀, hbefore, habsent⟩ := w.created
            have hfirst : first.now ≤ now := hnext.le_last (by simp [w.split])
            have hold : before.countP (fun x => x.Accepts k ∧ a ≤ x.now) ≤ b.limit k :=
              countP_le_limit hbefore (fun x hx => hfits x (by simp [w.split, hx])) habsent
                (by omega)
            have hearly : before.countP (fun x => x.Accepts k ∧ a ≤ x.now ∧ x.now ≤ a + b.ttl k) ≤
                before.countP (fun x => x.Accepts k ∧ a ≤ x.now) := by
              apply List.countP_mono_left
              intro x _ hx
              obtain ⟨hacc, hge, _⟩ := of_decide_eq_true hx
              exact decide_eq_true ⟨hacc, hge⟩
            have hwindow := w.countP_le fun x => a ≤ x.now ∧ x.now ≤ a + b.ttl k
            have hlimit := w.limit
            rw [w.split, List.countP_append]
            omega
      · rw [List.countP_append, List.countP_singleton, if_neg (by simpa using hlast)]
        exact hrest

/-- **Rate limiter windows**: every counter that exists was made by an accepted
call, expires a `ttl` after it, and has counted what was accepted since, up to
its limit; a bucket that nobody was let into for a `ttl` is free; a rejected
call changes nothing; and no interval of length `ttl` has more than twice the
limit of accepted calls. -/
theorem rate_limit_windows (hrun : Executions hist s) (hfits : ∀ x ∈ hist, x.call.Fits b) :
    (∀ k e, s k = some e → ∃ before first since, Window b hist k e before first since) ∧
    (∀ k now, (∀ x ∈ hist, x.Accepts k → x.now + b.ttl k ≤ now) → s.get now k = none) ∧
    (∀ c now, (rateLimitScript c now s).1 ≠ 1 → (rateLimitScript c now s).2 = s) ∧
    ∀ k a, (hist.countP fun x => x.Accepts k ∧ a ≤ x.now ∧ x.now ≤ a + b.ttl k : Int) ≤
      2 * b.limit k := by
  have hcounted := counted_of_executions hrun hfits
  refine ⟨hcounted.window, ?_, fun c now => rateLimitScript_rejected, countP_le_two_limits hrun hfits⟩
  intro k now hpast
  rw [Store.get_eq_none, Store.entry_eq_none]
  intro e he
  obtain ⟨before, first, since, w⟩ := hcounted.window k e he
  exact ⟨_, w.expiry, hpast first (by simp [w.split]) w.created.1⟩

end

/-- Buckets of three calls in ten. -/
def threeInTen : Buckets Bool where
  limit _ := 3
  ttl _ := 10
  limit_pos _ := by decide
  ttl_pos _ := by decide

def threeInTenCall : ScriptCall Bool := ⟨true, false, 3, 3, 10⟩

/-- Calls at these times. -/
def executionsAt : List Int → List (Execution Bool) × Store Bool
  | [] => ([], .empty)
  | now :: earlier =>
      let (hist, s) := executionsAt earlier
      let (result, s') := rateLimitScript threeInTenCall now s
      (hist ++ [⟨threeInTenCall, now, result⟩], s')

theorem executions_at {times : List Int} (h : times.Pairwise (· ≥ ·)) :
    Executions (executionsAt times).1 (executionsAt times).2 ∧
      ∀ x ∈ (executionsAt times).1, x.call = threeInTenCall ∧ x.now ∈ times := by
  induction times with
  | nil => exact ⟨.nil, by simp [executionsAt]⟩
  | cons now earlier ih =>
      obtain ⟨hlatest, hrest⟩ := List.pairwise_cons.mp h
      obtain ⟨hrun, hall⟩ := ih hrest
      refine ⟨hrun.snoc threeInTenCall now fun x hx => hlatest _ (hall x hx).2, fun x hx => ?_⟩
      cases List.mem_append.mp hx with
      | inl hold => exact ⟨(hall x hold).1, List.mem_cons_of_mem _ (hall x hold).2⟩
      | inr hnew =>
          obtain rfl := List.mem_singleton.mp hnew
          exact ⟨rfl, List.mem_cons_self⟩

/-- Six calls around the end of a window, and one that is turned away. -/
theorem rate_limit_windows_threeInTen :
    ((executionsAt [10, 10, 10, 9, 9, 9, 0]).1.map (·.result)) = [1, 1, 1, 0, 1, 1, 1] ∧
    ((executionsAt [10, 10, 10, 9, 9, 9, 0]).1.countP
      fun x => x.Accepts true ∧ 0 ≤ x.now ∧ x.now ≤ 10 : Int) ≤ 6 := by
  have hsorted : ([10, 10, 10, 9, 9, 9, 0] : List Int).Pairwise (· ≥ ·) := by decide
  obtain ⟨hrun, hall⟩ := executions_at hsorted
  refine ⟨by decide, ?_⟩
  have hfits : ∀ x ∈ (executionsAt [10, 10, 10, 9, 9, 9, 0]).1, x.call.Fits threeInTen := by
    intro x hx
    rw [(hall x hx).1]
    exact ⟨by decide, rfl, rfl, rfl, rfl⟩
  exact (rate_limit_windows hrun hfits).2.2.2 true 0

end FairDrop
