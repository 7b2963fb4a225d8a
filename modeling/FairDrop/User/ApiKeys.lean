import FairDrop.RowStore.Serial
import FairDrop.User.Guards
import FairDrop.User.Logins
import Mathlib.Data.List.Pairwise

/-!
# FairDrop.User.ApiKeys

The life of an API key.  A lookup narrows the stored keys by the first twelve
characters and then tries their hashes one by one; after any calls that issue,
revoke and switch keys it finds a key exactly by the string that the key was
made from (`keys_answer`).
-/

namespace FairDrop

open RowStore

/-! ## The lookup -/

/-- The key row that the lookup settles on, with its user. -/
def UserDb.matchingKey {J : Type} (d : UserDb) (crypto : Crypto J)
    (scan : Scan (ApiKeyB2BPartner × UserRow)) (rawKey : String) :
    Option (ApiKeyB2BPartner × UserRow) :=
  (scan.val (d.candidateKeys rawKey)).find? fun k => crypto.verify rawKey k.1.hashedKey

/-- A key row that the raw key may belong to, and fits. -/
structure UserDb.KeyMatch {J : Type} (d : UserDb) (crypto : Crypto J) (rawKey : String)
    (k : ApiKeyB2BPartner) (user : UserRow) : Prop where
  stored : d.apiKeys.get k.id = some k
  active : k.isActive
  keyPrefix : k.keyPrefix = apiKeyPrefix rawKey
  owner : d.users.get k.userId = some user
  verifies : crypto.verify rawKey k.hashedKey

section
variable {J : Type} {crypto : Crypto J} {env : UserEnv} {scan : Scan (ApiKeyB2BPartner × UserRow)}
  {d : UserDb} {rawKey : String} {k : ApiKeyB2BPartner} {user : UserRow}

theorem UserDb.keyMatch_of_matchingKey (h : d.matchingKey crypto scan rawKey = some (k, user)) :
    d.KeyMatch crypto rawKey k user := by
  have hmem : (k, user) ∈ d.candidateKeys rawKey :=
    (scan.property _).mem_iff.mp (List.mem_of_find?_eq_some h)
  obtain ⟨hget, hactive, hpre, hu⟩ := mem_candidateKeys.mp hmem
  have hverify := List.find?_some
    (p := fun x : ApiKeyB2BPartner × UserRow => crypto.verify rawKey x.1.hashedKey) h
  exact ⟨hget, hactive, hpre, hu, hverify⟩

/-- The lookup finds something, if there is something to be found. -/
theorem UserDb.matchingKey_eq_none : d.matchingKey crypto scan rawKey = none ↔
    ∀ k user, ¬ d.KeyMatch crypto rawKey k user := by
  rw [matchingKey, List.find?_eq_none]
  constructor
  · intro h k user hmatch
    refine h (k, user) ((scan.property _).mem_iff.mpr ?_) hmatch.verifies
    exact mem_candidateKeys.mpr ⟨hmatch.stored, hmatch.active, hmatch.keyPrefix, hmatch.owner⟩
  · rintro h ⟨k, user⟩ hmem hverify
    obtain ⟨hget, hactive, hpre, hu⟩ := mem_candidateKeys.mp ((scan.property _).mem_iff.mp hmem)
    exact h k user ⟨hget, hactive, hpre, hu, hverify⟩

/-- Alone on the database, the lookup answers with the row it settles on. -/
theorem exec_authenticateApiKey :
    (exec userStore (authenticateApiKeyB2BPartner crypto env scan rawKey) [] d [] ()).value =
      .ok ((d.matchingKey crypto scan rawKey).map fun x =>
        ({ x.1 with lastUsedAt := some env.now }, x.2)) := by
  rw [authenticateApiKeyB2BPartner, exec_select]
  cases hfind : d.matchingKey crypto scan rawKey with
  | none =>
      rw [UserDb.matchingKey] at hfind
      simp only [hfind]
      rfl
  | some x =>
      have hstored := (UserDb.keyMatch_of_matchingKey hfind).stored
      rw [UserDb.matchingKey] at hfind
      simp only [hfind]
      change (exec userStore (.commit _) [] d [_] ()).value = _
      rw [exec, Store.applyAll_singleton]
      simp only [userStore, UserWrite.apply, hstored]
      rfl

end

/-! ## Calls -/

inductive KeyCall where
  | create (env : UserEnv) (userId : Uuid) (name : String)
  | delete (userId keyId : Uuid)
  /-- The edit form of the admin panel, of which only the flag is changed. -/
  | switch (keyId : Uuid) (isActive : Bool)
  | authenticate (env : UserEnv) (scan : Scan (ApiKeyB2BPartner × UserRow)) (rawKey : String)

def switchApiKey (keyId : Uuid) (isActive : Bool) : UserTx Unit := do
  let d ← Prog.select
  match d.apiKeys.get keyId with
  | none => throw .notFound
  | some k =>
      Prog.save (.updateApiKey { k with isActive := isActive })
      Prog.commitWork

def KeyCall.program {J : Type} (crypto : Crypto J) : KeyCall → UserTx Unit
  | .create env userId name => (fun _ => ()) <$> createApiKeyB2BPartner env userId name
  | .delete userId keyId => deleteApiKeyB2BPartner userId keyId
  | .switch keyId isActive => switchApiKey keyId isActive
  | .authenticate env scan rawKey =>
      (fun _ => ()) <$> authenticateApiKeyB2BPartner crypto env scan rawKey

abbrev KeyDone := Done UserDb UserError Unit KeyCall

/-- The string that a call has made a key from. -/
def KeyCall.rawKey : KeyCall → Option String
  | .create env _ _ => some env.tokenUrlsafe
  | _ => none

/-- The row that a call adds if it succeeds. -/
def KeyCall.row : KeyCall → Option ApiKeyB2BPartner
  | .create env userId name => some {
      id := env.uuid 0
      userId := userId
      name := name
      keyPrefix := apiKeyPrefix env.tokenUrlsafe
      hashedKey := env.passwordHash env.tokenUrlsafe
      isActive := true
      expiresAt := none
      lastUsedAt := none }
  | _ => none

/-- The string that a call has made the key `id` from. -/
def issuedKey (id : Uuid) (x : KeyDone) : Option String :=
  if x.call.row.map ApiKeyB2BPartner.id = some id ∧ x.before.apiKeys.get id = none ∧
      (x.after.apiKeys.get id).isSome then x.call.rawKey
  else none

/-- The string that the key `id` was made from. -/
def rawKeyOf (id : Uuid) (calls : List KeyDone) : Option String := latest (issuedKey id) calls

/-- `verify_password` accepts a string for its own hashes only. -/
def HashesFit {J : Type} (crypto : Crypto J) : KeyCall → Prop
  | .create env _ _ => ∀ s r, crypto.verify s (env.passwordHash r) ↔ s = r
  | _ => True

/-! ## What the keys answer -/

section
variable {J : Type} (crypto : Crypto J) (calls : List KeyDone) (d : UserDb)

/-- A string opens the key that was made from it, while that is stored and active,
and no other; and nobody deletes the key of another user. -/
structure KeysAnswer : Prop where
  found : ∀ env scan s k, d.apiKeys.get k.id = some k →
    ((∃ user, (exec userStore (authenticateApiKeyB2BPartner crypto env scan s) [] d [] ()).value =
      .ok (some ({ k with lastUsedAt := some env.now }, user))) ↔
        k.isActive ∧ rawKeyOf k.id calls = some s)
  notFound : ∀ env scan s,
    (∀ k, d.apiKeys.get k.id = some k → k.isActive → rawKeyOf k.id calls ≠ some s) →
      (exec userStore (authenticateApiKeyB2BPartner crypto env scan s) [] d [] ()).value = .ok none
  created : ∀ k, d.apiKeys.get k.id = some k → (rawKeyOf k.id calls).isSome
  deletes : ∀ x ∈ calls, ∀ userId keyId, x.call = .delete userId keyId →
    ∀ k, x.before.apiKeys.get k.id = some k → k.userId ≠ userId →
      x.after.apiKeys.get k.id = some k

end

/-! ## What each call does -/

/-- What a call can do to the keys. -/
inductive KeyEffect (d : UserDb) : KeyCall → UserDb → Prop
  | nothing (c : KeyCall) : KeyEffect d c d
  | created (c : KeyCall) (k : ApiKeyB2BPartner) (hrow : c.row = some k)
      (hnew : d.apiKeys.get k.id = none) (hu : (d.users.get k.userId).isSome) :
      KeyEffect d c { d with apiKeys := d.apiKeys.insert k hnew }
  | deleted (userId : Uuid) (k : ApiKeyB2BPartner) (hk : d.apiKeys.get k.id = some k)
      (howner : k.userId = userId) :
      KeyEffect d (.delete userId k.id) { d with apiKeys := d.apiKeys.erase k.id }
  /-- Another flag, or another time of use. -/
  | updated (c : KeyCall) (hc : c.rawKey = none) (hkeep : ∀ userId keyId, c ≠ .delete userId keyId)
      (k : ApiKeyB2BPartner) (hk : d.apiKeys.get k.id = some k) (isActive : Bool)
      (lastUsedAt : Option Timestamp) :
      KeyEffect d c { d with
        apiKeys := d.apiKeys.set { k with isActive := isActive, lastUsedAt := lastUsedAt } }

section
variable {J : Type} {crypto : Crypto J} {d d' : UserDb} {faults : List Bool}

/-- The end of `create_api_key_b2b_partner`, which writes nothing. -/
def refreshApiKey (id : Uuid) (rawKey : String) : UserTx (ApiKeyB2BPartner × String) := do
  let d ← Prog.select
  match d.apiKeys.get id with
  | some apiKey => return (apiKey, rawKey)
  | none => throw .staleData

/-- What creating a key does. -/
theorem keyEffect_create {env : UserEnv} {userId : Uuid} {name : String}
    (h : (perform userStore (KeyCall.program crypto) () d (.create env userId name) faults).after =
      d') : KeyEffect d (.create env userId name) d' := by
  simp only [perform, KeyCall.program, exec_map_db] at h
  have hrest : ∀ (x : Except UserError Unit) fs d, (exec userStore
      (Prog.ofExcept x >>= fun _ => refreshApiKey (env.uuid 0) env.tokenUrlsafe) fs d [] ()).db = d := by
    intro x fs d
    cases x with
    | error e => rfl
    | ok _ =>
        change (exec userStore (refreshApiKey _ _) fs d [] ()).db = d
        rw [refreshApiKey, exec_select]
        split
        · rfl
        · cases d.apiKeys.get (env.uuid 0) <;> rfl
  cases exec_write_commit hrest with
  | inl hsame => exact h.symm.trans hsame ▸ .nothing _
  | inr happly =>
      simp only [userStore, UserWrite.apply, except_bind_eq_ok, UserDb.require_eq_ok,
        UserDb.addRow_eq_ok] at happly
      obtain ⟨_, hu, _, ⟨hnew, rfl⟩, hd⟩ := happly
      exact h.symm.trans (Except.ok.inj hd).symm ▸ .created _ _ rfl hnew hu

/-- What deleting a key does. -/
theorem keyEffect_delete {userId keyId : Uuid}
    (h : (perform userStore (KeyCall.program crypto) () d (.delete userId keyId) faults).after =
      d') : KeyEffect d (.delete userId keyId) d' := by
  simp only [perform, KeyCall.program] at h
  rw [deleteApiKeyB2BPartner, exec_select] at h
  split at h
  · exact h ▸ .nothing _
  · cases hk : (d.apiKeys.get keyId).filter fun k => k.userId = userId with
    | none =>
        rw [hk] at h
        exact h ▸ .nothing _
    | some k =>
        rw [hk] at h
        obtain ⟨hget, howner⟩ := Option.filter_eq_some_iff.mp hk
        obtain rfl : k.id = keyId := Table.key_of_get hget
        cases exec_write_commit fun _ _ _ => exec_ofExcept_db with
        | inl hsame => exact h.symm.trans hsame ▸ .nothing _
        | inr happly =>
            exact h.symm.trans (Except.ok.inj happly).symm ▸
              .deleted userId k hget (of_decide_eq_true howner)

/-- What switching a key on or off does. -/
theorem keyEffect_switch {keyId : Uuid} {isActive : Bool}
    (h : (perform userStore (KeyCall.program crypto) () d (.switch keyId isActive) faults).after =
      d') : KeyEffect d (.switch keyId isActive) d' := by
  simp only [perform, KeyCall.program] at h
  rw [switchApiKey, exec_select] at h
  split at h
  · exact h ▸ .nothing _
  · cases hk : d.apiKeys.get keyId with
    | none =>
        rw [hk] at h
        exact h ▸ .nothing _
    | some k =>
        rw [hk] at h
        obtain rfl : k.id = keyId := Table.key_of_get hk
        cases exec_write_commit fun _ _ _ => exec_ofExcept_db with
        | inl hsame => exact h.symm.trans hsame ▸ .nothing _
        | inr happly =>
            simp only [userStore, UserWrite.apply, except_bind_eq_ok, UserDb.require_eq_ok] at happly
            obtain ⟨_, _, _, _, hd⟩ := happly
            exact h.symm.trans (Except.ok.inj hd).symm ▸
              .updated _ rfl (fun _ _ h => by cases h) k hk isActive k.lastUsedAt

/-- What a call with a key does. -/
theorem keyEffect_authenticate {env : UserEnv} {scan : Scan (ApiKeyB2BPartner × UserRow)}
    {rawKey : String}
    (h : (perform userStore (KeyCall.program crypto) () d (.authenticate env scan rawKey)
      faults).after = d') : KeyEffect d (.authenticate env scan rawKey) d' := by
  simp only [perform, KeyCall.program, exec_map_db] at h
  rw [authenticateApiKeyB2BPartner, exec_select] at h
  split at h
  · exact h ▸ .nothing _
  · cases hfind : d.matchingKey crypto scan rawKey with
    | none =>
        rw [UserDb.matchingKey] at hfind
        rw [hfind] at h
        exact h ▸ .nothing _
    | some x =>
        have hstored := (UserDb.keyMatch_of_matchingKey hfind).stored
        rw [UserDb.matchingKey] at hfind
        rw [hfind] at h
        have hrest : ∀ (y : Except UserError Unit) fs d, (exec userStore
            (Prog.ofExcept y >>= fun _ => pure (some ({ x.1 with lastUsedAt := some env.now }, x.2)))
              fs d [] ()).db = d := by
          intro y fs d
          cases y <;> rfl
        cases exec_write_commit hrest with
        | inl hsame => exact h.symm.trans hsame ▸ .nothing _
        | inr happly =>
            simp only [userStore, UserWrite.apply, hstored] at happly
            exact h.symm.trans (Except.ok.inj happly).symm ▸
              .updated _ rfl (fun _ _ h => by cases h) x.1 hstored x.1.isActive (some env.now)

/-- Every call has one of these effects, whatever fails. -/
theorem keyEffect (c : KeyCall) (faults : List Bool) :
    KeyEffect d c (perform userStore (KeyCall.program crypto) () d c faults).after := by
  cases c with
  | create env userId name => exact keyEffect_create rfl
  | delete userId keyId => exact keyEffect_delete rfl
  | switch keyId isActive => exact keyEffect_switch rfl
  | authenticate env scan rawKey => exact keyEffect_authenticate rfl

theorem KeyEffect.users {c : KeyCall} (h : KeyEffect d c d') : d'.users = d.users := by
  cases h <;> rfl

/-- A key that is stored afterwards was stored before, but for its flag and its time
of use, or has been added. -/
theorem KeyEffect.stored {c : KeyCall} (h : KeyEffect d c d') {k : ApiKeyB2BPartner}
    (hk : d'.apiKeys.get k.id = some k) :
    (∃ k₀, d.apiKeys.get k.id = some k₀ ∧ k₀.userId = k.userId ∧ k₀.keyPrefix = k.keyPrefix ∧
      k₀.hashedKey = k.hashedKey) ∨
    (d.apiKeys.get k.id = none ∧ c.row = some k ∧ (d.users.get k.userId).isSome) := by
  cases h with
  | nothing => exact .inl ⟨k, hk, rfl, rfl, rfl⟩
  | created c k₁ hrow hnew hu =>
      cases (Table.mem_insert hnew).mp (Table.mem_of_get hk) with
      | inl hmem => exact .inl ⟨k, Table.get_of_mem hmem, rfl, rfl, rfl⟩
      | inr heq =>
          subst heq
          exact .inr ⟨hnew, hrow, hu⟩
  | deleted userId k₁ hk₁ howner =>
      have hmem := (Table.mem_erase.mp (Table.mem_of_get hk)).1
      exact .inl ⟨k, Table.get_of_mem hmem, rfl, rfl, rfl⟩
  | updated c hc hkeep k₁ hk₁ isActive lastUsedAt =>
      cases Table.mem_set (Table.mem_of_get hk) with
      | inl heq =>
          subst heq
          exact .inl ⟨k₁, hk₁, rfl, rfl, rfl⟩
      | inr hmem => exact .inl ⟨k, Table.get_of_mem hmem.1, rfl, rfl, rfl⟩

theorem KeyEffect.deletes {userId keyId : Uuid} (h : KeyEffect d (.delete userId keyId) d')
    {k : ApiKeyB2BPartner} (hk : d.apiKeys.get k.id = some k) (hother : k.userId ≠ userId) :
    d'.apiKeys.get k.id = some k := by
  generalize hc : KeyCall.delete userId keyId = c at h
  cases h with
  | nothing => exact hk
  | created c k₁ hrow => subst hc; contradiction
  | deleted userId' k₁ hk₁ howner =>
      obtain ⟨rfl, _⟩ := KeyCall.delete.inj hc
      have hne : k₁.id ≠ k.id := by
        intro heq
        rw [← heq, hk₁] at hk
        exact hother (Option.some.inj hk ▸ howner)
      exact (Table.get_erase_ne hne).trans hk
  | updated c _ hkeep => exact absurd hc.symm (hkeep userId keyId)

end

/-! ## Runs -/

section
variable {J : Type} {crypto : Crypto J} {d₀ d : UserDb} {calls : List KeyDone}

/-- A run whose hashes fit. -/
abbrev KeyRun (crypto : Crypto J) (d₀ : UserDb) (calls : List KeyDone) (d : UserDb) : Prop :=
  Serial userStore (KeyCall.program crypto) () (fun _ c _ => HashesFit crypto c) d₀ calls d

/-- The stored keys have the prefix and the hash of the string that they were made
from. -/
def KeyRows (crypto : Crypto J) (calls : List KeyDone) (d : UserDb) : Prop :=
  ∀ k, d.apiKeys.get k.id = some k → ∃ r, rawKeyOf k.id calls = some r ∧
    k.keyPrefix = apiKeyPrefix r ∧ (∀ s, crypto.verify s k.hashedKey ↔ s = r) ∧
      (d.users.get k.userId).isSome

/-- A call keeps the rows those of the keys issued so far. -/
theorem KeyRows.snoc (h : KeyRows crypto calls d) {c : KeyCall} (hfit : HashesFit crypto c)
    (faults : List Bool) :
    let x := perform userStore (KeyCall.program crypto) () d c faults
    KeyRows crypto (calls ++ [x]) x.after := by
  intro x k hk
  have heffect : KeyEffect d c x.after := keyEffect c faults
  rw [rawKeyOf, latest_snoc, heffect.users]
  cases heffect.stored hk with
  | inl hold =>
      obtain ⟨k₀, hk₀, huser, hpre, hhash⟩ := hold
      have hid : k₀.id = k.id := Table.key_of_get hk₀
      have hnone : issuedKey k.id x = none := if_neg fun hissued => by
        have hbefore : d.apiKeys.get k.id = none := hissued.2.1
        rw [hk₀] at hbefore
        contradiction
      obtain ⟨r, hr, hpre₀, hfits, hu⟩ := h k₀ (hid ▸ hk₀)
      rw [hnone, ← hpre, ← hhash, ← huser, ← hid]
      exact ⟨r, hr, hpre₀, hfits, hu⟩
  | inr hnew =>
      obtain ⟨hnone, hrow, hu⟩ := hnew
      cases c with
      | create env userId name =>
          obtain rfl := Option.some.inj hrow
          refine ⟨env.tokenUrlsafe, ?_, rfl, fun s => hfit s env.tokenUrlsafe, hu⟩
          rw [issuedKey, if_pos ⟨rfl, hnone, by rw [hk]; rfl⟩]
          rfl
      | delete | switch | authenticate => contradiction

/-- After every run the rows are those of the keys issued and not deleted. -/
theorem keyRows_of_run (hrun : KeyRun crypto d₀ calls d) (h₀ : d₀.apiKeys = .empty) :
    KeyRows crypto calls d := by
  induction hrun with
  | nil =>
      intro k hk
      rw [h₀] at hk
      contradiction
  | snoc _ hfit ih => exact ih.snoc hfit _

/-- A string is given out at most once. -/
theorem eq_of_filterMap_nodup {α β : Type} {f : α → Option β} {l : List α}
    (h : (l.filterMap f).Nodup) {a b : α} {r : β} (ha : a ∈ l) (hb : b ∈ l) (hfa : f a = some r)
    (hfb : f b = some r) : a = b := by
  by_contra hne
  have hsymm : Std.Symm fun x y => ∀ c, f x = some c → ∀ e, f y = some e → c ≠ e :=
    ⟨fun x y hxy c hc e he => (hxy e he c hc).symm⟩
  exact (List.pairwise_filterMap.mp h).forall ha hb hne r hfa r hfb rfl

/-- Two keys are not made from one string. -/
theorem rawKeyOf_inj (hdistinct : (calls.filterMap fun x => x.call.rawKey).Nodup) {i j : Uuid}
    {r : String} (hi : rawKeyOf i calls = some r) (hj : rawKeyOf j calls = some r) : i = j := by
  obtain ⟨x, hx, hxi⟩ := exists_of_latest hi
  obtain ⟨y, hy, hyj⟩ := exists_of_latest hj
  unfold issuedKey at hxi hyj
  split at hxi
  · next hcreated =>
      split at hyj
      · next hcreated' =>
          obtain rfl := eq_of_filterMap_nodup hdistinct hx hy hxi hyj
          exact Option.some.inj (hcreated.1.symm.trans hcreated'.1)
      · contradiction
  · contradiction

/-- **A string opens the key that was made from it**, and no other, after any calls. -/
theorem keys_answer (h₀ : d₀.apiKeys = .empty)
    (hdistinct : (calls.filterMap fun x => x.call.rawKey).Nodup)
    (hrun : KeyRun crypto d₀ calls d) : KeysAnswer crypto calls d := by
  have hrows := keyRows_of_run hrun h₀
  have hsame : ∀ k k' r, d.apiKeys.get k.id = some k → d.apiKeys.get k'.id = some k' →
      rawKeyOf k.id calls = some r → rawKeyOf k'.id calls = some r → k = k' := by
    intro k k' r hk hk' hr hr'
    rw [rawKeyOf_inj hdistinct hr hr', hk'] at hk
    exact (Option.some.inj hk).symm
  have hmatch : ∀ s k user, d.KeyMatch crypto s k user → rawKeyOf k.id calls = some s := by
    intro s k user hm
    obtain ⟨r, hr, _, hfits, _⟩ := hrows k hm.stored
    rw [hr, (hfits s).mp hm.verifies]
  constructor
  · intro env scan s k hk
    rw [exec_authenticateApiKey]
    constructor
    · rintro ⟨user, h⟩
      obtain ⟨⟨k', user'⟩, hx, heq⟩ := Option.map_eq_some_iff.mp (Except.ok.inj h)
      have hm := UserDb.keyMatch_of_matchingKey hx
      have hid : k'.id = k.id := congrArg (fun x => x.1.id) heq
      obtain rfl : k' = k := Option.some.inj ((hid ▸ hm.stored).symm.trans hk)
      exact ⟨hm.active, hmatch s k' user' hm⟩
    · rintro ⟨hactive, hraw⟩
      obtain ⟨r, hr, hpre, hfits, hu⟩ := hrows k hk
      obtain rfl : s = r := Option.some.inj (hraw.symm.trans hr)
      obtain ⟨user, huser⟩ := Option.isSome_iff_exists.mp hu
      have hm : d.KeyMatch crypto s k user := ⟨hk, hactive, hpre, huser, (hfits s).mpr rfl⟩
      cases hfound : d.matchingKey crypto scan s with
      | none => exact absurd hm (UserDb.matchingKey_eq_none.mp hfound k user)
      | some x =>
          have hx := UserDb.keyMatch_of_matchingKey hfound
          obtain rfl := hsame k x.1 s hk hx.stored hr (hmatch s x.1 x.2 hx)
          exact ⟨x.2, rfl⟩
  · intro env scan s hnone
    rw [exec_authenticateApiKey]
    have hnothing : d.matchingKey crypto scan s = none :=
      UserDb.matchingKey_eq_none.mpr fun k user hm =>
        hnone k hm.stored hm.active (hmatch s k user hm)
    rw [hnothing]
    rfl
  · intro k hk
    obtain ⟨r, hr, _⟩ := hrows k hk
    rw [hr]
    rfl
  · have hdeletes := (hrun.keeps (I := fun _ => True) (P := fun x => KeyEffect x.before x.call x.after)
      trivial fun d c faults _ _ => ⟨trivial, keyEffect c faults⟩).2
    intro x hx userId keyId hcall k hk hother
    exact (hcall ▸ hdeletes x hx).deletes hk hother

end

/-! ## Two keys with one prefix -/

def keyDone (d : UserDb) (c : KeyCall) : KeyDone :=
  perform userStore (KeyCall.program plainCrypto) () d c []

def firstKey : KeyDone :=
  keyDone oneUser (.create (drawing "partner-key-1" 20) administrator.id "first")

def secondKey : KeyDone :=
  keyDone firstKey.after (.create (drawing "partner-key-2" 21) administrator.id "second")

def firstRevoked : KeyDone := keyDone secondKey.after (.delete administrator.id 20)

theorem keyRun_firstRevoked :
    KeyRun plainCrypto oneUser [firstKey, secondKey, firstRevoked] firstRevoked.after := by
  have hfits : ∀ token firstId userId name,
      HashesFit plainCrypto (.create (drawing token firstId) userId name) :=
    fun _ _ _ _ _ _ => decide_eq_true_iff
  have hfirst : KeyRun plainCrypto oneUser [firstKey] firstKey.after :=
    .snoc .nil (hfits "partner-key-1" 20 administrator.id "first")
  have hsecond : KeyRun plainCrypto oneUser [firstKey, secondKey] secondKey.after :=
    hfirst.snoc (hfits "partner-key-2" 21 administrator.id "second")
  exact hsecond.snoc trivial

/-- The second key still opens, the first does not. -/
theorem keys_answer_firstRevoked :
    KeysAnswer plainCrypto [firstKey, secondKey, firstRevoked] firstRevoked.after ∧
      rawKeyOf 21 [firstKey, secondKey, firstRevoked] = some "partner-key-2" ∧
      firstRevoked.after.apiKeys.rows.map ApiKeyB2BPartner.id = [21] :=
  ⟨keys_answer rfl (by decide +kernel) keyRun_firstRevoked, by decide +kernel, by decide +kernel⟩

end FairDrop
