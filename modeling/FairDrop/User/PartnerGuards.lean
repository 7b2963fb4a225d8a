import FairDrop.User.ApiKeys
import FairDrop.User.Deactivation

/-!
# FairDrop.User.PartnerGuards

Two guards read the same API key: `get_api_key_user`, which the partner endpoints
use, and `get_b2b_partner_by_api_key`.  The first lets in whom the key belongs
to, the second asks for an active B2B account; neither looks at the expiry date
of the key (`guardsAgree_iff`).
-/

namespace FairDrop

open RowStore

/-- A request alone is let in as the user. -/
def Admits (guard : UserTx UserRow) (d : UserDb) (u : UserRow) : Prop :=
  (exec userStore guard [] d [] ()).value = .ok u

instance (guard : UserTx UserRow) (d : UserDb) (u : UserRow) : Decidable (Admits guard d u) :=
  inferInstanceAs (Decidable (_ = _))

/-- The key has no expiry date, or it is not past. -/
def ApiKeyB2BPartner.Unexpired (k : ApiKeyB2BPartner) (now : Timestamp) : Prop :=
  ∀ expiresAt, k.expiresAt = some expiresAt → now ≤ expiresAt

/-- An active account with one of the two B2B roles. -/
def UserRow.isPartner (u : UserRow) : Bool := u.isActive ∧ u.role ∈ [.userB2b, .sellerB2b]

section
variable {J : Type} (crypto : Crypto J) (env : UserEnv) (scan : Scan (ApiKeyB2BPartner × UserRow))
  (d : UserDb) (apiKey : Option String)

/-- The key that the header of a request presents, with its user. -/
def UserDb.presentedKey : Option (ApiKeyB2BPartner × UserRow) :=
  match apiKey with
  | none | some "" => none
  | some rawKey => d.matchingKey crypto scan rawKey

/-- The guards admit the same users, and only partners with a key that counts. -/
structure GuardsAgree : Prop where
  same : ∀ u, Admits (getApiKeyUser crypto env scan apiKey) d u ↔
    Admits (getB2bPartnerByApiKey crypto env scan apiKey) d u
  sound : ∀ u, Admits (getApiKeyUser crypto env scan apiKey) d u ∨
    Admits (getB2bPartnerByApiKey crypto env scan apiKey) d u →
      ∃ k, d.presentedKey crypto scan apiKey = some (k, u) ∧ k.isActive ∧ k.Unexpired env.now ∧
        d.users.get u.id = some u ∧ u.isPartner

end

section
variable {J : Type} {crypto : Crypto J} {env : UserEnv} {scan : Scan (ApiKeyB2BPartner × UserRow)}
  {d : UserDb} {apiKey : Option String} {u : UserRow}

@[simp] theorem presentedKey_none : d.presentedKey crypto scan none = none := rfl

@[simp] theorem presentedKey_empty : d.presentedKey crypto scan (some "") = none := rfl

/-- A key that is not empty is looked up. -/
theorem presentedKey_some {rawKey : String} (h : rawKey = "" → False) :
    d.presentedKey crypto scan (some rawKey) = d.matchingKey crypto scan rawKey := by
  unfold UserDb.presentedKey
  split
  · contradiction
  · next hempty => exact (h (Option.some.inj hempty)).elim
  · next hkey =>
      obtain rfl := Option.some.inj hkey
      rfl

/-- The key of the header is one that the lookup matches. -/
theorem keyMatch_of_presentedKey {k : ApiKeyB2BPartner}
    (h : d.presentedKey crypto scan apiKey = some (k, u)) :
    ∃ rawKey, apiKey = some rawKey ∧ d.KeyMatch crypto rawKey k u := by
  unfold UserDb.presentedKey at h
  split at h
  · contradiction
  · contradiction
  · next rawKey _ => exact ⟨rawKey, rfl, UserDb.keyMatch_of_matchingKey h⟩

/-- A guard that goes by the answer of the lookup. -/
theorem exec_afterLookup {rawKey : String} {guard : UserTx UserRow}
    {f : Option (ApiKeyB2BPartner × UserRow) → Except UserError UserRow}
    (hguard : guard = authenticateApiKeyB2BPartner crypto env scan rawKey >>= fun found =>
      Prog.ofExcept (f found)) : (exec userStore guard [] d [] ()).value =
        f ((d.matchingKey crypto scan rawKey).map fun x =>
          ({ x.1 with lastUsedAt := some env.now }, x.2)) := by
  rw [hguard, exec_bind_ofExcept, exec_authenticateApiKey]
  rfl

/-- What the first guard makes of the answer. -/
def keyUser : Option (ApiKeyB2BPartner × UserRow) → Except UserError UserRow
  | none => .error (.permissionDenied "Invalid API Key")
  | some (_, user) => .ok user

/-- The stamp on the key leaves the user as found. -/
theorem keyUser_eq_ok {found : Option (ApiKeyB2BPartner × UserRow)} {now : Timestamp} :
    keyUser (found.map fun x => ({ x.1 with lastUsedAt := some now }, x.2)) = .ok u ↔
      ∃ k, found = some (k, u) := by
  cases found with
  | none => simp [keyUser]
  | some x => simp [keyUser, Prod.ext_iff]

/-- The first guard admits the user of the key. -/
theorem admits_getApiKeyUser : Admits (getApiKeyUser crypto env scan apiKey) d u ↔
    ∃ k, d.presentedKey crypto scan apiKey = some (k, u) := by
  unfold Admits getApiKeyUser
  split
  · change Except.error _ = Except.ok u ↔ _
    simp
  · change Except.error _ = Except.ok u ↔ _
    simp
  · next rawKey hkey =>
      have hlookup := @exec_afterLookup J crypto env scan d rawKey
      rw [presentedKey_some hkey, hlookup (f := keyUser)]
      · exact keyUser_eq_ok
      · congr 1
        funext found
        cases found <;> rfl

/-- What the second guard asks of the user of a key. -/
def checkPartner (user : UserRow) : Except UserError UserRow :=
  if ¬ user.isActive then .error (.credentials "User is not active")
  else if user.role ∉ [.userB2b, .sellerB2b] then
    .error (.credentials "Not a B2B partner account")
  else .ok user

/-- What the second guard makes of the answer. -/
def partnerUser : Option (ApiKeyB2BPartner × UserRow) → Except UserError UserRow
  | none => .error (.credentials "Invalid API key")
  | some (_, user) => checkPartner user

theorem checkPartner_eq_ok {user : UserRow} :
    checkPartner user = .ok u ↔ user = u ∧ u.isPartner := by
  unfold checkPartner UserRow.isPartner
  split
  · next hinactive =>
      constructor
      · intro h
        contradiction
      · rintro ⟨rfl, hpartner⟩
        exact absurd (of_decide_eq_true hpartner).1 hinactive
  · next hactive =>
      split
      · next hrole =>
          constructor
          · intro h
            contradiction
          · rintro ⟨rfl, hpartner⟩
            exact absurd (of_decide_eq_true hpartner).2 hrole
      · next hrole =>
          constructor
          · intro h
            obtain rfl := Except.ok.inj h
            exact ⟨rfl, decide_eq_true ⟨not_not.mp hactive, not_not.mp hrole⟩⟩
          · rintro ⟨rfl, _⟩
            rfl

/-- The stamp on the key has no bearing on the second guard either. -/
theorem partnerUser_eq_ok {found : Option (ApiKeyB2BPartner × UserRow)} {now : Timestamp} :
    partnerUser (found.map fun x => ({ x.1 with lastUsedAt := some now }, x.2)) = .ok u ↔
      ∃ k, found = some (k, u) ∧ u.isPartner := by
  cases found with
  | none => simp [partnerUser]
  | some x => simp [partnerUser, checkPartner_eq_ok, Prod.ext_iff]

/-- The second guard admits the user of the key, if that is an active partner. -/
theorem admits_getB2bPartnerByApiKey : Admits (getB2bPartnerByApiKey crypto env scan apiKey) d u ↔
    ∃ k, d.presentedKey crypto scan apiKey = some (k, u) ∧ u.isPartner := by
  unfold Admits getB2bPartnerByApiKey
  split
  · change Except.error _ = Except.ok u ↔ _
    simp
  · change Except.error _ = Except.ok u ↔ _
    simp
  · next rawKey hkey =>
      have hlookup := @exec_afterLookup J crypto env scan d rawKey
      rw [presentedKey_some hkey, hlookup (f := partnerUser)]
      · exact partnerUser_eq_ok
      · congr 1
        funext found
        cases found with
        | none => rfl
        | some x =>
            dsimp only [partnerUser, checkPartner]
            split
            · rfl
            · split <;> rfl

/-- **The guards agree** exactly where the key that is presented belongs to an active
partner and is not past its expiry date. -/
theorem guardsAgree_iff : GuardsAgree crypto env scan d apiKey ↔
    ∀ k u, d.presentedKey crypto scan apiKey = some (k, u) →
      k.Unexpired env.now ∧ u.isPartner := by
  constructor
  · rintro hagree k u hkey
    obtain ⟨k', hkey', _, hunexpired, _, hpartner⟩ :=
      hagree.sound u (.inl (admits_getApiKeyUser.mpr ⟨k, hkey⟩))
    obtain rfl : k = k' := (Prod.mk.inj (Option.some.inj (hkey.symm.trans hkey'))).1
    exact ⟨hunexpired, hpartner⟩
  · intro hcond
    have hsecond : ∀ u, Admits (getB2bPartnerByApiKey crypto env scan apiKey) d u ↔
        ∃ k, d.presentedKey crypto scan apiKey = some (k, u) := by
      intro u
      rw [admits_getB2bPartnerByApiKey]
      exact ⟨fun ⟨k, hkey, _⟩ => ⟨k, hkey⟩, fun ⟨k, hkey⟩ => ⟨k, hkey, (hcond k u hkey).2⟩⟩
    refine ⟨fun u => admits_getApiKeyUser.trans (hsecond u).symm, fun u hadmits => ?_⟩
    obtain ⟨k, hkey⟩ := hadmits.elim admits_getApiKeyUser.mp (hsecond u).mp
    obtain ⟨hunexpired, hpartner⟩ := hcond k u hkey
    obtain ⟨_, _, hmatch⟩ := keyMatch_of_presentedKey hkey
    exact ⟨k, hkey, hmatch.active, hunexpired,
      Table.get_of_mem (Table.mem_of_get hmatch.owner), hpartner⟩

end

/-- An administrator's key opens the partner endpoints, though not by the other
guard. -/
theorem not_guardsAgree : ¬ ∀ (J : Type) (crypto : Crypto J) (env : UserEnv)
    (scan : Scan (ApiKeyB2BPartner × UserRow)) (d : UserDb) (apiKey : Option String),
    GuardsAgree crypto env scan d apiKey := by
  intro hall
  have hadmits : Admits (getApiKeyUser plainCrypto (drawing "" 0) keyOrder
      (some partnerKey.hashedKey)) credentials administrator := by decide +kernel
  have hrefuses : ¬ Admits (getB2bPartnerByApiKey plainCrypto (drawing "" 0) keyOrder
      (some partnerKey.hashedKey)) credentials administrator := by decide +kernel
  exact hrefuses (((hall _ plainCrypto (drawing "" 0) keyOrder credentials
    (some partnerKey.hashedKey)).same administrator).mp hadmits)

end FairDrop
