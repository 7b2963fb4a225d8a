import FairDrop.User.Logins
import FairDrop.User.TokenStages

/-!
# FairDrop.User.Rotation

Refresh tokens are rotated: a refresh deletes the token that it was given and
issues the next one of the same login session.  Reading the row, deleting it and
adding the next one are separate steps, and a `DELETE` does not say whether it
has found anything.  As long as each finds its row, every token is spent once
and a session has one live token at most (`spent_once`).
-/

namespace FairDrop

open RowStore

section
variable {J T : Type} (calls : T → TokenCall × UserEnv)

/-- The refresh token that a request issues if it succeeds. -/
def issued (t : T) : String := (calls t).2.tokenUrlsafe

/-- `t` belongs to the login session that the login `root` has opened. -/
inductive Descends (root : T) : T → Prop
  | root {username password} : (calls root).1 = .login username password → Descends root root
  | refresh {t u} : Descends root t → (calls u).1 = .refresh (issued calls t) → Descends root u

/-- `x` is a token of the login session `root`. -/
def OfSession (root : T) (x : String) : Prop := ∃ t, Descends calls root t ∧ x = issued calls t

/-- Every request whose `DELETE` is pending still finds the row of its token. -/
def SpendsLive (s : TokenWorld J T) (t : T) : Prop :=
  ∀ x id, (calls t).1 = .refresh x → .deleteRefreshToken id ∈ (s.proc t).pending →
    ∃ row ∈ s.db.refreshTokens.rows, row.id = id ∧ row.token = x

/-- Of the requests that refresh one token at most one succeeds, and no login
session has two refresh tokens. -/
def SpentOnce (s : TokenWorld J T) : Prop :=
  (∀ x t u r r', (calls t).1 = .refresh x → (calls u).1 = .refresh x →
    s.ended t = some (.ok r) → s.ended u = some (.ok r') → t = u) ∧
  ∀ root, ∀ row ∈ s.db.refreshTokens.rows, ∀ row' ∈ s.db.refreshTokens.rows,
    OfSession calls root row.token → OfSession calls root row'.token → row = row'

/-! ## Tokens and stages -/

/-- The request has issued its token. -/
def TokenStage.Issued : TokenStage J → Prop
  | .closing (.ok _) | .ended (.ok _) => True
  | _ => False

/-- The request knows its user, and has issued its token or is about to. -/
def TokenStage.Granted : TokenStage J → Prop
  | .granted _ | .minting _ | .closing (.ok _) | .ended (.ok _) => True
  | _ => False

/-- The request may still issue a token, on behalf of a session that has none. -/
def Pending (c : TokenCall) : TokenStage J → Prop
  | .granted _ | .minting _ => True
  | .begun => ∃ username password, c = .login username password
  | _ => False

/-- The token of `t` is stored, or about to be. -/
def Alive (d : UserDb) (stage : T → TokenStage J) (t : T) : Prop :=
  (∃ row ∈ d.refreshTokens.rows, row.token = issued calls t) ∨ Pending (calls t).1 (stage t)

/-- What holds of the stored tokens and the requests at any time. -/
structure Rotated (d : UserDb) (stage : T → TokenStage J) : Prop where
  unique : ∀ row ∈ d.refreshTokens.rows, ∀ row' ∈ d.refreshTokens.rows,
    row.token = row'.token → row = row'
  stored : ∀ row ∈ d.refreshTokens.rows, ∃ t, (stage t).Issued ∧ row.token = issued calls t
  spent : ∀ t x, (calls t).1 = .refresh x → (stage t).Granted →
    (∃ u, (stage u).Issued ∧ x = issued calls u) ∧ ∀ row ∈ d.refreshTokens.rows, row.token ≠ x
  once : ∀ t u x, (calls t).1 = .refresh x → (calls u).1 = .refresh x → (stage t).Granted →
    (stage u).Granted → t = u
  one : ∀ root t u, Descends calls root t → Descends calls root u → Alive calls d stage t →
    Alive calls d stage u → t = u
  refreshing : ∀ t row user, stage t = .found row user ∨ stage t = .spending row user →
    ∃ x, (calls t).1 = .refresh x

end

section
variable {J T : Type} {calls : T → TokenCall × UserEnv}

/-- A refresh belongs to the session of the request that issued its token. -/
theorem Descends.issuer {root t : T} {x : String} (h : Descends calls root t)
    (ht : (calls t).1 = .refresh x) : ∃ u, Descends calls root u ∧ x = issued calls u := by
  cases h with
  | root hlogin =>
      rw [hlogin] at ht
      contradiction
  | @refresh u _ hu hrefresh =>
      rw [hrefresh] at ht
      exact ⟨u, hu, (TokenCall.refresh.inj ht).symm⟩

/-- Who has issued its token is not about to. -/
theorem TokenStage.Issued.not_pending {stage : TokenStage J} {c : TokenCall} (h : stage.Issued) :
    ¬ Pending c stage := by
  cases stage with
  | closing r | ended r => exact id
  | _ => contradiction

/-- A request that has succeeded has been granted its token. -/
theorem TokenStage.granted_of_ended {crypto : Crypto J} {s : TokenWorld J T} {t : T}
    {stage : TokenStage J} {r : Token J}
    (hproc : s.proc t = stage.proc crypto (calls t).2 (calls t).1)
    (hended : s.ended t = some (.ok r)) : stage.Granted := by
  rw [Sys.ended, hproc] at hended
  cases stage with
  | begun => cases hcall : (calls t).1 <;> simp [hcall] at hended <;> contradiction
  | ended r' =>
      cases r' with
      | ok a => trivial
      | error e =>
          have herror : Except.error e = Except.ok r := Option.some.inj hended
          contradiction
  | closing r' => cases r' <;> contradiction
  | granted user | minting user => trivial
  | found row user | spending row user => contradiction

/-! ## One step -/

variable [DecidableEq T] {d d' : UserDb} {stage : T → TokenStage J} {t : T} {st : TokenStage J}

open Function (update update_self update_of_ne)

theorem issued_update (hst : st.Issued ↔ (stage t).Issued) (u : T) :
    (update stage t st u).Issued ↔ (stage u).Issued := by
  by_cases hu : u = t
  · rw [hu, update_self, hst]
  · rw [update_of_ne hu]

theorem Rotated.refreshing_update (h : Rotated calls d stage)
    (hst : ∀ row user, st = .found row user ∨ st = .spending row user →
      ∃ x, (calls t).1 = .refresh x) (u : T) (row : RefreshToken) (user : UserRow)
    (hu : update stage t st u = .found row user ∨ update stage t st u = .spending row user) :
    ∃ x, (calls u).1 = .refresh x := by
  by_cases hut : u = t
  · subst hut
    rw [update_self] at hu
    exact hst row user hu
  · rw [update_of_ne hut] at hu
    exact h.refreshing u row user hu

/-- A step of `t` that leaves the database alone, issues nothing, and does not
find out who asks with a refresh token. -/
theorem Rotated.quiet (h : Rotated calls d stage) (hissued : st.Issued ↔ (stage t).Issued)
    (hgranted : st.Granted → (stage t).Granted ∨ ∀ x, (calls t).1 ≠ .refresh x)
    (hpending : Pending (calls t).1 st → Pending (calls t).1 (stage t))
    (hrefreshing : ∀ row user, st = .found row user ∨ st = .spending row user →
      ∃ x, (calls t).1 = .refresh x) : Rotated calls d (update stage t st) := by
  have hgranted' : ∀ u x, (calls u).1 = .refresh x → (update stage t st u).Granted →
      (stage u).Granted := by
    intro u x hx hu
    by_cases hut : u = t
    · subst hut
      rw [update_self] at hu
      exact (hgranted hu).resolve_right fun hlogin => hlogin x hx
    · rwa [update_of_ne hut] at hu
  have halive : ∀ u, Alive calls d (update stage t st) u → Alive calls d stage u := by
    intro u hu
    by_cases hut : u = t
    · subst hut
      rw [Alive, update_self] at hu
      exact hu.imp_right hpending
    · rwa [Alive, update_of_ne hut] at hu
  refine ⟨h.unique, fun row hrow => ?_, fun u x hx hu => ?_, fun u v x hx hy hu hv => ?_,
    fun root u v hu hv hau hav => ?_, h.refreshing_update hrefreshing⟩
  · obtain ⟨u, hu, heq⟩ := h.stored row hrow
    exact ⟨u, (issued_update hissued u).mpr hu, heq⟩
  · obtain ⟨⟨v, hv, heq⟩, hgone⟩ := h.spent u x hx (hgranted' u x hx hu)
    exact ⟨⟨v, (issued_update hissued v).mpr hv, heq⟩, hgone⟩
  · exact h.once u v x hx hy (hgranted' u x hx hu) (hgranted' v x hy hv)
  · exact h.one root u v hu hv (halive u hau) (halive v hav)

theorem mem_of_mem_erase {id : Uuid} {row : RefreshToken}
    (h : row ∈ (d.refreshTokens.erase id).rows) : row ∈ d.refreshTokens.rows :=
  (Table.mem_erase.mp h).1

/-- Nobody but `t` comes alive by the `DELETE` of `t`. -/
theorem alive_of_spend {id : Uuid} {u : T} (hu : u ≠ t)
    (h : Alive calls { d with refreshTokens := d.refreshTokens.erase id } (update stage t st) u) :
    Alive calls d stage u := by
  rw [Alive, update_of_ne hu] at h
  exact h.imp_left fun ⟨row, hrow, heq⟩ => ⟨row, mem_of_mem_erase hrow, heq⟩

omit [DecidableEq T] in
/-- No row has a token that is deleted. -/
theorem Rotated.gone (h : Rotated calls d stage) {r : RefreshToken}
    (hr : r ∈ d.refreshTokens.rows) :
    ∀ row ∈ (d.refreshTokens.erase r.id).rows, row.token ≠ r.token := by
  intro row hrow heq
  obtain ⟨hmem, hne⟩ := Table.mem_erase.mp hrow
  have hsame := h.unique r hr row hmem heq.symm
  exact hne (hsame ▸ rfl)

/-- Once its token is deleted, nobody but `t` is alive in the session of `t`. -/
theorem Rotated.alone (h : Rotated calls d stage) (hdistinct : Function.Injective (issued calls))
    {r : RefreshToken} (hst : st.Issued ↔ (stage t).Issued) (hx : (calls t).1 = .refresh r.token)
    (hr : r ∈ d.refreshTokens.rows) {root u : T} (hroot : Descends calls root t)
    (hu : Descends calls root u)
    (ha : Alive calls { d with refreshTokens := d.refreshTokens.erase r.id }
      (update stage t st) u) : u = t := by
  by_contra hne
  -- the request that issued the token was the one alive, and is so no longer
  obtain ⟨i, hi, heq⟩ := h.stored r hr
  obtain ⟨j, hj, hxj⟩ := hroot.issuer hx
  obtain rfl : i = j := hdistinct (heq.symm.trans hxj)
  obtain rfl := h.one root u i hu hj (alive_of_spend hne ha) (.inl ⟨r, hr, heq⟩)
  rcases ha with ⟨row, hrow, hrowu⟩ | hpending
  · exact h.gone hr row hrow (hrowu.trans heq.symm)
  · exact ((issued_update hst u).mpr hi).not_pending hpending

/-- The `DELETE` of a token that is still there: the token passes from the row
to the request. -/
theorem Rotated.spend (h : Rotated calls d stage) (hdistinct : Function.Injective (issued calls))
    {row : RefreshToken} {user : UserRow} {x : String} (ht : stage t = .spending row user)
    (hx : (calls t).1 = .refresh x)
    (hlive : ∃ r ∈ d.refreshTokens.rows, r.id = row.id ∧ r.token = x) :
    Rotated calls { d with refreshTokens := d.refreshTokens.erase row.id }
      (update stage t (.granted user)) := by
  obtain ⟨r, hr, hid, rfl⟩ := hlive
  rw [← hid]
  have hst : (TokenStage.granted user : TokenStage J).Issued ↔ (stage t).Issued := by
    rw [ht]
    exact Iff.rfl
  have hunspent : ∀ u, (calls u).1 = .refresh r.token → ¬ (stage u).Granted :=
    fun u hu hgranted => (h.spent u r.token hu hgranted).2 r hr rfl
  refine ⟨fun a ha b hb => h.unique a (mem_of_mem_erase ha) b (mem_of_mem_erase hb),
    fun a ha => ?_, fun u y hy hu => ?_, fun u v y hy hy' hu hv => ?_,
    fun root u v hu hv hau hav => ?_, h.refreshing_update fun _ _ _ => ⟨r.token, hx⟩⟩
  · obtain ⟨u, hu, hau⟩ := h.stored a (mem_of_mem_erase ha)
    exact ⟨u, (issued_update hst u).mpr hu, hau⟩
  · by_cases hut : u = t
    · subst hut
      obtain rfl := TokenCall.refresh.inj (hx.symm.trans hy)
      obtain ⟨i, hi, heq⟩ := h.stored r hr
      exact ⟨⟨i, (issued_update hst i).mpr hi, heq⟩, h.gone hr⟩
    · rw [update_of_ne hut] at hu
      obtain ⟨⟨v, hv, hyv⟩, hspent⟩ := h.spent u y hy hu
      exact ⟨⟨v, (issued_update hst v).mpr hv, hyv⟩, fun a ha => hspent a (mem_of_mem_erase ha)⟩
  · by_cases hut : u = t <;> by_cases hvt : v = t
    · rw [hut, hvt]
    · subst hut
      obtain rfl := TokenCall.refresh.inj (hx.symm.trans hy)
      rw [update_of_ne hvt] at hv
      exact absurd hv (hunspent v hy')
    · subst hvt
      obtain rfl := TokenCall.refresh.inj (hx.symm.trans hy')
      rw [update_of_ne hut] at hu
      exact absurd hu (hunspent u hy)
    · rw [update_of_ne hut] at hu
      rw [update_of_ne hvt] at hv
      exact h.once u v y hy hy' hu hv
  · by_cases hut : u = t
    · subst hut
      exact (h.alone hdistinct hst hx hr hu hv hav).symm
    · by_cases hvt : v = t
      · subst hvt
        exact h.alone hdistinct hst hx hr hv hu hau
      · exact h.one root u v hu hv (alive_of_spend hut hau) (alive_of_spend hvt hav)

/-- The `INSERT` of the token that `t` has been about to issue. -/
theorem Rotated.mint (h : Rotated calls d stage) (hdistinct : Function.Injective (issued calls))
    {user : UserRow} {r : Token J} (ht : stage t = .minting user)
    (happly : (UserWrite.addRefreshToken (newRefreshToken (calls t).2 user.id)).apply d = .ok d') :
    Rotated calls d' (update stage t (.closing (.ok r))) := by
  obtain ⟨hnew, hid, rfl⟩ := apply_addRefreshToken happly
  have hissued : ∀ u, (update stage t (.closing (.ok r)) u).Issued ↔ (stage u).Issued ∨ u = t := by
    intro u
    by_cases hu : u = t
    · rw [hu, update_self]
      exact ⟨fun _ => .inr rfl, fun _ => trivial⟩
    · rw [update_of_ne hu]
      exact ⟨.inl, fun hor => hor.resolve_right hu⟩
  have hfresh : ∀ u, (stage u).Issued → issued calls u ≠ issued calls t := by
    intro u hu heq
    rw [hdistinct heq, ht] at hu
    exact hu
  have hgranted : ∀ u, (update stage t (.closing (.ok r)) u).Granted → (stage u).Granted := by
    intro u hu
    by_cases hut : u = t
    · rw [hut, ht]
      trivial
    · rwa [update_of_ne hut] at hu
  have halive : ∀ u, Alive calls { d with refreshTokens := d.refreshTokens.insert _ hid }
      (update stage t (.closing (.ok r))) u → Alive calls d stage u := by
    intro u hu
    by_cases hut : u = t
    · rw [hut, Alive, ht]
      exact .inr trivial
    · rw [Alive, update_of_ne hut] at hu
      refine hu.imp_left fun ⟨a, ha, hau⟩ => ⟨a, ?_, hau⟩
      refine ((Table.mem_insert hid).mp ha).resolve_right fun hat => hut ?_
      rw [hat] at hau
      exact hdistinct hau.symm
  refine ⟨fun a ha b hb hab => ?_, fun a ha => ?_, fun u x hx hu => ?_,
    fun u v x hx hy hu hv => h.once u v x hx hy (hgranted u hu) (hgranted v hv),
    fun root u v hu hv hau hav => h.one root u v hu hv (halive u hau) (halive v hav),
    fun u row user' hu => ?_⟩
  · cases (Table.mem_insert hid).mp ha with
    | inl ha =>
        cases (Table.mem_insert hid).mp hb with
        | inl hb => exact h.unique a ha b hb hab
        | inr hb => exact absurd (hab.trans (congrArg _ hb)) (hnew a ha)
    | inr ha =>
        cases (Table.mem_insert hid).mp hb with
        | inl hb => exact absurd (hab.symm.trans (congrArg _ ha)) (hnew b hb)
        | inr hb => rw [ha, hb]
  · cases (Table.mem_insert hid).mp ha with
    | inl ha =>
        obtain ⟨u, hu, hau⟩ := h.stored a ha
        exact ⟨u, (hissued u).mpr (.inl hu), hau⟩
    | inr ha => exact ⟨t, (hissued t).mpr (.inr rfl), congrArg _ ha⟩
  · obtain ⟨⟨v, hv, hxv⟩, hspent⟩ := h.spent u x hx (hgranted u hu)
    refine ⟨⟨v, (hissued v).mpr (.inl hv), hxv⟩, fun a ha => ?_⟩
    cases (Table.mem_insert hid).mp ha with
    | inl ha => exact hspent a ha
    | inr ha =>
        rw [ha, hxv]
        exact (hfresh v hv).symm
  · by_cases hut : u = t
    · rw [hut, update_self] at hu
      simp at hu
    · rw [update_of_ne hut] at hu
      exact h.refreshing u row user' hu

/-- **One step** of a request that finds the row it deletes. -/
theorem Rotated.step {crypto : Crypto J} (h : Rotated calls d stage)
    (hdistinct : Function.Injective (issued calls))
    (hlive : ∀ x id, (calls t).1 = .refresh x →
      .deleteRefreshToken id ∈ ((stage t).proc crypto (calls t).2 (calls t).1).pending →
      ∃ row ∈ d.refreshTokens.rows, row.id = id ∧ row.token = x)
    (hnext : TokenStage.Next crypto (calls t).2 (calls t).1 d (stage t) d' st) :
    Rotated calls d' (update stage t st) := by
  generalize hcall : (calls t).1 = c at hnext
  generalize hold : stage t = old at hnext
  cases hnext with
  | @authenticate username password user call =>
      have hlogin : (calls t).1 = .login username password := hcall.trans call
      refine h.quiet (hold ▸ Iff.rfl) (fun _ => .inr fun x hx => ?_) (fun _ => ?_) (by simp)
      · rw [hlogin] at hx
        contradiction
      · rw [hold]
        exact ⟨username, password, hlogin⟩
  | @find token row user call valid =>
      exact h.quiet (hold ▸ Iff.rfl) False.elim False.elim fun _ _ _ => ⟨token, hcall.trans call⟩
  | fail notEnded =>
      refine h.quiet ?_ False.elim False.elim (by simp)
      rw [hold]
      cases old with
      | closing r | ended r => contradiction
      | _ => exact Iff.rfl
  | delete row user =>
      exact h.quiet (hold ▸ Iff.rfl) False.elim False.elim fun _ _ _ =>
        h.refreshing t row user (.inl hold)
  | spend row user =>
      obtain ⟨x, hx⟩ := h.refreshing t row user (.inr hold)
      refine h.spend hdistinct hold hx (hlive x row.id hx ?_)
      rw [hold]
      exact List.mem_singleton.mpr rfl
  | add user =>
      exact h.quiet (hold ▸ Iff.rfl) (fun _ => .inl (hold ▸ trivial)) (fun _ => hold ▸ trivial)
        (by simp)
  | mint user happly => exact h.mint hdistinct hold happly
  | close r =>
      refine h.quiet ?_ (fun hr => .inl ?_) False.elim (by simp)
      · rw [hold]
        cases r <;> exact Iff.rfl
      · rw [hold]
        cases r with
        | ok a => trivial
        | error e => contradiction

/-! ## Runs -/

variable {crypto : Crypto J} {users : Table UserRow} {s : TokenWorld J T}
  {evs : List (Event UserDb UserWrite T)}

/-- Every state of a run is one of requests at their stages. -/
theorem rotated_of_run (hdistinct : Function.Injective (issued calls))
    (h : Run userStore (SpendsLive calls) (TokenWorld.start crypto calls users) evs s) :
    ∃ stage : T → TokenStage J, (∀ t, s.proc t = (stage t).proc crypto (calls t).2 (calls t).1) ∧
      Rotated calls s.db stage := by
  induction h with
  | nil =>
      refine ⟨fun _ => .begun, fun t => rfl, ⟨?_, ?_, ?_, ?_, ?_, ?_⟩⟩
      · exact fun row hrow => absurd hrow List.not_mem_nil
      · exact fun row hrow => absurd hrow List.not_mem_nil
      · exact fun t x _ hgranted => hgranted.elim
      · exact fun t u x _ _ hgranted => hgranted.elim
      · -- Only the login is alive: whoever refreshes has not begun.
        have hlogin : ∀ root t, Descends calls root t →
            Alive calls (TokenWorld.start crypto calls users).db (fun _ => (.begun : TokenStage J)) t →
            t = root := by
          intro root t ht ha
          obtain ⟨row, hrow, _⟩ | ⟨username, password, hcall⟩ := ha
          · exact absurd hrow List.not_mem_nil
          · cases ht with
            | root _ => rfl
            | refresh _ hrefresh =>
                rw [hcall] at hrefresh
                contradiction
        exact fun root t u ht hu hat hau => (hlogin root t ht hat).trans (hlogin root u hu hau).symm
      · exact fun t row user hst => by simp at hst
  | @snoc evs s t fault c s' hrun hlive hs ih =>
      obtain ⟨stage, hproc, hrotated⟩ := ih
      obtain ⟨st, hst, hnext⟩ := TokenStage.step (hproc t) hs
      refine ⟨update stage t st, fun u => ?_, hrotated.step hdistinct ?_ hnext⟩
      · by_cases hut : u = t
        · rw [hut, update_self, hst]
        · rw [update_of_ne hut, (step_other hut hs).1, hproc]
      · intro x id hx hpending
        exact hlive x id hx (hproc t ▸ hpending)

/-- **A refresh token is spent at most once** in every run in which each `DELETE`
finds its row. -/
theorem spent_once (hdistinct : Function.Injective (issued calls))
    (hrun : Run userStore (SpendsLive calls) (TokenWorld.start crypto calls users) evs s) :
    SpentOnce calls s := by
  obtain ⟨stage, hproc, hrotated⟩ := rotated_of_run hdistinct hrun
  refine ⟨fun x t u r r' ht hu hr hr' => ?_, fun root a ha b hb hroota hrootb => ?_⟩
  · exact hrotated.once t u x ht hu (TokenStage.granted_of_ended (hproc t) hr)
      (TokenStage.granted_of_ended (hproc u) hr')
  · obtain ⟨t, ht, hat⟩ := hroota
    obtain ⟨u, hu, hbu⟩ := hrootb
    obtain rfl := hrotated.one root t u ht hu (.inl ⟨a, ha, hat⟩) (.inl ⟨b, hb, hbu⟩)
    exact hrotated.unique a ha b hb (hat.trans hbu.symm)

end

/-! ## Two refreshes of one token -/

/-- A check of `SpendsLive`. -/
def spendsLive {J T : Type} (calls : T → TokenCall × UserEnv) (s : TokenWorld J T) (t : T) : Bool :=
  match (calls t).1 with
  | .login _ _ => true
  | .refresh x => (s.proc t).pending.all fun
      | .deleteRefreshToken id => s.db.refreshTokens.rows.any fun row => row.id = id ∧ row.token = x
      | _ => true

theorem spendsLive_sound {J T : Type} {calls : T → TokenCall × UserEnv} (s : TokenWorld J T)
    (t : T) (h : spendsLive calls s t) : SpendsLive calls s t := by
  intro x id hx hpending
  rw [spendsLive, hx] at h
  simpa using List.all_eq_true.mp h _ hpending

/-- A login, and two refreshes of the token that it issues. -/
def loginAndRefreshes : Fin 3 → TokenCall × UserEnv
  | 0 => (.login administrator.email administrator.passwordHash, drawing "first" 10)
  | 1 => (.refresh "first", drawing "second" 20)
  | 2 => (.refresh "first", drawing "third" 30)

def startTokens : TokenWorld Claims (Fin 3) :=
  .start plainCrypto loginAndRefreshes oneUser.users

theorem issued_distinct : Function.Injective (issued loginAndRefreshes) := by
  unfold Function.Injective
  decide

/-- One refresh after the other: the second one finds no token. -/
theorem spent_once_inTurn : ∃ evs s,
    Run userStore (SpendsLive loginAndRefreshes) startTokens evs s ∧
      SpentOnce loginAndRefreshes s ∧ s.succeeded 1 ∧ s.succeeded 2 = false := by
  have hexec : (startTokens.exec userStore (spendsLive loginAndRefreshes)
      (turns [(0, 4), (1, 6), (2, 2)])).any
        (fun x => x.2.succeeded 1 && !x.2.succeeded 2) := by decide +kernel
  obtain ⟨evs, s, hrun, hend⟩ := Run.of_exec_any spendsLive_sound hexec
  obtain ⟨hfirst, hsecond⟩ := Bool.and_eq_true_iff.mp hend
  exact ⟨evs, s, hrun, spent_once issued_distinct hrun, hfirst, by simpa using hsecond⟩

/-- Both refreshes read the row before either deletes it: both succeed, and
leave two live tokens. -/
theorem not_spent_once : Function.Injective (issued loginAndRefreshes) ∧
    ∃ evs s, Run userStore Anything startTokens evs s ∧ ¬ SpentOnce loginAndRefreshes s ∧
      s.db.refreshTokens.rows.map (·.token) = ["second", "third"] := by
  have hexec : (startTokens.exec userStore (fun _ _ => true)
      (turns [(0, 4), (1, 1), (2, 1), (1, 5), (2, 5)])).any
        (fun x => (x.2.succeeded 1 && x.2.succeeded 2) &&
          decide (x.2.db.refreshTokens.rows.map (·.token) = ["second", "third"])) := by
    decide +kernel
  obtain ⟨evs, s, hrun, hend⟩ := Run.of_exec_any (fun _ _ _ => trivial) hexec
  obtain ⟨hboth, hrows⟩ := Bool.and_eq_true_iff.mp hend
  obtain ⟨hfirst, hsecond⟩ := Bool.and_eq_true_iff.mp hboth
  obtain ⟨r, hr⟩ := Sys.ended_of_succeeded hfirst
  obtain ⟨r', hr'⟩ := Sys.ended_of_succeeded hsecond
  refine ⟨issued_distinct, evs, s, hrun, fun h => ?_, of_decide_eq_true hrows⟩
  have hsame : (1 : Fin 3) = 2 := h.1 "first" 1 2 r r' rfl rfl hr hr'
  contradiction

end FairDrop
