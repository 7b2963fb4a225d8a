import FairDrop.RowStore.Answers

/-!
# Parts of a database

A database is often one part of a larger one, next to tables that its programs
do not know.  `Prog.embed` runs a program of the part on the whole; what the
program guarantees of the part it then guarantees of the whole (`Part.wp_run`,
`Part.ends_run`), and it leaves the rest alone.
-/

namespace RowStore

variable {S D D' R V W W' E α : Type}

/-- Run a program of a part, given how to find the part and what its writes are
in the whole. -/
def Prog.embed (get : D' → D) (lift : W → W') : Prog S D R W E α → Prog S D' R W' E α
  | .pure a => .pure a
  | .fail e => .fail e
  | .lock find k => .lock (fun d => find (get d)) fun x => (k (x.map get)).embed get lift
  | .read k => .read fun x => (k (x.map get)).embed get lift
  | .write w k => .write (lift w) (k.embed get lift)
  | .commit k => .commit fun x => (k x).embed get lift
  | .rollback k => .rollback (k.embed get lift)
  | .session k => .session fun s => (k s).embed get lift
  | .setSession s k => .setSession s (k.embed get lift)

/-- The databases of `st` are parts of those of `st'`, with all lockable rows. -/
structure Part (st : Store D R V W E) (st' : Store D' R V W' E) where
  get : D' → D
  put : D' → D → D'
  lift : W → W'
  get_put : ∀ d x, get (put d x) = x
  put_get : ∀ d, put d (get d) = d
  put_put : ∀ d x y, put (put d x) y = put d y
  view : ∀ d r, st'.view d r = st.view (get d) r
  present : ∀ v, st'.present v = st.present v
  apply : ∀ w d, st'.apply (lift w) d = (st.apply w (get d)).map (put d)
  outage : st'.outage = st.outage

namespace Part

variable {st : Store D R V W E} {st' : Store D' R V W' E}

/-- A program of the part, on the whole. -/
def run (P : Part st st') (x : Prog S D R W E α) : Prog S D' R W' E α := x.embed P.get P.lift

theorem applyAll (P : Part st st') (ws : List W) (d : D') :
    st'.applyAll (ws.map P.lift) d = (st.applyAll ws (P.get d)).map (P.put d) := by
  induction ws generalizing d with
  | nil => simp [Store.applyAll, Except.map, P.put_get]
  | cons w ws ih =>
      rw [List.map_cons, Store.applyAll, Store.applyAll, P.apply]
      cases st.apply w (P.get d) with
      | error e => rfl
      | ok x =>
          simp only [Except.map]
          rw [ih, P.get_put]
          cases st.applyAll ws x with
          | error e => rfl
          | ok y => simp [Except.map, P.put_put]

theorem frame (P : Part st st') {rows : List R} {d : D'} {x : D} (h : Frame st rows (P.get d) x) :
    Frame st' rows d (P.put d x) := by
  intro r hr
  rw [P.view, P.view, P.get_put] at hr
  rw [P.view, P.present]
  exact h r hr

/-- The rules of the part, as rules of the whole. -/
def rules (P : Part st st') (ru : Rules S D R W) : Rules S D' R W' where
  inv d := ru.inv (P.get d)
  grant s d r := ru.grant s (P.get d) r
  request rows d r := ru.request rows (P.get d) r
  commit alone ws d d' := ∃ ws₀ x, ws = ws₀.map P.lift ∧ d' = P.put d x ∧
    ru.commit alone ws₀ (P.get d) x

/-- What a program knows of the part, as knowledge of the whole. -/
structure Same (P : Part st st') (p : Known S D R V W) (p' : Known S D' R V W') : Prop where
  held : p'.held = p.held
  pending : p'.pending = p.pending.map P.lift
  session : p'.session = p.session
  snapshot : p.snapshot = p'.snapshot.map P.get
  commits : p'.commits = p.commits

variable {P : Part st st'} {p : Known S D R V W} {p' : Known S D' R V W'}

theorem same_start (P : Part st st') (s : S) (snap : Option D') :
    P.Same (.start s (snap.map P.get)) (.start s snap) :=
  ⟨rfl, rfl, rfl, rfl, rfl⟩

namespace Same

theorem agrees (h : P.Same p p') {d : D'} (hd : p'.Agrees st' d) : p.Agrees st (P.get d) := by
  refine ⟨fun x hx => ?_, fun d₀ hd₀ => ?_⟩
  · rw [← P.view]
    exact hd.1 x (h.held ▸ hx)
  · rw [h.snapshot] at hd₀
    obtain ⟨d₁, hd₁, rfl⟩ := Option.map_eq_some_iff.mp hd₀
    rw [hd.2 d₁ hd₁]

theorem rows (h : P.Same p p') : p'.rows = p.rows := by rw [Known.rows, Known.rows, h.held]

theorem hold (h : P.Same p p') (r : R) (v : V) : P.Same (p.hold r v) (p'.hold r v) :=
  ⟨by simp [Known.hold, h.held], h.pending, h.session, h.snapshot, h.commits⟩

theorem push (h : P.Same p p') (w : W) : P.Same (p.push w) (p'.push (P.lift w)) :=
  ⟨h.held, by simp [Known.push, h.pending], h.session, h.snapshot, h.commits⟩

theorem abort (h : P.Same p p') : P.Same p.abort p'.abort :=
  ⟨rfl, rfl, h.session, h.snapshot, h.commits⟩

theorem committed (h : P.Same p p') {d : D'} {x : D} :
    P.Same (p.committed x) (p'.committed (P.put d x)) := by
  refine ⟨rfl, rfl, h.session, ?_, by simp [Known.committed, h.commits]⟩
  simp only [Known.committed, h.snapshot, Option.map_map]
  congr 1
  funext d₀
  simp [P.get_put]

theorem isSome_snapshot (h : P.Same p p') : p'.snapshot.isSome = p.snapshot.isSome := by
  rw [h.snapshot, Option.isSome_map]

end Same

/-- **A guarantee of the part** is one of the whole. -/
theorem wp_run (P : Part st st') {ru : Rules S D R W} {x : Prog S D R W E α}
    {Q : Except E α → Known S D R V W → Prop} (hx : wp st ru x p Q) (hp : P.Same p p') :
    wp st' (P.rules ru) (P.run x) p' fun r p' => ∃ p, P.Same p p' ∧ Q r p := by
  induction x generalizing p p' with
  | pure a | fail e => exact ⟨p, hp, hx⟩
  | lock find k ih =>
      refine ⟨fun d hd hi => ?_, ?_⟩
      · have hgo := hx.1 (P.get d) (hp.agrees hd) hi
        split
        · next hf =>
            change find (P.get d) = none at hf
            rw [hf] at hgo
            exact ih (.ok (P.get d)) hgo hp
        · next r hf =>
            change find (P.get d) = some r at hf
            rw [hf] at hgo
            refine ⟨by rw [P.view, P.present]; exact hgo.1, by rw [hp.rows]; exact hgo.2.1, ?_⟩
            intro hg
            rw [P.view]
            rw [hp.session] at hg
            exact ih (.ok (P.get d)) (hgo.2.2 hg) (hp.hold r _)
      · rw [P.outage]
        exact ih (.error st.outage) hx.2 hp.abort
  | read k ih =>
      refine ⟨fun d hd hi => ih (.ok (P.get d)) (hx.1 _ (hp.agrees hd) hi) hp, ?_⟩
      rw [P.outage]
      exact ih (.error st.outage) hx.2 hp.abort
  | write w k ih => exact ih hx (hp.push w)
  | commit k ih =>
      refine ⟨fun d hd hi => ?_, ?_⟩
      · have hgo := hx.1 (P.get d) (hp.agrees hd) hi
        have happly := P.applyAll p.pending d
        rw [← hp.pending] at happly
        cases ha : st.applyAll p.pending (P.get d) with
        | ok x =>
            rw [ha] at hgo happly
            rw [happly]
            refine ⟨⟨p.pending, x, hp.pending, rfl, ?_⟩, ?_, ih (.ok ()) hgo.2.2 hp.committed⟩
            · rw [hp.isSome_snapshot]
              exact hgo.1
            · rw [hp.rows]
              exact P.frame hgo.2.1
        | error e =>
            rw [ha] at hgo happly
            rw [happly]
            exact ih (.error e) hgo hp.abort
      · rw [P.outage]
        exact ih (.error st.outage) hx.2 hp.abort
  | rollback k ih => exact ih hx hp.abort
  | session k ih =>
      have hgo : wp st ru (k p'.session) p Q := by
        rw [hp.session]
        exact hx
      exact ih _ hgo hp
  | setSession s k ih => exact ih hx ⟨hp.held, hp.pending, rfl, hp.snapshot, hp.commits⟩

/-- A program ends on the whole as it does on the part. -/
theorem ends_run (P : Part st st') {I : D → Prop} {x : Prog S D R W E α} {Q : Except E α → Prop}
    (hx : ends st I x Q) : ends st' (fun d => I (P.get d)) (P.run x) Q := by
  induction x with
  | pure a | fail e => exact hx
  | lock find k ih | read k ih =>
      refine ⟨fun d hd => ih (.ok (P.get d)) (hx.1 _ hd), ?_⟩
      rw [P.outage]
      exact ih (.error st.outage) hx.2
  | commit k ih => exact fun y => ih y (hx y)
  | session k ih => exact fun σ => ih σ (hx σ)
  | write w k ih | rollback k ih | setSession σ k ih => exact ih hx

end Part

end RowStore
