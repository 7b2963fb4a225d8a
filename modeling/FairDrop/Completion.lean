import FairDrop.Deadlock
import FairDrop.RowStore.Liveness

/-!
# FairDrop.Completion

Requests come to an end.  A request locks at most one row of each kind, in one
order, and gives all of them up when it ends; so the requests at work never stop
each other for good.  Only the sweep can bring about a deadlock, as the database
then has to break by failing a statement.
-/

namespace FairDrop

open RowStore

section
variable {T : Type} [DecidableEq T] {actors : T → Actor} {ok : World T → T → Prop} {s : World T}
  {evs : List (Event Db Write T)}

/-- Who has ended has no locks. -/
theorem World.works_of_owner (hrun : Run store ok (World.start actors) evs s) {t : T} {row : Row}
    (howner : s.owner row = some t) : s.ended t = none := by
  obtain ⟨p, hp, _⟩ := (World.tracks_any hrun).1 t
  cases hended : s.ended t with
  | none => rfl
  | some r =>
      have hnone : p.held = [] := (hp.ended hended).1
      have hmem : row ∈ p.rows := (hp.owned row).mp howner
      rw [Known.rows, hnone] at hmem
      contradiction

/-- Without a sweep no locks cross. -/
theorem keepsApart_of_requests (hrequests : ∀ t, (actors t).sweeps = false) (s : World T) (t : T) :
    KeepsApart actors s t := by
  intro row _ _ u v r o hcross
  have hsweeps := hcross.sweeps
  rw [hrequests u] at hsweeps
  contradiction

theorem waits_acyclic_of_requests (hrequests : ∀ t, (actors t).sweeps = false)
    (hrun : Run store ok (World.start actors) evs s) (t : T) :
    ¬ Relation.TransGen s.WaitsFor t t := by
  have hsorted : ∀ t, (actors t).Ascending (· < ·) := by
    intro t
    have hsweeps := hrequests t
    cases hactor : actors t with
    | request call env => trivial
    | sweep env expireOnCommit scan =>
        rw [hactor] at hsweeps
        contradiction
  exact waits_acyclic lt_irrefl (fun _ _ _ => lt_trans) hsorted
    (hrun.mono fun s t _ => keepsApart_of_requests hrequests s t) t

/-- **Runs end**: none is infinite; if nobody can move, all have ended or wait in
a circle; and without a sweep all can be brought to an end. -/
theorem runs_end [Finite T] (hrun : Run store Anything (World.start actors) evs s) :
    (∀ f : ℕ → World T, f 0 = s → ∃ n, ¬ (f n).Moves store (f (n + 1))) ∧
    ((∀ t, s.step store t false = none) →
      (∀ t, (s.ended t).isSome) ∨ ∃ t, Relation.TransGen s.WaitsFor t t) ∧
    ((∀ t, (actors t).sweeps = false) →
      ∃ evs' s', Run store Anything s evs' s' ∧ ∀ t, (s'.ended t).isSome) := by
  refine ⟨fun f _ => Sys.moves_stop store f, fun hstuck => ?_, fun hrequests => ?_⟩
  · by_contra hnot
    obtain ⟨hsome, hacyclic⟩ := not_or.mp hnot
    obtain ⟨t, ht⟩ := not_forall.mp hsome
    obtain ⟨u, c, s', hstep⟩ := Sys.exists_step store (not_exists.mp hacyclic)
      (fun _ _ ⟨_, _, _, howner⟩ => World.works_of_owner hrun howner)
      (Option.not_isSome_iff_eq_none.mp ht)
    rw [hstuck u] at hstep
    contradiction
  · refine Run.completes (fun evs s t hrun ht => ?_) hrun
    obtain ⟨u, c, s', hstep⟩ := Sys.exists_step store (waits_acyclic_of_requests hrequests hrun)
      (fun _ _ ⟨_, _, _, howner⟩ => World.works_of_owner hrun howner) ht
    exact ⟨u, c, s', trivial, hstep⟩

end

/-- Two buyers want the last lamps: whoever comes second waits for the row. -/
def rivalActors : Fin 3 → Actor
  | 0 => .request (.createProduct seller.id lamp seller) (shopEnv 0 0)
  | 1 => .request (.reserveItems buyer.id "one" ⟨0, two⟩) (shopEnv 1 10)
  | 2 => .request (.reserveItems buyer.id "two" ⟨0, three⟩) (shopEnv 1 20)

theorem runs_end_rivals : ∃ evs s, Run store Anything (World.start rivalActors) evs s ∧
    s.WaitsFor 2 1 ∧ ∃ evs' s', Run store Anything s evs' s' ∧ ∀ t, (s'.ended t).isSome := by
  have hexec : ((World.start rivalActors).exec store (fun _ _ => true)
      (turns [(0, 6), (1, 2)])).any (fun x => decide (x.2.wants 2 = some (.product 0) ∧
        x.2.owner (.product 0) = some 1)) := by decide +kernel
  obtain ⟨evs, s, hrun, hwait⟩ := Run.of_exec_any (fun _ _ _ => trivial) hexec
  obtain ⟨hwants, howner⟩ := of_decide_eq_true hwait
  refine ⟨evs, s, hrun, ⟨by decide, _, hwants, howner⟩, (runs_end hrun).2.2 fun t => ?_⟩
  match t with
  | 0 | 1 | 2 => rfl

end FairDrop
