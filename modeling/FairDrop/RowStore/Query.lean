import Mathlib.Algebra.BigOperators.Group.List.Lemmas
import Mathlib.Algebra.GroupWithZero.Nat
import Mathlib.Data.List.Dedup
import Mathlib.Data.List.Nodup
import Mathlib.Data.List.Perm.Basic
import Mathlib.Data.List.Rotate

/-!
# Queries

Joins, grouped aggregates and pages of a query language, on lists of rows.  A query
without an `ORDER BY` may answer in any order: the lemmas about its answer ask
for a permutation of it.
-/

namespace RowStore

namespace Query

variable {α β γ κ ν : Type}

/-! ## Joins -/

/-- `FROM xs JOIN ys ON …` -/
def join (xs : List α) (ys : List β) (on : α → β → Bool) : List (α × β) :=
  xs.flatMap fun x => (ys.filter (on x)).map fun y => (x, y)

@[simp] theorem mem_join {xs : List α} {ys : List β} {on : α → β → Bool} {p : α × β} :
    p ∈ join xs ys on ↔ p.1 ∈ xs ∧ p.2 ∈ ys ∧ on p.1 p.2 := by
  unfold join
  rw [List.mem_flatMap]
  constructor
  · rintro ⟨x, hx, hp⟩
    obtain ⟨y, hy, rfl⟩ := List.mem_map.mp hp
    obtain ⟨hys, hon⟩ := List.mem_filter.mp hy
    exact ⟨hx, hys, hon⟩
  · rintro ⟨hx, hy, hon⟩
    exact ⟨p.1, hx, List.mem_map.mpr ⟨p.2, List.mem_filter.mpr ⟨hy, hon⟩, rfl⟩⟩

/-- `FROM xs LEFT OUTER JOIN ys ON …`: a row without a partner comes once, with none. -/
def leftJoin (xs : List α) (ys : List β) (on : α → β → Bool) : List (α × Option β) :=
  xs.flatMap fun x =>
    match ys.filter (on x) with
    | [] => [(x, none)]
    | y :: rest => (y :: rest).map fun y => (x, some y)

section
variable {xs : List α} {ys : List β} {on : α → β → Bool}

/-- The join keeps every row of the left side, and adds none. -/
theorem mem_fst_leftJoin {x : α} : x ∈ (leftJoin xs ys on).map Prod.fst ↔ x ∈ xs := by
  simp only [leftJoin, List.mem_map, List.mem_flatMap]
  constructor
  · rintro ⟨p, ⟨z, hz, hp⟩, rfl⟩
    split at hp
    · obtain rfl := List.mem_singleton.mp hp
      exact hz
    · obtain ⟨y, -, rfl⟩ := List.mem_map.mp hp
      exact hz
  · intro hx
    cases hfilter : ys.filter (on x) with
    | nil => exact ⟨(x, none), ⟨x, hx, by simp [hfilter]⟩, rfl⟩
    | cons y rest => exact ⟨(x, some y), ⟨x, hx, by simp [hfilter]⟩, rfl⟩

/-- The right sides of the rows whose left side has the key. -/
def partners [DecidableEq κ] (key : α → κ) (k : κ) (rows : List (α × Option β)) : List β :=
  rows.filterMap fun r => if key r.1 = k then r.2 else none

section
variable [DecidableEq κ] {key : α → κ}

theorem partners_leftJoin_cons {z : α} {k : κ} : partners key k (leftJoin (z :: xs) ys on) =
    (if key z = k then ys.filter (on z) else []) ++ partners key k (leftJoin xs ys on) := by
  unfold partners leftJoin
  rw [List.flatMap_cons, List.filterMap_append]
  congr 1
  cases hfilter : ys.filter (on z) with
  | nil => simp
  | cons y rest =>
      by_cases hkey : key z = k
      · simp [hkey, List.filterMap_map]
      · simp [hkey, List.filterMap_map]

theorem partners_leftJoin_of_not_mem {k : κ} (hk : k ∉ xs.map key) :
    partners key k (leftJoin xs ys on) = [] := by
  induction xs with
  | nil => rfl
  | cons z xs ih =>
      rw [List.map_cons, List.mem_cons, not_or] at hk
      rw [partners_leftJoin_cons, if_neg fun h => hk.1 h.symm, ih hk.2, List.append_nil]

/-- The join brings the partners of each row. -/
theorem partners_leftJoin (hkeys : (xs.map key).Nodup) {x : α} (hx : x ∈ xs) :
    partners key (key x) (leftJoin xs ys on) = ys.filter (on x) := by
  induction xs with
  | nil => contradiction
  | cons z xs ih =>
      rw [List.map_cons, List.nodup_cons] at hkeys
      rw [partners_leftJoin_cons]
      cases List.mem_cons.mp hx with
      | inl hz =>
          subst hz
          rw [if_pos rfl, partners_leftJoin_of_not_mem hkeys.1, List.append_nil]
      | inr hxs =>
          have hne : key z ≠ key x := fun h => hkeys.1 (h ▸ List.mem_map_of_mem hxs)
          rw [if_neg hne, ih hkeys.2 hxs, List.nil_append]

end

end

/-! ## Unique values -/

/-- The first of the values with each key. -/
def unique [DecidableEq κ] (key : α → κ) : List α → List α
  | [] => []
  | x :: xs => x :: (unique key xs).filter fun y => key y ≠ key x

section
variable [DecidableEq κ] {key : α → κ} {l : List α}

theorem subset_unique : ∀ {l : List α}, unique key l ⊆ l
  | [], _, h => h
  | _ :: _, _, h => by
      cases List.mem_cons.mp h with
      | inl h => exact h ▸ List.mem_cons_self
      | inr h => exact List.mem_cons_of_mem _ (subset_unique (List.mem_filter.mp h).1)

theorem nodup_unique : ((unique key l).map key).Nodup := by
  induction l with
  | nil => simp [unique]
  | cons x xs ih =>
      rw [unique, List.map_cons, List.nodup_cons]
      refine ⟨fun hx => ?_, ih.sublist (List.filter_sublist.map key)⟩
      obtain ⟨y, hy, hkey⟩ := List.mem_map.mp hx
      exact of_decide_eq_true (List.mem_filter.mp hy).2 hkey

theorem exists_unique (key : α → κ) {x : α} (hx : x ∈ l) : ∃ y ∈ unique key l, key y = key x := by
  induction l with
  | nil => contradiction
  | cons z xs ih =>
      by_cases hkey : key x = key z
      · exact ⟨z, List.mem_cons_self, hkey.symm⟩
      · have hxs : x ∈ xs := (List.mem_cons.mp hx).resolve_left fun h => hkey (h ▸ rfl)
        obtain ⟨y, hy, heq⟩ := ih hxs
        have hne : key y ≠ key z := fun h => hkey (heq.symm.trans h)
        exact ⟨y, List.mem_cons_of_mem _ (List.mem_filter.mpr ⟨hy, decide_eq_true hne⟩), heq⟩

/-- The unique values of rows that repeat the members of a list are that list. -/
theorem unique_perm {xs : List α} (hkeys : (xs.map key).Nodup) (hmem : ∀ x, x ∈ l ↔ x ∈ xs) :
    (unique key l).Perm xs := by
  refine (List.perm_ext_iff_of_nodup nodup_unique.of_map hkeys.of_map).mpr fun x => ?_
  constructor
  · exact fun hx => (hmem x).mp (subset_unique hx)
  · intro hx
    obtain ⟨y, hy, hkey⟩ := exists_unique key ((hmem x).mpr hx)
    obtain rfl := List.inj_on_of_nodup_map hkeys ((hmem y).mp (subset_unique hy)) hx hkey
    exact hy

end

/-! ## Pages -/

/-- `OFFSET skip LIMIT limit` -/
def page (skip limit : Nat) (rows : List α) : List α := (rows.drop skip).take limit

section
variable {n : Nat} {rows : List α}

theorem length_page {skip limit : Nat} :
    (page skip limit rows).length = min limit (rows.length - skip) := by
  rw [page, List.length_take, List.length_drop]

theorem page_sublist {skip limit : Nat} : (page skip limit rows).Sublist rows :=
  (List.take_sublist _ _).trans (List.drop_sublist _ _)

/-- The pages of one order follow each other. -/
theorem flatMap_page (m : Nat) :
    ((List.range m).flatMap fun k => page (k * n) n rows) = rows.take (m * n) := by
  induction m with
  | zero => simp
  | succ m ih =>
      rw [List.range_succ, List.flatMap_append, ih, Nat.succ_mul, List.take_add]
      simp [page]

/-- An order of the rows in which the first one opens the second page. -/
theorem mem_page_rotate {x : α} {xs : List α} (hn : 0 < n) (h : n < (x :: xs).length) :
    x ∈ page n n ((x :: xs).rotate ((x :: xs).length - n)) := by
  have hback : ((x :: xs).drop ((x :: xs).length - n)).length = n := by
    rw [List.length_drop]
    omega
  rw [page, List.rotate_eq_drop_append_take (Nat.sub_le _ _), List.drop_left' hback,
    List.take_take]
  obtain ⟨k, hk⟩ := Nat.exists_eq_add_one_of_ne_zero (show min n ((x :: xs).length - n) ≠ 0 by omega)
  rw [hk, List.take_succ_cons]
  exact List.mem_cons_self

/-- Two pages with a row in common make it appear twice. -/
theorem not_nodup_pages {pages : Nat → List α} {m i j : Nat} (hi : i < m) (hj : j < m)
    (hij : i ≠ j) {x : α} (hxi : x ∈ pages i) (hxj : x ∈ pages j) :
    ¬ ((List.range m).flatMap pages).Nodup := by
  intro hnodup
  have hsymm : Std.Symm (Function.onFun List.Disjoint pages) := ⟨fun _ _ h => h.symm⟩
  have hdisjoint := (List.nodup_flatMap.mp hnodup).2.forall (List.mem_range.mpr hi)
    (List.mem_range.mpr hj) hij
  exact hdisjoint hxi hxj

end

/-! ## Groups -/

/-- `SELECT key, agg(…) FROM rows GROUP BY key` -/
def groupBy [DecidableEq κ] (key : α → κ) (agg : List α → ν) (rows : List α) : List (κ × ν) :=
  (rows.map key).dedup.map fun k => (k, agg (rows.filter fun r => key r = k))

/-- `count(DISTINCT col)` -/
def countDistinct [DecidableEq γ] (col : α → γ) (rows : List α) : Nat :=
  (rows.map col).dedup.length

/-- The value behind a key in the rows of a query that has one row for each key,
and `default` without a row. -/
def getD [DecidableEq κ] (rows : List (κ × ν)) (k : κ) (default : ν) : ν :=
  match rows.find? fun r => r.1 = k with
  | some r => r.2
  | none => default

section
variable [DecidableEq κ] {key : α → κ} {agg : List α → ν} {rows : List α} {answer : List (κ × ν)}

theorem mem_groupBy {r : κ × ν} : r ∈ groupBy key agg rows ↔
    r.1 ∈ rows.map key ∧ r.2 = agg (rows.filter fun x => key x = r.1) := by
  simp only [groupBy, List.mem_map, List.mem_dedup]
  constructor
  · rintro ⟨k, hk, rfl⟩
    exact ⟨hk, rfl⟩
  · rintro ⟨hk, hr⟩
    exact ⟨r.1, hk, by rw [← hr]⟩

/-- **The aggregate of a group**, whatever the order of the rows. -/
theorem getD_groupBy (h : answer.Perm (groupBy key agg rows)) (k : κ) :
    getD answer k (agg []) = agg (rows.filter fun r => key r = k) := by
  unfold getD
  cases hfind : answer.find? fun r => r.1 = k with
  | some r =>
      have hkey : r.1 = k := by simpa using List.find?_some hfind
      obtain ⟨-, hagg⟩ := mem_groupBy.mp (h.subset (List.mem_of_find?_eq_some hfind))
      show r.2 = _
      rw [hagg, hkey]
  | none =>
      have hempty : (rows.filter fun r => key r = k) = [] := by
        rw [List.filter_eq_nil_iff]
        intro r hr hkey
        have hgroup : (k, agg (rows.filter fun x => key x = k)) ∈ answer :=
          h.symm.subset (mem_groupBy.mpr
            ⟨List.mem_map.mpr ⟨r, hr, of_decide_eq_true hkey⟩, rfl⟩)
        have hnone := List.find?_eq_none.mp hfind _ hgroup
        simp at hnone
      rw [hempty]

/-- Every row is counted in one group. -/
theorem sum_groupBy {answer : List (κ × Nat)} (h : answer.Perm (groupBy key List.length rows)) :
    (answer.map Prod.snd).sum = rows.length := by
  have hcount : ∀ k, (rows.filter fun r => key r = k).length = (rows.map key).count k := by
    intro k
    rw [← List.countP_eq_length_filter, List.count, List.countP_map]
    congr 1
  rw [(h.map Prod.snd).sum_eq, groupBy, List.map_map]
  have hmap : (Prod.snd ∘ fun k => (k, (rows.filter fun r => key r = k).length)) =
      fun k => (rows.map key).count k := funext hcount
  rw [hmap, List.sum_map_count_dedup_eq_length, List.length_map]

end

/-- A distinct count is the length of a list that has each value once. -/
theorem countDistinct_eq [DecidableEq γ] {col : α → γ} {rows : List α} {values : List γ}
    (hnodup : values.Nodup) (hmem : ∀ v, v ∈ values ↔ ∃ r ∈ rows, col r = v) :
    countDistinct col rows = values.length := by
  refine ((List.perm_ext_iff_of_nodup (List.nodup_dedup _) hnodup).mpr fun v => ?_).length_eq
  rw [List.mem_dedup, List.mem_map, hmem]

end Query

end RowStore
