import Mathlib.Algebra.BigOperators.Group.List.Basic
import Mathlib.Algebra.Ring.Int.Defs
import Mathlib.Data.List.Nodup

/-!
# Keyed tables

A table of records whose key is one of their own columns: the row list carries
the proof that no two rows share a key, so a table with a duplicate primary key
cannot be built.  Rows keep their position when they are rewritten, and queries
by another column are plain list filters over `rows`.

* `get` / `set` / `insert?` / `erase` — look up by key, rewrite a row in place, add
  a row with an unused key, remove a row;
* `get_set`, `get_insert` — what a lookup sees after a write;
* `sum_set`, `sum_insert` — how a column total moves under one write.
-/

namespace RowStore

/-- Records of type `α` are identified by a column of type `κ`. -/
class Keyed (α : Type) (κ : outParam Type) where
  key : α → κ

open Keyed

/-- A list of rows without a repeated key. -/
structure Table (α : Type) {κ : Type} [Keyed α κ] where
  rows : List α
  nodup : (rows.map key).Nodup

namespace Table

variable {α κ : Type} [Keyed α κ]

def empty : Table α := ⟨[], List.nodup_nil⟩

/-- Two rows of a table with one key are one row. -/
theorem eq_of_key (t : Table α) {a b : α} (ha : a ∈ t.rows) (hb : b ∈ t.rows)
    (h : key a = key b) : a = b :=
  List.inj_on_of_nodup_map t.nodup ha hb h

/-- A query that a single row meets. -/
theorem filter_eq_singleton {t : Table α} {p : α → Bool} {r : α} (hr : r ∈ t.rows) (hp : p r)
    (h : ∀ x ∈ t.rows, p x → key x = key r) : t.rows.filter p = [r] := by
  have hmem : r ∈ t.rows.filter p := List.mem_filter.mpr ⟨hr, hp⟩
  have hall : ∀ x ∈ t.rows.filter p, x = r := by
    intro x hx
    obtain ⟨hx, hpx⟩ := List.mem_filter.mp hx
    exact t.eq_of_key hx hr (h x hx hpx)
  have hnodup : (t.rows.filter p).Nodup := t.nodup.of_map.filter _
  rw [List.eq_replicate_of_mem hall] at hnodup hmem ⊢
  have hle := List.nodup_replicate.mp hnodup
  obtain ⟨hpos, _⟩ := List.mem_replicate.mp hmem
  have hone : (t.rows.filter p).length = 1 := by omega
  rw [hone]
  rfl

/-- Total of a column over all rows. -/
def sum (t : Table α) (f : α → Int) : Int := (t.rows.map f).sum

@[simp] theorem rows_empty : (empty : Table α).rows = [] := rfl

/-- A column with one entry. -/
theorem sum_eq_single [DecidableEq α] {t : Table α} {r : α} (hr : r ∈ t.rows) (f : α → Int)
    (h : ∀ x ∈ t.rows, x ≠ r → f x = 0) : t.sum f = f r := by
  have hcount : t.rows.count r = 1 := List.count_eq_one_of_mem t.nodup.of_map hr
  rw [sum, List.sum_map_eq_nsmul_single r f fun x hne hx => h x hx hne, hcount, one_nsmul]

variable [DecidableEq κ]

/-! ## Lookup -/

/-- The row with key `k`. -/
def get (t : Table α) (k : κ) : Option α := t.rows.find? fun r => decide (key r = k)

/-- A row found by a key has that key. -/
theorem key_of_get {t : Table α} {k : κ} {r : α} (h : t.get k = some r) : key r = k := by
  simpa using List.find?_some h

/-- A row found by a key is in the table. -/
theorem mem_of_get {t : Table α} {k : κ} {r : α} (h : t.get k = some r) : r ∈ t.rows :=
  List.mem_of_find?_eq_some h

/-- A row of the table is found by its key. -/
theorem get_of_mem {t : Table α} {r : α} (h : r ∈ t.rows) : t.get (key r) = some r := by
  cases hg : t.get (key r) with
  | none =>
      have hne := List.find?_eq_none.mp hg r h
      simp at hne
  | some r' => rw [t.eq_of_key (mem_of_get hg) h (key_of_get hg)]

/-- No row is found by a key that no row has. -/
theorem get_eq_none_iff {t : Table α} {k : κ} : t.get k = none ↔ ∀ r ∈ t.rows, key r ≠ k := by
  simp [get, List.find?_eq_none]

/-! ## Rewriting a row -/

/-- Replace the row that has `r`'s key by `r`; without such a row nothing
changes. -/
def set (t : Table α) (r : α) : Table α where
  rows := t.rows.map fun x => if key x = key r then r else x
  nodup := by
    have hkey : (t.rows.map fun x => if key x = key r then r else x).map key =
        t.rows.map key := by
      rw [List.map_map]
      apply List.map_congr_left
      intro x _
      by_cases h : key x = key r <;> simp [h]
    rw [hkey]
    exact t.nodup

/-- After an update a row is the new one or an old one with another key. -/
theorem mem_set {t : Table α} {r x : α} (h : x ∈ (t.set r).rows) :
    x = r ∨ (x ∈ t.rows ∧ key x ≠ key r) := by
  obtain ⟨y, hy, rfl⟩ := List.mem_map.mp h
  by_cases hk : key y = key r
  · left; simp [hk]
  · right; simp [hk, hy]

/-- Rows with other keys are there after an update as before. -/
theorem mem_set_of_ne {t : Table α} {r x : α} (h : x ∈ t.rows) (hk : key x ≠ key r) :
    x ∈ (t.set r).rows :=
  List.mem_map.mpr ⟨x, h, by simp [hk]⟩

/-- The row updated is the one found afterwards. -/
theorem get_set_self {t : Table α} {r x : α} (h : t.get (key r) = some x) :
    (t.set r).get (key r) = some r := by
  apply get_of_mem
  exact List.mem_map.mpr ⟨x, mem_of_get h, by simp [key_of_get h]⟩

/-- A lookup of another key is not changed by an update. -/
theorem get_set_ne {t : Table α} {r : α} {k : κ} (h : key r ≠ k) : (t.set r).get k = t.get k := by
  cases hg : t.get k with
  | none =>
      rw [get_eq_none_iff] at hg ⊢
      intro x hx
      rcases mem_set hx with rfl | ⟨hx, _⟩
      · exact h
      · exact hg x hx
  | some x =>
      have hx : x ∈ (t.set r).rows :=
        mem_set_of_ne (mem_of_get hg) (by rw [key_of_get hg]; exact Ne.symm h)
      rw [← key_of_get hg]
      exact get_of_mem hx

/-- A lookup after rewriting an existing row. -/
theorem get_set {t : Table α} {r r₀ : α} (h : t.get (key r) = some r₀) (k : κ) :
    (t.set r).get k = if key r = k then some r else t.get k := by
  split
  · next hk => subst hk; exact get_set_self h
  · next hk => exact get_set_ne hk

/-- The row updated is found by the key it was found by before. -/
theorem get_set_at {t : Table α} {r r₀ : α} {k₀ : κ} (h : t.get k₀ = some r₀)
    (hkey : key r = k₀) : (t.set r).get k₀ = some r := by
  subst hkey
  exact get_set_self h

/-- Every lookup after an update of a stored row. -/
theorem get_set_of_key {t : Table α} {r r₀ : α} {k₀ : κ} (h : t.get k₀ = some r₀)
    (hkey : key r = k₀) (k : κ) : (t.set r).get k = if k₀ = k then some r else t.get k := by
  subst hkey
  exact get_set h k

/-- A stored row before and after the row `a` was rewritten as `b`. -/
theorem get_set_cases {t : Table α} {a b r : α} {k₀ k : κ} (ha : t.get k₀ = some a)
    (hkey : key b = k₀) (hr : t.get k = some r) :
    (a = r ∧ (t.set b).get k = some b) ∨ (t.set b).get k = some r := by
  rw [get_set_of_key ha hkey]
  split
  · next hk =>
      rw [← hk, ha] at hr
      exact .inl ⟨Option.some.inj hr, rfl⟩
  · exact .inr hr

/-- The rows after an update of a stored row. -/
theorem mem_set_iff {t : Table α} {r r₀ x : α} (h : t.get (key r) = some r₀) :
    x ∈ (t.set r).rows ↔ x = r ∨ (x ∈ t.rows ∧ key x ≠ key r) := by
  refine ⟨mem_set, ?_⟩
  rintro (rfl | ⟨hx, hne⟩)
  · exact mem_of_get (get_set_self h)
  · exact mem_set_of_ne hx hne

/-- A row that was rewritten is there. -/
theorem mem_set_self {t : Table α} {r r₀ : α} (h : r₀ ∈ t.rows) (hkey : key r = key r₀) :
    r ∈ (t.set r).rows := by
  have hget : t.get (key r) = some r₀ := by rw [hkey, get_of_mem h]
  exact (mem_set_iff hget).mpr (.inl rfl)

/-- A rewritten table has rows for the same keys. -/
theorem isSome_get_set {t : Table α} {r : α} {k : κ} :
    ((t.set r).get k).isSome = (t.get k).isSome := by
  by_cases hk : key r = k
  · cases hg : t.get k with
    | none =>
        have hnone : (t.set r).get k = none := by
          rw [get_eq_none_iff] at hg ⊢
          intro x hx
          cases mem_set hx with
          | inl hr =>
              obtain ⟨y, hy, hyx⟩ := List.mem_map.mp hx
              split at hyx
              · next hky => exact absurd (hky.trans hk) (hg y hy)
              · next hky => exact absurd (congrArg key (hyx.trans hr)) hky
          | inr hold => exact hg x hold.1
        rw [hnone]
    | some r₀ =>
        subst hk
        rw [get_set_self hg]
        rfl
  · rw [get_set_ne hk]

/-- Rewritten rows keep their place. -/
theorem map_key_set {t : Table α} {r : α} : (t.set r).rows.map key = t.rows.map key := by
  rw [set, List.map_map]
  apply List.map_congr_left
  intro x _
  by_cases h : key x = key r <;> simp [h]

/-- A table is its keys in order and its rows by key. -/
theorem ext_get {t t' : Table α} (hkeys : t.rows.map key = t'.rows.map key)
    (hget : ∀ k ∈ t.rows.map key, t.get k = t'.get k) : t = t' := by
  have hrows : ∀ t : Table α, t.rows = (t.rows.map key).filterMap t.get := by
    intro t
    have hself : ∀ r ∈ t.rows, (t.get ∘ key) r = some r := fun r hr => get_of_mem hr
    rw [List.filterMap_map, List.filterMap_congr hself]
    exact List.filterMap_some.symm
  have heq : t.rows = t'.rows := by
    rw [hrows t, hrows t', ← hkeys]
    exact List.filterMap_congr hget
  obtain ⟨rows, hnodup⟩ := t
  obtain ⟨rows', hnodup'⟩ := t'
  obtain rfl : rows = rows' := heq
  rfl

/-- Rewriting a row with itself. -/
theorem set_self {t : Table α} {r : α} (h : t.get (key r) = some r) : t.set r = t := by
  obtain ⟨rows, hnd⟩ := t
  simp only [set, mk.injEq]
  conv_rhs => rw [← List.map_id rows]
  apply List.map_congr_left
  intro x hx
  split
  · next hk => exact eq_of_key ⟨rows, hnd⟩ (mem_of_get h) hx hk.symm
  · rfl

/-- How a sum over the rows changes by an update. -/
theorem sum_set {t : Table α} {r r₀ : α} (h : t.get (key r) = some r₀) (f : α → Int) :
    (t.set r).sum f = t.sum f - f r₀ + f r := by
  have hmem := mem_of_get h
  have hkey := key_of_get h
  have hnd := t.nodup
  simp only [sum, set]
  generalize t.rows = l at hmem hnd
  induction l with
  | nil => simp at hmem
  | cons x l ih =>
      simp only [List.map_cons, List.nodup_cons, List.sum_cons] at hnd ⊢
      rcases List.mem_cons.mp hmem with rfl | hmem
      · have hrest : (l.map fun x => if key x = key r then r else x) = l := by
          conv_rhs => rw [← List.map_id l]
          apply List.map_congr_left
          intro y hy
          have hne : key y ≠ key r := fun he =>
            hnd.1 (List.mem_map.mpr ⟨y, hy, he.trans hkey.symm⟩)
          simp [hne]
        rw [if_pos hkey, hrest]
        omega
      · have hne : key x ≠ key r := fun he =>
          hnd.1 (List.mem_map.mpr ⟨r₀, hmem, hkey.trans he.symm⟩)
        rw [if_neg hne, ih hmem hnd.2]
        omega

/-! ## Adding a row -/

/-- Add a row whose key is not in use. -/
def insert (t : Table α) (r : α) (h : t.get (key r) = none) : Table α where
  rows := t.rows ++ [r]
  nodup := by
    rw [List.map_append, List.nodup_append]
    refine ⟨t.nodup, by simp, ?_⟩
    intro k hk k' hk'
    obtain ⟨x, hx, rfl⟩ := List.mem_map.mp hk
    rw [List.map_singleton, List.mem_singleton] at hk'
    rw [hk']
    exact get_eq_none_iff.mp h x hx

/-- Add a row, refusing a duplicate key. -/
def insert? (t : Table α) (r : α) : Option (Table α) :=
  if h : t.get (key r) = none then some (t.insert r h) else none

/-- An insertion succeeds exactly when the key is free. -/
theorem insert?_eq_some {t t' : Table α} {r : α} :
    t.insert? r = some t' ↔ ∃ h : t.get (key r) = none, t' = t.insert r h := by
  unfold insert?
  split
  · next h => simp [h, eq_comm]
  · next h => simp [h]

/-- The rows after an insertion. -/
@[simp] theorem mem_insert {t : Table α} {r x : α} (h : t.get (key r) = none) :
    x ∈ (t.insert r h).rows ↔ x ∈ t.rows ∨ x = r := by
  simp [insert]

/-- Every lookup after an insertion. -/
theorem get_insert {t : Table α} {r : α} (h : t.get (key r) = none) (k : κ) :
    (t.insert r h).get k = if key r = k then some r else t.get k := by
  split
  · next hk =>
      subst hk
      exact get_of_mem (by simp)
  · next hk =>
      cases hg : t.get k with
      | none =>
          rw [get_eq_none_iff] at hg ⊢
          intro x hx
          rcases (mem_insert h).mp hx with hx | rfl
          · exact hg x hx
          · exact hk
      | some x =>
          rw [← key_of_get hg]
          exact get_of_mem ((mem_insert h).mpr (.inl (mem_of_get hg)))

/-- What is stored stays when a row is added. -/
theorem get_insert_of_get {t : Table α} {r x : α} {k : κ} (h : t.get (key r) = none)
    (hx : t.get k = some x) : (t.insert r h).get k = some x := by
  rw [get_insert h, if_neg]
  · exact hx
  · intro hk
    rw [← hk, h] at hx
    contradiction

/-- How a sum over the rows changes by an insertion. -/
theorem sum_insert {t : Table α} {r : α} (h : t.get (key r) = none) (f : α → Int) :
    (t.insert r h).sum f = t.sum f + f r := by
  simp [sum, insert]

/-! ## Removing a row -/

/-- Remove the row with key `k`, if there is one. -/
def erase (t : Table α) (k : κ) : Table α where
  rows := t.rows.filter fun r => decide (key r ≠ k)
  nodup := t.nodup.sublist (List.filter_sublist.map key)

/-- The rows after a deletion. -/
@[simp] theorem mem_erase {t : Table α} {k : κ} {x : α} :
    x ∈ (t.erase k).rows ↔ x ∈ t.rows ∧ key x ≠ k := by
  simp [erase]

/-- A lookup of another key is not changed by a deletion. -/
theorem get_erase_ne {t : Table α} {k k' : κ} (h : k ≠ k') : (t.erase k).get k' = t.get k' := by
  cases hg : t.get k' with
  | none =>
      rw [get_eq_none_iff] at hg ⊢
      exact fun x hx => hg x (mem_erase.mp hx).1
  | some x =>
      have hkey := key_of_get hg
      have hx : x ∈ (t.erase k).rows := mem_erase.mpr ⟨mem_of_get hg, hkey ▸ Ne.symm h⟩
      rw [← hkey]
      exact get_of_mem hx

/-- A deleted key is not found. -/
theorem get_erase_self {t : Table α} {k : κ} : (t.erase k).get k = none := by
  rw [get_eq_none_iff]
  exact fun x hx => (mem_erase.mp hx).2

end Table

end RowStore
