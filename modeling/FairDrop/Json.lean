import FairDrop.Models
import Mathlib.Data.List.Sort
import Mathlib.Data.Rat.Defs
import Mathlib.Data.String.Basic

/-!
# FairDrop.Json

JSON values and objects, with the equality of Python.  Identifiers, decimals
and timestamps are kept as typed scalars instead of their texts; each is printed
one-to-one, so two values have the same text exactly when they are equal.
-/

namespace FairDrop

/-! ## Values -/

inductive Scalar where
  | null
  | bool (b : Bool)
  | int (i : Int)
  /-- A finite `float`, by its exact value. -/
  | float (q : ℚ)
  | str (s : String)
  | uuid (u : Uuid)
  | decimal (d : Decimal)
  | datetime (t : Timestamp)
  deriving DecidableEq, Repr

inductive Json where
  | scalar (a : Scalar)
  | arr (xs : List Json)
  | obj (fields : List (String × Json))

/-- A JSON object: a Python `dict` in insertion order. -/
abbrev Snapshot := List (String × Json)

namespace Json

mutual
def decEq : (a b : Json) → Decidable (a = b)
  | .scalar a, .scalar b => decidable_of_iff (a = b) (by simp)
  | .arr xs, .arr ys => match decEqList xs ys with
    | isTrue h => isTrue (by rw [h])
    | isFalse h => isFalse (by simpa using h)
  | .obj fs, .obj gs => match decEqFields fs gs with
    | isTrue h => isTrue (by rw [h])
    | isFalse h => isFalse (by simpa using h)
  | .scalar _, .arr _ | .scalar _, .obj _ | .arr _, .scalar _ | .arr _, .obj _
  | .obj _, .scalar _ | .obj _, .arr _ => isFalse (by simp)

def decEqList : (xs ys : List Json) → Decidable (xs = ys)
  | [], [] => isTrue rfl
  | x :: xs, y :: ys => match decEq x y, decEqList xs ys with
    | isTrue h, isTrue hs => isTrue (by rw [h, hs])
    | isFalse h, _ => isFalse (by simp [h])
    | _, isFalse hs => isFalse (by simp [hs])
  | [], _ :: _ | _ :: _, [] => isFalse (by simp)

def decEqFields : (fs gs : Snapshot) → Decidable (fs = gs)
  | [], [] => isTrue rfl
  | (k, x) :: fs, (l, y) :: gs => match decEq x y, decEqFields fs gs with
    | isTrue h, isTrue hs => decidable_of_iff (k = l) (by simp [h, hs])
    | isFalse h, _ => isFalse (by simp [h])
    | _, isFalse hs => isFalse (by simp [hs])
  | [], _ :: _ | _ :: _, [] => isFalse (by simp)
end

instance : DecidableEq Json := decEq

def null : Json := .scalar .null

def str (s : String) : Json := .scalar (.str s)

/-- An optional text field. -/
def optStr : Option String → Json
  | none => null
  | some s => str s

end Json

/-! ## Equality -/

/-- Python's numbers are compared by value: `True == 1 == 1.0`. -/
def Scalar.canon : Scalar → Scalar
  | .bool b => .int (if b then 1 else 0)
  | .float q => if q.den = 1 then .int q.num else .float q
  | a => a

namespace Json

mutual
/-- Numbers by their value, and the fields of objects in order of their keys. -/
def canon : Json → Json
  | .scalar a => .scalar a.canon
  | .arr xs => .arr (canonList xs)
  | .obj fields => .obj ((canonFields fields).insertionSort fun f g => f.1 ≤ g.1)

def canonList : List Json → List Json
  | [] => []
  | x :: xs => x.canon :: canonList xs

def canonFields : Snapshot → Snapshot
  | [] => []
  | (k, x) :: fields => (k, x.canon) :: canonFields fields
end

/-- `a == b` -/
def Equal (a b : Json) : Prop := a.canon = b.canon

instance (a b : Json) : Decidable (a.Equal b) := inferInstanceAs (Decidable (_ = _))

variable {a b c : Json}

theorem Equal.refl (a : Json) : a.Equal a := rfl

theorem Equal.symm (h : a.Equal b) : b.Equal a := Eq.symm h

/-- A dictionary is canonical field by field. -/
theorem canonFields_eq_map (s : Snapshot) : canonFields s = s.map fun f => (f.1, f.2.canon) := by
  induction s with
  | nil => rfl
  | cons f s ih => rw [canonFields, List.map_cons, ih]

/-- Texts are equal if they are the same. -/
@[simp] theorem equal_str {s t : String} : (str s).Equal (str t) ↔ s = t := by
  simp [Equal, str, canon, Scalar.canon]

/-- So are optional texts. -/
@[simp] theorem equal_optStr {s t : Option String} : (optStr s).Equal (optStr t) ↔ s = t := by
  cases s <;> cases t <;> simp [Equal, optStr, null, str, canon, Scalar.canon]

/-- So are ids. -/
@[simp] theorem equal_uuid {u v : Uuid} :
    (scalar (.uuid u)).Equal (scalar (.uuid v)) ↔ u = v := by
  simp [Equal, canon, Scalar.canon]

/-- So are decimals, in their canonical form. -/
@[simp] theorem equal_decimal {d e : Decimal} :
    (scalar (.decimal d)).Equal (scalar (.decimal e)) ↔ d = e := by
  simp [Equal, canon, Scalar.canon]

/-- So are times. -/
@[simp] theorem equal_datetime {t u : Timestamp} :
    (scalar (.datetime t)).Equal (scalar (.datetime u)) ↔ t = u := by
  simp [Equal, canon, Scalar.canon]

/-- So are integers. -/
@[simp] theorem equal_int {i j : Int} : (scalar (.int i)).Equal (scalar (.int j)) ↔ i = j := by
  simp [Equal, canon, Scalar.canon]

end Json

/-! ## Objects -/

/-- `d.get(key)`: `None` for an absent key. -/
def Snapshot.get (d : Snapshot) (key : String) : Json :=
  match d.find? fun f => f.1 = key with
  | some f => f.2
  | none => .null

/-- `d[key] = value` -/
def Snapshot.insert (d : Snapshot) (key : String) (value : Json) : Snapshot :=
  if d.any fun f => f.1 = key then d.map fun f => if f.1 = key then (key, value) else f
  else d ++ [(key, value)]

/-- `d.update(extra)` -/
def Snapshot.update (d extra : Snapshot) : Snapshot :=
  extra.foldl (fun d f => d.insert f.1 f.2) d

namespace Snapshot

/-- The value of a key that is there. -/
def get? (d : Snapshot) (key : String) : Option Json :=
  (d.find? fun f => f.1 = key).map Prod.snd

def keys (d : Snapshot) : List String := d.map Prod.fst

/-- No key occurs twice, as in every `dict`. -/
abbrev Unique (d : Snapshot) : Prop := d.keys.Nodup

section
variable {d extra : Snapshot} {key k : String} {value v : Json}

/-- `d.get(key)` is the value found, or `None`. -/
theorem get_eq (d : Snapshot) (key : String) : d.get key = (d.get? key).getD .null := by
  unfold get get?
  cases d.find? fun f => f.1 = key <;> rfl

@[simp] theorem get?_nil (key : String) : get? [] key = none := rfl

theorem get?_cons (f : String × Json) (d : Snapshot) (key : String) :
    get? (f :: d) key = if f.1 = key then some f.2 else get? d key := by
  unfold get?
  rw [List.find?_cons]
  by_cases h : f.1 = key <;> simp [h]

/-- A value that is found stands in the dictionary. -/
theorem mem_of_get? (h : d.get? key = some v) : (key, v) ∈ d := by
  obtain ⟨f, hfind, rfl⟩ := Option.map_eq_some_iff.mp h
  have hkey : f.1 = key := by simpa using List.find?_some hfind
  rw [← hkey]
  exact List.mem_of_find?_eq_some hfind

/-- A key is found if it is there. -/
theorem get?_isSome : (d.get? key).isSome ↔ key ∈ d.keys := by
  simp [get?, keys]

/-- A key is not found if it is not there. -/
theorem get?_eq_none : d.get? key = none ↔ key ∉ d.keys := by
  rw [← get?_isSome, Option.not_isSome_iff_eq_none]

/-- The fields are the values of the keys. -/
theorem Unique.get?_eq_some (h : d.Unique) : d.get? key = some v ↔ (key, v) ∈ d := by
  refine ⟨mem_of_get?, fun hmem => ?_⟩
  obtain ⟨w, hw⟩ := Option.isSome_iff_exists.mp
    (get?_isSome.mpr (List.mem_map_of_mem (f := Prod.fst) hmem))
  have hsame : w = v := congrArg Prod.snd (List.inj_on_of_nodup_map h (mem_of_get? hw) hmem rfl)
  rw [hw, hsame]

/-- Each field of a dictionary is the value of its key. -/
theorem Unique.get_of_mem (h : d.Unique) {f : String × Json} (hf : f ∈ d) : d.get f.1 = f.2 := by
  rw [get_eq, h.get?_eq_some.mpr hf, Option.getD_some]

/-- A dictionary with single keys has none of them again in its rest. -/
theorem Unique.of_cons {f : String × Json} (h : Unique (f :: d)) : f.1 ∉ d.keys ∧ d.Unique :=
  List.nodup_cons.mp h

/-- Replacing a value leaves the other keys as they are. -/
theorem get?_map_insert :
    get? (d.map fun f => if f.1 = k then (k, value) else f) key =
      if key = k then (d.get? k).map fun _ => value else d.get? key := by
  induction d with
  | nil => simp
  | cons f d ih =>
      rw [List.map_cons, get?_cons, get?_cons, get?_cons, ih]
      by_cases hf : f.1 = k
      · by_cases hk : k = key
        · simp [hf, hk]
        · simp [hf, hk, Ne.symm hk]
      · by_cases hk : key = k
        · simp [hf, hk]
        · simp [hf, hk]

/-- The first dictionary has its say first. -/
theorem get?_append (d e : Snapshot) (key : String) :
    get? (d ++ e) key = (d.get? key).or (e.get? key) := by
  unfold get?
  rw [List.find?_append]
  cases d.find? fun f => f.1 = key <;> rfl

/-- `d[k] = value` sets one key. -/
@[simp] theorem get?_insert : (d.insert k value).get? key =
    if key = k then some value else d.get? key := by
  unfold insert
  split
  · next hany =>
      have hsome : (d.get? k).isSome := by
        simpa [get?_isSome, keys] using hany
      obtain ⟨w, hw⟩ := Option.isSome_iff_exists.mp hsome
      rw [get?_map_insert, hw]
      rfl
  · next hany =>
      have hnone : d.get? k = none := by
        simpa [get?_eq_none, keys] using hany
      rw [get?_append, get?_cons, get?_nil]
      by_cases hk : key = k
      · simp [hk, hnone]
      · simp [hk, Ne.symm hk]

/-- `d.update(extra)` prefers the new values. -/
theorem get?_update (h : extra.Unique) : (d.update extra).get? key =
    (extra.get? key).or (d.get? key) := by
  unfold update
  induction extra generalizing d with
  | nil => rfl
  | cons f extra ih =>
      obtain ⟨hf, hextra⟩ := h.of_cons
      rw [List.foldl_cons, ih hextra, get?_insert, get?_cons]
      by_cases hk : f.1 = key
      · rw [if_pos hk.symm, if_pos hk, get?_eq_none.mpr (hk ▸ hf)]
        rfl
      · rw [if_neg (Ne.symm hk), if_neg hk]

/-- Setting a key leaves every key single. -/
theorem Unique.insert (h : d.Unique) : (d.insert k value).Unique := by
  unfold Snapshot.insert
  split
  · have hkeys : keys (d.map fun f => if f.1 = k then (k, value) else f) = d.keys := by
      rw [keys, keys, List.map_map]
      refine List.map_congr_left fun f _ => ?_
      by_cases hf : f.1 = k <;> simp [hf]
    rw [Unique, hkeys]
    exact h
  · next hany =>
      have hnew : k ∉ d.keys := by simpa [keys] using hany
      rw [Unique, keys, List.map_append]
      refine List.nodup_append.mpr ⟨h, List.nodup_singleton k, ?_⟩
      rintro a ha b hb rfl
      obtain rfl := List.mem_singleton.mp hb
      exact hnew ha

/-- So does an update. -/
theorem Unique.update (h : d.Unique) : (d.update extra).Unique := by
  unfold Snapshot.update
  induction extra generalizing d with
  | nil => exact h
  | cons f extra ih => exact ih h.insert

/-- A comprehension over the fields that keeps their keys. -/
theorem keys_filterMap {g : String → Json → Option Json} : List.Sublist
    (keys (d.filterMap fun f => (g f.1 f.2).map fun v => (f.1, v))) d.keys := by
  induction d with
  | nil => exact List.Sublist.slnil
  | cons f d ih =>
      rw [List.filterMap_cons]
      cases g f.1 f.2 with
      | none => exact ih.cons f.1
      | some v => exact ih.cons_cons f.1

/-- So does any selection from the fields. -/
theorem Unique.filterMap {g : String → Json → Option Json} (h : d.Unique) :
    Unique (d.filterMap fun f => (g f.1 f.2).map fun v => (f.1, v)) :=
  h.sublist keys_filterMap

/-- A selection is found by the key that it has been made from. -/
theorem Unique.get?_filterMap {g : String → Json → Option Json} (h : d.Unique) :
    get? (d.filterMap fun f => (g f.1 f.2).map fun v => (f.1, v)) key =
      (d.get? key).bind (g key) := by
  induction d with
  | nil => rfl
  | cons f d ih =>
      obtain ⟨hf, hd⟩ := h.of_cons
      rw [List.filterMap_cons, get?_cons]
      by_cases hk : f.1 = key
      · rw [if_pos hk, ← hk, Option.bind_some]
        cases g f.1 f.2 with
        | none =>
            show get? (d.filterMap _) f.1 = none
            rw [hk, ih hd, ← hk, get?_eq_none.mpr hf]
            rfl
        | some v =>
            show get? ((f.1, v) :: _) f.1 = some v
            rw [get?_cons, if_pos rfl]
      · rw [if_neg hk, ← ih hd]
        cases g f.1 f.2 with
        | none => rfl
        | some v =>
            show get? ((f.1, v) :: _) key = _
            rw [get?_cons, if_neg hk]

/-- Changing the values changes what is found. -/
theorem get?_map (g : String → Json → Json) (d : Snapshot) (key : String) :
    get? (d.map fun f => (f.1, g f.1 f.2)) key = (d.get? key).map (g key) := by
  induction d with
  | nil => rfl
  | cons f d ih =>
      rw [List.map_cons, get?_cons, get?_cons, ih]
      by_cases hk : f.1 = key
      · rw [if_pos hk, if_pos hk, hk, Option.map_some]
      · rw [if_neg hk, if_neg hk]

/-- Changing the values leaves the keys. -/
@[simp] theorem keys_map (g : String → Json → Json) (d : Snapshot) :
    keys (d.map fun f => (f.1, g f.1 f.2)) = d.keys := by
  simp [keys, Function.comp_def]

/-! ## Equality of objects -/

/-- Dictionaries with the same values have the same fields, in some order. -/
theorem Unique.perm_of_get? {e : Snapshot} (hd : d.Unique) (he : e.Unique)
    (h : ∀ key, d.get? key = e.get? key) : d.Perm e := by
  refine (List.perm_ext_iff_of_nodup (hd.of_map _) (he.of_map _)).mpr fun f => ?_
  have hmem : (f.1, f.2) ∈ d ↔ (f.1, f.2) ∈ e := by
    rw [← hd.get?_eq_some, ← he.get?_eq_some, h]
  exact hmem

/-- The order of the fields does not matter. -/
theorem Unique.get?_of_perm {e : Snapshot} (hd : d.Unique) (h : d.Perm e) (key : String) :
    d.get? key = e.get? key := by
  have he : e.Unique := (h.map Prod.fst).nodup_iff.mp hd
  refine Option.ext fun v => ?_
  rw [hd.get?_eq_some, he.get?_eq_some, h.mem_iff]

/-- Fields of two objects are in one order if they are the same. -/
theorem Unique.insertionSort_eq {e : Snapshot} (hd : d.Unique) :
    d.insertionSort (fun f g => f.1 ≤ g.1) = e.insertionSort (fun f g => f.1 ≤ g.1) ↔
      d.Perm e := by
  have hkeys : IsTrans (String × Json) fun f g => f.1 ≤ g.1 := ⟨fun _ _ _ => le_trans⟩
  have htotal : Std.Total fun f g : String × Json => f.1 ≤ g.1 := ⟨fun f g => le_total f.1 g.1⟩
  constructor
  · intro h
    have hsorted := List.perm_insertionSort (fun f g : String × Json => f.1 ≤ g.1) e
    rw [← h] at hsorted
    exact (List.perm_insertionSort _ d).symm.trans hsorted
  · intro h
    have hperm := ((List.perm_insertionSort (fun f g : String × Json => f.1 ≤ g.1) d).trans h).trans
      (List.perm_insertionSort (fun f g : String × Json => f.1 ≤ g.1) e).symm
    have hsame := @List.Perm.eq_of_pairwise _ (fun f g : String × Json => f.1 ≤ g.1)
    refine hsame (fun f g hf hg hle hge => ?_) (List.pairwise_insertionSort _ d)
      (List.pairwise_insertionSort _ e) hperm
    have hf' : f ∈ d := (List.perm_insertionSort _ d).subset hf
    have hg' : g ∈ d := h.symm.subset ((List.perm_insertionSort _ e).subset hg)
    exact List.inj_on_of_nodup_map hd hf' hg' (le_antisymm hle hge)

/-- Objects are equal if they have the same keys, with equal values; the order
does not matter. -/
theorem Unique.obj_equal_iff {e : Snapshot} (hd : d.Unique) (he : e.Unique) :
    (Json.obj d).Equal (.obj e) ↔
      ∀ key, (d.get? key).map Json.canon = (e.get? key).map Json.canon := by
  have hcanon : ∀ s : Snapshot, Json.canonFields s = s.map fun f => (f.1, f.2.canon) :=
    Json.canonFields_eq_map
  have hget : ∀ (s : Snapshot) (key : String),
      get? (Json.canonFields s) key = (s.get? key).map Json.canon := by
    intro s key
    rw [hcanon]
    exact get?_map (fun _ v => v.canon) s key
  have hunique : ∀ s : Snapshot, s.Unique → Unique (Json.canonFields s) := by
    intro s hs
    unfold Unique
    rw [hcanon, keys_map fun _ v => v.canon]
    exact hs
  simp only [← hget]
  unfold Json.Equal
  rw [Json.canon, Json.canon, Json.obj.injEq, (hunique d hd).insertionSort_eq]
  exact ⟨(hunique d hd).get?_of_perm, (hunique d hd).perm_of_get? (hunique e he)⟩

end

end Snapshot

end FairDrop
