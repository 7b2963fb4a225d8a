import FairDrop.AuditLog

/-!
# FairDrop.Diffs

The difference of two snapshots is a patch: written over the old one it gives
the new one, and the other way round, up to the fields that the log hides.
Along a chain of snapshots the differences add up (`getDiff_patch`).
-/

namespace FairDrop

namespace Snapshot

/-- Both have the fields of one schema. -/
structure SameKeys (a b : Snapshot) : Prop where
  left : a.Unique
  right : b.Unique
  keys : ∀ key, key ∈ a.keys ↔ key ∈ b.keys

/-- The two show the same where the log hides nothing. -/
def Agree (a b : Snapshot) : Prop :=
  ∀ key ∉ sensitiveFields, (a.get? key).map Json.canon = (b.get? key).map Json.canon

/-- `value[i]` -/
def item (i : Nat) : Json → Json
  | .arr xs => (xs[i]?).getD .null
  | _ => .null

/-- `d.update({k: v[i] for k, v in diff.items()})` -/
def patch (i : Nat) (d diff : Snapshot) : Snapshot :=
  d.update (diff.map fun f => (f.1, item i f.2))

/-- Overwrite with the new values of a difference. -/
def applyNew (d diff : Snapshot) : Snapshot := d.patch 1 diff

/-- Overwrite with the old values of a difference. -/
def applyOld (d diff : Snapshot) : Snapshot := d.patch 0 diff

/-- The differences from each snapshot to the next. -/
def diffs (a : Snapshot) : List Snapshot → List Snapshot
  | [] => []
  | b :: chain => getDiff (some a) (some b) :: b.diffs chain

section
variable {a b c : Snapshot} {key : String} {v : Json}

theorem Agree.refl (a : Snapshot) : a.Agree a := fun _ _ => rfl

theorem Agree.trans (h : a.Agree b) (h' : b.Agree c) : a.Agree c :=
  fun key hkey => (h key hkey).trans (h' key hkey)

theorem SameKeys.symm (h : SameKeys a b) : SameKeys b a :=
  ⟨h.right, h.left, fun key => (h.keys key).symm⟩

theorem SameKeys.trans (h : SameKeys a b) (h' : SameKeys b c) : SameKeys a c :=
  ⟨h.left, h'.right, fun key => (h.keys key).trans (h'.keys key)⟩

/-- A value after a patch comes from the diff, or else was there before. -/
theorem get?_patch {i : Nat} {diff : Snapshot} (h : diff.Unique) :
    (a.patch i diff).get? key = ((diff.get? key).map (item i)).or (a.get? key) := by
  have hunique : Unique (diff.map fun f => (f.1, item i f.2)) := by
    unfold Unique
    rw [keys_map fun _ v => item i v]
    exact h
  unfold patch
  rw [get?_update hunique, get?_map (fun _ v => item i v)]

/-! ## Fields of a difference -/

/-- What a difference records of a field. -/
def change (a : Snapshot) (key : String) (v : Json) : Option Json :=
  if ¬ v.Equal (a.get key) then some (.arr [masked key (a.get key), masked key v]) else none

/-- A diff goes by the keys of the new snapshot. -/
theorem getDiff_eq_filterMap (a b : Snapshot) : getDiff (some a) (some b) =
    b.filterMap fun f => (a.change f.1 f.2).map fun v => (f.1, v) := by
  simp only [getDiff]
  congr 1
  funext f
  unfold change
  split <;> rfl

theorem unique_getDiff (h : SameKeys a b) : Unique (getDiff (some a) (some b)) := by
  rw [getDiff_eq_filterMap]
  exact h.right.filterMap

/-- What the diff has under a key. -/
theorem get?_getDiff (h : SameKeys a b) :
    get? (getDiff (some a) (some b)) key = (b.get? key).bind (a.change key) := by
  rw [getDiff_eq_filterMap]
  exact h.right.get?_filterMap

/-- The diff of a value that has changed. -/
theorem get?_getDiff_of_ne (h : SameKeys a b) (hb : b.get? key = some v)
    (hne : ¬ v.Equal (a.get key)) :
    get? (getDiff (some a) (some b)) key =
      some (.arr [masked key (a.get key), masked key v]) := by
  rw [get?_getDiff h, hb, Option.bind_some, change, if_pos hne]

/-- The diff of a value that has not changed. -/
theorem get?_getDiff_of_equal (h : SameKeys a b) (hb : b.get? key = some v)
    (heq : v.Equal (a.get key)) : get? (getDiff (some a) (some b)) key = none := by
  rw [get?_getDiff h, hb, Option.bind_some, change, if_neg (not_not.mpr heq)]

/-- A key of one schema is in both snapshots, or in neither. -/
theorem SameKeys.get?_cases (h : SameKeys a b) (key : String) :
    (∃ v w, a.get? key = some v ∧ b.get? key = some w ∧ a.get key = v ∧ b.get key = w) ∨
      a.get? key = none ∧ b.get? key = none := by
  by_cases hkey : key ∈ b.keys
  · obtain ⟨w, hw⟩ := Option.isSome_iff_exists.mp (get?_isSome.mpr hkey)
    obtain ⟨v, hv⟩ := Option.isSome_iff_exists.mp (get?_isSome.mpr ((h.keys key).mpr hkey))
    exact .inl ⟨v, w, hv, hw, by rw [get_eq, hv, Option.getD_some],
      by rw [get_eq, hw, Option.getD_some]⟩
  · exact .inr ⟨get?_eq_none.mpr (mt (h.keys key).mp hkey), get?_eq_none.mpr hkey⟩

/-- **The keys of a difference** are those whose values differ. -/
theorem mem_keys_getDiff (h : SameKeys a b) :
    key ∈ keys (getDiff (some a) (some b)) ↔ key ∈ b.keys ∧ ¬ (b.get key).Equal (a.get key) := by
  rw [← get?_isSome, ← get?_isSome]
  rcases h.get?_cases key with ⟨v, w, -, hb, rfl, rfl⟩ | ⟨-, hb⟩
  · by_cases heq : (b.get key).Equal (a.get key)
    · simp [get?_getDiff_of_equal h hb heq, heq]
    · simp [get?_getDiff_of_ne h hb heq, heq, hb]
  · simp [get?_getDiff h, hb]

/-- The pair of a field that is not hidden. -/
theorem get?_getDiff_pair (h : SameKeys a b) (hkey : key ∉ sensitiveFields)
    (hmem : key ∈ keys (getDiff (some a) (some b))) :
    get? (getDiff (some a) (some b)) key = some (.arr [a.get key, b.get key]) := by
  obtain ⟨hb, hne⟩ := (mem_keys_getDiff h).mp hmem
  rcases h.get?_cases key with ⟨v, w, -, hw, -, rfl⟩ | ⟨-, hnone⟩
  · rw [get?_getDiff_of_ne h hw hne, masked, if_neg hkey, masked, if_neg hkey]
  · exact absurd hb (get?_eq_none.mp hnone)

/-- Nothing is recorded if the snapshots are equal, and only then. -/
theorem getDiff_eq_nil_iff (h : SameKeys a b) :
    getDiff (some a) (some b) = [] ↔ (Json.obj a).Equal (.obj b) := by
  have hnil : getDiff (some a) (some b) = [] ↔
      ∀ key, key ∉ keys (getDiff (some a) (some b)) := by
    rw [← List.eq_nil_iff_forall_not_mem, keys, List.map_eq_nil_iff]
  rw [hnil, h.left.obj_equal_iff h.right]
  refine forall_congr' fun key => ?_
  rw [mem_keys_getDiff h, ← get?_isSome]
  rcases h.get?_cases key with ⟨v, w, ha, hb, rfl, rfl⟩ | ⟨ha, hb⟩
  · rw [ha, hb]
    simp only [Option.isSome_some, true_and, not_not, Option.map_some, Option.some.injEq]
    exact eq_comm
  · simp [ha, hb]

/-! ## Patches -/

/-- **The new values** over the old snapshot give the new one. -/
theorem applyNew_getDiff (h : SameKeys a b) : (a.applyNew (getDiff (some a) (some b))).Agree b := by
  intro key hkey
  unfold applyNew
  rw [get?_patch (unique_getDiff h)]
  rcases h.get?_cases key with ⟨v, w, ha, hb, rfl, rfl⟩ | ⟨ha, hb⟩
  · by_cases heq : (b.get key).Equal (a.get key)
    · rw [get?_getDiff_of_equal h hb heq, ha, hb]
      exact congrArg some heq.symm
    · rw [get?_getDiff_of_ne h hb heq, hb, masked, if_neg hkey]
      rw [masked, if_neg hkey]
      rfl
  · rw [get?_getDiff h, ha, hb]
    rfl

/-- **The old values** over the new snapshot give the old one. -/
theorem applyOld_getDiff (h : SameKeys a b) : (b.applyOld (getDiff (some a) (some b))).Agree a := by
  intro key hkey
  unfold applyOld
  rw [get?_patch (unique_getDiff h)]
  rcases h.get?_cases key with ⟨v, w, ha, hb, rfl, rfl⟩ | ⟨ha, hb⟩
  · by_cases heq : (b.get key).Equal (a.get key)
    · rw [get?_getDiff_of_equal h hb heq, ha, hb]
      exact congrArg some heq
    · rw [get?_getDiff_of_ne h hb heq, ha, masked, if_neg hkey]
      rfl
  · rw [get?_getDiff h, ha, hb]
    rfl

/-- A patch does the same to snapshots that agree. -/
theorem Agree.applyNew {diff : Snapshot} (h : a.Agree b) (hdiff : diff.Unique) :
    (a.applyNew diff).Agree (b.applyNew diff) := by
  intro key hkey
  unfold Snapshot.applyNew
  rw [get?_patch hdiff, get?_patch hdiff]
  cases diff.get? key with
  | some pair => rfl
  | none => exact h key hkey

/-- **Differences add up** along a chain of snapshots. -/
theorem foldl_diffs {chain : List Snapshot} (h : ∀ b ∈ chain, SameKeys a b) (hc : c.Agree a) :
    ((a.diffs chain).foldl Snapshot.applyNew c).Agree (chain.getLastD a) := by
  induction chain generalizing a c with
  | nil => exact hc
  | cons b chain ih =>
      have hb : SameKeys a b := h b List.mem_cons_self
      rw [diffs, List.foldl_cons, List.getLastD_cons]
      refine ih (fun d hd => hb.symm.trans (h d (List.mem_cons_of_mem b hd))) ?_
      exact (hc.applyNew (unique_getDiff hb)).trans (applyNew_getDiff hb)

end

end Snapshot

/-- **The difference of two snapshots is a patch.** -/
theorem getDiff_patch {a b : Snapshot} (h : a.SameKeys b) :
    (∀ key, key ∈ (getDiff (some a) (some b)).keys ↔
      key ∈ b.keys ∧ ¬ (b.get key).Equal (a.get key)) ∧
    (getDiff (some a) (some b) = [] ↔ (Json.obj a).Equal (.obj b)) ∧
    (∀ env actorId targetId targetType action extraData,
      logObjectChange env actorId targetId targetType action (some a) (some b) extraData = none ↔
        (Json.obj a).Equal (.obj b)) ∧
    (∀ key ∉ sensitiveFields, key ∈ (getDiff (some a) (some b)).keys →
      (getDiff (some a) (some b)).get? key = some (.arr [a.get key, b.get key])) ∧
    (a.applyNew (getDiff (some a) (some b))).Agree b ∧
    (b.applyOld (getDiff (some a) (some b))).Agree a ∧
    (getDiff none (some b)).keys = b.keys ∧ (getDiff (some a) none).keys = a.keys ∧
    (∀ chain : List Snapshot, (∀ c ∈ chain, a.SameKeys c) →
      ((a.diffs chain).foldl Snapshot.applyNew a).Agree (chain.getLastD a)) := by
  refine ⟨fun key => Snapshot.mem_keys_getDiff h, Snapshot.getDiff_eq_nil_iff h, ?_,
    fun key => Snapshot.get?_getDiff_pair h, Snapshot.applyNew_getDiff h,
    Snapshot.applyOld_getDiff h, ?_, ?_, fun chain hchain => Snapshot.foldl_diffs hchain (.refl a)⟩
  · intro env actorId targetId targetType action extraData
    rw [← Snapshot.getDiff_eq_nil_iff h]
    unfold logObjectChange
    by_cases hnil : getDiff (some a) (some b) = [] <;> simp [hnil]
  · exact Snapshot.keys_map (fun key v => .arr [.null, masked key v]) b
  · exact Snapshot.keys_map (fun key v => .arr [masked key v, .null]) a

/-- The last state of a lamp, from the first and two differences. -/
theorem getDiff_patch_lamp :
    let priced (price : Int) (tags : List Json) : Snapshot :=
      [("name", .str "Lamp"), ("price", .scalar (.decimal ⟨price, -2⟩)), ("tags", .arr tags)]
    ((Snapshot.diffs (priced 1000 []) [priced 1200 [], priced 1200 [.str "new"]]).foldl
        Snapshot.applyNew (priced 1000 [])).Agree (priced 1200 [.str "new"]) := by
  intro priced
  have hsame : ∀ price tags price' tags', (priced price tags).SameKeys (priced price' tags') :=
    fun _ _ _ _ => ⟨by simp [priced, Snapshot.Unique, Snapshot.keys],
      by simp [priced, Snapshot.Unique, Snapshot.keys], fun _ => by simp [priced, Snapshot.keys]⟩
  refine (getDiff_patch (hsame 1000 [] 1200 [])).2.2.2.2.2.2.2.2 _ fun c hc => ?_
  simp only [List.mem_cons, List.not_mem_nil, or_false] at hc
  rcases hc with rfl | rfl
  · exact hsame _ _ _ _
  · exact hsame _ _ _ _

end FairDrop
