import Mathlib.Data.List.Infix
import Mathlib.Data.List.TakeWhile

/-!
# String methods

The methods of Python's `str` that the key parsing uses, as functions on lists
of characters: `sub in s`, `s.split(sep, n)`, `s.lstrip(c)` and taking prefixes
off.
-/

namespace Text

/-- `sub in s` -/
abbrev Contains (sub s : List Char) : Prop := sub <:+: s

/-- `s.lstrip(c)` -/
def lstrip (c : Char) (s : List Char) : List Char := s.dropWhile (· = c)

/-- `s.split(sep, n)` for a separator of one character. -/
def splitMax (sep : Char) : Nat → List Char → List (List Char)
  | 0, s => [s]
  | n + 1, s =>
      match s.dropWhile (· ≠ sep) with
      | [] => [s]
      | _ :: rest => s.takeWhile (· ≠ sep) :: splitMax sep n rest

section
variable {c sep : Char} {s : List Char}

theorem lstrip_length_le (c : Char) (s : List Char) : (lstrip c s).length ≤ s.length :=
  (List.dropWhile_suffix _).length_le

theorem lstrip_of_ne {d : Char} (h : d ≠ c) : lstrip c (d :: s) = d :: s := by
  unfold lstrip
  rw [List.dropWhile_cons_of_neg (by simpa using h)]

/-- There are as many parts as separators, within the limit. -/
theorem length_splitMax (n : Nat) (s : List Char) :
    (splitMax sep n s).length = min n (s.count sep) + 1 := by
  induction n generalizing s with
  | zero => simp [splitMax]
  | succ n ih =>
      have hsplit := List.takeWhile_append_dropWhile (p := (· ≠ sep)) (l := s)
      have hfront : (s.takeWhile (· ≠ sep)).count sep = 0 := by
        rw [List.count_eq_zero]
        intro hmem
        have hne := List.mem_takeWhile_imp hmem
        simp at hne
      rw [splitMax]
      cases hrest : s.dropWhile (· ≠ sep) with
      | nil =>
          rw [hrest, List.append_nil] at hsplit
          have hzero : s.count sep = 0 := hsplit ▸ hfront
          simp [hzero]
      | cons d rest =>
          have hd : d = sep := by
            have hhead := List.head?_dropWhile_not (p := (· ≠ sep)) (l := s)
            rw [hrest] at hhead
            simpa using hhead
          have hcount : s.count sep = rest.count sep + 1 := by
            rw [← hsplit, hrest, List.count_append, hfront, hd, List.count_cons_self]
            omega
          rw [List.length_cons, ih, hcount]
          omega

/-- Each separator makes the part behind it shorter. -/
theorem splitMax_getElem_length {n : Nat} {s t : List Char}
    (h : (splitMax sep n s)[n]? = some t) : t.length + n ≤ s.length := by
  induction n generalizing s with
  | zero =>
      obtain rfl : s = t := by simpa [splitMax] using h
      exact Nat.le_refl _
  | succ n ih =>
      rw [splitMax] at h
      split at h
      · simp at h
      · next d rest hrest =>
          rw [List.getElem?_cons_succ] at h
          have htail := ih h
          have hsuffix := (List.dropWhile_suffix (l := s) (· ≠ sep)).length_le
          rw [hrest, List.length_cons] at hsuffix
          omega

/-- Something that begins with `c` lies behind a text without `c`. -/
theorem contains_append {sub front : List Char} (h : c ∉ front) :
    Contains (c :: sub) (front ++ s) ↔ Contains (c :: sub) s := by
  induction front with
  | nil => rfl
  | cons d front ih =>
      rw [List.mem_cons, not_or] at h
      rw [List.cons_append, Contains, List.infix_cons_iff, ← ih h.2]
      refine or_iff_right fun hprefix => h.1 ?_
      exact (List.cons_prefix_cons.mp hprefix).1

end

end Text
