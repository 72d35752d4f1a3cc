import Mathlib.Data.Seq.Basic

/-!
# Streams that begin with a list

A stream is a `Stream'.Seq`: it ends or goes on forever. `front t s` is the
stream that begins with the list `t` and goes on with `s`.

* `front_append` — lists are put in front one after another.
* `front_eq_front` — of two lists in front of one stream, one begins with the
  other.
* `exists_front` — a stream has so many elements, or ends before.
-/

namespace Embassy.Lib

open Stream' (Seq)

variable {α : Type*}

/-- The list `t`, and then the stream `s`. -/
def front (t : List α) (s : Seq α) : Seq α := (Seq.ofList t).append s

variable {t u : List α} {s v : Seq α} {a : α}

@[simp]
theorem front_nil : front [] s = s := Seq.nil_append s

@[simp]
theorem front_cons : front (a :: t) s = .cons a (front t s) := by
  unfold front
  rw [Seq.ofList_cons, Seq.cons_append]

theorem front_append : front (t ++ u) s = front t (front u s) := by
  unfold front
  rw [Seq.ofList_append, Seq.append_assoc]

theorem front_eq_nil (h : front t s = .nil) : t = [] ∧ s = .nil := by
  cases t with
  | nil => exact ⟨rfl, by rwa [front_nil] at h⟩
  | cons a t =>
    rw [front_cons] at h
    exact absurd h Seq.cons_ne_nil

/-- Of two lists that a stream begins with, the longer begins with the shorter. -/
theorem front_eq_front (h : front t s = front u v) (hLen : t.length ≤ u.length) :
    ∃ w, u = t ++ w ∧ s = front w v := by
  induction t generalizing u with
  | nil => exact ⟨u, rfl, by rwa [front_nil] at h⟩
  | cons a t ih =>
    cases u with
    | nil => cases hLen
    | cons b u =>
      rw [front_cons, front_cons] at h
      obtain ⟨rfl, hTail⟩ := Seq.cons_eq_cons.mp h
      obtain ⟨w, rfl, hRest⟩ := ih hTail (Nat.le_of_succ_le_succ hLen)
      exact ⟨w, rfl, hRest⟩

theorem front_inj (h : front t s = front u v) (hLen : t.length = u.length) : t = u ∧ s = v := by
  obtain ⟨w, rfl, rfl⟩ := front_eq_front h (Nat.le_of_eq hLen)
  rw [List.length_append] at hLen
  cases List.eq_nil_of_length_eq_zero (Nat.left_eq_add.mp hLen)
  exact ⟨(List.append_nil t).symm, front_nil⟩

/-- A list in front of a stream that ends there is the longest. -/
theorem length_le_of_front (h : front t s = front u .nil) : t.length ≤ u.length := by
  rcases Nat.le_total t.length u.length with hShort | hLong
  · exact hShort
  · obtain ⟨w, rfl, hRest⟩ := front_eq_front h.symm hLong
    obtain ⟨rfl, -⟩ := front_eq_nil hRest.symm
    rw [List.append_nil]

/-- A stream has `n` elements, or ends before. -/
theorem exists_front (s : Seq α) (n : Nat) :
    ∃ t s', s = front t s' ∧ (t.length = n ∨ t.length < n ∧ s' = .nil) := by
  induction n generalizing s with
  | zero => exact ⟨[], s, front_nil.symm, .inl rfl⟩
  | succ n ih =>
    cases s with
    | nil => exact ⟨[], .nil, front_nil.symm, .inr ⟨Nat.succ_pos n, rfl⟩⟩
    | cons a s =>
      obtain ⟨t, s', rfl, hLen⟩ := ih s
      refine ⟨a :: t, s', front_cons.symm, ?_⟩
      rcases hLen with hAll | ⟨hShort, hEnd⟩
      · exact .inl (congrArg Nat.succ hAll)
      · exact .inr ⟨Nat.succ_lt_succ hShort, hEnd⟩

end Embassy.Lib
