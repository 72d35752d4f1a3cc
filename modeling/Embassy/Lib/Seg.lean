import Mathlib.Logic.Function.Basic

/-!
# Singly linked segments

A store of singly linked nodes is a function `next`, and a pointer is an
`Option`. `Seg next h l m` says that from pointer `h` the links lead through the
nodes `l`, in this order, to the pointer `m`; a list that ends in null is a
segment to `none`.

Main results:

* `Seg.append_iff` — segments are cut and joined.
* `Seg.eq_of_none` / `Seg.nodup` — a null-terminated list is determined by its
  head and never meets a node twice.
* `Seg.update_of_notMem` — writing a foreign node leaves a segment alone.
* `Seg.unlink` — taking a node out by redirecting the link that leads to it.
* `Leads` — that the links lead to a node, wherever they go on to.
* `iff_of_move` — where each node has one place, a move concerns two places only.
-/

namespace Embassy.Lib

variable {α : Type}

/-- The links lead from `h` through the nodes `l` to `m`. -/
def Seg (next : α → Option α) : Option α → List α → Option α → Prop
  | h, [], m => h = m
  | h, a :: l, m => h = some a ∧ Seg next (next a) l m

namespace Seg

variable {next next' : α → Option α} {h m : Option α} {a b : α} {l l₁ l₂ : List α}

@[simp]
theorem nil_iff : Seg next h [] m ↔ h = m := Iff.rfl

@[simp]
theorem cons_iff : Seg next h (a :: l) m ↔ h = some a ∧ Seg next (next a) l m := Iff.rfl

/-- Two segments that meet. -/
theorem append_iff : Seg next h (l₁ ++ l₂) m ↔ ∃ k, Seg next h l₁ k ∧ Seg next k l₂ m := by
  induction l₁ generalizing h with
  | nil => simp
  | cons a l₁ ih => simp only [List.cons_append, cons_iff, ih, exists_and_left, and_assoc]

/-- A list that starts at null is empty. -/
theorem eq_nil (hS : Seg next none l m) : l = [] := by
  cases l with
  | nil => rfl
  | cons a l => simp at hS

/-- The pointer a segment starts at is its first node. -/
theorem eq_cons (hS : Seg next (some a) l none) : ∃ r, l = a :: r := by
  cases l with
  | nil => simp at hS
  | cons b r =>
    obtain ⟨hEq, -⟩ := hS
    cases hEq
    exact ⟨r, rfl⟩

/-- A list that ends is told by its head. -/
theorem eq_of_none (h₁ : Seg next h l₁ none) (h₂ : Seg next h l₂ none) : l₁ = l₂ := by
  induction l₁ generalizing h l₂ with
  | nil =>
    rw [nil_iff] at h₁
    subst h₁
    exact h₂.eq_nil.symm
  | cons a l₁ ih =>
    obtain ⟨rfl, h₁⟩ := h₁
    cases l₂ with
    | nil => simp at h₂
    | cons b l₂ =>
      obtain ⟨hEq, h₂⟩ := h₂
      cases hEq
      rw [ih h₁ h₂]

/-- A list that ends has no element twice. -/
theorem nodup (hS : Seg next h l none) : l.Nodup := by
  induction l generalizing h with
  | nil => simp
  | cons a l ih =>
    refine List.nodup_cons.mpr ⟨?_, ih hS.2⟩
    intro hMem
    -- the rest would start over at `a`, and be longer than itself
    obtain ⟨u, w, rfl⟩ := List.append_of_mem hMem
    obtain ⟨k, -, -, hRest⟩ := append_iff.mp hS.2
    have hLen := congrArg List.length (hRest.eq_of_none hS.2)
    simp only [List.length_append, List.length_cons] at hLen
    omega

/-- A segment reads the links of its elements only. -/
theorem congr (hS : Seg next h l m) (hEq : ∀ a ∈ l, next' a = next a) : Seg next' h l m := by
  induction l generalizing h with
  | nil => exact hS
  | cons a l ih =>
    obtain ⟨rfl, hS⟩ := hS
    refine ⟨rfl, ?_⟩
    rw [hEq a List.mem_cons_self]
    exact ih hS fun b hb => hEq b (List.mem_cons_of_mem a hb)

variable [DecidableEq α]

/-- The link of another element may change. -/
theorem update_of_notMem {v : Option α} (hS : Seg next h l m) (ha : a ∉ l) :
    Seg (Function.update next a v) h l m := by
  refine hS.congr fun b hb => Function.update_of_ne ?_ _ _
  rintro rfl
  exact ha hb

/-- The node `a` comes after `b`; redirecting the link of `b` takes it out. -/
theorem unlink (hS : Seg next h (l₁ ++ b :: a :: l₂) none) :
    Seg (Function.update next b (next a)) h (l₁ ++ b :: l₂) none := by
  have hNodup := hS.nodup
  obtain ⟨k, h₁, rfl, hb, h₂⟩ := append_iff.mp hS
  have hb₁ : b ∉ l₁ := by
    intro hMem
    exact (List.nodup_append.mp hNodup).2.2 b hMem b List.mem_cons_self rfl
  have hb₂ : b ∉ l₂ := by
    have := (List.nodup_cons.mp (List.nodup_append.mp hNodup).2.1).1
    exact fun hMem => this (List.mem_cons_of_mem a hMem)
  refine append_iff.mpr ⟨some b, h₁.update_of_notMem hb₁, rfl, ?_⟩
  rw [Function.update_self]
  exact h₂.update_of_notMem hb₂

end Seg

/-- The links lead from `h` to the node `a`. -/
def Leads (next : α → Option α) (h : Option α) (a : α) : Prop :=
  ∃ l m, Seg next h (l ++ [a]) m

/-- Every element is reached from the head. -/
theorem Seg.leads {next : α → Option α} {h m : Option α} {a : α} {l : List α}
    (hS : Seg next h l m) (ha : a ∈ l) : Leads next h a := by
  obtain ⟨u, w, rfl⟩ := List.append_of_mem ha
  obtain ⟨k, hFirst, hRest⟩ := append_iff.mp hS
  exact ⟨u, next a, append_iff.mpr ⟨k, hFirst, hRest.1, rfl⟩⟩

/-- A null-terminated list has all that its links lead to. -/
theorem Seg.mem_of_leads {next : α → Option α} {h : Option α} {a : α} {l : List α}
    (hS : Seg next h l none) (hLeads : Leads next h a) : a ∈ l := by
  obtain ⟨u, m, hFirst⟩ := hLeads
  induction u generalizing h l with
  | nil =>
    obtain ⟨rfl, -⟩ := hFirst
    obtain ⟨r, rfl⟩ := hS.eq_cons
    exact List.mem_cons_self
  | cons b u ih =>
    obtain ⟨rfl, hFirst⟩ := hFirst
    obtain ⟨r, rfl⟩ := hS.eq_cons
    exact List.mem_cons_of_mem b (ih hS.2 hFirst)

/-- Moving a node from one place to another changes nothing at a third. -/
theorem iff_of_move {π : Type} [DecidableEq α] {place : α → π} {a b : α} {p new : π} {P : Prop}
    (hOld : P ↔ place b = p) (hFrom : place a ≠ p) (hTo : new ≠ p) :
    P ↔ Function.update place a new b = p := by
  by_cases hb : b = a
  · subst hb
    simpa [hFrom, hTo] using hOld
  · simpa [hb] using hOld

end Embassy.Lib
