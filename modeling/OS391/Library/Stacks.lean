import Mathlib.Logic.Function.Basic
import Mathlib.Tactic.Common

/-! Families of stacks with no member in common, and parent pointers that descend
such a stack to its last member. -/

namespace Library

variable {τ π : Type} [DecidableEq τ]

/-! ## Parent pointers -/

/-- The parent of each member is the next one, and the last is its own parent. -/
def Descends (parent : π → π) : List π → Prop
  | [] => True
  | [r] => parent r = r
  | a :: b :: l => parent a = b ∧ Descends parent (b :: l)

theorem Descends.tail {parent : π → π} {a : π} {l : List π} (h : Descends parent (a :: l)) :
    Descends parent l := by
  cases l with
  | nil => trivial
  | cons b l => exact h.2

theorem Descends.congr {parent parent' : π → π} {l : List π} (h : Descends parent l)
    (heq : ∀ a ∈ l, parent' a = parent a) : Descends parent' l := by
  induction l with
  | nil => trivial
  | cons a l ih =>
    have ha := heq a List.mem_cons_self
    have hl := ih h.tail fun b hb => heq b (List.mem_cons_of_mem a hb)
    cases l with
    | nil => exact ha.trans h
    | cons b l => exact ⟨ha.trans h.1, hl⟩

theorem Descends.parent_mem {parent : π → π} {l : List π} (h : Descends parent l) {a : π}
    (ha : a ∈ l) : parent a ∈ l := by
  induction l with
  | nil => cases ha
  | cons b l ih =>
    rcases List.mem_cons.mp ha with rfl | ha
    · cases l with
      | nil => exact List.mem_singleton.mpr h
      | cons c l => rw [h.1]; simp
    · exact List.mem_cons_of_mem b (ih h.tail ha)

/-! ## Families of stacks -/

/-- A stack for each `t`, without repetitions and without common members. -/
structure Stacks (τ π : Type) where
  on : τ → List π
  nodup : ∀ t, (on t).Nodup
  apart : ∀ t u p, p ∈ on t → p ∈ on u → t = u

namespace Stacks

def empty : Stacks τ π :=
  ⟨fun _ => [], fun _ => List.nodup_nil, fun _ _ _ h => absurd h List.not_mem_nil⟩

def push (S : Stacks τ π) (t : τ) (p : π) (hp : ∀ u, p ∉ S.on u) : Stacks τ π where
  on := Function.update S.on t (p :: S.on t)
  nodup u := by
    by_cases hu : u = t
    · subst hu
      simpa using ⟨hp u, S.nodup u⟩
    · simpa [Function.update_of_ne hu] using S.nodup u
  apart u v q hu hv := by
    by_cases hut : u = t <;> by_cases hvt : v = t
    · exact hut.trans hvt.symm
    · subst hut
      rw [Function.update_self] at hu
      rw [Function.update_of_ne hvt] at hv
      rcases List.mem_cons.mp hu with rfl | hu
      · exact absurd hv (hp v)
      · exact S.apart u v q hu hv
    · subst hvt
      rw [Function.update_self] at hv
      rw [Function.update_of_ne hut] at hu
      rcases List.mem_cons.mp hv with rfl | hv
      · exact absurd hu (hp u)
      · exact S.apart u v q hu hv
    · rw [Function.update_of_ne hut] at hu
      rw [Function.update_of_ne hvt] at hv
      exact S.apart u v q hu hv

@[simp] theorem push_on_self (S : Stacks τ π) (t : τ) (p : π) (hp : ∀ u, p ∉ S.on u) :
    (S.push t p hp).on t = p :: S.on t := by simp [push]

@[simp] theorem push_on_of_ne (S : Stacks τ π) {t u : τ} (p : π) (hp : ∀ u, p ∉ S.on u)
    (hu : u ≠ t) : (S.push t p hp).on u = S.on u := by simp [push, Function.update_of_ne hu]

theorem mem_push {S : Stacks τ π} {t : τ} {p : π} {hp : ∀ u, p ∉ S.on u} {q : π} :
    (∃ u, q ∈ (S.push t p hp).on u) ↔ q = p ∨ ∃ u, q ∈ S.on u := by
  constructor
  · rintro ⟨u, hu⟩
    by_cases hut : u = t
    · subst hut
      rw [push_on_self] at hu
      exact (List.mem_cons.mp hu).imp_right fun h => ⟨u, h⟩
    · rw [push_on_of_ne S p hp hut] at hu
      exact .inr ⟨u, hu⟩
  · rintro (rfl | ⟨u, hu⟩)
    · exact ⟨t, by simp⟩
    · by_cases hut : u = t
      · subst hut
        exact ⟨u, by simp [hu]⟩
      · exact ⟨u, by rwa [push_on_of_ne S p hp hut]⟩

def pop (S : Stacks τ π) (t : τ) : Stacks τ π where
  on := Function.update S.on t (S.on t).tail
  nodup u := by
    by_cases hu : u = t
    · subst hu
      rw [Function.update_self]
      exact (S.nodup u).tail
    · simpa [Function.update_of_ne hu] using S.nodup u
  apart u v q hu hv := by
    have hsub : ∀ w, q ∈ Function.update S.on t (S.on t).tail w → q ∈ S.on w := by
      intro w hw
      by_cases hwt : w = t
      · subst hwt
        rw [Function.update_self] at hw
        exact List.mem_of_mem_tail hw
      · rwa [Function.update_of_ne hwt] at hw
    exact S.apart u v q (hsub u hu) (hsub v hv)

@[simp] theorem pop_on_self (S : Stacks τ π) (t : τ) : (S.pop t).on t = (S.on t).tail := by
  simp [pop]

@[simp] theorem pop_on_of_ne (S : Stacks τ π) {t u : τ} (hu : u ≠ t) : (S.pop t).on u = S.on u := by
  simp [pop, Function.update_of_ne hu]

/-- What is left after a pop is everything but the member popped. -/
theorem mem_pop {S : Stacks τ π} {t : τ} {p : π} {l : List π} (ht : S.on t = p :: l) {q : π} :
    (∃ u, q ∈ (S.pop t).on u) ↔ q ≠ p ∧ ∃ u, q ∈ S.on u := by
  have hp : p ∉ l := (List.nodup_cons.mp (ht ▸ S.nodup t)).1
  constructor
  · rintro ⟨u, hu⟩
    by_cases hut : u = t
    · subst hut
      rw [pop_on_self, ht, List.tail_cons] at hu
      exact ⟨fun h => hp (h ▸ hu), u, by simp [ht, hu]⟩
    · rw [pop_on_of_ne S hut] at hu
      refine ⟨fun h => hut (S.apart u t p (h ▸ hu) (by simp [ht])), u, hu⟩
  · rintro ⟨hq, u, hu⟩
    by_cases hut : u = t
    · subst hut
      rw [ht] at hu
      exact ⟨u, by simpa [ht] using (List.mem_cons.mp hu).resolve_left hq⟩
    · exact ⟨u, by rwa [pop_on_of_ne S hut]⟩

end Stacks

end Library
