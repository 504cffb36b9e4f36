import Mathlib.Tactic.Common

/-! Programs over a state that record the states they pass through, with a
Hoare triple that speaks of these states and of the result. -/

namespace Library

variable {σ α β : Type}

/-- A program: the states after its statements, in order, and its value with the
final state (`none`: it faults, or never ends). -/
def Prog (σ α : Type) : Type := σ → List σ × Option (α × σ)

namespace Prog

def visited (p : Prog σ α) (s : σ) : List σ := (p s).1
def result (p : Prog σ α) (s : σ) : Option (α × σ) := (p s).2

instance : Monad (Prog σ) where
  pure a := fun s => ([], some (a, s))
  bind p f := fun s =>
    match p s with
    | (tr, none) => (tr, none)
    | (tr, some (a, s')) => (tr ++ (f a s').1, (f a s').2)

def get : Prog σ σ := fun s => ([], some (s, s))

/-- A routine taken as one statement. -/
def call (f : σ → Option (α × σ)) : Prog σ α := fun s => (((f s).map Prod.snd).toList, f s)

def update (f : σ → σ) : Prog σ Unit := call fun s => some ((), f s)

/-- Assignments one after the other. -/
def updates : List (σ → σ) → Prog σ Unit
  | [] => pure ()
  | f :: fs => do
    update f
    updates fs

/-! ## Results -/

@[simp] theorem result_pure (a : α) (s : σ) : (pure a : Prog σ α).result s = some (a, s) := rfl

@[simp] theorem result_get (s : σ) : (get : Prog σ σ).result s = some (s, s) := rfl

@[simp] theorem result_bind (p : Prog σ α) (f : α → Prog σ β) (s : σ) :
    (p >>= f).result s = (p.result s).bind fun r => (f r.1).result r.2 := by
  simp only [result, bind]
  rcases p s with ⟨tr, _ | ⟨a, s'⟩⟩ <;> rfl

@[simp] theorem result_call (f : σ → Option (α × σ)) (s : σ) : (call f).result s = f s := rfl

@[simp] theorem result_update (f : σ → σ) (s : σ) : (update f).result s = some ((), f s) := rfl

/-- An assignment in front of a program; unlike the lemmas above, it leaves the program whole. -/
theorem result_update_then (f : σ → σ) (p : Prog σ α) (s : σ) :
    (update f >>= fun _ => p).result s = p.result (f s) := by
  rw [result_bind, result_update, Option.bind_some]

theorem result_get_then (p : σ → Prog σ α) (s : σ) :
    (get >>= p).result s = (p s).result s := by
  rw [result_bind, result_get, Option.bind_some]

@[simp] theorem result_updates (fs : List (σ → σ)) (s : σ) :
    (updates fs).result s = some ((), fs.foldl (fun s f => f s) s) := by
  induction fs generalizing s with
  | nil => rfl
  | cons f fs ih => simp [updates, ih]

/-! ## Triples -/

/-- From a state in `P`, all states on the way are in `I`, and a result is in `Q`. -/
def Triple (I P : σ → Prop) (p : Prog σ α) (Q : α → σ → Prop) : Prop :=
  ∀ s, P s → (∀ v ∈ p.visited s, I v) ∧ ∀ a s', p.result s = some (a, s') → Q a s'

namespace Triple

variable {I P P' : σ → Prop} {Q Q' : α → σ → Prop}

theorem pure (a : α) : Triple I (Q a) (pure a : Prog σ α) Q := fun s hs =>
  ⟨fun v hv => absurd hv List.not_mem_nil, fun a' s' h => by cases h; exact hs⟩

theorem get {Q : σ → σ → Prop} (h : ∀ s, P s → Q s s) : Triple I P Prog.get Q := fun s hs =>
  ⟨fun v hv => absurd hv List.not_mem_nil, fun a' s' h' => by cases h'; exact h s hs⟩

theorem bind {p : Prog σ α} {f : α → Prog σ β} {R : β → σ → Prop} (hp : Triple I P p Q)
    (hf : ∀ a, Triple I (Q a) (f a) R) : Triple I P (p >>= f) R := by
  intro s hs
  obtain ⟨hvis, hres⟩ := hp s hs
  simp only [visited, result, Bind.bind] at hvis hres ⊢
  rcases h : p s with ⟨tr, _ | ⟨a, s'⟩⟩
  · simp only [h] at hvis ⊢
    exact ⟨hvis, fun _ _ h' => by cases h'⟩
  · simp only [h] at hvis hres ⊢
    obtain ⟨hvis', hres'⟩ := hf a s' (hres a s' rfl)
    refine ⟨fun v hv => ?_, hres'⟩
    rcases List.mem_append.mp hv with hv | hv
    · exact hvis v hv
    · exact hvis' v hv

theorem call {f : σ → Option (α × σ)}
    (h : ∀ s a s', P s → f s = some (a, s') → I s' ∧ Q a s') : Triple I P (call f) Q := by
  refine fun s hs => ⟨fun v hv => ?_, fun a s' hf => (h s a s' hs hf).2⟩
  obtain ⟨⟨a, s'⟩, hf, rfl⟩ := Option.map_eq_some_iff.mp (Option.mem_toList.mp hv)
  exact (h s a s' hs hf).1

theorem update {f : σ → σ} {Q : σ → Prop} (h : ∀ s, P s → I (f s) ∧ Q (f s)) :
    Triple I P (update f) fun _ => Q :=
  call fun s a s' hs heq => by cases heq; exact h s hs

/-- An assignment that keeps `P`, which is enough for the states on the way. -/
theorem keep {f : σ → σ} (hI : ∀ s, P s → I s) (h : ∀ s, P s → P (f s)) :
    Triple I P (Prog.update f) fun _ => P :=
  update fun s hs => ⟨hI _ (h s hs), h s hs⟩

/-- Assignments that all keep `P`. -/
theorem updates {fs : List (σ → σ)} (hI : ∀ s, P s → I s)
    (h : ∀ f ∈ fs, ∀ s, P s → P (f s)) : Triple I P (updates fs) fun _ => P := by
  induction fs with
  | nil => exact pure (Q := fun _ => P) ()
  | cons f fs ih =>
    exact bind (Q := fun _ => P) (keep hI (h f List.mem_cons_self))
      fun _ => ih fun g hg => h g (List.mem_cons_of_mem _ hg)

theorem conseq {p : Prog σ α} (hp : Triple I P p Q) (hP : ∀ s, P' s → P s)
    (hQ : ∀ a s, Q a s → Q' a s) : Triple I P' p Q' := fun s hs =>
  ⟨(hp s (hP s hs)).1, fun a s' h => hQ a s' ((hp s (hP s hs)).2 a s' h)⟩

/-- The states on the way are in a larger set. -/
theorem weaken {J : σ → Prop} {p : Prog σ α} (hp : Triple I P p Q) (hI : ∀ s, I s → J s) :
    Triple J P p Q := fun s hs =>
  ⟨fun v hv => hI v ((hp s hs).1 v hv), (hp s hs).2⟩

theorem ite {c : Prop} [Decidable c] {p q : Prog σ α} (hp : c → Triple I P p Q)
    (hq : ¬ c → Triple I P q Q) : Triple I P (if c then p else q) Q := by
  split
  · exact hp ‹_›
  · exact hq ‹_›

/-- What the precondition says about values other than the state. -/
theorem assume {p : Prog σ α} {φ : Prop} (hp : φ → Triple I P p Q) :
    Triple I (fun s => φ ∧ P s) p Q := fun s hs => hp hs.1 s hs.2

end Triple

end Prog

end Library
