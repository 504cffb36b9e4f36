import Mathlib.Logic.Function.Basic
import Mathlib.Tactic.Common

/-! Runs of a partial step function, the invariant rule for runs whose steps
all satisfy a guard, histories, and projection of a run to one component of the state. -/

namespace Library.Runs

variable {σ α τ β : Type}

/-- Take the steps of a list in order; `none` as soon as one step is stuck. -/
def run (step : σ → α → Option σ) : σ → List α → Option σ
  | s, [] => some s
  | s, a :: as => (step s a).bind fun s' => run step s' as

@[simp] theorem run_nil (step : σ → α → Option σ) (s : σ) : run step s [] = some s := rfl

@[simp] theorem run_cons (step : σ → α → Option σ) (s : σ) (a : α) (as : List α) :
    run step s (a :: as) = (step s a).bind fun s' => run step s' as := rfl

theorem run_append (step : σ → α → Option σ) (s : σ) (as bs : List α) :
    run step s (as ++ bs) = (run step s as).bind fun s' => run step s' bs := by
  induction as generalizing s with
  | nil => rfl
  | cons a as ih =>
    cases h : step s a with
    | none => simp [h]
    | some s' => simp [h, ih]

/-- A run of one kind of step is a fold. -/
theorem run_map (step : σ → α → Option σ) (f : β → α) (s : σ) (bs : List β) :
    run step s (bs.map f) = bs.foldlM (fun s b => step s (f b)) s := by
  induction bs generalizing s with
  | nil => rfl
  | cons b bs ih =>
    rw [List.map_cons, run_cons, List.foldlM_cons]
    exact Option.bind_congr fun s' _ => ih s'

/-- `Path step ok s as t`: the run of `as` leads from `s` to `t`, and `ok` held
of the state and the label before each of its steps. -/
inductive Path (step : σ → α → Option σ) (ok : σ → α → Prop) : σ → List α → σ → Prop
  | nil (s : σ) : Path step ok s [] s
  | cons {s s' t : σ} {a : α} {as : List α} :
      ok s a → step s a = some s' → Path step ok s' as t → Path step ok s (a :: as) t

theorem Path.invariant {step : σ → α → Option σ} {ok : σ → α → Prop} (Inv : σ → Prop)
    (hstep : ∀ s a s', Inv s → ok s a → step s a = some s' → Inv s')
    {s t : σ} {as : List α} (h : Path step ok s as t) (hs : Inv s) : Inv t := by
  induction h with
  | nil => exact hs
  | cons hok ha _ ih => exact ih (hstep _ _ _ hs hok ha)

/-- A guard that follows from another one under an invariant. -/
theorem Path.imp {step : σ → α → Option σ} {ok ok' : σ → α → Prop} (Inv : σ → Prop)
    (hstep : ∀ s a s', Inv s → ok s a → step s a = some s' → Inv s' ∧ ok' s a)
    {s t : σ} {as : List α} (h : Path step ok s as t) (hs : Inv s) : Path step ok' s as t := by
  induction h with
  | nil => exact .nil _
  | cons hok ha _ ih =>
    obtain ⟨hinv, hok'⟩ := hstep _ _ _ hs hok ha
    exact .cons hok' ha (ih hinv)

/-- A path is a run. -/
theorem Path.run_eq {step : σ → α → Option σ} {ok : σ → α → Prop} {s t : σ} {as : List α}
    (h : Path step ok s as t) : run step s as = some t := by
  induction h with
  | nil => rfl
  | cons _ ha _ ih => rw [run_cons, ha, Option.bind_some, ih]

/-- What a step keeps exactly when the guard holds, a run keeps exactly when it is a path. -/
theorem path_iff {step : σ → α → Option σ} {ok : σ → α → Prop} (Inv P : σ → Prop)
    (hinv : ∀ s a s', Inv s → step s a = some s' → Inv s')
    (hstep : ∀ s a s', Inv s → step s a = some s' → (P s' ↔ P s ∧ ok s a))
    {s t : σ} {as : List α} (h : run step s as = some t) (hs : Inv s) :
    P t ↔ P s ∧ Path step ok s as t := by
  induction as generalizing s with
  | nil =>
    cases h
    exact ⟨fun hp => ⟨hp, .nil _⟩, And.left⟩
  | cons a as ih =>
    obtain ⟨s', hs', h'⟩ := Option.bind_eq_some_iff.mp h
    rw [ih h' (hinv s a s' hs hs'), hstep s a s' hs hs']
    constructor
    · rintro ⟨⟨hp, hok⟩, hpath⟩
      exact ⟨hp, .cons hok hs' hpath⟩
    · rintro ⟨hp, hpath⟩
      cases hpath with
      | cons hok ha hrest =>
        rw [hs'] at ha
        cases ha
        exact ⟨⟨hp, hok⟩, hrest⟩

/-- When each step keeps `P` exactly under the guard, `P` holds all along a run if and only
if the run is a path. -/
theorem prefixes_iff {step : σ → α → Option σ} {ok : σ → α → Prop} (Q : α → Prop)
    (Inv P : σ → Prop) (hinv : ∀ s a s', Q a → Inv s → step s a = some s' → Inv s')
    (hstep : ∀ s a s', Q a → Inv s → P s → step s a = some s' → (P s' ↔ ok s a))
    {s t : σ} {as : List α} (h : run step s as = some t) (has : ∀ a ∈ as, Q a) (hs : Inv s)
    (hp : P s) :
    (∀ pre u, pre <+: as → run step s pre = some u → P u) ↔ Path step ok s as t := by
  induction as generalizing s with
  | nil =>
    cases h
    refine iff_of_true (fun pre u hpre hu => ?_) (.nil _)
    rw [List.prefix_nil.mp hpre] at hu
    cases hu
    exact hp
  | cons a as ih =>
    obtain ⟨s', hs', h'⟩ := Option.bind_eq_some_iff.mp h
    obtain ⟨ha, has⟩ := List.forall_mem_cons.mp has
    have hkeep := hstep s a s' ha hs hp hs'
    have ih := ih h' has (hinv s a s' ha hs hs')
    constructor
    · intro hall
      have hp' : P s' := hall [a] s' (by simp) (by rw [run_cons, hs']; rfl)
      refine .cons (hkeep.mp hp') hs' ((ih hp').mp fun pre u hpre hu => ?_)
      exact hall (a :: pre) u (List.cons_prefix_cons.mpr ⟨rfl, hpre⟩)
        (by rw [run_cons, hs', Option.bind_some, hu])
    · intro hpath pre u hpre hu
      cases hpath with
      | cons hok ha' hrest =>
        rw [hs'] at ha'
        cases ha'
        cases pre with
        | nil =>
          cases hu
          exact hp
        | cons b pre =>
          obtain ⟨rfl, htail⟩ := List.cons_prefix_cons.mp hpre
          rw [run_cons, hs', Option.bind_some] at hu
          exact (ih (hkeep.mpr hok)).mpr hrest pre u htail hu

/-- Without a guard, a path is a run. -/
theorem path_of_run {step : σ → α → Option σ} {s t : σ} {as : List α}
    (h : run step s as = some t) : Path step (fun _ _ => True) s as t := by
  induction as generalizing s with
  | nil => cases h; exact .nil _
  | cons a as ih =>
    obtain ⟨s', hs', h'⟩ := Option.bind_eq_some_iff.mp h
    exact .cons trivial hs' (ih h')

/-- A run that stops where the guard fails. -/
def guardedRun (step : σ → α → Option σ) (ok : σ → α → Prop) [∀ s a, Decidable (ok s a)] :
    σ → List α → Option σ :=
  run fun s a => if ok s a then step s a else none

theorem path_of_guardedRun {step : σ → α → Option σ} {ok : σ → α → Prop}
    [∀ s a, Decidable (ok s a)] {s t : σ} {as : List α}
    (h : guardedRun step ok s as = some t) : Path step ok s as t := by
  induction as generalizing s with
  | nil => cases h; exact .nil _
  | cons a as ih =>
    obtain ⟨s', hs', h'⟩ := Option.bind_eq_some_iff.mp h
    change (if ok s a then step s a else none) = some s' at hs'
    by_cases hok : ok s a
    · rw [if_pos hok] at hs'
      exact .cons hok hs' (ih h')
    · rw [if_neg hok] at hs'
      cases hs'

/-- A property of a computed result, from its evaluation. -/
theorem exists_of_map_decide {x : Option α} (p : α → Prop) [DecidablePred p]
    (h : (x.map fun a => decide (p a)) = some true) : ∃ a, x = some a ∧ p a := by
  obtain ⟨a, ha, hp⟩ := Option.map_eq_some_iff.mp h
  exact ⟨a, ha, of_decide_eq_true hp⟩

theorem run_invariant {step : σ → α → Option σ} (Inv : σ → Prop)
    (hstep : ∀ s a s', Inv s → step s a = some s' → Inv s')
    {s t : σ} {as : List α} (h : run step s as = some t) (hs : Inv s) : Inv t :=
  (path_of_run h).invariant Inv (fun s a s' hi _ => hstep s a s' hi) hs

/-! ## Histories -/

section History

variable {η : Type} (step : σ → α → Option σ) (note : η → σ → α → η)

/-- The system with a history beside its state, which no step looks at. -/
def recorded (x : σ × η) (a : α) : Option (σ × η) :=
  (step x.1 a).map fun s' => (s', note x.2 x.1 a)

theorem recorded_eq_some {x y : σ × η} {a : α} :
    recorded step note x a = some y ↔ step x.1 a = some y.1 ∧ note x.2 x.1 a = y.2 := by
  unfold recorded
  rw [Option.map_eq_some_iff]
  constructor
  · rintro ⟨s', hs', rfl⟩
    exact ⟨hs', rfl⟩
  · rintro ⟨hs', he⟩
    exact ⟨y.1, hs', by rw [he]⟩

/-- The invariant rule for a state and its history. -/
theorem recorded_invariant (Inv : σ → η → Prop)
    (hstep : ∀ s e a s', Inv s e → step s a = some s' → Inv s' (note e s a))
    {s t : σ} {e e' : η} {as : List α}
    (h : run (recorded step note) (s, e) as = some (t, e')) (hs : Inv s e) : Inv t e' := by
  refine run_invariant (fun x : σ × η => Inv x.1 x.2) (fun x a y hx ha => ?_) h hs
  obtain ⟨hs', he⟩ := (recorded_eq_some step note).mp ha
  rw [← he]
  exact hstep x.1 x.2 a y.1 hx hs'

end History

/-! ## Loops -/

/-- `while (cond) body`, given up after `fuel` rounds (`none`: no end in sight). -/
def whileLoop (cond : σ → Bool) (body : σ → σ) : Nat → σ → Option σ
  | 0, _ => none
  | fuel + 1, s => if cond s then whileLoop cond body fuel (body s) else some s

theorem whileLoop_exit {cond : σ → Bool} {body : σ → σ} {s : σ} (fuel : Nat)
    (h : cond s = false) : whileLoop cond body (fuel + 1) s = some s := by
  simp [whileLoop, h]

theorem whileLoop_round {cond : σ → Bool} {body : σ → σ} {s : σ} (fuel : Nat)
    (h : cond s = true) :
    whileLoop cond body (fuel + 1) s = whileLoop cond body fuel (body s) := by
  simp [whileLoop, h]

theorem whileLoop_invariant {cond : σ → Bool} {body : σ → σ} (P : σ → Prop)
    (hbody : ∀ s, P s → P (body s)) {fuel : Nat} {s t : σ}
    (h : whileLoop cond body fuel s = some t) (hs : P s) : P t ∧ cond t = false := by
  induction fuel generalizing s with
  | zero => cases h
  | succ fuel ih =>
    cases hc : cond s with
    | true => exact ih (whileLoop_round fuel hc ▸ h) (hbody s hs)
    | false =>
      rw [whileLoop_exit fuel hc] at h
      cases h
      exact ⟨hs, hc⟩

/-- A loop that keeps an invariant, with rounds that bring a measure down, comes to its end. -/
theorem whileLoop_total {cond : σ → Bool} {body : σ → σ} (P : σ → Prop) (measure : σ → Nat)
    (hbody : ∀ s, P s → cond s = true → P (body s) ∧ measure (body s) < measure s)
    {fuel : Nat} {s : σ} (hs : P s) (hfuel : measure s < fuel) :
    ∃ t, whileLoop cond body fuel s = some t ∧ P t ∧ cond t = false := by
  induction fuel generalizing s with
  | zero => exact absurd hfuel (Nat.not_lt_zero _)
  | succ fuel ih =>
    cases hc : cond s with
    | false => exact ⟨s, whileLoop_exit fuel hc, hs, hc⟩
    | true =>
      obtain ⟨hp, hlt⟩ := hbody s hs hc
      obtain ⟨t, ht, hend⟩ := ih hp (Nat.lt_of_lt_of_le hlt (Nat.le_of_lt_succ hfuel))
      exact ⟨t, (whileLoop_round fuel hc).trans ht, hend⟩

/-- A loop through the states `st a`, …, `st n`. -/
theorem whileLoop_counted {cond : σ → Bool} {body : σ → σ} (st : Nat → σ) {n : Nat}
    {a fuel : Nat} (ha : a ≤ n) (hfuel : n - a < fuel)
    (hcond : ∀ i, a ≤ i → i ≤ n → cond (st i) = decide (i < n))
    (hbody : ∀ i, a ≤ i → i < n → body (st i) = st (i + 1)) :
    whileLoop cond body fuel (st a) = some (st n) := by
  induction fuel generalizing a with
  | zero => exact absurd hfuel (Nat.not_lt_zero _)
  | succ fuel ih =>
    rcases Nat.eq_or_lt_of_le ha with rfl | hlt
    · have hdone := hcond a (Nat.le_refl a) ha
      rw [decide_eq_false (Nat.lt_irrefl a)] at hdone
      exact whileLoop_exit fuel hdone
    · have hmore := hcond a (Nat.le_refl a) ha
      rw [decide_eq_true hlt] at hmore
      rw [whileLoop_round fuel hmore, hbody a (Nat.le_refl a) hlt]
      exact ih hlt (by omega) (fun i hi => hcond i (by omega)) (fun i hi => hbody i (by omega))

/-- `foldlM` over a list keeps what each round keeps. -/
theorem foldlM_invariant {step : σ → α → Option σ} (P : σ → Prop)
    (hstep : ∀ s a s', P s → step s a = some s' → P s') {as : List α} {s t : σ}
    (h : as.foldlM step s = some t) (hs : P s) : P t := by
  induction as generalizing s with
  | nil => cases h; exact hs
  | cons a as ih =>
    obtain ⟨s', hs', h'⟩ := Option.bind_eq_some_iff.mp h
    exact ih h' (hstep s a s' hs hs')

/-! ## Projection to a component -/

section Projection

variable (step : σ → α → Option σ) (lstep : τ → β → Option τ)

/-- The local labels of a run: `here s a` is the label that `a`, taken in `s`,
has for the component, `none` when `a` is not addressed to it. -/
def project (here : σ → α → Option β) : σ → List α → List β
  | _, [] => []
  | s, a :: as => (here s a).toList ++
      match step s a with
      | some s' => project here s' as
      | none => []

/-- **Projection rule.** When every step of the system is matched by its local
label (by no step at all without one), a run is matched by its projection. -/
theorem project_run (here : σ → α → Option β) (R : σ → τ → Prop)
    (hact : ∀ s a s' u, R s u → step s a = some s' →
      ∃ u', run lstep u (here s a).toList = some u' ∧ R s' u')
    (s t : σ) (u : τ) (as : List α) (hs : R s u) (h : run step s as = some t) :
    ∃ v, run lstep u (project step here s as) = some v ∧ R t v := by
  induction as generalizing s u with
  | nil => cases h; exact ⟨u, rfl, hs⟩
  | cons a as ih =>
    obtain ⟨s', hs', h'⟩ := Option.bind_eq_some_iff.mp h
    obtain ⟨u', hu', hr⟩ := hact s a s' u hs hs'
    obtain ⟨v, hv, hrv⟩ := ih s' u' hr h'
    exact ⟨v, by simp only [project, hs']; rw [run_append, hu', Option.bind_some, hv], hrv⟩

/-- A stuck run has a first stuck step; its local label ends every projection. -/
theorem run_stuck (s : σ) (as : List α) (h : run step s as = none) :
    ∃ pre a u, run step s pre = some u ∧ step u a = none ∧
      ∀ here : σ → α → Option β,
        project step here s as = project step here s pre ++ (here u a).toList := by
  induction as generalizing s with
  | nil => simp at h
  | cons a as ih =>
    cases hs' : step s a with
    | none => exact ⟨[], a, s, rfl, hs', fun here => by simp [project, hs']⟩
    | some s' =>
      have h' : run step s' as = none := by simpa [hs'] using h
      obtain ⟨pre, b, u, hr, hb, hp⟩ := ih s' h'
      exact ⟨a :: pre, b, u, by simp [hs', hr], hb, fun here => by simp [project, hs', hp]⟩

end Projection

end Library.Runs
