import TensorFuzz.Engine
import TensorFuzz.Proofs.Random.Draws

/-!
# Runs of generators

What a generator does from a state is read off its tree: the states that the run goes through (`Gen.Visits`)
and what holds of its result (`Gen.Gives`). A proof follows the generator by one rule for each primitive, and
so speaks of all runs: every choice of words, every point of the run and the result, if there is one. It also
says from which faults a run is safe: of those, only a draw that does not end can stop it.
-/

namespace TensorFuzz

/-- A set of faults. -/
abbrev Faults : Type := Fault → Prop

abbrev Faults.all : Faults := fun _ => True

abbrev Faults.none : Faults := fun _ => False

variable {σ : Type} {α β : Type}

namespace Gen

instance : LawfulMonad (Gen σ) := by
  refine LawfulMonad.mk' (Gen σ) (fun g => ?_) (fun _ _ => rfl) (fun g f h => ?_)
  · show g.bind _ = g
    induction g with
    | done a => rfl
    | stop fault => rfl
    | look next ih => exact congrArg look (funext ih)
    | move e next ih => exact congrArg (move e) ih
  · show (g.bind f).bind h = g.bind fun a => (f a).bind h
    induction g with
    | done a => rfl
    | stop fault => rfl
    | look next ih => exact congrArg look (funext ih)
    | move e next ih => exact congrArg (move e) ih

/-- What follows goes on with the result and the state of the first part. -/
theorem run_bind (g : Gen σ α) (f : α → Gen σ β) (e : Engine σ) :
    (g >>= f).run e = g.run e >>= fun r => (f r.1).run r.2 := by
  show (g.bind f).run e = _
  induction g generalizing e with
  | done a => rfl
  | stop fault => rfl
  | look next ih => exact ih e e
  | move state next ih => exact ih state

theorem exists_of_run_bind {g : Gen σ α} {f : α → Gen σ β} {e e' : Engine σ} {b : β}
    (h : (g >>= f).run e = .ok (b, e')) : ∃ a e₁, g.run e = .ok (a, e₁) ∧ (f a).run e₁ = .ok (b, e') := by
  rw [run_bind] at h
  cases hrun : g.run e with
  | error fault =>
    rw [hrun] at h
    cases h
  | ok r =>
    rw [hrun] at h
    exact ⟨r.1, r.2, rfl, h⟩

/-- The states that a run goes through, the first and the last included. -/
inductive Visits : Gen σ α → Engine σ → Engine σ → Prop
  | here (g : Gen σ α) (e : Engine σ) : Visits g e e
  | look {next : Engine σ → Gen σ α} {e e' : Engine σ} : Visits (next e) e e' → Visits (look next) e e'
  | move {state e e' : Engine σ} {next : Gen σ α} : Visits next state e' → Visits (move state next) e e'

/-- A run goes through the states of its first part. -/
theorem Visits.left {g : Gen σ α} {f : α → Gen σ β} {e e' : Engine σ} (h : Visits g e e') :
    Visits (g >>= f) e e' := by
  induction h with
  | here => exact .here _ _
  | look _ ih => exact .look ih
  | move _ ih => exact .move ih

/-- A run goes through the states of what follows its first part. -/
theorem Visits.right {g : Gen σ α} {f : α → Gen σ β} {e e₁ e' : Engine σ} {a : α} (hrun : g.run e = .ok (a, e₁))
    (h : Visits (f a) e₁ e') : Visits (g >>= f) e e' := by
  show Visits (g.bind f) e e'
  induction g generalizing e with
  | done b =>
    cases hrun
    exact h
  | stop fault => cases hrun
  | look next ih => exact .look (ih e hrun)
  | move state next ih => exact .move (ih hrun)

theorem visits_of_run {g : Gen σ α} {e e' : Engine σ} {a : α} (hrun : g.run e = .ok (a, e')) : Visits g e e' := by
  induction g generalizing e with
  | done b =>
    cases hrun
    exact .here _ _
  | stop fault => cases hrun
  | look next ih => exact .look (ih e hrun)
  | move state next ih => exact .move (ih hrun)

variable [RandomSource σ]

/-- From the state on, all states that the run goes through have the property `I`, and its result and last
state are related by `Q`. A fault that it is to be `safe` from stops the run only if a draw does not end, and then
the supply is not steady. -/
def Gives (safe : Faults) (I : Engine σ → Prop) : Gen σ α → Engine σ → (α → Engine σ → Prop) → Prop
  | done a, e, Q => Q a e
  | stop fault, e, _ => safe fault → fault = .endless ∧ ¬ e.supply.Steady
  | look next, e, Q => Gives safe I (next e) e Q
  | move state next, e, Q =>
    I state ∧ (safe .endless → e.supply.Steady → state.supply.Steady) ∧ Gives safe I next state Q

namespace Gives

variable {safe : Faults} {I J : Engine σ → Prop} {g : Gen σ α} {e e' : Engine σ} {Q R : α → Engine σ → Prop}

/-- A run comes to a result, or to a fault, which is a draw without end if the run is safe from it. -/
theorem run_eq (h : Gives safe I g e Q) :
    (∃ a e', g.run e = .ok (a, e') ∧ Q a e' ∧ (safe .endless → e.supply.Steady → e'.supply.Steady)) ∨
      ∃ fault, g.run e = .error fault ∧ (safe fault → fault = .endless ∧ ¬ e.supply.Steady) := by
  induction g generalizing e with
  | done a => exact .inl ⟨a, e, rfl, h, fun _ => id⟩
  | stop fault => exact .inr ⟨fault, rfl, h⟩
  | look next ih => exact ih e h
  | move state next ih =>
    rcases ih h.2.2 with ⟨a, e', hrun, ha, hs⟩ | ⟨fault, hrun, hfault⟩
    · exact .inl ⟨a, e', hrun, ha, fun hsafe hsteady => hs hsafe (h.2.1 hsafe hsteady)⟩
    · refine .inr ⟨fault, hrun, fun hsafe => ?_⟩
      obtain ⟨rfl, hs⟩ := hfault hsafe
      exact ⟨rfl, fun hsteady => hs (h.2.1 hsafe hsteady)⟩

/-- Where the supply is steady, no fault that the run is safe from stops it. -/
theorem run_or (h : Gives safe I g e Q) (hs : e.supply.Steady) :
    (∃ a e', g.run e = .ok (a, e') ∧ Q a e') ∨ ∃ fault, g.run e = .error fault ∧ ¬ safe fault := by
  rcases h.run_eq with ⟨a, e', hrun, ha, -⟩ | ⟨fault, hrun, hfault⟩
  · exact .inl ⟨a, e', hrun, ha⟩
  · exact .inr ⟨fault, hrun, fun hsafe => (hfault hsafe).2 hs⟩

theorem exists_run (h : Gives .all I g e Q) (hs : e.supply.Steady) : ∃ a e', g.run e = .ok (a, e') ∧ Q a e' :=
  (h.run_or hs).resolve_right fun ⟨_, _, hsafe⟩ => hsafe trivial

theorem of_run (h : Gives safe I g e Q) {a : α} (hrun : g.run e = .ok (a, e')) : Q a e' := by
  induction g generalizing e with
  | done a =>
    cases hrun
    exact h
  | stop fault => cases hrun
  | look next ih => exact ih e h hrun
  | move state next ih => exact ih h.2.2 hrun

theorem of_visits (h : Gives safe I g e Q) (he : I e) (hv : Visits g e e') : I e' := by
  induction hv with
  | here => exact he
  | look _ ih => exact ih h he
  | move _ ih => exact ih h.2.2 h.1

theorem mono (h : Gives safe I g e Q) (hI : ∀ e, I e → J e) (hQ : ∀ a e, Q a e → R a e) : Gives safe J g e R := by
  induction g generalizing e with
  | done a => exact hQ a e h
  | stop fault => exact h
  | look next ih => exact ih e h
  | move state next ih => exact ⟨hI _ h.1, h.2.1, ih h.2.2⟩

theorem post (h : Gives safe I g e Q) (hQ : ∀ a e, Q a e → R a e) : Gives safe I g e R :=
  h.mono (fun _ => id) hQ

/-- The states that have the property are states of the run, and the result is its result. -/
theorem trace (h : Gives safe I g e Q) :
    Gives safe (fun e' => I e' ∧ Visits g e e') g e fun a e' => Q a e' ∧ g.run e = .ok (a, e') := by
  induction g generalizing e with
  | done a => exact ⟨h, rfl⟩
  | stop fault => exact h
  | look next ih => exact (ih e h).mono (fun _ he => ⟨he.1, .look he.2⟩) fun _ _ => id
  | move state next ih =>
    exact ⟨⟨h.1, .move (.here _ _)⟩, h.2.1, (ih h.2.2).mono (fun _ he => ⟨he.1, .move he.2⟩) fun _ _ => id⟩

/-! ## Rules -/

theorem pure {a : α} (h : Q a e) : Gives safe I (Pure.pure a) e Q := h

theorem bind {f : α → Gen σ β} {S : β → Engine σ → Prop} (h : Gives safe I g e Q)
    (hf : ∀ a e', Q a e' → Gives safe I (f a) e' S) : Gives safe I (g >>= f) e S := by
  show Gives safe I (g.bind f) e S
  induction g generalizing e with
  | done a => exact hf a e h
  | stop fault => exact h
  | look next ih => exact ih e h
  | move state next ih => exact ⟨h.1, h.2.1, ih h.2.2⟩

/-- What is known of all states of a run is known of those behind its first part. -/
theorem follow {f : α → Gen σ β} {S : β → Engine σ → Prop} {V : Engine σ → Prop}
    (hV : ∀ e', Visits (g >>= f) e e' → V e') (h : Gives safe I g e Q)
    (hf : ∀ a e₁, Q a e₁ → (∀ e', Visits (f a) e₁ e' → V e') → Gives safe I (f a) e₁ S) :
    Gives safe I (g >>= f) e S := by
  refine (h.trace.mono (fun _ he => he.1) fun _ _ => id).bind fun a e₁ ⟨ha, hrun⟩ => ?_
  exact hf a e₁ ha fun e' he => hV e' (he.right hrun)

theorem get {f : Engine σ → Gen σ β} {S : β → Engine σ → Prop} (h : Gives safe I (f e) e S) :
    Gives safe I (MonadState.get >>= f) e S := h

theorem update {f : Engine σ → Engine σ} (hI : I (f e)) (hs : (f e).supply = e.supply) :
    Gives safe I (modify f : Gen σ PUnit) e fun _ e' => e' = f e :=
  ⟨hI, by show _ → _ → (f e).supply.Steady; rw [hs]; exact fun _ => id, rfl⟩

theorem put {state : Engine σ} (hI : I state) (hs : state.supply = e.supply) :
    Gives safe I (set state : Gen σ PUnit) e fun _ e' => e' = state :=
  ⟨hI, fun _ h => hs ▸ h, rfl⟩

theorem draw {act : Draw σ α} {P : α → Prop} (h : act.Yields P)
    (hI : ∀ supply, I { e with supply }) :
    Gives safe I (Gen.draw act) e fun a e' => P a ∧ ∃ supply, e' = { e with supply } := by
  rcases h e.supply with ⟨a, supply, hrun, ha, hs⟩ | ⟨hrun, hs⟩
  · simp only [Gen.draw, Gives, hrun]
    exact ⟨hI supply, fun _ => hs, ha, supply, rfl⟩
  · simp only [Gen.draw, Gives, hrun]
    exact fun _ => ⟨trivial, hs⟩

theorem orFault {result : Except Fault α} {a : α} {f : α → Gen σ β} {S : β → Engine σ → Prop}
    (h : result = .ok a) (hf : Gives safe I (f a) e S) : Gives safe I (Gen.orFault result >>= f) e S := by
  rw [h]
  exact hf

/-- A check may fail, unless the run is safe from that. -/
theorem checked {result : Except Fault α} {f : α → Gen σ β} {S : β → Engine σ → Prop}
    (hsafe : ∀ fault, result = .error fault → ¬ safe fault) (hf : ∀ a, result = .ok a → Gives safe I (f a) e S) :
    Gives safe I (Gen.orFault result >>= f) e S := by
  cases result with
  | error fault => exact fun h => absurd h (hsafe fault rfl)
  | ok a => exact hf a rfl

theorem ite {c : Prop} [Decidable c] {g' : Gen σ α} (h : c → Gives safe I g e Q) (h' : ¬ c → Gives safe I g' e Q) :
    Gives safe I (if c then g else g') e Q := by
  split
  · exact h ‹_›
  · exact h' ‹_›

end Gives

end Gen

/-! ## Results of runs -/

namespace Gen

/-- Every result of the computation has the property, from whatever state it runs. -/
def Returns (g : Gen σ α) (P : α → Prop) : Prop := ∀ ⦃e a e'⦄, g.run e = .ok (a, e') → P a

namespace Returns

variable {g g' : Gen σ α} {P P' : α → Prop} {Q : β → Prop}

theorem mono (h : Returns g P) (hP : ∀ a, P a → P' a) : Returns g P' := fun _ _ _ hrun => hP _ (h hrun)

theorem pure {a : α} (h : P a) : Returns (Pure.pure a : Gen σ α) P := by
  rintro _ _ _ ⟨⟩
  exact h

theorem bind {f : α → Gen σ β} (h : Returns g P) (hf : ∀ a, P a → Returns (f a) Q) : Returns (g >>= f) Q := by
  intro e b e' hrun
  obtain ⟨a, e₁, ha, hb⟩ := exists_of_run_bind hrun
  exact hf a (h ha) hb

/-- The result of the first part does not matter. -/
theorem after {f : α → Gen σ β} (hf : ∀ a, Returns (f a) Q) : Returns (g >>= f) Q := by
  intro e b e' hrun
  obtain ⟨a, e₁, -, hb⟩ := exists_of_run_bind hrun
  exact hf a hb

theorem ite {c : Prop} [Decidable c] (h : c → Returns g P) (h' : ¬ c → Returns g' P) :
    Returns (if c then g else g') P := by
  split
  · exact h ‹_›
  · exact h' ‹_›

theorem nested (h : Returns g P) : Returns (Gen.nested g) P := after fun _ => h.bind fun _ ha => after fun _ => .pure ha

theorem times (h : Returns g P) (n : Nat) : Returns (Gen.times g n) fun as => ∀ a ∈ as, P a := by
  induction n with
  | zero => exact .pure (List.forall_mem_nil P)
  | succ n ih => exact h.bind fun a ha => ih.bind fun as has => .pure (List.forall_mem_cons.mpr ⟨ha, has⟩)

theorem mapM {f : β → Gen σ α} {xs : List β} (h : ∀ x ∈ xs, Returns (f x) P) :
    Returns (xs.mapM f) fun as => ∀ a ∈ as, P a := by
  induction xs with
  | nil =>
    rw [List.mapM_nil]
    exact .pure (List.forall_mem_nil P)
  | cons x xs ih =>
    rw [List.mapM_cons]
    obtain ⟨hx, hxs⟩ := List.forall_mem_cons.mp h
    exact hx.bind fun a ha => (ih hxs).bind fun as has => .pure (List.forall_mem_cons.mpr ⟨ha, has⟩)

/-- Every result shows the same as the member of the list that it is for. -/
theorem mapM_map {γ : Type} {f : β → Gen σ α} {shown : α → γ} {meant : β → γ} {xs : List β}
    (h : ∀ x ∈ xs, Returns (f x) fun a => shown a = meant x) :
    Returns (xs.mapM f) fun as => as.map shown = xs.map meant := by
  induction xs with
  | nil =>
    rw [List.mapM_nil]
    exact .pure rfl
  | cons x xs ih =>
    rw [List.mapM_cons]
    obtain ⟨hx, hxs⟩ := List.forall_mem_cons.mp h
    refine hx.bind fun a ha => (ih hxs).bind fun as has => .pure ?_
    rw [List.map_cons, List.map_cons, ha, has]

end Returns

/-- From every state with the property `I`, the computation leads to such a state again, and its result has the
property `P`. -/
def Upholds (I : Engine σ → Prop) (g : Gen σ α) (P : α → Prop) : Prop :=
  ∀ ⦃e a e'⦄, I e → g.run e = .ok (a, e') → I e' ∧ P a

namespace Upholds

variable {I : Engine σ → Prop} {g g' : Gen σ α} {P P' : α → Prop} {Q : β → Prop}

theorem mono (h : Upholds I g P) (hP : ∀ a, P a → P' a) : Upholds I g P' := fun _ _ _ he hrun =>
  (h he hrun).imp_right (hP _)

theorem pure {a : α} (h : P a) : Upholds I (Pure.pure a) P := by
  rintro _ _ _ he ⟨⟩
  exact ⟨he, h⟩

theorem bind {f : α → Gen σ β} (h : Upholds I g P) (hf : ∀ a, P a → Upholds I (f a) Q) : Upholds I (g >>= f) Q := by
  intro e b e' he hrun
  obtain ⟨a, e₁, ha, hb⟩ := exists_of_run_bind hrun
  obtain ⟨he₁, hPa⟩ := h he ha
  exact hf a hPa he₁ hb

theorem look {f : Engine σ → Gen σ β} (hf : ∀ e, I e → Upholds I (f e) Q) : Upholds I (MonadState.get >>= f) Q :=
  fun e _ _ he hrun => hf e he he hrun

theorem ite {c : Prop} [Decidable c] (h : c → Upholds I g P) (h' : ¬ c → Upholds I g' P) :
    Upholds I (if c then g else g') P := by
  split
  · exact h ‹_›
  · exact h' ‹_›

theorem update {f : Engine σ → Engine σ} (h : ∀ e, I e → I (f e)) :
    Upholds I (modify f : Gen σ PUnit) fun _ => True := by
  rintro e _ _ he ⟨⟩
  exact ⟨h e he, trivial⟩

theorem put {state : Engine σ} (h : I state) : Upholds I (set state : Gen σ PUnit) fun _ => True := by
  rintro e _ _ _ ⟨⟩
  exact ⟨h, trivial⟩

theorem fallible {result : Except Fault α} {f : α → Gen σ β} (hf : ∀ a, result = .ok a → Upholds I (f a) Q) :
    Upholds I (Gen.orFault result >>= f) Q := by
  cases result with
  | error fault => exact fun _ _ _ _ hrun => nomatch hrun
  | ok a => exact hf a rfl

theorem times (h : Upholds I g P) (n : Nat) :
    Upholds I (Gen.times g n) fun as => as.length = n ∧ ∀ a ∈ as, P a := by
  induction n with
  | zero => exact .pure ⟨rfl, List.forall_mem_nil P⟩
  | succ n ih =>
    refine h.bind fun a ha => ih.bind fun as ⟨hlength, has⟩ => .pure ?_
    exact ⟨congrArg (· + 1) hlength, List.forall_mem_cons.mpr ⟨ha, has⟩⟩

theorem mapM {f : β → Gen σ α} {xs : List β} (h : ∀ x ∈ xs, Upholds I (f x) P) :
    Upholds I (xs.mapM f) fun as => as.length = xs.length ∧ ∀ a ∈ as, P a := by
  induction xs with
  | nil =>
    rw [List.mapM_nil]
    exact .pure ⟨rfl, List.forall_mem_nil P⟩
  | cons x xs ih =>
    rw [List.mapM_cons]
    obtain ⟨hx, hxs⟩ := List.forall_mem_cons.mp h
    refine hx.bind fun a ha => (ih hxs).bind fun as ⟨hlength, has⟩ => .pure ?_
    exact ⟨congrArg (· + 1) hlength, List.forall_mem_cons.mpr ⟨ha, has⟩⟩

end Upholds

end Gen

/-! ## Computations that stay among some states -/

section
variable [RandomSource σ]

namespace Gen

/-- From any state with the property `I`, the computation stays among those states and its results have the
property `P`. -/
def Within (safe : Faults) (I : Engine σ → Prop) (g : Gen σ α) (P : α → Prop) : Prop :=
  ∀ e, I e → Gives safe I g e fun a e' => P a ∧ I e'

namespace Within

variable {safe : Faults} {I : Engine σ → Prop} {g g' : Gen σ α} {P P' : α → Prop} {Q : β → Prop}

theorem mono (h : Within safe I g P) (hP : ∀ a, P a → P' a) : Within safe I g P' := fun e he =>
  (h e he).post fun a _ ha => ⟨hP a ha.1, ha.2⟩

theorem pure {a : α} (h : P a) : Within safe I (Pure.pure a) P := fun _ he => .pure ⟨h, he⟩

theorem bind {f : α → Gen σ β} (h : Within safe I g P) (hf : ∀ a, P a → Within safe I (f a) Q) :
    Within safe I (g >>= f) Q := fun e he => (h e he).bind fun a e' ha => hf a ha.1 e' ha.2

theorem look {f : Engine σ → Gen σ β} (hf : ∀ e, I e → Within safe I (f e) Q) :
    Within safe I (MonadState.get >>= f) Q := fun e he => .get (hf e he e he)

theorem draw {act : Draw σ α} (hI : ∀ e supply, I e → I { e with supply }) (h : act.Yields P) :
    Within safe I (Gen.draw act) P := fun e he => by
  refine (Gives.draw h fun supply => hI e supply he).post fun a e' ha => ?_
  obtain ⟨ha, supply, rfl⟩ := ha
  exact ⟨ha, hI e supply he⟩

theorem checked {result : Except Fault α} {f : α → Gen σ β} (hsafe : ∀ fault, result = .error fault → ¬ safe fault)
    (hf : ∀ a, result = .ok a → Within safe I (f a) Q) : Within safe I (Gen.orFault result >>= f) Q := fun e he =>
  .checked hsafe fun a ha => hf a ha e he

theorem update {f : Engine σ → Engine σ} (hI : ∀ e, I e → I (f e)) (hs : ∀ e, (f e).supply = e.supply) :
    Within safe I (modify f : Gen σ PUnit) fun _ => True := fun e he =>
  (Gives.update (hI e he) (hs e)).post fun _ _ heq => ⟨trivial, heq ▸ hI e he⟩

theorem ite {c : Prop} [Decidable c] (h : c → Within safe I g P) (h' : ¬ c → Within safe I g' P) :
    Within safe I (if c then g else g') P := by
  split
  · exact h ‹_›
  · exact h' ‹_›

theorem times (h : Within safe I g P) (n : Nat) :
    Within safe I (Gen.times g n) fun as => as.length = n ∧ ∀ a ∈ as, P a := by
  induction n with
  | zero => exact .pure ⟨rfl, by simp⟩
  | succ n ih =>
    rw [Gen.times]
    refine h.bind fun a ha => ih.bind fun as has => .pure ⟨by simp [has.1], ?_⟩
    rintro b (_ | ⟨_, hb⟩)
    · exact ha
    · exact has.2 b hb

/-- The results for the members of a list, each with the property for its member. -/
theorem mapM {f : α → Gen σ β} {R : α → β → Prop} {xs : List α} (h : ∀ x ∈ xs, Within safe I (f x) (R x)) :
    Within safe I (xs.mapM f) fun ys => ys.length = xs.length ∧ ∀ pair ∈ ys.zip xs, R pair.2 pair.1 := by
  induction xs with
  | nil =>
    rw [List.mapM_nil]
    exact .pure ⟨rfl, by simp⟩
  | cons x xs ih =>
    rw [List.mapM_cons]
    refine (h x (by simp)).bind fun y hy => (ih fun x' hx' => h x' (by simp [hx'])).bind fun ys hys => .pure ?_
    refine ⟨by simp [hys.1], ?_⟩
    rintro pair (_ | ⟨_, hpair⟩)
    · exact hy
    · exact hys.2 pair hpair

end Within

end Gen

end

/-! ## Computations that declare nothing -/

/-- The states differ at most in the supply, in the combinations that are left and in the journal. -/
structure Engine.Agrees (e₀ e : Engine σ) : Prop where
  scope : e.scope = e₀.scope
  records : e.records = e₀.records
  stmtDepth : e.stmtDepth = e₀.stmtDepth

theorem Engine.Agrees.refl (e : Engine σ) : e.Agrees e := ⟨rfl, rfl, rfl⟩

theorem Engine.Agrees.draw {e e' : Engine σ} (h : e.Agrees e') (supply : Supply σ) : e.Agrees { e' with supply } :=
  ⟨h.scope, h.records, h.stmtDepth⟩

theorem Engine.Agrees.trans {e e' e'' : Engine σ} (h : e.Agrees e') (h' : e'.Agrees e'') : e.Agrees e'' :=
  ⟨h'.scope.trans h.scope, h'.records.trans h.records, h'.stmtDepth.trans h.stmtDepth⟩

/-- The states share the registry, and draws do not lead out of them. -/
structure Engine.Registering (I : Engine σ → Prop) (records : Registry) : Prop where
  records : ∀ e, I e → e.records = records
  draw : ∀ e supply, I e → I { e with supply }

theorem Engine.Registering.agrees (e₀ : Engine σ) : Registering e₀.Agrees e₀.records :=
  ⟨fun _ he => he.records, fun _ supply he => he.draw supply⟩

variable [RandomSource σ]

namespace Gen

/-- From any state that agrees with `e₀`, the computation stays among those states and its results have the
property. -/
def Keeps (safe : Faults) (e₀ : Engine σ) (g : Gen σ α) (P : α → Prop) : Prop :=
  ∀ e, e₀.Agrees e → Gives safe e₀.Agrees g e fun a e' => P a ∧ e₀.Agrees e'

namespace Keeps

variable {safe : Faults} {e₀ : Engine σ} {g g' : Gen σ α} {P P' : α → Prop} {Q : β → Prop}

theorem mono (h : Keeps safe e₀ g P) (hP : ∀ a, P a → P' a) : Keeps safe e₀ g P' := Within.mono h hP

/-- The states that agree may have any property that goes through agreement. -/
theorem within {I : Engine σ → Prop} (h : Keeps safe e₀ g P) (hI : ∀ e, e₀.Agrees e → I e) {e : Engine σ}
    (he : e₀.Agrees e) : Gives safe I g e fun a e' => P a ∧ e₀.Agrees e' := (h e he).mono hI fun _ _ => id

theorem of_run (h : Keeps .none e₀ g P) {e e' : Engine σ} (he : e₀.Agrees e) {a : α}
    (hrun : g.run e = .ok (a, e')) : P a ∧ e₀.Agrees e' := Gives.of_run (h e he) hrun

theorem pure {a : α} (h : P a) : Keeps safe e₀ (Pure.pure a) P := Within.pure h

theorem bind {f : α → Gen σ β} (h : Keeps safe e₀ g P) (hf : ∀ a, P a → Keeps safe e₀ (f a) Q) :
    Keeps safe e₀ (g >>= f) Q := Within.bind h hf

theorem look {f : Engine σ → Gen σ β} (hf : ∀ e, e₀.Agrees e → Keeps safe e₀ (f e) Q) :
    Keeps safe e₀ (MonadState.get >>= f) Q := Within.look hf

theorem draw {act : Draw σ α} (h : act.Yields P) : Keeps safe e₀ (Gen.draw act) P :=
  Within.draw (fun _ supply he => he.draw supply) h

theorem orFault {result : Except Fault α} {a : α} {f : α → Gen σ β} (h : result = .ok a)
    (hf : Keeps safe e₀ (f a) Q) : Keeps safe e₀ (Gen.orFault result >>= f) Q := by
  rw [h]
  exact hf

theorem update {f : Engine σ → Engine σ} {P : PUnit → Prop} (h : ∀ e : Engine σ, e.Agrees (f e))
    (hsupply : ∀ e, (f e).supply = e.supply) (hP : P ⟨⟩) : Keeps safe e₀ (modify f : Gen σ PUnit) P := fun e he =>
  (Gives.update (he.trans (h e)) (hsupply e)).post fun _ e' heq => by
    subst heq
    exact ⟨hP, he.trans (h e)⟩

theorem ite {c : Prop} [Decidable c] (h : c → Keeps safe e₀ g P) (h' : ¬ c → Keeps safe e₀ g' P) :
    Keeps safe e₀ (if c then g else g') P := Within.ite h h'

theorem report {event : Event} : Keeps safe e₀ (Gen.report event : Gen σ Unit) fun _ => True :=
  .update (fun _ => ⟨rfl, rfl, rfl⟩) (fun _ => rfl) trivial

theorem times (h : Keeps safe e₀ g P) (n : Nat) :
    Keeps safe e₀ (Gen.times g n) fun as => as.length = n ∧ ∀ a ∈ as, P a := Within.times h n

theorem mapM {f : α → Gen σ β} {R : α → β → Prop} {xs : List α} (h : ∀ x ∈ xs, Keeps safe e₀ (f x) (R x)) :
    Keeps safe e₀ (xs.mapM f) fun ys => ys.length = xs.length ∧ ∀ pair ∈ ys.zip xs, R pair.2 pair.1 := Within.mapM h

/-! ## Draws -/

theorem chance (p : Probability) : Keeps safe e₀ (Gen.chance p : Gen σ Bool) fun _ => True :=
  .draw (Draw.chance_yields p)

theorem coin : Keeps safe e₀ (Gen.coin : Gen σ Bool) fun _ => True := .chance _

theorem kind : Keeps safe e₀ (Gen.kind : Gen σ Kind) fun _ => True :=
  (Keeps.draw (Draw.event_yields (by decide) (by decide))).bind fun _ _ => .pure trivial

theorem pick? (xs : List α) :
    Keeps safe e₀ (Gen.pick? xs : Gen σ (Option α)) fun found => (found = none ↔ xs = []) ∧ ∀ a ∈ found, a ∈ xs :=
  .draw (Draw.pick?_yields xs)

theorem dimension (p : Profile) :
    Keeps safe e₀ (Gen.dimension p : Gen σ Nat) fun n => 1 ≤ n ∧ n ≤ max p.maxDimension 1 :=
  (Keeps.draw (Draw.sizeIn_yields 1 (max p.maxDimension 1))).mono fun n hn => by omega

end Keeps

theorem Returns.of_keeps {g : Gen σ α} {P : α → Prop} (h : ∀ e, Keeps .none e g P) : Returns g P :=
  fun e _ _ hrun => ((h e).of_run (.refl e) hrun).1

/-- What declares nothing upholds every property that goes through agreement. -/
theorem Upholds.of_keeps {I : Engine σ → Prop} {g : Gen σ α} {P : α → Prop} (hI : ∀ e e', I e → e.Agrees e' → I e')
    (h : ∀ e, I e → Keeps .none e g P) : Upholds I g P := by
  intro e a e' he hrun
  obtain ⟨ha, hagrees⟩ := (h e he).of_run (.refl e) hrun
  exact ⟨hI e e' he hagrees, ha⟩

end Gen

end TensorFuzz
