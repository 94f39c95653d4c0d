import TensorFuzz.Proofs.Random.Draws

/-!
# What readers take

A reader takes a part off the front of a list. `Consumes` relates what it takes to what it gives; it is proved by
following the reader, one rule for each primitive.
-/

namespace TensorFuzz

/-- Where the reader succeeds, what it takes off the front is related to what it gives. -/
def Consumes {T E α : Type} (r : StateT (List T) (Except E) α) (Q : List T → α → Prop) : Prop :=
  ∀ ts a rest, r ts = .ok (a, rest) → ∃ us, ts = us ++ rest ∧ Q us a

namespace Consumes

variable {T E α β : Type} {r : StateT (List T) (Except E) α} {P : List T → α → Prop} {Q : List T → β → Prop}
  {o : Except E α}

theorem mono {P' : List T → α → Prop} (h : Consumes r P) (himp : ∀ us a, P us a → P' us a) : Consumes r P' := by
  intro ts a rest heq
  obtain ⟨us, rfl, hP⟩ := h ts a rest heq
  exact ⟨us, rfl, himp us a hP⟩

theorem pure {b : β} (h : Q [] b) : Consumes (pure b : StateT (List T) (Except E) β) Q := by
  rintro ts _ _ ⟨⟩
  exact ⟨[], rfl, h⟩

theorem throw (e : E) : Consumes (throw e : StateT (List T) (Except E) β) Q := nofun

theorem bind {f : α → StateT (List T) (Except E) β} (hr : Consumes r P)
    (hf : ∀ us a, P us a → Consumes (f a) fun vs b => Q (us ++ vs) b) : Consumes (r >>= f) Q := by
  intro ts b rest h
  cases hread : r ts with
  | error e =>
    rw [bind_of_error hread] at h
    cases h
  | ok found =>
    obtain ⟨a, mid⟩ := found
    rw [bind_of_ok hread] at h
    obtain ⟨us, rfl, hP⟩ := hr ts a mid hread
    obtain ⟨vs, rfl, hQ⟩ := hf us a hP mid b rest h
    exact ⟨us ++ vs, (List.append_assoc ..).symm, hQ⟩

theorem bind_lift {f : α → StateT (List T) (Except E) β} (hf : ∀ a, o = .ok a → Consumes (f a) Q) :
    Consumes ((liftM o : StateT (List T) (Except E) α) >>= f) Q := by
  intro ts b rest h
  cases o with
  | error e => cases h
  | ok a => exact hf a rfl ts b rest h

theorem lift (h : ∀ a, o = .ok a → P [] a) : Consumes (liftM o : StateT (List T) (Except E) α) P := by
  intro ts a rest heq
  cases o with
  | error e => cases heq
  | ok a =>
    cases heq
    exact ⟨[], rfl, h a rfl⟩

theorem get {f : List T → StateT (List T) (Except E) β} (hf : ∀ ts, Consumes (f ts) Q) : Consumes (get >>= f) Q :=
  fun ts => hf ts ts

end Consumes

end TensorFuzz
