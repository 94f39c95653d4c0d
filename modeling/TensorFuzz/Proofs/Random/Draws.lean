import TensorFuzz.Random.Draw
import TensorFuzz.Random.KeyStream

/-!
# What draws give

`Supply.Steady`: every bounded number drawn from the supply, now or later, is accepted in time. `Draw.Yields`
says what all results of a draw have in common, and that it fails only where the supply is not steady; it is
proved by following the draw, one rule for each primitive.
-/

namespace TensorFuzz

variable {σ : Type} {α β : Type}

section
variable {S E : Type} {act : StateT S (Except E) α} {f : α → StateT S (Except E) β} {s s' : S}

theorem bind_of_ok {a : α} (h : act s = .ok (a, s')) : (act >>= f) s = f a s' := by
  show (act s >>= fun r => f r.1 r.2) = _
  rw [h]
  rfl

theorem bind_of_error {error : E} (h : act s = .error error) : (act >>= f) s = .error error := by
  show (act s >>= fun r => f r.1 r.2) = _
  rw [h]
  rfl

theorem ok_bind (a : α) (f : α → Except E β) : (Except.ok a >>= f) = f a := rfl

theorem exists_of_bind_ok {o : Except E α} {f : α → Except E β} {b : β} (h : (o >>= f) = .ok b) :
    ∃ a, o = .ok a ∧ f a = .ok b := by
  cases o with
  | error e => cases h
  | ok a => exact ⟨a, rfl, h⟩

theorem exists_of_map_ok {o : Except E α} {f : α → β} {b : β} (h : f <$> o = .ok b) : ∃ a, o = .ok a ∧ b = f a := by
  cases o with
  | error e => cases h
  | ok a => exact ⟨a, rfl, (Except.ok.inj h).symm⟩

theorem eq_ok_of_toOption {o : Except E α} {a : α} (h : o.toOption = some a) : o = .ok a := by
  cases o with
  | error e => cases h
  | ok b =>
    cases h
    rfl

theorem exists_of_toOption_map {o : Except E α} {f : α → β} {b : β} (h : o.toOption.map f = some b) :
    ∃ a, o = .ok a ∧ f a = b := by
  cases o with
  | error e => cases h
  | ok a => exact ⟨a, rfl, Option.some.inj h⟩

end

variable [RandomSource σ]

/-- The states of a source after any number of words. -/
inductive RandomSource.Later : σ → σ → Prop
  | refl (source : σ) : Later source source
  | next32 {source later : σ} : Later source later → Later source (next32 later).2
  | next64 {source later : σ} : Later source later → Later source (next64 later).2

open RandomSource (Later)

theorem RandomSource.Later.trans {a b c : σ} (hab : Later a b) (hbc : Later b c) : Later a c := by
  induction hbc with
  | refl => exact hab
  | next32 _ ih => exact ih.next32
  | next64 _ ih => exact ih.next64

/-- Each single draw of a bounded number ends, from the supply as it stands and after any words taken. -/
def Supply.Steady (supply : Supply σ) : Prop :=
  ∀ source, Later supply.source source → ∀ width bound, 0 < bound →
    ∃ result, Draw.scaled width bound (supply.patience source) ⟨source, supply.patience⟩ = .ok result

theorem Supply.Steady.later {supply : Supply σ} (h : supply.Steady) {source : σ}
    (hlater : Later supply.source source) : Supply.Steady ⟨source, supply.patience⟩ :=
  fun _ hsource => h _ (hlater.trans hsource)

/-- A source that hands out one word for ever. -/
structure Repeating where
  word : UInt64

instance : RandomSource Repeating where
  next32 source := (source.word.toUInt32, source)
  next64 source := (source.word, source)

/-- Zero is accepted by every draw. -/
theorem Repeating.zero_steady : Supply.Steady ⟨Repeating.mk 0, fun _ => 1⟩ := by
  intro source hsource width bound hbound
  have hzero : source = ⟨0⟩ := by
    induction hsource with
    | refl => rfl
    | next32 _ ih | next64 _ ih => exact ih
  have hzone : 0 < Draw.acceptedZone width bound := by
    rw [Draw.acceptedZone, Nat.shiftLeft_eq]
    exact Nat.mul_pos hbound (Nat.two_pow_pos _)
  have hword : Draw.word width (⟨⟨0⟩, fun _ => 1⟩ : Supply Repeating) = .ok (0, ⟨⟨0⟩, fun _ => 1⟩) := by
    cases width <;> rfl
  rw [hzero, Draw.scaled, bind_of_ok hword, Nat.zero_mul, Nat.zero_mod, if_pos hzone]
  exact ⟨_, rfl⟩

/-- A source that hands out the states of the congruential generator. Its draws vary, and each takes one step. -/
structure Congruential where
  state : UInt64

instance : RandomSource Congruential where
  next32 source :=
    let state := KeyStream.stretchStep source.state
    ((state >>> 32).toUInt32, ⟨state⟩)
  next64 source :=
    let state := KeyStream.stretchStep source.state
    (state, ⟨state⟩)

namespace Draw

/-- Every result has the property, and only a supply that is not steady fails to give one. -/
def Yields (act : Draw σ α) (P : α → Prop) : Prop :=
  ∀ s, (∃ a s', act s = .ok (a, s') ∧ P a ∧ (s.Steady → s'.Steady)) ∨
    (act s = .error .endless ∧ ¬ s.Steady)

namespace Yields

variable {P P' : α → Prop} {Q : β → Prop}

theorem mono {act : Draw σ α} (h : Yields act P) (hP : ∀ a, P a → P' a) : Yields act P' := fun s => by
  rcases h s with ⟨a, s', hrun, ha, hs⟩ | hfail
  · exact .inl ⟨a, s', hrun, hP a ha, hs⟩
  · exact .inr hfail

theorem pure {a : α} (h : P a) : Yields (Pure.pure a : Draw σ α) P :=
  fun s => .inl ⟨a, s, rfl, h, id⟩

/-- What a draw yields holds of each result it gives, and where the supply is steady it gives one. -/
theorem results {act : Draw σ α} (h : Yields act P) (s : Supply σ) :
    (∀ a s', act s = .ok (a, s') → P a) ∧ (s.Steady → ∃ a s', act s = .ok (a, s') ∧ P a) := by
  rcases h s with ⟨a, s', hrun, ha, -⟩ | ⟨hrun, hs⟩
  · refine ⟨fun a' s'' hrun' => ?_, fun _ => ⟨a, s', hrun, ha⟩⟩
    rw [hrun] at hrun'
    cases hrun'
    exact ha
  · refine ⟨fun a' s'' hrun' => ?_, fun hsteady => absurd hsteady hs⟩
    rw [hrun] at hrun'
    cases hrun'

theorem bind {act : Draw σ α} {f : α → Draw σ β} (h : Yields act P) (hf : ∀ a, P a → Yields (f a) Q) :
    Yields (act >>= f) Q := fun s => by
  rcases h s with ⟨a, s', hrun, ha, hs⟩ | ⟨hrun, hs⟩
  · rw [bind_of_ok hrun]
    rcases hf a ha s' with ⟨b, s'', hrun', hb, hs'⟩ | ⟨hrun', hs'⟩
    · exact .inl ⟨b, s'', hrun', hb, fun h => hs' (hs h)⟩
    · exact .inr ⟨hrun', fun h => hs' (hs h)⟩
  · exact .inr ⟨bind_of_error hrun, hs⟩

/-- Only the results that a draw may give matter to what follows it. -/
theorem bind_congr {act : Draw σ α} {f g : α → Draw σ β} (h : Yields act P) (hfg : ∀ a, P a → f a = g a) :
    act >>= f = act >>= g := by
  funext s
  rcases h s with ⟨a, s', hrun, ha, -⟩ | ⟨hrun, -⟩
  · rw [bind_of_ok hrun, bind_of_ok hrun, hfg a ha]
  · rw [bind_of_error hrun, bind_of_error hrun]

theorem ite {c : Prop} [Decidable c] {act act' : Draw σ α} (h : c → Yields act P) (h' : ¬ c → Yields act' P) :
    Yields (if c then act else act') P := by
  split
  · exact h ‹_›
  · exact h' ‹_›

end Yields

/-! ## Bounded numbers -/

theorem word_eq (width : Width) (s : Supply σ) :
    ∃ n source, word width s = .ok (n, ⟨source, s.patience⟩) ∧ n < width.limit ∧ Later s.source source := by
  cases width with
  | short => exact ⟨_, _, rfl, UInt32.toNat_lt _, .next32 (.refl _)⟩
  | long => exact ⟨_, _, rfl, UInt64.toNat_lt _, .next64 (.refl _)⟩

theorem word_yields (width : Width) : Yields (word width : Draw σ Nat) (· < width.limit) := fun s => by
  obtain ⟨n, source, hrun, hn, hlater⟩ := word_eq width s
  exact .inl ⟨n, _, hrun, hn, fun h => h.later hlater⟩

/-- However long it is tried, a number that is accepted lies below the bound. -/
theorem scaled_eq (width : Width) {bound : Nat} (hbound : 0 < bound) (patience : Nat) (s : Supply σ) :
    (∃ n source, scaled width bound patience s = .ok (n, ⟨source, s.patience⟩) ∧ n < bound ∧
      Later s.source source) ∨ scaled width bound patience s = .error .endless := by
  induction patience generalizing s with
  | zero => exact .inr rfl
  | succ patience ih =>
    obtain ⟨n, source, hrun, hn, hlater⟩ := word_eq width s
    rw [scaled, bind_of_ok hrun]
    split
    · have hlt : n * bound / width.limit < bound :=
        Nat.div_lt_of_lt_mul (Nat.mul_lt_mul_of_pos_right hn hbound)
      exact .inl ⟨_, source, rfl, hlt, hlater⟩
    · rcases ih ⟨source, s.patience⟩ with ⟨m, source', hrun', hm, hlater'⟩ | hrun'
      · exact .inl ⟨m, source', hrun', hm, hlater.trans hlater'⟩
      · exact .inr hrun'

theorem below_yields (width : Width) {bound : Nat} (hbound : 0 < bound) :
    Yields (below width bound : Draw σ Nat) (· < bound) := by
  intro s
  rw [below]
  split
  · next heq => exact heq ▸ word_yields width s
  · show _ ∨ (scaled width bound (s.patience s.source) s = _ ∧ _)
    rcases scaled_eq width hbound (s.patience s.source) s with ⟨n, source, hrun, hn, hlater⟩ | hrun
    · exact .inl ⟨n, _, hrun, hn, fun h => h.later hlater⟩
    · refine .inr ⟨hrun, fun h => ?_⟩
      obtain ⟨result, hresult⟩ := h s.source (.refl _) width bound hbound
      exact absurd (hrun.symm.trans hresult) (by simp)

theorem sizeIn_yields (low high : Nat) :
    Yields (sizeIn low high : Draw σ Nat) (fun n => low ≤ n ∧ n ≤ max low high) := by
  rw [sizeIn]
  split
  · exact .pure (by omega)
  · refine (below_yields .long (by omega)).bind fun n hn => .pure ?_
    omega

theorem intIn_yields {low high : Int} (hlow : Fits64 low) (hhigh : Fits64 high) :
    Yields (intIn low high : Draw σ Int) (fun n => Fits64 n ∧ (low ≤ high → low ≤ n ∧ n ≤ high)) := by
  unfold Fits64 at hlow hhigh
  rw [intIn]
  split
  · exact .pure ⟨by unfold Fits64; omega, by omega⟩
  · refine (below_yields .long (by omega)).bind fun n hn => ?_
    split
    · next hcount =>
      have hspan : low = -0x8000000000000000 ∧ high = 0x7fffffffffffffff := by
        unfold limit64 at hcount
        omega
      have hfits := fits64_signed64 n
      refine .pure ⟨hfits, fun _ => ?_⟩
      unfold Fits64 at hfits
      omega
    · exact .pure ⟨by unfold Fits64; omega, by omega⟩

/-! ## Events and members -/

theorem next64_yields : Yields (next64 : Draw σ UInt64) (fun _ => True) := fun _ =>
  .inl ⟨_, _, rfl, trivial, fun h => h.later (.next64 (.refl _))⟩

theorem chance_yields (p : Probability) : Yields (chance p : Draw σ Bool) (fun _ => True) := by
  rw [chance]
  split
  · exact .pure trivial
  · exact next64_yields.bind fun _ _ => .pure trivial

theorem event_yields {num den : Nat} (hden : 0 < den) (h : num ≤ den) :
    Yields (event num den : Draw σ Bool) (fun _ => True) := by
  rw [event, if_neg (by omega)]
  exact chance_yields _

theorem pick?_yields (xs : List α) :
    Yields (pick? xs : Draw σ (Option α)) (fun found => (found = none ↔ xs = []) ∧ ∀ a ∈ found, a ∈ xs) := by
  match xs with
  | [] => exact .pure ⟨by simp, by simp⟩
  | x :: xs =>
    refine (below_yields .short (by simp)).bind fun n hn => .pure ⟨?_, ?_⟩
    · simpa using hn
    · intro a ha
      exact List.mem_of_getElem? ha

theorem pick_yields (first : α) (others : List α) :
    Yields (pick first others : Draw σ α) (· ∈ first :: others) := by
  refine (pick?_yields (first :: others)).bind fun found hfound => .pure ?_
  cases found with
  | none => simp
  | some a => exact hfound.2 a rfl

/-! ## Fractions -/

theorem fraction_yields : Yields (fraction : Draw σ Nat) (· < fractions) := by
  refine next64_yields.bind fun word _ => .pure ?_
  have := word.toNat_lt
  unfold fractions
  omega

theorem centeredOffset_yields (size : Nat) : Yields (centeredOffset size : Draw σ Int) Fits64 :=
  fraction_yields.bind fun _ _ => .pure (fits64_clamp64 _)

theorem hundredThousandths_yields : Yields (hundredThousandths : Draw σ Nat) (fun _ => True) :=
  fraction_yields.bind fun _ _ => .pure trivial

end Draw

end TensorFuzz
