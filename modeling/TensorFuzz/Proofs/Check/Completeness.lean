import TensorFuzz.Proofs.Check.Reading
import TensorFuzz.Proofs.Check.Rules

/-!
# Derivations are accepted

What the typed grammar derives, the readers come to, unless folding ends in a fault before. The outcome of a
derivation is put together from the outcomes of its parts by the computed rules.
-/

namespace TensorFuzz.Check

variable {scope : Scope} {records : Registry}

/-- Checking the tokens as an expression of the level comes to the type and value, up to the fault. -/
def Reaches (scope : Scope) (records : Registry) (level : Level) (ts : List Token) (t : Typed) : Prop :=
  ∃ o, Derives scope records level ts o ∧ Settles o t

/-- Where all parts are reached, so are their types in order. -/
theorem exists_outcomes {items : List (List Token × Typed)}
    (h : ∀ item ∈ items, Reaches scope records .select item.1 item.2) :
    ∃ outcomes : List (List Token × Outcome), outcomes.map (·.1) = items.map (·.1) ∧
      (∀ outcome ∈ outcomes, Derives scope records .select outcome.1 outcome.2) ∧
      Settles (itemTys (outcomes.map (·.2))) (partTys items) := by
  induction items with
  | nil => exact ⟨[], rfl, by simp, settles_of_eq rfl⟩
  | cons item items ih =>
    obtain ⟨o, hd, hs⟩ := h item List.mem_cons_self
    obtain ⟨outcomes, htokens, hds, htys⟩ := ih fun item hitem => h item (List.mem_cons_of_mem _ hitem)
    refine ⟨(item.1, o) :: outcomes, by simp [htokens], List.forall_mem_cons.mpr ⟨hd, hds⟩, ?_⟩
    rw [List.map_cons, itemTys_cons]
    exact hs.bind (htys.bind (.ok _))

theorem spanOf_settles {o₁ o₂ o₃ : Outcome} {a b : Int} {w : Option Int} {n : Nat} (hlo : Settles o₁ ⟨.int, some a⟩)
    (hstep : Settles o₂ ⟨.int, w⟩) (hhi : Settles o₃ ⟨.int, some b⟩) (hcount : Counts a b n) :
    Settles (spanOf o₁ o₂ o₃) n :=
  hlo.bind (hstep.bind (hhi.bind (settles_of_eq (indexCount_eq_ok_iff.mpr hcount))))

/-! ## Operators -/

theorem Reaches.left {level operand : Level} {symbols : List Symbol} {combine : Symbol → Typed → Typed → Outcome}
    {symbol : Symbol} {ts us : List Token} {l r t : Typed} (hleft : leftGroup? level = some (symbols, combine))
    (htighter : level.tighter? = some operand) (hsymbol : symbol ∈ symbols) (hl : Reaches scope records level ts l)
    (hr : Reaches scope records operand us r) (hcombine : Settles (combine symbol l r) t) :
    Reaches scope records level (ts ++ .symbol symbol :: us) t := by
  obtain ⟨o, hd, hs⟩ := hl
  obtain ⟨o', hd', hs'⟩ := hr
  exact ⟨_, .left hleft htighter hsymbol hd hd', hs.bind (hs'.bind hcombine)⟩

theorem Reaches.right {level operand : Level} {symbol : Symbol} {combine : Typed → Typed → Outcome}
    {ts us : List Token} {l r t : Typed} (hright : rightGroup? level = some (symbol, combine))
    (htighter : level.tighter? = some operand) (hl : Reaches scope records operand ts l)
    (hr : Reaches scope records level us r) (hcombine : Settles (combine l r) t) :
    Reaches scope records level (ts ++ .symbol symbol :: us) t := by
  obtain ⟨o, hd, hs⟩ := hl
  obtain ⟨o', hd', hs'⟩ := hr
  exact ⟨_, .right hright htighter hd hd', hs.bind (hs'.bind hcombine)⟩

/-! ## Derivations -/

theorem Reaches.list {items : List (List Token × Typed)} {ty : Ty}
    (hitems : ∀ item ∈ items, Reaches scope records .select item.1 item.2) (hty : listTy (partTys items) = .ok ty) :
    Reaches scope records .atom
      (.symbol .openBracket :: (partTokens items ++ [.symbol .closeBracket])) (.of ty) := by
  obtain ⟨outcomes, htokens, hds, htys⟩ := exists_outcomes hitems
  rw [partTokens, ← htokens]
  exact ⟨_, .list hds, htys.bind ((settles_of_eq hty).bind (.ok _))⟩

/-- The outcome of a derivation is what it derives, unless a fault comes first. -/
theorem Derivation.reaches {level : Level} {ts : List Token} {t : Typed} (h : Derivation scope records level ts t) :
    Reaches scope records level ts t := by
  induction h with
  | lift htighter _ ih =>
    obtain ⟨o, hd, hs⟩ := ih
    exact ⟨o, .lift htighter hd, hs⟩
  | int n => exact ⟨_, .int n, .ok _⟩
  | float => exact ⟨_, .float, .ok _⟩
  | string => exact ⟨_, .string, .ok _⟩
  | bool hname => exact ⟨_, .bool hname, .ok _⟩
  | group _ ih =>
    obtain ⟨o, hd, hs⟩ := ih
    exact ⟨o, .group hd, hs⟩
  | @vector items kind hne _ htys ih =>
    refine .list ih (listTy_eq_ok_iff.mpr ⟨by simpa [partTys] using hne, .inl ⟨kind, htys, ?_⟩⟩)
    rw [partTys, List.length_map]
  | @matrix items kind cols hne _ htys ih =>
    refine .list ih (listTy_eq_ok_iff.mpr ⟨by simpa [partTys] using hne, .inr ⟨kind, cols, htys, ?_⟩⟩)
    rw [partTys, List.length_map]
  | record _ hfields htys ih =>
    obtain ⟨outcomes, htokens, hds, hsettles⟩ := exists_outcomes ih
    have hty := recordTy_eq_ok_iff.mpr ⟨_, hfields, htys, rfl⟩
    rw [partTokens, ← htokens]
    exact ⟨_, .record hds, hsettles.bind ((settles_of_eq hty).bind (.ok _))⟩
  | name hname hlookup hfunction hlabel =>
    exact ⟨_, .name _ hname hlookup hfunction, (settles_of_eq (labelledTy_eq_ok_iff.mpr hlabel)).bind (.ok _)⟩
  | call hname hlookup hfunction _ hparams hlabel ih =>
    obtain ⟨outcomes, htokens, hds, hsettles⟩ := exists_outcomes ih
    have hcall := callTy_eq_ok_iff.mpr ⟨hparams, rfl⟩
    have hty := labelledTy_eq_ok_iff.mpr hlabel
    rw [partTokens, ← htokens]
    exact ⟨_, .call _ hname hlookup hfunction hds,
      hsettles.bind ((settles_of_eq hcall).bind ((settles_of_eq hty).bind (.ok _)))⟩
  | entry _ _ ih ih' | row _ _ ih ih' =>
    obtain ⟨o, hd, hs⟩ := ih
    obtain ⟨o', hd', hs'⟩ := ih'
    exact ⟨_, .element hd hd', hs.bind (hs'.bind (.ok _))⟩
  | slice _ _ _ _ hcount ih ih₁ ih₂ ih₃ =>
    obtain ⟨o, hd, hs⟩ := ih
    obtain ⟨o₁, hlo, hs₁⟩ := ih₁
    obtain ⟨o₂, hstep, hs₂⟩ := ih₂
    obtain ⟨o₃, hhi, hs₃⟩ := ih₃
    have hvector (source : Typed) (hsource : o = .ok source) : ∃ length, source.ty = .vector _ length :=
      ⟨_, congrArg Typed.ty (hs.eq hsource)⟩
    exact ⟨_, .slice hd hvector hlo hstep hhi, hs.bind ((spanOf_settles hs₁ hs₂ hs₃ hcount).bind (.ok _))⟩
  | window _ _ _ _ hrows _ _ _ hcols ih ih₁ ih₂ ih₃ ih₁' ih₂' ih₃' =>
    obtain ⟨o, hd, hs⟩ := ih
    obtain ⟨o₁, hlo, hs₁⟩ := ih₁
    obtain ⟨o₂, hstep, hs₂⟩ := ih₂
    obtain ⟨o₃, hhi, hs₃⟩ := ih₃
    obtain ⟨o₁', hlo', hs₁'⟩ := ih₁'
    obtain ⟨o₂', hstep', hs₂'⟩ := ih₂'
    obtain ⟨o₃', hhi', hs₃'⟩ := ih₃'
    have hmatrix (source : Typed) (hsource : o = .ok source) : ∃ rows cols, source.ty = .matrix _ rows cols :=
      ⟨_, _, congrArg Typed.ty (hs.eq hsource)⟩
    exact ⟨_, .window hd hmatrix hlo hstep hhi hlo' hstep' hhi', hs.bind ((spanOf_settles hs₁ hs₂ hs₃ hrows).bind
      ((spanOf_settles hs₁' hs₂' hs₃' hcols).bind (.ok _)))⟩
  | matmul _ _ hproduct ih ih' =>
    refine .left rfl rfl (List.mem_singleton_self _) ih ih' (settles_of_eq ?_)
    rw [matrixProduct_eq_ok_iff.mpr hproduct]
    rfl
  | dot _ _ ih ih' =>
    refine .left rfl rfl (List.mem_singleton_self _) ih ih' (settles_of_eq ?_)
    rw [dotProduct_eq_ok_iff.mpr ⟨_, _, rfl, rfl, rfl⟩]
    rfl
  | query _ hsize ih =>
    obtain ⟨o, hd, hs⟩ := ih
    exact ⟨_, .query hd, hs.bind (settles_of_eq (sizeQuery_eq_ok_iff.mpr ⟨hsize, rfl⟩))⟩
  | power _ _ hty ih ih' => exact .right rfl rfl ih ih' (operate_settles hty)
  | negate _ hnumber ih =>
    obtain ⟨o, hd, hs⟩ := ih
    exact ⟨_, .negate hd, hs.bind (settles_of_eq (by rw [negation, hnumber]; rfl))⟩
  | product hop _ _ hty ih ih' =>
    exact .left rfl rfl (by simpa using hop) ih ih' (operate_settles hty)
  | sum hop _ _ hty ih ih' =>
    exact .left rfl rfl (by simpa using hop) ih ih' (operate_settles hty)
  | compare hop _ _ hnumber hsame ih ih' =>
    obtain ⟨o, hd, hs⟩ := ih
    obtain ⟨o', hd', hs'⟩ := ih'
    refine ⟨_, .compare hop hd hd', hs.bind (hs'.bind (settles_of_eq ?_))⟩
    rw [comparison, hnumber, require_eq_ok_iff.mpr hsame]
    rfl
  | not _ hbool ih =>
    obtain ⟨o, hd, hs⟩ := ih
    refine ⟨_, .not hd, hs.bind (settles_of_eq ?_)⟩
    rw [require_eq_ok_iff.mpr hbool]
    rfl
  | and _ _ hl hr ih ih' => exact .right rfl rfl ih ih' (settles_of_eq (connective_eq_ok_iff.mpr ⟨hl, hr, rfl⟩))
  | or _ _ hl hr ih ih' => exact .right rfl rfl ih ih' (settles_of_eq (connective_eq_ok_iff.mpr ⟨hl, hr, rfl⟩))
  | select _ _ _ hbool hsame ih ih' ih'' =>
    obtain ⟨o, hd, hs⟩ := ih
    obtain ⟨o', hd', hs'⟩ := ih'
    obtain ⟨o'', hd'', hs''⟩ := ih''
    refine ⟨_, .select hd hd' hd'', hs.bind ?_⟩
    rw [require_eq_ok_iff.mpr hbool, ok_bind]
    refine hs'.bind (hs''.bind (settles_of_eq ?_))
    rw [require_eq_ok_iff.mpr hsame]
    rfl

/-- A derivable text is accepted with the type, unless folding ends in a fault. -/
theorem Derivable.settles {text : String} {ty : Ty} (h : Derivable scope records text ty) :
    Settles (check scope records text) ty := by
  obtain ⟨ts, value, htokens, hderivation⟩ := h
  obtain ⟨o, hd, hs⟩ := hderivation.reaches
  rw [check_of_derives htokens hd]
  exact hs.bind (.ok _)

end TensorFuzz.Check
