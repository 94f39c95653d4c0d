import TensorFuzz.Proofs.Module.Headings
import TensorFuzz.Proofs.Ty.Sized

/-!
# Types read off their texts

The text of a vector or matrix is a keyword, a kind between angle brackets and dimensions between square brackets; the
text of any other type is a word. A dimension may be any constant expression, but no constant expression holds a square
bracket: a text can be taken apart in one way only, and stands for one type.
-/

namespace TensorFuzz

/-! ## Parts -/

/-- The text of a type taken apart. -/
structure TyParts where
  keyword : String
  /-- The kind between angle brackets. -/
  kind : Option Kind
  /-- The texts between square brackets. -/
  dims : List String

def TyParts.text (parts : TyParts) : String :=
  parts.keyword ++ (parts.kind.elim "" fun kind => " <" ++ kind.text ++ "> ") ++
    parts.dims.foldr (fun dim rest => "[" ++ dim ++ "]" ++ rest) ""

/-- The text is a constant expression for the dimension. -/
def IsDimension (text : String) (n : Nat) : Prop := 1 ≤ n ∧ Constant.evaluate text = .ok n

/-- The parts of the texts of a vector or matrix. -/
inductive TensorParts : TyParts → Ty → Prop
  | vector {kind : Kind} {dim : String} {length : Nat} : IsDimension dim length →
      TensorParts ⟨"vector", some kind, [dim]⟩ (.vector kind length)
  | matrix {kind : Kind} {dim dim' : String} {rows cols : Nat} : IsDimension dim rows → IsDimension dim' cols →
      TensorParts ⟨"matrix", some kind, [dim, dim']⟩ (.matrix kind rows cols)

/-- The type that a single word stands for. -/
def Ty.ofWord (word : String) : Ty := (Heading.plainTys.find? (·.text == word)).getD (.record word)

/-- How a text is taken apart, and the type that it stands for: a vector or matrix if it is the text of one, and
otherwise what it stands for as a word. -/
inductive Reads : String → TyParts → Ty → Prop
  | tensor {parts : TyParts} {ty : Ty} : TensorParts parts ty → Reads parts.text parts ty
  | word {text : String} : (∀ parts ty, TensorParts parts ty → parts.text ≠ text) →
      Reads text ⟨text, none, []⟩ (.ofWord text)

theorem exists_reads (text : String) : ∃ parts ty, Reads text parts ty := by
  by_cases htensor : ∃ parts ty, TensorParts parts ty ∧ parts.text = text
  · obtain ⟨parts, ty, hparts, rfl⟩ := htensor
    exact ⟨parts, ty, .tensor hparts⟩
  · exact ⟨_, _, .word fun parts ty hparts htext => htensor ⟨parts, ty, hparts, htext⟩⟩

/-! ## One way to take a text apart -/

/-- The first occurrence of a character cuts a text in one way. -/
theorem cut_at_first {c : Char} {xs xs' rest rest' : List Char} (h : c ∉ xs) (h' : c ∉ xs')
    (heq : xs ++ c :: rest = xs' ++ c :: rest') : xs = xs' ∧ rest = rest' := by
  induction xs generalizing xs' with
  | nil =>
    cases xs' with
    | nil => exact ⟨rfl, (List.cons.inj heq).2⟩
    | cons d xs' => exact absurd ((List.cons.inj heq).1 ▸ List.mem_cons_self) h'
  | cons d xs ih =>
    cases xs' with
    | nil => exact absurd ((List.cons.inj heq).1 ▸ List.mem_cons_self) h
    | cons d' xs' =>
      obtain ⟨rfl, htail⟩ := List.cons.inj heq
      obtain ⟨rfl, hrest⟩ := ih (fun hmem => h (List.mem_cons_of_mem _ hmem))
        (fun hmem => h' (List.mem_cons_of_mem _ hmem)) htail
      exact ⟨rfl, hrest⟩

theorem IsDimension.no_bracket {text : String} {n : Nat} (h : IsDimension text n) : ']' ∉ text.toList := fun hmem => by
  obtain ⟨ts, htokens, -⟩ := exists_of_bind_ok h.2
  exact absurd (Constant.isConstantChar_of_scan htokens _ hmem) (by decide)

theorem IsDimension.unique {text : String} {m n : Nat} (h : IsDimension text m) (h' : IsDimension text n) : m = n :=
  Int.ofNat.inj (Except.ok.inj (h.2.symm.trans h'.2))

theorem Kind.text_injective {kind kind' : Kind} (h : kind.text = kind'.text) : kind = kind' := by
  cases kind <;> cases kind' <;> first | rfl | exact absurd h (by decide)

def brackets (dims : List String) : List Char := dims.flatMap fun dim => '[' :: (dim.toList ++ [']'])

theorem TyParts.toList_text (keyword : String) (kind : Kind) (dims : List String) :
    (TyParts.text ⟨keyword, some kind, dims⟩).toList =
      keyword.toList ++ ' ' :: '<' :: (kind.text.toList ++ '>' :: ' ' :: brackets dims) := by
  have hdims : (dims.foldr (fun dim rest => "[" ++ dim ++ "]" ++ rest) "").toList = brackets dims := by
    induction dims with
    | nil => rfl
    | cons dim dims ih => simp [brackets, ih]
  simp [TyParts.text, hdims]

theorem brackets_injective {dims dims' : List String} (h : ∀ dim ∈ dims, ']' ∉ dim.toList)
    (h' : ∀ dim ∈ dims', ']' ∉ dim.toList) (heq : brackets dims = brackets dims') : dims = dims' := by
  induction dims generalizing dims' with
  | nil =>
    cases dims' with
    | nil => rfl
    | cons dim' dims' => cases heq
  | cons dim dims ih =>
    cases dims' with
    | nil => cases heq
    | cons dim' dims' =>
      obtain ⟨hdim, hdims⟩ := List.forall_mem_cons.mp h
      obtain ⟨hdim', hdims'⟩ := List.forall_mem_cons.mp h'
      have hcut : dim.toList ++ ']' :: brackets dims = dim'.toList ++ ']' :: brackets dims' := by
        simpa [brackets] using heq
      obtain ⟨hfirst, hrest⟩ := cut_at_first hdim hdim' hcut
      rw [String.toList_injective hfirst, ih hdims hdims' hrest]

section
variable {parts parts' : TyParts} {ty ty' : Ty}

/-- What keeps the parts of a vector or matrix apart in its text. -/
theorem TensorParts.delimited (h : TensorParts parts ty) :
    ∃ keyword kind dims, parts = ⟨keyword, some kind, dims⟩ ∧ ' ' ∉ keyword.toList ∧
      ∀ dim ∈ dims, ']' ∉ dim.toList := by
  cases h with
  | vector hdim => exact ⟨_, _, _, rfl, by decide, List.forall_mem_singleton.mpr hdim.no_bracket⟩
  | matrix hdim hdim' =>
    exact ⟨_, _, _, rfl, by decide, List.forall_mem_cons.mpr
      ⟨hdim.no_bracket, List.forall_mem_singleton.mpr hdim'.no_bracket⟩⟩

theorem TensorParts.parts_unique (h : TensorParts parts ty) (h' : TensorParts parts' ty')
    (heq : parts.text = parts'.text) : parts = parts' := by
  obtain ⟨keyword, kind, dims, rfl, hkeyword, hdims⟩ := h.delimited
  obtain ⟨keyword', kind', dims', rfl, hkeyword', hdims'⟩ := h'.delimited
  have hlist := congrArg String.toList heq
  rw [TyParts.toList_text, TyParts.toList_text] at hlist
  obtain ⟨hfirst, hrest⟩ := cut_at_first hkeyword hkeyword' hlist
  have hangle (kind : Kind) : '>' ∉ kind.text.toList := by cases kind <;> decide
  obtain ⟨hkind, hbrackets⟩ := cut_at_first (hangle kind) (hangle kind') (List.cons.inj hrest).2
  rw [String.toList_injective hfirst, Kind.text_injective (String.toList_injective hkind),
    brackets_injective hdims hdims' (List.cons.inj hbrackets).2]

theorem TensorParts.ty_unique (h : TensorParts parts ty) (h' : TensorParts parts' ty') (heq : parts = parts') :
    ty = ty' := by
  have hlength := congrArg (·.dims.length) heq
  cases h with
  | vector hdim =>
    cases h' with
    | vector hdim' =>
      obtain ⟨-, ⟨⟩, ⟨⟩⟩ := TyParts.mk.inj heq
      rw [hdim.unique hdim']
    | matrix => cases hlength
  | matrix hrows hcols =>
    cases h' with
    | vector => cases hlength
    | matrix hrows' hcols' =>
      obtain ⟨-, ⟨⟩, ⟨⟩⟩ := TyParts.mk.inj heq
      rw [hrows.unique hrows', hcols.unique hcols']

theorem TensorParts.isTensor (h : TensorParts parts ty) : ty.isTensor = true := by cases h <;> rfl

theorem Reads.unique {text : String} (h : Reads text parts ty) (h' : Reads text parts' ty') :
    parts = parts' ∧ ty = ty' := by
  generalize htext : text = text' at h'
  cases h with
  | @tensor _ _ h =>
    cases h' with
    | tensor h' =>
      have hparts := h.parts_unique h' htext
      exact ⟨hparts, h.ty_unique h' hparts⟩
    | word hnone => exact absurd htext (hnone _ _ h)
  | word hnone =>
    cases h' with
    | tensor h' => exact absurd htext.symm (hnone _ _ h')
    | word => exact ⟨by rw [htext], by rw [htext]⟩

end

/-! ## Spelled types -/

def Ty.keyword : Ty → String
  | .vector .. => "vector"
  | .matrix .. => "matrix"
  | ty => ty.text

/-- The kind of the entries of a vector or matrix. -/
def Ty.entryKind? : Ty → Option Kind
  | .vector kind _ => some kind
  | .matrix kind _ _ => some kind
  | _ => none

/-- The parts are those of a text of the type: its keyword, its kind, and an expression for each of its dimensions. -/
structure TyParts.Shows (parts : TyParts) (ty : Ty) : Prop where
  keyword : parts.keyword = ty.keyword
  kind : parts.kind = ty.entryKind?
  dims : parts.dims.map Constant.evaluate = ty.dimensions.map fun n => .ok (n : Int)

def Ty.DenotedBy (ty : Ty) (text : String) : Prop := ∃ parts, Reads text parts ty

/-- The type is a record, and its name stands for the other type. -/
def Ty.NamedLike (ty other : Ty) : Prop := ∃ id, ty = .record id ∧ other.DenotedBy id

def Ty.NamedLikeBuiltIn (ty : Ty) : Prop := ∃ other, ty.NamedLike other ∧ other.recordId? = none

/-- What a text of the type stands for: a record may have the name of another type. -/
def Ty.apparent : Ty → Ty
  | .record id => .ofWord id
  | ty => ty

/-- The parts that a spelled type is written with. -/
def SpelledTy.parts : SpelledTy → TyParts
  | .plain ty => ⟨ty.text, none, []⟩
  | .vector kind length => ⟨"vector", some kind, [length.text]⟩
  | .matrix kind rows cols => ⟨"matrix", some kind, [rows.text, cols.text]⟩

theorem SpelledTy.text_parts (spelled : SpelledTy) : spelled.parts.text = spelled.text := by
  refine String.toList_injective ?_
  cases spelled <;> simp [parts, TyParts.text, SpelledTy.text]

theorem TensorParts.angle {parts : TyParts} {ty : Ty} (h : TensorParts parts ty) : '<' ∈ parts.text.toList := by
  obtain ⟨keyword, kind, dims, rfl, -⟩ := h.delimited
  rw [TyParts.toList_text]
  simp

/-- A dimension that a signed word holds is the value of each of its spellings. -/
theorem IsDimension.of_denotes {c : ConstExpr} {n : Nat} (hn : 1 ≤ n ∧ n < 0x8000000000000000)
    (h : c.Denotes .sum (signed64 n)) : IsDimension c.text n := by
  rw [signed64_of_fits ⟨by omega, by omega⟩] at h
  exact ⟨hn.1, Constant.evaluate_text h⟩

section
variable {ty : Ty}

/-- A type without dimensions is read as a word, unless it is a record with the name of a vector or matrix. -/
theorem Ty.reads_word (htensor : ty.isTensor = false) (hname : ∀ other, ty.NamedLike other → other.isTensor = false) :
    Reads ty.text ⟨ty.text, none, []⟩ ty.apparent := by
  have happarent : ty.apparent = .ofWord ty.text := by
    cases ty with
    | vector | matrix => cases htensor
    | _ => rfl
  rw [happarent]
  refine .word fun parts other hparts htext => ?_
  have hangle := hparts.angle
  rw [htext] at hangle
  cases ty with
  | vector | matrix => cases htensor
  | record id =>
    have hreads : Reads parts.text parts other := .tensor hparts
    rw [htext] at hreads
    have hother := hname other ⟨id, rfl, parts, hreads⟩
    exact Bool.noConfusion (hother.symm.trans hparts.isTensor)
  | _ => exact absurd hangle (by decide)

/-- The text of a spelled type is taken apart into what it is spelled with: the keyword, the kind and the dimensions of
the type. -/
theorem SpelledTy.Spells.reads {spelled : SpelledTy} (h : spelled.Spells ty)
    (hdims : ∀ n ∈ ty.dimensions, 1 ≤ n ∧ n < 0x8000000000000000)
    (hname : ∀ other, ty.NamedLike other → other.isTensor = false) :
    Reads spelled.text spelled.parts ty.apparent ∧ spelled.parts.Shows ty := by
  rw [← spelled.text_parts]
  cases h with
  | vector hc =>
    have hlength := IsDimension.of_denotes (hdims _ List.mem_cons_self) hc
    exact ⟨.tensor (.vector hlength), rfl, rfl, by simp [SpelledTy.parts, Ty.dimensions, hlength.2]⟩
  | matrix hc hd =>
    have hrows := IsDimension.of_denotes (hdims _ List.mem_cons_self) hc
    have hcols := IsDimension.of_denotes (hdims _ (List.mem_cons_of_mem _ List.mem_cons_self)) hd
    exact ⟨.tensor (.matrix hrows hcols), rfl, rfl, by simp [SpelledTy.parts, Ty.dimensions, hrows.2, hcols.2]⟩
  | plain htensor =>
    rw [SpelledTy.text_parts]
    refine ⟨ty.reads_word htensor hname, ?_⟩
    cases ty with
    | vector | matrix => cases htensor
    | _ => exact ⟨rfl, rfl, rfl⟩

theorem Ty.not_tensor_of_not_builtIn (hname : ¬ ty.NamedLikeBuiltIn) (other : Ty) (h : ty.NamedLike other) :
    other.isTensor = false := by
  have hrecord : other.recordId? ≠ none := fun hnone => hname ⟨other, h, hnone⟩
  cases other with
  | record => rfl
  | _ => exact absurd rfl hrecord

theorem Ty.apparent_eq (hname : ¬ ty.NamedLikeBuiltIn) : ty.apparent = ty := by
  cases ty with
  | record id =>
    have hword : Reads id ⟨id, none, []⟩ (.ofWord id) := reads_word rfl (not_tensor_of_not_builtIn hname)
    show Ty.ofWord id = .record id
    unfold Ty.ofWord at hword ⊢
    cases hfind : Heading.plainTys.find? (·.text == id) with
    | none => rfl
    | some other =>
      have hplain : ∀ ty ∈ Heading.plainTys, ty.recordId? = none := by decide
      rw [hfind] at hword
      exact absurd ⟨other, ⟨id, rfl, _, hword⟩, hplain other (List.mem_of_find?_eq_some hfind)⟩ hname
  | _ => rfl

end

section
variable {σ σ' : Type} [RandomSource σ] [RandomSource σ']

/-- A text of a type is taken apart in one way, into expressions for the dimensions of the type, and stands for that
type only. The name of a record may be the text of a built-in type, and is then read as that one. -/
theorem Ty.text_read_back {ty ty' : Ty} (hdims : ∀ n ∈ ty.dimensions, 1 ≤ n ∧ n < 0x8000000000000000)
    (hdims' : ∀ n ∈ ty'.dimensions, 1 ≤ n ∧ n < 0x8000000000000000) (levels levels' : Nat) (supply : Supply σ)
    (supply' : Supply σ') :
    (supply.Steady → ∃ spelled rest, ty.spell levels supply = .ok (spelled, rest)) ∧
      ∀ spelled rest, ty.spell levels supply = .ok (spelled, rest) →
        (∃ parts other, Reads spelled.text parts other ∧
          (∀ parts' other', Reads spelled.text parts' other' → parts' = parts ∧ other' = other) ∧
            ((∀ other, ty.NamedLike other → other.isTensor = false) → parts.Shows ty)) ∧
        (¬ ty.NamedLikeBuiltIn → ¬ ty'.NamedLikeBuiltIn →
          ∀ spelled' rest', ty'.spell levels' supply' = .ok (spelled', rest') →
            (spelled.text = spelled'.text → ty = ty') ∧
              ∀ other, (other.DenotedBy spelled.text ↔ other = ty) ∧
                (other.DenotedBy spelled'.text ↔ other = ty')) := by
  have hyields := (ty.spell_yields levels).results supply
  refine ⟨fun hsteady => ?_, fun spelled rest hrun => ⟨?_, fun hname hname' spelled' rest' hrun' => ?_⟩⟩
  · obtain ⟨spelled, rest, hrun, -⟩ := hyields.2 hsteady
    exact ⟨spelled, rest, hrun⟩
  · obtain ⟨parts, other, hreads⟩ := exists_reads spelled.text
    refine ⟨parts, other, hreads, fun _ _ hother => hother.unique hreads, fun hname => ?_⟩
    obtain ⟨hspelled, hshows⟩ := (hyields.1 spelled rest hrun).reads hdims hname
    rwa [(hspelled.unique hreads).1] at hshows
  · have hreads := ((hyields.1 spelled rest hrun).reads hdims (not_tensor_of_not_builtIn hname)).1
    have hspells' := ((ty'.spell_yields levels').results supply').1 spelled' rest' hrun'
    have hreads' := (hspells'.reads hdims' (not_tensor_of_not_builtIn hname')).1
    rw [apparent_eq hname] at hreads
    rw [apparent_eq hname'] at hreads'
    have hdenoted {text : String} {parts : TyParts} {ty : Ty} (h : Reads text parts ty) (other : Ty) :
        other.DenotedBy text ↔ other = ty :=
      ⟨fun ⟨_, hother⟩ => (hother.unique h).2, fun heq => ⟨parts, heq ▸ h⟩⟩
    refine ⟨fun htext => ?_, fun other => ⟨hdenoted hreads other, hdenoted hreads' other⟩⟩
    rw [htext] at hreads
    exact (hreads.unique hreads').2

end

/-- The columns of the matrix are as many as a signed word can count. -/
theorem Ty.text_read_back_matrix :
    ∃ spelled rest spelled' rest',
      (Ty.matrix .int 2 0x7fffffffffffffff).spell 0 ⟨Repeating.mk 0, fun _ => 1⟩ = .ok (spelled, rest) ∧
        (Ty.matrix .int 2 0x7fffffffffffffff).spell 6 ⟨Repeating.mk 0, fun _ => 1⟩ = .ok (spelled', rest') ∧
          ∀ other : Ty, other.DenotedBy spelled.text ↔ other.DenotedBy spelled'.text := by
  have hdims : ∀ n ∈ (Ty.matrix .int 2 0x7fffffffffffffff).dimensions, 1 ≤ n ∧ n < 0x8000000000000000 := by decide
  have hname : ¬ (Ty.matrix .int 2 0x7fffffffffffffff).NamedLikeBuiltIn := by
    rintro ⟨_, ⟨_, ⟨⟩, _⟩, _⟩
  have hread (levels levels' : Nat) := text_read_back hdims hdims levels levels'
    (⟨Repeating.mk 0, fun _ => 1⟩ : Supply Repeating) (⟨Repeating.mk 0, fun _ => 1⟩ : Supply Repeating)
  obtain ⟨spelled, rest, hrun⟩ := (hread 0 6).1 Repeating.zero_steady
  obtain ⟨spelled', rest', hrun'⟩ := (hread 6 0).1 Repeating.zero_steady
  obtain ⟨-, hdenoted⟩ := ((hread 0 6).2 spelled rest hrun).2 hname hname spelled' rest' hrun'
  exact ⟨spelled, rest, spelled', rest', hrun, hrun', fun other => (hdenoted other).1.trans (hdenoted other).2.symm⟩

end TensorFuzz
