import TensorFuzz.Proofs.Engine.Valid

/-!
# Lexical scopes

What a scope answers is compared with a stack of maps from names to declarations: opening a frame saves the map,
closing the frame restores it, and a declaration overrides one name. After every sequence of operations that a scope
allows, its lookups list the entries of the current map, each once, and a block that is closed again leaves no trace.
-/

namespace TensorFuzz.Scope

/-! ## Operations -/

inductive Operation
  | descend
  | exit
  | defineValue (name : String) (ty : Ty)
  | defineVariable (name : String) (ty : Ty)
  | defineFunction (name : String) (ty : Ty) (params : List Ty)
  deriving DecidableEq, Repr

def step (scope : Scope) : Operation → Except Fault Scope
  | .descend => .ok scope.descend
  | .exit => scope.exit
  | .defineValue name ty => .ok (scope.defineValue name ty)
  | .defineVariable name ty => .ok (scope.defineVariable name ty)
  | .defineFunction name ty params => .ok (scope.defineFunction name ty params)

def run (scope : Scope) (ops : List Operation) : Except Fault Scope := ops.foldlM step scope

theorem run_append (scope : Scope) (ops ops' : List Operation) :
    scope.run (ops ++ ops') = scope.run ops >>= fun scope' => scope'.run ops' := List.foldlM_append

/-- Where so many frames are open, some of the operations closes one frame more than are open. -/
def Overdraws (opened : Nat) (ops : List Operation) : Prop :=
  ∃ before, before <+: ops ∧ opened + before.count .descend < before.count .exit

theorem not_overdraws_nil (opened : Nat) : ¬ Overdraws opened [] := by
  rintro ⟨before, hprefix, hcount⟩
  rw [List.prefix_nil.mp hprefix] at hcount
  simp at hcount

theorem overdraws_cons {opened : Nat} {op : Operation} {ops : List Operation} :
    Overdraws opened (op :: ops) ↔
      ∃ before, before <+: ops ∧ opened + (op :: before).count .descend < (op :: before).count .exit := by
  constructor
  · rintro ⟨before, hprefix, hcount⟩
    rcases List.prefix_cons_iff.mp hprefix with rfl | ⟨rest, rfl, hrest⟩
    · simp at hcount
    · exact ⟨rest, hrest, hcount⟩
  · rintro ⟨before, hprefix, hcount⟩
    exact ⟨op :: before, (List.prefix_cons_inj op).mpr hprefix, hcount⟩

theorem overdraws_descend {opened : Nat} {ops : List Operation} :
    Overdraws opened (.descend :: ops) ↔ Overdraws (opened + 1) ops := by
  rw [overdraws_cons]
  refine exists_congr fun before => and_congr_right fun _ => ?_
  rw [List.count_cons_self, List.count_cons_of_ne (by decide)]
  omega

theorem overdraws_exit {opened : Nat} {ops : List Operation} :
    Overdraws (opened + 1) (.exit :: ops) ↔ Overdraws opened ops := by
  rw [overdraws_cons]
  refine exists_congr fun before => and_congr_right fun _ => ?_
  rw [List.count_cons_self, List.count_cons_of_ne (by decide)]
  omega

theorem overdraws_exit_zero (ops : List Operation) : Overdraws 0 (.exit :: ops) :=
  overdraws_cons.mpr ⟨[], List.nil_prefix, by decide⟩

/-- The operation declares a name. -/
def Operation.Declares (op : Operation) : Prop := op ≠ .descend ∧ op ≠ .exit

theorem overdraws_declare {opened : Nat} {op : Operation} {ops : List Operation} (hop : op.Declares) :
    Overdraws opened (op :: ops) ↔ Overdraws opened ops := by
  rw [overdraws_cons]
  refine exists_congr fun before => and_congr_right fun _ => ?_
  rw [List.count_cons_of_ne hop.1, List.count_cons_of_ne hop.2]

/-! ## Blocks that are closed again -/

/-- The operations close the frames that they open, and so many that are open before them; and they declare in such
frames only. -/
def Closes : Nat → List Operation → Prop
  | opened, [] => opened = 0
  | opened, .descend :: ops => Closes (opened + 1) ops
  | 0, _ :: _ => False
  | opened + 1, .exit :: ops => Closes opened ops
  | opened + 1, _ :: ops => Closes (opened + 1) ops

theorem frames_inj {scope scope' : Scope} (h : scope.frames = scope'.frames) : scope = scope' := by
  obtain ⟨hcurrent, houter⟩ := List.cons.inj h
  cases scope
  cases scope'
  cases hcurrent
  cases houter
  rfl

/-- A scope that is left when the innermost frames are closed is what the operations lead back to. -/
theorem run_of_closes {opened : Nat} {ops : List Operation} (h : Closes opened ops) {scope scope' : Scope}
    (hframes : scope'.frames.drop opened = scope.frames) : scope'.run ops = .ok scope := by
  induction ops generalizing opened scope' with
  | nil =>
    obtain rfl : opened = 0 := h
    obtain rfl : scope' = scope := frames_inj hframes
    rfl
  | cons op ops ih =>
    cases opened with
    | zero =>
      cases op with
      | descend => exact ih h hframes
      | _ => exact h.elim
    | succ opened =>
      cases op with
      | descend => exact ih h hframes
      | exit =>
        cases houter : scope'.outer with
        | nil =>
          have hempty : scope.frames = [] := by rw [← hframes, Scope.frames, houter, List.drop_succ_cons, List.drop_nil]
          exact absurd hempty (List.cons_ne_nil _ _)
        | cons frame outer =>
          have hexit : scope'.exit = .ok ⟨frame, outer⟩ := by rw [Scope.exit, houter]
          show scope'.exit >>= _ = _
          rw [hexit]
          refine ih h ?_
          rw [← hframes, Scope.frames, Scope.frames, List.drop_succ_cons, houter]
      | _ => exact ih h hframes

/-- What follows blocks that are closed again goes on as if they were left out. -/
theorem run_skip (scope : Scope) {segment : List Operation} (h : Closes 0 segment) (ops rest : List Operation) :
    scope.run (ops ++ segment ++ rest) = scope.run (ops ++ rest) := by
  rw [List.append_assoc, run_append, run_append]
  congr 1
  funext scope'
  rw [run_append, run_of_closes h rfl]
  rfl

/-! ## Environments -/

/-- A declaration, with the number of frames around its own and the number of declarations before it. -/
structure Entry where
  binding : Binding
  frame : Nat
  time : Nat

/-- The entry stands in a frame further in than the other one, or in the same frame and is newer. -/
def Entry.Precedes (x y : Entry) : Prop := y.frame < x.frame ∨ y.frame = x.frame ∧ y.time < x.time

/-- What each name stands for, and what it stood for when each of the open frames was opened, from the inside out. -/
structure Environment where
  current : String → Option Entry
  saved : List (String → Option Entry)
  /-- The number of declarations so far. -/
  time : Nat

namespace Environment

def empty : Environment := ⟨fun _ => none, [], 0⟩

def descend (env : Environment) : Environment := { env with saved := env.current :: env.saved }

def exit (env : Environment) : Option Environment :=
  match env.saved with
  | [] => none
  | current :: saved => some { env with current, saved }

/-- Overrides the name of the binding. -/
def define (env : Environment) (b : Binding) : Environment :=
  { env with
    current := fun name => if b.name = name then some ⟨b, env.saved.length, env.time⟩ else env.current name
    time := env.time + 1 }

def step (env : Environment) : Operation → Option Environment
  | .descend => some env.descend
  | .exit => env.exit
  | .defineValue name ty => some (env.define ⟨.value, name, ty, []⟩)
  | .defineVariable name ty => some (env.define ⟨.variable, name, ty, []⟩)
  | .defineFunction name ty params => some (env.define ⟨.function, name, ty, params⟩)

def run (env : Environment) (ops : List Operation) : Option Environment := ops.foldlM step env

/-- The bindings are those that names stand for and that are kept, each once, from the innermost frame to the
outermost and from the newest to the oldest in a frame. -/
def Lists (env : Environment) (keep : Binding → Prop) (bindings : List Binding) : Prop :=
  ∃ entries : List Entry, bindings = entries.map (·.binding) ∧ entries.Pairwise Entry.Precedes ∧
    ∀ name x, x ∈ entries ∧ x.binding.name = name ↔ env.current name = some x ∧ keep x.binding

theorem Lists.filter {env : Environment} {keep keep' : Binding → Prop} {bindings : List Binding}
    (h : env.Lists keep bindings) (choose : Binding → Bool) (hchoose : ∀ b, keep b ∧ choose b = true ↔ keep' b) :
    env.Lists keep' (bindings.filter choose) := by
  obtain ⟨entries, rfl, hordered, hmem⟩ := h
  refine ⟨entries.filter fun x => choose x.binding, ?_, hordered.filter _, ?_⟩
  · rw [List.filter_map]
    rfl
  · intro name x
    rw [List.mem_filter, and_right_comm, hmem, and_assoc, hchoose]

end Environment

/-! ## Frames with entries -/

/-- The entry that a name is looked up to among entries, the first ones before the others. -/
def find (entries : List Entry) (name : String) : Option Entry := entries.find? fun x => x.binding.name == name

/-- What the names stand for in the innermost frame, and in each of the frames around it. -/
def snapshots : List (List Entry) → List (String → Option Entry)
  | [] => []
  | frame :: outer => find (frame :: outer).flatten :: snapshots outer

theorem length_snapshots (frames : List (List Entry)) : (snapshots frames).length = frames.length := by
  induction frames with
  | nil => rfl
  | cons frame outer ih => simp [snapshots, ih]

/-- The entries know the frames that they stand in, and stand in each from the newest to the oldest. -/
def Stacked (time : Nat) : List (List Entry) → Prop
  | [] => True
  | frame :: outer => (∀ x ∈ frame, x.frame = outer.length ∧ x.time < time) ∧
      frame.Pairwise (fun x y => y.time < x.time) ∧ Stacked time outer

namespace Stacked

variable {time : Nat} {frames : List (List Entry)}

theorem later (h : Stacked time frames) : Stacked (time + 1) frames := by
  induction frames with
  | nil => trivial
  | cons frame outer ih =>
    obtain ⟨hframe, hordered, houter⟩ := h
    refine ⟨?_, hordered, ih houter⟩
    intro x hx
    have hx := hframe x hx
    omega

theorem frame_lt (h : Stacked time frames) : ∀ x ∈ frames.flatten, x.frame < frames.length := by
  induction frames with
  | nil => simp
  | cons frame outer ih =>
    obtain ⟨hframe, -, houter⟩ := h
    intro x hx
    rw [List.length_cons]
    rcases List.mem_append.mp hx with hx | hx
    · have hx := hframe x hx
      omega
    · have hx := ih houter x hx
      omega

theorem pairwise_precedes (h : Stacked time frames) : frames.flatten.Pairwise Entry.Precedes := by
  induction frames with
  | nil => exact .nil
  | cons frame outer ih =>
    obtain ⟨hframe, hordered, houter⟩ := h
    refine List.pairwise_append.mpr ⟨?_, ih houter, ?_⟩
    · refine hordered.imp_of_mem ?_
      intro x y hx hy hlt
      have hx := hframe x hx
      have hy := hframe y hy
      exact .inr ⟨by omega, hlt⟩
    · intro x hx y hy
      have hx := hframe x hx
      have hy := houter.frame_lt y hy
      exact .inl (by omega)

end Stacked

/-- What is not hidden among the bindings of entries are the bindings that names are looked up to. -/
theorem exists_unhidden (entries : List Entry) : ∃ shown : List Entry, shown.Sublist entries ∧
    unhidden (entries.map (·.binding)) = shown.map (·.binding) ∧
    ∀ name x, x ∈ shown ∧ x.binding.name = name ↔ find entries name = some x := by
  induction entries with
  | nil => exact ⟨[], .slnil, rfl, by simp [find]⟩
  | cons first entries ih =>
    obtain ⟨shown, hsublist, hshown, hmem⟩ := ih
    refine ⟨first :: shown.filter (·.binding.name != first.binding.name), ?_, ?_, ?_⟩
    · exact (List.filter_sublist.trans hsublist).cons_cons first
    · rw [List.map_cons, unhidden, hshown, List.filter_map, List.map_cons]
      rfl
    · intro name x
      by_cases hname : first.binding.name = name
      · -- the first entry hides every other one of its name
        subst hname
        have hfind : find (first :: entries) first.binding.name = some first := by simp [find]
        rw [hfind, Option.some.injEq, List.mem_cons, List.mem_filter]
        constructor
        · rintro ⟨rfl | ⟨-, hne⟩, heq⟩
          · rfl
          · simp [heq] at hne
        · rintro rfl
          exact ⟨.inl rfl, rfl⟩
      · have hfind : find (first :: entries) name = find entries name := by simp [find, hname]
        rw [hfind, ← hmem, List.mem_cons, List.mem_filter]
        constructor
        · rintro ⟨rfl | ⟨hx, -⟩, heq⟩
          · exact absurd heq hname
          · exact ⟨hx, heq⟩
        · rintro ⟨hx, rfl⟩
          exact ⟨.inr ⟨hx, bne_iff_ne.mpr (Ne.symm hname)⟩, rfl⟩

/-! ## The simulation -/

/-- The frames of the scope hold the bindings of the entries, and the environment looks names up in these. -/
structure Tracks (scope : Scope) (env : Environment) (frames : List (List Entry)) : Prop where
  bindings : scope.frames = frames.map (·.map (·.binding))
  names : env.current :: env.saved = snapshots frames
  stacked : Stacked env.time frames

namespace Tracks

variable {scope : Scope} {env : Environment} {frames : List (List Entry)}

theorem empty : Tracks .empty .empty [[]] where
  bindings := rfl
  names := rfl
  stacked := ⟨by simp, .nil, trivial⟩

/-- There is an innermost frame. -/
theorem exists_current (h : Tracks scope env frames) : ∃ frame outer, frames = frame :: outer ∧
    scope.current = frame.map (·.binding) ∧ scope.outer = outer.map (·.map (·.binding)) ∧
    env.current = find (frame :: outer).flatten ∧ env.saved = snapshots outer := by
  cases frames with
  | nil => exact absurd h.bindings (by simp [Scope.frames])
  | cons frame outer =>
    obtain ⟨hcurrent, houter⟩ := List.cons.inj h.bindings
    obtain ⟨hmap, hsaved⟩ := List.cons.inj h.names
    exact ⟨frame, outer, rfl, hcurrent, houter, hmap, hsaved⟩

theorem descend (h : Tracks scope env frames) : Tracks scope.descend env.descend ([] :: frames) where
  bindings := congrArg ([] :: ·) h.bindings
  names := by
    obtain ⟨frame, outer, rfl, -, -, hmap, -⟩ := h.exists_current
    show env.current :: env.current :: env.saved = _
    rw [h.names, hmap]
    rfl
  stacked := ⟨by simp, .nil, h.stacked⟩

theorem define (h : Tracks scope env frames) (b : Binding) :
    ∃ frames', Tracks (scope.define b) (env.define b) frames' := by
  obtain ⟨frame, outer, rfl, hcurrent, houter, hmap, hsaved⟩ := h.exists_current
  obtain ⟨hframe, hordered, hstacked⟩ := h.stacked
  have hlength : env.saved.length = outer.length := by rw [hsaved, length_snapshots]
  refine ⟨(⟨b, env.saved.length, env.time⟩ :: frame) :: outer, ?_, ?_, ?_⟩
  · show (b :: scope.current) :: scope.outer = _
    rw [hcurrent, houter]
    rfl
  · show (env.define b).current :: env.saved = _
    rw [hsaved, snapshots]
    congr 1
    funext name
    show (if b.name = name then _ else env.current name) = _
    by_cases hname : b.name = name
    · simp [find, hname, hlength, length_snapshots]
    · simp [find, hname, hmap]
  · refine ⟨?_, List.pairwise_cons.mpr ⟨fun x hx => (hframe x hx).2, hordered⟩, hstacked.later⟩
    intro x hx
    rcases List.mem_cons.mp hx with rfl | hx
    · exact ⟨hlength, Nat.lt_succ_self _⟩
    · exact ⟨(hframe x hx).1, Nat.lt_succ_of_lt (hframe x hx).2⟩

/-- Both close a frame, or none of them does because only the outermost one is open. -/
theorem exit (h : Tracks scope env frames) :
    (scope.depth = 0 ∧ scope.exit = .error .exitWithoutDescend ∧ env.exit = none) ∨
      ∃ scope' env' frames', scope.depth = scope'.depth + 1 ∧ scope.exit = .ok scope' ∧ env.exit = some env' ∧
        Tracks scope' env' frames' := by
  obtain ⟨frame, outer, rfl, -, houter, -, hsaved⟩ := h.exists_current
  cases outer with
  | nil =>
    refine .inl ⟨?_, ?_, ?_⟩
    · rw [depth, houter]
      rfl
    · rw [Scope.exit, houter]
      rfl
    · rw [Environment.exit, hsaved]
      rfl
  | cons next outer =>
    refine .inr ⟨⟨next.map (·.binding), outer.map (·.map (·.binding))⟩,
      { env with current := find (next :: outer).flatten, saved := snapshots outer }, next :: outer, ?_, ?_, ?_, ?_⟩
    · rw [depth, houter]
      rfl
    · rw [Scope.exit, houter]
      rfl
    · rw [Environment.exit, hsaved]
      rfl
    · exact ⟨rfl, rfl, h.stacked.2.2⟩

/-- Both take all operations, or none of them does because some of these closes the outermost frame. -/
theorem run (h : Tracks scope env frames) (ops : List Operation) :
    (Overdraws scope.depth ops ∧ scope.run ops = .error .exitWithoutDescend ∧ env.run ops = none) ∨
      (¬ Overdraws scope.depth ops ∧ ∃ scope' env' frames', scope.run ops = .ok scope' ∧ env.run ops = some env' ∧
        Tracks scope' env' frames') := by
  induction ops generalizing scope env frames with
  | nil => exact .inr ⟨not_overdraws_nil _, scope, env, frames, rfl, rfl, h⟩
  | cons op ops ih =>
    have hdeclare (b : Binding) : Overdraws (scope.define b).depth ops ∧
          (scope.define b).run ops = .error .exitWithoutDescend ∧ (env.define b).run ops = none ∨
        ¬ Overdraws (scope.define b).depth ops ∧ ∃ scope' env' frames', (scope.define b).run ops = .ok scope' ∧
          (env.define b).run ops = some env' ∧ Tracks scope' env' frames' := by
      obtain ⟨frames', hdefined⟩ := h.define b
      exact ih hdefined
    cases op with
    | descend =>
      rw [overdraws_descend]
      exact ih h.descend
    | exit =>
      rcases h.exit with ⟨hdepth, hscope, henv⟩ | ⟨scope', env', frames', hdepth, hscope, henv, h'⟩
      · refine .inl ⟨hdepth ▸ overdraws_exit_zero ops, ?_, ?_⟩
        · show scope.exit >>= _ = _
          rw [hscope]
          rfl
        · show env.exit >>= _ = _
          rw [henv]
          rfl
      · have hrun : scope.run (.exit :: ops) = scope'.run ops := by
          show scope.exit >>= _ = _
          rw [hscope]
          rfl
        have hrun' : env.run (.exit :: ops) = env'.run ops := by
          show env.exit >>= _ = _
          rw [henv]
          rfl
        rw [hdepth, overdraws_exit, hrun, hrun']
        exact ih h'
    | defineValue name ty =>
      rw [overdraws_declare (by simp [Operation.Declares])]
      exact hdeclare _
    | defineVariable name ty =>
      rw [overdraws_declare (by simp [Operation.Declares])]
      exact hdeclare _
    | defineFunction name ty params =>
      rw [overdraws_declare (by simp [Operation.Declares])]
      exact hdeclare _

theorem visible (h : Tracks scope env frames) : env.Lists (fun _ => True) scope.visible := by
  obtain ⟨frame, outer, rfl, hcurrent, houter, hmap, -⟩ := h.exists_current
  obtain ⟨shown, hsublist, hshown, hmem⟩ := exists_unhidden (frame :: outer).flatten
  refine ⟨shown, ?_, h.stacked.pairwise_precedes.sublist hsublist, ?_⟩
  · rw [← hshown, List.map_flatten]
    show unhidden (scope.current ++ scope.outer.flatten) = _
    rw [hcurrent, houter]
    rfl
  · intro name x
    rw [hmem, hmap, and_true]

end Tracks

/-! ## Lexical shadowing -/

/-- The binding has the type, or the type of a record with a field of the type. -/
def Offers (records : Registry) (ty : Ty) (b : Binding) : Prop :=
  b.ty = ty ∨ ∃ id, b.ty = .record id ∧ ∃ field ∈ (records.fields? id).getD [], field.ty = ty

theorem offers_iff (records : Registry) (ty : Ty) (b : Binding) :
    (b.ty == ty || b.ty.recordId?.any fun id => (records.fieldOfTy? id ty).isSome) = true ↔ Offers records ty b := by
  have hfield (id : String) : (records.fieldOfTy? id ty).isSome = true ↔
      ∃ field ∈ (records.fields? id).getD [], field.ty = ty := by
    unfold Registry.fieldOfTy?
    cases records.fields? id with
    | none => simp
    | some fields => simp [List.find?_isSome]
  rw [Bool.or_eq_true, beq_iff_eq]
  refine or_congr_right ?_
  cases b.ty <;> simp [Ty.recordId?, hfield]

/-- Operations on a new scope fail exactly if they close a frame more than they opened. After any others, the lookups
of the scope list the entries of the current map of the environment, in the order of the frames and in a frame the
newest first, without those that the lookup leaves out. Blocks that are closed again change nothing that follows. -/
theorem lexical_shadowing (ops : List Operation) (records : Registry) (ty : Ty) :
    (empty.run ops = .error .exitWithoutDescend ↔ Overdraws 0 ops) ∧
      (¬ Overdraws 0 ops → ∃ scope env, empty.run ops = .ok scope ∧ Environment.empty.run ops = some env ∧
        env.Lists (fun _ => True) scope.visible ∧
        env.Lists (Offers records ty) (scope.ofTy records ty) ∧
        env.Lists (fun b => b.kind = .variable ∨ b.kind = .function) scope.variablesAndFunctions ∧
        env.Lists (fun b => b.kind = .variable) scope.visibleVariables ∧
        env.Lists (fun b => b.kind ≠ .function ∧ b.ty.isTensor = true) scope.tensors) ∧
      ∀ segment rest, Closes 0 segment → empty.run (ops ++ segment ++ rest) = empty.run (ops ++ rest) := by
  refine ⟨?_, ?_, fun segment rest hsegment => run_skip _ hsegment ops rest⟩
  · rcases Tracks.empty.run ops with ⟨hover, hrun, -⟩ | ⟨hover, scope, env, frames, hrun, -, -⟩
    · exact iff_of_true hrun hover
    · refine iff_of_false ?_ hover
      rw [hrun]
      exact nofun
  · intro hover
    rcases Tracks.empty.run ops with ⟨hover', -, -⟩ | ⟨-, scope, env, frames, hrun, henv, htracks⟩
    · exact absurd hover' hover
    have hvisible := htracks.visible
    refine ⟨scope, env, hrun, henv, hvisible, hvisible.filter _ ?_, hvisible.filter _ ?_, hvisible.filter _ ?_,
      hvisible.filter _ ?_⟩
    · intro b
      rw [true_and, offers_iff]
    · intro b
      cases b.kind <;> simp
    · intro b
      simp
    · intro b
      simp [Binding.isFunction]

/-- In a block that hides the variable of the module by a value of another type, only the value is seen; after the
block, the variable is back. -/
theorem lexical_shadowing_value :
    let ops : List Operation := [.defineVariable "value" .int, .descend, .defineValue "value" .float]
    (¬ Overdraws 0 ops ∧ Closes 0 [.descend, .defineFunction "k" .int [], .exit]) ∧
      (∃ scope env, empty.run ops = .ok scope ∧ Environment.empty.run ops = some env ∧
        env.Lists (Offers .empty .int) (scope.ofTy .empty .int) ∧ scope.ofTy .empty .int = [] ∧
        scope.visibleVariables = [] ∧ scope.ofTy .empty .float = [⟨.value, "value", .float, []⟩]) ∧
      empty.run (ops ++ [.descend, .defineFunction "k" .int [], .exit] ++ [.exit]) = empty.run (ops ++ [.exit]) := by
  intro ops
  obtain ⟨hfails, hlists, hskip⟩ := lexical_shadowing ops .empty .int
  have hover : ¬ Overdraws 0 ops := fun hover => absurd (hfails.mpr hover) nofun
  have hblock : Closes 0 [.descend, .defineFunction "k" .int [], .exit] := by simp [Closes]
  refine ⟨⟨hover, hblock⟩, ?_, hskip _ [.exit] hblock⟩
  obtain ⟨scope, env, hrun, henv, -, hint, -⟩ := hlists hover
  have hscope : scope = ⟨[⟨.value, "value", .float, []⟩], [[⟨.variable, "value", .int, []⟩]]⟩ :=
    (Except.ok.inj hrun).symm
  refine ⟨scope, env, hrun, henv, hint, ?_, ?_, ?_⟩ <;> rw [hscope] <;> decide

end TensorFuzz.Scope
