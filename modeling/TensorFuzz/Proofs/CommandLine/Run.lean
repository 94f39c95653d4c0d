import TensorFuzz.CommandLine.Run
import TensorFuzz.Proofs.CommandLine.Settled
import TensorFuzz.Proofs.FileTree.Written
import TensorFuzz.Proofs.Manifest.RoundTrip

/-!
# What runs do

The effects of a run in a working directory: what becomes of the files, of the stream for results and of the number to
end with (`perform_effects`).

A run first settles its profile, which reads files and changes nothing (`run_settled`). What it comes to then is told
stage by stage (`outcome`), the writing of the program among them (`delivered`), and the effects are read off there. That
the manifest which a run leaves decodes to the run rests on the round trip of manifests, whose conditions on sizes hold
since arguments, documents and embedded profiles only have numbers that a word holds.
-/

namespace TensorFuzz.CommandLine

/-! ## Actions at a workplace -/

section

/-- The actions of a run at a workplace. -/
abbrev Act (α : Type) : Type := ExceptT RunError (StateM Workplace) α

variable {α β : Type} (w : Workplace)

theorem bind_run (act : Act α) (f : α → Act β) : (act >>= f).run w =
    match act.run w with
    | (.ok a, w') => (f a).run w'
    | (.error e, w') => (.error e, w') := by
  change ExceptT.bindCont f (act.run w).1 (act.run w).2 = _
  obtain ⟨result, w'⟩ := act.run w
  cases result <;> rfl

theorem ofExcept_run (result : Except RunError α) : (MonadExcept.ofExcept result : Act α).run w = (result, w) := by
  cases result <;> rfl

theorem lift_run (act : StateM Workplace α) : (ExceptT.lift act : Act α).run w = (.ok (act w).1, (act w).2) := rfl

theorem tellEvents_run (events : List Event) :
    ∃ told, (tellEvents events : StateM Workplace Unit) w = ((), { w with told }) := by
  induction events generalizing w with
  | nil => exact ⟨w.told, rfl⟩
  | cons event events ih => exact ih { w with told := w.told ++ event.line ++ "\n" }

theorem writeTo_run (path text : String) : (writeTo path text : Act Unit).run w =
    match w.files.write path text.toUTF8 with
    | .ok files => (.ok (), { w with files })
    | .error cause => (.error (.unwritable path cause), w) := by
  unfold writeTo
  rw [bind_run, lift_run]
  change ((MonadExcept.ofExcept ((Workplace.writeFile path text w).1.mapError (RunError.unwritable path)) : Act Unit).run
    (Workplace.writeFile path text w).2) = _
  rw [ofExcept_run]
  unfold Workplace.writeFile
  cases w.files.write path text.toUTF8 <;> rfl

theorem printAll_run (text : String) : (printAll text : Act Unit).run w =
    match w.sink w.printed text with
    | .ok () => (.ok (), { w with printed := w.printed ++ text })
    | .error (taken, cause) => (.error (.unwritable streamName cause),
        { w with printed := w.printed ++ String.ofList (text.toList.take taken) }) := by
  unfold printAll
  rw [bind_run, lift_run]
  change ((MonadExcept.ofExcept ((Workplace.print text w).1.mapError (RunError.unwritable streamName)) : Act Unit).run
    (Workplace.print text w).2) = _
  rw [ofExcept_run]
  unfold Workplace.print
  cases w.sink w.printed text <;> rfl

end

/-! ## The stages of a run -/

/-- The files once a text is written to a path, if there is one. -/
def stored (path : Option String) (text : String) (files : FileTree) : Except RunError FileTree :=
  match path with
  | none => .ok files
  | some path => (files.write path text.toUTF8).mapError (.unwritable path)

/-- The files once the text of a program is written where the arguments want it, and what the stream for results shows
of it; or why it cannot be written, and what the stream shows of it all the same. -/
def delivered (args : Arguments) (text : String) (w : Workplace) : Except (RunError × String) (FileTree × String) :=
  match args.output with
  | some path =>
    match w.files.write path text.toUTF8 with
    | .ok files => .ok (files, "")
    | .error cause => .error (.unwritable path cause, "")
  | none =>
    match w.sink w.printed (text ++ "\n") with
    | .ok () => .ok (w.files, text ++ "\n")
    | .error (taken, cause) => .error (.unwritable streamName cause, String.ofList ((text ++ "\n").toList.take taken))

/-- What a run comes to: its result, the files after it, and what the stream for results shows. Each stage goes on from
what the one before it leaves, and the first one that fails ends the run. -/
def outcome (generate : Profile → Nat → Except Fault Program) (args : Arguments) (seed : Nat) (w : Workplace) :
    Except RunError Unit × FileTree × String :=
  match settled w.files args with
  | .error e => (.error e, w.files, "")
  | .ok p =>
    match generate p seed with
    | .error cause => (.error (.stopped cause), w.files, "")
    | .ok program =>
      match delivered args (laidOut args program.text) w with
      | .error (e, shown) => (.error e, w.files, shown)
      | .ok (files, shown) =>
        match stored args.manifest (Manifest.ofRun seed args.profile p).text files with
        | .error e => (.error e, files, shown)
        | .ok files' => (.ok (), files', shown)

theorem exitCode_of_stored_error {path : Option String} {text : String} {files : FileTree} {e : RunError}
    (h : stored path text files = .error e) : e.exitCode = 1 := by
  unfold stored at h
  split at h
  · cases h
  · next path =>
    cases hwrite : files.write path text.toUTF8 with
    | ok _ => rw [hwrite] at h; cases h
    | error cause => rw [hwrite] at h; cases h; rfl

theorem exitCode_of_delivered_error {args : Arguments} {text shown : String} {w : Workplace} {e : RunError}
    (h : delivered args text w = .error (e, shown)) : e.exitCode = 1 := by
  unfold delivered at h
  split at h
  · split at h <;> cases h
    rfl
  · split at h <;> cases h
    rfl

/-- What a run does with its profile. -/
def produce (generate : Profile → Nat → Except Fault Program) (args : Arguments) (filter : Filter) (p : Profile) :
    Act Unit := do
  let seed ← ExceptT.lift (chooseSeed args)
  ExceptT.lift (Host.tell ("mavl-stress: seed " ++ toString seed ++ ", profile " ++ args.profile))
  let program ← MonadExcept.ofExcept ((generate p seed).mapError .stopped)
  ExceptT.lift (tellEvents (program.events.filter filter.shows))
  writeProgram args (laidOut args program.text)
  writeManifest args seed p

section

variable {generate : Profile → Nat → Except Fault Program} {args : Arguments} {seed : Nat} {filter : Filter} {p : Profile}
  {w w' : Workplace} {result : Except RunError Unit}

theorem load_run (name : String) : (Profile.load name : Act Profile).run w = (loaded w.files name, w) := by
  unfold Profile.load loaded
  split
  · rw [bind_run, lift_run]
    exact ofExcept_run w _
  · exact ofExcept_run w _

/-- A run without a profile stops at once. -/
theorem run_settled : (run generate args filter : Act Unit).run w =
    match settled w.files args with
    | .ok p => (produce generate args filter p).run w
    | .error e => (.error e, w) := by
  change (Profile.load args.profile >>= fun loaded => MonadExcept.ofExcept (effective args loaded) >>=
    produce generate args filter : Act Unit).run w = _
  rw [bind_run, load_run]
  unfold settled
  cases loaded w.files args.profile with
  | error e => rfl
  | ok q =>
    dsimp only
    rw [ok_bind, bind_run, ofExcept_run]
    cases effective args q <;> rfl

theorem produce_run (generate : Profile → Nat → Except Fault Program) (filter : Filter) (p : Profile) (w : Workplace)
    (hseed : args.seed = some seed) : ∃ told, (produce generate args filter p).run w =
    match generate p seed with
    | .error cause => (.error (.stopped cause), { w with told })
    | .ok program => (writeProgram args (laidOut args program.text) >>= fun _ => writeManifest args seed p : Act Unit).run
        { w with told } := by
  have hchosen : (chooseSeed args : StateM Workplace Nat) = pure seed := by rw [chooseSeed, hseed]
  unfold produce
  rw [hchosen, bind_run, lift_run]
  change ∃ told, (ExceptT.lift (Host.tell ("mavl-stress: seed " ++ toString seed ++ ", profile " ++ args.profile)) >>= _ :
    Act Unit).run w = _
  rw [bind_run, lift_run]
  change ∃ told, (MonadExcept.ofExcept ((generate p seed).mapError .stopped) >>= _ : Act Unit).run { w with told := _ } = _
  rw [bind_run, ofExcept_run]
  cases generate p seed with
  | error cause => exact ⟨_, rfl⟩
  | ok program =>
    change ∃ told, (ExceptT.lift (tellEvents (program.events.filter filter.shows)) >>= _ : Act Unit).run _ = _
    rw [bind_run, lift_run]
    obtain ⟨told, htold⟩ := tellEvents_run { w with told := _ } (program.events.filter filter.shows)
    rw [htold]
    exact ⟨told, rfl⟩

theorem writeProgram_run (w : Workplace) (args : Arguments) (text : String) : (writeProgram args text : Act Unit).run w =
    match delivered args text w with
    | .ok (files, shown) => (.ok (), { w with files, printed := w.printed ++ shown })
    | .error (e, shown) => (.error e, { w with printed := w.printed ++ shown }) := by
  unfold writeProgram delivered
  cases args.output with
  | none =>
    dsimp only
    rw [printAll_run]
    cases w.sink w.printed (text ++ "\n") <;> rfl
  | some path =>
    dsimp only
    rw [writeTo_run]
    cases w.files.write path text.toUTF8 <;> simp only [String.append_empty]

theorem delivered_told (args : Arguments) (text : String) (w : Workplace) (told : String) :
    delivered args text { w with told } = delivered args text w := rfl

theorem writeManifest_run (w : Workplace) (args : Arguments) (seed : Nat) (p : Profile) :
    (writeManifest args seed p : Act Unit).run w =
      match stored args.manifest (Manifest.ofRun seed args.profile p).text w.files with
      | .ok files => (.ok (), { w with files })
      | .error e => (.error e, w) := by
  unfold writeManifest stored
  cases args.manifest with
  | none => rfl
  | some path =>
    dsimp only
    rw [writeTo_run]
    cases w.files.write path (Manifest.ofRun seed args.profile p).text.toUTF8 <;> rfl

/-- A run with a seed comes to its outcome, whatever it tells meanwhile. -/
theorem run_outcome (generate : Profile → Nat → Except Fault Program) (filter : Filter) (w : Workplace)
    (hseed : args.seed = some seed) : ∃ told, (run generate args filter : Act Unit).run w =
      ((outcome generate args seed w).1, { w with
        files := (outcome generate args seed w).2.1
        printed := w.printed ++ (outcome generate args seed w).2.2
        told }) := by
  rw [run_settled]
  unfold outcome
  cases settled w.files args with
  | error e => exact ⟨w.told, by simp only [String.append_empty]⟩
  | ok p =>
    obtain ⟨told, hproduce⟩ := produce_run generate filter p w hseed
    refine ⟨told, ?_⟩
    dsimp only
    rw [hproduce]
    cases generate p seed with
    | error cause => simp only [String.append_empty]
    | ok program =>
      dsimp only
      rw [bind_run, writeProgram_run, delivered_told]
      cases delivered args (laidOut args program.text) w with
      | error failure => rfl
      | ok delivery =>
        dsimp only
        rw [writeManifest_run]
        cases stored args.manifest (Manifest.ofRun seed args.profile p).text delivery.1 <;> rfl

/-- Reports the error that a run stops at, and gives the number to end with. -/
def conclude : Except RunError Unit → StateM Workplace Nat
  | .ok () => return 0
  | .error e => do
    Host.tell e.report
    return e.exitCode

/-- The number that a run ends with. -/
def exitCode : Except RunError Unit → Nat
  | .ok () => 0
  | .error e => e.exitCode

/-- What is performed comes to the outcome of the run. -/
theorem performWith_outcome (generate : Profile → Nat → Except Fault Program) {words : List String}
    (hwords : Request.parse? words = some (.run args)) (hseed : args.seed = some seed) (text : Option String)
    (w : Workplace) : ∃ told, (performWith generate words text : StateM Workplace Nat) w =
      (exitCode (outcome generate args seed w).1, { w with
        files := (outcome generate args seed w).2.1
        printed := w.printed ++ (outcome generate args seed w).2.2
        told }) := by
  obtain ⟨told, hrun⟩ := run_outcome generate ((text.bind Filter.parse?).getD []) w hseed
  unfold performWith
  rw [hwords]
  change ∃ told, conclude ((run generate args ((text.bind Filter.parse?).getD []) : Act Unit).run w).1
    ((run generate args ((text.bind Filter.parse?).getD []) : Act Unit).run w).2 = _
  rw [hrun]
  cases (outcome generate args seed w).1 with
  | ok _ => exact ⟨told, rfl⟩
  | error e => exact ⟨_, rfl⟩

/-- Generators that agree on the profiles that can be used make the same run. -/
theorem run_congr {other : Profile → Nat → Except Fault Program} (h : ∀ p, p.invalid? = none → generate p = other p)
    (w : Workplace) : (run generate args filter : Act Unit).run w = (run other args filter : Act Unit).run w := by
  rw [run_settled, run_settled]
  cases hsettled : settled w.files args with
  | error e => rfl
  | ok p =>
    dsimp only
    rw [produce, produce, h p (settled_eq_ok_iff.mp hsettled).usable]

theorem performWith_congr {other : Profile → Nat → Except Fault Program}
    (h : ∀ p, p.invalid? = none → generate p = other p) {words : List String}
    (hwords : Request.parse? words = some (.run args)) (text : Option String) (w : Workplace) :
    (performWith generate words text : StateM Workplace Nat) w = (performWith other words text : StateM Workplace Nat) w := by
  unfold performWith
  rw [hwords]
  change conclude ((run generate args ((text.bind Filter.parse?).getD []) : Act Unit).run w).1
    ((run generate args ((text.bind Filter.parse?).getD []) : Act Unit).run w).2 = _
  rw [run_congr h]
  rfl

/-! ### Outcomes -/

variable {program : Program} {files files' : FileTree} {shown : String} {e : RunError}

theorem outcome_of_unsettled (generate : Profile → Nat → Except Fault Program) (seed : Nat)
    (h : ∀ p, ¬ Settles w.files args p) :
    ∃ e, outcome generate args seed w = (.error e, w.files, "") ∧ e.exitCode = 1 := by
  cases hsettled : settled w.files args with
  | error e => exact ⟨e, by rw [outcome, hsettled], exitCode_of_settled_error hsettled⟩
  | ok p => exact absurd (settled_eq_ok_iff.mp hsettled) (h p)

section
variable (hsettles : Settles w.files args p) (hgenerate : generate p seed = .ok program)
include hsettles hgenerate

theorem outcome_of_undelivered (h : delivered args (laidOut args program.text) w = .error (e, shown)) :
    outcome generate args seed w = (.error e, w.files, shown) := by
  rw [outcome, settled_eq_ok_iff.mpr hsettles]
  simp only [hgenerate, h]

variable (hdelivered : delivered args (laidOut args program.text) w = .ok (files, shown))
include hdelivered

theorem outcome_of_unrecorded (h : stored args.manifest (Manifest.ofRun seed args.profile p).text files = .error e) :
    outcome generate args seed w = (.error e, files, shown) := by
  rw [outcome, settled_eq_ok_iff.mpr hsettles]
  simp only [hgenerate, hdelivered, h]

theorem outcome_of_recorded (h : stored args.manifest (Manifest.ofRun seed args.profile p).text files = .ok files') :
    outcome generate args seed w = (.ok (), files', shown) := by
  rw [outcome, settled_eq_ok_iff.mpr hsettles]
  simp only [hgenerate, hdelivered, h]

end

/-- A run ends well only if none of its stages fails. -/
theorem exists_of_exitCode_eq_zero (h : exitCode (outcome generate args seed w).1 = 0) :
    ∃ p program files shown files', Settles w.files args p ∧ generate p seed = .ok program ∧
      delivered args (laidOut args program.text) w = .ok (files, shown) ∧
        stored args.manifest (Manifest.ofRun seed args.profile p).text files = .ok files' ∧
          outcome generate args seed w = (.ok (), files', shown) := by
  cases hsettled : settled w.files args with
  | error e =>
    rw [outcome, hsettled] at h
    exact absurd ((exitCode_of_settled_error hsettled).symm.trans h) Nat.one_ne_zero
  | ok p =>
    have hsettles := settled_eq_ok_iff.mp hsettled
    cases hgenerate : generate p seed with
    | error cause =>
      rw [outcome, hsettled] at h
      simp only [hgenerate] at h
      cases h
    | ok program =>
      cases hdelivered : delivered args (laidOut args program.text) w with
      | error failure =>
        rw [outcome_of_undelivered hsettles hgenerate hdelivered] at h
        exact absurd ((exitCode_of_delivered_error hdelivered).symm.trans h) Nat.one_ne_zero
      | ok delivery =>
        cases hrecorded : stored args.manifest (Manifest.ofRun seed args.profile p).text delivery.1 with
        | error e =>
          rw [outcome_of_unrecorded hsettles hgenerate hdelivered hrecorded] at h
          exact absurd ((exitCode_of_stored_error hrecorded).symm.trans h) Nat.one_ne_zero
        | ok files' =>
          have houtcome := outcome_of_recorded hsettles hgenerate hdelivered hrecorded
          exact ⟨p, program, _, _, files', hsettles, hgenerate, hdelivered, hrecorded, houtcome⟩

end

/-! ## What a run leaves -/

theorem generate_eq_ok_iff {p : Profile} {seed : Nat} {program : Program} :
    Program.generate p seed = .ok program ↔ ∃ items engine, Module.run p (Program.supply seed) = .ok (items, engine) ∧
      program = ⟨moduleText items, engine.journal.reverse⟩ := by
  unfold Program.generate
  constructor
  · intro h
    obtain ⟨⟨items, engine⟩, hrun, hprogram⟩ := exists_of_bind_ok h
    exact ⟨items, engine, hrun, (Except.ok.inj hprogram).symm⟩
  · rintro ⟨items, engine, hrun, rfl⟩
    rw [hrun]
    rfl

/-- After a run of the arguments that ends well, the text of the module is in the stream for results or in its file, and
the manifest in its file decodes to what the module is generated from. -/
structure Leaves (args : Arguments) (seed : Nat) (p : Profile) (items : List Item) (w w' : Workplace) : Prop where
  printed : args.output = none → w'.printed = w.printed ++ laidOut args (moduleText items) ++ "\n"
  unprinted : args.output ≠ none → w'.printed = w.printed
  written : ∀ path, args.output = some path →
    (∀ other, args.manifest = some other → Path.destination other ≠ Path.destination path) →
    w'.files.read path = .ok (laidOut args (moduleText items)).toUTF8
  recorded : ∀ path, args.manifest = some path → ∃ text m engine, w'.files.read path = .ok text.toUTF8 ∧
    Manifest.parse text = .ok m ∧ m.seed = seed ∧ m.profile = args.profile ∧ m.settings = p ∧
    Module.run m.settings (Program.supply m.seed) = .ok (items, engine)

section

variable {args : Arguments} {seed : Nat} {p : Profile} {items : List Item} {engine : Engine KeyStream} {w : Workplace}
  {files files' : FileTree} {text shown : String}

theorem read_of_stored {path : String} (h : stored (some path) text files = .ok files') :
    files'.read path = .ok text.toUTF8 := by
  unfold stored at h
  cases hwrite : files.write path text.toUTF8 with
  | error cause => dsimp only at h; rw [hwrite] at h; cases h
  | ok files' => dsimp only at h; rw [hwrite] at h; cases h; exact FileTree.read_of_write hwrite

/-- A text that is written to another file leaves what was read. -/
theorem read_of_stored_of_ne {path : String} {other : Option String} {content : ByteArray}
    (hread : files.read path = .ok content) (h : stored other text files = .ok files')
    (hne : ∀ target, other = some target → Path.destination target ≠ Path.destination path) :
    files'.read path = .ok content := by
  unfold stored at h
  split at h
  · cases h; exact hread
  · next target =>
    cases hwrite : files.write target text.toUTF8 with
    | error cause => rw [hwrite] at h; cases h
    | ok files' =>
      rw [hwrite] at h
      cases h
      exact FileTree.read_of_write_of_ne hread hwrite (hne target rfl).symm

/-- A text goes to the stream if there is no file for it. -/
theorem shown_of_delivered (h : delivered args text w = .ok (files, shown)) :
    shown = if args.output = none then text ++ "\n" else "" := by
  unfold delivered at h
  split at h
  · next path houtput =>
    split at h <;> cases h
    rw [if_neg (by rw [houtput]; exact nofun)]
  · next houtput =>
    split at h <;> cases h
    rw [if_pos houtput]

theorem read_of_delivered {path : String} (houtput : args.output = some path)
    (h : delivered args text w = .ok (files, shown)) : files.read path = .ok text.toUTF8 := by
  unfold delivered at h
  rw [houtput] at h
  dsimp only at h
  split at h
  · next hwrite =>
    cases h
    exact FileTree.read_of_write hwrite
  · cases h

theorem leaves_of_recorded {told : String} (hseed : seed < limit64) (hfits : p.Fits)
    (hgenerate : Module.run p (Program.supply seed) = .ok (items, engine))
    (hdelivered : delivered args (laidOut args (moduleText items)) w = .ok (files, shown))
    (hrecorded : stored args.manifest (Manifest.ofRun seed args.profile p).text files = .ok files') :
    Leaves args seed p items w { w with files := files', printed := w.printed ++ shown, told } where
  printed houtput := by rw [shown_of_delivered hdelivered, if_pos houtput, String.append_assoc]
  unprinted houtput := by rw [shown_of_delivered hdelivered, if_neg houtput, String.append_empty]
  written path houtput hne := read_of_stored_of_ne (read_of_delivered houtput hdelivered) hrecorded hne
  recorded path hmanifest := by
    rw [hmanifest] at hrecorded
    exact ⟨_, _, engine, read_of_stored hrecorded,
      Manifest.parse_text (m := Manifest.ofRun seed args.profile p) hseed hfits, rfl, rfl, rfl, hgenerate⟩

end

/-- The effects of a run with a seed. Without a profile that can be used it ends with 1 and changes nothing, and only
profiles that can be used are generated from. If the program cannot be written, to its file or to the stream for results,
it ends with 1 and changes no file; and if the manifest cannot, it ends with 1. It ends with 0 if no stage fails, and only
then; the module of the seed and the profile and its manifest are then where they were asked for. -/
theorem perform_effects {words : List String} {args : Arguments} {seed : Nat}
    (hwords : Request.parse? words = some (.run args)) (hseed : args.seed = some seed) (filter : Option String)
    (w : Workplace) : ∃ code w', (perform words filter : StateM Workplace Nat) w = (code, w') ∧
    ((∀ p, ¬ Settles w.files args p) → code = 1 ∧ w'.files = w.files ∧ w'.printed = w.printed) ∧
    (∀ generate : Profile → Nat → Except Fault Program,
      (∀ p, p.invalid? = none → generate p = Program.generate p) →
      (performWith generate words filter : StateM Workplace Nat) w = (code, w')) ∧
    (∀ p items engine, Settles w.files args p → Module.run p (Program.supply seed) = .ok (items, engine) →
      (∀ e shown, delivered args (laidOut args (moduleText items)) w = .error (e, shown) →
        code = 1 ∧ w'.files = w.files ∧ w'.printed = w.printed ++ shown) ∧
      ∀ files shown, delivered args (laidOut args (moduleText items)) w = .ok (files, shown) →
        (∀ e, stored args.manifest (Manifest.ofRun seed args.profile p).text files = .error e → code = 1) ∧
        ∀ files', stored args.manifest (Manifest.ofRun seed args.profile p).text files = .ok files' → code = 0) ∧
    (code = 0 → ∃ p items engine, Settles w.files args p ∧
      Module.run p (Program.supply seed) = .ok (items, engine) ∧ Leaves args seed p items w w') := by
  have hargs := Request.parse?_fits hwords
  obtain ⟨told, hperform⟩ := performWith_outcome Program.generate hwords hseed filter w
  refine ⟨_, _, hperform, fun hnone => ?_, fun generate h => ?_, fun p items engine hsettles hrun => ?_, fun hzero => ?_⟩
  · obtain ⟨e, houtcome, hcode⟩ := outcome_of_unsettled Program.generate seed hnone
    rw [houtcome]
    exact ⟨hcode, rfl, String.append_empty⟩
  · exact (performWith_congr h hwords filter w).trans hperform
  · have hgenerate := generate_eq_ok_iff.mpr ⟨items, engine, hrun, rfl⟩
    refine ⟨fun e shown hrefused => ?_, fun files shown hdelivered => ⟨fun e hfailed => ?_, fun files' hrecorded => ?_⟩⟩
    · rw [outcome_of_undelivered hsettles hgenerate hrefused]
      exact ⟨exitCode_of_delivered_error hrefused, rfl, rfl⟩
    · rw [outcome_of_unrecorded hsettles hgenerate hdelivered hfailed]
      exact exitCode_of_stored_error hfailed
    · rw [outcome_of_recorded hsettles hgenerate hdelivered hrecorded]
      rfl
  · obtain ⟨p, program, files, shown, files', hsettles, hgenerate, hdelivered, hrecorded, houtcome⟩ :=
      exists_of_exitCode_eq_zero hzero
    obtain ⟨items, engine, hrun, rfl⟩ := generate_eq_ok_iff.mp hgenerate
    refine ⟨p, items, engine, hsettles, hrun, ?_⟩
    rw [houtcome]
    exact leaves_of_recorded (hargs.seed _ hseed) (hsettles.fits hargs) hrun hdelivered hrecorded

/-- In an empty directory: a run of the small profile that overrides its bound of dimensions and writes two files. If the
program is printed instead and the stream for results is full, there is no manifest either. -/
theorem perform_effects_small :
    let written := ["--seed", "314", "--profile", "small", "--maxdim=2", "--pretty", "--output", "program",
      "--manifest", "record"]
    let shown := ["--seed", "314", "--profile", "small", "--maxdim=2", "--manifest", "record"]
    (∃ w', (perform written none : StateM Workplace Nat) { files := ⟨[]⟩ } = (0, w') ∧ w'.printed = "" ∧
      w'.files.read "program" =
        .ok "record tree \x7b\n\tvar int eventCounter;\n\t\n\x7d\nfunction void main() \x7b\n\t\n\x7d\n".toUTF8 ∧
      ∃ text m, w'.files.read "record" = .ok text.toUTF8 ∧ Manifest.parse text = .ok m ∧ m.seed = 314 ∧
        m.profile = "small" ∧ m.settings = { Profile.small with maxDimension := 2 }) ∧
    ∃ w', (perform shown none : StateM Workplace Nat)
        { files := ⟨[]⟩, sink := .full (.other "No space left on device" 28) } = (1, w') ∧
      w'.files = ⟨[]⟩ ∧ w'.printed = "" := by
  intro written shown
  have hdrawn : (Module.run { Profile.small with maxDimension := 2 } (Program.supply 314)).toOption.map
      (fun made => moduleText made.1) =
        some "record tree \x7b var int eventCounter ; \x7d  function void main() \x7b  \x7d " := by decide +kernel
  obtain ⟨⟨items, engine⟩, hrun, htext⟩ := exists_of_toOption_map hdrawn
  have hloads : Loads ⟨[]⟩ "small" .small := .embedded (by decide) rfl
  constructor
  · have hwords : Request.parse? written =
      some (.run ⟨true, some 2, some 314, "small", some "program", some "record"⟩) := by decide
    obtain ⟨code, w', hperform, -, -, hends, hzero⟩ := perform_effects hwords rfl none { files := ⟨[]⟩ }
    have hcode : code = 0 := ((hends _ _ _ (.bounded rfl hloads (by decide)) hrun).2 _ _ rfl).2 _ rfl
    subst hcode
    obtain ⟨p, items', engine', hsettles, hrun', hleaves⟩ := hzero rfl
    cases hsettles.unique (.bounded rfl hloads (by decide))
    cases hrun.symm.trans hrun'
    obtain ⟨text, m, -, hread, hparse, hseed, hprofile, hsettings, -⟩ := hleaves.recorded _ rfl
    refine ⟨w', hperform, hleaves.unprinted nofun, ?_, text, m, hread, hparse, hseed, hprofile, hsettings⟩
    have hother (other : String) (h : some "record" = some other) :
        Path.destination other ≠ Path.destination "program" := by
      cases h
      decide
    have hlaidOut : Layout.pretty "record tree \x7b var int eventCounter ; \x7d  function void main() \x7b  \x7d " =
      "record tree \x7b\n\tvar int eventCounter;\n\t\n\x7d\nfunction void main() \x7b\n\t\n\x7d\n" := by decide +kernel
    rw [hleaves.written _ rfl hother, htext]
    exact congrArg (fun text => Except.ok text.toUTF8) hlaidOut
  · have hwords : Request.parse? shown = some (.run ⟨false, some 2, some 314, "small", none, some "record"⟩) := by decide
    obtain ⟨code, w', hperform, -, -, hends, -⟩ := perform_effects hwords rfl none
      { files := ⟨[]⟩, sink := .full (.other "No space left on device" 28) }
    obtain ⟨hcode, hfiles, hprinted⟩ := (hends _ _ _ (.bounded rfl hloads (by decide)) hrun).1 _ _ rfl
    subst hcode
    exact ⟨w', hperform, hfiles, hprinted⟩

end TensorFuzz.CommandLine
