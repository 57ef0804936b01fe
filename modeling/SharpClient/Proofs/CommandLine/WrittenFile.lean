import SharpClient.Layout.PlainEngine
import SharpClient.Proofs.CommandLine.Supply
import SharpClient.Proofs.Text.RawText

/-!
# The file that a run writes

A run of the command writes one file, at the end and only when everything before has gone well. Any
of its steps may end it early: the check of the output path, the configuration, the sources, the
compilation, a template of the user, and the writing itself. The files of the tree are part of what
a run changes as it goes (`Session`), so that nothing has been written by then is a fact about the
order of the steps.

* Everything up to the code changes no file, whether it succeeds or not (`Run.KeepsFiles`).
* A write changes no file but its own, and none when it meets a fault (`Tree.WriteEffect`). But the
  file is emptied before the code is encoded, and code that is no text cannot be.
* What follows the write only prints: it always succeeds and changes no file (`Run.Yields`).

`run_files` puts these together, for every template engine. Which code is written is said without
the run (`Workspace.Delivers`).
-/

namespace SharpClient

namespace Run

variable {α β : Type} {x : Run α} {f : α → Run β}

/-! ### Steps that leave the files alone -/

/-- The step leaves the files as they are, whether it succeeds or not. -/
def KeepsFiles (x : Run α) : Prop :=
  ∀ s, (∃ a s', x s = .ok a s' ∧ s'.files = s.files) ∨
    ∃ e s', x s = .error e s' ∧ s'.files = s.files

/-- The step gives a value from wherever it starts, and leaves the files as they are. -/
def Yields (x : Run α) (a : α) : Prop :=
  ∀ s, ∃ s', x s = .ok a s' ∧ s'.files = s.files

theorem bind_ok {s s' : Session} {a : α} (h : x s = .ok a s') : (x >>= f) s = f a s' := by
  change EStateM.bind x f s = _
  rw [EStateM.bind, h]

theorem bind_error {s s' : Session} {e : Stop} (h : x s = .error e s') :
    (x >>= f) s = .error e s' := by
  change EStateM.bind x f s = _
  rw [EStateM.bind, h]

theorem get_bind (f : Session → Run β) (s : Session) : ((get : Run Session) >>= f) s = f s s :=
  rfl

/-- A chain of two steps succeeds when both do. -/
theorem bind_eq_ok {s s' : Session} {b : β} : (x >>= f) s = .ok b s' ↔
    ∃ a s₁, x s = .ok a s₁ ∧ f a s₁ = .ok b s' := by
  cases hx : x s with
  | ok a s₁ =>
    rw [bind_ok hx]
    constructor
    · exact fun h => ⟨a, s₁, rfl, h⟩
    · rintro ⟨a, s₁, ⟨⟩, h⟩
      exact h
  | error e s₁ =>
    rw [bind_error hx]
    simp

theorem Yields.keepsFiles {a : α} (h : Yields x a) : KeepsFiles x := by
  intro s
  exact .inl ⟨a, h s⟩

theorem Yields.bind {a : α} {b : β} (hx : Yields x a) (hf : Yields (f a) b) :
    Yields (x >>= f) b := by
  intro s
  obtain ⟨s₁, hx, hfiles₁⟩ := hx s
  obtain ⟨s', hf, hfiles⟩ := hf s₁
  exact ⟨s', (bind_ok hx).trans hf, hfiles.trans hfiles₁⟩

theorem Yields.ite {c : Prop} [Decidable c] {y : Run α} {a : α} (hx : Yields x a)
    (hy : Yields y a) : Yields (if c then x else y) a := by
  split
  · exact hx
  · exact hy

theorem yields_pure (a : α) : Yields (pure a : Run α) a :=
  fun s => ⟨s, rfl, rfl⟩

theorem yields_forM {γ : Type} {g : γ → Run PUnit} (h : ∀ c, Yields (g c) ()) (cs : List γ) :
    Yields (cs.forM g) () := by
  induction cs with
  | nil => exact yields_pure _
  | cons c cs ih => exact (h c).bind ih

theorem KeepsFiles.bind (hx : KeepsFiles x) (hf : ∀ a, KeepsFiles (f a)) :
    KeepsFiles (x >>= f) := by
  intro s
  rcases hx s with ⟨a, s₁, hx, hfiles₁⟩ | ⟨e, s₁, hx, hfiles₁⟩
  · rw [bind_ok hx, ← hfiles₁]
    exact hf a s₁
  · exact .inr ⟨e, s₁, bind_error hx, hfiles₁⟩

theorem keepsFiles_throw (e : Stop) : KeepsFiles (throw e : Run α) :=
  fun s => .inr ⟨e, s, rfl, rfl⟩

/-! ### The steps of a run -/

theorem yields_print (g : Transcript → Transcript) : Yields (print g) () :=
  fun _ => ⟨_, rfl, rfl⟩

theorem yields_say (line : Text) : Yields (say line) () :=
  yields_print _

theorem yields_detail (verbose : Bool) (lines : List Text) : Yields (detail verbose lines) () :=
  .ite (yields_forM yields_say lines) (yields_pure _)

theorem yields_note (verbose : Bool) (n : Note) : Yields (note verbose n) () := by
  unfold note
  refine .ite (yields_print _) ?_
  split
  · exact yields_print _
  · exact yields_pure _

theorem yields_announce (verbose : Bool) (g : Generator) : Yields (announce verbose g) () := by
  refine (yields_detail _ _).bind ((yields_say _).bind ?_)
  exact .ite (yields_forM (yields_note verbose) g.notes) (yields_pure _)

theorem yields_conclude (verbose : Bool) (output : Text) (code : RawText) :
    Yields (conclude verbose output code) () :=
  (yields_note _ _).bind ((yields_detail _ _).bind (yields_say _))

theorem keepsFiles_fail (message : Text) : KeepsFiles (fail message : Run α) :=
  (yields_print _).keepsFiles.bind fun _ => keepsFiles_throw _

section OrFail

variable {ε : Type} {message : ε → Text}

theorem yields_orFail (a : α) : Yields (orFail message (.ok a)) a :=
  yields_pure a

theorem keepsFiles_orFail (x : Except ε α) : KeepsFiles (orFail message x) := by
  cases x with
  | ok a => exact (yields_orFail a).keepsFiles
  | error e => exact keepsFiles_fail _

theorem orFail_eq_ok {x : Except ε α} {s s' : Session} {a : α}
    (h : orFail message x s = .ok a s') : x = .ok a := by
  cases x with
  | ok b =>
    cases h
    rfl
  | error e => cases h

end OrFail

section OrFailSource

variable {verbose : Bool} {read : Note}

theorem yields_orFailSource (a : α) : Yields (orFailSource verbose read (.ok a)) a :=
  (yields_note _ _).bind (yields_pure a)

theorem keepsFiles_orFailSource (x : Except SourceError α) :
    KeepsFiles (orFailSource verbose read x) := by
  have hnote (n : Note) : KeepsFiles (note verbose n) := (yields_note verbose n).keepsFiles
  unfold orFailSource
  split
  · exact (yields_orFailSource _).keepsFiles
  · exact keepsFiles_fail _
  · exact (hnote _).bind fun _ => keepsFiles_fail _
  · exact (hnote _).bind fun _ => keepsFiles_throw _
  · exact (hnote _).bind fun _ => keepsFiles_fail _

theorem orFailSource_eq_ok {x : Except SourceError α} {s s' : Session} {a : α}
    (h : orFailSource verbose read x s = .ok a s') : x = .ok a := by
  unfold orFailSource at h
  split at h
  · obtain ⟨_, s₁, -, h⟩ := bind_eq_ok.mp h
    cases h
    rfl
  · cases h
  · obtain ⟨_, s₁, -, h⟩ := bind_eq_ok.mp h
    cases h
  · obtain ⟨_, s₁, -, h⟩ := bind_eq_ok.mp h
    cases h
  · obtain ⟨_, s₁, -, h⟩ := bind_eq_ok.mp h
    cases h

end OrFailSource

section OrCrash

theorem yields_orCrash (code : RawText) : Yields (orCrash (.ok code)) code :=
  yields_pure code

theorem keepsFiles_orCrash (x : Rendering) : KeepsFiles (orCrash x) := by
  cases x with
  | ok code => exact (yields_orCrash code).keepsFiles
  | error fault => exact keepsFiles_throw _

theorem orCrash_eq_ok {x : Rendering} {s s' : Session} {code : RawText}
    (h : orCrash x s = .ok code s') : x = .ok code := by
  cases x with
  | ok code' =>
    cases h
    rfl
  | error fault => cases h

end OrCrash

/-! ### The code of a run -/

variable {engine : TemplateEngine} {w : Workspace} {r : Request} {g : Generator} {code : RawText}

theorem keepsFiles_settings (path : Option Text) : KeepsFiles (settings w path) := by
  unfold settings
  split
  · exact (yields_pure _).keepsFiles
  · split
    · exact keepsFiles_orFail _
    · exact keepsFiles_throw _

theorem hasSettings_of_settings {path : Option Text} {s s' : Session} {given : Settings}
    (h : settings w path s = .ok given s') : w.HasSettings path given := by
  cases path with
  | none =>
    cases h
    exact .none
  | some path =>
    rw [settings] at h
    cases htext : w.fileText? path with
    | none =>
      rw [htext] at h
      cases h
    | some text =>
      rw [htext] at h
      exact .file (Workspace.fileText?_eq_some_iff.mp htext) (orFail_eq_ok h)

theorem yields_settings {path : Option Text} {given : Settings} (h : w.HasSettings path given) :
    Yields (settings w path) given := by
  cases h with
  | none => exact yields_pure _
  | file hfile hsettings =>
    rw [settings, Workspace.fileText?_eq_some_iff.mpr hfile]
    change Yields (orFail _ _) _
    rw [hsettings]
    exact yields_orFail _

theorem checkOutput_eq_ok_iff {path : Text} :
    Generator.checkOutput path = .ok () ↔ Path.extension path = ".cs".toList := by
  rw [Generator.checkOutput]
  split
  case isTrue h => exact iff_of_true rfl h
  case isFalse h => exact iff_of_false nofun h

/-! Reading what code is generated from gives what the workspace supplies, and nothing else. -/

theorem keepsFiles_prepare (engine : TemplateEngine) (w : Workspace) (r : Request) :
    KeepsFiles (prepare engine w r) := by
  refine (keepsFiles_orFail _).bind fun _ => (keepsFiles_settings r.config).bind fun given => ?_
  refine (keepsFiles_orFail _).bind fun overridden => ?_
  refine (yields_detail _ _).keepsFiles.bind fun _ => (yields_say _).keepsFiles.bind fun _ => ?_
  refine (keepsFiles_orFailSource _).bind fun schema => ?_
  exact (keepsFiles_orFailSource _).bind fun documents => (yields_pure _).keepsFiles

theorem supplies_of_prepare (hw : w.root.IsProper) {s s' : Session}
    (h : prepare engine w r s = .ok g s') :
    Path.extension (w.resolve r.output) = ".cs".toList ∧ Workspace.Supplies engine w r g := by
  obtain ⟨⟨⟩, _, hname, h⟩ := bind_eq_ok.mp h
  obtain ⟨given, _, hgiven, h⟩ := bind_eq_ok.mp h
  obtain ⟨overridden, _, hoverridden, h⟩ := bind_eq_ok.mp h
  obtain ⟨_, _, -, h⟩ := bind_eq_ok.mp h
  obtain ⟨_, _, -, h⟩ := bind_eq_ok.mp h
  obtain ⟨schema, _, hschema, h⟩ := bind_eq_ok.mp h
  obtain ⟨documents, _, hdocuments, h⟩ := bind_eq_ok.mp h
  cases h
  refine ⟨checkOutput_eq_ok_iff.mp (orFail_eq_ok hname), (Workspace.supplies_iff hw).mpr ?_⟩
  exact ⟨orFailSource_eq_ok hschema, orFailSource_eq_ok hdocuments,
    ⟨given, overridden, hasSettings_of_settings hgiven, orFail_eq_ok hoverridden, rfl⟩, rfl, rfl⟩

theorem yields_prepare (hw : w.root.IsProper)
    (hname : Path.extension (w.resolve r.output) = ".cs".toList)
    (h : Workspace.Supplies engine w r g) : Yields (prepare engine w r) g := by
  obtain ⟨hschema, hdocuments, ⟨given, overridden, hgiven, hoverridden, hconfig⟩, htemplates,
    hexternal⟩ := (Workspace.supplies_iff hw).mp h
  rw [prepare, checkOutput_eq_ok_iff.mpr hname]
  refine (yields_orFail _).bind ((yields_settings hgiven).bind ?_)
  rw [hoverridden, hschema, hdocuments]
  refine (yields_orFail _).bind ((yields_detail _ _).bind ((yields_say _).bind ?_))
  refine (yields_orFailSource _).bind ((yields_orFailSource _).bind ?_)
  rw [← hconfig, ← htemplates, ← hexternal]
  exact yields_pure g

theorem keepsFiles_produce (engine : TemplateEngine) (w : Workspace) (r : Request) :
    KeepsFiles (produce engine w r) := by
  refine (keepsFiles_prepare engine w r).bind fun g => ?_
  refine (yields_announce r.verbose g).keepsFiles.bind fun _ => ?_
  exact (keepsFiles_orFail g.code).bind keepsFiles_orCrash

theorem delivers_of_produce (hw : w.root.IsProper) {s s' : Session}
    (h : produce engine w r s = .ok code s') : Workspace.Delivers engine w r code := by
  obtain ⟨g, _, hprepare, h⟩ := bind_eq_ok.mp h
  obtain ⟨_, _, -, h⟩ := bind_eq_ok.mp h
  obtain ⟨rendering, _, hrendering, h⟩ := bind_eq_ok.mp h
  obtain ⟨hname, hsupplies⟩ := supplies_of_prepare hw hprepare
  refine ⟨hname, g, hsupplies, ?_⟩
  rw [orFail_eq_ok hrendering, orCrash_eq_ok h]

theorem yields_produce (hw : w.root.IsProper) (h : Workspace.Delivers engine w r code) :
    Yields (produce engine w r) code := by
  obtain ⟨hname, g, hsupplies, hcode⟩ := h
  refine (yields_prepare hw hname hsupplies).bind ((yields_announce r.verbose g).bind ?_)
  rw [hcode]
  exact (yields_orFail _).bind (yields_orCrash code)

/-- There is at most one code for a request. -/
theorem delivers_unique (hw : w.root.IsProper) {code' : RawText}
    (h : Workspace.Delivers engine w r code) (h' : Workspace.Delivers engine w r code') :
    code = code' := by
  obtain ⟨_, hcode, -⟩ := yields_produce hw h { files := w.root }
  obtain ⟨_, hcode', -⟩ := yields_produce hw h' { files := w.root }
  cases hcode.symm.trans hcode'
  rfl

/-! ### Whole runs -/

section Write

variable {place : List Text} {s : Session} {files : Tree}

theorem write_of_fault {fault : WriteFault}
    (h : s.files.write (code.text?.getD []) place = (files, some fault)) :
    write place code s = .error (.crash (.ofWriteFault fault)) { s with files } := by
  rw [write, get_bind, h]
  rfl

theorem write_of_text {t : Text} (hcode : code.text? = some t)
    (h : s.files.write (code.text?.getD []) place = (files, none)) :
    write place code s = .ok () { s with files } := by
  rw [write, get_bind, h, hcode]
  rfl

theorem write_of_raw (hcode : code.text? = none)
    (h : s.files.write (code.text?.getD []) place = (files, none)) :
    write place code s = .error (.crash .unencodable) { s with files } := by
  rw [write, get_bind, h, hcode]
  rfl

end Write

/-- How the generation of a file may end: early, with the files as they were, or at code that is no
text, or with the file written. -/
inductive Ending (engine : TemplateEngine) (w : Workspace) (r : Request) (before : Tree) :
    EStateM.Result Stop Session Unit → Prop
  | early {e : Stop} {s' : Session} (hfiles : before.SameFiles s'.files)
      (hnone : ∀ code, Workspace.Delivers engine w r code → ¬ before.Accepts (w.target r)) :
      Ending engine w r before (.error e s')
  | emptied {s' : Session} {code : RawText} (hcode : Workspace.Delivers engine w r code)
      (hraw : code.text? = none) (hplace : before.Accepts (w.target r))
      (hfiles : Tree.Wrote [] (w.target r) before s'.files) :
      Ending engine w r before (.error (.crash .unencodable) s')
  | written {s' : Session} {code : Text}
      (hcode : Workspace.Delivers engine w r (.ofText code)) (hplace : before.Accepts (w.target r))
      (hfiles : Tree.Wrote code (w.target r) before s'.files) :
      Ending engine w r before (.ok () s')

/-- Nothing is written until there is code, and nothing ends the run once it is written. -/
theorem ending_generate (hw : w.root.IsProper) (engine : TemplateEngine) (r : Request)
    (s : Session) : Ending engine w r s.files (generate engine w r s) := by
  rcases keepsFiles_produce engine w r s with
    ⟨code, s₁, hproduce, hfiles₁⟩ | ⟨e, s₁, hproduce, hfiles₁⟩
  case inr =>
    rw [generate, bind_error hproduce]
    refine .early (.of_eq hfiles₁) fun code hcode => ?_
    obtain ⟨s₂, hok, -⟩ := yields_produce hw hcode s
    cases hproduce.symm.trans hok
  have hcode := delivers_of_produce hw hproduce
  rw [generate, bind_ok hproduce, ← hfiles₁]
  change Ending engine w r s₁.files ((write (w.target r) code >>= _) s₁)
  have heffect := Tree.writeEffect_write (code.text?.getD []) s₁.files (w.target r)
  have hdone := Tree.write_snd_eq_none_iff (code.text?.getD []) s₁.files (w.target r)
  rcases hwrite : s₁.files.write (code.text?.getD []) (w.target r) with ⟨files, fault⟩
  rw [hwrite] at heffect hdone
  cases heffect with
  | fault hsame =>
    rw [bind_error (write_of_fault hwrite)]
    exact .early hsame fun _ _ hplace => nomatch hdone.mpr hplace
  | done hwrote =>
    have hplace := hdone.mp rfl
    cases htext : code.text? with
    | none =>
      rw [bind_error (write_of_raw htext hwrite)]
      rw [htext] at hwrote
      exact .emptied hcode htext hplace hwrote
    | some t =>
      -- What is left of the run can neither fail nor touch the file.
      obtain ⟨s₂, hconclude, hfiles₂⟩ :=
        yields_conclude r.verbose (w.resolve r.output) code { s₁ with files }
      rw [bind_ok (write_of_text htext hwrite), hconclude]
      rw [htext] at hwrote
      rw [RawText.text?_eq_some_iff] at htext
      exact .written (htext ▸ hcode) hplace (hfiles₂ ▸ hwrote)

end Run

namespace Outcome

theorem ofRun_of_ok {files : Tree} {x : Run Unit} {s : Session} (h : x { files } = .ok () s) :
    (ofRun files x).exitCode = 0 ∧ (ofRun files x).crash = none ∧
      (ofRun files x).files = s.files := by
  rw [ofRun, h]
  exact ⟨rfl, rfl, rfl⟩

theorem ofRun_of_error {files : Tree} {x : Run Unit} {e : Stop} {s : Session}
    (h : x { files } = .error e s) :
    (ofRun files x).exitCode ≠ 0 ∧ (ofRun files x).files = s.files ∧
      ∀ c, e = .crash c → (ofRun files x).crash = some c := by
  rw [ofRun, h]
  cases e with
  | failure => exact ⟨Nat.one_ne_zero, rfl, nofun⟩
  | crash c =>
    refine ⟨Nat.one_ne_zero, rfl, ?_⟩
    rintro _ ⟨⟩
    rfl

theorem ofMisuse_fails (files : Tree) (usage : Text) (m : Misuse) :
    (ofMisuse files usage m).exitCode ≠ 0 ∧ (ofMisuse files usage m).files = files := by
  unfold ofMisuse
  split
  · exact ⟨Nat.one_ne_zero, rfl⟩
  · exact ⟨Nat.succ_ne_zero 1, rfl⟩

end Outcome

namespace Workspace

/-- Whether the command is asked for its help. -/
def showsHelp (arguments : List Text) : Bool :=
  match readArguments arguments with
  | .ok (given, _) => asksForHelp given
  | .error _ => false

/-- The request that the arguments of the command make. -/
def Requests (w : Workspace) (arguments : List Text) (r : Request) : Prop :=
  ∃ given extra, readArguments arguments = .ok (given, extra) ∧
    Request.ofGiven w given extra = .ok r

/-- How the command may end, unless it is asked for its help: it is refused, or it runs. -/
inductive CommandEnding (engine : TemplateEngine) (w : Workspace) (arguments : List Text) :
    Outcome → Prop
  | refused {o : Outcome} (hexit : o.exitCode ≠ 0) (hfiles : o.files = w.root)
      (hnone : ∀ r, ¬w.Requests arguments r) : CommandEnding engine w arguments o
  | ran {r : Request} (hrequest : w.Requests arguments r) :
      CommandEnding engine w arguments (.ofRun w.root (Run.generate engine w r))

theorem commandEnding_runGenerate (engine : TemplateEngine) (w : Workspace)
    {arguments : List Text} (hhelp : showsHelp arguments = false) :
    CommandEnding engine w arguments (w.runGenerate engine arguments) := by
  have hrefused (m : Misuse) :=
    Outcome.ofMisuse_fails w.root (Outcome.commandUsage ++ Outcome.commandHelp) m
  rw [showsHelp] at hhelp
  rw [runGenerate]
  cases hread : readArguments arguments with
  | error m =>
    refine .refused (hrefused m).1 (hrefused m).2 ?_
    rintro r ⟨given, extra, hok, -⟩
    cases hread.symm.trans hok
  | ok p =>
    obtain ⟨given, extra⟩ := p
    simp only [hread] at hhelp
    simp only [hhelp, Bool.false_eq_true, if_false]
    cases hrequest : Request.ofGiven w given extra with
    | error m =>
      refine .refused (hrefused m).1 (hrefused m).2 ?_
      rintro r ⟨given', extra', hok, hr⟩
      cases hread.symm.trans hok
      cases hrequest.symm.trans hr
    | ok r => exact .ran ⟨given, extra, hread, hrequest⟩

/-- The arguments make at most one request. -/
theorem Requests.unique {w : Workspace} {arguments : List Text} {r r' : Request}
    (h : w.Requests arguments r) (h' : w.Requests arguments r') : r = r' := by
  obtain ⟨given, extra, hread, hr⟩ := h
  obtain ⟨given', extra', hread', hr'⟩ := h'
  cases hread.symm.trans hread'
  cases hr.symm.trans hr'
  rfl

/-! ### Endings of the command -/

/-- How a run of the command ends. -/
inductive Ending (engine : TemplateEngine) (w : Workspace) (arguments : List Text) (o : Outcome) :
    Prop
  /-- There is no code, or no place for it: the run fails, and every file is as it was. -/
  | failed (hexit : o.exitCode ≠ 0) (hfiles : w.root.SameFiles o.files)
      (hnone : ∀ r code, w.Requests arguments r → Delivers engine w r code →
        ¬ w.root.Accepts (w.target r))
  /-- The code is no text: the run breaks off, and the file in its place is empty. -/
  | emptied {r : Request} {code : RawText} (hrequest : w.Requests arguments r)
      (hcode : Delivers engine w r code) (hraw : code.text? = none)
      (hplace : w.root.Accepts (w.target r)) (hexit : o.exitCode ≠ 0)
      (hcrash : o.crash = some .unencodable)
      (hfiles : Tree.Wrote [] (w.target r) w.root o.files)
  /-- The run succeeds, and the file in its place holds the code. -/
  | written {r : Request} {code : Text} (hrequest : w.Requests arguments r)
      (hcode : Delivers engine w r (.ofText code)) (hplace : w.root.Accepts (w.target r))
      (hexit : o.exitCode = 0) (hcrash : o.crash = none)
      (hfiles : Tree.Wrote code (w.target r) w.root o.files)

/-- The run has written its file, or left every file as it was. -/
structure AllOrNothing (engine : TemplateEngine) (w : Workspace) (arguments : List Text)
    (o : Outcome) : Prop where
  nothing : o.exitCode ≠ 0 ∨ o.crash ≠ none → w.root.SameFiles o.files
  all : o.exitCode = 0 → ∃ r code, w.Requests arguments r ∧ Delivers engine w r (.ofText code) ∧
    Tree.Wrote code (w.target r) w.root o.files

variable {engine : TemplateEngine} {w : Workspace} {arguments : List Text} {o : Outcome}

theorem ending_of_commandEnding (hw : w.root.IsProper) (h : CommandEnding engine w arguments o) :
    Ending engine w arguments o := by
  cases h with
  | refused hexit hfiles hnone =>
    exact .failed hexit (.of_eq hfiles) fun r _ hr => absurd hr (hnone r)
  | @ran r hrequest =>
    have hending := Run.ending_generate hw engine r { files := w.root }
    generalize hrun : Run.generate engine w r { files := w.root } = result at hending
    cases hending with
    | early hsame hnone =>
      obtain ⟨hexit, hfiles, -⟩ := Outcome.ofRun_of_error hrun
      refine .failed hexit (hfiles ▸ hsame) fun r' code hr' hcode => ?_
      cases hrequest.unique hr'
      exact hnone code hcode
    | emptied hcode hraw hplace hwrote =>
      obtain ⟨hexit, hfiles, hcrash⟩ := Outcome.ofRun_of_error hrun
      exact .emptied hrequest hcode hraw hplace hexit (hcrash _ rfl) (hfiles ▸ hwrote)
    | written hcode hplace hwrote =>
      obtain ⟨hexit, hcrash, hfiles⟩ := Outcome.ofRun_of_ok hrun
      exact .written hrequest hcode hplace hexit hcrash (hfiles ▸ hwrote)

/-- What a run has printed makes no difference to how it ends. -/
theorem Ending.withTranscript (h : Ending engine w arguments o) (transcript : Transcript) :
    Ending engine w arguments { o with transcript } := by
  cases h with
  | failed hexit hfiles hnone => exact .failed hexit hfiles hnone
  | emptied hrequest hcode hraw hplace hexit hcrash hfiles =>
    exact .emptied hrequest hcode hraw hplace hexit hcrash hfiles
  | written hrequest hcode hplace hexit hcrash hfiles =>
    exact .written hrequest hcode hplace hexit hcrash hfiles

/-- An emptied file is a trace, unless there was an empty file before. -/
theorem allOrNothing_iff (hw : w.root.IsProper) (h : Ending engine w arguments o) :
    AllOrNothing engine w arguments o ↔ ∀ r code, w.Requests arguments r →
      Delivers engine w r code → w.root.Accepts (w.target r) → code.text? = none →
        w.root.fileAt? (w.target r) = some [] := by
  cases h with
  | failed hexit hfiles hnone =>
    refine iff_of_true ⟨fun _ => hfiles, fun h => absurd h hexit⟩ ?_
    intro r code hr hcode hplace
    exact absurd hplace (hnone r code hr hcode)
  | @emptied r code hrequest hcode hraw hplace hexit hcrash hfiles =>
    have hempty : o.files.fileAt? (w.target r) = some [] := by
      rw [hfiles, if_pos rfl]
    constructor
    · intro h r' code' hr' _ _ _
      cases hrequest.unique hr'
      rw [← h.nothing (.inl hexit), hempty]
    · intro h
      refine ⟨fun _ place => ?_, fun h => absurd h hexit⟩
      rw [hfiles]
      split
      · rename_i hplace'
        rw [hplace', h r code hrequest hcode hplace hraw]
      · rfl
  | @written r code hrequest hcode hplace hexit hcrash hfiles =>
    refine iff_of_true ⟨?_, fun _ => ⟨r, code, hrequest, hcode, hfiles⟩⟩ ?_
    · rintro (h | h)
      · exact absurd hexit h
      · exact absurd hcrash h
    · intro r' code' hr' hcode' _ hraw
      cases hrequest.unique hr'
      rw [← Run.delivers_unique hw hcode hcode', RawText.text?_ofText] at hraw
      cases hraw

end Workspace

/-- **The file that a run writes.** A run of the command either fails and leaves every file as it
was, or writes the code that is generated from what its arguments name under the output path and
touches no other file. There is one more way to end, when the code is no text: the file has been
opened, and is left empty. So a run writes its file or nothing exactly if the code is a text, or
cannot be written anyway, or an empty file has been there before. -/
theorem run_files (engine : TemplateEngine) (w : Workspace) (hw : w.root.IsProper)
    (arguments : List Text) (hhelp : Workspace.showsHelp arguments = false) :
    Workspace.Ending engine w arguments (w.run engine ("generate" :: arguments)) ∧
    (Workspace.AllOrNothing engine w arguments (w.run engine ("generate" :: arguments)) ↔
      ∀ r code, w.Requests arguments r → Workspace.Delivers engine w r code →
        w.root.Accepts (w.target r) → code.text? = none →
          w.root.fileAt? (w.target r) = some []) := by
  have hcommand := Workspace.ending_of_commandEnding hw (w.commandEnding_runGenerate engine hhelp)
  have hending : Workspace.Ending engine w arguments (w.run engine ("generate" :: arguments)) :=
    hcommand.withTranscript _
  exact ⟨hending, Workspace.allOrNothing_iff hw hending⟩

namespace WrittenSample

/-- A schema, a query, a configuration by which the text of the query is not part of the code, and a
directory of templates. -/
def workspace (templates : List (Text × Tree)) : Workspace where
  root := .directory [
    ("schema.graphql", .file "type Query \x7b name: String \x7d"),
    ("find.graphql", .file "query Find \x7b name \x7d"),
    ("codegen.json", .file "\x7b\"documentMode\": \"external\"\x7d"),
    ("templates", .directory templates)]

/-- Asks for a file in a directory that is not there yet. -/
def arguments : List Text :=
  List.map String.toList
    ["-s", "schema.graphql", "-d", "find.graphql", "-c", "codegen.json", "--namespace", "Shop",
      "--template-dir", "templates", "-o", "out/Api.cs"]

/-- The arguments, option by option. -/
def given : List Given :=
  [.value .schema "schema.graphql", .value .documents "find.graphql",
    .value .config "codegen.json", .value .namespaceName "Shop", .value .templateDir "templates",
    .value .output "out/Api.cs"]

/-- What the arguments ask for. -/
def request : Request where
  schema := "schema.graphql"
  documents := "find.graphql"
  output := "out/Api.cs"
  config := some "codegen.json".toList
  templateDir := some "templates".toList
  overrides := ⟨some "Shop".toList, none, none⟩
  verbose := false

/-- The place of the file. -/
def place : List Text := ["out", "Api.cs"]

theorem isProper_workspace {name content : Text} (hname : Path.IsEntryName name) :
    (workspace [(name, .file content)]).root.IsProper := by
  have htemplates : (Tree.directory [(name, .file content)]).IsProper :=
    .directory (by simp) (by simpa using hname) (by simp [Tree.IsProper.file])
  have hdistinct : (List.map String.toList
      ["schema.graphql", "find.graphql", "codegen.json", "templates"]).Nodup := by decide
  have hnames : ∀ n ∈ List.map String.toList
      ["schema.graphql", "find.graphql", "codegen.json", "templates"], Path.IsEntryName n := by
    decide
  refine .directory hdistinct (fun e he => hnames e.1 (List.mem_map_of_mem he)) ?_
  simp [Tree.IsProper.file, htemplates]

/-- A template for the helpers. -/
def helpers : Text × Tree :=
  ("response_extensions.cs.j2", .file "// No helpers.\n")

/-- The parameters of the client's method. -/
def parameters : Text :=
  "(GraphQL.Client.Abstractions.IGraphQLClient client, ".toList ++
    "System.Threading.CancellationToken cancellationToken = default)".toList

/-- The code for the request. -/
def code : Text :=
  Text.unlines
    ["using System;",
      "using System.Collections.Generic;",
      "using System.Threading.Tasks;",
      "using System.Net.Http;",
      "using System.Net.Http.Headers;",
      "using Newtonsoft.Json;",
      "using GraphQL;",
      "using GraphQL.Client.Abstractions;",
      "",
      "namespace Shop \x7b",
      "  public interface IGraphQLClient \x7b",
      "    Task<GraphQLResponse<object>> FindAsync" ++ parameters ++ ";",
      "  \x7d",
      "",
      "  public class GraphQLClient : IGraphQLClient \x7b",
      "    public Task<GraphQLResponse<object>> FindAsync" ++ parameters ++ " \x7b",
      "      var gqlRequest = new GraphQLRequest \x7b",
      "        Query = Operations.Find,",
      "        OperationName = \"Find\"",
      "      \x7d;",
      "      return client.SendQueryAsync<object>(gqlRequest, cancellationToken);",
      "    \x7d",
      "  \x7d",
      "",
      "  // No helpers.",
      "\x7d",
      ""]

/-- The run ends well, and this is the file that it has written. -/
theorem out_written :
    (workspace [helpers]).root.IsProper ∧ Workspace.showsHelp arguments = false ∧
    ((workspace [helpers]).run .plain ("generate" :: arguments)).exitCode = 0 ∧
    (workspace [helpers]).Requests arguments request ∧
    Workspace.Delivers .plain (workspace [helpers]) request (.ofText code) ∧
    Tree.Wrote code place (workspace [helpers]).root
      ((workspace [helpers]).run .plain ("generate" :: arguments)).files := by
  have hproper : (workspace [helpers]).root.IsProper := isProper_workspace (by decide)
  have hhelp : Workspace.showsHelp arguments = false := by decide +kernel
  have hending := (run_files .plain (workspace [helpers]) hproper arguments hhelp).1
  have hrequests : (workspace [helpers]).Requests arguments request :=
    ⟨given, [], by decide +kernel, by decide +kernel⟩
  have htarget : (workspace [helpers]).target request = place := by decide +kernel
  have hbefore : (workspace [helpers]).root.fileAt? place = none := by decide
  have hafter : ((workspace [helpers]).run .plain ("generate" :: arguments)).files.fileAt? place =
      some code := by decide +kernel
  cases hending with
  | failed _ hfiles =>
    rw [hfiles, hbefore] at hafter
    cases hafter
  | emptied hrequest _ _ _ _ _ hfiles =>
    cases hrequests.unique hrequest
    rw [htarget] at hfiles
    rw [hfiles, if_pos rfl] at hafter
    cases hafter
  | written hrequest hcode _ hexit _ hfiles =>
    cases hrequests.unique hrequest
    rw [htarget] at hfiles
    rw [hfiles, if_pos rfl] at hafter
    cases hafter
    exact ⟨hproper, hhelp, hexit, hrequests, hcode, hfiles⟩

/-- A template for the file that is a surrogate. -/
def surrogate : Text × Tree :=
  ("operations.cs.j2", .file "\x7b\x7b \"\\ud800\" \x7d\x7d")

/-- A run that fails may leave a file behind: when the code is no text, its file has been made by
the time this shows. -/
theorem not_always_allOrNothing :
    ¬∀ (engine : TemplateEngine) (w : Workspace), w.root.IsProper → ∀ arguments,
      Workspace.showsHelp arguments = false →
        Workspace.AllOrNothing engine w arguments (w.run engine ("generate" :: arguments)) := by
  intro h
  have hproper : (workspace [surrogate]).root.IsProper := isProper_workspace (by decide)
  have hnothing := (h .plain (workspace [surrogate]) hproper arguments (by decide +kernel)).nothing
  generalize hrun : (workspace [surrogate]).run .plain ("generate" :: arguments) = o at hnothing
  obtain ⟨hexit, hmade⟩ : o.exitCode ≠ 0 ∧ o.files.fileAt? place = some [] := by
    rw [← hrun]
    decide +kernel
  have hsame := hnothing (.inl hexit) place
  have hbefore : (workspace [surrogate]).root.fileAt? place = none := by decide
  rw [hmade, hbefore] at hsame
  cases hsame

end WrittenSample

end SharpClient
