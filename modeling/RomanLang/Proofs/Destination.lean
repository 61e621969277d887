import RomanLang.Command
import RomanLang.Proofs.Productions.Statement

/-! Where the output goes. Everything in a command that can fail comes before the first step that changes the
world, so a command that fails prints nothing and leaves the files as they were. One that stores its output
changes the entry to which the path leads, and no other; what it stores is what it would have printed. Storing a
file changes no directory, so every path to it leads on where it led before. -/

namespace RomanLang

/-! ### Writing files -/

namespace Files

open Parse (bind_eq_ok_iff pure_eq_ok_iff)

/-- The key of the entry to which a path leads. -/
def keyAt (files : Files) (working : Place) (path : String) : Except FileFault String := do
  match ← files.target working path with
  | .directory _ => .error .isDirectory
  | .name place name => keyOf place name

/-- The entry to which the path leads is all that has changed, and the path reads what it holds. -/
structure Stores (before after : Files) (working : Place) (path : String) (content : List UInt8) : Prop where
  entry : ∃ key, before.keyAt working path = .ok key ∧
    ∀ other, after.lookup other = if other = key then some (.file content) else before.lookup other
  read : (after.readable working path).map after.content = .ok content

variable {files : Files} {path key : String} {working place final : Place} {t : Target}

/-- A path that leads through directories still does when something else is stored. -/
theorem follow_put (hkey : files.lookup key ≠ some .directory) (content : List UInt8) {parts : List String}
    (h : files.follow place parts = .ok final) : (files.put key content).follow place parts = .ok final := by
  induction parts generalizing place with
  | nil => exact h
  | cons part rest ih =>
    rw [follow] at h ⊢
    split_ifs at h ⊢ with hrelative hlong
    · exact ih h
    · cases hentry : files.lookup (place.enter part).key with
      | none => simp [hentry] at h
      | some entry =>
        cases entry with
        | file => simp [hentry] at h
        | directory =>
          have hother : (place.enter part).key ≠ key := fun heq => hkey (heq ▸ hentry)
          simp only [hentry] at h
          simp only [lookup_put, if_neg hother, hentry]
          exact ih h

theorem target_put (hkey : files.lookup key ≠ some .directory) (content : List UInt8)
    (h : files.target working path = .ok t) : (files.put key content).target working path = .ok t := by
  have hfollow : ∀ {parts} {f : Place → Target}, (files.follow (Place.start working path) parts).map f = .ok t →
      ((files.put key content).follow (Place.start working path) parts).map f = .ok t := by
    intro parts f hmap
    obtain ⟨place, hplace, hf⟩ := map_eq_ok_iff.mp hmap
    exact map_eq_ok_iff.mpr ⟨place, follow_put hkey content hplace, hf⟩
  rw [target] at h ⊢
  split_ifs at h ⊢
  simp only at h ⊢
  split at h <;> exact hfollow h

/-- What it takes to open a file to be written. -/
theorem writable_cases (h : files.writable working path = .ok key) :
    ∃ place name, files.target working path = .ok (.name place name) ∧ keyOf place name = .ok key ∧
      Place.endsInSlash path = false ∧ files.lookup key ≠ some .directory := by
  obtain ⟨t, htarget, h⟩ := bind_eq_ok_iff.mp h
  cases t with
  | directory place => cases h
  | name place name =>
    simp only at h
    split_ifs at h with hslash
    obtain ⟨key', hkey, h⟩ := bind_eq_ok_iff.mp h
    split_ifs at h with hdirectory
    obtain rfl := pure_eq_ok_iff.mp h
    exact ⟨place, name, htarget, hkey, by simpa using hslash, hdirectory⟩

theorem stores_of_writable (h : files.writable working path = .ok key) (content : List UInt8) :
    files.Stores (files.put key content) working path content := by
  obtain ⟨place, name, htarget, hkey, hslash, hdirectory⟩ := writable_cases h
  have hlookup : (files.put key content).lookup key = some (.file content) := by rw [lookup_put, if_pos rfl]
  refine ⟨⟨key, bind_eq_ok_iff.mpr ⟨_, htarget, hkey⟩, lookup_put files key content⟩, ?_⟩
  refine map_eq_ok_iff.mpr ⟨key, ?_, content_put files key content⟩
  refine bind_eq_ok_iff.mpr ⟨_, target_put hdirectory content htarget, bind_eq_ok_iff.mpr ⟨key, hkey, ?_⟩⟩
  simp only [hlookup, hslash, Bool.false_eq_true, if_false, pure_eq_ok_iff]

end Files

/-! ### Steps -/

namespace Command

namespace Action

variable {α β : Type}

/-- A failure leaves the world as it was. -/
def Clean (x : Action α) : Prop :=
  ∀ w failure after, x w = .error failure after → after = w

/-- Success leaves the world as it was. -/
def Still (x : Action α) : Prop :=
  ∀ w a after, x w = .ok a after → after = w

/-- No failure is possible. -/
def Sure (x : Action α) : Prop :=
  ∀ w failure after, x w ≠ .error failure after

variable {x : Action α} {f : α → Action β}

theorem run_modify (f : World → World) (w : World) : (modify f : Action PUnit) w = .ok () (f w) :=
  rfl

theorem run_pure (a : α) (w : World) : (pure a : Action α) w = .ok a w :=
  rfl

theorem bind_eq_ok_iff {w after : World} {b : β} :
    (x >>= f) w = .ok b after ↔ ∃ a mid, x w = .ok a mid ∧ f a mid = .ok b after := by
  simp only [bind, EStateM.bind]
  cases x w <;> simp [and_assoc]

theorem bind_eq_error_iff {w after : World} {failure : Failure} :
    (x >>= f) w = .error failure after ↔
      x w = .error failure after ∨ ∃ a mid, x w = .ok a mid ∧ f a mid = .error failure after := by
  simp only [bind, EStateM.bind]
  cases x w <;> simp [and_assoc]

/-- A step that changes nothing may be followed by one that fails. -/
theorem Clean.bind (hx : Clean x) (hstill : Still x) (hf : ∀ a, Clean (f a)) : Clean (x >>= f) := by
  intro w failure after h
  obtain hfailed | ⟨a, mid, hdone, hfailed⟩ := bind_eq_error_iff.mp h
  · exact hx w failure after hfailed
  · rw [hstill w a mid hdone] at hfailed
    exact hf a w failure after hfailed

theorem Sure.bind (hx : Sure x) (hf : ∀ a, Sure (f a)) : Sure (x >>= f) := by
  intro w failure after h
  obtain hfailed | ⟨a, mid, -, hfailed⟩ := bind_eq_error_iff.mp h
  · exact hx w failure after hfailed
  · exact hf a mid failure after hfailed

/-- A step that changes something is followed by steps that do not fail. -/
theorem Clean.bind_sure (hx : Clean x) (hf : ∀ a, Sure (f a)) : Clean (x >>= f) := by
  intro w failure after h
  obtain hfailed | ⟨a, mid, -, hfailed⟩ := bind_eq_error_iff.mp h
  · exact hx w failure after hfailed
  · exact absurd hfailed (hf a mid failure after)

theorem Sure.clean (hx : Sure x) : Clean x :=
  fun w failure after h => absurd h (hx w failure after)

theorem sure_modify (f : World → World) : Sure (modify f : Action PUnit) := by
  intro w failure after h
  rw [run_modify] at h
  cases h

theorem sure_pure (a : α) : Sure (pure a : Action α) := by
  intro w failure after h
  rw [run_pure] at h
  cases h

end Action

open RomanLang.Command.Action

variable {o : Options} {host : Host} {files : Files} {source path text : String} {lines : List String} {w after : World}

section Look
variable {α : Type} {see : Files → Except Failure α} {a : α}

theorem look_eq_ok_iff : look see w = .ok a after ↔ see w.files = .ok a ∧ w = after := by
  rw [look]
  cases see w.files <;> simp

theorem clean_look : Clean (look see) := by
  intro w failure after h
  rw [look] at h
  split at h <;> cases h
  rfl

theorem still_look : Still (look see) :=
  fun _ _ _ h => (look_eq_ok_iff.mp h).2.symm

end Look

theorem sure_print : Sure (print text) :=
  sure_modify _

theorem sure_write {key : String} : Sure (write key text) :=
  sure_modify _

/-- Opening a file is the step that may fail, and what it changes comes last in it. -/
theorem clean_openToWrite : Clean (openToWrite host path) :=
  clean_look.bind still_look fun key => ((sure_modify _).bind fun _ => sure_pure key).clean

theorem clean_deliver : Clean (deliver o text) := by
  rw [deliver]
  split
  · exact sure_print.clean
  · exact clean_openToWrite.bind_sure fun _ => sure_write.bind fun _ => sure_print

/-- Nothing fails behind the first step that changes the world. -/
theorem clean_run : Clean (run o source) :=
  clean_look.bind still_look fun text => clean_deliver.bind_sure fun _ => sure_pure text

/-! ### Commands -/

theorem execute_source (hrepl : o.repl = false) (hsource : o.source = some source) :
    execute o files lines = (run o source).outcome files := by
  simp [execute, hrepl, hsource]

theorem outcome_failed {α : Type} {x : Action α} (hx : Clean x) (h : (x.outcome files).status ≠ 0) :
    (x.outcome files).files = files ∧ (x.outcome files).stdout = "" := by
  rw [Action.outcome] at h ⊢
  cases hw : x ⟨files, ""⟩ with
  | ok a after => simp [hw] at h
  | error failure after => simp [hx _ _ _ hw]

theorem execute_failed (h : (execute o files lines).status ≠ 0) :
    (execute o files lines).files = files ∧ (execute o files lines).stdout = "" := by
  rw [execute] at h ⊢
  split at h
  · exact absurd rfl h
  · exact outcome_failed clean_run h

/-- An invocation that fails, be it for its arguments, prints nothing and leaves the files as they were. -/
theorem invoke_failed {arguments : List String} (h : (invoke arguments files lines).status ≠ 0) :
    (invoke arguments files lines).files = files ∧ (invoke arguments files lines).stdout = "" := by
  rw [invoke] at h ⊢
  split_ifs at h ⊢
  · exact absurd rfl h
  · generalize Options.ofArguments arguments = read at h ⊢
    cases read with
    | ok o => exact execute_failed h
    | error refusal =>
      cases refusal with
      | help => exact absurd rfl h
      | fault fault => exact ⟨rfl, rfl⟩
      | depthMissing => exact ⟨rfl, rfl⟩

/-! ### Two runs -/

/-- Without an output nothing is done. -/
theorem run_failed {failure : Failure} (h : output o w.files source = .error failure) :
    run o source w = .error failure w := by
  refine bind_eq_error_iff.mpr (.inl ?_)
  rw [look, h]

/-- Without a path the output is printed. -/
theorem run_unstored (hout : o.out = none) (h : output o w.files source = .ok text) :
    run o source w = .ok text { w with stdout := w.stdout ++ (text ++ "\n") } := by
  refine bind_eq_ok_iff.mpr ⟨text, w, look_eq_ok_iff.mpr ⟨h, rfl⟩, ?_⟩
  rw [deliver, hout]
  rfl

theorem openToWrite_eq_ok {key : String} (h : openToWrite host path w = .ok key after) :
    fileToWrite host w.files path = .ok key ∧ after = { w with files := w.files.put key [] } := by
  obtain ⟨found, mid, hlook, h⟩ := bind_eq_ok_iff.mp h
  obtain ⟨hfound, rfl⟩ := look_eq_ok_iff.mp hlook
  cases h
  exact ⟨hfound, rfl⟩

/-- A path gets the text, and a line tells so. -/
theorem deliver_stored {u : Unit} (hout : o.out = some path) (hpath : path ≠ "")
    (h : deliver o text w = .ok u after) :
    ∃ key, fileToWrite o.host w.files path = .ok key ∧
      after = ⟨w.files.put key (utf8 (text ++ "\n")), w.stdout ++ ("[ok] >>> wrote " ++ path ++ "\n")⟩ := by
  have hfilter : o.out.filter (!·.isEmpty) = some path := by simp [hout, hpath]
  rw [deliver, hfilter] at h
  obtain ⟨key, mid, hopen, h⟩ := bind_eq_ok_iff.mp h
  obtain ⟨hkey, rfl⟩ := openToWrite_eq_ok hopen
  obtain ⟨u, mid, hwrite, h⟩ := bind_eq_ok_iff.mp h
  cases hwrite
  cases h
  exact ⟨key, hkey, by simp only [Files.append_put_nil]⟩

theorem run_stored (hout : o.out = some path) (hpath : path ≠ "") (h : run o source w = .ok text after) :
    output o w.files source = .ok text ∧ ∃ key, fileToWrite o.host w.files path = .ok key ∧
      after = ⟨w.files.put key (utf8 (text ++ "\n")), w.stdout ++ ("[ok] >>> wrote " ++ path ++ "\n")⟩ := by
  obtain ⟨out, mid, hlook, h⟩ := bind_eq_ok_iff.mp h
  obtain ⟨houtput, rfl⟩ := look_eq_ok_iff.mp hlook
  obtain ⟨u, mid, hdeliver, h⟩ := bind_eq_ok_iff.mp h
  cases h
  exact ⟨houtput, deliver_stored hout hpath hdeliver⟩

theorem fileToWrite_eq_ok {key : String} (h : fileToWrite host files path = .ok key) :
    files.writable host.working path = .ok key := by
  rw [fileToWrite, fileToOpen] at h
  split_ifs at h
  obtain ⟨found, hfound, h⟩ := Parse.bind_eq_ok_iff.mp h
  split_ifs at h
  cases h
  exact mapError_eq_ok_iff.mp hfound

/-- A failed command leaves no trace, and neither do faulty arguments. One that is given a path for its output, and
succeeds, stores there what it prints without the path, changes nothing else, and prints a line that tells so. -/
theorem execute_destination (o : Options) (files : Files) (lines : List String) (source : String)
    (hrepl : o.repl = false) (hsource : o.source = some source) :
    ((execute o files lines).status ≠ 0 →
        (execute o files lines).files = files ∧ (execute o files lines).stdout = "") ∧
      (∀ path, o.out = some path → path ≠ "" → (execute o files lines).status = 0 →
        (execute { o with out := none } files lines).status = 0 ∧
          files.Stores (execute o files lines).files o.host.working path
            (utf8 (execute { o with out := none } files lines).stdout) ∧
          (execute o files lines).stdout = "[ok] >>> wrote " ++ path ++ "\n") ∧
      ∀ arguments, (invoke arguments files lines).status ≠ 0 →
        (invoke arguments files lines).files = files ∧ (invoke arguments files lines).stdout = "" := by
  refine ⟨execute_failed, fun path hout hpath hstatus => ?_, fun arguments => invoke_failed⟩
  rw [execute_source hrepl hsource, Action.outcome] at hstatus ⊢
  rw [execute_source (o := { o with out := none }) hrepl hsource, Action.outcome]
  cases hrun : run o source ⟨files, ""⟩ with
  | error failure after => simp [hrun] at hstatus
  | ok text after =>
    obtain ⟨houtput, key, hkey, rfl⟩ := run_stored hout hpath hrun
    have hplain : run { o with out := none } source ⟨files, ""⟩ = .ok text ⟨files, "" ++ (text ++ "\n")⟩ :=
      run_unstored rfl houtput
    rw [hplain]
    simp only [String.empty_append]
    exact ⟨trivial, Files.stores_of_writable (fileToWrite_eq_ok hkey) _, trivial⟩

namespace Destination

/-- The files below `/w`, where the command runs. -/
def folder : Files :=
  [("/w", .directory), ("/w/a.rim", .file (utf8 "x;")), ("/w/b", .directory)]

/-- The tree of `a.rim`, in text. -/
def tree : Options :=
  ⟨some "a.rim", false, .text, none, false, 64, false, { Host.usual with working := ⟨true, ["w"]⟩ }⟩

/-- The tree of `a.rim` goes to the file itself, under another name. -/
def onto : Options :=
  { tree with out := some "/w/b/../a.rim" }

/-- The same where the file may not be written. -/
def guarded : Options :=
  { onto with host := { onto.host with unwritable := ["/w/a.rim"] } }

end Destination

open Destination in
/-- The output takes the place of the source, whatever name it goes by. -/
theorem execute_destination_itself :
    (folder.Stores (execute onto folder []).files ⟨true, ["w"]⟩ "/w/b/../a.rim" (utf8 "E\n  E\n    x\n") ∧
        (execute onto folder []).files.lookup "/w/a.rim" = some (.file (utf8 "E\n  E\n    x\n")) ∧
        (execute onto folder []).stdout = "[ok] >>> wrote /w/b/../a.rim\n") ∧
      ((execute guarded folder []).files = folder ∧ (execute guarded folder []).stdout = "" ∧
        (execute guarded folder []).stderr = "[error] >>> [Errno 13] Permission denied: '/w/b/../a.rim'\n") ∧
      (invoke ["-s", "x + y", "-o", "/w/b"] folder []).files = folder ∧
        (invoke ["-s", "x + y", "-o", "/w/b"] folder []).stdout = "" := by
  have hplain : (execute tree folder []).stdout = "E\n  E\n    x\n" := by decide +kernel
  obtain ⟨-, hstored, hinvoked⟩ := execute_destination onto folder [] "a.rim" rfl rfl
  obtain ⟨-, hstores, hline⟩ := hstored _ rfl (by decide) (by decide +kernel)
  rw [show { onto with out := none } = tree from rfl, hplain] at hstores
  obtain ⟨hfiles, hstdout⟩ := (execute_destination guarded folder [] "a.rim" rfl rfl).1 (by decide +kernel)
  exact ⟨⟨hstores, by decide +kernel, hline⟩, ⟨hfiles, hstdout, by decide +kernel⟩, hinvoked _ (by decide +kernel)⟩

end Command

end RomanLang
