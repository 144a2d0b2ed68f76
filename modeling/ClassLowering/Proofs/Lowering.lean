import ClassLowering.Lowering
import ClassLowering.Proofs.Outcome

/-!
# What a run leaves behind

A run builds its trees, and then renders and writes one file after the other. The files are those of
the single stages, in the same order: a run that ends well has written the text of every stage, and
one that fails has written the texts of the stages before the first that has no text or no place to
go. Nothing is assumed of the file system but that a write that is not possible changes nothing.
-/

set_option autoImplicit false

namespace ClassLowering.Lowering

/-- The files of a lowering, in order: the path of each, and the text that its stage gives. -/
def stages (t : Lowering) : List (String × Except Fault String) :=
  (t.settings.headerPath, t.headerText)
    :: (t.settings.implementationPath, t.implementationText)
    :: match t.settings.entry.mainClass with
      | some mainClass => [(t.settings.entryPointPath, t.entryText mainClass)]
      | none => []

def produced (file : String × String) : String × Except Fault String := (file.1, .ok file.2)

theorem produced_injective : ∀ f g, produced f = produced g → f = g := by
  rintro ⟨p, s⟩ ⟨q, t⟩ h
  simpa [produced] using h

def Job.stage (settings : Settings) (job : Job) : String × Except Fault String :=
  (job.path, render settings job.artifact job.tree)

/-! ## Trees before texts -/

theorem entryTree_eq_ok {t : Lowering} {c : String} {tree : Tree} (h : t.entryTree c = .ok tree) :
    t.hierarchy.classes.contains c = true := by
  unfold entryTree Hierarchy.entryUnit at h
  split at h
  · assumption
  · cases h

theorem jobs_eq_ok {t : Lowering} {js : List Job} (h : t.jobs = .ok js) :
    t.stages = js.map (Job.stage t.settings) ∧
    (∃ tree, t.headerTree = .ok tree) ∧ (∃ tree, t.implementationTree = .ok tree) ∧
    ∀ c, t.settings.entry.mainClass = some c → t.hierarchy.classes.contains c = true := by
  obtain ⟨header, hh, h⟩ := bind_eq_ok.mp h
  obtain ⟨implementation, hi, h⟩ := bind_eq_ok.mp h
  simp only [stages, headerText, implementationText, hh, hi]
  cases hm : t.settings.entry.mainClass with
  | none =>
    simp only [hm] at h
    rw [← pure_eq_ok.mp h]
    exact ⟨rfl, ⟨_, rfl⟩, ⟨_, rfl⟩, by simp⟩
  | some mainClass =>
    simp only [hm] at h
    obtain ⟨entry, he, h⟩ := bind_eq_ok.mp h
    rw [← pure_eq_ok.mp h]
    simp only [entryText, he]
    refine ⟨rfl, ⟨_, rfl⟩, ⟨_, rfl⟩, ?_⟩
    rintro c ⟨⟩
    exact entryTree_eq_ok he

theorem exists_jobs {t : Lowering} {header implementation : Tree}
    (hh : t.headerTree = .ok header) (hi : t.implementationTree = .ok implementation)
    (he : ∀ c, t.settings.entry.mainClass = some c → ∃ tree, t.entryTree c = .ok tree) :
    ∃ js, t.jobs = .ok js := by
  unfold jobs
  cases hm : t.settings.entry.mainClass with
  | none => simp [hh, hi, hm]
  | some mainClass =>
    obtain ⟨entry, he⟩ := he mainClass hm
    simp [hh, hi, hm, he]

theorem exists_jobs_of_stages {t : Lowering} {texts : List (String × String)}
    (h : t.stages = texts.map produced) : ∃ js, t.jobs = .ok js := by
  have all : ∀ stage ∈ t.stages, ∃ text, stage.2 = .ok text := by
    intro stage hs
    rw [h] at hs
    obtain ⟨file, -, rfl⟩ := List.mem_map.mp hs
    exact ⟨file.2, rfl⟩
  obtain ⟨_, hheader⟩ := all _ (.head _)
  obtain ⟨_, himplementation⟩ := all _ (.tail _ (.head _))
  obtain ⟨header, hh, -⟩ := bind_eq_ok.mp hheader
  obtain ⟨implementation, hi, -⟩ := bind_eq_ok.mp himplementation
  apply exists_jobs hh hi
  intro c hm
  obtain ⟨_, hentry⟩ := all (t.settings.entryPointPath, t.entryText c) (by simp [stages, hm])
  obtain ⟨entry, he, -⟩ := bind_eq_ok.mp hentry
  exact ⟨entry, he⟩

/-! ## Programs on files -/

section Files

variable {σ : Type}

def onFiles {α : Type} (program : ExceptT Fault (StateM σ) α) (files : σ) : Except Fault α × σ :=
  program.run.run files

theorem onFiles_bind {α β : Type} (x : ExceptT Fault (StateM σ) α)
    (f : α → ExceptT Fault (StateM σ) β) (files : σ) :
    onFiles (x >>= f) files =
      match onFiles x files with
      | (.ok a, files) => onFiles (f a) files
      | (.error e, files) => (.error e, files) := by
  simp only [onFiles, ExceptT.run_bind, StateT.run_bind]
  rcases x.run.run files with ⟨_ | _, _⟩ <;> rfl

variable [FileSystem σ]

theorem onFiles_write (path text : String) (files : σ) :
    onFiles (liftM (Storage.write path text : StateM σ Bool)) files =
      match FileSystem.write? files path text with
      | some files => (.ok true, files)
      | none => (.ok false, files) := by
  change onFiles (liftM (match FileSystem.write? files path text with
    | some files => do
      set files
      return true
    | none => return false : StateM σ Bool)) files = _
  cases FileSystem.write? files path text with
  | none => rfl
  | some files => rfl

theorem onFiles_run (t : Lowering) (files : σ) :
    onFiles t.run files =
      match t.jobs with
      | .ok js => onFiles
          (js.mapM fun job => writeTree t.settings job.artifact job.tree job.path) files
      | .error e => (.error e, files) := by
  unfold run
  rw [onFiles_bind]
  cases t.jobs with
  | ok js => rfl
  | error e => rfl

/-! ## Writing one file after the other -/

def writeAll (files : σ) : List (String × String) → Option σ
  | [] => some files
  | file :: rest => do writeAll (← FileSystem.write? files file.1 file.2) rest

theorem writeAll_append (files : σ) (done rest : List (String × String)) :
    writeAll files (done ++ rest) = (writeAll files done).bind (writeAll · rest) := by
  induction done generalizing files with
  | nil => rfl
  | cons file done ih =>
    simp only [List.cons_append, writeAll]
    cases FileSystem.write? files file.1 file.2 with
    | none => rfl
    | some files => exact ih files

def Writable (files : σ) (rest : List (String × Except Fault String)) : Prop :=
  ∃ texts final, rest = texts.map produced ∧ writeAll files texts = some final

theorem not_writable_of_error (files : σ) (path : String) (e : Fault)
    (rest : List (String × Except Fault String)) : ¬Writable files ((path, .error e) :: rest) := by
  rintro ⟨texts, final, hs, -⟩
  obtain ⟨file, -, -, hf, -⟩ := List.map_eq_cons_iff.mp hs.symm
  simp [produced] at hf

theorem not_writable_of_none {files : σ} {path text : String}
    (h : FileSystem.write? files path text = none) (rest : List (String × Except Fault String)) :
    ¬Writable files ((path, .ok text) :: rest) := by
  rintro ⟨texts, final, hs, hw⟩
  obtain ⟨file, texts, rfl, hf, -⟩ := List.map_eq_cons_iff.mp hs.symm
  obtain rfl := produced_injective file (path, text) hf
  simp [writeAll, h] at hw

theorem onFiles_job (settings : Settings) (job : Job) (files : σ) :
    (∃ text files', job.stage settings = produced (job.path, text) ∧
      FileSystem.write? files job.path text = some files' ∧
      onFiles (writeTree settings job.artifact job.tree job.path) files = (.ok job.path, files')) ∨
    (∀ rest, ¬Writable files (job.stage settings :: rest)) ∧
      ∃ e, onFiles (writeTree settings job.artifact job.tree job.path) files =
        (.error e, files) := by
  unfold writeTree writeFile Job.stage
  rw [onFiles_bind]
  cases hr : render settings job.artifact job.tree with
  | error e => exact .inr ⟨not_writable_of_error files job.path e, e, rfl⟩
  | ok text =>
    change (∃ _ _, _ ∧ _ ∧ onFiles (_ >>= _) files = _) ∨ _ ∧ ∃ e, onFiles (_ >>= _) files = _
    simp only [onFiles_bind, onFiles_write]
    cases hw : FileSystem.write? files job.path text with
    | none => exact .inr ⟨not_writable_of_none hw, _, rfl⟩
    | some files' => exact .inl ⟨text, files', rfl, hw, rfl⟩

/-- A run of some jobs writes their stages in order, up to the first that has no text or cannot be
written. -/
theorem onFiles_jobs (settings : Settings) (js : List Job) (files : σ) :
    ∃ done rest files', js.map (Job.stage settings) = done.map produced ++ rest ∧
      writeAll files done = some files' ∧
      let outcome := onFiles
        (js.mapM fun job => writeTree settings job.artifact job.tree job.path) files
      (rest = [] ∧ outcome = (.ok (done.map Prod.fst), files') ∨
        ¬Writable files' rest ∧ ∃ e, outcome = (.error e, files')) := by
  induction js generalizing files with
  | nil => exact ⟨[], [], files, rfl, rfl, .inl ⟨rfl, rfl⟩⟩
  | cons job js ih =>
    rw [List.mapM_cons, onFiles_bind]
    rcases onFiles_job settings job files with ⟨text, files₁, hs, hw, hrun⟩ | ⟨hn, e, hrun⟩
    · obtain ⟨done, rest, files₂, hd, hall, hout⟩ := ih files₁
      have written : writeAll files ((job.path, text) :: done) = some files₂ := by
        simp [writeAll, hw, hall]
      refine ⟨(job.path, text) :: done, rest, files₂, by simp [hs, hd], written, ?_⟩
      simp only [hrun, onFiles_bind]
      rcases hout with ⟨hr, hout⟩ | ⟨hr, e, hout⟩
      · rw [hout]
        exact .inl ⟨hr, rfl⟩
      · rw [hout]
        exact .inr ⟨hr, e, rfl⟩
    · refine ⟨[], _, files, rfl, rfl, .inr ⟨hn _, e, ?_⟩⟩
      rw [hrun]

/-- A run stops after some of its stages: after all of them, or where the rest cannot be written.
It has not begun if its trees are not there. -/
theorem onFiles_run_stops (t : Lowering) (files : σ) :
    ∃ done rest files', t.stages = done.map produced ++ rest ∧
      writeAll files done = some files' ∧
      (rest = [] ∧ onFiles t.run files = (.ok (done.map Prod.fst), files') ∨
        ¬Writable files' rest ∧ ((∃ js, t.jobs = .ok js) ∨ done = []) ∧
          ∃ e, onFiles t.run files = (.error e, files')) := by
  rw [onFiles_run]
  cases hj : t.jobs with
  | error e =>
    refine ⟨[], t.stages, files, rfl, rfl, .inr ⟨?_, .inr rfl, e, rfl⟩⟩
    rintro ⟨texts, -, hs, -⟩
    obtain ⟨js, h⟩ := exists_jobs_of_stages hs
    rw [hj] at h
    cases h
  | ok js =>
    obtain ⟨done, rest, files', hs, hw, hout⟩ := onFiles_jobs t.settings js files
    rw [← (jobs_eq_ok hj).1] at hs
    refine ⟨done, rest, files', hs, hw, ?_⟩
    rcases hout with hout | ⟨hr, e, hout⟩
    · exact .inl hout
    · exact .inr ⟨hr, .inl ⟨js, rfl⟩, e, hout⟩

/-- A run ends well exactly if every stage has a text and every text can be written, and then the
files are written in the order of the stages. A run that fails has written some of the first stages
but not all, and none of them if a tree cannot be built or the main class is not registered. -/
theorem run_writes_stages (t : Lowering) (files : σ) :
    (∀ paths files', onFiles t.run files = (.ok paths, files') ↔
      ∃ texts, t.stages = texts.map produced ∧ writeAll files texts = some files' ∧
        paths = texts.map Prod.fst) ∧
    ∀ e files', onFiles t.run files = (.error e, files') →
      ∃ done, done.map produced <+: t.stages ∧ done.length < t.stages.length ∧
        writeAll files done = some files' ∧
        ((∃ e, t.headerTree = .error e) ∨ (∃ e, t.implementationTree = .error e) ∨
          (∃ c, t.settings.entry.mainClass = some c ∧ t.hierarchy.classes.contains c = false) →
          done = []) := by
  obtain ⟨done, rest, files₁, hs, hw, ⟨rfl, hout⟩ | ⟨hr, hbuilt, fault, hout⟩⟩ :=
    onFiles_run_stops t files
  · rw [List.append_nil] at hs
    rw [hout]
    refine ⟨fun paths files' => ⟨?_, ?_⟩, by simp⟩
    · rintro ⟨⟩
      exact ⟨done, hs, hw, rfl⟩
    · rintro ⟨texts, ht, hwt, rfl⟩
      obtain rfl := (List.map_inj_right produced_injective).mp (hs.symm.trans ht)
      rw [Option.some.inj (hw.symm.trans hwt)]
  · rw [hout]
    constructor
    · intro paths files'
      refine ⟨by simp, ?_⟩
      rintro ⟨texts, ht, hwt, -⟩
      -- the stages that were written are the first of `texts`, so the rest could be written too
      obtain ⟨first, last, rfl, hf, hl⟩ := List.map_eq_append_iff.mp (ht.symm.trans hs)
      obtain rfl := (List.map_inj_right produced_injective).mp hf
      rw [writeAll_append, hw] at hwt
      exact (hr ⟨last, files', hl.symm, hwt⟩).elim
    · rintro e files' ⟨⟩
      have unfinished : rest ≠ [] := by
        rintro rfl
        exact hr ⟨[], files₁, rfl, rfl⟩
      have shorter : done.length < t.stages.length := by
        have := List.length_pos_iff.mpr unfinished
        simp only [hs, List.length_append, List.length_map]
        omega
      refine ⟨done, ⟨rest, hs.symm⟩, shorter, hw, fun failed => hbuilt.resolve_left ?_⟩
      rintro ⟨js, hj⟩
      obtain ⟨-, ⟨_, hh⟩, ⟨_, hi⟩, hc⟩ := jobs_eq_ok hj
      rcases failed with ⟨e, he⟩ | ⟨e, he⟩ | ⟨c, hm, he⟩
      · simp [hh] at he
      · simp [hi] at he
      · simp [hc c hm] at he

end Files

end ClassLowering.Lowering
