import Staging.Command.Perform

/-!
# Who has the last word on a setting

A setting may be given by an option, by the environment and by a file, and has a default. The seed
and the scale of random inputs are taken from the first of these that gives them
(`Command.settingsFor_seed`, `Command.settingsFor_inputScale`).

The debug mask is not, as the mask of the environment is zero both where the environment asks for
nothing to be reported and where it does not ask for anything: a zero in the environment gives way
to the file (`Command.settingsFor_debug`). The settings that `run` is performed with follow the
order of the sources in everything else (`Command.perform_run_settings`).

**What it does not establish.** Which file is the first that can be read depends on the disk. The
settings are those of that file, whichever it is.
-/

namespace Staging

namespace Settings

/-- What a file says. A file that can not be read as settings says nothing, as does one that is not
there. -/
def Draft.ofFile (file : Option (String × String)) : Draft :=
  match file with
  | some (_, source) => (Json.decode (Json.record "Config" fields {}) source).toOption.getD {}
  | none => {}

theorem ofFile_eq (file : Option (String × String)) :
    ofFile file = ofDraft (Draft.ofFile file) := by
  cases file with
  | none => rfl
  | some found =>
    obtain ⟨path, source⟩ := found
    cases hread : Json.decode (Json.record "Config" fields {}) source <;>
      simp only [ofFile, Draft.ofFile, read, hread] <;> rfl

/-! ## The environment over the file -/

theorem override_seed (env : Environment) (s : Settings) :
    (s.override env).seed = (environmentSeed? env).getD s.seed := by
  unfold override
  cases environmentSeed? env with
  | some seed => rfl
  | none => exact apply_ite Settings.seed _ _ _ |>.trans (ite_self _)

theorem override_inputScale (env : Environment) (s : Settings) :
    (s.override env).inputScale = s.inputScale := by
  unfold override
  cases environmentSeed? env <;> exact apply_ite Settings.inputScale _ _ _ |>.trans (ite_self _)

/-- A mask of the environment replaces that of the file unless it is zero. -/
theorem override_debug (env : Environment) (s : Settings) :
    (s.override env).debug =
      if (environmentDebug? env).getD 0 = 0 then s.debug else (environmentDebug? env).getD 0 := by
  unfold override
  cases environmentSeed? env <;> exact apply_ite Settings.debug _ _ _

end Settings

namespace Command

open Settings (environmentDebug? environmentSeed? Draft)

variable {m : Type → Type} [Monad m] [Disk m] {args : List String} {path : String} {o : Options}

/-! ## The options over both -/

theorem settingsFor_seed (env : Environment) (o : Options) (file : Option (String × String)) :
    (settingsFor env o file).seed =
      (o.seed <|> environmentSeed? env <|> (Draft.ofFile file).seed).getD 69420 := by
  have hload : (settingsFor env o file).seed =
      o.seed.getD ((Settings.ofFile file).override env).seed := rfl
  rw [hload, Settings.override_seed, Settings.ofFile_eq]
  cases o.seed <;> cases environmentSeed? env <;> rfl

theorem settingsFor_inputScale (env : Environment) (o : Options) (file : Option (String × String)) :
    (settingsFor env o file).inputScale = (o.scale <|> (Draft.ofFile file).inputScale).getD 8 := by
  have hload : (settingsFor env o file).inputScale =
      o.scale.getD ((Settings.ofFile file).override env).inputScale := rfl
  rw [hload, Settings.override_inputScale, Settings.ofFile_eq]
  cases o.scale <;> rfl

/-- A zero of the environment counts as none. -/
theorem settingsFor_debug (env : Environment) (o : Options) (file : Option (String × String)) :
    (settingsFor env o file).debug = (o.debug <|> (environmentDebug? env).filter (· ≠ 0) <|>
      (Draft.ofFile file).debug).getD 0 := by
  have hload : (settingsFor env o file).debug =
      o.debug.getD ((Settings.ofFile file).override env).debug := rfl
  rw [hload, Settings.override_debug, Settings.ofFile_eq]
  cases o.debug with
  | some debug => rfl
  | none =>
    cases environmentDebug? env with
    | none => rfl
    | some debug =>
      by_cases hzero : debug = 0
      · simp [hzero, Option.filter_some, Settings.ofDraft]
      · simp [hzero, Option.filter_some]

/-- It makes a difference where the source after the environment gives another mask. -/
theorem firstNonzero_eq_first_iff (given asked said : Option UInt32) :
    (given <|> asked.filter (· ≠ 0) <|> said).getD 0 = (given <|> asked <|> said).getD 0 ↔
      ¬ (given = none ∧ asked = some 0 ∧ said.getD 0 ≠ 0) := by
  cases given with
  | some debug => simp
  | none =>
    cases asked with
    | none => simp
    | some debug => by_cases hzero : debug = 0 <;> simp [hzero, Option.filter_some]

/-- **The settings of a run.** A command line that asks for a run performs it with settings made
from its options, the environment and the first file that can be read. Whatever these are, the seed
and the scale are those of the first source that gives them, in this order, and the defaults where
none does. The debug mask is so too, unless the options do not give it, the environment gives zero
and the file gives another one; then it is that of the file. -/
theorem perform_run_settings (env : Environment)
    (h : Request.read args = .ok (.perform .run path o)) :
    (perform env args : m Report) = (do
      let file ← firstFile? (Settings.candidates env)
      report (run path o (settingsFor env o file))) ∧
    ∀ file,
      let used := settingsFor env o file
      let said := Draft.ofFile file
      used.seed = (o.seed <|> environmentSeed? env <|> said.seed).getD 69420 ∧
      used.inputScale = (o.scale <|> said.inputScale).getD 8 ∧
      (used.debug = (o.debug <|> environmentDebug? env <|> said.debug).getD 0 ↔
        ¬ (o.debug = none ∧ environmentDebug? env = some 0 ∧ said.debug.getD 0 ≠ 0)) ∧
      (o.debug = none → environmentDebug? env = some 0 → used.debug = said.debug.getD 0) := by
  refine ⟨by rw [perform, h], fun file => ?_⟩
  intro used said
  have hdebug : used.debug = _ := settingsFor_debug env o file
  refine ⟨settingsFor_seed env o file, settingsFor_inputScale env o file, ?_, ?_⟩
  · rw [hdebug]
    exact firstNonzero_eq_first_iff _ _ _
  · intro hnone hzero
    rw [hdebug, hnone, hzero]
    rfl

/-- A seed from all three sources, and a mask from two of them. -/
theorem perform_run_settings_from_all_sources :
    let env : Environment := fun name =>
      if name = "KILN_SEED" then some "9" else if name = "KILN_DEBUG" then some "6" else none
    let args := ["run", "m.json", "--seed=3"]
    let o : Options := { graph := some "m.json", seed := some 3 }
    let file := some ("/etc/xdg/kiln/config.json", "\x7b\"seed\": 5, \"debug\": 7\x7d")
    Request.read args = .ok (.perform .run "m.json" o) ∧
      (perform env args : StateM FileTree Report) = (do
        let file ← firstFile? (Settings.candidates env)
        report (run "m.json" o (settingsFor env o file))) ∧
      (settingsFor env o file).seed = 3 ∧ (settingsFor env o file).inputScale = 8 ∧
      (settingsFor env o file).debug = 6 := by
  intro env args o file
  have hargs : Request.read args = .ok (.perform .run "m.json" o) := rfl
  obtain ⟨hperform, hsettings⟩ := perform_run_settings (m := StateM FileTree) env hargs
  obtain ⟨hseed, hscale, hdebug, -⟩ := hsettings file
  have hsaid : (Draft.ofFile file).inputScale = none := by
    rw [← Option.isNone_iff_eq_none]
    decide +kernel
  have hasked : environmentDebug? env = some 6 := by decide +kernel
  refine ⟨hargs, hperform, hseed, ?_, ?_⟩
  · rw [hscale, hsaid]
    rfl
  · rw [hdebug.mpr (by rw [hasked]; decide), hasked]
    rfl

/-- The environment asks for nothing to be reported, and the file has its way; a seed of zero in the
environment is taken. -/
theorem settingsFor_ignores_zero_mask :
    let env : Environment := fun name =>
      if name = "KILN_SEED" ∨ name = "KILN_DEBUG" then some "0" else none
    let file := some ("/etc/xdg/kiln/config.json", "\x7b\"seed\": 5, \"debug\": 7\x7d")
    environmentDebug? env = some 0 ∧ (Draft.ofFile file).debug = some 7 ∧
      (settingsFor env {} file).debug = 7 ∧ (settingsFor env {} file).seed = 0 ∧
      (settingsFor env {} file).debug ≠
        (({} : Options).debug <|> environmentDebug? env <|> (Draft.ofFile file).debug).getD 0 := by
  decide +kernel

end Command

end Staging
