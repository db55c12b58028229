import Parley.Nucleus
import Parley.Proofs.Config.RoundTrip
import Parley.Proofs.Storage.Replacing

/-! # Saved settings

  A file that was replaced can be replaced **again**: its temporary name is free, and the
  directory is there. So on a disk that works, settings that were saved once can be saved any
  number of times at the same path, and what is read there is what was saved last. A nucleus is
  stored with its tag filled in, and so the nucleus that is made of the file has this tag,
  whichever one would be made up for it.
-/

namespace Parley

namespace Storage

open Disk

variable {path : String} {data : Bytes} {p t : List String} {d d' : Disk}

/-! ## Section 1: Writing again -/

theorem runSteps_cons_of_ok {step : Step} {d₁ : Disk} (h : step.run path data d = (.ok (), d₁))
    (rest : List Step) : runSteps path data (step :: rest) d = runSteps path data rest d₁ := by
  rw [runSteps, h]

theorem step_faults (step : Step) (path : String) (data : Bytes) (d : Disk) :
    (step.run path data d).2.faults = d.faults := by
  cases step with
  | create =>
    rw [run_create]
    exact create_faults _ d
  | write =>
    rw [run_write]
    exact alter_faults _ _ d
  | sync =>
    rw [run_sync]
    exact sync_faults _ d
  | rename =>
    rw [run_rename]
    exact rename_faults _ _ d
  | syncParent =>
    unfold Step.run
    dsimp only
    split
    · rfl
    · exact sync_faults _ d

theorem runSteps_faults (path : String) (data : Bytes) (rest : List Step) (d : Disk) :
    (runSteps path data rest d).2.faults = d.faults := by
  induction rest generalizing d with
  | nil => rfl
  | cons step rest ih =>
    have hstep := step_faults step path data d
    unfold runSteps
    split
    · next hrun =>
      rw [hrun] at hstep
      exact (ih _).trans hstep
    · next hrun =>
      rw [hrun] at hstep
      exact hstep

theorem works_of_step {step : Step} (hworks : d.Works)
    (hrun : step.run path data d = (.ok (), d')) : d'.Works := by
  have hfaults := step_faults step path data d
  rw [hrun] at hfaults
  exact hworks.of_faults hfaults

theorem works_of_writeAtomic (hworks : d.Works) (h : writeAtomic path data d = (none, d')) :
    d'.Works := by
  have hfaults := runSteps_faults path data steps d
  unfold writeAtomic at h
  rw [h] at hfaults
  exact hworks.of_faults hfaults

/-- The last step succeeds where the directory is there. -/
theorem syncParent_of_works (hworks : d.Works) (data : Bytes)
    (hparent : ∀ parent, Path.parent? path = some parent →
      ∃ q dirOnly, d.place parent = .ok (q, dirOnly) ∧ d.node? q ≠ none) :
    ∃ d', Step.syncParent.run path data d = (.ok (), d') := by
  unfold Step.run
  dsimp only
  split
  · exact ⟨d, rfl⟩
  · next parent hsome =>
    obtain ⟨q, dirOnly, hplace, hnode⟩ := hparent parent hsome
    exact ⟨d.tick, sync_of_works hworks hplace hnode⟩

/-- The first steps write the temporary file, where it is free. -/
theorem exists_temporary (hworks : d.Works) (htemp : d.place (Path.temp path) = .ok (t, false))
    (hfree : d.node? t ≠ some .dir) (data : Bytes) :
    ∃ d', runSteps path data steps d = runSteps path data [.rename, .syncParent] d' ∧ d'.Works ∧
      d.Wrote d' t data := by
  obtain ⟨d₁, hcreate⟩ := create_of_works hworks htemp hfree
  obtain ⟨t', htemp', hmade⟩ := create_ok hcreate
  obtain rfl : t' = t := place_inj htemp' htemp
  have hstep₁ : Step.create.run path data d = (.ok (), d₁) := (run_create ..).trans hcreate
  have hworks₁ := works_of_step hworks hstep₁
  have htemp₁ := hmade.keeps.place htemp
  obtain ⟨d₂, hwrite⟩ := alter_of_works hworks₁ _ htemp₁ (by rw [hmade.nodes, if_pos rfl])
  have hstep₂ : Step.write.run path data d₁ = (.ok (), d₂) := (run_write ..).trans hwrite
  have hworks₂ := works_of_step hworks₁ hstep₂
  obtain ⟨t, _, htemp₂, hwrote⟩ := write_ok hwrite
  obtain rfl : t = t' := place_inj htemp₂ htemp₁
  have hnodes : ∀ q, d₂.node? q = if q = t then some (.file data) else d.node? q := by
    intro q
    rw [hwrote.nodes, hmade.nodes]
    split <;> rfl
  have hstep₃ : Step.sync.run path data d₂ = (.ok (), d₂.tick) := by
    rw [run_sync]
    refine sync_of_works hworks₂ (hwrote.keeps.place htemp₁) ?_
    rw [hnodes, if_pos rfl]
    exact Option.some_ne_none _
  refine ⟨d₂.tick, ?_, hworks₂, ⟨(hmade.keeps.trans hwrote.keeps).here, hfree, hnodes⟩⟩
  unfold steps
  rw [runSteps_cons_of_ok hstep₁, runSteps_cons_of_ok hstep₂, runSteps_cons_of_ok hstep₃]

/-- **What was replaced can be replaced again**, by anything. -/
theorem Replaced.again (h : Replaced path data t p d) (hworks : d.Works) (data' : Bytes) :
    ∃ d', writeAtomic path data' d = (none, d') := by
  have hfree : d.node? t ≠ some .dir := by
    by_cases hsame : t = p
    · rw [hsame, h.node]
      nofun
    · rw [h.gone hsame]
      nofun
  obtain ⟨d₁, hrun, hworks₁, hwrote⟩ := exists_temporary hworks h.temp hfree data'
  have htemp := hwrote.keeps.place h.temp
  have hplace := hwrote.keeps.place h.place
  have hfile : d₁.node? t = some (.file data') := by rw [hwrote.nodes, if_pos rfl]
  have hstays : d₁.node? p ≠ some .dir := by
    rw [hwrote.nodes, h.node]
    split <;> nofun
  obtain ⟨d₂, hrename⟩ := rename_of_works hworks₁ htemp hfile hplace hstays
  have hstep : Step.rename.run path data' d₁ = (.ok (), d₂) := (run_rename ..).trans hrename
  obtain ⟨t', _, p', file, hsource, htarget, hmoved⟩ := rename_ok hrename
  obtain rfl : t' = t := place_inj hsource htemp
  obtain rfl : p' = p := place_inj htarget hplace
  obtain ⟨d₃, hlast⟩ := syncParent_of_works (works_of_step hworks₁ hstep) data' (by
    intro parent hparent
    obtain ⟨q, dirOnly, hdir, hnode⟩ := h.parent parent hparent
    refine ⟨q, dirOnly, (hwrote.keeps.trans hmoved.keeps).place hdir, ?_⟩
    rw [hmoved.nodes, hwrote.nodes]
    split
    · exact Option.some_ne_none _
    · next hother =>
      -- the directory is there, and the temporary file was not
      have hapart : q ≠ t' := by
        rintro rfl
        exact hnode (h.gone hother)
      rw [if_neg hapart, if_neg hapart]
      exact hnode)
  refine ⟨d₃, hrun.trans ?_⟩
  rw [runSteps_cons_of_ok hstep, runSteps_cons_of_ok hlast]
  rfl

/-! ## Section 2: Configurations -/

/-- A path where a file was saved on a disk that works. -/
structure Settled (path : String) (data : Bytes) (d : Disk) : Prop where
  works : d.Works
  /-- Its directories are there. -/
  dirs : ∀ parent, Path.parent? path = some parent → createDirAll parent d = (.ok (), d.tick)
  replaced : ∃ t p, Replaced path data t p d

theorem Settled.content? (h : Settled path data d) : d.content? path = some data := by
  obtain ⟨t, p, hreplaced⟩ := h.replaced
  exact hreplaced.content?

theorem Settled.tick (h : Settled path data d) : Settled path data d.tick where
  works := h.works
  dirs := fun parent hparent => createDirAll_again (h.dirs parent hparent) (.refl _) h.works
  replaced := by
    obtain ⟨t, p, hreplaced⟩ := h.replaced
    exact ⟨t, p, hreplaced.tick⟩

variable {c : Config}

/-- **A configuration that was saved is there.** -/
theorem saveConfig_ok (hworks : d.Works) (h : saveConfig path c d = (none, d')) :
    Settled path (Text.bytes c.text) d' := by
  unfold saveConfig at h
  dsimp only at h
  split at h
  · next hnone =>
    refine ⟨works_of_writeAtomic hworks h, fun parent hparent => ?_, (writeAtomic_ok h).1⟩
    rw [hnone] at hparent
    cases hparent
  · next parent hsome =>
    split at h
    · cases h
    · next made hmade =>
      have hfaults := createDirAll_faults parent d
      rw [hmade] at hfaults
      have hafter := works_of_writeAtomic (hworks.of_faults hfaults) h
      obtain ⟨hreplaced, hkeeps⟩ := writeAtomic_ok h
      refine ⟨hafter, fun other hother => ?_, hreplaced⟩
      obtain rfl : parent = other := Option.some.inj (hsome.symm.trans hother)
      exact createDirAll_again hmade hkeeps hafter

/-- **A configuration can be saved where one was saved.** -/
theorem Settled.save (h : Settled path data d) (c : Config) :
    ∃ d', saveConfig path c d = (none, d') := by
  obtain ⟨t, p, hreplaced⟩ := h.replaced
  unfold saveConfig
  dsimp only
  split
  · exact hreplaced.again h.works _
  · next parent hparent =>
    rw [h.dirs parent hparent]
    exact hreplaced.tick.again h.works _

/-- **What is read is what was saved.** -/
theorem Settled.readConfig (h : Settled path (Text.bytes c.text) d) :
    readConfig path d = (.ok c, d.tick) := by
  unfold Storage.readConfig
  rw [read_of_content? h.content? (h.works _)]
  dsimp only
  rw [c.parse?_text]

end Storage

/-! ## Section 3: Nuclei -/

namespace Nucleus

open Storage

variable {κ : Type} {path : String} {d d' : Disk} {n : Nucleus κ}

/-- A nucleus that was made cuts files into fragments of some size. -/
theorem chunkSize_of_create {config : Config} {fresh : Uuid} {link : Link}
    (h : create config fresh link = .ok n) : n.config.chunkSize ≠ 0 := by
  unfold create at h
  split at h
  · cases h
  · next hsize =>
    rw [← Except.ok.inj h]
    exact hsize

/-- **A nucleus that is made of saved settings has the tag and the settings** of the one that
    saved them, and would save the same ones. -/
theorem load_saved (hsize : n.config.chunkSize ≠ 0)
    (h : Settled path (Text.bytes n.savedConfig.text) d) (fresh : Uuid) (link : Link) :
    ∃ n' : Nucleus κ, load path fresh link d = (.ok n', d.tick) ∧ n'.tag = n.tag ∧
      n'.config = n.savedConfig ∧ n'.savedConfig = n'.config := by
  unfold load
  rw [h.readConfig]
  dsimp only
  unfold create
  rw [if_neg (show n.savedConfig.chunkSize ≠ 0 from hsize)]
  exact ⟨_, rfl, rfl, rfl, rfl⟩

/-- Saves the settings of a nucleus and makes a nucleus of them, over and over: once for each tag
    that might be made up, and for each link. -/
def rounds (path : String) : List (Uuid × Link) → Nucleus κ → Disk →
    Except NucleusError (Nucleus κ) × Disk
  | [], n, d => (.ok n, d)
  | (fresh, link) :: rest, n, d =>
    match n.saveConfig path d with
    | (some e, d) => (.error e, d)
    | (none, d) =>
      match load path fresh link d with
      | (.error e, d) => (.error e, d)
      | (.ok n, d) => rounds path rest n d

/-- One round after the settings have been stored. -/
theorem rounds_cons (hsave : n.saveConfig path d = (none, d')) {fresh : Uuid} {link : Link}
    {n' : Nucleus κ} {left : Disk} (hload : load path fresh link d' = (.ok n', left))
    (turns : List (Uuid × Link)) :
    rounds path ((fresh, link) :: turns) n d = rounds path turns n' left := by
  rw [rounds, hsave]
  dsimp only
  rw [hload]

/-- Settings that have their tag filled in stay as they are, **however often they are saved and
    loaded**. -/
theorem rounds_keep (hsize : n.config.chunkSize ≠ 0) (hfilled : n.savedConfig = n.config)
    (h : Settled path (Text.bytes n.config.text) d) (turns : List (Uuid × Link)) :
    ∃ n' d', rounds path turns n d = (.ok n', d') ∧ n'.tag = n.tag ∧ n'.config = n.config ∧
      d'.content? path = some (Text.bytes n.config.text) := by
  induction turns generalizing n d with
  | nil => exact ⟨n, d, rfl, rfl, rfl, h.content?⟩
  | cons turn turns ih =>
    obtain ⟨fresh, link⟩ := turn
    obtain ⟨d₁, hsave⟩ := h.save n.savedConfig
    have hsettled := saveConfig_ok h.works hsave
    obtain ⟨n₁, hload, htag, hconfig, hfilled₁⟩ := load_saved hsize hsettled fresh link
    have hstored : n.saveConfig path d = (none, d₁) := by
      unfold saveConfig
      rw [hsave]
      rfl
    rw [← hconfig] at hsettled
    rw [rounds_cons hstored hload]
    rw [hfilled] at hconfig
    have hrounds := ih (by rw [hconfig]; exact hsize) hfilled₁ hsettled.tick
    rwa [htag, hconfig] at hrounds

/-- **Saving settings loses nothing and keeps the identity.** On a disk that works:

    - A configuration that was saved is read as it was; it can be saved again, and wherever it is
      saved, the bytes are the same.
    - The settings of a nucleus that was made are saved with its tag filled in, whether it was
      configured or made up. The nucleus made of them has this tag and these settings, and so it
      goes on for any number of rounds, whichever tags would be made up in them. -/
theorem saved_settings_return (path : String) {d : Disk} (hworks : d.Works) :
    (∀ (c : Config) (d' : Disk), Storage.saveConfig path c d = (none, d') →
      d'.content? path = some (Text.bytes c.text) ∧ readConfig path d' = (.ok c, d'.tick) ∧
      (∃ again, Storage.saveConfig path c d'.tick = (none, again)) ∧
      ∀ elsewhere again, Storage.saveConfig elsewhere c d'.tick = (none, again) →
        again.content? elsewhere = d'.content? path) ∧
    (∀ (n : Nucleus κ) (d' : Disk), n.config.chunkSize ≠ 0 →
      n.saveConfig path d = (none, d') → ∀ turns ≠ [], ∃ n' left,
        rounds path turns n d = (.ok n', left) ∧ n'.tag = n.tag ∧
          n'.config = { n.config with tag := some n.tag } ∧
          left.content? path = d'.content? path) := by
  constructor
  · intro c d' hsave
    have hsettled := saveConfig_ok hworks hsave
    refine ⟨hsettled.content?, hsettled.readConfig, hsettled.tick.save c,
      fun elsewhere again hagain => ?_⟩
    rw [hsettled.content?, (saveConfig_ok hsettled.tick.works hagain).content?]
  · intro n d' hsize hstored turns hturns
    have hsave : Storage.saveConfig path n.savedConfig d = (none, d') := by
      unfold saveConfig at hstored
      obtain ⟨herror, hleft⟩ := Prod.mk.inj hstored
      exact Prod.ext (Option.map_eq_none_iff.1 herror) hleft
    have hsettled := saveConfig_ok hworks hsave
    obtain ⟨⟨fresh, link⟩, rest, rfl⟩ := List.exists_cons_of_ne_nil hturns
    -- the first round fills in the tag
    obtain ⟨n₁, hload, htag, hconfig, hfilled⟩ := load_saved hsize hsettled fresh link
    rw [hsettled.content?, rounds_cons hstored hload, ← htag]
    rw [← hconfig] at hsettled ⊢
    obtain ⟨n', left, hrounds, htag', hconfig', hcontent⟩ :=
      rounds_keep (by rw [hconfig]; exact hsize) hfilled hsettled.tick rest
    refine ⟨n', left, hrounds, htag', ?_, hcontent⟩
    rw [hconfig', hconfig, htag]
    rfl

/-- Settings without a tag, with the greatest numbers. -/
def extreme : Config where
  maxWorkers := 18446744073709551615
  chunkSize := 18446744073709551615
  clearThreshold := 9223372036854775808
  readOrder := .declared
  mode := .strict

theorem saved_settings_return_extreme :
    let empty : Disk := {}
    let generated : Uuid := ⟨List.replicate 16 0xAB, rfl⟩
    let other : Uuid := ⟨List.replicate 16 0x01, rfl⟩
    empty.Works ∧
    (Storage.saveConfig "conf/nucleus.json" extreme empty).1 = none ∧
    (readConfig "conf/nucleus.json"
      (Storage.saveConfig "conf/nucleus.json" extreme empty).2).1 = .ok extreme ∧
    ∃ made : Nucleus Empty, create extreme generated {} = .ok made ∧
      made.config.chunkSize ≠ 0 ∧ (made.saveConfig "nucleus.tmp" empty).1 = none ∧
      ∃ n left, rounds "nucleus.tmp" [(other, {}), (other, {}), (other, {})] made empty =
        (.ok n, left) ∧ n.tag = generated ∧ n.config = { extreme with tag := some generated } := by
  intro empty generated other
  have hworks : empty.Works := fun _ => rfl
  have hsave : Storage.saveConfig "conf/nucleus.json" extreme empty =
      (none, (Storage.saveConfig "conf/nucleus.json" extreme empty).2) :=
    Prod.ext (by decide +kernel) rfl
  have hread := (@saved_settings_return Empty "conf/nucleus.json" _ hworks).1 _ _ hsave
  obtain ⟨made, hmade, htag, hconfig⟩ : ∃ made : Nucleus Empty,
      create extreme generated {} = .ok made ∧ made.tag = generated ∧ made.config = extreme :=
    ⟨_, rfl, rfl, rfl⟩
  have hsize := chunkSize_of_create hmade
  have hfilled : made.savedConfig = { extreme with tag := some generated } := by
    unfold savedConfig
    rw [htag, hconfig]
  have hnone : (Storage.saveConfig "nucleus.tmp" made.savedConfig empty).1 = none := by
    rw [hfilled]
    decide +kernel
  have hstored : made.saveConfig "nucleus.tmp" empty =
      (none, (made.saveConfig "nucleus.tmp" empty).2) :=
    Prod.ext (congrArg (Option.map NucleusError.storage) hnone) rfl
  obtain ⟨n, left, hrounds, htag', hconfig', -⟩ :=
    (saved_settings_return "nucleus.tmp" hworks).2 made _ hsize hstored
      [(other, {}), (other, {}), (other, {})] (List.cons_ne_nil _ _)
  exact ⟨hworks, congrArg Prod.fst hsave, congrArg Prod.fst hread.2.1, made, hmade, hsize,
    congrArg Prod.fst hstored, n, left, hrounds, htag'.trans htag, hconfig'.trans hfilled⟩

end Nucleus

end Parley
