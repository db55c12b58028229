import Mathlib.Data.List.Basic
import Parley.Proofs.Files.Failures
import Parley.Proofs.Files.Working
import Parley.Storage

/-! # Replacing a file in one move

  A file is replaced through a temporary one beside it. The temporary name differs from the
  file's in its last component, or else it is the path itself (`Disk.temp_ne`). If it differs,
  then no step before the move touches the file, and the move puts the new content there at
  once, whole. So wherever the steps are stopped, by a failure or by a crash, the file is **as it
  was or as it is to be**. If it does not differ, the first step empties the file.
-/

namespace Parley

namespace Path

/-! ## Section 1: Temporary names -/

/-- A text is spelled by its pieces. -/
theorem intercalate_pieces (cs : List Char) : ['/'].intercalate (pieces cs) = cs := by
  induction cs using pieces.induct with
  | case1 => rfl
  | case2 cs ih =>
    obtain ⟨first, rest, hcons⟩ := List.exists_cons_of_ne_nil (pieces_ne_nil cs)
    rw [pieces, hcons, List.intercalate_cons_cons, ← hcons, ih]
    rfl
  | case3 c cs hc hnil ih => exact absurd hnil (pieces_ne_nil cs)
  | case4 c cs hc first rest hcons ih =>
    rw [pieces, hcons]
    · rw [hcons] at ih
      cases rest with
      | nil =>
        rw [List.intercalate_singleton] at ih ⊢
        rw [ih]
      | cons second rest =>
        rw [List.intercalate_cons_cons] at ih ⊢
        rw [← ih]
        rfl
    · exact hc

theorem spell_pieces (path : String) : spell (pieces path.toList) = path := by
  unfold spell
  rw [intercalate_pieces, String.ofList_toList]

/-- Pieces without slashes are the pieces of what they spell. -/
theorem pieces_spell {parts : List (List Char)} (hne : parts ≠ [])
    (h : ∀ part ∈ parts, '/' ∉ part) : pieces (spell parts).toList = parts := by
  unfold spell
  rw [String.toList_ofList]
  induction parts with
  | nil => exact absurd rfl hne
  | cons part rest ih =>
    have hpart := pieces_of_slash_not_mem (h part List.mem_cons_self)
    cases rest with
    | nil => rwa [List.intercalate_singleton]
    | cons next rest =>
      rw [List.intercalate_cons_cons, List.append_assoc]
      show pieces (part ++ '/' :: ['/'].intercalate (next :: rest)) = _
      rw [pieces_append_slash, hpart,
        ih (List.cons_ne_nil _ _) fun other hmem => h other (List.mem_cons_of_mem _ hmem)]
      rfl

/-- No slash comes into a name with another extension. -/
theorem slash_not_mem_tempName {name : List Char} (h : '/' ∉ name) : '/' ∉ tempName name := by
  unfold tempName
  rw [List.mem_append, not_or]
  refine ⟨fun hmem => h ?_, by decide⟩
  unfold stem at hmem
  split at hmem
  · exact hmem
  · next before hdrop =>
    split at hmem
    · exact hmem
    · have hbefore : '/' ∈ name.reverse.dropWhile (· ≠ '.') := by
        rw [hdrop]
        exact List.mem_cons_of_mem _ (List.mem_reverse.1 hmem)
      exact List.mem_reverse.1 (List.dropWhile_subset _ hbefore)

variable {path : String} {above : List (List Char)} {last : List Char}

/-- The temporary name of a path that ends in a name is that of the parent or has another
    extension. -/
theorem temp_of_pieces (hpieces : pieces path.toList = above ++ [last])
    (hmeant : isVoid last = false) (hinside : last ≠ up) :
    temp path = spell (above ++ [up]) ∨ temp path = spell (above ++ [tempName last]) := by
  have hcut : cut? path = some { above, last, trailing := [] } := by
    unfold cut?
    simp [hpieces, hmeant]
  unfold temp
  rw [hcut]
  dsimp only
  rw [if_neg hinside]
  split
  · exact .inl rfl
  · exact .inr rfl

end Path

namespace Disk

open Parley.Path

variable {d d' : Disk} {path : String} {p t : List String}

/-- Where a file can stand, the last piece of the path is its name. -/
theorem pieces_of_place (h : d.place path = .ok (p, false)) :
    ∃ above last, pieces path.toList = above ++ [last] ∧ isVoid last = false ∧ last ≠ up ∧
      p.getLast? = some (String.ofList last) := by
  obtain hnil | ⟨above, last, hpieces⟩ := List.eq_nil_or_concat' (pieces path.toList)
  · exact absurd hnil (pieces_ne_nil path.toList)
  · unfold place at h
    dsimp only at h
    split at h
    · cases h
    · split at h
      · cases h
      · split at h
        · cases h
        · next name hname =>
          split at h
          · cases hwalk : d.walk (d.start path) (components path) <;> rw [hwalk] at h <;> cases h
          · split at h
            · cases h
            · next here hwalk =>
              split at h
              · obtain ⟨rfl, hends⟩ := Prod.mk.inj (Except.ok.inj h)
                -- a path that does not end in a directory ends in a name
                unfold endsInDirectory at hends
                rw [hpieces, List.getLast?_concat] at hends
                dsimp only at hends
                obtain ⟨hmeant, hinside⟩ := Bool.or_eq_false_iff.1 hends
                have hlast : String.ofList last = name := by
                  unfold components at hname
                  rw [hpieces, List.filter_append] at hname
                  simpa [hmeant] using hname
                refine ⟨above, last, hpieces, hmeant, fun hup => ?_, ?_⟩
                · simp [hup] at hinside
                · rw [List.getLast?_concat, hlast]
              · cases h

/-- **A temporary name that is another leads elsewhere.** -/
theorem temp_ne (hplace : d.place path = .ok (p, false))
    (htemp : d'.place (temp path) = .ok (t, false)) (hother : temp path ≠ path) : t ≠ p := by
  obtain ⟨above, last, hpieces, hmeant, hinside, hlast⟩ := pieces_of_place hplace
  obtain ⟨above', last', hpieces', -, hinside', hlast'⟩ := pieces_of_place htemp
  have hslash : ∀ part ∈ above ++ [last], '/' ∉ part :=
    fun part hmem => slash_not_mem_pieces (hpieces ▸ hmem)
  have hspelled {name : List Char} (hname : '/' ∉ name)
      (hspell : temp path = spell (above ++ [name])) : last' = name := by
    have hback : pieces (spell (above ++ [name])).toList = above ++ [name] := by
      refine pieces_spell (List.append_ne_nil_of_right_ne_nil _ (List.cons_ne_nil _ _)) ?_
      intro part hmem
      rcases List.mem_append.1 hmem with habove | hown
      · exact hslash part (List.mem_append_left _ habove)
      · rw [List.mem_singleton.1 hown]
        exact hname
    rw [← hspell, hpieces'] at hback
    exact (List.append_singleton_inj.1 hback).2
  rintro rfl
  have hsame : last' = last := by
    rw [hlast] at hlast'
    exact (String.ofList_injective (Option.some.inj hlast')).symm
  rcases temp_of_pieces hpieces hmeant hinside with hup | hname
  · exact hinside' (hspelled (by decide) hup)
  · -- a name that keeps its extension keeps the path
    have hslashes : '/' ∉ tempName last :=
      slash_not_mem_tempName (hslash last (List.mem_append_right _ List.mem_cons_self))
    have hkept : tempName last = last := (hspelled hslashes hname).symm.trans hsame
    rw [hkept, ← hpieces, spell_pieces] at hname
    exact hother hname

end Disk

namespace Storage

open Disk

variable {path : String} {data : Bytes} {p t : List String} {before : Option Node} {d d' : Disk}

/-! ## Section 2: What a write leaves -/

theorem run_create (path : String) (data : Bytes) (d : Disk) :
    Step.create.run path data d = Disk.create (Path.temp path) d := rfl

theorem run_write (path : String) (data : Bytes) (d : Disk) :
    Step.write.run path data d = Disk.write (Path.temp path) data d := rfl

theorem run_sync (path : String) (data : Bytes) (d : Disk) :
    Step.sync.run path data d = Disk.sync (Path.temp path) d := rfl

theorem run_rename (path : String) (data : Bytes) (d : Disk) :
    Step.rename.run path data d = Disk.rename (Path.temp path) path d := rfl

/-- What a write leaves that has succeeded: the path leads to a file with the new content, nothing
    stands in the place of the temporary file, unless it is the same one, and the directory is
    there. -/
structure Replaced (path : String) (data : Bytes) (t p : List String) (d : Disk) : Prop where
  temp : d.place (Path.temp path) = .ok (t, false)
  place : d.place path = .ok (p, false)
  node : d.node? p = some (.file data)
  gone : t ≠ p → d.node? t = none
  parent : ∀ parent, Path.parent? path = some parent →
    ∃ q dirOnly, d.place parent = .ok (q, dirOnly) ∧ d.node? q ≠ none

theorem Replaced.content? (h : Replaced path data t p d) : d.content? path = some data :=
  content?_eq_some_iff.2 ⟨p, h.place, h.node⟩

theorem Replaced.tick (h : Replaced path data t p d) : Replaced path data t p d.tick where
  temp := (Keeps.tick d).place h.temp
  place := (Keeps.tick d).place h.place
  node := h.node
  gone := h.gone
  parent := by
    intro parent hparent
    obtain ⟨q, dirOnly, hplace, hnode⟩ := h.parent parent hparent
    exact ⟨q, dirOnly, (Keeps.tick d).place hplace, hnode⟩

/-- Steps succeed if the first one does and those behind it do. -/
theorem runSteps_cons_ok {step : Step} {rest : List Step}
    (h : runSteps path data (step :: rest) d = (none, d')) :
    ∃ d₁, step.run path data d = (.ok (), d₁) ∧ runSteps path data rest d₁ = (none, d') := by
  unfold runSteps at h
  rcases hrun : step.run path data d with ⟨_ | ⟨⟩, d₁⟩
  · rw [hrun] at h
    cases h
  · rw [hrun] at h
    exact ⟨d₁, rfl, h⟩

/-- What the last step has found and left. -/
theorem syncParent_ok (h : Step.syncParent.run path data d = (.ok (), d')) :
    (d' = d ∨ d' = d.tick) ∧ ∀ parent, Path.parent? path = some parent →
      ∃ q dirOnly, d.place parent = .ok (q, dirOnly) ∧ d.node? q ≠ none := by
  unfold Step.run at h
  dsimp only at h
  split at h
  · next hnone =>
    refine ⟨.inl (Prod.mk.inj h).2.symm, fun parent hparent => ?_⟩
    rw [hnone] at hparent
    cases hparent
  · next found hfound =>
    refine ⟨.inr (sync_ok h), fun parent hparent => ?_⟩
    obtain rfl : found = parent := Option.some.inj (hfound.symm.trans hparent)
    exact sync_found h

theorem syncParent_error {e : Fault} (h : Step.syncParent.run path data d = (.error e, d')) :
    d' = d.tick := by
  unfold Step.run at h
  dsimp only at h
  split at h
  · cases h
  · exact sync_error h

/-- **A write that succeeds leaves the new content**, also where the temporary name is the path. -/
theorem writeAtomic_ok (h : writeAtomic path data d = (none, d')) :
    (∃ t p, Replaced path data t p d') ∧ d.Keeps d' := by
  obtain ⟨d₁, hcreate, h⟩ := runSteps_cons_ok h
  obtain ⟨d₂, hwrite, h⟩ := runSteps_cons_ok h
  obtain ⟨d₃, hsync, h⟩ := runSteps_cons_ok h
  obtain ⟨d₄, hrename, h⟩ := runSteps_cons_ok h
  obtain ⟨d₅, hparent, h⟩ := runSteps_cons_ok h
  rw [run_create] at hcreate
  rw [run_write] at hwrite
  rw [run_sync] at hsync
  rw [run_rename] at hrename
  obtain rfl : d₅ = d' := (Prod.mk.inj h).2
  obtain ⟨t, htemp, hmade⟩ := create_ok hcreate
  obtain ⟨t', _, htemp', hwrote⟩ := write_ok hwrite
  obtain rfl : t' = t := place_inj htemp' (hmade.keeps.place htemp)
  have hkeeps : d.Keeps d₃ := by
    rw [sync_ok hsync]
    exact (hmade.keeps.trans hwrote.keeps).trans (.tick d₂)
  have hfile : d₃.node? t' = some (.file data) := by
    rw [sync_ok hsync]
    show d₂.node? t' = _
    rw [hwrote.nodes, if_pos rfl]
  obtain ⟨t, _, p, file, htemp', hplace, hmoved⟩ := rename_ok hrename
  obtain rfl : t = t' := place_inj htemp' (hkeeps.place htemp)
  obtain rfl : data = file := Node.file.inj (Option.some.inj (hfile.symm.trans hmoved.source))
  obtain ⟨hlast, hdir⟩ := syncParent_ok hparent
  have hkeeps₄ : d.Keeps d₄ := hkeeps.trans hmoved.keeps
  have hreplaced : Replaced path data t p d₄ :=
    { temp := hkeeps₄.place htemp
      place := hmoved.keeps.place hplace
      node := by rw [hmoved.nodes, if_pos rfl]
      gone := fun hne => by rw [hmoved.nodes, if_neg hne, if_pos rfl]
      parent := hdir }
  rcases hlast with rfl | rfl
  · exact ⟨⟨t, p, hreplaced⟩, hkeeps₄⟩
  · exact ⟨⟨t, p, hreplaced.tick⟩, hkeeps₄.trans (.tick d₄)⟩

/-! ## Section 3: Stages -/

/-- The path leads to its place, and there stands what stood there before. -/
structure Old (path : String) (p : List String) (before : Option Node) (d : Disk) : Prop where
  place : d.place path = .ok (p, false)
  node : d.node? p = before

/-- The path leads to its place, and there stands the new content. Nothing stands in the place of
    the temporary file. -/
structure New (path : String) (data : Bytes) (p : List String) (d : Disk) : Prop where
  place : d.place path = .ok (p, false)
  node : d.node? p = some (.file data)
  gone : ∃ t, d.place (Path.temp path) = .ok (t, false) ∧ d.node? t = none

/-- The path leads to its place, and there stands **what stood there before or the new content**,
    whole. -/
structure Entire (path : String) (data : Bytes) (p : List String) (before : Option Node)
    (d : Disk) : Prop where
  place : d.place path = .ok (p, false)
  node : d.node? p = before ∨ d.node? p = some (.file data)

/-- The temporary file has a place of its own. -/
structure Apart (path : String) (p : List String) (before : Option Node) (t : List String)
    (d : Disk) : Prop where
  old : Old path p before d
  temp : d.place (Path.temp path) = .ok (t, false)
  ne : t ≠ p

/-- How far a file has been replaced, by the steps that are left. -/
inductive Stage (path : String) (data : Bytes) (p : List String) (before : Option Node) :
    List Step → Disk → Prop where
  /-- Nothing has been done. -/
  | untouched {d : Disk} (h : Old path p before d) :
    Stage path data p before [.create, .write, .sync, .rename, .syncParent] d
  /-- The temporary file has been made. -/
  | made {d : Disk} {t : List String} (h : Apart path p before t d) :
    Stage path data p before [.write, .sync, .rename, .syncParent] d
  /-- It has the new content. -/
  | written {d : Disk} {t : List String} (h : Apart path p before t d)
    (hfile : d.node? t = some (.file data)) :
    Stage path data p before [.sync, .rename, .syncParent] d
  /-- It has arrived. -/
  | synced {d : Disk} {t : List String} (h : Apart path p before t d)
    (hfile : d.node? t = some (.file data)) : Stage path data p before [.rename, .syncParent] d
  /-- It is in place of the file. -/
  | moved {d : Disk} (h : Old path p (some (.file data)) d) :
    Stage path data p before [.syncParent] d
  /-- All has been done. -/
  | finished {d : Disk} (h : Old path p (some (.file data)) d) : Stage path data p before [] d

theorem Old.entire (h : Old path p before d) : Entire path data p before d :=
  ⟨h.place, .inl h.node⟩

theorem Stage.entire {rest : List Step} (h : Stage path data p before rest d) :
    Entire path data p before d := by
  cases h with
  | untouched h => exact h.entire
  | made h => exact h.old.entire
  | written h => exact h.old.entire
  | synced h => exact h.old.entire
  | moved h => exact ⟨h.place, .inr h.node⟩
  | finished h => exact ⟨h.place, .inr h.node⟩

/-- What is done elsewhere leaves the file. -/
theorem Old.of_within (h : Old path p before d) (hwithin : d.Within t d') (hne : t ≠ p) :
    Old path p before d' where
  place := hwithin.keeps.place h.place
  node := (hwithin.others p hne.symm).trans h.node

theorem Old.tick (h : Old path p before d) : Old path p before d.tick :=
  ⟨(Keeps.tick d).place h.place, h.node⟩

theorem Apart.of_within (h : Apart path p before t d) (hwithin : d.Within t d') :
    Apart path p before t d' where
  old := h.old.of_within hwithin h.ne
  temp := hwithin.keeps.place h.temp
  ne := h.ne

/-- **A step that succeeds leads to the next stage.** -/
theorem Stage.next {step : Step} {rest : List Step} (hother : Path.temp path ≠ path)
    (h : Stage path data p before (step :: rest) d) (hrun : step.run path data d = (.ok (), d')) :
    Stage path data p before rest d' := by
  cases h with
  | untouched h =>
    rw [run_create] at hrun
    obtain ⟨t, htemp, hwrote⟩ := create_ok hrun
    have hne : t ≠ p := temp_ne h.place htemp hother
    exact .made ⟨h.of_within hwrote.within hne, hwrote.keeps.place htemp, hne⟩
  | @made d t h =>
    rw [run_write] at hrun
    obtain ⟨t', dirOnly, htemp, hwrote⟩ := write_ok hrun
    obtain rfl : t' = t := place_inj htemp h.temp
    exact .written (h.of_within hwrote.within) (by rw [hwrote.nodes, if_pos rfl])
  | written h hfile =>
    rw [run_sync] at hrun
    rw [sync_ok hrun]
    exact .synced (h.of_within (.tick _ d)) hfile
  | @synced d t h hfile =>
    rw [run_rename] at hrun
    obtain ⟨t', dirOnly, q, file, htemp, hplace, hmoved⟩ := rename_ok hrun
    obtain rfl : t' = t := place_inj htemp h.temp
    obtain rfl : q = p := place_inj hplace h.old.place
    obtain rfl : data = file := Node.file.inj (Option.some.inj (hfile.symm.trans hmoved.source))
    exact .moved ⟨hmoved.keeps.place hplace, by rw [hmoved.nodes, if_pos rfl]⟩
  | moved h =>
    rcases (syncParent_ok hrun).1 with rfl | rfl
    · exact .finished h
    · exact .finished h.tick

/-- **A step that fails leaves the file entire**, though a part of the temporary one may have
    arrived. -/
theorem Stage.failed {step : Step} {rest : List Step} {e : Fault}
    (h : Stage path data p before (step :: rest) d)
    (hrun : step.run path data d = (.error e, d')) : Entire path data p before d' := by
  cases h with
  | untouched h =>
    rw [run_create] at hrun
    rw [create_error hrun]
    exact h.tick.entire
  | @made d t h =>
    rw [run_write] at hrun
    rcases write_error hrun with rfl | ⟨t', dirOnly, n, htemp, hwrote⟩
    · exact h.old.tick.entire
    · obtain rfl : t' = t := place_inj htemp h.temp
      exact (h.old.of_within hwrote.within h.ne).entire
  | written h hfile =>
    rw [run_sync] at hrun
    rw [sync_error hrun]
    exact h.old.tick.entire
  | synced h hfile =>
    rw [run_rename] at hrun
    rw [rename_error hrun]
    exact h.old.tick.entire
  | moved h =>
    rw [syncParent_error hrun]
    exact ⟨h.tick.place, .inr h.tick.node⟩

/-! ## Section 4: Runs -/

/-- **The steps in front of any point leave the file entire.** -/
theorem Stage.run_take {rest : List Step} (hother : Path.temp path ≠ path)
    (h : Stage path data p before rest d) (k : Nat) :
    Entire path data p before (runSteps path data (rest.take k) d).2 := by
  induction rest generalizing d k with
  | nil =>
    rw [List.take_nil]
    exact h.entire
  | cons step rest ih =>
    cases k with
    | zero => exact h.entire
    | succ k =>
      rw [List.take_succ_cons]
      unfold runSteps
      rcases hrun : step.run path data d with ⟨_ | ⟨⟩, d'⟩
      · exact h.failed hrun
      · exact ih (h.next hother hrun) k

/-- **A file is replaced in one move**, if the temporary name is not itself the path. Whatever the
    disk holds and whatever fails, stopped after any number of steps, or in the middle of one that
    fails, the place of the path holds what it held before or exactly the new content; and when
    all steps succeed it holds the new content, and the temporary file is gone. -/
theorem writeAtomic_entire (path : String) (data : Bytes) (d : Disk) {p : List String}
    (hplace : d.place path = .ok (p, false)) (hother : Path.temp path ≠ path) :
    (∀ k, Entire path data p (d.node? p) (runSteps path data (steps.take k) d).2) ∧
    ((writeAtomic path data d).1 = none → New path data p (writeAtomic path data d).2) := by
  have hstage : Stage path data p (d.node? p) steps d := .untouched ⟨hplace, rfl⟩
  refine ⟨hstage.run_take hother, fun hdone => ?_⟩
  have hrun : writeAtomic path data d = (none, (writeAtomic path data d).2) := Prod.ext hdone rfl
  obtain ⟨⟨t, q, hreplaced⟩, hkeeps⟩ := writeAtomic_ok hrun
  obtain rfl : q = p := place_inj hreplaced.place (hkeeps.place hplace)
  exact ⟨hreplaced.place, hreplaced.node, t, hreplaced.temp,
    hreplaced.gone (temp_ne hplace hreplaced.temp hother)⟩

/-- A directory with a file in it, and with what another temporary file has left. -/
def halfWritten : Disk where
  nodes := [(["conf"], .dir), (["conf", "a.json"], .file (Text.ascii "old")),
    (["conf", "a.tmp"], .file (Text.ascii "le"))]
  -- the write stops after one byte
  faults := fun n => if n = 1 then some 1 else none

theorem writeAtomic_entire_halfWritten :
    halfWritten.place "conf/a.json" = .ok (["conf", "a.json"], false) ∧
    Path.temp "conf/a.json" ≠ "conf/a.json" ∧
    (writeAtomic "conf/a.json" (Text.ascii "new") halfWritten).1 = some .disk ∧
    Entire "conf/a.json" (Text.ascii "new") ["conf", "a.json"] (some (.file (Text.ascii "old")))
      (writeAtomic "conf/a.json" (Text.ascii "new") halfWritten).2 ∧
    New "conf/a.json" (Text.ascii "new") ["conf", "a.json"]
      (writeAtomic "conf/a.json" (Text.ascii "new") { halfWritten with clock := 2 }).2 := by
  have hother : Path.temp "conf/a.json" ≠ "conf/a.json" := by decide +kernel
  have hbroken := (writeAtomic_entire "conf/a.json" (Text.ascii "new") halfWritten
    (p := ["conf", "a.json"]) rfl hother).1 steps.length
  have hdone := (writeAtomic_entire "conf/a.json" (Text.ascii "new") { halfWritten with clock := 2 }
    (p := ["conf", "a.json"]) rfl hother).2 (by decide +kernel)
  exact ⟨rfl, hother, by decide +kernel, hbroken, hdone⟩

/-- **If the temporary name is the path itself, the first step empties the file.** -/
theorem emptied_of_temp_eq (hplace : d.place path = .ok (p, false))
    (hsame : Path.temp path = path) (hrun : Step.create.run path data d = (.ok (), d')) :
    d'.node? p = some (.file []) := by
  rw [run_create] at hrun
  obtain ⟨t, htemp, hwrote⟩ := create_ok hrun
  rw [hsame] at htemp
  obtain rfl : t = p := place_inj htemp hplace
  rw [hwrote.nodes, if_pos rfl]

/-- A file that has the extension of temporary ones. -/
def temporary : Disk where
  nodes := [(["x.tmp"], .file (Text.ascii "old"))]

/-- **Not every file is replaced in one move**: after the first step it has neither content. -/
theorem not_entire_temporary :
    temporary.place "x.tmp" = .ok (["x.tmp"], false) ∧
    ¬ Entire "x.tmp" (Text.ascii "new") ["x.tmp"] (temporary.node? ["x.tmp"])
      (runSteps "x.tmp" (Text.ascii "new") (steps.take 1) temporary).2 := by
  have hplace : temporary.place "x.tmp" = .ok (["x.tmp"], false) := rfl
  refine ⟨hplace, fun hentire => ?_⟩
  have hcreate : Step.create.run "x.tmp" (Text.ascii "new") temporary = (.ok (), _) := rfl
  have hempty : (runSteps "x.tmp" (Text.ascii "new") (steps.take 1) temporary).2.node? ["x.tmp"] =
      some (.file []) := emptied_of_temp_eq hplace (by decide +kernel) hcreate
  have hnode := hentire.node
  rw [hempty] at hnode
  revert hnode
  decide +kernel

end Storage

end Parley
