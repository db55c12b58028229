import Parley.Proofs.Transfer.Receipts

/-! # Where the receiver writes

  A sign is any text that a peer sends. Whatever is in it, the receiver writes, moves and removes
  under two names in its directory: the last component of the sign, and the name of its temporary
  file. Both are **names**, so neither leads elsewhere. Directories are made on the way to the
  directory of the receiver only, and for that the sign plays no part.

  The temporary file takes a name that is another sign's: what stands under it is lost, so of the
  other files in the directory all are left alone *but that one*.
-/

namespace Parley

namespace Transfer.Receiver

variable {r : Receiver} {cache : ChunkCache} {tag sign name : String} {expected : Nat}
  {d d₁ d' : Disk} {home : List String}

/-! ## Section 1: What putting together does to the disk -/

/-- Without a name in the sign, nothing happens. -/
theorem assemble_of_no_name (h : Path.fileName? sign = none) :
    r.assemble cache tag sign expected d = (.error (.invalidSign sign), cache, d) := by
  unfold assemble
  rw [h]

/-- The disk once the fragments have been written, and the temporary file removed if that failed. -/
def written (cache : ChunkCache) (tag sign : String) (count : Nat) (temp path : String)
    (d : Disk) : Disk :=
  match writeFragments cache tag sign count temp path d with
  | (.error _, d) => (Disk.remove temp d).2
  | (.ok _, d) => d

/-- The disk that is left: as it was, or with the directory made and nothing else, or written to. -/
theorem assemble_disk (hname : Path.fileName? sign = some name)
    (hleft : (r.assemble cache tag sign expected d).2.2 = d') :
    d' = d ∨ d' = (Disk.createDirAll r.dir d).2 ∨
      ∃ d₁, Disk.createDirAll r.dir d = (.ok (), d₁) ∧
        d' = written cache tag sign (cache.count tag sign) (Path.join r.dir (partName name))
          (Path.join r.dir name) d₁ := by
  subst hleft
  unfold assemble
  rw [hname]
  dsimp only
  split
  · exact .inl rfl
  · right
    split
    · next hmade => exact .inl (by rw [hmade])
    · next d₁ hmade =>
      refine .inr ⟨d₁, hmade, ?_⟩
      unfold written
      rcases writeFragments cache tag sign (cache.count tag sign)
        (Path.join r.dir (partName name)) (Path.join r.dir name) d₁ with ⟨_ | _, _⟩ <;> rfl

section

variable {P : List String → Prop} {temp path : String}

/-- Writing touches the places that the file and its temporary file are bound to. -/
theorem writeFragments_touches (cache : ChunkCache) (tag sign : String) (count : Nat)
    (htemp : Disk.Bound P d temp) (hpath : Disk.Bound P d path) :
    d.TouchesFiles P (writeFragments cache tag sign count temp path d).2 := by
  have hspec := writeFragments_spec cache tag sign count temp path d
  -- the temporary file is where its path leads now
  have hbound : ∀ {p}, d.place temp = .ok (p, false) → ∀ q, q = p → P q := by
    intro p hplace q hq
    rw [hq]
    exact htemp d (.refl d) p false hplace
  generalize writeFragments cache tag sign count temp path d = ended at hspec ⊢
  obtain ⟨result, d'⟩ := ended
  cases hspec with
  | unmade => exact .tick P d
  | failed hdraft => exact hdraft.touches.mono (hbound hdraft.place)
  | moved hdraft _ hrename =>
    have hfilled := hdraft.touches.mono (hbound hdraft.place)
    have hrenames := Disk.rename_touches (htemp _ hfilled.keeps) (hpath _ hfilled.keeps)
    rw [hrename] at hrenames
    exact hfilled.trans hrenames

/-- So does removing the temporary file if that failed. -/
theorem written_touches (cache : ChunkCache) (tag sign : String) (count : Nat)
    (htemp : Disk.Bound P d temp) (hpath : Disk.Bound P d path) :
    d.TouchesFiles P (written cache tag sign count temp path d) := by
  have hwrites := writeFragments_touches cache tag sign count htemp hpath
  unfold written
  split
  · next d₁ hwrite =>
    rw [hwrite] at hwrites
    exact hwrites.trans (Disk.remove_touches (htemp d₁ hwrites.keeps))
  · next hwrite =>
    rw [hwrite] at hwrites
    exact hwrites

/-- **Nothing new is left under the temporary name**, unless its removal is made to fail. -/
theorem written_temp (cache : ChunkCache) (tag sign : String) (count : Nat) {p q : List String}
    (htemp : Disk.Bound (· = p) d temp) (hpath : Disk.Bound (· = q) d path) (hne : p ≠ q) :
    (written cache tag sign count temp path d).node? p = d.node? p ∨
    (written cache tag sign count temp path d).node? p = none ∨
    ∃ e left, writeFragments cache tag sign count temp path d = (.error e, left) ∧
      left.faults left.clock ≠ none := by
  unfold written
  split
  · next e left hwrite =>
    -- a removal that is not made to fail takes away what was written
    rcases writeFragments_leaves hwrite with rfl | ⟨p', data, hplace, hwithin, hfile⟩
    · rcases hremove : Disk.remove temp d.tick with ⟨e | ⟨⟩, d₁⟩
      · rw [Disk.remove_error hremove]
        exact .inl rfl
      · obtain ⟨p', hplace, -, hnone⟩ := Disk.remove_ok hremove
        rw [htemp d.tick (.tick d) p' false hplace] at hnone
        exact .inr (.inl hnone)
    · by_cases hfault : left.faults left.clock = none
      · have hplace' := hwithin.keeps.place hplace
        obtain ⟨d₁, hremove⟩ := Disk.remove_of_file hplace' hfile hfault
        obtain ⟨p'', hplace'', -, hnone⟩ := Disk.remove_ok hremove
        rw [htemp left hwithin.keeps p'' false hplace''] at hnone
        rw [hremove]
        exact .inr (.inl hnone)
      · exact .inr (.inr ⟨e, left, hwrite, hfault⟩)
  · next content d' hwrite =>
    -- the temporary file was moved away
    have hspec := writeFragments_spec cache tag sign count temp path d
    rw [hwrite] at hspec
    cases hspec with
    | moved hdraft _ hrename =>
      have hkeeps := hdraft.wrote.keeps
      obtain ⟨p', dirOnly, q', file, hsource, htarget, hmoved⟩ := Disk.rename_ok hrename
      obtain rfl : p' = p := htemp _ hkeeps p' dirOnly hsource
      obtain rfl : q' = q := hpath _ hkeeps q' false htarget
      refine .inr (.inl ?_)
      rw [hmoved.nodes, if_neg hne, if_pos rfl]

end

/-! ## Section 2: Confinement -/

/-- The places of a file and of its temporary file, in the directory of the receiver. -/
def Holds (r : Receiver) (d : Disk) (name : String) (q : List String) : Prop :=
  ∃ home, d.Leads r.dir home ∧ (q = home ++ [name] ∨ q = home ++ [partName name])

theorem written_holds (cache : ChunkCache) (tag sign : String) (hname : Path.IsName name)
    (hleads : d.Leads r.dir home) :
    d.TouchesFiles (r.Holds d name) (written cache tag sign (cache.count tag sign)
      (Path.join r.dir (partName name)) (Path.join r.dir name) d) := by
  apply written_touches
  · exact (hleads.bound (isName_partName hname)).mono fun q hq => ⟨home, hleads, .inr hq⟩
  · exact (hleads.bound hname).mono fun q hq => ⟨home, hleads, .inl hq⟩

/-- First the directory is made, and then two places are touched. -/
theorem assemble_touches (hname : Path.fileName? sign = some name)
    (hleft : (r.assemble cache tag sign expected d).2.2 = d') :
    ∃ opened, d.Opens (opened.Passes r.dir) opened ∧ opened.Touches (r.Holds opened name) d' := by
  have hopens := Disk.createDirAll_opens r.dir d
  rcases assemble_disk hname hleft with rfl | rfl | ⟨d₁, hmade, rfl⟩
  · exact ⟨d', .refl _ d', .refl _ d'⟩
  · exact ⟨_, hopens, .refl _ _⟩
  · rw [hmade] at hopens
    obtain ⟨home, hleads⟩ := Disk.leads_of_createDirAll hmade
    exact ⟨d₁, hopens,
      (written_holds cache tag sign (Path.isName_of_fileName? hname) hleads).toTouches⟩

/-- **No sign leads out of the directory.** Either the sign has no last component that is a name:
    then it is refused and nothing is touched. Or all that is touched, once the directory and those
    it lies in have been made where they were missing, stands in that directory under two names,
    each of which is one component. -/
theorem assemble_confined (r : Receiver) (cache : ChunkCache) (tag sign : String) (expected : Nat)
    (d : Disk) :
    let got := r.assemble cache tag sign expected d
    ((∀ last, (Path.components sign).getLast? = some last → last = "..") ∧
      got = (.error (.invalidSign sign), cache, d)) ∨
    ∃ name, (Path.components sign).getLast? = some name ∧
      Path.IsName name ∧ Path.IsName (partName name) ∧
      ∃ opened, d.Opens (opened.Passes r.dir) opened ∧
        opened.Touches (r.Holds opened name) got.2.2 := by
  intro got
  cases hname : Path.fileName? sign with
  | none =>
    refine .inl ⟨fun last hlast => Decidable.not_not.1 fun hup => ?_, assemble_of_no_name hname⟩
    cases hname.symm.trans (Path.fileName?_eq_some_iff.2 ⟨hlast, hup⟩)
  | some name =>
    obtain ⟨hlast, -⟩ := Path.fileName?_eq_some_iff.1 hname
    have hisName := Path.isName_of_fileName? hname
    exact .inr ⟨name, hlast, hisName, isName_partName hisName, assemble_touches hname rfl⟩

/-- The directory itself is no entry of it. Where it is missing it is made, even for a file that
    cannot be put together then. -/
theorem assemble_makes_directory :
    let chunk := { Chunk.make "f" 1 1 1 [1] with info := { owner := some "p" } }
    let cache := (CacheHistory.run 100 .declared [.write chunk]).cache
    let got := (Receiver.new "out" 2).assemble cache "p" "f" 1 {}
    ¬ (got.1 = .error (.invalidSign "f") ∨
      Disk.Touches (fun q => ∃ home c, got.2.2.Leads "out" home ∧ Path.IsName c ∧ q = home ++ [c])
        {} got.2.2) := by
  intro chunk cache got
  have hrefused : got.1 ≠ .error (.invalidSign "f") := by decide +kernel
  have hleads : got.2.2.Leads "out" ["out"] := by decide +kernel
  have hmade : got.2.2.node? ["out"] ≠ ({} : Disk).node? ["out"] := by decide +kernel
  rintro (herror | htouches)
  · exact hrefused herror
  · refine hmade (htouches.others ["out"] ?_)
    rintro ⟨home, c, hhome, -, heq⟩
    rw [← Disk.leads_inj hleads hhome] at heq
    simp at heq

/-! ## Section 3: Other files -/

/-- Under the temporary name all is as it was, or a file that stood there is gone, unless the
    removal is made to fail. -/
theorem written_part (hname : Path.IsName name) (hleads : d.Leads r.dir home)
    (hleft : written cache tag sign (cache.count tag sign) (Path.join r.dir (partName name))
      (Path.join r.dir name) d = d') :
    d'.node? (home ++ [partName name]) = d.node? (home ++ [partName name]) ∨
    (∃ old, d.node? (home ++ [partName name]) = some (.file old)) ∧
      d'.node? (home ++ [partName name]) = none ∨
    ∃ e left, writeFragments cache tag sign (cache.count tag sign)
        (Path.join r.dir (partName name)) (Path.join r.dir name) d = (.error e, left) ∧
      left.faults left.clock ≠ none := by
  subst hleft
  have hne : home ++ [partName name] ≠ home ++ [name] := by
    intro heq
    exact ne_partName name (List.singleton_inj.1 (List.append_cancel_left heq)).symm
  rcases written_temp cache tag sign (cache.count tag sign)
    (hleads.bound (isName_partName hname)) (hleads.bound hname) hne with hsame | hnone | hbreaks
  · exact .inl hsame
  · cases hnode : d.node? (home ++ [partName name]) with
    | none => exact .inl hnone
    | some node =>
      cases node with
      | file old => exact .inr (.inl ⟨⟨old, rfl⟩, hnone⟩)
      | dir =>
        -- a directory in the way lets no temporary file be made, and no removal takes it
        exact .inl ((written_holds cache tag sign hname hleads).keeps.dirs _ hnode)
  · exact .inr (.inr hbreaks)

/-- What stands at a place is as it was, or a directory was made there on the way to that of the
    receiver, or the place is that of the file or of its temporary file. -/
theorem assemble_others (hname : Path.fileName? sign = some name)
    (hleft : (r.assemble cache tag sign expected d).2.2 = d') (q : List String) :
    d'.node? q = d.node? q ∨
    d.node? q = none ∧ d'.node? q = some .dir ∧ d'.Passes r.dir q ∨
    ∃ home, d'.Leads r.dir home ∧ (q = home ++ [name] ∨ q = home ++ [partName name] ∧
      ((∃ old, d.node? q = some (.file old)) ∧ d'.node? q = none ∨
        r.CleanupBreaks cache tag sign name d)) := by
  have hopens := Disk.createDirAll_opens r.dir d
  rcases assemble_disk hname hleft with rfl | rfl | ⟨d₁, hmade, hwritten⟩
  · exact .inl rfl
  · exact (hopens.nodes q).imp_right .inl
  · rw [hmade] at hopens
    obtain ⟨home, hleads⟩ := Disk.leads_of_createDirAll hmade
    have hisName := Path.isName_of_fileName? hname
    have htouches := written_holds cache tag sign hisName hleads
    rw [← hwritten] at htouches
    have hstays := htouches.keeps.leads hleads
    -- what was made on the way stays, be it under one of the two names
    rcases hopens.nodes q with hsame | ⟨hnone, hdir, hpasses⟩
    · rw [← hsame]
      by_cases hplace : r.Holds d₁ name q
      · obtain ⟨home', hleads', rfl | rfl⟩ := hplace
        · exact .inr (.inr ⟨home', htouches.keeps.leads hleads', .inl rfl⟩)
        · obtain rfl := Disk.leads_inj hleads hleads'
          rcases written_part hisName hleads hwritten.symm with hsame | hgone | ⟨e, left, hbreaks⟩
          · exact .inl hsame
          · exact .inr (.inr ⟨home, hstays, .inr ⟨rfl, .inl hgone⟩⟩)
          · exact .inr (.inr ⟨home, hstays, .inr ⟨rfl, .inr ⟨d₁, e, left, hmade, hbreaks⟩⟩⟩)
      · exact .inl (htouches.others q hplace)
    · exact .inr (.inl ⟨hnone, htouches.keeps.dirs q hdir, htouches.keeps.passes hpasses⟩)

/-- A chunk leads to nothing on the disk, or to its file being put together. -/
theorem receive_disk (r : Receiver) (cache : ChunkCache) (chunk : Chunk) (d : Disk) :
    (r.receive cache chunk d).disk = d ∨ ∃ tag, chunk.info.owner = some tag ∧
      (r.receive cache chunk d).disk =
        (r.assemble cache tag chunk.sign chunk.num.toNat d).2.2 := by
  rcases r.waiting_or_ready cache chunk with hwaiting | ⟨tag, howner, hcomplete, hfree⟩
  · rw [receive_waiting hwaiting]
    exact .inl rfl
  · refine .inr ⟨tag, howner, ?_⟩
    rw [receive_ready howner hcomplete hfree]
    rcases r.assemble cache tag chunk.sign chunk.num.toNat d with ⟨_ | _, _, _⟩ <;> rfl

/-- **Receiving leaves the other files alone**, whatever comes of it: what stands at a place is as
    it was, unless the place is that of the file. There are two exceptions. Directories are made
    where they were missing, on the way to that of the receiver and this itself. And a file under
    the name of the temporary file is lost; if the temporary file could not be removed, it stands
    there instead. -/
theorem receive_leaves_others (r : Receiver) (cache : ChunkCache) (chunk : Chunk) (d : Disk)
    (q : List String) :
    let d' := (r.receive cache chunk d).disk
    d'.node? q = d.node? q ∨
    d.node? q = none ∧ d'.node? q = some .dir ∧ d'.Passes r.dir q ∨
    ∃ home name, d'.Leads r.dir home ∧ Path.fileName? chunk.sign = some name ∧
      (q = home ++ [name] ∨ q = home ++ [partName name] ∧
        ((∃ old, d.node? q = some (.file old)) ∧ d'.node? q = none ∨
          ∃ tag, chunk.info.owner = some tag ∧ r.CleanupBreaks cache tag chunk.sign name d)) := by
  intro d'
  rcases receive_disk r cache chunk d with hsame | ⟨tag, howner, hdisk⟩
  · exact .inl (congrArg (Disk.node? · q) hsame)
  · cases hname : Path.fileName? chunk.sign with
    | none =>
      rw [assemble_of_no_name hname] at hdisk
      exact .inl (congrArg (Disk.node? · q) hdisk)
    | some name =>
      rcases assemble_others hname hdisk.symm q with hsame | hmade | ⟨home, hleads, hplace⟩
      · exact .inl hsame
      · exact .inr (.inl hmade)
      · refine .inr (.inr ⟨home, name, hleads, rfl, hplace.imp_right fun ⟨hq, hfate⟩ =>
          ⟨hq, hfate.imp_right fun hbreaks => ⟨tag, howner, hbreaks⟩⟩⟩)

/-- A file that was received under the name of another's temporary file does not survive the
    other. -/
theorem receive_takes_hidden :
    let hidden := { Chunk.make ".f.part" 1 0 1 [1] with info := { owner := some "p" } }
    let chunk := { Chunk.make "f" 1 0 1 [2] with info := { owner := some "p" } }
    let r := Receiver.new "out" 2
    let before := (r.receive (CacheHistory.run 100 .declared [.write hidden]).cache hidden {}).disk
    let after := (r.receive (CacheHistory.run 100 .declared [.write chunk]).cache chunk before).disk
    ¬ ∀ home c, after.Leads "out" home → (Path.components "f").getLast? ≠ some c →
      after.node? (home ++ [c]) = before.node? (home ++ [c]) := by
  intro hidden chunk r before after hothers
  have hleads : after.Leads "out" ["out"] := by decide +kernel
  have hstood : before.node? ["out", ".f.part"] = some (.file [1]) := by decide +kernel
  have hgone : after.node? ["out", ".f.part"] = none := by decide +kernel
  have hsame := hothers ["out"] ".f.part" hleads (by decide +kernel)
  cases hgone.symm.trans (hsame.trans hstood)

end Transfer.Receiver

end Parley
