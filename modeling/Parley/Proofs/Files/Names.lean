import Mathlib.Data.List.TakeWhile
import Parley.Proofs.Files.Contents
import Parley.Transfer.Receiver

/-! # Names of files

  A **name** is one component of a path that means something and does not lead up.
  The last component of a path is a name, a name is the name of itself, and under a
  directory it stays the last component. So what an operation does under a name
  leaves alone what stands under another one.
-/

namespace Parley

namespace Path

/-! ## Pieces -/

theorem pieces_ne_nil (cs : List Char) : pieces cs ≠ [] := by
  fun_cases pieces cs with
  | case1 => exact List.cons_ne_nil _ _
  | case2 cs => exact List.cons_ne_nil _ _
  | case3 c cs _ hnil => exact List.cons_ne_nil _ _
  | case4 c cs _ first rest hcons => exact List.cons_ne_nil _ _

/-- No piece of a path has a slash in it. -/
theorem slash_not_mem_pieces {cs piece : List Char} (h : piece ∈ pieces cs) : '/' ∉ piece := by
  induction cs using pieces.induct generalizing piece with
  | case1 =>
    rw [pieces, List.mem_singleton] at h
    rw [h]
    exact List.not_mem_nil
  | case2 cs ih =>
    rw [pieces, List.mem_cons] at h
    rcases h with rfl | h
    · exact List.not_mem_nil
    · exact ih h
  | case3 c cs hc hnil ih =>
    rw [pieces, hnil, List.mem_singleton] at h
    · rw [h, List.mem_singleton]
      exact fun e => hc e.symm
    · exact hc
  | case4 c cs hc first rest hcons ih =>
    rw [pieces, hcons, List.mem_cons] at h
    · rcases h with rfl | h
      · rw [List.mem_cons, not_or]
        exact ⟨fun e => hc e.symm, ih (hcons ▸ List.mem_cons_self)⟩
      · exact ih (hcons ▸ List.mem_cons_of_mem first h)
    · exact hc

/-- Text without a slash is one piece. -/
theorem pieces_of_slash_not_mem {cs : List Char} (h : '/' ∉ cs) : pieces cs = [cs] := by
  induction cs with
  | nil => rfl
  | cons c cs ih =>
    have hc : c ≠ '/' := fun e => h (e ▸ List.mem_cons_self)
    have hrest := ih fun hmem => h (List.mem_cons_of_mem c hmem)
    rw [pieces, hrest]
    exact hc

/-- A slash separates pieces. -/
theorem pieces_append_slash (a b : List Char) : pieces (a ++ '/' :: b) = pieces a ++ pieces b := by
  induction a using pieces.induct with
  | case1 => rfl
  | case2 cs ih => rw [List.cons_append, pieces, ih, pieces, List.cons_append]
  | case3 c cs hc hnil ih => exact absurd hnil (pieces_ne_nil cs)
  | case4 c cs hc first rest hcons ih =>
    rw [List.cons_append, pieces, ih, hcons, pieces, hcons]
    · rfl
    · exact hc
    · exact hc

/-! ## Names -/

/-- One component that means something and does not lead up. -/
structure IsName (name : String) : Prop where
  whole : '/' ∉ name.toList
  meant : isVoid name.toList = false
  inside : name.toList ≠ up

/-- What is found to be the name of a path is a name. -/
theorem isName_of_fileName? {path name : String} (h : fileName? path = some name) :
    IsName name := by
  unfold fileName? at h
  cases hcut : cut? path with
  | none =>
    rw [hcut] at h
    cases h
  | some cut =>
    rw [hcut] at h
    dsimp only at h
    split at h
    · cases h
    · next hup =>
      have hname := Option.some.inj h
      subst hname
      unfold cut? at hcut
      dsimp only at hcut
      split at hcut
      · cases hcut
      · next last above hdrop =>
        have hlast := congrArg Cut.last (Option.some.inj hcut)
        dsimp only at hlast
        subst hlast
        -- the last piece that means something is a piece
        have hmem : cut.last ∈ pieces path.toList := by
          rw [← List.mem_reverse]
          apply List.dropWhile_subset isVoid
          rw [hdrop]
          exact List.mem_cons_self
        refine ⟨?_, ?_, ?_⟩
        · rw [String.toList_ofList]
          exact slash_not_mem_pieces hmem
        · have hhead := List.head?_dropWhile_not isVoid (pieces path.toList).reverse
          rw [hdrop] at hhead
          rw [String.toList_ofList]
          exact hhead
        · rw [String.toList_ofList]
          exact hup

/-- **The name of a path is its last component**, unless that leads up. -/
theorem fileName?_eq_some_iff {path name : String} :
    fileName? path = some name ↔ (components path).getLast? = some name ∧ name ≠ ".." := by
  have hlast : (components path).getLast? =
      ((pieces path.toList).reverse.dropWhile isVoid).head?.map String.ofList := by
    unfold components
    rw [List.getLast?_map, List.getLast?_filter, List.find?_not_eq_head?_dropWhile]
  have hup : ∀ piece : List Char, piece = up ↔ String.ofList piece = ".." := by
    intro piece
    rw [← String.toList_inj, String.toList_ofList]
    rfl
  rw [hlast]
  unfold fileName? cut?
  dsimp only
  cases (pieces path.toList).reverse.dropWhile isVoid with
  | nil => simp
  | cons last above =>
    rw [List.head?_cons, Option.map_some]
    dsimp only
    split
    · next hlast =>
      rw [hup] at hlast
      rw [hlast, Option.some.injEq]
      exact ⟨nofun, fun ⟨heq, hne⟩ => absurd heq.symm hne⟩
    · next hlast =>
      rw [hup] at hlast
      rw [Option.some.injEq]
      exact ⟨fun heq => ⟨heq, heq ▸ hlast⟩, And.left⟩

namespace IsName

variable {name : String}

theorem ne_empty (h : IsName name) : name ≠ "" := by
  rintro rfl
  exact Bool.noConfusion h.meant

/-- A name is the name of itself. -/
theorem fileName?_eq (h : IsName name) : fileName? name = some name := by
  have hcut : cut? name = some { above := [], last := name.toList, trailing := [] } := by
    unfold cut?
    simp [pieces_of_slash_not_mem h.whole, h.meant]
  unfold fileName?
  rw [hcut]
  dsimp only
  rw [if_neg h.inside, String.ofList_toList]

/-- A name does not start at the root. -/
theorem isAbsolute_eq_false (h : IsName name) : isAbsolute name = false := by
  unfold isAbsolute
  rw [decide_eq_false_iff_not]
  intro hhead
  exact h.whole (List.mem_of_mem_head? (by rw [hhead]; exact rfl))

/-- Under a directory, a name starts where the directory does. -/
theorem isAbsolute_join (h : IsName name) (dir : String) :
    isAbsolute (join dir name) = isAbsolute dir := by
  unfold join
  rw [h.isAbsolute_eq_false]
  by_cases hempty : dir = ""
  · subst hempty
    exact h.isAbsolute_eq_false
  · -- what comes behind some text does not change how it begins
    have hhead : ∀ rest : String, isAbsolute (dir ++ rest) = isAbsolute dir := by
      intro rest
      obtain ⟨c, cs, hchars⟩ :=
        List.exists_cons_of_ne_nil fun hnil => hempty (String.toList_eq_nil_iff.1 hnil)
      unfold isAbsolute
      rw [String.toList_append, hchars]
      rfl
    rw [if_neg (by simp [hempty])]
    split
    · exact hhead name
    · rw [String.append_assoc]
      exact hhead ("/" ++ name)

/-- Under a directory, a name comes behind the components of the directory. -/
theorem components_join (h : IsName name) (dir : String) :
    components (join dir name) = components dir ++ [name] := by
  have hname : pieces name.toList = [name.toList] := pieces_of_slash_not_mem h.whole
  have habsolute := h.isAbsolute_eq_false
  have hlast : ((pieces name.toList).filter fun c => !isVoid c).map String.ofList = [name] := by
    simp [hname, h.meant]
  unfold join
  rw [habsolute]
  by_cases hempty : dir = ""
  · subst hempty
    rw [if_pos (.inl rfl)]
    exact hlast
  · rw [if_neg (by simp [hempty])]
    split
    · next hslash =>
      -- the slash at the end of the directory is the one that separates
      obtain ⟨front, hfront⟩ := List.getLast?_eq_some_iff.1 hslash
      unfold components
      rw [String.toList_append, hfront, List.append_assoc, List.singleton_append,
        pieces_append_slash, pieces_append_slash, List.filter_append, List.filter_append,
        List.map_append, List.map_append, hlast]
      have hvoid : ((pieces []).filter fun c => !isVoid c).map String.ofList = [] := rfl
      rw [hvoid, List.append_nil]
    · unfold components
      have hjoin : (dir ++ "/" ++ name).toList = dir.toList ++ '/' :: name.toList := by
        rw [String.toList_append, String.toList_append, List.append_assoc]
        rfl
      rw [hjoin, pieces_append_slash, List.filter_append, List.map_append, hlast]

end IsName

end Path

/-- The name of the temporary file is a name. -/
theorem Transfer.Receiver.isName_partName {name : String} (h : Path.IsName name) :
    Path.IsName (partName name) := by
  have hchars : (partName name).toList = '.' :: (name.toList ++ ".part".toList) := by
    unfold partName
    rw [String.toList_append, String.toList_append]
    rfl
  refine ⟨?_, ?_, ?_⟩
  · rw [hchars]
    simp [h.whole]
  · rw [hchars]
    simp [Path.isVoid]
  · rw [hchars]
    intro hup
    -- it is longer than two dots
    have hlength := congrArg List.length hup
    simp [Path.up] at hlength

namespace Disk

/-! ## What is left alone -/

/-- A path leads to a directory. -/
def Leads (d : Disk) (dir : String) (home : List String) : Prop :=
  d.walk (d.start dir) (Path.components dir) = .ok home

instance (d : Disk) (dir : String) (home : List String) : Decidable (d.Leads dir home) :=
  inferInstanceAs (Decidable (d.walk (d.start dir) (Path.components dir) = .ok home))

/-- Under a directory, a path leads to the place of its name in that directory. -/
theorem leads_of_place_join {d : Disk} {dir name : String} (h : Path.IsName name)
    {p : List String} {dirOnly : Bool}
    (hplace : d.place (Path.join dir name) = .ok (p, dirOnly)) :
    ∃ home, d.Leads dir home ∧ p = home ++ [name] := by
  have hup : name ≠ ".." := fun e => h.inside (e ▸ rfl)
  have hstart : d.start (Path.join dir name) = d.start dir := by
    unfold start
    rw [h.isAbsolute_join]
  unfold place at hplace
  dsimp only at hplace
  rw [h.components_join, List.getLast?_concat, List.dropLast_concat, hstart] at hplace
  split at hplace
  · cases hplace
  · split at hplace
    · cases hplace
    · dsimp only at hplace
      rw [if_neg hup] at hplace
      split at hplace
      · cases hplace
      · next home hwalk =>
        split at hplace
        · exact ⟨home, hwalk, (congrArg Prod.fst (Except.ok.inj hplace)).symm⟩
        · cases hplace

/-- So it leads to a place of its name. -/
theorem place_join {d : Disk} {dir name : String} (h : Path.IsName name) {p : List String}
    {dirOnly : Bool} (hplace : d.place (Path.join dir name) = .ok (p, dirOnly)) :
    p.getLast? = some name := by
  obtain ⟨home, -, rfl⟩ := leads_of_place_join h hplace
  exact List.getLast?_concat

/-- Only what stands under some names may have changed. -/
structure Spares (names : List String) (d d' : Disk) : Prop where
  keeps : d.Keeps d'
  others : ∀ p node, d.node? p = some node → (∀ name ∈ names, p.getLast? ≠ some name) →
    d'.node? p = some node

variable {a b c d d' : Disk} {names : List String}

theorem Spares.trans (hab : Spares names a b) (hbc : Spares names b c) : Spares names a c where
  keeps := hab.keeps.trans hbc.keeps
  others := fun p node hp hnames => hbc.others p node (hab.others p node hp hnames) hnames

theorem Spares.tick (names : List String) (d : Disk) : Spares names d d.tick where
  keeps := .tick d
  others := fun _ _ h _ => h

theorem Grows.spares (h : d.Grows d') (names : List String) : Spares names d d' where
  keeps := h.keeps
  others := fun p node hp _ => h.nodes p node hp

theorem Wrote.spares {p : List String} {data : Bytes} (h : d.Wrote d' p data) {name : String}
    (hname : name ∈ names) (hlast : p.getLast? = some name) : Spares names d d' where
  keeps := h.keeps
  others := by
    intro q node hq hnames
    rw [h.nodes, if_neg]
    · exact hq
    · rintro rfl
      exact hnames name hname hlast

theorem Moved.spares {p q : List String} {data : Bytes} (h : d.Moved d' p q data)
    {source target : String} (hsource : source ∈ names) (hp : p.getLast? = some source)
    (htarget : target ∈ names) (hq : q.getLast? = some target) : Spares names d d' where
  keeps := h.keeps
  others := by
    intro r node hr hnames
    rw [h.nodes, if_neg, if_neg]
    · exact hr
    · rintro rfl
      exact hnames source hsource hp
    · rintro rfl
      exact hnames target htarget hq

/-- **A file under another name keeps its content.** -/
theorem Spares.content? (h : Spares names d d') {dir name : String} {data : Bytes}
    (hname : Path.IsName name) (hother : name ∉ names)
    (hcontent : d.content? (Path.join dir name) = some data) :
    d'.content? (Path.join dir name) = some data := by
  obtain ⟨p, hplace, hnode⟩ := content?_eq_some_iff.1 hcontent
  have hlast := place_join hname hplace
  apply content?_eq_some_iff.2
  refine ⟨p, h.keeps.place hplace, h.others p _ hnode fun other hmem heq => ?_⟩
  rw [hlast] at heq
  exact hother (Option.some.inj heq ▸ hmem)

end Disk

end Parley
