import Parley.Codec

/-! # What binding a dialect does

  A codec resolves the name of a dialect with the factory of this name. If there is one, the
  primitive is bound to what the factory **fills** from it: a fresh dialect with the
  tracker from the wire, the owner of the primitive and its stuffs. If there is none, the
  primitive stays as it is. Either way the reading has succeeded, and the codec goes on
  with the same factories.
-/

namespace Parley

variable {κ : Type}

/-- The dialect that a factory makes of a primitive. What is proved of its name and its
    bookkeeping rests, for a dialect of the application, on the contract that `Content` and
    `CustomFactory` tell: filling leaves them alone, and making takes over the tracker. -/
def Factory.fill [Content κ] (f : Factory κ) (tracker : String) (p : Primitive κ) : Dialect κ :=
  Dialect.build
    (match p.owner with
      | some tag => (f.create tracker).setOwner tag
      | none => f.create tracker)
    p.stuffs

/-- The factory that a codec resolves a name with. -/
def Codec.factory? (c : Codec κ) (name : String) : Option (Factory κ) :=
  c.registry.bind fun r => r.factory? name

theorem Factory.info_create (f : Factory κ) (tracker : String) :
    (f.create tracker).info = { tracker } := by
  cases f <;> rfl

/-- A factory that was added is the one of its name. -/
theorem Registry.factory?_add (r : Registry κ) (f : Factory κ) :
    (r.add f).factory? f.name = some f :=
  Table.find?_insert_self ..

theorem Registry.factory?_add_ne (r : Registry κ) {f : Factory κ} {name : String}
    (h : name ≠ f.name) : (r.add f).factory? name = r.factory? name :=
  Table.find?_insert_ne _ h _

/-- Every factory is registered under the name that its dialects bear. -/
def Registry.Keyed (r : Registry κ) : Prop := ∀ name f, r.factory? name = some f → f.name = name

theorem Registry.keyed_empty : (({} : Registry κ)).Keyed := by
  intro name f h
  cases h

theorem Registry.Keyed.add {r : Registry κ} (h : r.Keyed) (f : Factory κ) : (r.add f).Keyed := by
  intro name g hg
  by_cases hname : name = f.name
  · subst hname
    rw [r.factory?_add f] at hg
    cases hg
    rfl
  · rw [r.factory?_add_ne hname] at hg
    exact h name g hg

theorem Registry.Keyed.remove {r : Registry κ} (h : r.Keyed) (name : String) :
    (r.remove name).Keyed := by
  intro other f hf
  unfold factory? Registry.remove at hf
  by_cases hother : other = name
  · rw [hother, Table.find?_erase_self] at hf
    cases hf
  · rw [Table.find?_erase_ne r.factories hother] at hf
    exact h other f hf

theorem Registry.Keyed.congr {r s : Registry κ} (h : r.Keyed) (heq : s.factories = r.factories) :
    s.Keyed := by
  intro name f hf
  unfold factory? at hf
  rw [heq] at hf
  exact h name f hf

/-- Telling a factory what was built leaves all factories as they are. -/
theorem Registry.factory?_built (r : Registry κ) (f : Factory κ) (d : Dialect κ)
    (name : String) : (r.built f d).factory? name = r.factory? name := by
  unfold built
  split <;> rfl

@[simp] theorem Registry.turn_built (r : Registry κ) (f : Factory κ) (d : Dialect κ) :
    (r.built f d).turn = r.turn := by
  unfold built
  split <;> rfl

@[simp] theorem Registry.factories_built (r : Registry κ) (f : Factory κ) (d : Dialect κ) :
    (r.built f d).factories = r.factories := by
  unfold built
  split <;> rfl

variable [Content κ]

/-- A factory fills dialects of its own name. -/
theorem Factory.name_fill (f : Factory κ) (tracker : String) (p : Primitive κ) :
    (f.fill tracker p).name = f.name := by
  have hcreate : (f.create tracker).name = f.name := by
    cases f <;> rfl
  unfold fill
  rw [Dialect.name_build]
  cases p.owner with
  | none => exact hcreate
  | some tag =>
    show ((f.create tracker).withInfo _).name = _
    rw [Dialect.name_withInfo, hcreate]

/-- A filled dialect carries the tracker, and the owner of the primitive. -/
theorem Factory.info_fill (f : Factory κ) (tracker : String) (p : Primitive κ) :
    (f.fill tracker p).info = { tracker, owner := p.owner } := by
  unfold fill
  rw [Dialect.info_build]
  cases p.owner with
  | none => exact f.info_create tracker
  | some tag =>
    show ((f.create tracker).withInfo _).info = _
    rw [Dialect.info_withInfo, f.info_create]

namespace Codec

variable {c : Codec κ} {name : String} {f : Factory κ}

/-- A name that nobody is registered under is left unbound. -/
theorem bind_eq_of_none (h : c.factory? name = none) (p : Primitive κ) (tracker : String) :
    c.bind p name tracker = { error := none, primitive := p, codec := c } := by
  unfold bind
  split
  · rfl
  · next r hr =>
    have hname : r.factory? name = none := by
      unfold factory? at h
      rw [hr] at h
      exact h
    rw [Registry.rebuild, hname]
    cases c
    cases hr
    rfl

/-- The factory of a registered name fills the dialect and is told of it. -/
theorem bind_eq_of_some {r : Registry κ} (hr : c.registry = some r)
    (h : r.factory? name = some f) (p : Primitive κ) (tracker : String) :
    c.bind p name tracker =
      { error := none, primitive := p.capture (f.fill tracker p)
        codec := { c with registry := some (r.built f (f.fill tracker p)) }
        calls := [f.call (.built (f.fill tracker p))] } := by
  unfold bind
  rw [hr]
  dsimp only
  rw [Registry.rebuild, h]
  rfl

theorem bind_of_none (h : c.factory? name = none) (p : Primitive κ) (tracker : String) :
    (c.bind p name tracker).primitive = p := by
  rw [bind_eq_of_none h]

theorem bind_of_some (h : c.factory? name = some f) (p : Primitive κ) (tracker : String) :
    (c.bind p name tracker).primitive = p.capture (f.fill tracker p) := by
  obtain ⟨r, hr, hname⟩ := Option.bind_eq_some_iff.1 h
  rw [bind_eq_of_some hr hname]

/-- What is bound to a primitive that had no dialect was filled by a factory. -/
theorem eq_fill_of_bind {p : Primitive κ} {tracker : String} {d : Dialect κ}
    (hp : p.dialect = none) (h : (c.bind p name tracker).primitive.dialect = some d) :
    ∃ f : Factory κ, d = f.fill tracker p := by
  cases hf : c.factory? name with
  | none =>
    rw [bind_of_none hf, hp] at h
    cases h
  | some f =>
    rw [bind_of_some hf] at h
    exact ⟨f, (Option.some.inj h).symm⟩

/-- Binding never fails, and leaves stuffs and owner alone. -/
theorem bind_keeps (c : Codec κ) (p : Primitive κ) (name tracker : String) :
    (c.bind p name tracker).error = none ∧
      (c.bind p name tracker).primitive.stuffs = p.stuffs ∧
      (c.bind p name tracker).primitive.owner = p.owner := by
  refine ⟨?_, ?_⟩
  · unfold bind
    split
    · rfl
    · split <;> rfl
  · cases h : c.factory? name with
    | none => rw [bind_of_none h]; exact ⟨rfl, rfl⟩
    | some f => rw [bind_of_some h]; exact ⟨rfl, rfl⟩

/-- A reading fails with the error of its outcome, if that is one. -/
theorem error_conclude (c : Codec κ) {e : ProtocolError} (p : Primitive κ)
    (outcome : Except ProtocolError (Option Bytes)) :
    (c.conclude p outcome).error = some e ↔ outcome = .error e := by
  match outcome with
  | .error e' => simp [conclude]
  | .ok none => simp [conclude]
  | .ok (some header) =>
    have hnone := (c.bind_keeps p (Wire.headerParts header).1 (Wire.headerParts header).2).1
    simp [conclude, hnone]

theorem error_conclude_ok (c : Codec κ) (p : Primitive κ) (header? : Option Bytes) :
    (c.conclude p (.ok header?)).error = none := by
  rw [Option.eq_none_iff_forall_ne_some]
  intro e he
  cases (c.error_conclude p _).1 he

/-- Whatever the outcome is, stuffs and owner stay. -/
theorem conclude_keeps (c : Codec κ) (p : Primitive κ)
    (outcome : Except ProtocolError (Option Bytes)) :
    (c.conclude p outcome).primitive.stuffs = p.stuffs ∧
      (c.conclude p outcome).primitive.owner = p.owner := by
  match outcome with
  | .error e => exact ⟨rfl, rfl⟩
  | .ok none => exact ⟨rfl, rfl⟩
  | .ok (some header) =>
    exact (c.bind_keeps p (Wire.headerParts header).1 (Wire.headerParts header).2).2

/-- Binding leaves the factories alone. -/
theorem factory?_bind (c : Codec κ) (p : Primitive κ) (name tracker other : String) :
    (c.bind p name tracker).codec.factory? other = c.factory? other := by
  unfold bind
  split
  · rfl
  · next r hr =>
    have hfactory : c.factory? other = r.factory? other := by
      unfold factory?
      rw [hr]
      rfl
    rw [hfactory, Registry.rebuild]
    cases r.factory? name with
    | none => rfl
    | some f => exact r.factory?_built f _ other

/-- A strict codec that knows actions. -/
def ofActions : Codec Empty := { mode := .strict, registry := some (Registry.add {} .action) }

/-- A lenient codec that knows chunks. -/
def ofChunks : Codec Empty := { registry := some (Registry.add {} .chunk) }

/-- A strict codec that knows chunks. -/
def strictOfChunks : Codec Empty := { ofChunks with mode := .strict }

end Codec

end Parley
