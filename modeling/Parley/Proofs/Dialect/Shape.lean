import Parley.Proofs.Wire.Actions

/-! # Actions and stuffs, inverse to one another

  An action that has a name is filled again from its own stuffs, whatever was in it before. The
  other way round, filling an action forgets: the base of a name, what is left over on the longer
  side, all predicates after the first, and the three roles that no action speaks in. So stuffs
  come back from the action that they fill **exactly when** there was nothing to forget, that is,
  when they have the shape of an action (`build_translate_inverse`).
-/

namespace Parley

/-- Stuffs of the shape that an action has. -/
structure Stuffs.ActionShaped (s : Stuffs) : Prop where
  /-- There is one predicate, a text with something in it. -/
  predicate : ∃ name, name ≠ "" ∧ s.of .predicate = [.ofString name]
  /-- There are as many subjects as objectives. -/
  paired : (s.of .subject).length = (s.of .objective).length
  /-- The subjects are texts. -/
  named : ∀ l ∈ s.of .subject, l.base = .string
  /-- There are no attributives. -/
  attributives : s.of .attributive = []
  /-- There are no adverbials. -/
  adverbials : s.of .adverbial = []
  /-- There are no complements. -/
  complements : s.of .complement = []

namespace Action

/-- The stuffs of an action that has a name are of this shape. -/
theorem actionShaped_stuffs {a : Action} (h : a.action ≠ "") : a.stuffs.ActionShaped where
  predicate := ⟨a.action, h, rfl⟩
  paired := by simp [stuffs, Stuffs.of]
  named := by
    intro l hmem
    obtain ⟨param, -, rfl⟩ := List.mem_map.1 hmem
    rfl
  attributives := rfl
  adverbials := rfl
  complements := rfl

/-- An action that was filled from stuffs of this shape has their predicate for its name. -/
theorem action_build {s : Stuffs} {name : String} (h : s.of .predicate = [.ofString name])
    (fresh : Action) : (fresh.build s).action = name := by
  unfold build
  rw [h]
  rfl

/-- **Stuffs of this shape are those of the action that they fill.** -/
theorem stuffs_build {s : Stuffs} (h : s.ActionShaped) (fresh : Action) :
    (fresh.build s).stuffs = s := by
  obtain ⟨name, -, hpredicate⟩ := h.predicate
  have hlength : ((s.of .subject).map Literal.text).length = (s.of .objective).length := by
    rw [List.length_map, h.paired]
  apply Stuffs.ext_of
  intro kind
  cases kind with
  | subject =>
    have hnames : (((s.of .subject).map Literal.text).zip (s.of .objective)).map Prod.fst =
        (s.of .subject).map Literal.text := List.map_fst_zip (Nat.le_of_eq hlength)
    calc (fresh.build s).stuffs.of .subject
        = ((fresh.build s).params.map Prod.fst).map Literal.ofString := by
          rw [List.map_map]
          rfl
      _ = ((s.of .subject).map Literal.text).map Literal.ofString := by
          rw [← hnames]
          rfl
      _ = s.of .subject := by
          rw [List.map_map]
          -- a text is all there is to a subject
          refine (List.map_congr_left fun l hmem => ?_).trans (List.map_id _)
          show Literal.mk l.text .string = l
          rw [← h.named l hmem]
  | objective => exact List.map_snd_zip (Nat.le_of_eq hlength.symm)
  | predicate =>
    show [Literal.ofString (fresh.build s).action] = s.of .predicate
    rw [action_build hpredicate, hpredicate]
  | attributive => exact h.attributives.symm
  | adverbial => exact h.adverbials.symm
  | complement => exact h.complements.symm

/-- **Actions and the stuffs of their shape are one and the same.** An action that has a name is
    filled again from the stuffs that it is sent as: the name, and the parameters with their order,
    names that occur twice, and values in every base. And stuffs are what the action that was filled
    from them is sent as exactly when they are of the shape of an action: one predicate, which is
    a text and not empty, as many subjects as objectives, subjects that are texts, and nothing
    else. What the action was before it was filled plays no part in either. -/
theorem build_translate_inverse :
    (∀ a fresh : Action, a.action ≠ "" → ∃ s, a.translate? = some s ∧
      fresh.build s = { fresh with action := a.action, params := a.params }) ∧
    (∀ (s : Stuffs) (fresh : Action), (fresh.build s).translate? = some s ↔ s.ActionShaped) := by
  refine ⟨fun a fresh h => ⟨a.stuffs, translate?_of_action h, build_stuffs a fresh⟩,
    fun s fresh => ⟨fun h => ?_, fun h => ?_⟩⟩
  · obtain ⟨haction, hstuffs⟩ := translate?_eq_some_iff.1 h
    rw [hstuffs]
    exact actionShaped_stuffs haction
  · obtain ⟨name, hname, hpredicate⟩ := h.predicate
    rw [translate?_eq_some_iff, action_build hpredicate]
    exact ⟨hname, (stuffs_build h fresh).symm⟩

/-- An action with one name for two parameters, one of them XML. -/
def twice : Action where
  info := { tracker := "t" }
  action := "tag"
  params := [("v", .ofString "a"), ("v", .ofXml "<b/>"), ("", .ofInt32 (-1))]

/-- The stuffs of it with a subject left over. -/
def oneNameOver : Stuffs := twice.stuffs.commit (.subject (.ofString "w"))

theorem build_translate_inverse_twice :
    (twice.action ≠ "" ∧ ∃ s, twice.translate? = some s ∧
      (withTracker "u").build s = { withTracker "u" with action := "tag", params := twice.params }) ∧
    twice.stuffs.ActionShaped ∧
      ((withTracker "u").build twice.stuffs).translate? = some twice.stuffs ∧
    ¬ oneNameOver.ActionShaped ∧
      ((withTracker "u").build oneNameOver).translate? ≠ some oneNameOver := by
  have hname : twice.action ≠ "" := by decide
  have hshaped := actionShaped_stuffs hname
  have hover : ¬ oneNameOver.ActionShaped := fun h => absurd h.paired (by decide)
  exact ⟨⟨hname, build_translate_inverse.1 twice (withTracker "u") hname⟩, hshaped,
    (build_translate_inverse.2 twice.stuffs (withTracker "u")).2 hshaped, hover,
    mt (build_translate_inverse.2 oneNameOver (withTracker "u")).1 hover⟩

end Action

end Parley
