import Parley.Nucleus
import Parley.Proofs.Wire.Binding

/-! # The way in

  Peers send bytes to cellets, in whatever order and however malformed. This module says what
  comes of it:

  - a cellet gets one primitive for each of its letters that could be read and was not vetoed,
    in the order of the letters, owned by the peer;
  - the factory of a registered dialect is told that the dialect was built, then asked, and told
    again after the delivery; a veto ends this after the question, and is no error;
  - a letter that finds no cellet or cannot be read changes nothing and calls nobody.

  `Admission` says once what a letter can come to. The rest follows case by case
  (`inbound_routed`).
-/

namespace Parley

variable {κ : Type}

/-! ## Section 1: Letters -/

/-- Bytes that a peer sends to a cellet. -/
structure Letter where
  /-- The cellet. -/
  cellet : String
  /-- The peer. -/
  peer : String
  /-- The bytes. -/
  raw : Bytes

namespace Letter

/-- What a reading of the bytes comes to. -/
def reading (l : Letter) (mode : Mode) : Wire.Reading := Wire.read mode {} (.ofBytes l.raw)

/-- The primitive that was read, before a dialect is bound. -/
def primitive (l : Letter) (mode : Mode) : Primitive κ :=
  { stuffs := (l.reading mode).stuffs, owner := some l.peer }

end Letter

/-- A nucleus starts with its factories under their names. -/
theorem Nucleus.keyed_of_create {config : Config} {fresh : Uuid} {link : Link} {n : Nucleus κ}
    (h : create config fresh link = .ok n) : n.registry.Keyed := by
  unfold create at h
  split at h
  · cases h
  · rw [← Except.ok.inj h]
    exact (Registry.keyed_empty.add .action).add .chunk

variable [Content κ]

namespace Nucleus

/-- Takes a letter in. -/
def takeIn (n : Nucleus κ) (l : Letter) : Outcome κ := n.arrive l.cellet l.peer l.raw

/-- The registered factory that the dialect block of a letter leads to, and the dialect that it
    fills. -/
def answering? (n : Nucleus κ) (l : Letter) : Option (Factory κ × Dialect κ) :=
  match (l.reading n.config.mode).outcome with
  | .ok (some header) =>
    (n.registry.factory? (Wire.headerParts header).1).map fun f =>
      (f, f.fill (Wire.headerParts header).2 (l.primitive n.config.mode))
  | _ => none

/-- The primitive that a letter brings to its cellet. -/
def brought (n : Nucleus κ) (l : Letter) : Primitive κ :=
  match n.answering? l with
  | none => l.primitive n.config.mode
  | some (_, d) => (l.primitive n.config.mode).capture (d.setCellet l.cellet)

/-- Whether a factory keeps the letter from its cellet. -/
def vetoes (n : Nucleus κ) (l : Letter) : Bool :=
  match n.answering? l with
  | none => false
  | some (f, d) => !f.allowsDialogue n.registry.turn l.cellet (d.setCellet l.cellet)

/-- A nucleus that has told a factory of a dialect and has asked it for leave. -/
def heard (n : Nucleus κ) (f : Factory κ) (d : Dialect κ) : Nucleus κ :=
  { n with registry := { n.registry.built f d with turn := n.registry.turn + 1 } }

/-! ## Section 2: What a letter can come to -/

/-- Everything that a letter can come to. -/
inductive Admission (n : Nucleus κ) (l : Letter) : Outcome κ → Prop where
  /-- The cellet is not hosted. -/
  | unhosted (hcellet : n.hosts l.cellet = false) :
      Admission n l { error := some (.celletNotFound l.cellet), nucleus := n }
  /-- The bytes cannot be read. -/
  | unreadable (e : ProtocolError) (hcellet : n.hosts l.cellet = true)
      (hread : (l.reading n.config.mode).outcome = .error e) :
      Admission n l { error := some (.protocol e), nucleus := n }
  /-- No factory answers for the letter. -/
  | plain (header? : Option Bytes) (hcellet : n.hosts l.cellet = true)
      (hread : (l.reading n.config.mode).outcome = .ok header?) (hnone : n.answering? l = none) :
      Admission n l
        { error := none, nucleus := n, events := [.delivered l.cellet l.peer (n.brought l)] }
  /-- The factory does not let the dialect in. -/
  | vetoed (header : Bytes) (f : Factory κ) (d : Dialect κ) (hcellet : n.hosts l.cellet = true)
      (hread : (l.reading n.config.mode).outcome = .ok (some header))
      (hsome : n.answering? l = some (f, d)) (hveto : n.vetoes l = true) :
      Admission n l
        { error := none, nucleus := n.heard f d
          events :=
            [.hook (f.call (.built d)),
              .hook (f.call (.onDialogue l.cellet (d.setCellet l.cellet)))] }
  /-- The factory lets the dialect in. -/
  | admitted (header : Bytes) (f : Factory κ) (d : Dialect κ) (hcellet : n.hosts l.cellet = true)
      (hread : (l.reading n.config.mode).outcome = .ok (some header))
      (hsome : n.answering? l = some (f, d)) (hveto : n.vetoes l = false) :
      Admission n l
        { error := none, nucleus := n.heard f d
          events :=
            [.hook (f.call (.built d)),
              .hook (f.call (.onDialogue l.cellet (d.setCellet l.cellet))),
              .delivered l.cellet l.peer (n.brought l),
              .hook (f.call (.dialogued l.cellet (d.setCellet l.cellet)))] }

variable {n : Nucleus κ} {l : Letter}

/-- A nucleus reads a letter for its peer. -/
theorem deserialize_letter (n : Nucleus κ) (l : Letter) :
    n.codec.deserialize l.raw (some l.peer) =
      n.codec.conclude (l.primitive n.config.mode) (l.reading n.config.mode).outcome :=
  rfl

omit [Content κ] in
/-- The factory of a registered dialect is asked, and told if it lets the dialect in. -/
theorem deliver_registered (n : Nucleus κ) (cellet peer : String) (p : Primitive κ)
    {d : Dialect κ} {f : Factory κ} (hf : n.registry.factory? d.name = some f) :
    n.deliver cellet peer (p.capture d) =
      { error := none
        nucleus := { n with registry := { n.registry with turn := n.registry.turn + 1 } }
        events :=
          .hook (f.call (.onDialogue cellet (d.setCellet cellet))) ::
            if f.allowsDialogue n.registry.turn cellet (d.setCellet cellet) then
              [.delivered cellet peer (p.capture (d.setCellet cellet)),
                .hook (f.call (.dialogued cellet (d.setCellet cellet)))]
            else [] } := by
  have hname : (d.setCellet cellet).name = d.name := Dialect.name_withInfo ..
  have htold : ∀ turn, ({ n.registry with turn } : Registry κ).didDialogue cellet
      (d.setCellet cellet) = [f.call (.dialogued cellet (d.setCellet cellet))] := by
    intro turn
    unfold Registry.didDialogue Registry.factory?
    rw [hname]
    exact congrArg _ (congrArg _ hf)
  unfold deliver Primitive.capture
  dsimp only
  rw [Registry.doDialogue, hname, hf]
  dsimp only
  cases f.allowsDialogue n.registry.turn cellet (d.setCellet cellet) with
  | false => rfl
  | true =>
    dsimp only
    rw [htold]
    rfl

/-- Who answers for a letter that could be read. -/
theorem answering?_of_ok {header? : Option Bytes}
    (hread : (l.reading n.config.mode).outcome = .ok header?) :
    n.answering? l = header?.bind fun header =>
      (n.registry.factory? (Wire.headerParts header).1).map fun f =>
        (f, f.fill (Wire.headerParts header).2 (l.primitive n.config.mode)) := by
  unfold answering?
  rw [hread]
  cases header? <;> rfl

theorem brought_of_none (h : n.answering? l = none) :
    n.brought l = l.primitive n.config.mode := by
  unfold brought
  rw [h]

theorem brought_of_some {f : Factory κ} {d : Dialect κ} (h : n.answering? l = some (f, d)) :
    n.brought l = (l.primitive n.config.mode).capture (d.setCellet l.cellet) := by
  unfold brought
  rw [h]

theorem vetoes_of_some {f : Factory κ} {d : Dialect κ} (h : n.answering? l = some (f, d)) :
    n.vetoes l = !f.allowsDialogue n.registry.turn l.cellet (d.setCellet l.cellet) := by
  unfold vetoes
  rw [h]

/-- A letter whose dialect a factory has been told of. -/
theorem admission_told {header : Bytes} {f : Factory κ} {d : Dialect κ}
    (hcellet : n.hosts l.cellet = true)
    (hread : (l.reading n.config.mode).outcome = .ok (some header))
    (hsome : n.answering? l = some (f, d)) (hfound : n.registry.factory? d.name = some f) :
    n.Admission l
      { ({ n with registry := n.registry.built f d }.deliver l.cellet l.peer
            ((l.primitive n.config.mode).capture d)) with
        events := .hook (f.call (.built d)) ::
          ({ n with registry := n.registry.built f d }.deliver l.cellet l.peer
            ((l.primitive n.config.mode).capture d)).events } := by
  have hbuilt : (n.registry.built f d).factory? d.name = some f := by
    rw [Registry.factory?_built]
    exact hfound
  rw [deliver_registered { n with registry := n.registry.built f d } _ _ _ hbuilt]
  have hvetoes := vetoes_of_some hsome
  dsimp only
  rw [Registry.turn_built]
  cases hallowed : f.allowsDialogue n.registry.turn l.cellet (d.setCellet l.cellet) with
  | false =>
    rw [hallowed] at hvetoes
    exact .vetoed header f d hcellet hread hsome hvetoes
  | true =>
    rw [hallowed] at hvetoes
    have houtcome := Admission.admitted header f d hcellet hread hsome hvetoes
    rw [brought_of_some hsome] at houtcome
    exact houtcome

/-- **A letter comes to one of these.** -/
theorem admission_takeIn (hkeyed : n.registry.Keyed) (l : Letter) :
    n.Admission l (n.takeIn l) := by
  unfold takeIn arrive
  split
  · next hcellet => exact .unhosted hcellet
  · next hcellet =>
    have hhosts : n.hosts l.cellet = true := eq_true_of_ne_false hcellet
    rw [deserialize_letter]
    cases hread : (l.reading n.config.mode).outcome with
    | error e => exact .unreadable e hhosts hread
    | ok header? =>
      have hanswering := answering?_of_ok hread
      cases header? with
      | none =>
        have houtcome := Admission.plain none hhosts hread hanswering
        rw [brought_of_none hanswering] at houtcome
        exact houtcome
      | some header =>
        unfold Codec.conclude
        dsimp only
        rw [Option.bind_some] at hanswering
        cases hfactory : n.registry.factory? (Wire.headerParts header).1 with
        | none =>
          rw [hfactory] at hanswering
          have houtcome := Admission.plain (some header) hhosts hread hanswering
          rw [brought_of_none hanswering] at houtcome
          rw [Codec.bind_eq_of_none (c := n.codec) hfactory]
          exact houtcome
        | some f =>
          rw [hfactory] at hanswering
          rw [Codec.bind_eq_of_some rfl hfactory]
          -- the dialect bears the name under which its factory was found
          refine admission_told hhosts hread hanswering ?_
          rw [Factory.name_fill, hkeyed _ f hfactory]
          exact hfactory

/-- No letter changes which cellets there are. -/
theorem Admission.cellets {o : Outcome κ} (h : n.Admission l o) :
    o.nucleus.cellets = n.cellets := by
  cases h <;> rfl

/-- No letter changes which factories there are. -/
theorem Admission.factories {o : Outcome κ} (h : n.Admission l o) :
    o.nucleus.registry.factories = n.registry.factories := by
  cases h with
  | vetoed | admitted => exact Registry.factories_built ..
  | unhosted | unreadable | plain => rfl

/-! ## Section 3: What is owed to a letter -/

/-- Who a dialect speaks for: it comes from the peer and is meant for the cellet. -/
structure Addressed (l : Letter) (d : Dialect κ) : Prop where
  owner : d.owner = some l.peer
  cellet : d.info.cellet = some l.cellet

/-- What a nucleus owes to a letter. -/
structure Admits (n : Nucleus κ) (l : Letter) (o : Outcome κ) : Prop where
  /-- A call fails if the cellet is not hosted, or with what the reading failed with. -/
  error : o.error =
    if n.hosts l.cellet then
      match (l.reading n.config.mode).outcome with
      | .error e => some (.protocol e)
      | .ok _ => none
    else some (.celletNotFound l.cellet)
  /-- A call that fails calls no hook, delivers nothing and leaves all as it is. -/
  failed : o.error ≠ none → o.events = [] ∧ o.nucleus = n
  /-- Where no factory answers, the letter is delivered and no hook is called. -/
  plain : o.error = none → n.answering? l = none →
    o.events = [.delivered l.cellet l.peer (n.brought l)] ∧ (n.brought l).dialect = none
  /-- The factory that answers is told of the dialect, then asked, and told after the delivery;
      a veto leaves it at the question. -/
  registered : ∀ f d, o.error = none → n.answering? l = some (f, d) →
    o.events =
      .hook (f.call (.built d)) ::
      .hook (f.call (.onDialogue l.cellet (d.setCellet l.cellet))) ::
      if n.vetoes l then []
      else
        [.delivered l.cellet l.peer (n.brought l),
          .hook (f.call (.dialogued l.cellet (d.setCellet l.cellet)))]
  /-- What is delivered is owned by the peer. -/
  owner : (n.brought l).owner = some l.peer
  /-- So is its dialect, which is meant for the cellet. -/
  dialect : ∀ d, (n.brought l).dialect = some d → Addressed l d

/-- What a factory fills for a letter speaks for its peer. -/
theorem owner_answering {f : Factory κ} {d : Dialect κ} (h : n.answering? l = some (f, d)) :
    d.owner = some l.peer := by
  unfold answering? at h
  split at h
  · obtain ⟨g, -, heq⟩ := Option.map_eq_some_iff.1 h
    cases heq
    unfold Dialect.owner
    rw [Factory.info_fill]
    rfl
  · cases h

/-- A letter brings a primitive of its peer. -/
theorem owner_brought (n : Nucleus κ) (l : Letter) : (n.brought l).owner = some l.peer := by
  unfold brought
  cases n.answering? l <;> rfl

/-- A letter brings a dialect of its peer for its cellet, if any. -/
theorem addressed_brought {d : Dialect κ} (h : (n.brought l).dialect = some d) :
    Addressed l d := by
  cases hanswering : n.answering? l with
  | none =>
    rw [brought_of_none hanswering] at h
    cases h
  | some answer =>
    obtain ⟨f, filled⟩ := answer
    rw [brought_of_some hanswering] at h
    cases h
    have howner := owner_answering hanswering
    cases filled <;> exact ⟨howner, rfl⟩

variable {o : Outcome κ}

/-- A call fails if the cellet is not hosted, or with what the reading failed with. -/
theorem Admission.error_eq (h : n.Admission l o) : o.error =
    if n.hosts l.cellet then
      match (l.reading n.config.mode).outcome with
      | .error e => some (.protocol e)
      | .ok _ => none
    else some (.celletNotFound l.cellet) := by
  cases h with
  | unhosted hcellet =>
    rw [hcellet]
    rfl
  | unreadable _ hcellet hread | plain _ hcellet hread | vetoed _ _ _ hcellet hread
  | admitted _ _ _ hcellet hread =>
    rw [hcellet, hread]
    rfl

theorem Admission.of_failed (h : n.Admission l o) (herror : o.error ≠ none) :
    o.events = [] ∧ o.nucleus = n := by
  cases h with
  | unhosted | unreadable => exact ⟨rfl, rfl⟩
  | plain | vetoed | admitted => exact absurd rfl herror

theorem Admission.of_plain (h : n.Admission l o) (hok : o.error = none)
    (hnone : n.answering? l = none) :
    o.events = [.delivered l.cellet l.peer (n.brought l)] ∧ (n.brought l).dialect = none := by
  cases h with
  | unhosted | unreadable => cases hok
  | plain =>
    refine ⟨rfl, ?_⟩
    rw [brought_of_none hnone]
    rfl
  | vetoed _ _ _ _ _ hsome | admitted _ _ _ _ _ hsome => cases hnone.symm.trans hsome

theorem Admission.of_registered (h : n.Admission l o) {f : Factory κ} {d : Dialect κ}
    (hok : o.error = none) (hsome : n.answering? l = some (f, d)) :
    o.events =
      .hook (f.call (.built d)) ::
      .hook (f.call (.onDialogue l.cellet (d.setCellet l.cellet))) ::
      if n.vetoes l then []
      else
        [.delivered l.cellet l.peer (n.brought l),
          .hook (f.call (.dialogued l.cellet (d.setCellet l.cellet)))] := by
  cases h with
  | unhosted | unreadable => cases hok
  | plain _ _ _ hnone => cases hnone.symm.trans hsome
  | vetoed _ _ _ _ _ hother hveto | admitted _ _ _ _ _ hother hveto =>
    cases hother.symm.trans hsome
    rw [hveto]
    rfl

/-- Every letter gets what it is owed. -/
theorem Admission.admits (h : n.Admission l o) : n.Admits l o where
  error := h.error_eq
  failed := h.of_failed
  plain := h.of_plain
  registered := fun _ _ => h.of_registered
  owner := n.owner_brought l
  dialect := fun _ => addressed_brought

end Nucleus

/-! ## Section 4: The post -/

/-- What a cellet gets from an event: the peer and the primitive. -/
def Event.gets? (cellet : String) : Event κ → Option (String × Primitive κ)
  | .delivered target peer p => if target = cellet then some (peer, p) else none
  | _ => none

/-- A letter on its way in. -/
structure Visit (κ : Type) where
  /-- The nucleus that it finds. -/
  before : Nucleus κ
  /-- The letter. -/
  letter : Letter
  /-- What comes of it. -/
  outcome : Outcome κ

/-- Whether a call returns without an error and is not vetoed. -/
def Visit.passes (v : Visit κ) : Bool :=
  v.outcome.error.isNone && !v.before.vetoes v.letter

/-- What such a call delivers. -/
def Visit.delivery (v : Visit κ) : String × Primitive κ :=
  (v.letter.peer, v.before.brought v.letter)

namespace Nucleus

/-- Takes letters in, one after the other. -/
def visits (n : Nucleus κ) : List Letter → List (Visit κ)
  | [] => []
  | l :: letters => ⟨n, l, n.takeIn l⟩ :: (n.takeIn l).nucleus.visits letters

variable {n : Nucleus κ} {l : Letter}

/-- What a cellet gets from a letter. -/
theorem Admission.gets {o : Outcome κ} (h : n.Admission l o) (cellet : String) :
    o.events.filterMap (Event.gets? cellet) =
      (([⟨n, l, o⟩] : List (Visit κ)).filter fun v => v.letter.cellet = cellet && v.passes).map
        Visit.delivery := by
  have hvetoes : n.answering? l = none → n.vetoes l = false := by
    intro hnone
    unfold vetoes
    rw [hnone]
  by_cases hcellet : l.cellet = cellet
  · cases h with
    | unhosted | unreadable => simp [Visit.passes]
    | plain header? _ _ hnone =>
      simp [Visit.passes, Visit.delivery, Event.gets?, hcellet, hvetoes hnone]
    | vetoed _ _ _ _ _ _ hveto => simp [Visit.passes, Event.gets?, hveto]
    | admitted _ _ _ _ _ _ hveto =>
      simp [Visit.passes, Visit.delivery, Event.gets?, List.filterMap_cons, hcellet, hveto]
  · cases h <;> simp [Event.gets?, hcellet]

/-- **Letters are admitted.** Whatever peers send to whatever cellets, in either mode and with
    any factories: each cellet gets the primitives of those of its letters that were read and
    not vetoed, in their order, each from its peer; and every letter gets what it is owed by the
    nucleus that it finds, which has the cellets and factories that there were at the start. -/
theorem inbound_routed (n : Nucleus κ) (hkeyed : n.registry.Keyed) (letters : List Letter) :
    (n.visits letters).map Visit.letter = letters ∧
    (∀ cellet,
      ((n.visits letters).flatMap fun v => v.outcome.events).filterMap (Event.gets? cellet) =
        ((n.visits letters).filter fun v => v.letter.cellet = cellet && v.passes).map
          Visit.delivery) ∧
    ∀ v ∈ n.visits letters,
      v.before.cellets = n.cellets ∧ v.before.registry.factories = n.registry.factories ∧
        v.before.Admits v.letter v.outcome := by
  -- on the letters, for whatever nucleus the first of them finds
  induction letters generalizing n with
  | nil => exact ⟨rfl, fun _ => rfl, List.forall_mem_nil _⟩
  | cons l letters ih =>
    have hadmission := admission_takeIn hkeyed l
    obtain ⟨hletters, hgets, hrest⟩ :=
      ih (n.takeIn l).nucleus (hkeyed.congr hadmission.factories)
    refine ⟨congrArg (l :: ·) hletters, fun cellet => ?_, ?_⟩
    · have hone := hadmission.gets cellet
      show List.filterMap _ (((⟨n, l, n.takeIn l⟩ : Visit κ) :: _).flatMap _) =
        List.map _ (List.filter _ ([_] ++ _))
      rw [List.flatMap_cons, List.filterMap_append, List.filter_append, List.map_append, hone,
        hgets cellet]
    · intro v hv
      rcases List.mem_cons.1 hv with rfl | hv
      · exact ⟨rfl, rfl, hadmission.admits⟩
      · obtain ⟨hcellets, hfactories, hadmits⟩ := hrest v hv
        exact ⟨hcellets.trans hadmission.cellets, hfactories.trans hadmission.factories, hadmits⟩

end Nucleus

/-- A word, and whether it is kept from all cellets. -/
structure Gate where
  /-- The word. -/
  word : String := ""
  /-- Whether it is kept away. -/
  closed : Bool := false

/-- The word is the first subject, the flag the first attributive. -/
instance : Content Gate where
  translate? gate :=
    some (.ofList [.subject (.ofString gate.word), .attributive (.ofBool gate.closed)])
  build _ s :=
    { word := ((s.of .subject).head?.map Literal.text).getD ""
      closed := ((s.of .attributive).head?.bind Literal.asBool?).getD false }

/-- A factory that lets open gates in. -/
def Gate.factory : Factory Gate :=
  .custom
    { name := "GateDialect", label := "gate", fresh := {}
      allowsTalk := fun _ _ _ => true
      allowsDialogue := fun _ _ d =>
        match d with
        | .custom c => !c.content.closed
        | _ => true }

/-- A strict nucleus that knows gates and hosts one cellet. -/
def Gate.nucleus : Nucleus Gate :=
  { config := { mode := .strict }, tag := ⟨List.replicate 16 1, rfl⟩
    registry := Registry.add {} Gate.factory, dispatcher := .new 1, cellets := ["inbox"] }

/-- An open gate, a closed one, one without a cellet, a dialect that nobody knows, and an unknown
    role. -/
def Gate.letters : List Letter :=
  [⟨"inbox", "p", Text.ascii "[1.0]\x7bsub=a:string\x7d[GateDialect@t]"⟩,
    ⟨"inbox", "q", Text.ascii "[1.0]\x7batt=true:bool\x7d[GateDialect@t]"⟩,
    ⟨"outbox", "p", Text.ascii "[1.0]\x7bsub=a:string\x7d[GateDialect@t]"⟩,
    ⟨"inbox", "q", Text.ascii "[1.0]\x7bsub=b:string\x7d[Nobody@t]"⟩,
    ⟨"inbox", "p", Text.ascii "[1.0]\x7bsup=a:string\x7d[GateDialect@t]"⟩]

theorem Gate.inbound_routed_letters :
    Gate.nucleus.registry.Keyed ∧
    ((Gate.nucleus.visits Gate.letters).map fun v => (v.outcome.error, v.passes)) =
      [(none, true), (none, false), (some (.celletNotFound "outbox"), false), (none, true),
        (some (.protocol (.unknownKind "sup")), false)] ∧
    ((Gate.nucleus.visits Gate.letters).flatMap fun v => v.outcome.events).filterMap
        (Event.gets? "inbox") =
      ((Gate.nucleus.visits Gate.letters).filter fun v =>
        v.letter.cellet = "inbox" && v.passes).map Visit.delivery :=
  have hkeyed : Gate.nucleus.registry.Keyed := Registry.keyed_empty.add Gate.factory
  ⟨hkeyed, by decide +kernel, (Nucleus.inbound_routed Gate.nucleus hkeyed Gate.letters).2.1 "inbox"⟩

end Parley
