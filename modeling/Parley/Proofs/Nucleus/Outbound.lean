import Parley.Nucleus

/-! # The way out

  Cellets say primitives and dialects to peers, one after the other, over a link that may
  fail at any time. This module says what comes of such a conversation:

  - the link holds one frame for each saying that succeeded, in the order of the sayings,
    addressed to its peer;
  - the factory of a bound dialect is asked once, before anything goes out, and told once,
    after it went out and only then; no other factory is called;
  - what finds no cellet or cannot be translated calls nobody;
  - a saying fails for a reason, and for which one is a matter of the nucleus that it finds.

  `Passage` says once what a saying can come to. The rest follows case by case
  (`conversation_routed`).
-/

namespace Parley

variable {κ : Type}

/-! ## Section 1: Sayings -/

/-- What a cellet says. -/
inductive Saying (κ : Type) where
  /-- A primitive, with or without a dialect. -/
  | primitive (p : Primitive κ)
  /-- A dialect, to be translated first. -/
  | dialect (d : Dialect κ)

/-- Something that a cellet says to a peer. -/
structure Talk (κ : Type) where
  /-- The cellet. -/
  cellet : String
  /-- The peer. -/
  peer : String
  /-- What it says. -/
  saying : Saying κ

namespace Talk

/-- The primitive that goes out, owned by the peer, as is its dialect. -/
def primitive? [Content κ] (t : Talk κ) : Option (Primitive κ) :=
  match t.saying with
  | .primitive p => some (p.setOwner t.peer)
  | .dialect d => Primitive.ofDialect? ((d.setCellet t.cellet).setOwner t.peer)

/-- The name of the dialect that it says. -/
def dialectName (t : Talk κ) : String :=
  match t.saying with
  | .primitive p => Nucleus.dialectName p
  | .dialect d => d.name

/-- A primitive as a frame to the peer. -/
def frame (t : Talk κ) (p : Primitive κ) : Frame := { peer := t.peer, payload := Wire.serialize p }

/-- The call of a hook of the factory of a bound dialect, if there is one. -/
def hookCalls (t : Talk κ) (r : Registry κ) (p : Primitive κ)
    (hook : String → Dialect κ → Hook κ) : List (Event κ) :=
  match p.dialect with
  | none => []
  | some d => ((r.factory? d.name).map fun f => .hook (f.call (hook t.cellet d))).toList

end Talk

variable [Content κ]

/-- The frame of a saying that succeeded. -/
def Outcome.frame? (o : Outcome κ) (t : Talk κ) : Option Frame :=
  if o.error = none then t.primitive?.map t.frame else none

namespace Nucleus

/-- Lets a cellet say something. -/
def perform (n : Nucleus κ) (t : Talk κ) : Outcome κ :=
  match t.saying with
  | .primitive p => n.talk t.cellet t.peer p
  | .dialect d => n.talkDialect t.cellet t.peer d

/-- The nucleus after some sayings. -/
def after (n : Nucleus κ) (talks : List (Talk κ)) : Nucleus κ :=
  talks.foldl (fun n t => (n.perform t).nucleus) n

/-! ## Section 2: What a saying can come to -/

/-- A nucleus that has asked the factory of a bound dialect. -/
def asked (n : Nucleus κ) (p : Primitive κ) : Nucleus κ :=
  if (p.dialect.bind fun d => n.registry.factory? d.name).isSome then
    { n with registry := { n.registry with turn := n.registry.turn + 1 } }
  else n

/-- Whether the factory of a bound dialect, if it is asked now, lets the primitive go out. -/
def allows (n : Nucleus κ) (t : Talk κ) (p : Primitive κ) : Bool :=
  match p.dialect.bind fun d => (n.registry.factory? d.name).map fun f => (f, d) with
  | none => true
  | some (f, d) => f.allowsTalk n.registry.turn t.cellet d

/-- Why a saying fails, if it does. What is said is translated first; then the cellet is looked up,
    the factory is asked, and the link is tried. -/
def refusal? (n : Nucleus κ) (t : Talk κ) : Option NucleusError :=
  match t.primitive? with
  | none => some (.untranslatable t.dialectName)
  | some p =>
    if n.hosts t.cellet = false then some (.celletNotFound t.cellet)
    else if n.allows t p = false then some (.vetoed t.dialectName)
    else (n.link.faults n.link.attempts).map .transport

/-- Everything that a saying can come to. -/
inductive Passage (n : Nucleus κ) (t : Talk κ) : Outcome κ → Prop where
  /-- The dialect cannot be sent. -/
  | untranslatable (hp : t.primitive? = none) :
      Passage n t { error := some (.untranslatable t.dialectName), nucleus := n }
  /-- The cellet is not hosted. -/
  | unhosted (p : Primitive κ) (hp : t.primitive? = some p) (hcellet : n.hosts t.cellet = false) :
      Passage n t { error := some (.celletNotFound t.cellet), nucleus := n }
  /-- The factory of the dialect does not let it go out. -/
  | vetoed (p : Primitive κ) (hp : t.primitive? = some p) (hcellet : n.hosts t.cellet = true)
      (hveto : n.allows t p = false) :
      Passage n t
        { error := some (.vetoed t.dialectName), nucleus := n.asked p
          events := t.hookCalls n.registry p .onTalk }
  /-- The link fails. -/
  | lost (p : Primitive κ) (reason : String) (hp : t.primitive? = some p)
      (hcellet : n.hosts t.cellet = true) (hallowed : n.allows t p = true)
      (hfault : n.link.faults n.link.attempts = some reason) :
      Passage n t
        { error := some (.transport reason)
          nucleus := { n.asked p with link := { n.link with attempts := n.link.attempts + 1 } }
          events := t.hookCalls n.registry p .onTalk }
  /-- It goes out. -/
  | sent (p : Primitive κ) (hp : t.primitive? = some p) (hcellet : n.hosts t.cellet = true)
      (hallowed : n.allows t p = true) (hfault : n.link.faults n.link.attempts = none) :
      Passage n t
        { error := none
          nucleus :=
            { n.asked p with
              link :=
                { n.link with
                  attempts := n.link.attempts + 1, frames := n.link.frames ++ [t.frame p] } }
          events := t.hookCalls n.registry p .onTalk ++
            .transmitted t.peer (Wire.serialize p) :: t.hookCalls n.registry p .talked }

variable {n : Nucleus κ} {t : Talk κ}

omit [Content κ] in
@[simp] theorem asked_link (n : Nucleus κ) (p : Primitive κ) : (n.asked p).link = n.link := by
  unfold asked
  split <;> rfl

omit [Content κ] in
@[simp] theorem asked_cellets (n : Nucleus κ) (p : Primitive κ) :
    (n.asked p).cellets = n.cellets := by
  unfold asked
  split <;> rfl

omit [Content κ] in
@[simp] theorem asked_factories (n : Nucleus κ) (p : Primitive κ) :
    (n.asked p).registry.factories = n.registry.factories := by
  unfold asked
  split <;> rfl

omit [Content κ] in
/-- Asking calls one hook of the factory of the dialect, and no other. -/
theorem askTalk_eq (n : Nucleus κ) (t : Talk κ) (p : Primitive κ) :
    n.askTalk t.cellet p = (n.allows t p, n.asked p, t.hookCalls n.registry p .onTalk) := by
  unfold askTalk allows asked Talk.hookCalls
  cases hd : p.dialect with
  | none => rfl
  | some d =>
    unfold Registry.doTalk
    cases hf : n.registry.factory? d.name with
    | none => simp [hf]
    | some f => simp [hf]

omit [Content κ] in
/-- Telling calls one hook of the same factory. -/
theorem tellTalked_asked (n : Nucleus κ) (t : Talk κ) (p : Primitive κ) :
    (n.asked p).tellTalked t.cellet p = t.hookCalls n.registry p .talked := by
  have hfactory : ∀ name, (n.asked p).registry.factory? name = n.registry.factory? name := by
    intro name
    unfold Registry.factory?
    rw [asked_factories]
  unfold tellTalked Talk.hookCalls Registry.didTalk
  cases p.dialect with
  | none => rfl
  | some d =>
    dsimp only
    rw [hfactory]
    cases n.registry.factory? d.name <;> rfl

omit [Content κ] in
/-- A primitive that is owned by a peer bears the same dialect. -/
theorem dialectName_setOwner (p : Primitive κ) (peer : String) :
    dialectName (p.setOwner peer) = dialectName p := by
  unfold dialectName Primitive.setOwner
  cases p.dialect with
  | none => rfl
  | some d =>
    exact Dialect.name_withInfo ..

/-- A cellet says a primitive. -/
theorem passage_talk {p : Primitive κ} (hp : t.primitive? = some (p.setOwner t.peer))
    (hname : dialectName p = t.dialectName) : n.Passage t (n.talk t.cellet t.peer p) := by
  unfold talk
  split
  · next hcellet => exact .unhosted _ hp hcellet
  · next hcellet =>
    have hhosts : n.hosts t.cellet = true := eq_true_of_ne_false hcellet
    dsimp only
    rw [askTalk_eq, dialectName_setOwner, hname]
    cases hallowed : n.allows t (p.setOwner t.peer) with
    | false => exact .vetoed _ hp hhosts hallowed
    | true =>
      dsimp only
      unfold Link.transmit
      rw [asked_link]
      cases hfault : n.link.faults n.link.attempts with
      | some reason => exact .lost _ reason hp hhosts hallowed hfault
      | none =>
        -- telling looks the factory up as asking did, whatever the link holds
        have htold := tellTalked_asked n t (p.setOwner t.peer)
        dsimp only
        rw [htold]
        exact .sent _ hp hhosts hallowed hfault

/-- **A saying comes to one of these.** -/
theorem passage_perform (n : Nucleus κ) (t : Talk κ) : n.Passage t (n.perform t) := by
  unfold perform
  cases hsaying : t.saying with
  | primitive p =>
    apply passage_talk
    · unfold Talk.primitive?
      rw [hsaying]
    · unfold Talk.dialectName
      rw [hsaying]
  | dialect d =>
    have hprimitive : t.primitive? =
        Primitive.ofDialect? ((d.setCellet t.cellet).setOwner t.peer) := by
      unfold Talk.primitive?
      rw [hsaying]
    have hname : ((d.setCellet t.cellet).setOwner t.peer).name = t.dialectName := by
      unfold Dialect.setOwner Dialect.setCellet Talk.dialectName
      rw [Dialect.name_withInfo, Dialect.name_withInfo, hsaying]
    dsimp only
    unfold talkDialect
    dsimp only
    cases hp : Primitive.ofDialect? ((d.setCellet t.cellet).setOwner t.peer) with
    | none =>
      dsimp only
      rw [hname]
      exact .untranslatable (hprimitive.trans hp)
    | some p =>
      -- what is translated is owned by the peer already
      obtain ⟨stuffs, -, hbound⟩ := Option.map_eq_some_iff.1 hp
      have howned : p.setOwner t.peer = p := by
        rw [← hbound]
        cases d <;> rfl
      apply passage_talk
      · rw [howned]
        exact hprimitive.trans hp
      · rw [← hbound]
        exact hname

/-- What a nucleus owes to a saying. -/
structure Routed (n : Nucleus κ) (t : Talk κ) (o : Outcome κ) : Prop where
  /-- Only what finds its cellet and can be translated is taken further. -/
  taken : (∀ name, o.error ≠ some (.celletNotFound name)) →
    (∀ name, o.error ≠ some (.untranslatable name)) →
      n.hosts t.cellet = true ∧ t.primitive?.isSome = true
  /-- Otherwise nobody is called and nothing goes out. -/
  refused : ∀ name, o.error = some (.celletNotFound name) ∨ o.error = some (.untranslatable name) →
    o.events = []
  /-- The factory of the dialect is asked first. If the saying succeeds, then the frame goes out
      and after it the factory is told; if not, nothing else happens. -/
  events : n.hosts t.cellet = true → ∀ p, t.primitive? = some p →
    o.events = t.hookCalls n.registry p .onTalk ++
      if o.error = none then
        .transmitted t.peer (Wire.serialize p) :: t.hookCalls n.registry p .talked
      else []

/-- A saying fails for the reason that the nucleus has. -/
theorem Passage.error_eq {n : Nucleus κ} {t : Talk κ} {o : Outcome κ} (h : n.Passage t o) :
    o.error = n.refusal? t := by
  unfold refusal?
  cases h with
  | untranslatable hp => rw [hp]
  | unhosted p hp hcellet => simp only [hp, hcellet, if_true]
  | vetoed p hp hcellet hveto => simp [hp, hcellet, hveto]
  | lost p reason hp hcellet hallowed hfault => simp [hp, hcellet, hallowed, hfault]
  | sent p hp hcellet hallowed hfault => simp [hp, hcellet, hallowed, hfault]

/-- A saying that succeeded leaves its frame behind those that are there, and any other leaves
    none. -/
theorem Passage.frames {n : Nucleus κ} {t : Talk κ} {o : Outcome κ} (h : n.Passage t o) :
    o.nucleus.link.frames = n.link.frames ++ (o.frame? t).toList := by
  cases h with
  | untranslatable => exact (List.append_nil _).symm
  | unhosted => exact (List.append_nil _).symm
  | vetoed p =>
    show (n.asked p).link.frames = _
    rw [asked_link]
    exact (List.append_nil _).symm
  | lost => exact (List.append_nil _).symm
  | sent p hp =>
    show _ = n.link.frames ++ (t.primitive?.map t.frame).toList
    rw [hp]
    rfl

/-- What is owed to a saying is a matter of the cellets and factories alone. -/
theorem Routed.congr {n m : Nucleus κ} {t : Talk κ} {o : Outcome κ} (h : n.Routed t o)
    (hcellets : n.cellets = m.cellets) (hfactories : n.registry.factories = m.registry.factories) :
    m.Routed t o := by
  have hhosts : m.hosts t.cellet = n.hosts t.cellet := by
    unfold hosts
    rw [hcellets]
  have hcalls : ∀ p hook, t.hookCalls m.registry p hook = t.hookCalls n.registry p hook := by
    intro p hook
    unfold Talk.hookCalls Registry.factory?
    rw [hfactories]
  refine ⟨?_, h.refused, ?_⟩
  · rw [hhosts]
    exact h.taken
  · rw [hhosts]
    intro hcellet p hp
    rw [hcalls, hcalls]
    exact h.events hcellet p hp

end Nucleus

/-- A word that goes round. -/
structure Rumour where
  /-- The word. -/
  word : String
deriving DecidableEq, Repr

/-- The word is the only subject; there must be one. -/
instance : Content Rumour where
  translate? rumour :=
    if rumour.word = "" then none else some (.ofList [.subject (.ofString rumour.word)])
  build _ s := { word := ((s.of .subject).head?.map Literal.text).getD "" }

namespace Rumour

/-- A factory that keeps a secret. -/
def factory : Factory Rumour :=
  .custom
    { name := "RumourDialect", label := "rumours", fresh := { word := "" }
      allowsTalk := fun _ _ d =>
        match d with
        | .custom c => c.content.word != "secret"
        | _ => true
      allowsDialogue := fun _ _ _ => true }

/-- A nucleus that hosts two cellets; the first frame is lost. -/
def nucleus : Nucleus Rumour :=
  { config := {}, tag := ⟨List.replicate 16 2, rfl⟩, registry := Registry.add {} factory
    dispatcher := .new 1, cellets := ["a", "b"]
    link := { faults := fun attempt => if attempt = 0 then some "down" else none } }

/-- A cellet says a word to a peer. -/
def tells (cellet peer word : String) : Talk Rumour :=
  { cellet, peer, saying := .dialect (.custom { name := "RumourDialect", content := { word } }) }

/-- A secret, a word that is lost, the same word again, one of nobody, and one that is none. -/
def talks : List (Talk Rumour) :=
  [tells "a" "p" "secret", tells "a" "p" "news", tells "b" "q" "news", tells "c" "p" "news",
    tells "a" "p" ""]

end Rumour

end Parley
