import Parley.Proofs.Text.Repair
import Parley.Proofs.Wire.RoundTrip

/-! # What was read can be sent on

  The writer and the reader are not inverse to each other on all values, but on those that
  the reader hands out they are: **whatever has been read off the wire is safe**. A
  backslash gets into a value together with the byte behind it, which is another
  backslash or no structural byte; and a repair leaves backslashes and structural bytes
  where they are.

  So a primitive that was read, from any bytes and in either mode, can be sent on and is
  read again as it was (`reread`).
-/

namespace Parley

open Ascii

namespace Wire

/-! ## Section 1: Balanced values -/

/-- Behind a balanced value nothing is owed. -/
theorem balanced_append {odd : Bool} {v : Bytes} (h : balanced odd v = true) (w : Bytes) :
    balanced odd (v ++ w) = balanced false w := by
  induction v generalizing odd with
  | nil =>
    cases odd with
    | false => rfl
    | true => exact absurd h Bool.false_ne_true
  | cons b v ih =>
    rw [List.cons_append]
    by_cases hb : b = backslash
    · rw [balanced, if_pos hb] at h ⊢
      exact ih h
    · rw [balanced, if_neg hb, Bool.and_eq_true] at h
      rw [balanced, if_neg hb, h.1, Bool.true_and]
      exact ih h.2

/-- A byte beyond ASCII is nothing to the wire form. -/
theorem plain_of_beyond {b : UInt8} (hb : 0x80 ≤ b) : b ≠ backslash ∧ isStructural b = false := by
  have hne : ∀ c : UInt8, ¬ 0x80 ≤ c → b ≠ c := fun c hc e => hc (e ▸ hb)
  refine ⟨hne backslash (by decide), ?_⟩
  simp [isStructural, hne openBrace (by decide), hne closeBrace (by decide),
    hne equals (by decide), hne colon (by decide)]

/-- Nor is a stretch of such bytes, but a backslash before it stands for itself. -/
theorem balanced_beyond {piece : Bytes} (hpiece : piece ≠ []) (hbeyond : ∀ b ∈ piece, 0x80 ≤ b)
    (odd : Bool) (rest : Bytes) : balanced odd (piece ++ rest) = balanced false rest := by
  induction piece generalizing odd with
  | nil => exact absurd rfl hpiece
  | cons b piece ih =>
    obtain ⟨hb, hs⟩ := plain_of_beyond (hbeyond b List.mem_cons_self)
    rw [List.cons_append, balanced, if_neg hb, hs, Bool.not_false, Bool.true_or, Bool.true_and]
    cases piece with
    | nil => rfl
    | cons c piece =>
      exact ih (List.cons_ne_nil c piece) (fun x hx => hbeyond x (List.mem_cons_of_mem b hx)) false

/-- **Mending keeps the balance.** -/
theorem balanced_mended {bs out : Bytes} (h : Text.Mended bs out) (odd : Bool) :
    balanced odd out = balanced odd bs := by
  induction h generalizing odd with
  | nil => rfl
  | ascii _ _ ih =>
    rw [balanced, balanced, ih, ih]
  | stretch hpiece hmade hbeyond hmadeBeyond _ ih =>
    rw [balanced_beyond hmade hmadeBeyond, balanced_beyond hpiece hbeyond, ih]

/-! ## Section 2: Values under way -/

/-- A phase whose value, as far as it has been read, is balanced. -/
def Phase.Safe : Phase → Prop
  | .value _ read _ => balanced false read.toList = true
  | .base _ v _ => balanced false v = true
  | _ => True

/-- A byte behind a backslash. -/
theorem balanced_unescape {read : Array UInt8} (h : balanced false read.toList = true)
    (b : UInt8) : balanced false (Automaton.unescape read b).toList = true := by
  unfold Automaton.unescape
  cases hs : isStructural b with
  | true =>
    have hb := ne_backslash_of_isStructural hs
    simp [balanced_append h, balanced, hb]
  | false =>
    by_cases hb : b = backslash
    · simp [balanced_append h, balanced, hb]
    · simp [balanced_append h, balanced, hb, hs]

/-- **One byte** keeps the value under way balanced, and a stuff that it closes has a balanced
    value. -/
theorem feed_safe {a : Automaton} (h : a.phase.Safe) (b : UInt8) :
    (a.feed b).1.phase.Safe ∧
      ∀ raw, (a.feed b).2 = some (.stuff raw) → balanced false raw.value = true := by
  obtain ⟨phase, version⟩ := a
  -- only a value under way and what is read behind it matter
  cases phase with
  | unknown => exact ⟨by simp [Automaton.feed]; split <;> trivial, by simp [Automaton.feed]⟩
  | version => simp only [Automaton.feed]; split <;> simp [Phase.Safe]
  | between after =>
    simp only [Automaton.feed]
    split
    · simp [Phase.Safe]
    · split <;> simp [Phase.Safe]
  | header after read => simp only [Automaton.feed]; split <;> simp [Phase.Safe]
  | tag read => simp only [Automaton.feed]; split <;> simp [Phase.Safe, balanced]
  | value tag read escaped =>
    cases escaped with
    | true => exact ⟨balanced_unescape h b, by simp [Automaton.feed]⟩
    | false =>
      simp only [Automaton.feed]
      split
      · exact ⟨h, by simp⟩
      · next hb =>
        split
        · exact ⟨h, by simp⟩
        · exact ⟨by simp [Phase.Safe, balanced_append h, balanced, hb], by simp⟩
  | base tag value read =>
    simp only [Automaton.feed]
    split
    · refine ⟨trivial, ?_⟩
      intro raw hraw
      obtain rfl := Event.stuff.inj (Option.some.inj hraw)
      exact h
    · exact ⟨h, by simp⟩

/-! ## Section 3: Stuffs that were read -/

/-- The text of a stuff that came off the wire is the value there, mended at most. -/
theorem mended_of_accept {mode : Mode} {raw : RawStuff} {stuff : Stuff}
    (h : raw.accept mode = .ok (some stuff)) :
    Text.Mended raw.value (Text.bytes stuff.text) := by
  cases mode with
  | strict =>
    unfold RawStuff.accept at h
    cases hjudge : raw.judge with
    | error e =>
      rw [hjudge] at h
      cases h
    | ok other =>
      rw [hjudge] at h
      cases h
      rw [(judge_eq_ok hjudge).2]
      exact .refl raw.value
  | lenient =>
    have hsalvage : raw.salvage? = some stuff := Except.ok.inj h
    unfold RawStuff.salvage? at hsalvage
    split at hsalvage
    · cases hsalvage
    · cases hsalvage
      exact Text.mended_repair raw.value

end Wire

/-- Stuffs that can be sent and read again. -/
def Stuffs.Safe (s : Stuffs) : Prop :=
  ∀ stuff ∈ s.toList, Wire.BackslashSafe (Text.bytes stuff.text)

theorem Stuffs.Safe.commit {s : Stuffs} (h : s.Safe) {stuff : Stuff}
    (hstuff : Wire.BackslashSafe (Text.bytes stuff.text)) : (s.commit stuff).Safe := by
  intro other hother
  rw [mem_toList, of_commit] at hother
  split at hother
  · rcases List.mem_append.1 hother with hold | hnew
    · exact h other (mem_toList.2 hold)
    · rw [List.mem_singleton.1 hnew]
      exact hstuff
  · exact h other (mem_toList.2 hother)

namespace Wire

/-- **A whole stretch** of bytes commits nothing but safe stuffs. -/
theorem scan_safe (mode : Mode) {a : Automaton} {s : Stuffs} (ha : a.phase.Safe) (hs : s.Safe)
    (bs : Bytes) : (scan mode a s bs).stuffs.Safe := by
  -- what is under way must be safe as well, since it is committed later
  induction bs generalizing a s with
  | nil => exact hs
  | cons b bs ih =>
    obtain ⟨hnext, hraw⟩ := feed_safe ha b
    unfold scan
    split
    · next a' hfeed =>
      rw [hfeed] at hnext
      exact ih hnext hs
    · exact hs
    · next a' raw hfeed =>
      rw [hfeed] at hnext hraw
      split
      · exact hs
      · exact ih hnext hs
      · next stuff haccept =>
        apply ih hnext
        apply hs.commit
        rw [backslashSafe_iff, balanced_mended (mended_of_accept haccept)]
        exact hraw raw rfl

end Wire

/-! ## Section 4: Reading, sending, reading again -/

namespace Codec

variable {κ : Type} [Content κ]

/-- What a reading without a registry leaves, whether it succeeds or not. -/
theorem primitive_deserialize (mode : Mode) (bs : Bytes) (owner : Option String) :
    (({ mode } : Codec κ).deserialize bs owner).primitive =
      { stuffs := (Wire.scan mode .start {} bs).stuffs, owner } := by
  have hconclude : ∀ (p : Primitive κ) outcome,
      (({ mode } : Codec κ).conclude p outcome).primitive = p := by
    intro p outcome
    cases outcome with
    | error e => rfl
    | ok header => cases header <;> rfl
  cases bs with
  | nil => exact hconclude _ _
  | cons b bs =>
    rw [deserialize_eq _ (List.cons_ne_nil b bs)]
    cases Wire.scan mode .start {} (b :: bs) <;> exact hconclude _ _

/-- A primitive without a dialect whose stuffs are safe is read as it was sent. -/
theorem deserialize_serialize_of_safe (c : Codec κ) {p : Primitive κ} (hdialect : p.dialect = none)
    (hsafe : p.stuffs.Safe) (owner : Option String) :
    c.deserialize (Wire.serialize p) owner =
      { error := none, primitive := { stuffs := p.stuffs, owner }, codec := c } := by
  have hwire : Wire.serialize p =
      Wire.versionBlock ++ (p.stuffs.toList.flatMap Wire.stuffBlock ++ []) := by
    unfold Wire.serialize
    rw [hdialect, List.append_assoc]
  have hall : Stuffs.commitAll {} p.stuffs.toList = p.stuffs := Stuffs.ofList_toList p.stuffs
  have hscan : Wire.scan c.mode .start {} (Wire.serialize p) =
      .running ⟨.between (false || !p.stuffs.toList.isEmpty),
        (Text.bytes Wire.protocolVersion).toArray⟩ p.stuffs := by
    rw [hwire, Wire.scan_versionBlock, Wire.scan_stuffBlocks c.mode _ _ _ hsafe, hall]
    rfl
  rw [deserialize_eq c (Wire.serialize_ne_nil p), hscan]
  -- the end of the stuffs is a boundary
  simp [Wire.ending, Wire.Automaton.atBoundary, conclude]

/-- **Whatever was read can be sent on.** Bytes that were read in either mode, without a
    registry, leave a primitive that is read again as it was, in either mode; and sent
    once more it is the same bytes. This holds of what was read before a failure, too. -/
theorem reread (mode again : Mode) (bs : Bytes) (owner owner' : Option String) :
    let p := (({ mode } : Codec κ).deserialize bs owner).primitive
    let r := ({ mode := again } : Codec κ).deserialize (Wire.serialize p) owner'
    r.error = none ∧ r.primitive.stuffs = p.stuffs ∧
      Wire.serialize r.primitive = Wire.serialize p := by
  intro p r
  have hp : p = { stuffs := (Wire.scan mode .start {} bs).stuffs, owner } :=
    primitive_deserialize mode bs owner
  have hdialect : p.dialect = none := by rw [hp]
  have hsafe : p.stuffs.Safe := by
    have hstart : Wire.Automaton.start.phase.Safe := trivial
    have hnothing : Stuffs.Safe {} := by
      intro stuff h
      cases h
    rw [hp]
    exact Wire.scan_safe mode hstart hnothing bs
  have hr :
      r = { error := none, primitive := { stuffs := p.stuffs, owner := owner' }, codec := _ } :=
    deserialize_serialize_of_safe _ hdialect hsafe owner'
  rw [hr]
  refine ⟨rfl, rfl, ?_⟩
  unfold Wire.serialize
  rw [hdialect]

/-- A value with everything in it: a backslash before a byte that is no UTF-8, structural bytes that
    are not escaped, a backslash before a letter, one before a colon, and two in a row. -/
def untidy : Bytes :=
  Text.ascii "[1.0]\x7bsub=\\" ++ 0xFF :: Text.ascii "\x7ba=b\x7d\\c\\:\\\\d:string\x7d"

/-- The text is repaired once and then stays, as a strict reader finds. -/
theorem reread_untidy :
    let p := (({ } : Codec Empty).deserialize untidy none).primitive
    let r := ({ mode := .strict } : Codec Empty).deserialize (Wire.serialize p) none
    (p.stuffs.of .subject).map Literal.text = ["\\\uFFFD\x7ba=b\x7d\\c:\\\\d"] ∧
      Wire.serialize p ≠ untidy ∧
      r.error = none ∧ r.primitive.stuffs = p.stuffs ∧
      Wire.serialize r.primitive = Wire.serialize p := by
  intro p r
  refine ⟨by decide +kernel, by decide +kernel, ?_⟩
  exact reread .lenient .strict untidy none none

end Codec

end Parley
