import Mathlib.Algebra.Group.Nat.Even
import Parley.Wire.Automaton
import Parley.Wire.Writer

/-! # Backslashes in values

  The writer puts a backslash in front of every structural byte of a value, but
  never in front of a backslash; the reader takes backslashes **in pairs**. A
  value therefore comes back as it was exactly when no structural byte and no end
  meets a backslash that has no partner:

  * `BackslashSafe` says so of the runs of backslashes in the value.
  * `balanced` decides it in one pass that remembers a single bit.
  * `unescapeUpTo` is what the automaton does to a value, and
    `unescapeUpTo_escape` joins it to the writer.
-/

namespace Parley.Wire

open Ascii

/-! ## Runs of backslashes -/

/-- **Backslash-safe** bytes: every maximal run of backslashes that a structural
    byte or the end follows directly has even length. -/
def BackslashSafe (bs : Bytes) : Prop :=
  ∀ (front : Bytes) (n : Nat) (back : Bytes),
    bs = front ++ List.replicate n backslash ++ back →
    front.getLast? ≠ some backslash →
    (∀ b ∈ back.head?, isStructural b = true) →
    Even n

/-- Whether all backslashes that matter have a partner; `odd` tells whether one
    without a partner stands right before the bytes. -/
def balanced (odd : Bool) : Bytes → Bool
  | [] => !odd
  | b :: bs =>
    if b = backslash then balanced (!odd) bs
    else (!isStructural b || !odd) && balanced false bs

/-- A backslash is not structural. -/
theorem isStructural_backslash : isStructural backslash = false := by decide

/-- A structural byte is no backslash. -/
theorem ne_backslash_of_isStructural {b : UInt8} (h : isStructural b = true) :
    b ≠ backslash := by
  intro e
  rw [e, isStructural_backslash] at h
  exact Bool.false_ne_true h

/-- Backslashes that do not end in one are none. -/
theorem eq_nil_of_forall_backslash {bs : Bytes} (hall : ∀ b ∈ bs, b = backslash)
    (hlast : bs.getLast? ≠ some backslash) : bs = [] := by
  by_contra hne
  apply hlast
  rw [List.getLast?_eq_some_getLast hne]
  exact congrArg some (hall _ (List.getLast_mem hne))

/-- Bytes begin with one maximal run of backslashes only. -/
theorem replicate_append_inj {n k : Nat} {back rest : Bytes}
    (hback : back.head? ≠ some backslash) (hrest : rest.head? ≠ some backslash)
    (e : List.replicate n backslash ++ back = List.replicate k backslash ++ rest) :
    n = k ∧ back = rest := by
  induction n generalizing k with
  | zero =>
    cases k with
    | zero => exact ⟨rfl, e⟩
    | succ k =>
      rw [show back = backslash :: (List.replicate k backslash ++ rest) from e] at hback
      exact absurd rfl hback
  | succ n ih =>
    cases k with
    | zero =>
      rw [show rest = backslash :: (List.replicate n backslash ++ back) from e.symm] at hrest
      exact absurd rfl hrest
    | succ k =>
      obtain ⟨hn, hb⟩ := ih (List.cons.inj e).2
      exact ⟨congrArg Nat.succ hn, hb⟩

/-- What a maximal run is followed by does not begin with a backslash. -/
theorem head?_ne_backslash {back : Bytes} (h : ∀ b ∈ back.head?, isStructural b = true) :
    back.head? ≠ some backslash := by
  intro e
  exact ne_backslash_of_isStructural (h backslash e) rfl

/-- A run of backslashes and nothing else is safe when its length is even. -/
theorem backslashSafe_replicate (k : Nat) :
    BackslashSafe (List.replicate k backslash) ↔ Even k := by
  constructor
  · intro h
    exact h [] k [] (by simp) (by simp) (by simp)
  · intro h front n back e hfront hback
    have hnil : front = [] := by
      apply eq_nil_of_forall_backslash _ hfront
      intro b hb
      apply List.eq_of_mem_replicate (n := k)
      rw [e]
      simp [hb]
    rw [hnil, List.nil_append] at e
    rw [← List.append_nil (List.replicate k backslash)] at e
    obtain ⟨hn, _⟩ := replicate_append_inj (head?_ne_backslash hback) (by simp) e.symm
    exact hn ▸ h

/-- A run of backslashes in front of another byte: what follows that byte is on
    its own, and the run must be even if the byte is structural. -/
theorem backslashSafe_replicate_append_cons (k : Nat) {b : UInt8} (hb : b ≠ backslash)
    (bs : Bytes) :
    BackslashSafe (List.replicate k backslash ++ b :: bs) ↔
      (isStructural b = true → Even k) ∧ BackslashSafe bs := by
  constructor
  · intro h
    refine ⟨fun hs => h [] k (b :: bs) rfl (by simp) (by simp [hs]), ?_⟩
    intro front n back e hfront hback
    apply h (List.replicate k backslash ++ b :: front) n back (by simp [e]) ?_ hback
    cases front with
    | nil => simpa using hb
    | cons c front => simpa [List.getLast?_append] using hfront
  · rintro ⟨hrun, hrest⟩ front n back e hfront hback
    rw [List.append_assoc] at e
    by_cases hall : ∀ c ∈ front, c = backslash
    · -- the run stands at the very beginning
      rw [eq_nil_of_forall_backslash hall hfront, List.nil_append] at e
      obtain ⟨hn, hcons⟩ := replicate_append_inj (head?_ne_backslash hback)
        (by simpa using hb) e.symm
      rw [hn]
      exact hrun (hback b (by rw [hcons]; rfl))
    · -- it stands behind the byte `b`
      rcases List.append_eq_append_iff.1 e with ⟨more, hmore, e'⟩ | ⟨more, hmore, _⟩
      · cases more with
        | nil =>
          rw [List.append_nil] at hmore
          exact absurd (fun c hc => List.eq_of_mem_replicate (hmore ▸ hc)) hall
        | cons c more =>
          obtain ⟨rfl, hbs⟩ := List.cons.inj e'
          apply hrest more n back (by rw [List.append_assoc]; exact hbs) ?_ hback
          intro hlast
          apply hfront
          rw [hmore, List.getLast?_append, List.getLast?_cons, hlast]
          rfl
      · apply absurd _ hall
        intro c hc
        apply List.eq_of_mem_replicate (n := k)
        rw [hmore]
        exact List.mem_append_left _ hc

/-- The scan that remembers whether the run so far is odd decides safety. -/
theorem backslashSafe_replicate_append_iff (k : Nat) (bs : Bytes) :
    BackslashSafe (List.replicate k backslash ++ bs) ↔
      balanced (decide (¬ Even k)) bs = true := by
  induction bs generalizing k with
  | nil => simp [balanced, backslashSafe_replicate]
  | cons b bs ih =>
    by_cases hb : b = backslash
    · have hnext : List.replicate k backslash ++ b :: bs =
          List.replicate (k + 1) backslash ++ bs := by
        rw [hb, List.replicate_succ', List.append_assoc]
        rfl
      have hparity : decide (¬ Even (k + 1)) = !decide (¬ Even k) := by
        rw [← decide_not]
        exact decide_eq_decide.2 (not_congr Nat.even_add_one)
      rw [hnext, ih (k + 1), balanced, if_pos hb, hparity]
    · have hrest := ih 0
      rw [List.replicate_zero, List.nil_append] at hrest
      rw [backslashSafe_replicate_append_cons k hb, hrest, balanced, if_neg hb]
      cases hs : isStructural b <;> simp

/-- **Safety is decided in one pass.** -/
theorem backslashSafe_iff (bs : Bytes) : BackslashSafe bs ↔ balanced false bs = true := by
  simpa using backslashSafe_replicate_append_iff 0 bs

instance (bs : Bytes) : Decidable (BackslashSafe bs) :=
  decidable_of_iff _ (backslashSafe_iff bs).symm

/-! ## What the reader makes of a value -/

/-- Reads a value up to the colon that ends it: the value, and what follows the
    colon. A backslash whose meaning is still open may stand right before it all. -/
def unescapeUpTo (pending : Bool) : Bytes → Option (Bytes × Bytes)
  | [] => none
  | b :: bs =>
    if pending then
      (unescapeUpTo false bs).map fun r =>
        ((if isStructural b then [b] else [backslash, b]) ++ r.1, r.2)
    else if b = backslash then unescapeUpTo true bs
    else if b = colon then some ([], bs)
    else (unescapeUpTo false bs).map fun r => (b :: r.1, r.2)

/-- What the reader owes for a backslash whose meaning is still open, if it turns
    out to stand for itself. -/
def owed (pending : Bool) : Bytes := if pending then [backslash] else []

@[simp] theorem escape_nil : escape [] = [] := rfl

@[simp] theorem escape_cons (b : UInt8) (bs : Bytes) :
    escape (b :: bs) = (if isStructural b then [backslash, b] else [b]) ++ escape bs := rfl

/-- The bytes that a step of the reader adds come first in what it hands back. -/
theorem map_append_eq_some_iff (read : Option (Bytes × Bytes)) (more w r : Bytes) :
    read.map (fun x => (more ++ x.1, x.2)) = some (more ++ w, r) ↔ read = some (w, r) := by
  cases read with
  | none => simp
  | some x => simp [Prod.ext_iff]

/-- **The reader inverts the writer on balanced values and on no others**: a value
    that was sent comes back as it was exactly when it is balanced, and then the
    colon behind it is the one that ends it. -/
theorem unescapeUpTo_escape (odd : Bool) (v rest r : Bytes) :
    unescapeUpTo odd (escape v ++ colon :: rest) = some (owed odd ++ v, r) ↔
      balanced odd v = true ∧ r = rest := by
  induction v generalizing odd with
  | nil =>
    cases odd with
    | false => simp [unescapeUpTo, balanced, owed, show ¬ colon = backslash by decide, eq_comm]
    | true =>
      -- the backslash takes the colon with it
      have hcolon : isStructural colon = true := by decide
      cases h : unescapeUpTo false rest with
      | none => simp [unescapeUpTo, balanced, h]
      | some x => simp [unescapeUpTo, balanced, owed, h, hcolon, show ¬ colon = backslash by decide]
  | cons b v ih =>
    have ihEven := ih false
    have ihOdd := ih true
    simp only [owed, Bool.false_eq_true, if_false, if_true, List.nil_append] at ihEven ihOdd
    by_cases hb : b = backslash
    · subst hb
      cases odd with
      | false => simpa [unescapeUpTo, balanced, owed, isStructural_backslash] using ihOdd
      | true =>
        -- the second backslash of a pair
        have hpair := map_append_eq_some_iff (unescapeUpTo false (escape v ++ colon :: rest))
          [backslash, backslash] v r
        simpa [unescapeUpTo, balanced, owed, isStructural_backslash] using hpair.trans ihEven
    · have hb' : backslash ≠ b := Ne.symm hb
      have hone := map_append_eq_some_iff (unescapeUpTo false (escape v ++ colon :: rest)) [b] v r
      cases hs : isStructural b with
      | true =>
        cases odd with
        | false => simpa [unescapeUpTo, balanced, owed, hs, hb] using hone.trans ihEven
        | true =>
          -- the writer's backslash is taken for the second one of a pair
          simp [unescapeUpTo, balanced, owed, hs, hb, hb', isStructural_backslash]
      | false =>
        have hcolon : b ≠ colon := by
          intro e
          rw [e] at hs
          exact absurd hs (by decide)
        cases odd with
        | false => simpa [unescapeUpTo, balanced, owed, hs, hb, hcolon] using hone.trans ihEven
        | true =>
          have htwo := map_append_eq_some_iff (unescapeUpTo false (escape v ++ colon :: rest))
            [backslash, b] v r
          simpa [unescapeUpTo, balanced, owed, hs, hb] using htwo.trans ihEven

end Parley.Wire
