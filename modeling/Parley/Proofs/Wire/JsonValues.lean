import Parley.Proofs.Number.Places
import Parley.Proofs.Text.ReadBack
import Parley.Proofs.Wire.Losses
import Parley.Proofs.Wire.Relay

/-! # JSON values on the wire

  A JSON text has backslashes of its own, and the wire form puts more of them in front of the
  structural bytes without doubling those that are there. Both go together all the same:
  **in JSON a backslash never stands alone**. It opens an escape, and the byte behind it is a
  second backslash or a letter or a quote, none of which is structural. So every run of
  backslashes that a structural byte or the end follows is one of pairs.

  * `safe_escape` says so for one character, `safe_compact` for a value, by induction
    over it: safe texts behind one another are safe (`BackslashSafe.append`).
  * Numbers and truth values have no backslash at all. So a primitive of such values is read
    as it was sent (`json_survives`).
-/

namespace Parley

open Ascii

/-! ## Section 1: Texts without a backslash -/

namespace Wire

/-- Safe bytes behind safe bytes: no run goes on across the place where they meet but in
    pairs. -/
theorem BackslashSafe.append {v w : Bytes} (hv : BackslashSafe v) (hw : BackslashSafe w) :
    BackslashSafe (v ++ w) := by
  rw [backslashSafe_iff] at hv hw ⊢
  rw [balanced_append hv, hw]

end Wire

namespace Text

/-- A text has a backslash byte only from a backslash. -/
theorem backslash_not_mem_utf8 {cs : List Char} (h : '\\' ∉ cs) : backslash ∉ utf8 cs := by
  intro hmem
  obtain ⟨c, hc, hbyte⟩ := exists_char_of_mem_utf8 (by decide) hmem
  have hbackslash : c = '\\' := Char.toNat_inj.1 hbyte
  exact h (hbackslash ▸ hc)

/-- Characters whose UTF-8 form is safe. -/
def Safe (cs : List Char) : Prop := Wire.BackslashSafe (utf8 cs)

theorem Safe.append {a b : List Char} (ha : Safe a) (hb : Safe b) : Safe (a ++ b) := by
  unfold Safe
  rw [utf8_append]
  exact Wire.BackslashSafe.append ha hb

theorem safe_of_not_mem {cs : List Char} (h : '\\' ∉ cs) : Safe cs :=
  Wire.backslashSafe_of_not_mem (backslash_not_mem_utf8 h)

/-- A character that is no backslash, in front of safe ones. -/
theorem Safe.cons {c : Char} (hc : c ≠ '\\') {cs : List Char} (h : Safe cs) : Safe (c :: cs) := by
  have hone : Safe [c] := safe_of_not_mem (by simpa using hc.symm)
  exact hone.append h

end Text

theorem backslash_not_mem_of_isDigit {cs : List Char} (h : ∀ c ∈ cs, c.isDigit = true) :
    '\\' ∉ cs := by
  intro hmem
  exact absurd (h '\\' hmem) (by decide)

theorem backslash_not_mem_toDigits (n : Nat) : '\\' ∉ Nat.toDigits 10 n :=
  backslash_not_mem_of_isDigit fun _ hmem =>
    Nat.isDigit_of_mem_toDigits (by decide) (by decide) hmem

/-- Digits with a point and an exponent have no backslash. -/
theorem Layout.backslash_not_mem_chars (layout : Layout) (d : Format.Digits) :
    '\\' ∉ layout.chars d := by
  have hdigits := backslash_not_mem_toDigits d.value
  have hexponent : ∀ e, '\\' ∉ exponentPart e := by
    intro e
    have hpower := backslash_not_mem_toDigits e.natAbs
    unfold exponentPart
    split <;> simp [hpower]
  unfold chars
  dsimp only
  generalize Nat.toDigits 10 d.value = digits at hdigits ⊢
  split
  · split
    · simp [hdigits]
    · split
      · -- the digits on either side of the point
        have htake : ∀ n, '\\' ∉ digits.take n := fun n hmem => hdigits (List.mem_of_mem_take hmem)
        have hdrop : ∀ n, '\\' ∉ digits.drop n := fun n hmem => hdigits (List.mem_of_mem_drop hmem)
        simp [htake, hdrop]
      · simp [hdigits]
  · split
    · simpa [hexponent] using hdigits
    · simpa [hexponent] using hdigits
    · simp

theorem Double.backslash_not_mem_shortest (layout : Layout) (x : Double) :
    '\\' ∉ (x.shortest layout).toList := by
  unfold shortest
  split
  · next negative m e _ =>
    have hchars : '\\' ∉ (if m = 0 then ['0', '.', '0']
        else layout.chars (Format.double.shortest m e)) := by
      split
      · decide
      · exact layout.backslash_not_mem_chars _
    dsimp only
    rw [String.toList_ofList]
    split
    · simpa using hchars
    · exact hchars
  · split <;> decide
  · decide

theorem Datum.backslash_not_mem_fixed (d : Datum) : '\\' ∉ d.fixed.toList := by
  cases d with
  | nan => decide
  | infinite negative => cases negative <;> decide
  | finite negative m e =>
    have hpointed : '\\' ∉ pointed (places m e) := by
      have hfour : '\\' ∉ fourDigits (places m e % 10000) :=
        backslash_not_mem_of_isDigit fun _ hmem => isDigit_of_mem_fourDigits hmem
      simp [pointed, backslash_not_mem_toDigits, hfour]
    rw [fixed_finite, String.toList_ofList]
    unfold placed
    split
    · simpa using hpointed
    · exact hpointed

/-! ## Section 2: JSON text -/

namespace Json

open Text (Safe safe_of_not_mem)

/-- A control character is written with a backslash and five letters or digits. -/
theorem safe_control : ∀ n < 0x20,
    Safe ['\\', 'u', '0', '0', Text.hexDigit (n / 16), Text.hexDigit (n % 16)] := by
  unfold Safe
  decide +kernel

/-- **One character** in a string: a backslash there comes with the byte that it escapes. -/
theorem safe_escape (c : Char) : Safe (escape c) := by
  unfold escape
  by_cases hquote : c = '"'
  · rw [if_pos hquote]
    unfold Safe
    decide +kernel
  by_cases hbackslash : c = '\\'
  · rw [if_neg hquote, if_pos hbackslash]
    unfold Safe
    decide +kernel
  rw [if_neg hquote, if_neg hbackslash]
  -- five more have a letter of their own
  iterate 5
    split
    · unfold Safe
      decide +kernel
  split
  · next hlow => exact safe_control c.toNat hlow
  · exact safe_of_not_mem (by simpa using fun e => hbackslash e.symm)

theorem safe_quoted (s : String) : Safe (quoted s) := by
  have hchars : Safe (s.toList.flatMap escape) := by
    induction s.toList with
    | nil => exact safe_of_not_mem (by simp)
    | cons c cs ih =>
      rw [List.flatMap_cons]
      exact (safe_escape c).append ih
  exact Safe.cons (by decide) (hchars.append (safe_of_not_mem (by decide)))

theorem safe_number (n : Number) : Safe n.chars := by
  cases n with
  | integer n =>
    have hdecimal := Text.backslashSafe_decimal n.1
    rw [Text.bytes_eq_utf8] at hdecimal
    exact hdecimal
  | real x => exact safe_of_not_mem (x.1.backslash_not_mem_shortest numberLayout)

mutual

/-- The compact form of a value, whatever strings and keys are in it. -/
theorem safe_compactChars (v : Json) : Safe (compactChars v) := by
  match v with
  | .null => exact safe_of_not_mem (by decide)
  | .bool b => exact safe_of_not_mem (by cases b <;> decide)
  | .number n => exact safe_number n
  | .string s => exact safe_quoted s
  | .array [] => exact safe_of_not_mem (by decide)
  | .array (v :: vs) =>
    have hopen : Safe ('[' :: compactChars v) := Safe.cons (by decide) (safe_compactChars v)
    exact hopen.append (safe_compactItems vs)
  | .object [] => exact safe_of_not_mem (by decide)
  | .object ((k, v) :: fs) =>
    have hkey : Safe ('{' :: quoted k) := Safe.cons (by decide) (safe_quoted k)
    have hvalue : Safe (':' :: compactChars v) := Safe.cons (by decide) (safe_compactChars v)
    exact (hkey.append hvalue).append (safe_compactFields fs)

theorem safe_compactItems (vs : List Json) : Safe (compactItems vs) := by
  match vs with
  | [] => exact safe_of_not_mem (by decide)
  | v :: vs =>
    have hitem : Safe (',' :: compactChars v) := Safe.cons (by decide) (safe_compactChars v)
    exact hitem.append (safe_compactItems vs)

theorem safe_compactFields (fs : List (String × Json)) : Safe (compactFields fs) := by
  match fs with
  | [] => exact safe_of_not_mem (by decide)
  | (k, v) :: fs =>
    have hkey : Safe (',' :: quoted k) := Safe.cons (by decide) (safe_quoted k)
    have hvalue : Safe (':' :: compactChars v) := Safe.cons (by decide) (safe_compactChars v)
    exact (hkey.append hvalue).append (safe_compactFields fs)

end

/-- **The compact text of a value is safe.** -/
theorem safe_compact (v : Json) : Wire.BackslashSafe (Text.bytes v.compact) := by
  rw [Text.bytes_eq_utf8]
  unfold compact
  rw [String.toList_ofList]
  exact safe_compactChars v

end Json

/-! ## Section 3: Literals that are made of values -/

/-- Literals that are made of a number, a truth value or a JSON value. The texts of these are
    not given by anybody. -/
inductive Literal.OfValue : Literal → Prop where
  /-- A signed 32-bit word. -/
  | int32 (n : Int32) : OfValue (.ofInt32 n)
  /-- An unsigned 32-bit word. -/
  | uint32 (n : UInt32) : OfValue (.ofUInt32 n)
  /-- A signed 64-bit word. -/
  | int64 (n : Int64) : OfValue (.ofInt64 n)
  /-- An unsigned 64-bit word. -/
  | uint64 (n : UInt64) : OfValue (.ofUInt64 n)
  /-- A 32-bit number, finite or not. -/
  | single (x : Single) : OfValue (.ofSingle x)
  /-- A 64-bit number, finite or not. -/
  | double (x : Double) : OfValue (.ofDouble x)
  /-- A truth value. -/
  | bool (b : Bool) : OfValue (.ofBool b)
  /-- A JSON value, however deep. -/
  | json (v : Json) : OfValue (.ofJson v)

/-- A number with four places is safe. -/
theorem Datum.safe_fixed (d : Datum) : Wire.BackslashSafe (Text.bytes d.fixed) := by
  rw [Text.bytes_eq_utf8]
  exact Text.safe_of_not_mem d.backslash_not_mem_fixed

theorem Literal.OfValue.safe {l : Literal} (h : l.OfValue) :
    Wire.BackslashSafe (Text.bytes l.text) := by
  cases h with
  | int32 n => exact Text.backslashSafe_decimal _
  | uint32 n => exact Text.backslashSafe_decimal _
  | int64 n => exact Text.backslashSafe_decimal _
  | uint64 n => exact Text.backslashSafe_decimal _
  | single x => exact x.datum.safe_fixed
  | double x => exact x.datum.safe_fixed
  | bool b => cases b <;> decide
  | json v => exact v.safe_compact

/-! ## Section 4: On the wire -/

namespace Codec

variable {κ : Type} [Content κ]

/-- **JSON values survive the wire.** The compact text of any JSON value is safe: no run of
    backslashes in it that a structural byte or the end follows is odd. So a stuff of this value,
    in any role and at any place among stuffs that are made of numbers, truth values and JSON
    values, is read as it was sent, and so is the whole primitive. This holds in either mode
    and with any registry. -/
theorem json_survives (c : Codec κ) (v : Json) (kind : Kind) (before after : List Stuff)
    (h : ∀ stuff ∈ before ++ after, stuff.toLiteral.OfValue) (owner : Option String) :
    Wire.BackslashSafe (Text.bytes v.compact) ∧
      let p : Primitive κ :=
        { stuffs := .ofList (before ++ .ofLiteral kind (.ofJson v) :: after), owner }
      c.deserialize (Wire.serialize p) owner = { error := none, primitive := p, codec := c } := by
  refine ⟨v.safe_compact, ?_⟩
  intro p
  apply c.deserialize_serialize_of_safe rfl
  intro stuff hmem
  -- a stuff of the primitive is one of those that it was made of
  rcases List.mem_append.1 (Stuffs.mem_of_mem_ofList hmem) with hbefore | hhere
  · exact (h stuff (List.mem_append_left _ hbefore)).safe
  · rcases List.mem_cons.1 hhere with rfl | hafter
    · exact v.safe_compact
    · exact (h stuff (List.mem_append_right _ hafter)).safe

/-- A value whose key ends in a backslash, with strings that have backslashes, quotes and control
    characters in front of structural bytes. -/
def escapes : Json :=
  .object [("k\\", .array [.string "\\\x7d\"=", .object [("\x01:", .ofInt64 (-7))]])]

theorem json_survives_escapes :
    let before := [Stuff.objective (.ofDouble (Double.ofInt 3))]
    let after := [Stuff.subject (.ofBool true)]
    let c : Codec Empty := strict
    let p : Primitive Empty :=
      { stuffs := .ofList (before ++ Stuff.ofLiteral .objective (.ofJson escapes) :: after) }
    (∀ stuff ∈ before ++ after, stuff.toLiteral.OfValue) ∧
      escapes.compact =
        "\x7b\"k\\\\\":[\"\\\\\x7d\\\"=\",\x7b\"\\u0001:\":-7\x7d]\x7d" ∧
      Wire.BackslashSafe (Text.bytes escapes.compact) ∧
      (c.deserialize (Wire.serialize p) none).error = none ∧
      (c.deserialize (Wire.serialize p) none).primitive.stuffs = p.stuffs := by
  intro before after c p
  have hvalues : ∀ stuff ∈ before ++ after, stuff.toLiteral.OfValue := by
    intro stuff hmem
    rcases List.mem_cons.1 hmem with rfl | hmem
    · exact .double _
    · rw [List.mem_singleton.1 hmem]
      exact .bool true
  obtain ⟨hsafe, hread⟩ := json_survives c escapes .objective before after hvalues none
  have hp : c.deserialize (Wire.serialize p) none =
      { error := none, primitive := p, codec := c } := hread
  refine ⟨hvalues, by decide +kernel, hsafe, ?_⟩
  rw [hp]
  exact ⟨rfl, rfl⟩

end Codec

end Parley
