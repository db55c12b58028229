import Parley.Config
import Parley.Proofs.Json.Terms

/-! # Configurations, read back

  A configuration is written as records inside a record, each with its names in order and no
  name twice. A reader of terms finds each setting under its name and takes it for what it was
  written for: words of 64 bits whatever their size, the few words of a choice, and tags in the
  form with hyphens.
-/

namespace Parley

/-! ## Section 1: Tags -/

namespace Uuid

/-- Groups with hyphens between them are read without the hyphens. -/
theorem ofHyphenated?_groups {a b c d e : List Char} (ha : a.length = 8) (hb : b.length = 4)
    (hc : c.length = 4) (hd : d.length = 4) (he : e.length = 12) :
    ofHyphenated? (a ++ '-' :: (b ++ '-' :: (c ++ '-' :: (d ++ '-' :: e)))) =
      ofDigits? (a ++ b ++ c ++ d ++ e) := by
  unfold ofHyphenated?
  simp [List.drop_append, List.drop_of_length_le, ha, hb, hc, hd, he]

/-- **A tag is read back from its text.** -/
theorem read?_text (u : Uuid) : read? u.text = some u := by
  obtain ⟨bs, hlength⟩ := u
  let group (start stop : Nat) : List Char := (Text.hex ((bs.take stop).drop start)).toList
  have hgroup (start stop : Nat) (hstop : stop ≤ 16) :
      (group start stop).length = 2 * (stop - start) := by
    show (Text.hex _).toList.length = _
    rw [Text.length_hex, List.length_drop, List.length_take]
    omega
  have hchars : (text ⟨bs, hlength⟩).toList = group 0 4 ++ '-' :: (group 4 6 ++
      '-' :: (group 6 8 ++ '-' :: (group 8 10 ++ '-' :: group 10 16))) := by
    have hhyphen : "-".toList = ['-'] := rfl
    unfold text
    simp only [String.toList_append, hhyphen, List.append_assoc, List.singleton_append]
    rfl
  have hdigits : group 0 4 ++ group 4 6 ++ group 6 8 ++ group 8 10 ++ group 10 16 =
      (Text.hex bs).toList := by
    -- each group goes on where the one before it has stopped
    have hnext (start stop : Nat) (hle : start ≤ stop) :
        (Text.hex (bs.take start)).toList ++ group start stop =
          (Text.hex (bs.take stop)).toList := by
      have htake : bs.take start = (bs.take stop).take start := by
        rw [List.take_take, Nat.min_eq_left hle]
      show _ ++ (Text.hex ((bs.take stop).drop start)).toList = _
      rw [← Text.hex_append, htake, List.take_append_drop]
    have hfirst : group 0 4 = (Text.hex (bs.take 4)).toList := rfl
    rw [hfirst, hnext 4 6 (by decide), hnext 6 8 (by decide), hnext 8 10 (by decide),
      hnext 10 16 (by decide), List.take_of_length_le (Nat.le_of_eq hlength)]
  have h36 : (text ⟨bs, hlength⟩).toList.length = 36 := by
    rw [hchars]
    simp [hgroup]
  unfold read?
  dsimp only
  rw [h36, if_neg (by decide), if_pos rfl, hchars, ofHyphenated?_groups (hgroup 0 4 (by decide))
    (hgroup 4 6 (by decide)) (hgroup 6 8 (by decide)) (hgroup 8 10 (by decide))
    (hgroup 10 16 (by decide)), hdigits]
  unfold ofDigits? ofBytes?
  rw [Text.hexBytes?_hex, Option.bind_some, dif_pos hlength]

end Uuid

/-! ## Section 2: Records -/

namespace Config

open Json

/-- Where no name stands twice, each name has its own term. -/
theorem single?_fieldTerms {fields : List (String × Json)}
    (hnames : (fields.map Prod.fst).Nodup) {field : String × Json} (hmem : field ∈ fields) :
    single? (Text.bytes field.1) (fieldTerms fields) = some (some field.2.term) := by
  have hfilter : (fieldTerms fields).filter (fun f => f.1 == Text.bytes field.1) =
      [(Text.bytes field.1, field.2.term)] := by
    rw [fieldTerms_eq_map]
    induction fields with
    | nil => cases hmem
    | cons other fields ih =>
      obtain ⟨hother, hrest⟩ := List.nodup_cons.1 hnames
      rw [List.map_cons]
      rcases List.mem_cons.1 hmem with rfl | hmem
      · -- no name behind the first is the same
        rw [List.filter_cons_of_pos (by exact beq_self_eq_true _), List.filter_eq_nil_iff.2]
        intro f hf hsame
        obtain ⟨g, hg, rfl⟩ := List.mem_map.1 hf
        exact hother (List.mem_map.2 ⟨g, hg, Text.bytes_inj.1 (eq_of_beq hsame)⟩)
      · rw [List.filter_cons_of_neg, ih hrest hmem]
        intro hsame
        have hname : other.1 = field.1 := Text.bytes_inj.1 (eq_of_beq hsame)
        exact hother (List.mem_map.2 ⟨field, hmem, hname.symm⟩)
  unfold single?
  rw [hfilter]

/-- **A record that is written in full is read in full.** -/
theorem record?_term (fields : List (String × Json)) (hnames : (fields.map Prod.fst).Nodup) :
    record? (fields.map Prod.fst) (term (.object fields)) =
      some (fields.map fun field => some field.2.term) := by
  have htexts : (fieldTerms fields).all (fun f => (Text.ofBytes? f.1).isSome) = true := by
    rw [fieldTerms_eq_map, List.all_map, List.all_eq_true]
    intro field hmem
    show (Text.ofBytes? (Text.bytes field.1)).isSome = true
    rw [Text.ofBytes?_bytes]
    rfl
  have hfound : ∀ found : List (String × Json), found ⊆ fields →
      (found.map Prod.fst).mapM (fun name => single? (Text.bytes name) (fieldTerms fields)) =
        some (found.map fun field => some field.2.term) := by
    intro found hsubset
    induction found with
    | nil => rfl
    | cons field found ih =>
      rw [List.map_cons, List.mapM_cons, single?_fieldTerms hnames (hsubset List.mem_cons_self),
        ih fun other hmem => hsubset (List.mem_cons_of_mem field hmem)]
      rfl
  show (if (fieldTerms fields).all (fun f => (Text.ofBytes? f.1).isSome) then
    (fields.map Prod.fst).mapM (fun name => single? (Text.bytes name) (fieldTerms fields))
    else none) = _
  rw [if_pos htexts, hfound fields (List.Subset.refl fields)]

/-! ## Section 3: Settings -/

theorem word?_term (w : UInt64) : word? (ofUInt64 w).term = some w := by
  have hlt := w.toNat_lt
  let i : Integer := ⟨w.toNat, by omega⟩
  show (i.lexeme.integer?.filter fun n => 0 ≤ n.1).map (fun n => UInt64.ofNat n.1.toNat) = _
  rw [i.integer?_lexeme, Option.filter_some, if_pos (decide_eq_true (Int.natCast_nonneg _))]
  show some (UInt64.ofNat w.toNat) = _
  rw [UInt64.ofNat_toNat]

theorem order?_term (order : ReadOrder) : order? (Json.string order.name).term = some order := by
  show (Text.ofBytes? (Text.bytes order.name)).bind _ = _
  rw [Text.ofBytes?_bytes]
  cases order <;> rfl

theorem mode?_term (mode : Mode) : mode? (Json.string mode.name).term = some mode := by
  show (Text.ofBytes? (Text.bytes mode.name)).bind _ = _
  rw [Text.ofBytes?_bytes]
  cases mode <;> rfl

theorem tag?_term (tag : Option Uuid) :
    tag? ((tag.map fun u => Json.string u.text).getD .null).term = some tag := by
  cases tag with
  | none => rfl
  | some u =>
    show ((Text.ofBytes? (Text.bytes u.text)).bind Uuid.read?).map some = _
    rw [Text.ofBytes?_bytes, Option.bind_some, u.read?_text]
    rfl

/-! ## Section 4: Sections -/

section

variable {c : Config} {record : Term}

theorem action?_of_record {workers : Term} {maxWorkers : UInt64}
    (hrecord : record? ["max_workers"] record = some [some workers])
    (hworkers : word? workers = some maxWorkers) :
    c.action? record = some { c with maxWorkers } := by
  unfold action?
  simp only [hrecord, orUsual, hworkers, Option.bind_eq_bind, Option.bind_some]

theorem chunk?_of_record {size threshold order : Term} {chunkSize clearThreshold : UInt64}
    {readOrder : ReadOrder}
    (hrecord : record? ["chunk_size", "clear_threshold", "read_order"] record =
      some [some size, some threshold, some order])
    (hsize : word? size = some chunkSize) (hthreshold : word? threshold = some clearThreshold)
    (horder : order? order = some readOrder) :
    c.chunk? record = some { c with chunkSize, clearThreshold, readOrder } := by
  unfold chunk?
  simp only [hrecord, orUsual, hsize, hthreshold, horder, Option.bind_eq_bind, Option.bind_some]

/-- A configuration whose sections are all there has nothing that takes its usual value. -/
theorem ofTerm?_of_record {tag action chunk mode : Term} {tag' : Option Uuid} {c' : Config}
    (hrecord : record? ["tag", "action", "chunk", "parse_mode"] record =
      some [some tag, some action, some chunk, some mode])
    (htag : tag? tag = some tag')
    (haction : action? { tag := tag' } action = some c') (hchunk : c'.chunk? chunk = some c)
    {mode' : Mode} (hmode : mode? mode = some mode') :
    ofTerm? record = some { c with mode := mode' } := by
  unfold ofTerm?
  simp only [hrecord, orUsual, htag, haction, hchunk, hmode, Option.bind_eq_bind,
    Option.bind_some]

end

/-! ## Section 5: Configurations -/

/-- **The term of a configuration is read as it.** -/
theorem ofTerm?_toJson (c : Config) : ofTerm? c.toJson.term = some c := by
  have hrecord := record?_term
    [("tag", (c.tag.map fun u => Json.string u.text).getD .null),
      ("action", .object [("max_workers", ofUInt64 c.maxWorkers)]),
      ("chunk", .object [("chunk_size", ofUInt64 c.chunkSize),
        ("clear_threshold", ofUInt64 c.clearThreshold),
        ("read_order", .string c.readOrder.name)]),
      ("parse_mode", .string c.mode.name)]
    (by decide : ["tag", "action", "chunk", "parse_mode"].Nodup)
  have haction := action?_of_record (c := { tag := c.tag })
    (record?_term [("max_workers", ofUInt64 c.maxWorkers)] (List.pairwise_singleton _ _))
    (word?_term c.maxWorkers)
  have hchunk := chunk?_of_record (c := { tag := c.tag, maxWorkers := c.maxWorkers })
    (record?_term [("chunk_size", ofUInt64 c.chunkSize),
        ("clear_threshold", ofUInt64 c.clearThreshold), ("read_order", .string c.readOrder.name)]
      (by decide : ["chunk_size", "clear_threshold", "read_order"].Nodup))
    (word?_term c.chunkSize) (word?_term c.clearThreshold) (order?_term c.readOrder)
  exact ofTerm?_of_record hrecord (tag?_term c.tag) haction hchunk (mode?_term c.mode)

theorem integral_toJson (c : Config) : c.toJson.integral = true := by
  obtain ⟨tag, workers, size, threshold, order, mode⟩ := c
  cases tag <;> rfl

/-- **A configuration is read back from its file.** -/
theorem parse?_text (c : Config) : parse? (Text.bytes c.text) = some c := by
  have hspells := (spells_pretty c.integral_toJson 0).parse?
  unfold parse? text pretty
  rw [Text.bytes_eq_utf8, String.toList_ofList, hspells, Option.bind_some, ofTerm?_toJson]

end Config

end Parley
