import Runbook.Json.Reader
import Runbook.Proofs.Json.RoundTrip
import Runbook.Proofs.WellFormed

/-!
# Literals in JSON text

A literal that is written as JSON and read again has its numbers read anew. It can be read if its
lists are nested no deeper than the reader goes and its double-precision numbers are written in
range.

## Main definitions

* `Literal.depth`: how deep the lists of a literal are nested.

## Main results

* `Literal.decode?_toJson`: the JSON value of a literal is read as that literal;
* `Literal.value?_toJson`: the document of a literal gives the JSON value of the literal with its
  numbers read anew;
* `Literal.isFlat_of_ofJson?`: the literal of a result is flat;
* `Literal.ofJson?_eq_some_iff`: the results with a literal are the JSON values of flat literals;
* `Literal.readings_agree`: a result has a literal exactly if it is decoded as that literal and the
  literal is flat.
-/

namespace Runbook

/-- Where all items of a list have images the images are those of the items, one by one. -/
theorem forall₂_of_mapM {α β : Type} {f : α → Option β} {items : List α} {images : List β}
    (h : items.mapM f = some images) : List.Forall₂ (fun a b => f a = some b) items images := by
  induction items generalizing images with
  | nil => cases h; exact .nil
  | cons item rest ih =>
    rw [List.mapM_cons] at h
    obtain ⟨image, himage, h⟩ := Option.bind_eq_some_iff.mp h
    obtain ⟨others, hothers, hcons⟩ := Option.bind_eq_some_iff.mp h
    cases hcons
    exact .cons himage (ih hothers)

/-- The numeral of a number that is written in range is read as its text is. -/
theorem Number.number?_numeral {n m : Number} (h : ofChars? n.chars = some m) :
    n.numeral.number? = some m := by
  obtain ⟨numeral, hnumeral, hnumber⟩ := Option.bind_eq_some_iff.mp h
  rw [Number.numeral, hnumeral]
  exact hnumber

namespace Literal

mutual

/-- How deep the lists of a literal are nested. -/
def depth : Literal → Nat
  | .text _ | .number _ | .flag _ => 0
  | .list items => itemsDepth items + 1

/-- How deep the lists in the items of a list are nested. -/
def itemsDepth : List Literal → Nat
  | [] => 0
  | item :: rest => max (depth item) (itemsDepth rest)

end

/-- A flat literal is at most one list deep. -/
theorem depth_le_one_of_isFlat {l : Literal} (h : l.isFlat = true) : l.depth ≤ 1 := by
  cases l with
  | list items =>
    have hitems : itemsDepth items = 0 := by
      rw [isFlat] at h
      -- No item of a flat list is a list, so none of them adds to the depth.
      induction items with
      | nil => rfl
      | cons item rest ih =>
        rw [List.all_cons, Bool.and_eq_true] at h
        have hitem : item.depth = 0 := by
          cases item with
          | list items => cases h.1
          | _ => rfl
        rw [itemsDepth, hitem, ih h.2]
        rfl
    rw [depth, hitems]
  | _ => exact Nat.zero_le 1

mutual

/-- The JSON value of a literal is read as that literal. -/
theorem decode?_toJson : (l : Literal) → decode? l.toJson = some l
  | .text _ | .number _ | .flag _ => rfl
  | .list items => by rw [toJson, decode?, decodeItems?_itemsToJson items]; rfl

/-- The JSON values of items are read as those items. -/
theorem decodeItems?_itemsToJson :
    (items : List Literal) → decodeItems? (itemsToJson items) = some items
  | [] => rfl
  | item :: rest => by
    rw [itemsToJson, decodeItems?, decode?_toJson item, decodeItems?_itemsToJson rest]
    rfl

end

mutual

/-- The document of a literal gives the JSON value of the literal with its numbers read anew. -/
theorem value?_toJson : (l : Literal) → (∀ x ∈ l.floats, x.ReadsInRange) → (limit : Nat) →
    l.depth ≤ limit → (Json.Document.ofJson l.toJson).value? limit = some l.reread.toJson
  | .text _, _, _, _ | .flag _, _, _, _ => rfl
  | .number n, h, limit, _ => by
    obtain ⟨m, hm⟩ := Option.isSome_iff_exists.mp (Number.isSome_ofChars?_chars h)
    rw [toJson, Json.Document.ofJson, Json.Document.value?, Number.number?_numeral hm, reread,
      ofWord_of_ofChars? hm]
    rfl
  | .list items, h, 0, hdepth => absurd hdepth (Nat.not_succ_le_zero _)
  | .list items, h, limit + 1, hdepth => by
    have hitems := itemValues?_itemsToJson items h limit (Nat.le_of_succ_le_succ hdepth)
    rw [toJson, Json.Document.ofJson, Json.Document.value?, hitems]
    rfl

/-- The documents of items give the JSON values of the items with their numbers read anew. -/
theorem itemValues?_itemsToJson :
    (items : List Literal) → (∀ x ∈ itemsFloats items, x.ReadsInRange) → (limit : Nat) →
      itemsDepth items ≤ limit →
        Json.Document.itemValues? limit (Json.Document.ofItems (itemsToJson items)) =
          some (itemsToJson (rereadItems items))
  | [], _, _, _ => rfl
  | item :: rest, h, limit, hdepth => by
    rw [itemsDepth] at hdepth
    have hitem := value?_toJson item (fun x hx => h x (List.mem_append_left _ hx)) limit
      (le_trans (le_max_left _ _) hdepth)
    have hrest := itemValues?_itemsToJson rest (fun x hx => h x (List.mem_append_right _ hx)) limit
      (le_trans (le_max_right _ _) hdepth)
    rw [itemsToJson, Json.Document.ofItems, Json.Document.itemValues?, hitem, hrest]
    rfl

end

theorem isList_of_scalarOfJson? {json : Json} {l : Literal} (h : scalarOfJson? json = some l) :
    l.isList = false := by
  cases json with
  | string s => cases h; rfl
  | number n => cases h; rfl
  | bool b => cases h; rfl
  | _ => cases h

/-- A scalar is decoded as the literal of the result that it is. -/
theorem decode?_of_scalarOfJson? {json : Json} {l : Literal} (h : scalarOfJson? json = some l) :
    decode? json = some l := by
  cases json with
  | string s => exact h
  | number n => exact h
  | bool b => exact h
  | _ => cases h

/-- Where a result has a literal it is decoded as that literal. -/
theorem decode?_of_ofJson? {json : Json} {l : Literal} (h : ofJson? json = some l) :
    decode? json = some l := by
  cases json with
  | array items =>
    obtain ⟨literals, hitems, rfl⟩ := Option.map_eq_some_iff.mp h
    have hdecoded : decodeItems? items = some literals := by
      -- `ofJson?` decodes items as scalars and `decode?` as any literals; they agree item by item.
      have hall := forall₂_of_mapM hitems
      clear h hitems
      induction hall with
      | nil => rfl
      | cons hitem _ ih =>
        rw [decodeItems?, decode?_of_scalarOfJson? hitem, ih]
        rfl
    rw [decode?, hdecoded]
    rfl
  | _ =>
    rw [ofJson?] at h
    · exact decode?_of_scalarOfJson? h
    · simp

/-- If the JSON value of a literal has a literal as a result, it is that literal. -/
theorem eq_of_ofJson?_toJson {l l' : Literal} (h : ofJson? l.toJson = some l') : l' = l := by
  have hdecode := decode?_of_ofJson? h
  rw [decode?_toJson] at hdecode
  exact (Option.some.inj hdecode).symm

/-- The literal of a result is flat. -/
theorem isFlat_of_ofJson? {json : Json} {l : Literal} (h : ofJson? json = some l) :
    l.isFlat = true := by
  cases json with
  | array items =>
    obtain ⟨literals, hitems, rfl⟩ := Option.map_eq_some_iff.mp h
    have hscalar : ∀ item ∈ literals, item.isList = false := by
      have hall := forall₂_of_mapM hitems
      clear h hitems
      induction hall with
      | nil => exact fun _ hitem => absurd hitem List.not_mem_nil
      | cons hitem _ ih => exact List.forall_mem_cons.mpr ⟨isList_of_scalarOfJson? hitem, ih⟩
    rw [isFlat, List.all_eq_true]
    intro item hitem
    rw [hscalar item hitem]
    rfl
  | _ =>
    rw [ofJson?] at h
    · exact isFlat_of_isList (isList_of_scalarOfJson? h)
    · simp

mutual

/-- The JSON value of a literal is the one that it was decoded from. -/
theorem toJson_of_decode? :
    (json : Json) → {l : Literal} → decode? json = some l → l.toJson = json
  | .string _, _, h | .number _, _, h | .bool _, _, h => by cases h; rfl
  | .array items, _, h => by
    obtain ⟨literals, hitems, rfl⟩ := Option.map_eq_some_iff.mp h
    rw [toJson, itemsToJson_of_decodeItems? items hitems]
  | .null, _, h | .object _, _, h => nomatch h

/-- The JSON values of items are those that they were decoded from. -/
theorem itemsToJson_of_decodeItems? :
    (items : List Json) → {literals : List Literal} → decodeItems? items = some literals →
      itemsToJson literals = items
  | [], _, h => by cases h; rfl
  | item :: rest, _, h => by
    obtain ⟨literal, hliteral, h⟩ := Option.bind_eq_some_iff.mp h
    obtain ⟨others, hothers, hcons⟩ := Option.bind_eq_some_iff.mp h
    cases hcons
    rw [itemsToJson, toJson_of_decode? item hliteral, itemsToJson_of_decodeItems? rest hothers]

end

/-- The JSON value of a literal that is no list is the result of a scalar. -/
theorem scalarOfJson?_toJson {l : Literal} (h : l.isList = false) :
    scalarOfJson? l.toJson = some l := by
  cases l with
  | list items => cases h
  | _ => rfl

/-- A flat literal is the literal of its JSON value as a result. -/
theorem ofJson?_toJson {l : Literal} (h : l.isFlat = true) : ofJson? l.toJson = some l := by
  cases l with
  | list items =>
    have hitems : (itemsToJson items).mapM scalarOfJson? = some items := by
      rw [isFlat] at h
      induction items with
      | nil => rfl
      | cons item rest ih =>
        rw [List.all_cons, Bool.and_eq_true, Bool.not_eq_true'] at h
        rw [itemsToJson, List.mapM_cons, scalarOfJson?_toJson h.1, ih h.2]
        rfl
    rw [toJson, ofJson?, hitems]
    rfl
  | _ => rfl

/-- The results with a literal are the JSON values of flat literals. -/
theorem ofJson?_eq_some_iff {json : Json} {l : Literal} :
    ofJson? json = some l ↔ l.isFlat = true ∧ l.toJson = json := by
  constructor
  · intro h
    exact ⟨isFlat_of_ofJson? h, toJson_of_decode? json (decode?_of_ofJson? h)⟩
  · rintro ⟨hflat, rfl⟩
    exact ofJson?_toJson hflat

/-- The values that are decoded as a literal are its JSON value only. -/
theorem decode?_eq_some_iff {json : Json} {l : Literal} :
    decode? json = some l ↔ l.toJson = json := by
  constructor
  · exact toJson_of_decode? json
  · rintro rfl
    exact decode?_toJson l

/-- The two readings of JSON as literals agree. A result has a literal exactly if it is decoded as
that literal and the literal is flat, and a value is decoded as a literal, however nested, exactly
if it is the JSON value of that literal. -/
theorem readings_agree (json : Json) (l : Literal) :
    (ofJson? json = some l ↔ decode? json = some l ∧ l.isFlat = true) ∧
      (decode? json = some l ↔ l.toJson = json) := by
  refine ⟨?_, decode?_eq_some_iff⟩
  rw [ofJson?_eq_some_iff, decode?_eq_some_iff, and_comm]

end Literal

end Runbook
