import Mathlib.Algebra.GroupWithZero.Nat
import Mathlib.Data.List.Induction
import Mathlib.Data.List.Count
import Runbook.Proofs.Name
import Runbook.Tally

/-!
# Counting commands by kind

Statistics count how often each kind of command occurs, in order of first occurrence. A kind is
written as the action and the entity with a space between them; as there is no space in an action,
different pairs are different kinds.

## Main definitions

* `OrderedMap.countsOf`: how often each text occurs in a list.

## Main results

* `OrderedMap.keys_countsOf`, `OrderedMap.getD_countsOf`: the texts in order of first occurrence,
  each with the number of its occurrences;
* `OrderedMap.sum_countsOf`: the numbers add up to the length of the list;
* `OrderedMap.keys_countsOf_append`: the texts of two lists one behind the other;
* `Command.kind_eq_kind_iff`: commands of one kind have the same action and entity;
* `Template.entries_stats`: the statistics of a template, by action and entity;
* `Template.stats_eq_of_map_kind`, `Template.tally_eq_of_map_error`: what statistics and tallies
  depend on.
-/

namespace Runbook

/-! ## First occurrences -/

section FirstOccurrences

variable {α β : Type} [BEq α] [LawfulBEq α] [BEq β] [LawfulBEq β]

/-- What is put behind a list in which it occurs is no first occurrence. -/
theorem eraseDups_append_of_mem {items : List α} {item : α} (h : item ∈ items) :
    (items ++ [item]).eraseDups = items.eraseDups := by
  rw [List.eraseDups_append]
  simp [List.removeAll, h]

/-- What is put behind a list in which it does not occur is a first occurrence. -/
theorem eraseDups_append_of_not_mem {items : List α} {item : α} (h : item ∉ items) :
    (items ++ [item]).eraseDups = items.eraseDups ++ [item] := by
  rw [List.eraseDups_append]
  simp [List.removeAll, h, List.eraseDups_cons]

/-- The first occurrences among the items with a property are those with the property. -/
theorem eraseDups_filter (p : α → Bool) (items : List α) :
    (items.filter p).eraseDups = items.eraseDups.filter p := by
  induction items using List.reverseRecOn with
  | nil => rfl
  | append_singleton items item ih =>
    rw [List.filter_append, List.filter_singleton]
    by_cases hmem : item ∈ items
    · rw [eraseDups_append_of_mem hmem, ← ih]
      cases hp : p item with
      | true => exact eraseDups_append_of_mem (List.mem_filter.mpr ⟨hmem, hp⟩)
      | false => rw [cond_false, List.append_nil]
    · rw [eraseDups_append_of_not_mem hmem, List.filter_append, List.filter_singleton, ← ih]
      cases hp : p item with
      | true => exact eraseDups_append_of_not_mem fun h => hmem (List.mem_filter.mp h).1
      | false => rw [cond_false, List.append_nil, List.append_nil]

/-- The first occurrences among images are the images of first occurrences, if no two items of the
list have one image. -/
theorem eraseDups_map {f : α → β} {items : List α}
    (h : ∀ a ∈ items, ∀ b ∈ items, f a = f b → a = b) :
    (items.map f).eraseDups = items.eraseDups.map f := by
  induction items using List.reverseRecOn with
  | nil => rfl
  | append_singleton items item ih =>
    have hitems : ∀ a ∈ items, ∀ b ∈ items, f a = f b → a = b := fun a ha b hb =>
      h a (List.mem_append_left _ ha) b (List.mem_append_left _ hb)
    rw [List.map_append, List.map_singleton]
    by_cases hmem : item ∈ items
    · rw [eraseDups_append_of_mem hmem, eraseDups_append_of_mem (List.mem_map_of_mem hmem),
        ih hitems]
    · have himage : f item ∉ items.map f := by
        intro himage
        obtain ⟨other, hother, heq⟩ := List.mem_map.mp himage
        exact hmem (h other (by simp [hother]) item (by simp) heq ▸ hother)
      rw [eraseDups_append_of_not_mem hmem, eraseDups_append_of_not_mem himage, ih hitems,
        List.map_append, List.map_singleton]

end FirstOccurrences

/-! ## Counting texts -/

namespace OrderedMap

variable {α : Type}

/-- Inserting adds a new key at the end and moves no other. -/
theorem keys_insert (m : OrderedMap α) (key : String) (value : α) :
    (m.insert key value).keys = if key ∈ m.keys then m.keys else m.keys ++ [key] :=
  map_fst_insertEntry key value m.entries

/-- What is found under the key of an entry is the value of the entry. -/
theorem get?_of_mem_entries {m : OrderedMap α} {key : String} {value : α}
    (h : (key, value) ∈ m.entries) : m.get? key = some value := by
  obtain ⟨before, after, hsplit⟩ := List.append_of_mem h
  have hdistinct := m.distinct
  rw [hsplit, List.map_append, List.map_cons, List.nodup_append] at hdistinct
  refine List.lookup_eq_some_iff.mpr ⟨before, after, hsplit, fun entry hentry => ?_⟩
  rw [bne_iff_ne]
  exact (hdistinct.2.2 _ (List.mem_map_of_mem hentry) _ List.mem_cons_self).symm

/-- The entries of a map are its keys with what is found under them. -/
theorem entries_eq_map_keys (m : OrderedMap α) (default : α) :
    m.entries = m.keys.map fun key => (key, (m.get? key).getD default) := by
  rw [keys, List.map_map]
  conv_lhs => rw [← List.map_id m.entries]
  refine List.map_congr_left fun entry hentry => ?_
  rw [Function.comp_apply, get?_of_mem_entries hentry]
  rfl

/-- How often each text occurs, in order of first occurrence. -/
def countsOf (texts : List String) : OrderedMap Nat :=
  texts.foldl (fun counts text => counts.insert text ((counts.get? text).getD 0 + 1)) .empty

theorem countsOf_append_singleton (texts : List String) (text : String) :
    countsOf (texts ++ [text]) =
      (countsOf texts).insert text (((countsOf texts).get? text).getD 0 + 1) := by
  rw [countsOf, List.foldl_append]
  rfl

/-- Each text has its place from its first occurrence. -/
theorem keys_countsOf (texts : List String) : (countsOf texts).keys = texts.eraseDups := by
  induction texts using List.reverseRecOn with
  | nil => rfl
  | append_singleton texts text ih =>
    rw [countsOf_append_singleton, keys_insert, ih]
    split
    next h => exact (eraseDups_append_of_mem (List.mem_eraseDups.mp h)).symm
    next h => exact (eraseDups_append_of_not_mem (mt List.mem_eraseDups.mpr h)).symm

/-- What is found under a text is the number of its occurrences. -/
theorem getD_countsOf (texts : List String) (text : String) :
    ((countsOf texts).get? text).getD 0 = texts.count text := by
  induction texts using List.reverseRecOn with
  | nil => rfl
  | append_singleton texts other ih =>
    rw [countsOf_append_singleton, get?_insert, List.count_append]
    by_cases h : text = other
    · rw [if_pos h, Option.getD_some, ← h, ih, List.count_singleton_self]
    · rw [if_neg h, ih, List.count_singleton, if_neg (by simpa using Ne.symm h), Nat.add_zero]

/-- The entries are the texts in order of first occurrence, with the numbers of occurrences. -/
theorem entries_countsOf (texts : List String) :
    (countsOf texts).entries = texts.eraseDups.map fun text => (text, texts.count text) := by
  rw [entries_eq_map_keys _ 0, keys_countsOf]
  exact List.map_congr_left fun text _ => by rw [getD_countsOf]

/-- One more occurrence adds one to the sum of the values. -/
theorem sum_insertEntry (key : String) (entries : List (String × Nat)) :
    ((insertEntry key ((entries.lookup key).getD 0 + 1) entries).map Prod.snd).sum =
      (entries.map Prod.snd).sum + 1 := by
  induction entries with
  | nil => simp [insertEntry]
  | cons entry rest ih =>
    obtain ⟨k, v⟩ := entry
    by_cases h : k = key
    · simp [insertEntry, h]
      omega
    · have hbeq : (key == k) = false := by simpa using Ne.symm h
      simp only [insertEntry, if_neg h, List.lookup_cons, hbeq, List.map_cons, List.sum_cons, ih]
      omega

/-- The numbers of occurrences add up to the number of texts. -/
theorem sum_countsOf (texts : List String) : (countsOf texts).values.sum = texts.length := by
  induction texts using List.reverseRecOn with
  | nil => rfl
  | append_singleton texts text ih =>
    rw [countsOf_append_singleton, values, entries_insert, get?, sum_insertEntry, ← values, ih,
      List.length_append, List.length_singleton]

/-- Behind the texts of one list stand those of another that are new. -/
theorem keys_countsOf_append (texts others : List String) :
    (countsOf (texts ++ others)).keys = (countsOf texts).keys ++
      (countsOf others).keys.filter fun key => key ∉ (countsOf texts).keys := by
  have hremove : others.removeAll texts = others.filter fun text => text ∉ texts :=
    List.filter_congr fun text _ => by simp
  simp only [keys_countsOf, List.mem_eraseDups]
  rw [List.eraseDups_append, hremove, eraseDups_filter]

end OrderedMap

/-! ## Kinds of commands -/

/-- There is no space in an action or an entity. -/
theorem Name.ne_space_of_isActionWord {name : List Char} (h : isActionWord name = true) :
    ∀ c ∈ name, c ≠ ' ' := by
  rintro c hc rfl
  exact absurd ((isPlain_of_isActionWord h).2 _ hc) (by decide)

/-- Where there is no space in the actions, commands of one kind have the same action and entity. -/
theorem Command.kind_eq_kind_iff {c d : Command}
    (hc : Name.isActionWord c.action.toList = true)
    (hd : Name.isActionWord d.action.toList = true) :
    c.kind = d.kind ↔ c.action = d.action ∧ c.entity = d.entity := by
  constructor
  · intro h
    -- The action is what stands in front of the first space.
    have htake {name : List Char} (hname : Name.isActionWord name = true) (rest : List Char) :
        (name ++ ' ' :: rest).takeWhile (· ≠ ' ') = name := by
      have hne : ∀ b ∈ name, decide (b ≠ ' ') = true := fun b hb =>
        decide_eq_true (Name.ne_space_of_isActionWord hname b hb)
      rw [List.takeWhile_append_of_pos hne]
      simp
    have hlists : c.action.toList ++ ' ' :: c.entity.toList =
        d.action.toList ++ ' ' :: d.entity.toList := by
      simpa [kind] using congrArg String.toList h
    have haction : c.action.toList = d.action.toList := by
      rw [← htake hc c.entity.toList, hlists, htake hd]
    rw [haction, List.append_cancel_left_eq] at hlists
    exact ⟨String.toList_inj.mp haction, String.toList_inj.mp (List.cons.inj hlists).2⟩
  · rintro ⟨haction, hentity⟩
    rw [kind, kind, haction, hentity]

/-! ## Statistics -/

namespace Template

/-- Statistics count the kinds of the commands. -/
theorem stats_eq_countsOf (t : Template) :
    t.stats = OrderedMap.countsOf (t.commands.map Command.kind) := by
  rw [OrderedMap.countsOf, List.foldl_map]
  rfl

/-- Statistics depend on the kinds of the commands only. -/
theorem stats_eq_of_map_kind {t t' : Template}
    (h : t.commands.map Command.kind = t'.commands.map Command.kind) : t.stats = t'.stats := by
  rw [stats_eq_countsOf, stats_eq_countsOf, h]

/-- Tallies depend on the errors of the commands only. -/
theorem tally_eq_of_map_error {t t' : Template}
    (h : t.commands.map (fun c => c.outcome.error) = t'.commands.map fun c => c.outcome.error) :
    t.tally = t'.tally := by
  have hcounts (t : Template) : t.tally =
      ⟨(t.commands.map fun c => c.outcome.error).countP fun e => !e.isSome,
        (t.commands.map fun c => c.outcome.error).countP fun e => e.isSome⟩ := by
    rw [List.countP_map, List.countP_map]
    rfl
  rw [hcounts, hcounts, h]

/-- The statistics have an entry for each pair of an action and an entity, in order of first
occurrence, with the number of commands that have both. -/
theorem entries_stats {t : Template}
    (h : ∀ c ∈ t.commands, Name.isActionWord c.action.toList = true) :
    t.stats.entries = (t.commands.map fun c => (c.action, c.entity)).eraseDups.map fun pair =>
      (pair.1 ++ " " ++ pair.2,
        t.commands.countP fun c => c.action = pair.1 ∧ c.entity = pair.2) := by
  have hkinds : t.commands.map Command.kind = (t.commands.map fun c => (c.action, c.entity)).map
      fun pair => pair.1 ++ " " ++ pair.2 := by
    rw [List.map_map]
    rfl
  have hinjective : ∀ a ∈ t.commands.map (fun c => (c.action, c.entity)),
      ∀ b ∈ t.commands.map (fun c => (c.action, c.entity)),
        a.1 ++ " " ++ a.2 = b.1 ++ " " ++ b.2 → a = b := by
    intro a ha b hb heq
    obtain ⟨c, hc, rfl⟩ := List.mem_map.mp ha
    obtain ⟨d, hd, rfl⟩ := List.mem_map.mp hb
    exact Prod.ext_iff.mpr ((Command.kind_eq_kind_iff (h c hc) (h d hd)).mp heq)
  rw [stats_eq_countsOf, OrderedMap.entries_countsOf, hkinds, eraseDups_map hinjective,
    List.map_map, ← hkinds]
  refine List.map_congr_left fun pair hpair => ?_
  obtain ⟨d, hd, rfl⟩ := List.mem_map.mp (List.mem_eraseDups.mp hpair)
  -- A command counts for the text of a pair exactly if it has that pair.
  have hcount : (t.commands.map Command.kind).count d.kind =
      t.commands.countP fun c => c.action = d.action ∧ c.entity = d.entity := by
    rw [List.count_eq_countP, List.countP_map]
    refine List.countP_congr fun c hc => ?_
    simp [Command.kind_eq_kind_iff (h c hc) (h d hd)]
  exact congrArg (Prod.mk d.kind) hcount

/-- The numbers of commands of each kind add up to the number of commands. -/
theorem sum_stats (t : Template) : t.stats.values.sum = t.size := by
  rw [stats_eq_countsOf, OrderedMap.sum_countsOf, List.length_map, commands, List.length_map, size]

/-- The kinds in a template and another one behind it are those of the first and the new ones of the
other, and each occurs as often as in both. -/
theorem stats_append (t t' : Template) :
    (Template.mk (t.statements ++ t'.statements)).stats.keys =
        t.stats.keys ++ t'.stats.keys.filter (fun key => key ∉ t.stats.keys) ∧
      ∀ key, ((Template.mk (t.statements ++ t'.statements)).stats.get? key).getD 0 =
        (t.stats.get? key).getD 0 + (t'.stats.get? key).getD 0 := by
  have happend : (Template.mk (t.statements ++ t'.statements)).commands.map Command.kind =
      t.commands.map Command.kind ++ t'.commands.map Command.kind := by
    simp [commands]
  rw [stats_eq_countsOf, stats_eq_countsOf, stats_eq_countsOf, happend]
  refine ⟨OrderedMap.keys_countsOf_append _ _, fun key => ?_⟩
  rw [OrderedMap.getD_countsOf, OrderedMap.getD_countsOf, OrderedMap.getD_countsOf,
    List.count_append]

end Template

end Runbook
