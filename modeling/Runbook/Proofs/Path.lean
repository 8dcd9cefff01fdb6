import Mathlib.Data.List.Basic
import Mathlib.Tactic.SplitIfs
import Runbook.Path

/-!
# Joined paths

A relative path is joined to another one with one slash between them. The components of the two
follow each other, and whether the path can be followed depends on nothing but its length, if that
is so for both.

## Main definitions

* `Path.named`: the components that are no root and no leading `.`.

## Main results

* `Path.components_join`: a relative path below an absolute one;
* `Path.fault?_join`: a name below a path can be followed as the path can, or is too long.
-/

namespace Runbook.Path

/-! ## Components -/

/-- The pieces that are components wherever they stand. -/
def named (path : List Char) : List (List Char) :=
  (pieces path).filter isNamed

theorem pieces_ne_nil (path : List Char) : pieces path ≠ [] := by
  fun_cases pieces path <;> exact List.cons_ne_nil _ _

/-- A character that is no slash goes in front of the first piece of the rest. -/
theorem exists_pieces_cons {c : Char} (hslash : c ≠ '/') (cs : List Char) :
    ∃ piece rest, pieces cs = piece :: rest ∧ pieces (c :: cs) = (c :: piece) :: rest := by
  obtain ⟨piece, rest, hpieces⟩ := List.exists_cons_of_ne_nil (pieces_ne_nil cs)
  refine ⟨piece, rest, hpieces, ?_⟩
  rw [pieces, hpieces]
  exact hslash

/-- The pieces of two paths with a slash between them. -/
theorem pieces_append_slash (base rest : List Char) :
    pieces (base ++ '/' :: rest) = pieces base ++ pieces rest := by
  induction base with
  | nil => rfl
  | cons c cs ih =>
    rw [List.cons_append]
    by_cases hslash : c = '/'
    · subst hslash
      rw [pieces, pieces, ih, List.cons_append]
    · obtain ⟨piece, more, hpieces, hcons⟩ := exists_pieces_cons hslash cs
      obtain ⟨piece', more', hpieces', hcons'⟩ := exists_pieces_cons hslash (cs ++ '/' :: rest)
      rw [ih, hpieces, List.cons_append, List.cons.injEq] at hpieces'
      rw [hcons, hcons', ← hpieces'.1, ← hpieces'.2, List.cons_append]

theorem named_append_slash (base rest : List Char) :
    named (base ++ '/' :: rest) = named base ++ named rest := by
  rw [named, pieces_append_slash, List.filter_append, named, named]

theorem components_of_isAbsolute {path : List Char} (h : isAbsolute path = true) :
    components path = ['/'] :: named path :=
  if_pos h

/-- An absolute path is not joined to another one. -/
theorem join_of_isAbsolute {path : List Char} (base : List Char) (h : isAbsolute path = true) :
    join base path = path :=
  if_pos h

theorem isAbsolute_iff {path : List Char} :
    isAbsolute path = true ↔ ∃ rest, path = '/' :: rest := by
  unfold isAbsolute
  split
  next rest => exact ⟨fun _ => ⟨rest, rfl⟩, fun _ => rfl⟩
  next hnone => exact ⟨fun h => (Bool.false_ne_true h).elim, fun ⟨rest, h⟩ => (hnone rest h).elim⟩

theorem isAbsolute_append {base : List Char} (h : isAbsolute base = true) (rest : List Char) :
    isAbsolute (base ++ rest) = true := by
  obtain ⟨cs, rfl⟩ := isAbsolute_iff.mp h
  rfl

/-- A relative path is joined to another one with one slash between them, which the base may close
with. -/
theorem join_cases {base path : List Char} (hbase : base ≠ [])
    (hpath : isAbsolute path = false) :
    (∃ front, base = front ++ ['/'] ∧ join base path = front ++ '/' :: path) ∨
      join base path = base ++ '/' :: path := by
  unfold join
  rw [if_neg (by rw [hpath]; exact Bool.false_ne_true)]
  cases hlast : base.getLast? with
  | none => exact absurd (List.getLast?_eq_none_iff.mp hlast) hbase
  | some c =>
    by_cases hslash : c = '/'
    · obtain ⟨front, rfl⟩ := List.getLast?_eq_some_iff.mp hlast
      subst hslash
      refine .inl ⟨front, rfl, ?_⟩
      show (if '/' = '/' then front ++ ['/'] ++ path else _) = front ++ '/' :: path
      rw [if_pos rfl, List.append_assoc, List.singleton_append]
    · exact .inr (if_neg hslash)

/-- A relative path below an absolute one has the components of both, but a leading `.` is none any
more. -/
theorem components_join {base path : List Char} (hbase : isAbsolute base = true)
    (hpath : isAbsolute path = false) :
    components (join base path) = components base ++ named path := by
  have hne : base ≠ [] := by
    rintro rfl
    cases hbase
  rw [components_of_isAbsolute hbase, List.cons_append]
  rcases join_cases hne hpath with ⟨front, rfl, hjoin⟩ | hjoin
  · have habsolute : isAbsolute (front ++ '/' :: path) = true := by
      rw [← List.singleton_append, ← List.append_assoc]
      exact isAbsolute_append hbase path
    have hend : named (front ++ ['/']) = named front ++ named [] := named_append_slash front []
    rw [hjoin, components_of_isAbsolute habsolute, named_append_slash, hend]
    show _ = ['/'] :: (named front ++ [] ++ named path)
    rw [List.append_nil]
  · rw [hjoin, components_of_isAbsolute (isAbsolute_append hbase _), named_append_slash]

/-! ## Length -/

theorem byteSize_append (front back : List Char) :
    byteSize (front ++ back) = byteSize front + byteSize back := by
  rw [byteSize, String.ofList_append, String.utf8ByteSize_append, byteSize, byteSize]

theorem fault?_eq_none_iff {path : List Char} :
    fault? path = none ↔ '\x00' ∉ path ∧ path ≠ [] ∧ byteSize path ≤ lengthLimit := by
  unfold fault?
  split_ifs <;> simp_all

/-- A name below a path that can be followed can be followed as well, or is too long. -/
theorem fault?_join {base name : List Char} (hbase : fault? base = none)
    (hnull : '\x00' ∉ name) (hname : isAbsolute name = false) :
    fault? (join base name) = none ∨
      (fault? (join base name) = some .nameTooLong ∧
        lengthLimit < byteSize base + 1 + byteSize name) := by
  obtain ⟨hbaseNull, hne, -⟩ := fault?_eq_none_iff.mp hbase
  -- A slash is put between the two if there is none.
  obtain ⟨slash, hslash, hjoin⟩ :
      ∃ slash, (slash = [] ∨ slash = ['/']) ∧ join base name = base ++ (slash ++ name) := by
    rcases join_cases hne hname with ⟨front, rfl, hjoin⟩ | hjoin
    · exact ⟨[], .inl rfl, by simp [hjoin]⟩
    · exact ⟨['/'], .inr rfl, hjoin⟩
  have hsize : byteSize (join base name) ≤ byteSize base + 1 + byteSize name := by
    rw [hjoin, byteSize_append, byteSize_append]
    have hone : byteSize slash ≤ 1 := by rcases hslash with rfl | rfl <;> decide
    omega
  have hfree : '\x00' ∉ join base name := by
    rw [hjoin, List.mem_append, List.mem_append]
    rcases hslash with rfl | rfl <;> simp [hbaseNull, hnull]
  have hfull : join base name ≠ [] := by simp [hjoin, hne]
  by_cases hlong : lengthLimit < byteSize (join base name)
  · right
    refine ⟨?_, by omega⟩
    simp [fault?, hfree, hfull, hlong]
  · exact .inl (fault?_eq_none_iff.mpr ⟨hfree, hfull, Nat.not_lt.mp hlong⟩)

end Runbook.Path
