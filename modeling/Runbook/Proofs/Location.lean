import Runbook.Location
import Runbook.Proofs.Path

/-!
# Paths in the home directory

A path whose first component is `~` is meant to lie in the home directory, with the components that
follow. What stands behind `~/` is joined to the home directory, and a join gives up its base where
the other path is absolute. So of the paths whose first component is `~` those that go on with two
slashes leave the home directory, and all others lie where they should, without the blanks that they
close with.

## Main definitions

* `Surroundings.LiesInHome`: the components of the home directory, then those of the path.

## Main results

* `Path.head?_components_eq_tilde_iff`: which paths start with the component `~`;
* `Surroundings.root_of_tilde`: these lie in the home directory unless they go on with two slashes;
* `Surroundings.doubled_slash_leaves_home`: with two slashes they do not.
-/

namespace Runbook

/-! ## Paths -/

namespace Path

theorem components_tilde_slash (rest : List Char) :
    components ('~' :: '/' :: rest) = ['~'] :: named rest :=
  rfl

/-- The first component is `~` if there is no other or a slash stands behind it. -/
theorem head?_components_eq_tilde_iff {path : List Char} :
    (components path).head? = some ['~'] ↔ path = ['~'] ∨ ∃ rest, path = '~' :: '/' :: rest := by
  constructor
  · intro h
    cases path with
    | nil => cases h
    | cons c cs =>
      by_cases hslash : c = '/'
      · subst hslash
        cases h
      -- The first piece is neither empty nor `.`, so it is the first component.
      obtain ⟨piece, rest, hpieces, hcons⟩ := exists_pieces_cons hslash cs
      have hrelative : isAbsolute (c :: cs) = false := by
        rw [Bool.eq_false_iff, ne_eq, isAbsolute_iff]
        rintro ⟨rest, hrest⟩
        exact hslash (List.cons.inj hrest).1
      have hfirst : c :: piece = ['~'] := by
        unfold components at h
        rw [hrelative, hcons] at h
        by_cases hdot : c :: piece = ['.']
        · rw [hdot] at h
          cases h
        · have hnamed : isNamed (c :: piece) = true := by simp [isNamed, hdot]
          simpa [hdot, hnamed] using h
      obtain ⟨rfl, rfl⟩ : c = '~' ∧ piece = [] := by simpa using hfirst
      -- What is behind the first piece starts with a slash, if there is anything.
      have hcs : ['/'].intercalate ([] :: rest) = cs := by rw [← hpieces, intercalate_pieces]
      cases rest with
      | nil => exact .inl (by rw [← hcs]; rfl)
      | cons more others => exact .inr ⟨_, by rw [← hcs, List.intercalate_cons_cons]; rfl⟩
  · rintro (rfl | ⟨rest, rfl⟩)
    · rfl
    · rw [components_tilde_slash, List.head?_cons]

end Path

/-! ## Texts without the blanks at their end -/

namespace Text

/-- The text without the blanks at its end. -/
def trimEnd (cs : List Char) : List Char :=
  (cs.reverse.dropWhile isBlank).reverse

/-- Where characters that are no blanks are in front, blanks are dropped behind them. -/
theorem trim_append (front cs : List Char) (h : front.all (!isBlank ·) = true)
    (hne : front ≠ []) : trim (front ++ cs) = front ++ trimEnd cs := by
  have hfront : ∀ c ∈ front, isBlank c = false := by simpa using h
  have hkeep {l : List Char} (hl : ∀ c ∈ l, isBlank c = false) (hlne : l ≠ []) (more : List Char) :
      (l ++ more).dropWhile isBlank = l ++ more := by
    obtain ⟨c, rest, rfl⟩ := List.exists_cons_of_ne_nil hlne
    exact List.dropWhile_cons_of_neg (by rw [hl c List.mem_cons_self]; exact Bool.false_ne_true)
  have hback : front.reverse.dropWhile isBlank = front.reverse := by
    have hreverse := hkeep (l := front.reverse) (by simpa using hfront) (by simpa using hne) []
    rwa [List.append_nil] at hreverse
  rw [trim, hkeep hfront hne, List.reverse_append, List.dropWhile_append, hback, trimEnd]
  split
  next hempty =>
    rw [List.isEmpty_iff.mp hempty]
    simp
  next => simp

/-- A text that closes with no blank keeps its end. -/
theorem trimEnd_eq_self {cs : List Char} (h : ∀ c ∈ cs.getLast?, isBlank c = false) :
    trimEnd cs = cs := by
  unfold trimEnd
  cases hreverse : cs.reverse with
  | nil => rw [List.reverse_eq_nil_iff.mp hreverse]; rfl
  | cons c rest =>
    have hlast : cs.getLast? = some c := by rw [← List.head?_reverse, hreverse, List.head?_cons]
    rw [List.dropWhile_cons_of_neg (by rw [h c hlast]; exact Bool.false_ne_true), ← hreverse,
      List.reverse_reverse]

end Text

/-! ## Paths in the home directory -/

namespace Surroundings

open Runbook.Path (components isAbsolute)

/-- The components of the path behind the first one follow those of the home directory. -/
def LiesInHome (root home path : List Char) : Prop :=
  components root = components home ++ (components path).tail

variable (s : Surroundings) {home path : String}

/-- The component `~` alone is the home directory. -/
theorem expand_tilde (hhome : s.home = some home) : s.expand "~" = home := by
  show String.ofList (s.home.getD "~").toList = home
  rw [hhome, Option.getD_some, String.ofList_toList]

/-- What stands behind `~/`, without the blanks that it closes with, is joined to the home
directory. -/
theorem expand_tilde_slash (hhome : s.home = some home) {rest : List Char}
    (hpath : path.toList = '~' :: '/' :: rest) :
    s.expand path = String.ofList (Path.join home.toList (Text.trimEnd rest)) := by
  have htrim : Text.trim path.toList = '~' :: '/' :: Text.trimEnd rest :=
    hpath ▸ Text.trim_append ['~', '/'] rest rfl (by decide)
  unfold expand
  rw [Path.head?_components_eq_tilde_iff.mpr (.inr ⟨rest, hpath⟩), htrim, hhome]
  rfl

/-- What stands behind `~/` lies in the home directory if it is relative. If it is absolute, the
home directory can only be the root. -/
theorem liesInHome_join_iff {home rest : List Char} (habsolute : isAbsolute home = true) :
    LiesInHome (Path.join home rest) home ('~' :: '/' :: rest) ↔
      ¬['~', '/', '/'] <+: '~' :: '/' :: rest ∨ components home = [['/']] := by
  have hprefix : ['~', '/', '/'] <+: '~' :: '/' :: rest ↔ isAbsolute rest = true := by
    rw [List.cons_prefix_cons, List.cons_prefix_cons, Path.isAbsolute_iff]
    exact ⟨fun ⟨_, _, cs, hcs⟩ => ⟨cs, hcs.symm⟩, fun ⟨cs, hcs⟩ => ⟨rfl, rfl, cs, hcs.symm⟩⟩
  rw [LiesInHome, Path.components_tilde_slash, List.tail_cons, hprefix]
  cases hrest : isAbsolute rest with
  | false =>
    rw [Path.components_join habsolute hrest]
    simp
  | true =>
    rw [Path.join_of_isAbsolute home hrest, Path.components_of_isAbsolute hrest,
      ← List.singleton_append, List.append_left_inj]
    simp [eq_comm]

/-- A path whose first component is `~`, without the blanks that it closes with, lies in the home
directory unless two slashes stand behind the `~`. Then the path is that behind the first of them,
wherever the home directory is. It does not matter whether the path is asked for or named by the
environment. -/
theorem root_of_tilde (hhome : s.home = some home) (habsolute : isAbsolute home.toList = true)
    (htilde : (components path.toList).head? = some ['~']) :
    ({ s with log := some path } : Surroundings).root none = s.root (some path) ∧
      ((∀ c ∈ path.toList.getLast?, Text.isBlank c = false) →
        Text.trim path.toList = path.toList) ∧
      (LiesInHome (s.root (some path)).toList home.toList (Text.trim path.toList) ↔
        ¬['~', '/', '/'] <+: Text.trim path.toList ∨ components home.toList = [['/']]) ∧
      ∀ rest, Text.trim path.toList = '~' :: '/' :: '/' :: rest →
        s.root (some path) = String.ofList ('/' :: rest) := by
  -- What the environment names is expanded unless it is blank, which `~` is not.
  have hdefault (htrim : (Text.trim path.toList).isEmpty = false) :
      ({ s with log := some path } : Surroundings).root none = s.root (some path) := by
    show (if (Text.trim path.toList).isEmpty then _ else s.expand path) = s.expand path
    rw [htrim, if_neg Bool.false_ne_true]
  rcases Path.head?_components_eq_tilde_iff.mp htilde with hpath | ⟨rest, hpath⟩
  · obtain rfl : path = "~" := String.toList_inj.mp hpath
    refine ⟨hdefault (by decide), fun _ => by decide, ?_, fun rest hrest => by cases hrest⟩
    have hhere : LiesInHome home.toList home.toList ['~'] := (List.append_nil _).symm
    show LiesInHome (s.expand "~").toList home.toList ['~'] ↔ _
    rw [expand_tilde s hhome]
    exact ⟨fun _ => .inl (by decide), fun _ => hhere⟩
  · have htrim : Text.trim path.toList = '~' :: '/' :: Text.trimEnd rest :=
      hpath ▸ Text.trim_append ['~', '/'] rest rfl (by decide)
    refine ⟨hdefault (by rw [htrim]; rfl), fun hend => ?_, ?_, fun behind hbehind => ?_⟩
    · rw [htrim, hpath, Text.trimEnd_eq_self fun c hc => hend c ?_]
      have hlast : rest.getLast? = some c := hc
      show path.toList.getLast? = some c
      rw [hpath, List.getLast?_cons, List.getLast?_cons, hlast]
      rfl
    · show LiesInHome (s.expand path).toList _ _ ↔ _
      rw [expand_tilde_slash s hhome hpath, String.toList_ofList, htrim]
      exact liesInHome_join_iff habsolute
    · have habsolute : Text.trimEnd rest = '/' :: behind := by
        rw [htrim] at hbehind
        exact (List.cons.inj (List.cons.inj hbehind).2).2
      show s.expand path = _
      rw [expand_tilde_slash s hhome hpath, habsolute, Path.join_of_isAbsolute _ rfl]

/-- The directory that is named by the environment is in the home directory, also if blanks stand
behind it. -/
theorem root_of_tilde_custom :
    LiesInHome (root ⟨some "/home/u/", none, none⟩ (some "~/custom//logs \t")).toList
        "/home/u/".toList "~/custom//logs".toList ∧
      root ⟨some "/home/u/", none, some "~/custom//logs \t"⟩ none = "/home/u/custom//logs" := by
  have hhome : isAbsolute "/home/u/".toList = true := by decide
  have htilde : (components "~/custom//logs \t".toList).head? = some ['~'] := by decide
  have htrim : Text.trim "~/custom//logs \t".toList = "~/custom//logs".toList := by decide
  obtain ⟨hdefault, -, hlies, -⟩ :=
    root_of_tilde ⟨some "/home/u/", none, none⟩ rfl hhome htilde
  rw [htrim] at hlies
  refine ⟨hlies.mpr (.inl (by decide)), ?_⟩
  rw [show root ⟨some "/home/u/", none, some "~/custom//logs \t"⟩ none = _ from hdefault]
  decide

/-- With two slashes behind the `~` the log lies outside of the home directory. -/
theorem doubled_slash_leaves_home :
    isAbsolute "/home/u".toList = true ∧
      components "~//a".toList = [['~'], ['a']] ∧
      root ⟨some "/home/u", none, none⟩ (some "~//a") = "/a" ∧
      root ⟨some "/home/u", none, some "~//a"⟩ none = "/a" ∧
      ¬LiesInHome "/a".toList "/home/u".toList "~//a".toList := by
  refine ⟨by decide, by decide, by decide, by decide, ?_⟩
  unfold LiesInHome
  decide

end Surroundings

end Runbook
