import LoadOrder.Files.Discovery
import Mathlib.Data.List.Forall2
import Mathlib.Data.List.Sort
import Mathlib.Data.Nat.Init
import Mathlib.Tactic.SplitIfs
import Mathlib.Tactic.Tauto

/-!
# What a project consists of

The sources of a project depend on two lists of the settings.  The patterns for files are looked at
as a set: they have to be valid, all of them, and then it counts whether one of them matches.  The
lines to leave out are rules in an order, behind the rules of the ignore files and the standard
ones, and the last rule about a path decides, or the last one about the nearest directory above it.

* `IgnoreRules.ignores_concat` : a rule at the end that ignores takes no path back that was left
  out, whatever the rules before it keep, and at which level;
* `FileStore.nodup_filesIn` and `Path.pairwise_inOrder` : no path is found twice, so that the result
  is strictly increasing and determined by its members;
* `of_discover_eq_ok` : which paths these are.

`discover_responds` says what follows when the settings change.
-/

namespace LoadOrder

/-! ### The order of paths -/

namespace Path

variable {p q : List String} {paths : List (List String)}

theorem before_iff : before p q = true ↔ p < q := by
  induction p generalizing q with
  | nil => cases q <;> simp [before]
  | cons a p ih =>
    cases q with
    | nil => simp [before]
    | cons b q => simp [before, ih, List.cons_lt_cons_iff]

theorem not_before_iff : (!before q p) = true ↔ ¬ q < p := by
  rw [Bool.not_eq_true', ← Bool.not_eq_true, before_iff]

theorem mem_inOrder : p ∈ inOrder paths ↔ p ∈ paths := List.mem_mergeSort

/-- **Paths without repetition come out strictly increasing.** -/
theorem pairwise_inOrder (h : paths.Nodup) : (inOrder paths).Pairwise (· < ·) := by
  have hsorted : (inOrder paths).Pairwise fun p q => (!before q p) = true := by
    refine List.pairwise_mergeSort (fun p q r hpq hqr => ?_) (fun p q => ?_) paths
    · rw [not_before_iff] at hpq hqr ⊢
      exact List.not_lt.2 (List.le_trans (List.not_lt.1 hpq) (List.not_lt.1 hqr))
    · rw [Bool.or_eq_true, not_before_iff, not_before_iff]
      exact (List.le_total p q).imp List.not_lt.2 List.not_lt.2
  have hdistinct : (inOrder paths).Nodup := (List.mergeSort_perm paths _).nodup_iff.2 h
  refine (hsorted.and hdistinct).imp fun {p q} ⟨hpq, hne⟩ => ?_
  have hle := List.not_lt.1 (not_before_iff.1 hpq)
  exact (List.le_iff_lt_or_eq.1 hle).resolve_right hne

end Path

/-! ### One rule more -/

theorem isPrefix_trimEnd (cs : List Char) : trimEnd cs <+: cs := by
  rw [trimEnd, ← List.reverse_suffix, List.reverse_reverse]
  exact List.dropWhile_suffix isBlank

namespace IgnoreRule

variable {line : List Char} {rule : IgnoreRule}

theorem isPrefix_trimLine (line : List Char) : trimLine line <+: line := by
  unfold trimLine
  split_ifs
  · exact List.prefix_refl line
  · exact isPrefix_trimEnd line

theorem opening_fst (h : line.head? ≠ some '!') : (opening line).1 = .ignore := by
  unfold opening
  split <;> simp_all

theorem verdict_of_parse? (h : parse? line = some rule) (hline : line.head? ≠ some '!') :
    rule.verdict = .ignore := by
  have htrim : (trimLine line).head? ≠ some '!' := by
    intro hhead
    obtain ⟨rest, hrest⟩ := isPrefix_trimLine line
    obtain ⟨more, hmore⟩ := List.head?_eq_some_iff.1 hhead
    exact hline (by rw [← hrest, hmore]; rfl)
  simp only [parse?] at h
  split_ifs at h
  obtain ⟨regex, -, rfl⟩ := Option.map_eq_some_iff.1 h
  exact opening_fst htrim

end IgnoreRule

namespace IgnoreRules

variable {rules : IgnoreRules} {rule : IgnoreRule} {path : List String} {directory : Bool}

theorem verdict?_concat : verdict? (rules ++ [rule]) path directory =
    if rule.applies path directory then some rule.verdict else rules.verdict? path directory := by
  rw [verdict?, List.reverse_append, List.reverse_singleton, List.singleton_append, List.find?_cons]
  cases rule.applies path directory <;> rfl

/-- **A rule that ignores, put at the end, takes no decision to ignore back.**  The nearest level at
which the old rules decide may now come after one at which the new rule does, but both say the same.
-/
theorem nearest?_concat (hrule : rule.verdict = .ignore)
    (h : rules.nearest? path directory = some .ignore) :
    nearest? (rules ++ [rule]) path directory = some .ignore := by
  induction path generalizing directory with
  | nil =>
    rw [nearest?, verdict?_concat, hrule]
    split_ifs
    · rfl
    · exact h
  | cons name above ih =>
    rw [nearest?] at h
    rw [nearest?, verdict?_concat, hrule]
    split_ifs
    · rfl
    · cases hverdict : rules.verdict? (name :: above).reverse directory with
      | some verdict =>
        rw [hverdict, Option.some_or] at h
        rw [Option.some_or, h]
      | none =>
        rw [hverdict, Option.none_or] at h
        rw [Option.none_or]
        exact ih h

theorem ignores_concat (hrule : rule.verdict = .ignore)
    (h : rules.ignores path directory = true) :
    ignores (rules ++ [rule]) path directory = true := by
  simp only [ignores, decide_eq_true_eq] at h ⊢
  exact nearest?_concat hrule h

theorem ofLines_concat (lines : List String) (line : String) :
    ofLines (lines ++ [line]) = ofLines lines ++ (IgnoreRule.parse? line.toList).toList := by
  cases hline : IgnoreRule.parse? line.toList <;> simp [ofLines, hline]

end IgnoreRules

namespace FileStore

variable {store : FileStore} {root path : List String} {exclude : List String} {line : String}

theorem eq_append_of_fileFrom? {e : List String × FileEntry} (h : fileFrom? root e = some path) :
    e.1 = root ++ path := by
  obtain ⟨place, _ | _⟩ := e
  · simp only [fileFrom?, Option.ite_none_right_eq_some, List.isPrefixOf_iff_prefix] at h
    obtain ⟨⟨rest, rfl⟩, hpath⟩ := h
    rw [← Option.some.inj hpath, List.drop_left]
  · cases h

theorem nodup_filesIn (store : FileStore) (root : List String) : (store.filesIn root).Nodup := by
  have hplaces : store.entries.Pairwise fun d e => d.1 ≠ e.1 := List.pairwise_map.1 store.distinct
  refine hplaces.filterMap _ fun d e hne p hp q hq => ?_
  rintro rfl
  exact hne ((eq_append_of_fileFrom? hp).trans (eq_append_of_fileFrom? hq).symm)

/-- **A line that does not start with an exclamation mark leaves out more.** -/
theorem ignores_exclude_concat (hline : line.toList.head? ≠ some '!')
    (h : (store.projectRules root exclude).ignores path false = true) :
    (store.projectRules root (exclude ++ [line])).ignores path false = true := by
  have hrules : store.projectRules root (exclude ++ [line]) =
      store.projectRules root exclude ++ (IgnoreRule.parse? line.toList).toList := by
    simp only [projectRules, IgnoreRules.ofLines_concat, List.append_assoc]
  rw [hrules]
  cases hparse : IgnoreRule.parse? line.toList with
  | none => simpa using h
  | some rule => exact IgnoreRules.ignores_concat (IgnoreRule.verdict_of_parse? hparse hline) h

end FileStore

/-! ### Patterns for files -/

namespace Glob

variable {files : List String} {globs : List Glob} {e : GlobError} {text : String}

/-- The text is a pattern. -/
def Valid (text : String) : Prop := ∃ g, parse text = .ok g

/-- Some of the texts is a pattern that matches. -/
def Selects (files : List String) (path : String) : Prop :=
  ∃ text ∈ files, ∃ g, parse text = .ok g ∧ g.test path = true

theorem mapM_parse_cons (text : String) (files : List String) :
    (text :: files).mapM parse = (do .ok ((← parse text) :: (← files.mapM parse))) := by
  rw [List.mapM_cons]
  rfl

/-- **The first text that is no pattern is the one that is reported.** -/
theorem mapM_parse_eq_error_iff : files.mapM parse = .error e ↔
    ∃ before text after, files = before ++ text :: after ∧ (∀ t ∈ before, Valid t) ∧
      parse text = .error e := by
  induction files with
  | nil =>
    constructor
    · intro h
      cases h
    · rintro ⟨before, text, after, h, -⟩
      simp at h
  | cons first files ih =>
    rw [mapM_parse_cons]
    constructor
    · intro h
      cases hfirst : parse first with
      | error e' =>
        rw [hfirst] at h
        cases h
        exact ⟨[], first, files, rfl, by simp, hfirst⟩
      | ok g =>
        have hrest : files.mapM parse = .error e := by
          rw [hfirst] at h
          cases hfiles : files.mapM parse with
          | error e' => rw [hfiles] at h; exact h
          | ok globs => rw [hfiles] at h; cases h
        obtain ⟨before, text, after, rfl, hvalid, htext⟩ := ih.1 hrest
        exact ⟨first :: before, text, after, rfl,
          List.forall_mem_cons.2 ⟨⟨g, hfirst⟩, hvalid⟩, htext⟩
    · rintro ⟨_ | ⟨_, before⟩, text, after, heq, hvalid, htext⟩
      · obtain ⟨rfl, -⟩ := List.cons.inj heq
        rw [htext]
        rfl
      · obtain ⟨rfl, rfl⟩ := List.cons.inj heq
        obtain ⟨⟨g, hfirst⟩, hvalid⟩ := List.forall_mem_cons.1 hvalid
        rw [hfirst, ih.2 ⟨before, text, after, rfl, hvalid, htext⟩]
        rfl

theorem forall₂_of_mapM_parse (h : files.mapM parse = .ok globs) :
    List.Forall₂ (fun text g => parse text = .ok g) files globs := by
  induction files generalizing globs with
  | nil =>
    cases h
    exact .nil
  | cons first files ih =>
    rw [mapM_parse_cons] at h
    cases hfirst : parse first with
    | error e => rw [hfirst] at h; cases h
    | ok g =>
      rw [hfirst] at h
      cases hfiles : files.mapM parse with
      | error e => rw [hfiles] at h; cases h
      | ok rest =>
        rw [hfiles] at h
        cases h
        exact .cons hfirst (ih hfiles)

theorem exists_mapM_parse_eq_ok_iff :
    (∃ globs, files.mapM parse = .ok globs) ↔ ∀ text ∈ files, Valid text := by
  constructor
  · rintro ⟨globs, h⟩
    have hforall := forall₂_of_mapM_parse h
    clear h
    induction hforall with
    | nil => simp
    | cons hfirst _ ih => exact List.forall_mem_cons.2 ⟨⟨_, hfirst⟩, ih⟩
  · intro h
    cases hfiles : files.mapM parse with
    | ok globs => exact ⟨globs, rfl⟩
    | error e =>
      obtain ⟨before, text, after, rfl, -, htext⟩ := mapM_parse_eq_error_iff.1 hfiles
      obtain ⟨g, hg⟩ := h text (by simp)
      rw [htext] at hg
      cases hg

theorem any_test_iff (h : files.mapM parse = .ok globs) (path : String) :
    globs.any (·.test path) = true ↔ Selects files path := by
  have hforall := forall₂_of_mapM_parse h
  clear h
  induction hforall with
  | nil => simp [Selects]
  | @cons text g _ _ hfirst _ ih =>
    have htext : (∃ g', parse text = .ok g' ∧ g'.test path = true) ↔ g.test path = true := by
      simp [hfirst]
    rw [List.any_cons, Bool.or_eq_true, Selects, List.exists_mem_cons_iff, htext]
    exact or_congr_right ih

end Glob

/-! ### Sources -/

variable {store : FileStore} {root path : List String} {config : Config}
  {found : List (List String)} {e : GlobError}

/-- A file of a project that some pattern matches, that the walk comes to, and that the rules of the
project do not leave out. -/
def IsSource (store : FileStore) (root : List String) (config : Config) (path : List String) :
    Prop :=
  path ∈ store.filesIn root ∧ store.visible root path = true ∧
    (store.projectRules root config.exclude).ignores path false = false ∧
    Glob.Selects config.files (Path.ofComponents path)

theorem discover_eq_error_iff :
    discover store root config = .error e ↔ config.files.mapM Glob.parse = .error e := by
  rw [discover]
  cases config.files.mapM Glob.parse with
  | error e' => constructor <;> rintro ⟨⟩ <;> rfl
  | ok globs => exact iff_of_false nofun nofun

theorem exists_discover_eq_ok_iff :
    (∃ found, discover store root config = .ok found) ↔ ∀ text ∈ config.files, Glob.Valid text := by
  rw [← Glob.exists_mapM_parse_eq_ok_iff, discover]
  cases config.files.mapM Glob.parse with
  | error e => exact iff_of_false nofun nofun
  | ok globs => exact iff_of_true ⟨_, rfl⟩ ⟨_, rfl⟩

/-- **The sources come in increasing order, and all of them.** -/
theorem of_discover_eq_ok (h : discover store root config = .ok found) :
    found.Pairwise (· < ·) ∧ ∀ path, path ∈ found ↔ IsSource store root config path := by
  obtain ⟨globs, hglobs⟩ := Glob.exists_mapM_parse_eq_ok_iff.2 (exists_discover_eq_ok_iff.1 ⟨_, h⟩)
  rw [discover, hglobs] at h
  cases h
  refine ⟨Path.pairwise_inOrder ((store.nodup_filesIn root).filter _), fun path => ?_⟩
  rw [Path.mem_inOrder, List.mem_filter, Bool.and_eq_true, Bool.and_eq_true, Bool.not_eq_true',
    Glob.any_test_iff hglobs, and_assoc]
  rfl

theorem exists_discover_eq_error_iff :
    (∃ e, discover store root config = .error e) ↔ ∃ text ∈ config.files, ¬ Glob.Valid text := by
  have hok := @exists_discover_eq_ok_iff store root config
  cases hfound : discover store root config with
  | error e =>
    refine iff_of_true ⟨e, rfl⟩ ?_
    by_contra hvalid
    push Not at hvalid
    obtain ⟨found, hfound'⟩ := hok.2 hvalid
    rw [hfound] at hfound'
    cases hfound'
  | ok found =>
    refine iff_of_false nofun ?_
    push Not
    exact hok.1 ⟨found, hfound⟩

/-! ### Changes of the settings -/

theorem exists_discover_exclude_concat {line : String} (hline : line.toList.head? ≠ some '!')
    (h : discover store root config = .ok found) : ∃ fewer,
      discover store root { config with exclude := config.exclude ++ [line] } = .ok fewer ∧
        fewer ⊆ found := by
  have hvalid := exists_discover_eq_ok_iff.1 ⟨found, h⟩
  obtain ⟨fewer, hfewer⟩ : ∃ fewer, discover store root
      { config with exclude := config.exclude ++ [line] } = .ok fewer :=
    exists_discover_eq_ok_iff.2 hvalid
  refine ⟨fewer, hfewer, fun path hpath => ((of_discover_eq_ok h).2 path).2 ?_⟩
  obtain ⟨hfile, hvisible, hkept, hselected⟩ := ((of_discover_eq_ok hfewer).2 path).1 hpath
  refine ⟨hfile, hvisible, ?_, hselected⟩
  by_contra hignored
  rw [store.ignores_exclude_concat hline (by simpa using hignored)] at hkept
  cases hkept

theorem exists_discover_files_concat {text : String} (htext : Glob.Valid text)
    (h : discover store root config = .ok found) : ∃ more,
      discover store root { config with files := config.files ++ [text] } = .ok more ∧
        found ⊆ more := by
  have hvalid : ∀ t ∈ config.files ++ [text], Glob.Valid t := by
    intro t ht
    rcases List.mem_append.1 ht with ht | ht
    · exact exists_discover_eq_ok_iff.1 ⟨found, h⟩ t ht
    · exact List.mem_singleton.1 ht ▸ htext
  obtain ⟨more, hmore⟩ : ∃ more, discover store root
      { config with files := config.files ++ [text] } = .ok more :=
    exists_discover_eq_ok_iff.2 hvalid
  refine ⟨more, hmore, fun path hpath => ((of_discover_eq_ok hmore).2 path).2 ?_⟩
  obtain ⟨hfile, hvisible, hkept, t, ht, hselected⟩ := ((of_discover_eq_ok h).2 path).1 hpath
  exact ⟨hfile, hvisible, hkept, t, List.mem_append_left _ ht, hselected⟩

theorem discover_files_congr {files : List String}
    (hfiles : ∀ text, text ∈ files ↔ text ∈ config.files)
    (h : discover store root config = .ok found) :
    discover store root { config with files := files } = .ok found := by
  have hvalid : ∀ text ∈ files, Glob.Valid text := fun text htext =>
    exists_discover_eq_ok_iff.1 ⟨found, h⟩ text ((hfiles text).1 htext)
  obtain ⟨others, hothers⟩ : ∃ others, discover store root { config with files := files } =
      .ok others :=
    exists_discover_eq_ok_iff.2 hvalid
  obtain ⟨hsorted, hmem⟩ := of_discover_eq_ok h
  obtain ⟨hsorted', hmem'⟩ := of_discover_eq_ok hothers
  have hsame : others = found := hsorted'.eq_of_mem_iff hsorted fun path => by
    rw [hmem', hmem]
    simp only [IsSource, Glob.Selects, hfiles]
  rw [hothers, hsame]

/-- **How the sources of a project respond to its settings.**  They cannot be found exactly when
some text is no pattern, and the first such text is reported.  Otherwise they are the sources, in
increasing order and each once.  A further line to leave out, if it does not start with an
exclamation mark, never makes a file a source; a further pattern never makes one cease to be a
source; and the order of the patterns, or their repetition, makes no difference. -/
theorem discover_responds (store : FileStore) (root : List String) (config : Config) :
    ((∃ e, discover store root config = .error e) ↔ ∃ text ∈ config.files, ¬ Glob.Valid text) ∧
    (∀ e, discover store root config = .error e ↔
      ∃ before text after, config.files = before ++ text :: after ∧
        (∀ t ∈ before, Glob.Valid t) ∧ Glob.parse text = .error e) ∧
    ∀ found, discover store root config = .ok found →
      found.Pairwise (· < ·) ∧ found.Nodup ∧
      (∀ path, path ∈ found ↔ IsSource store root config path) ∧
      (∀ line : String, line.toList.head? ≠ some '!' → ∃ fewer,
        discover store root { config with exclude := config.exclude ++ [line] } = .ok fewer ∧
          fewer ⊆ found) ∧
      (∀ text, Glob.Valid text → ∃ more,
        discover store root { config with files := config.files ++ [text] } = .ok more ∧
          found ⊆ more) ∧
      ∀ files : List String, (∀ text, text ∈ files ↔ text ∈ config.files) →
        discover store root { config with files := files } = .ok found := by
  refine ⟨exists_discover_eq_error_iff,
    fun e => discover_eq_error_iff.trans Glob.mapM_parse_eq_error_iff, fun found h => ?_⟩
  obtain ⟨hsorted, hmem⟩ := of_discover_eq_ok h
  exact ⟨hsorted, hsorted.nodup, hmem,
    fun line hline => exists_discover_exclude_concat hline h,
    fun text htext => exists_discover_files_concat htext h,
    fun files hfiles => discover_files_congr hfiles h⟩

/-- A project with two files, one of them in a directory that is then left out. -/
theorem discover_responds_left_out :
    let store : FileStore := (FileStore.empty.add "b/c" (.file [])).add "a" (.file [])
    let config : Config := { files := ["b/*", "a"] }
    discover store [] config = .ok [["a"], ["b", "c"]] ∧
      (∃ fewer, discover store [] { config with exclude := ["b/"] } = .ok fewer ∧
        fewer ⊆ [["a"], ["b", "c"]]) ∧
      (∃ more, discover store [] { config with files := ["b/*", "a", "d"] } = .ok more ∧
        [["a"], ["b", "c"]] ⊆ more) ∧
      discover store [] { config with files := ["a", "b/*", "a"] } = .ok [["a"], ["b", "c"]] := by
  intro store config
  have hsorted : Path.inOrder [["b", "c"], ["a"]] = [["a"], ["b", "c"]] :=
    (Path.pairwise_inOrder (by decide)).eq_of_mem_iff (by decide)
      fun path => by simp [Path.mem_inOrder, or_comm]
  have hfound : discover store [] config = .ok [["a"], ["b", "c"]] := by
    rw [discover, ← hsorted]
    generalize Path.inOrder = sort
    cbv
  have hvalid : Glob.Valid "d" := ⟨⟨.seq (.ofSymbol 'd'.toNat) .empty⟩, by cbv⟩
  obtain ⟨-, -, hok⟩ := discover_responds store [] config
  obtain ⟨-, -, -, hexclude, hfiles, hsame⟩ := hok _ hfound
  refine ⟨hfound, hexclude "b/" (by decide), hfiles "d" hvalid, hsame _ fun text => ?_⟩
  simp only [config, List.mem_cons]
  tauto

end LoadOrder
