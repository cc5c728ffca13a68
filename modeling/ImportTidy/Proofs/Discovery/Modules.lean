/-
# ImportTidy.Proofs.Discovery.Modules — files belong to their modules under any root

A file of a project is given by its path below the root, joined to the root as it was written. The
components of the joined path are those of the root and then those of the path below it
(`components_join`), however the root is spelled, so that the module of a file is read off the path
below the root alone (`module?_join`). The groups of the files hence name each module once, hold each
file at most once, and are the same under every root (`filesByModule_join`).
-/
import Mathlib.Data.List.Nodup
import ImportTidy.Discovery.Module
import ImportTidy.Proofs.Disk.Siblings
import ImportTidy.Proofs.Import.Selection

namespace ImportTidy

namespace Path

variable {p q r : Path}

/-! ## The components of a joined path -/

/-- The first component, if it is a name. -/
def firstName? (p : Path) : Option Text :=
  match p.components with
  | .name n :: _ => some n
  | _ => none

theorem firstName?_eq_some {n : Text} :
    p.firstName? = some n ↔ ∃ more, p.components = .name n :: more := by
  unfold firstName?
  split <;> simp_all

/-- The component that the start of a path stands for, besides those of its pieces. -/
def lead : List Text → List Component
  | [] :: _ :: _ => [.root]
  | ['.'] :: _ => [.here]
  | _ => []

theorem components_eq (p : Path) : p.components = lead p.pieces ++ p.pieces.filterMap component? := by
  simp only [components]
  split
  · rename_i hpieces
    rw [hpieces, lead, List.singleton_append]
  · rename_i hpieces
    rw [hpieces, lead, List.singleton_append]
  · rename_i hroot hhere
    rw [lead, List.nil_append]
    · exact hroot
    · exact hhere

/-- Of a piece in front of others, only that there are others counts. -/
theorem lead_cons_cons (x y z : Text) (more others : List Text) :
    lead (x :: y :: more) = lead (x :: z :: others) := by
  cases x with
  | nil => rfl
  | cons c t =>
      by_cases hdot : c :: t = ['.']
      · rw [hdot]
        rfl
      · rw [lead, lead] <;> simp_all

/-- A piece that is not empty means the same alone and in front of others. -/
theorem lead_cons {x : Text} (hx : x ≠ []) (y : Text) (more : List Text) : lead (x :: y :: more) = lead [x] := by
  by_cases hdot : x = ['.']
  · rw [hdot]
    rfl
  · rw [lead, lead] <;> simp_all

/-- In front of a name there is neither a separator nor a dot. -/
theorem lead_of_firstName? (h : q.firstName?.isSome) : lead q.pieces = [] := by
  obtain ⟨n, hn⟩ := Option.isSome_iff_exists.mp h
  obtain ⟨more, hmore⟩ := firstName?_eq_some.mp hn
  rw [components_eq] at hmore
  unfold lead at hmore ⊢
  split at hmore
  · cases hmore
  · cases hmore
  · rfl

theorem isAbsolute_of_firstName? (h : q.firstName?.isSome) : q.isAbsolute = false := by
  rw [Bool.eq_false_iff]
  intro habsolute
  obtain ⟨x, more, hpieces⟩ := isAbsolute_iff.mp habsolute
  have hlead := lead_of_firstName? h
  rw [hpieces] at hlead
  cases hlead

/-- Pieces behind a separator at the end of a path take the place of the empty piece there. -/
theorem lead_behind_separator (b : Text) (q : Path) :
    lead (b.splitOn separator ++ q.pieces) = lead (b.splitOn separator ++ [[]]) := by
  obtain ⟨x, more, hb⟩ := List.exists_cons_of_ne_nil (List.splitOn_ne_nil separator b)
  obtain ⟨y, others, hq⟩ := List.exists_cons_of_ne_nil (List.splitOn_ne_nil separator q.text)
  rw [hb, pieces, hq]
  cases more with
  | nil => exact lead_cons_cons x y [] others []
  | cons z more => exact lead_cons_cons x z z _ _

/-- Pieces behind a path that is not empty leave its start as it is. -/
theorem lead_pieces_append (hp : p.text ≠ []) (more : List Text) :
    lead (p.pieces ++ more) = lead p.pieces := by
  obtain ⟨x, rest, hpieces⟩ := List.exists_cons_of_ne_nil (List.splitOn_ne_nil separator p.text)
  rw [pieces, hpieces]
  cases rest with
  | cons y rest => exact lead_cons_cons x y y _ _
  | nil =>
      cases more with
      | nil => rfl
      | cons y more =>
          have hx : x = p.text := by
            have htext : [separator].intercalate (p.text.splitOn separator) = p.text :=
              List.intercalate_splitOn separator
            rw [hpieces] at htext
            simpa using htext
          exact lead_cons (hx ▸ hp) y more

/-- **Joining adds components.** What starts with a name is seen behind all of the root, be the root
empty, a dot, absolute or not, and with separators at its end or without. -/
theorem components_join (p : Path) (h : q.firstName?.isSome) :
    (p.join q).components = p.components ++ q.components := by
  have hq : q.components = q.pieces.filterMap component? := by
    rw [components_eq, lead_of_firstName? h, List.nil_append]
  rw [join, isAbsolute_of_firstName? h, if_neg Bool.false_ne_true]
  by_cases hempty : p.text = []
  · have hp : p.components = [] := by
      rw [components_eq, pieces, hempty, List.splitOn_nil]
      rfl
    simp [hempty, hp]
  rw [components_eq p, hq, List.append_assoc, ← List.filterMap_append]
  by_cases hlast : p.text.getLast? = some separator
  · -- the separator is there already, and the empty piece behind it does not count
    obtain ⟨b, hb⟩ := List.getLast?_eq_some_iff.mp hlast
    have hjoined : (⟨p.text ++ q.text⟩ : Path).pieces = b.splitOn separator ++ q.pieces := by
      rw [pieces, pieces, hb, List.append_assoc, List.singleton_append, List.splitOn_append_cons_self]
    have hp : p.pieces = b.splitOn separator ++ [[]] := by
      rw [pieces, hb, List.splitOn_append_cons_self, List.splitOn_nil]
    rw [if_pos (by simp [hlast]), components_eq, hjoined, hp, lead_behind_separator]
    simp [List.filterMap_append, component?]
  · have hjoined : (⟨p.text ++ separator :: q.text⟩ : Path).pieces = p.pieces ++ q.pieces := by
      rw [pieces, pieces, pieces, List.splitOn_append_cons_self]
    rw [if_neg (by simpa using ⟨hempty, hlast⟩), components_eq, hjoined, lead_pieces_append hempty]

/-! ## The module of a file -/

theorem behind?_append (start components : List Component) :
    behind? start (start ++ components) = some components := by
  induction start with
  | nil => cases components <;> rfl
  | cons a start ih => simp [behind?, ih]

/-- Seen from the root, a file below it starts as its path below the root does. -/
theorem topName?_join (root : Path) (h : r.firstName?.isSome) :
    topName? root (root.join r) = r.firstName? := by
  rw [topName?, from?, components_join root h, behind?_append, firstName?]
  cases r.components with
  | nil => rfl
  | cons c more => cases c <;> rfl

theorem module?_join (root : Path) (modules : List Text) (h : r.firstName?.isSome) :
    module? root modules (root.join r) =
      r.firstName?.bind fun name => if modules.contains name then some name else none := by
  rw [module?, topName?_join root h]

theorem module?_join_eq_some {root : Path} {modules : List Text} {m : Text}
    (h : r.firstName?.isSome) :
    module? root modules (root.join r) = some m ↔ m ∈ modules ∧ r.firstName? = some m := by
  rw [module?_join root modules h, Option.bind_eq_some_iff]
  constructor
  · rintro ⟨name, hname, hmodule⟩
    split at hmodule
    · rename_i hmem
      cases hmodule
      exact ⟨List.contains_iff_mem.mp hmem, hname⟩
    · cases hmodule
  · rintro ⟨hmem, hname⟩
    exact ⟨m, hname, if_pos (List.contains_iff_mem.mpr hmem)⟩

/-- What is joined to the empty path stays as it is. -/
theorem empty_join (r : Path) : (⟨[]⟩ : Path).join r = r := by
  unfold join
  split <;> simp

end Path

/-! ## The groups -/

/-- The modules that have files, in their order. -/
def moduleNames (root : Path) (files : List Path) (modules : List Text) : List Text :=
  (files.filterMap (Path.module? root modules)).eraseDups.mergeSort fun a b => Text.compare a b != .gt

variable {root : Path} {files rs : List Path} {modules : List Text}

theorem filesByModule_eq (root : Path) (files : List Path) (modules : List Text) :
    filesByModule root files modules = (moduleNames root files modules).map fun m =>
      (m, files.filter fun file => Path.module? root modules file == some m) := rfl

theorem mem_moduleNames {m : Text} :
    m ∈ moduleNames root files modules ↔ ∃ file ∈ files, Path.module? root modules file = some m := by
  rw [moduleNames, List.mem_mergeSort, List.mem_eraseDups, List.mem_filterMap]

theorem nodup_moduleNames : (moduleNames root files modules).Nodup :=
  (List.mergeSort_perm _ _).nodup_iff.mpr (Block.nodup_eraseDups _)

theorem compare_moduleNames :
    (moduleNames root files modules).Pairwise fun m n => Text.compare m n = .lt := by
  have hsorted : (moduleNames root files modules).Pairwise fun m n => Text.compare m n != .gt := by
    apply List.pairwise_mergeSort
    · intro a b c hab hbc
      have hle : ∀ m n, (Text.compare m n != .gt) = true → (Text.compare m n).isLE = true := by
        intro m n
        cases Text.compare m n <;> simp
      have hac := Std.TransCmp.isLE_trans (hle a b hab) (hle b c hbc)
      revert hac
      cases Text.compare a c <;> simp
    · intro a b
      have hswap : Text.compare b a = (Text.compare a b).swap := Std.OrientedCmp.eq_swap
      rw [hswap]
      cases Text.compare a b <;> rfl
  refine (hsorted.and nodup_moduleNames).imp ?_
  rintro m n ⟨hle, hne⟩
  cases hcompare : Text.compare m n with
  | lt => rfl
  | eq => exact absurd (Std.LawfulEqCmp.eq_of_compare hcompare) hne
  | gt => simp [hcompare] at hle

/-- A file among the given ones is in as many groups as it has modules. -/
theorem countP_filesByModule {file : Path} (hfile : file ∈ files) :
    (filesByModule root files modules).countP (fun g => file ∈ g.2) =
      if (Path.module? root modules file).isSome then 1 else 0 := by
  have hgroup : ∀ m, file ∈ files.filter (fun file => Path.module? root modules file == some m) ↔
      Path.module? root modules file = some m := by
    intro m
    rw [List.mem_filter, beq_iff_eq, and_iff_right hfile]
  rw [filesByModule_eq, List.countP_map]
  cases hmodule : Path.module? root modules file with
  | none =>
      rw [List.countP_eq_zero.mpr]
      · rfl
      · intro m _
        simp [hgroup, hmodule]
  | some m =>
      have hcount : (moduleNames root files modules).count m = 1 :=
        List.count_eq_one_of_mem nodup_moduleNames (mem_moduleNames.mpr ⟨file, hfile, hmodule⟩)
      rw [if_pos Option.isSome_some, ← hcount, List.count]
      refine List.countP_congr fun n _ => ?_
      rw [Function.comp_apply, decide_eq_true_iff, hgroup, hmodule, Option.some_inj, beq_iff_eq, eq_comm]

section Join

variable (root modules) (h : ∀ r ∈ rs, r.firstName?.isSome)

include h

theorem mem_moduleNames_join {m : Text} :
    m ∈ moduleNames root (rs.map root.join) modules ↔
      m ∈ modules ∧ ∃ r ∈ rs, r.firstName? = some m := by
  rw [mem_moduleNames]
  constructor
  · rintro ⟨file, hfile, hmodule⟩
    obtain ⟨r, hr, rfl⟩ := List.mem_map.mp hfile
    obtain ⟨hmem, hname⟩ := (Path.module?_join_eq_some (h r hr)).mp hmodule
    exact ⟨hmem, r, hr, hname⟩
  · rintro ⟨hmem, r, hr, hname⟩
    exact ⟨root.join r, List.mem_map_of_mem hr,
      (Path.module?_join_eq_some (h r hr)).mpr ⟨hmem, hname⟩⟩

/-- The files of a module, by the names that the paths below the root start with. -/
theorem filter_module?_join {m : Text} (hm : m ∈ modules) :
    (rs.map root.join).filter (fun file => Path.module? root modules file == some m) =
      (rs.filter fun r => r.firstName? == some m).map root.join := by
  rw [List.filter_map]
  refine congrArg (List.map root.join) (List.filter_congr fun r hr => ?_)
  rw [Function.comp_apply, Bool.eq_iff_iff, beq_iff_eq, beq_iff_eq,
    Path.module?_join_eq_some (h r hr), and_iff_right hm]

theorem filesByModule_join_eq :
    filesByModule root (rs.map root.join) modules =
      (moduleNames root (rs.map root.join) modules).map fun m =>
        (m, (rs.filter fun r => r.firstName? == some m).map root.join) := by
  rw [filesByModule_eq]
  refine List.map_congr_left fun m hm => Prod.ext rfl ?_
  exact filter_module?_join root modules h ((mem_moduleNames_join root modules h).mp hm).1

theorem moduleNames_join :
    moduleNames root (rs.map root.join) modules = moduleNames ⟨[]⟩ rs modules := by
  have hsame : (rs.map root.join).filterMap (Path.module? root modules) =
      rs.filterMap (Path.module? ⟨[]⟩ modules) := by
    rw [List.filterMap_map]
    refine List.filterMap_congr fun r hr => ?_
    have hempty := Path.module?_join ⟨[]⟩ modules (h r hr)
    rw [Path.empty_join] at hempty
    rw [Function.comp_apply, Path.module?_join root modules (h r hr), hempty]
  rw [moduleNames, moduleNames, hsame]

/-- The groups under a root are those of the paths below it, with the root joined to each. -/
theorem filesByModule_eq_map_join :
    filesByModule root (rs.map root.join) modules =
      (filesByModule ⟨[]⟩ rs modules).map (Prod.map id (List.map root.join)) := by
  have hbelow : rs.map (Path.join ⟨[]⟩) = rs :=
    (List.map_congr_left fun r _ => Path.empty_join r).trans (List.map_id' rs)
  have hempty := filesByModule_join_eq ⟨[]⟩ modules h
  rw [hbelow] at hempty
  rw [filesByModule_join_eq root modules h, moduleNames_join root modules h, hempty, List.map_map]
  refine List.map_congr_left fun m _ => Prod.ext rfl ?_
  simp [Path.empty_join]

/-- **Files are grouped by the modules that they belong to.** Under any root, each module has one
group; there is one exactly for the modules that some path below the root starts with, and it holds
those files in their order. Each file is in one group or in none, and the root does not matter. -/
theorem filesByModule_join :
    let groups := filesByModule root (rs.map root.join) modules
    (groups.map Prod.fst).Pairwise (fun m n => Text.compare m n = .lt) ∧
      (∀ m files, (m, files) ∈ groups ↔
        m ∈ modules ∧ (∃ r ∈ rs, r.firstName? = some m) ∧
          files = (rs.filter fun r => r.firstName? == some m).map root.join) ∧
      (∀ r ∈ rs, groups.countP (fun g => root.join r ∈ g.2) =
        if ∃ m ∈ modules, r.firstName? = some m then 1 else 0) ∧
      groups = (filesByModule ⟨[]⟩ rs modules).map (Prod.map id (List.map root.join)) := by
  refine ⟨?_, ?_, ?_, filesByModule_eq_map_join root modules h⟩
  · rw [filesByModule_eq, List.map_map]
    exact (List.map_id _).symm ▸ compare_moduleNames
  · intro m files
    rw [filesByModule_join_eq root modules h, List.mem_map]
    constructor
    · rintro ⟨n, hn, heq⟩
      cases heq
      obtain ⟨hmem, hsome⟩ := (mem_moduleNames_join root modules h).mp hn
      exact ⟨hmem, hsome, rfl⟩
    · rintro ⟨hmem, hsome, rfl⟩
      exact ⟨m, (mem_moduleNames_join root modules h).mpr ⟨hmem, hsome⟩, rfl⟩
  · intro r hr
    have hsome : (Path.module? root modules (root.join r)).isSome ↔
        ∃ m ∈ modules, r.firstName? = some m := by
      rw [Option.isSome_iff_exists]
      exact exists_congr fun m => Path.module?_join_eq_some (h r hr)
    rw [countP_filesByModule (List.mem_map_of_mem hr)]
    simp only [hsome]

end Join

/-- Paths below a project: of one module, with inner dots, of another and of none. -/
def scattered : List Path :=
  [⟨"ess/app/A.scala".toList⟩, ⟨"common/../B.scala".toList⟩, ⟨"tools/C.scala".toList⟩,
    ⟨"ess/./D.scala".toList⟩]

/-- The root is the dot, with separators at its end. -/
theorem filesByModule_join_here :
    (∀ r ∈ scattered, r.firstName?.isSome) ∧
      ("ess".toList, [⟨".//ess/app/A.scala".toList⟩, ⟨".//ess/./D.scala".toList⟩]) ∈
        filesByModule ⟨".//".toList⟩ (scattered.map (Path.join ⟨".//".toList⟩))
          ["ess".toList, "common".toList] := by
  have hnames : ∀ r ∈ scattered, r.firstName?.isSome := by decide +kernel
  refine ⟨hnames, ((filesByModule_join _ _ hnames).2.1 _ _).mpr ?_⟩
  decide +kernel

end ImportTidy
