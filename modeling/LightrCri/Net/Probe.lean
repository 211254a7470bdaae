import LightrCri.Foundations.Utf8
import LightrCri.Net.Chain

/-!
# The probe and the directories of CNI

`cni_available` looks for a conflist and for the plugins in the directories that `LIGHTR_CNI_CONF`
and `LIGHTR_CNI_BIN` name. A chain takes the directory of its plugins from `CNI_PATH`
(`binDirFromEnv`). What the host has is a `FileSystem`, and two paths lead to the same directory
when they have the same `dirId`.

`execDir_joinPath`: the directory that a plugin is executed from.
-/

namespace LightrCri.Net

open Foundations

/-- The variables that are set. -/
abbrev Environment := String → Option (List UInt8)

/-- `std::env::var`: an error if the variable is not set or not Unicode. -/
def Environment.var (env : Environment) (name : String) : Option String :=
  ((env name).bind decodeUtf8).map String.ofList

structure FileSystem where
  /-- The names in a directory that can be read. -/
  readDir : String → Option (List (List UInt8))
  /-- The directory that a path leads to, if it leads to one. -/
  dirId : String → Option Nat
  dirId_slash : ∀ dir ≠ "", dirId (dir ++ "/") = dirId dir
  /-- The first directory of `PATH` with a program of that name. -/
  onPath : String → Option Nat
  /-- `load_conflist` of a file of a directory. -/
  load : String → List UInt8 → Except String Json
  /-- `unshare(CLONE_NEWNET)` succeeds. -/
  privileged : Bool

structure CniEnv where
  confDir : String
  binDir : String

/-- `Path::extension` of a file name. -/
def extension (name : List UInt8) : Option (List UInt8) :=
  match name.reverse.dropWhile (· ≠ 46) with
  | [] | [_] => none
  | _ => some (name.reverse.takeWhile (· ≠ 46)).reverse

def isConflist (name : List UInt8) : Bool := extension name = some (encodeUtf8 "conflist".toList)

def cniAvailable (env : Environment) (fs : FileSystem) : Option CniEnv :=
  let confDir := (env.var "LIGHTR_CNI_CONF").getD "/etc/cni/net.d"
  let binDir := (env.var "LIGHTR_CNI_BIN").getD "/opt/cni/bin"
  match fs.readDir confDir with
  | none => none
  | some names =>
    if !names.any isConflist then none
    else if !(fs.dirId binDir).isSome then none
    else if !fs.privileged then none
    else some ⟨confDir, binDir⟩

/-- `first_conflist`: the name of the file in the directory. -/
def firstConflist (fs : FileSystem) (confDir : String) : Option (List UInt8) :=
  match fs.readDir confDir with
  | none => none
  | some names => ((names.filter isConflist).mergeSort fun a b => decide (a ≤ b)).head?

def binDirFromEnv (env : Environment) : String := (env.var "CNI_PATH").getD "/opt/cni/bin"

/-- What is in front of the last component of a path. -/
def dirOf (path : String) : String :=
  String.ofList (path.toList.reverse.dropWhile (· ≠ '/')).reverse

/-- The directory that a program is executed from: a name without a slash is looked up in `PATH`. -/
def FileSystem.execDir (fs : FileSystem) (path : String) : Option Nat :=
  if '/' ∈ path.toList then fs.dirId (dirOf path) else fs.onPath path

/-! ## The probe -/

theorem mem_firstConflist {fs : FileSystem} {confDir : String} {name : List UInt8}
    (h : firstConflist fs confDir = some name) :
    ∃ names, fs.readDir confDir = some names ∧ name ∈ names ∧ isConflist name = true := by
  unfold firstConflist at h
  cases hnames : fs.readDir confDir with
  | none =>
    rw [hnames] at h
    cases h
  | some names =>
    rw [hnames] at h
    have hmem := List.mem_filter.mp (List.mem_mergeSort.mp (List.mem_of_mem_head? h))
    exact ⟨names, rfl, hmem⟩

/-- What the probe has found. -/
theorem cniAvailable_eq_some {env : Environment} {fs : FileSystem} {c : CniEnv} :
    cniAvailable env fs = some c ↔
      c = ⟨(env.var "LIGHTR_CNI_CONF").getD "/etc/cni/net.d",
        (env.var "LIGHTR_CNI_BIN").getD "/opt/cni/bin"⟩ ∧
      (∃ names, fs.readDir c.confDir = some names ∧ names.any isConflist = true) ∧
      (fs.dirId c.binDir).isSome = true ∧ fs.privileged = true := by
  unfold cniAvailable
  constructor
  · intro h
    dsimp only at h
    split at h
    · cases h
    · rename_i names hnames
      split_ifs at h with hany hdir hpriv
      obtain rfl := Option.some.inj h
      simp only [Bool.not_eq_true'] at hany hdir hpriv
      exact ⟨rfl, ⟨names, hnames, Bool.of_not_eq_false hany⟩, Bool.of_not_eq_false hdir,
        Bool.of_not_eq_false hpriv⟩
  · rintro ⟨rfl, ⟨names, hnames, hany⟩, hdir, hpriv⟩
    dsimp only at hnames hdir ⊢
    rw [hnames]
    dsimp only
    rw [hany, hdir, hpriv]
    rfl

/-- Where the probe has an answer there is a conflist to load. -/
theorem exists_firstConflist {env : Environment} {fs : FileSystem} {c : CniEnv}
    (h : cniAvailable env fs = some c) : ∃ name, firstConflist fs c.confDir = some name := by
  obtain ⟨-, ⟨names, hnames, hany⟩, -, -⟩ := cniAvailable_eq_some.mp h
  obtain ⟨name, hname, hconflist⟩ := List.any_eq_true.mp hany
  have hmem : name ∈ (names.filter isConflist).mergeSort fun a b => decide (a ≤ b) :=
    List.mem_mergeSort.mpr (List.mem_filter.mpr ⟨hname, hconflist⟩)
  rw [firstConflist, hnames]
  exact ⟨_, List.head?_eq_some_head (List.ne_nil_of_mem hmem)⟩

/-! ## The directory of a plugin -/

theorem startsWith_slash {s : String} (h : '/' ∉ s.toList) : s.startsWith "/" = false := by
  rw [String.startsWith_string_eq_false_iff]
  exact fun hpre => h (hpre.subset List.mem_cons_self)

theorem endsWith_slash {s : String} : s.endsWith "/" = true ↔ ['/'] <:+ s.toList := by
  have hslice := @String.Slice.endsWith_string_iff "/" s.toSlice
  rw [String.copy_toSlice] at hslice
  exact hslice

theorem dirOf_append {dir name : String} (hdir : dir.toList.getLast? = some '/')
    (hname : '/' ∉ name.toList) : dirOf (dir ++ name) = dir := by
  obtain ⟨cs, hcs⟩ := List.getLast?_eq_some_iff.mp hdir
  have hdrop : (name.toList.reverse ++ dir.toList.reverse).dropWhile (· ≠ '/') = dir.toList.reverse := by
    rw [List.dropWhile_append_of_pos, hcs, List.reverse_append]
    · rfl
    · intro c hc
      have hne : c ≠ '/' := fun heq => hname (heq ▸ List.mem_reverse.mp hc)
      exact decide_eq_true hne
  rw [dirOf, String.toList_append, List.reverse_append, hdrop, List.reverse_reverse,
    String.ofList_toList]

theorem joinPath_empty {name : String} (hname : '/' ∉ name.toList) : joinPath "" name = name := by
  rw [joinPath, startsWith_slash hname, if_neg Bool.false_ne_true, if_pos (.inl rfl),
    String.empty_append]

/-- A name without a slash is put behind a path that ends in one and leads to the directory. -/
theorem exists_joinPath (fs : FileSystem) {dir name : String} (hdir : dir ≠ "")
    (hname : '/' ∉ name.toList) :
    ∃ path, joinPath dir name = path ++ name ∧ path.toList.getLast? = some '/' ∧
      fs.dirId path = fs.dirId dir := by
  rw [joinPath, startsWith_slash hname, if_neg Bool.false_ne_true]
  by_cases hslash : dir.endsWith "/" = true
  · refine ⟨dir, if_pos (.inr hslash), ?_, rfl⟩
    obtain ⟨cs, hcs⟩ := endsWith_slash.mp hslash
    rw [← hcs]
    exact List.getLast?_append_of_ne_nil _ (by decide)
  · refine ⟨dir ++ "/", if_neg fun h => h.elim hdir hslash, ?_, fs.dirId_slash dir hdir⟩
    rw [String.toList_append]
    exact List.getLast?_append_of_ne_nil _ (by decide)

theorem slash_mem_joinPath {dir name : String} (hname : '/' ∈ name.toList) :
    '/' ∈ (joinPath dir name).toList := by
  unfold joinPath
  split_ifs
  · exact hname
  · exact String.toList_append ▸ List.mem_append_right _ hname
  · exact String.toList_append ▸ List.mem_append_right _ hname

/-- **The directory that a plugin is executed from**: that of the path, unless it is in the name. -/
theorem execDir_joinPath (fs : FileSystem) (dir name : String) :
    fs.execDir (joinPath dir name) =
      if '/' ∈ name.toList then fs.dirId (dirOf (joinPath dir name))
      else if dir = "" then fs.onPath name
      else fs.dirId dir := by
  unfold FileSystem.execDir
  by_cases hname : '/' ∈ name.toList
  · rw [if_pos hname, if_pos (slash_mem_joinPath hname)]
  · rw [if_neg hname]
    by_cases hdir : dir = ""
    · subst hdir
      rw [if_pos rfl, joinPath_empty hname, if_neg hname]
    · obtain ⟨path, hjoin, hlast, hid⟩ := exists_joinPath fs hdir hname
      have hmem : '/' ∈ (path ++ name).toList :=
        String.toList_append ▸ List.mem_append_left _ (List.mem_of_getLast? hlast)
      rw [if_neg hdir, hjoin, if_pos hmem, dirOf_append hlast hname, hid]

end LightrCri.Net
