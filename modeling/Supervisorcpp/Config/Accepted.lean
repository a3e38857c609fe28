/-
# What an accepted configuration is

`parse_file` threads one `Configuration` through the included files: the sections of a file that set
options are read before its includes and its programs after them. Here the same result is described
without that recursion. The files are visited in the order of a depth-first traversal; the options
are those of the files in the order in which they are entered, each over the ones before, and the
programs are those of the files in the order in which they are left. `parse_file` returns exactly
when every file visited passes its checks, no file is visited twice, and all sections can be read.

The description has three parts: which files are visited, what each of them has to pass, and what is
gathered on the way in and on the way out. The parser follows it step by step, with enough fuel, and
the equivalence is proved along the traversal of `Lib.Traversal`.
-/
import Supervisorcpp.Config.Includes
import Supervisorcpp.Lib.Traversal

namespace Supervisorcpp

open Bytes (ascii)

/-! ## The files of a configuration -/

/-- A file on the way, and how many includes led to it. -/
abbrev Visit := FsPath × Nat

/-- The files a visited file includes, each one level deeper, in the order `parse_includes_` follows
them. -/
def includes (h : Host) (v : Visit) : List Visit := (followed h v.1).map fun file => (file, v.2 + 1)

/-- The files in the order in which they are entered. -/
def entered (h : Host) (configFile : FsPath) : List Visit :=
  Traversal.preorder (includes h) (maxDepth + 1) (configFile, 0)

/-- The files in the order in which they are left. -/
def left (h : Host) (configFile : FsPath) : List Visit :=
  Traversal.postorder (includes h) (maxDepth + 1) (configFile, 0)

/-- The canonical path of a file that has one. -/
def canonicalAt (h : Host) (v : Visit) : Bytes := (canonicalText h v.1).getD []

/-- The sections of a visited file; a file that cannot be read has none. -/
def treeAt (h : Host) (v : Visit) : Ptree := (fileTree h v.1).getD (.node [] [])

/-- The include patterns that are looked at. -/
def patternsAt (tree : Ptree) (baseDir : FsPath) : List Bytes :=
  match tree.getChildOptional [ascii "include"] with
  | none => []
  | some section_ => if baseDir.isEmpty then [] else includePatterns section_

/-- A file that can be visited: its owner and mode are accepted, it is read as INI, it is above the
depth limit, and the directories of its include patterns can be searched. -/
structure Admissible (h : Host) (v : Visit) : Prop where
  below : v.2 < maxDepth
  canonical : (canonicalText h v.1).isSome = true
  trusted : (validateConfigFileSecurity h.fs h.uid v.1).isOk = true
  readable : (fileTree h v.1).isSome = true
  searched : ∀ pattern ∈ patternsAt (treeAt h v) v.1.parentPath,
    (expandGlob h.fs v.1.parentPath pattern).isOk = true

instance (h : Host) (v : Visit) : Decidable (Admissible h v) :=
  decidable_of_iff (_ ∧ _ ∧ _ ∧ _ ∧ ∀ pattern ∈ patternsAt (treeAt h v) v.1.parentPath, _)
    ⟨fun ⟨a, b, c, d, e⟩ => ⟨a, b, c, d, e⟩, fun ⟨a, b, c, d, e⟩ => ⟨a, b, c, d, e⟩⟩

/-- The `[program:x]` sections of a tree, in order. -/
def programSections (tree : Ptree) : List (Bytes × Ptree) :=
  tree.children.filter fun child => isProgramKey child.1

/-- The programs of a file's sections, in order: the first section that is refused ends the parse.
-/
def parsePrograms (h : Host) (sections : List (Bytes × Ptree)) :
    Except Exception (List ProgramConfig) :=
  sections.mapM fun child => parseProgram h child.1 child.2

/-! ## What a visit does -/

/-- The part of a `Configuration` that is set on the way down. -/
structure Settings where
  unixHttpServer : UnixHttpServerConfig := {}
  supervisord : SupervisordConfig := {}
  included : List Bytes := []
  parsed : List (Bytes × Nat) := []

/-- What `parse_file` returns: the settings gathered on the way in, and the programs gathered on the
way out. -/
def Settings.build (s : Settings) (configFile : String) (programs : List ProgramConfig) :
    ParsedConfiguration where
  configFile := configFile
  programs := programs
  unixHttpServer := s.unixHttpServer
  supervisord := s.supervisord
  included := s.included
  parsed := s.parsed

/-- Entering a file; why it fails does not matter here. -/
def enterFile (h : Host) (s : Settings) (v : Visit) : Except Unit Settings :=
  match canonicalText h v.1 with
  | none => .error ()
  | some t =>
    if Admissible h v ∧ s.included.contains t = false then
      ((parseSupervisord (treeAt h v) s.supervisord).mapError fun _ => ()).map fun supervisord => {
        unixHttpServer := parseUnixHttpServer (treeAt h v) s.unixHttpServer
        supervisord := supervisord
        included := t :: s.included
        parsed := (t, v.2) :: s.parsed }
    else .error ()

/-- Leaving a file. -/
def leaveFile (h : Host) (programs : List ProgramConfig) (v : Visit) :
    Except Unit (List ProgramConfig) :=
  ((parsePrograms h (programSections (treeAt h v))).mapError fun _ => ()).map (programs ++ ·)

section Steps

variable {h : Host} {single : FsPath → Nat → ParsedConfiguration → Parse ParsedConfiguration}
  {c c' : ParsedConfiguration} {tree : Ptree} {file baseDir : FsPath} {depth : Nat} {s s' : Settings}
  {v : Visit}

/-- A file is entered where it passes its checks, is not entered already, and its daemon's settings
read. -/
theorem enterFile_eq_ok : enterFile h s v = .ok s' ↔
    Admissible h v ∧ ∃ t supervisord, canonicalText h v.1 = some t ∧ t ∉ s.included ∧
      parseSupervisord (treeAt h v) s.supervisord = .ok supervisord ∧
      s' = {
        unixHttpServer := parseUnixHttpServer (treeAt h v) s.unixHttpServer
        supervisord := supervisord
        included := t :: s.included
        parsed := (t, v.2) :: s.parsed } := by
  unfold enterFile
  cases ht : canonicalText h v.1 with
  | none =>
      constructor
      · intro hno
        cases hno
      · rintro ⟨-, t, _, hno, -⟩
        cases hno
  | some t =>
      have hnew : s.included.contains t = false ↔ t ∉ s.included := by simp
      simp only [hnew]
      by_cases hgood : Admissible h v ∧ t ∉ s.included
      · simp [hgood.1, hgood.2, eq_comm (a := s')]
      · simp only [if_neg hgood]
        constructor
        · intro hno
          cases hno
        · rintro ⟨hadmissible, t', _, ht', hnew, -⟩
          obtain rfl := Option.some.inj ht'
          exact absurd ⟨hadmissible, hnew⟩ hgood

/-- A file is left with its programs behind those gathered so far. -/
theorem leaveFile_eq_ok {programs programs' : List ProgramConfig} :
    leaveFile h programs v = .ok programs' ↔
      ∃ progs, parsePrograms h (programSections (treeAt h v)) = .ok progs ∧
        programs' = programs ++ progs := by
  simp [leaveFile, eq_comm (a := programs')]

/-- The loop over the sections adds the programs of the tree. -/
theorem foldlM_addProgram_eq_ok {children : List (Bytes × Ptree)} :
    children.foldlM (addProgram h) c = .ok c' ↔
      ∃ progs, parsePrograms h (children.filter fun child => isProgramKey child.1) = .ok progs ∧
        c' = { c with programs := c.programs ++ progs } := by
  induction children generalizing c with
  | nil => simp [parsePrograms, pure, Except.pure, eq_comm]
  | cons child children ih =>
      rw [List.foldlM_cons]
      unfold addProgram
      by_cases hkey : isProgramKey child.1 = true
      · rw [if_pos hkey, List.filter_cons, if_pos hkey, parsePrograms, List.mapM_cons]
        constructor
        · intro hok
          obtain ⟨c₁, hadd, hrest⟩ := Results.bind_eq_ok.mp hok
          obtain ⟨prog, hprog, rfl⟩ := Results.map_eq_ok.mp hadd
          obtain ⟨progs, hprogs, rfl⟩ := ih.mp hrest
          refine ⟨prog :: progs, Results.bind_eq_ok.mpr ⟨prog, hprog, ?_⟩, by simp⟩
          exact Results.bind_eq_ok.mpr ⟨progs, hprogs, rfl⟩
        · rintro ⟨all, hall, rfl⟩
          obtain ⟨prog, hprog, hrest⟩ := Results.bind_eq_ok.mp hall
          obtain ⟨progs, hprogs, hcons⟩ := Results.bind_eq_ok.mp hrest
          obtain rfl : prog :: progs = all := Except.ok.inj hcons
          refine Results.bind_eq_ok.mpr ⟨_, Results.map_eq_ok.mpr ⟨prog, hprog, rfl⟩, ?_⟩
          exact ih.mpr ⟨progs, hprogs, by simp⟩
      · rw [if_neg hkey, List.filter_cons, if_neg hkey]
        exact ih

/-- The files a file includes, pattern by pattern. -/
theorem includedFiles_eq (h : Host) (tree : Ptree) (baseDir : FsPath) :
    includedFiles h tree baseDir = (patternsAt tree baseDir).flatMap (globbed h baseDir) := by
  unfold includedFiles patternsAt
  cases tree.getChildOptional [ascii "include"] with
  | none => rfl
  | some section_ =>
      dsimp only
      split <;> rfl

/-- The two loops of `parse_includes_` are one loop over all files, if all patterns can be
searched. -/
theorem parseIncludes_eq_ok_iff {patterns : List Bytes} :
    parseIncludes h single baseDir patterns depth c = .ok c' ↔
      (∀ pattern ∈ patterns, (expandGlob h.fs baseDir pattern).isOk = true) ∧
        (patterns.flatMap (globbed h baseDir)).foldlM (fun c f => single f depth c) c = .ok c' := by
  induction patterns generalizing c with
  | nil => simp [parseIncludes]
  | cons pattern patterns ih =>
      unfold parseIncludes at ih ⊢
      rw [List.foldlM_cons, List.flatMap_cons, List.foldlM_append, List.forall_mem_cons,
        Results.isOk_iff]
      constructor
      · intro hok
        obtain ⟨c₁, hone, hrest⟩ := Results.bind_eq_ok.mp hok
        obtain ⟨files, hglob, hfiles⟩ := Results.bind_eq_ok.mp hone
        rw [lift_eq_ok] at hglob
        obtain ⟨hsearched, hrest⟩ := ih.mp hrest
        have hglobbed : globbed h baseDir pattern = files := by
          rw [globbed, hglob]
          rfl
        rw [hglobbed]
        exact ⟨⟨⟨files, hglob⟩, hsearched⟩, Results.bind_eq_ok.mpr ⟨c₁, hfiles, hrest⟩⟩
      · rintro ⟨⟨⟨files, hglob⟩, hsearched⟩, hok⟩
        obtain ⟨c₁, hfiles, hrest⟩ := Results.bind_eq_ok.mp hok
        have hglobbed : globbed h baseDir pattern = files := by
          rw [globbed, hglob]
          rfl
        rw [hglobbed] at hfiles
        refine Results.bind_eq_ok.mpr ⟨c₁, ?_, ih.mpr ⟨hsearched, hrest⟩⟩
        exact Results.bind_eq_ok.mpr ⟨files, lift_eq_ok.mpr hglob, hfiles⟩

/-- An `[include]` section parses where each of its patterns expands and all files found parse, one
after the other. -/
theorem parseIncludeSection_eq_ok_iff :
    parseIncludeSection h single tree baseDir depth c = .ok c' ↔
      (∀ pattern ∈ patternsAt tree baseDir, (expandGlob h.fs baseDir pattern).isOk = true) ∧
        (includedFiles h tree baseDir).foldlM (fun c f => single f (depth + 1) c) c = .ok c' := by
  rw [includedFiles_eq]
  unfold parseIncludeSection patternsAt
  cases tree.getChildOptional [ascii "include"] with
  | none => simp [pure, Except.pure]
  | some section_ =>
      dsimp only
      by_cases hbase : baseDir.isEmpty = true
      · simp [hbase, pure, Except.pure]
      · by_cases hnil : includePatterns section_ = []
        · simp [hnil, pure, Except.pure]
        · rw [if_neg hbase, if_pos ⟨hnil, by simpa using hbase⟩]
          exact parseIncludes_eq_ok_iff

/-- What entering a file leaves for its includes. -/
theorem parseStream_eq_ok_iff {stream : Option Bytes} :
    parseStream h single stream baseDir depth c = .ok c' ↔
      ∃ contents tree supervisord c₂ progs, stream = some contents ∧ depth < maxDepth ∧
        readTree h contents = .ok tree ∧
        parseSupervisord tree c.supervisord = .ok supervisord ∧
        (∀ pattern ∈ patternsAt tree baseDir, (expandGlob h.fs baseDir pattern).isOk = true) ∧
        (includedFiles h tree baseDir).foldlM (fun c f => single f (depth + 1) c)
          { c with
            unixHttpServer := parseUnixHttpServer tree c.unixHttpServer
            supervisord := supervisord } = .ok c₂ ∧
        parsePrograms h (programSections tree) = .ok progs ∧
        c' = { c₂ with programs := c₂.programs ++ progs } := by
  unfold parseStream
  cases stream with
  | none => simp [throwParseError]
  | some contents =>
      dsimp only
      by_cases hdepth : maxDepth ≤ depth
      · rw [if_pos hdepth]
        simp [throwParseError, Nat.not_lt.mpr hdepth]
      · rw [if_neg hdepth]
        constructor
        · intro hok
          obtain ⟨tree, htree, hok⟩ := Results.bind_eq_ok.mp hok
          obtain ⟨supervisord, hsupervisord, hok⟩ := Results.bind_eq_ok.mp hok
          obtain ⟨c₂, hincludes, hok⟩ := Results.bind_eq_ok.mp hok
          obtain ⟨progs, hprogs, hc'⟩ := foldlM_addProgram_eq_ok.mp (lift_eq_ok.mp hok)
          obtain ⟨hsearched, hfiles⟩ := parseIncludeSection_eq_ok_iff.mp hincludes
          exact ⟨contents, tree, supervisord, c₂, progs, rfl, Nat.not_le.mp hdepth,
            lift_eq_ok.mp htree, lift_eq_ok.mp hsupervisord, hsearched, hfiles, hprogs, hc'⟩
        · rintro ⟨_, tree, supervisord, c₂, progs, hcontents, -, htree, hsupervisord, hsearched,
            hfiles, hprogs, hc'⟩
          obtain rfl := Option.some.inj hcontents
          refine Results.bind_eq_ok.mpr ⟨tree, lift_eq_ok.mpr htree, ?_⟩
          refine Results.bind_eq_ok.mpr ⟨supervisord, lift_eq_ok.mpr hsupervisord, ?_⟩
          refine Results.bind_eq_ok.mpr
            ⟨c₂, parseIncludeSection_eq_ok_iff.mpr ⟨hsearched, hfiles⟩, ?_⟩
          exact lift_eq_ok.mpr (foldlM_addProgram_eq_ok.mpr ⟨progs, hprogs, hc'⟩)

/-- A file has a tree if it can be opened and `read_ini` takes its text. -/
theorem fileTree_eq_some : fileTree h file = some tree ↔
    ∃ contents, openFile h file = some contents ∧ readTree h contents = .ok tree := by
  simp only [fileTree, Option.bind_eq_some_iff, Results.toOption_eq_some]

/-- A file that exists has one canonical path. -/
theorem weaklyCanonical_eq_ok (hexists : h.fs.exists_ file = .ok true) {canonical : FsPath} :
    weaklyCanonical h.fs file = .ok canonical ↔ h.fs.canonical file = .ok canonical := by
  rw [weaklyCanonical, Results.mapError_eq_ok, FileSystem.weaklyCanonical_of_exists hexists]

/-- **One file.** -/
theorem parseSingleFile_eq_ok_iff {fuel : Nat} {configFile : String}
    {programs : List ProgramConfig} :
    parseSingleFile h (fuel + 1) file depth (s.build configFile programs) = .ok c' ↔
      ∃ s₁ c₂ progs, enterFile h s (file, depth) = .ok s₁ ∧
        (followed h file).foldlM (fun c f => parseSingleFile h fuel f (depth + 1) c)
          (s₁.build configFile programs) = .ok c₂ ∧
        parsePrograms h (programSections (treeAt h (file, depth))) = .ok progs ∧
        c' = { c₂ with programs := c₂.programs ++ progs } := by
  rw [parseSingleFile]
  constructor
  · intro hok
    obtain ⟨canonical, hcanonical, hok⟩ := Results.bind_eq_ok.mp hok
    split at hok
    · cases hok
    · next hfresh =>
        obtain ⟨_, hsecure, hok⟩ := Results.bind_eq_ok.mp hok
        rw [lift_eq_ok, rethrowSecurity, Results.mapError_eq_ok] at hsecure
        have hexists := exists_of_validateConfigFileSecurity hsecure
        rw [lift_eq_ok, weaklyCanonical_eq_ok hexists] at hcanonical
        obtain ⟨contents, tree, supervisord, c₂, progs, hopen, hdepth, htree, hsupervisord,
          hsearched, hfiles, hprogs, hc'⟩ := parseStream_eq_ok_iff.mp (Results.mapError_eq_ok.mp hok)
        have hfileTree : fileTree h file = some tree := fileTree_eq_some.mpr ⟨contents, hopen, htree⟩
        have htreeAt : treeAt h (file, depth) = tree := by rw [treeAt, hfileTree]; rfl
        have hfollowed : followed h file = includedFiles h tree file.parentPath := by
          rw [followed, hfileTree]
        have htext : canonicalText h file = some canonical.text := by
          rw [canonicalText, hcanonical]
          rfl
        refine ⟨_, c₂, progs, enterFile_eq_ok.mpr ⟨?_, canonical.text, supervisord, htext, hfresh,
          htreeAt ▸ hsupervisord, rfl⟩, ?_, htreeAt ▸ hprogs, hc'⟩
        · refine ⟨hdepth, by rw [htext]; rfl, Results.isOk_iff.mpr ⟨_, hsecure⟩,
            by rw [hfileTree]; rfl, ?_⟩
          rw [htreeAt]
          exact hsearched
        · rw [hfollowed, htreeAt]
          exact hfiles
  · rintro ⟨s₁, c₂, progs, henter, hfiles, hprogs, hc'⟩
    obtain ⟨hadmissible, t, supervisord, ht, hfresh, hsupervisord, rfl⟩ := enterFile_eq_ok.mp henter
    obtain ⟨⟨⟩, hsecure⟩ := Results.isOk_iff.mp hadmissible.trusted
    have hexists := exists_of_validateConfigFileSecurity hsecure
    obtain ⟨canonical, hcanonical, rfl⟩ := Option.map_eq_some_iff.mp ht
    obtain ⟨tree, hfileTree⟩ := Option.isSome_iff_exists.mp hadmissible.readable
    obtain ⟨contents, hopen, htree⟩ := fileTree_eq_some.mp hfileTree
    have htreeAt : treeAt h (file, depth) = tree := by rw [treeAt, hfileTree]; rfl
    have hfollowed : followed h file = includedFiles h tree file.parentPath := by
      rw [followed, hfileTree]
    have hsearched := hadmissible.searched
    rw [htreeAt] at hprogs hsupervisord hfiles hsearched
    rw [hfollowed] at hfiles
    refine Results.bind_eq_ok.mpr ⟨canonical, ?_, ?_⟩
    · rw [lift_eq_ok, weaklyCanonical_eq_ok hexists]
      exact Results.toOption_eq_some.mp hcanonical
    · rw [if_neg (show _ ∉ (s.build configFile programs).included from hfresh)]
      refine Results.bind_eq_ok.mpr ⟨(), ?_, ?_⟩
      · rw [lift_eq_ok, rethrowSecurity, Results.mapError_eq_ok]
        exact hsecure
      · rw [Results.mapError_eq_ok]
        exact parseStream_eq_ok_iff.mpr ⟨contents, tree, supervisord, c₂, progs, hopen,
          hadmissible.below, htree, hsupervisord, hsearched, hfiles, hprogs, hc'⟩

end Steps

/-! ## The traversal -/

section Traversal

variable {h : Host} {c' : ParsedConfiguration} {file : FsPath} {depth n : Nat} {s : Settings}
  {configFile : String} {programs : List ProgramConfig}

/-- The traversal that a parse is, on settings and programs apart. -/
abbrev visitFile (h : Host) : Nat → Settings × List ProgramConfig → Visit →
    Except Unit (Settings × List ProgramConfig) :=
  Traversal.dfs (includes h) (enterFile h) (leaveFile h)

/-- The parse and the traversal return together, with the same. -/
def Follows (configFile : String) (x : Parse ParsedConfiguration)
    (y : Except Unit (Settings × List ProgramConfig)) : Prop :=
  ∀ c', x = .ok c' ↔ ∃ s' programs', y = .ok (s', programs') ∧ c' = s'.build configFile programs'

theorem follows_list {fuel : Nat}
    (hone : ∀ s programs file, Follows configFile
      (parseSingleFile h fuel file depth (s.build configFile programs))
      (visitFile h n (s, programs) (file, depth))) (files : List FsPath) :
    Follows configFile
      (files.foldlM (fun c f => parseSingleFile h fuel f depth c) (s.build configFile programs))
      ((files.map fun file => (file, depth)).foldlM (visitFile h n) (s, programs)) := by
  intro c'
  induction files generalizing s programs with
  | nil => simp [pure, Except.pure, eq_comm]
  | cons file files ih =>
      rw [List.foldlM_cons, List.map_cons, List.foldlM_cons]
      constructor
      · intro hok
        obtain ⟨c₁, hfile, hrest⟩ := Results.bind_eq_ok.mp hok
        obtain ⟨s₁, programs₁, hvisit, rfl⟩ := (hone ..).mp hfile
        obtain ⟨s', programs', hvisits, rfl⟩ := ih.mp hrest
        exact ⟨s', programs', Results.bind_eq_ok.mpr ⟨_, hvisit, hvisits⟩, rfl⟩
      · rintro ⟨s', programs', hok, rfl⟩
        obtain ⟨⟨s₁, programs₁⟩, hvisit, hvisits⟩ := Results.bind_eq_ok.mp hok
        refine Results.bind_eq_ok.mpr ⟨_, (hone ..).mpr ⟨s₁, programs₁, hvisit, rfl⟩, ?_⟩
        exact ih.mpr ⟨s', programs', hvisits, rfl⟩

/-- A parse is the traversal; at the depth limit neither returns, so that the fuel is enough. -/
theorem parseSingleFile_follows (hdepth : n + depth = maxDepth) :
    Follows configFile (parseSingleFile h (n + 1) file depth (s.build configFile programs))
      (visitFile h (n + 1) (s, programs) (file, depth)) := by
  induction n generalizing file depth s programs with
  | zero =>
      have hdeep : ∀ s₁, enterFile h s (file, depth) ≠ .ok s₁ := by
        intro s₁ henter
        have hbelow := (enterFile_eq_ok.mp henter).1.below
        dsimp only at hbelow
        omega
      intro c'
      rw [parseSingleFile_eq_ok_iff]
      constructor
      · rintro ⟨s₁, _, _, henter, -⟩
        exact absurd henter (hdeep s₁)
      · rintro ⟨s', _, hok, -⟩
        obtain ⟨s₁, henter, -⟩ := Results.bind_eq_ok.mp hok
        exact absurd henter (hdeep s₁)
  | succ n ih =>
      have hkids : ∀ s, Follows configFile
          ((followed h file).foldlM (fun c f => parseSingleFile h (n + 1) f (depth + 1) c)
            (s.build configFile programs))
          ((includes h (file, depth)).foldlM (visitFile h (n + 1)) (s, programs)) :=
        fun _ => follows_list (fun _ _ _ => ih (by omega)) _
      intro c'
      rw [parseSingleFile_eq_ok_iff]
      constructor
      · rintro ⟨s₁, c₂, progs, henter, hfiles, hprogs, rfl⟩
        obtain ⟨s', programs', hvisits, rfl⟩ := (hkids s₁ c₂).mp hfiles
        refine ⟨s', programs' ++ progs, Results.bind_eq_ok.mpr ⟨s₁, henter, ?_⟩, rfl⟩
        refine Results.bind_eq_ok.mpr ⟨_, hvisits, ?_⟩
        exact Results.map_eq_ok.mpr ⟨_, leaveFile_eq_ok.mpr ⟨progs, hprogs, rfl⟩, rfl⟩
      · rintro ⟨s', programs', hok, rfl⟩
        obtain ⟨s₁, henter, hok⟩ := Results.bind_eq_ok.mp hok
        obtain ⟨⟨s₂, programs₂⟩, hvisits, hok⟩ := Results.bind_eq_ok.mp hok
        obtain ⟨left, hleave, heq⟩ := Results.map_eq_ok.mp hok
        obtain ⟨rfl, rfl⟩ := Prod.mk.inj heq
        obtain ⟨progs, hprogs, rfl⟩ := leaveFile_eq_ok.mp hleave
        exact ⟨s₁, _, progs, henter, (hkids s₁ _).mpr ⟨s₂, programs₂, hvisits, rfl⟩, hprogs, rfl⟩

/-- Entering files one after the other. -/
theorem foldlM_enterFile {s' : Settings} {vs : List Visit} (hnodup : s.included.Nodup) :
    vs.foldlM (enterFile h) s = .ok s' ↔
      (∀ v ∈ vs, Admissible h v) ∧ ((vs.map (canonicalAt h)).reverse ++ s.included).Nodup ∧
      vs.foldlM (fun c v => parseSupervisord (treeAt h v) c) s.supervisord = .ok s'.supervisord ∧
      s'.unixHttpServer =
        vs.foldl (fun c v => parseUnixHttpServer (treeAt h v) c) s.unixHttpServer ∧
      s'.included = (vs.map (canonicalAt h)).reverse ++ s.included ∧
      s'.parsed = (vs.map fun v => (canonicalAt h v, v.2)).reverse ++ s.parsed := by
  induction vs generalizing s with
  | nil =>
      simp only [List.foldlM_nil, List.foldl_nil, List.map_nil, List.reverse_nil, List.nil_append,
        pure, Except.pure, Except.ok.injEq, hnodup, List.not_mem_nil, false_implies, implies_true,
        true_and]
      constructor
      · rintro rfl
        exact ⟨rfl, rfl, rfl, rfl⟩
      · rintro ⟨hsupervisord, hserver, hincluded, hparsed⟩
        cases s
        cases s'
        simp only at hsupervisord hserver hincluded hparsed
        rw [hsupervisord, hserver, hincluded, hparsed]
  | cons v vs ih =>
      rw [List.foldlM_cons, List.foldlM_cons, List.foldl_cons, List.forall_mem_cons, List.map_cons,
        List.map_cons, List.reverse_cons, List.reverse_cons, List.append_assoc, List.append_assoc]
      constructor
      · intro hok
        obtain ⟨s₁, henter, hrest⟩ := Results.bind_eq_ok.mp hok
        obtain ⟨hadmissible, t, supervisord, ht, hnew, hsupervisord, rfl⟩ := enterFile_eq_ok.mp henter
        have hat : canonicalAt h v = t := by rw [canonicalAt, ht]; rfl
        obtain ⟨hall, hunique, hfold, hserver, hincluded, hparsed⟩ :=
          (ih (List.nodup_cons.mpr ⟨hnew, hnodup⟩)).mp hrest
        rw [hat]
        exact ⟨⟨hadmissible, hall⟩, hunique, Results.bind_eq_ok.mpr ⟨_, hsupervisord, hfold⟩, hserver,
          hincluded, hparsed⟩
      · rintro ⟨⟨hadmissible, hall⟩, hunique, hfold, hserver, hincluded, hparsed⟩
        obtain ⟨supervisord, hsupervisord, hfold⟩ := Results.bind_eq_ok.mp hfold
        obtain ⟨t, ht⟩ := Option.isSome_iff_exists.mp hadmissible.canonical
        have hat : canonicalAt h v = t := by rw [canonicalAt, ht]; rfl
        rw [hat] at hunique hincluded hparsed
        have hmore : (t :: s.included).Nodup := (List.nodup_append.mp hunique).2.1
        refine Results.bind_eq_ok.mpr ⟨_, enterFile_eq_ok.mpr ⟨hadmissible, t, supervisord, ht,
          (List.nodup_cons.mp hmore).1, hsupervisord, rfl⟩, ?_⟩
        exact (ih hmore).mpr ⟨hall, hunique, hfold, hserver, hincluded, hparsed⟩

/-- The files entered from the start: each may be, no two are the same, and their settings read in
this order. -/
theorem foldlM_enterFile_init {s' : Settings} {vs : List Visit} :
    vs.foldlM (enterFile h) {} = .ok s' ↔
      (∀ v ∈ vs, Admissible h v) ∧ (vs.map (canonicalAt h)).Nodup ∧
      vs.foldlM (fun c v => parseSupervisord (treeAt h v) c) {} = .ok s'.supervisord ∧
      s'.unixHttpServer = vs.foldl (fun c v => parseUnixHttpServer (treeAt h v) c) {} ∧
      s'.included = (vs.map (canonicalAt h)).reverse ∧
      s'.parsed = (vs.map fun v => (canonicalAt h v, v.2)).reverse := by
  rw [foldlM_enterFile List.nodup_nil]
  simp only [List.append_nil, List.nodup_reverse]

/-- Leaving files one after the other. -/
theorem foldlM_leaveFile {programs' : List ProgramConfig} {vs : List Visit} :
    vs.foldlM (leaveFile h) programs = .ok programs' ↔
      ∃ progs, parsePrograms h (vs.flatMap fun v => programSections (treeAt h v)) = .ok progs ∧
        programs' = programs ++ progs := by
  induction vs generalizing programs with
  | nil => simp [parsePrograms, pure, Except.pure, eq_comm]
  | cons v vs ih =>
      rw [List.foldlM_cons, List.flatMap_cons, parsePrograms, List.mapM_append]
      constructor
      · intro hok
        obtain ⟨programs₁, hleave, hrest⟩ := Results.bind_eq_ok.mp hok
        obtain ⟨progs, hprogs, rfl⟩ := leaveFile_eq_ok.mp hleave
        obtain ⟨more, hmore, rfl⟩ := ih.mp hrest
        refine ⟨progs ++ more, Results.bind_eq_ok.mpr ⟨progs, hprogs, ?_⟩, by simp⟩
        exact Results.bind_eq_ok.mpr ⟨more, hmore, rfl⟩
      · rintro ⟨all, hall, rfl⟩
        obtain ⟨progs, hprogs, hrest⟩ := Results.bind_eq_ok.mp hall
        obtain ⟨more, hmore, happend⟩ := Results.bind_eq_ok.mp hrest
        obtain rfl : progs ++ more = all := Except.ok.inj happend
        refine Results.bind_eq_ok.mpr ⟨_, leaveFile_eq_ok.mpr ⟨progs, hprogs, rfl⟩, ?_⟩
        exact ih.mpr ⟨more, hmore, by simp⟩

end Traversal

/-! ## The configuration -/

/-- The configuration that the files of a configuration file describe. -/
structure Described (h : Host) (configFile : FsPath) (c : ParsedConfiguration) : Prop where
  admissible : ∀ v ∈ entered h configFile, Admissible h v
  unique : ((entered h configFile).map (canonicalAt h)).Nodup
  supervisord : (entered h configFile).foldlM (fun s v => parseSupervisord (treeAt h v) s) {} =
    .ok c.supervisord
  unixHttpServer : c.unixHttpServer =
    (entered h configFile).foldl (fun s v => parseUnixHttpServer (treeAt h v) s) {}
  programs : parsePrograms h ((left h configFile).flatMap fun v => programSections (treeAt h v)) =
    .ok c.programs
  path : c.configFile = latin (canonicalAt h (configFile, 0))
  included : c.included = ((entered h configFile).map (canonicalAt h)).reverse
  parsed : c.parsed = ((entered h configFile).map fun v => (canonicalAt h v, v.2)).reverse
  valid : validateConfig c = .ok ()

section Configuration

variable {h : Host} {configFile : FsPath} {c : ParsedConfiguration}

/-- The main file, with fuel for ten levels below it. -/
theorem parseFile_follows (h : Host) (configFile : FsPath) (name : String) :
    Follows name (parseSingleFile h (maxDepth + 1) configFile 0 (Settings.build {} name []))
      (visitFile h (maxDepth + 1) ({}, []) (configFile, 0)) :=
  parseSingleFile_follows (Nat.add_zero _)

/-- What `parse_file` returns fits the description. -/
theorem described_of_parseFile (hok : parseFile h configFile = .ok c) : Described h configFile c := by
  unfold parseFile parseFileWith at hok
  split at hok
  · cases hok
  · cases hok
  · next hexists =>
      obtain ⟨canonical, hcanonical, hok⟩ := Results.bind_eq_ok.mp hok
      obtain ⟨c₁, hsingle, hok⟩ := Results.bind_eq_ok.mp hok
      obtain ⟨⟨⟩, hvalid, rfl⟩ := Results.map_eq_ok.mp hok
      rw [lift_eq_ok, weaklyCanonical_eq_ok hexists] at hcanonical
      obtain ⟨s', programs', hdfs, rfl⟩ :=
        (parseFile_follows h configFile (latin canonical.text) c₁).mp hsingle
      obtain ⟨henter, hleave⟩ := Traversal.dfs_eq_ok.mp hdfs
      obtain ⟨hall, hunique, hsupervisord, hserver, hincluded, hparsed⟩ :=
        foldlM_enterFile_init.mp henter
      obtain ⟨progs, hprogs, rfl⟩ := foldlM_leaveFile.mp hleave
      refine ⟨hall, hunique, hsupervisord, hserver, hprogs, ?_, hincluded, hparsed,
        lift_eq_ok.mp hvalid⟩
      rw [canonicalAt, canonicalText, hcanonical]
      rfl

/-- What fits the description is what `parse_file` returns. -/
theorem Described.parseFile_eq (hc : Described h configFile c) : parseFile h configFile = .ok c := by
  have hfirst : Admissible h (configFile, 0) := hc.admissible _ List.mem_cons_self
  obtain ⟨⟨⟩, hsecure⟩ := Results.isOk_iff.mp hfirst.trusted
  have hexists : h.fs.exists_ configFile = .ok true := exists_of_validateConfigFileSecurity hsecure
  obtain ⟨t, ht⟩ := Option.isSome_iff_exists.mp hfirst.canonical
  obtain ⟨canonical, hcanonical, rfl⟩ := Option.map_eq_some_iff.mp ht
  have hcanonicalAt : canonicalAt h (configFile, 0) = canonical.text := by
    rw [canonicalAt, ht]
    rfl
  have hname := hc.path
  rw [hcanonicalAt] at hname
  have hdfs : visitFile h (maxDepth + 1) ({}, []) (configFile, 0) =
      .ok (⟨c.unixHttpServer, c.supervisord, c.included, c.parsed⟩, c.programs) := by
    refine Traversal.dfs_eq_ok.mpr ⟨foldlM_enterFile_init.mpr ?_, ?_⟩
    · exact ⟨hc.admissible, hc.unique, hc.supervisord, hc.unixHttpServer, hc.included, hc.parsed⟩
    · exact foldlM_leaveFile.mpr ⟨c.programs, hc.programs, rfl⟩
  have hsingle := (parseFile_follows h configFile (latin canonical.text) c).mpr
    ⟨_, _, hdfs, by rw [← hname]; rfl⟩
  unfold parseFile parseFileWith
  rw [hexists]
  refine Results.bind_eq_ok.mpr ⟨canonical, ?_, Results.bind_eq_ok.mpr ⟨c, hsingle, ?_⟩⟩
  · rw [lift_eq_ok, weaklyCanonical_eq_ok hexists]
    exact Results.toOption_eq_some.mp hcanonical
  · exact Results.map_eq_ok.mpr ⟨(), lift_eq_ok.mpr hc.valid, rfl⟩

end Configuration

/-- **What `parse_file` accepts, and what it makes of it.**  It returns exactly when every file on the
way passes its checks, no two of them are the same file, the options and the programs can be read and
the last checks hold. The options are those of the files in the order in which they are entered, and
the programs are those of the files in the order in which they are left. -/
theorem parseFile_eq_ok_iff (h : Host) (configFile : FsPath) (c : ParsedConfiguration) :
    parseFile h configFile = .ok c ↔ Described h configFile c :=
  ⟨described_of_parseFile, Described.parseFile_eq⟩

end Supervisorcpp
