/-
# Spellings of a configuration file

The same configuration file can be given by many paths: relative to the working directory or
absolute, through other directories and through links to directories. `parse_file` resolves relative
include patterns against the directory part of the path that it was given. Two spellings that both
have a directory part are parsed to the same configuration, and so are two that have none, but a bare
file name has no directory to resolve the patterns against, and its includes are skipped. Where the
file fails before its includes, or they find nothing, that makes no difference.

Two runs over one tree of included files are compared file by file: the paths differ, and what they
lead to does not.

The relation between two paths of one file (`SameFile`) and of one directory (`SameDir`) is all the
comparison needs: every function of the parser that takes a path agrees on such paths.
-/
import Supervisorcpp.Config.Globs
import Supervisorcpp.Config.Includes

namespace Supervisorcpp

open Bytes (ascii)

/-! ## Paths that lead to the same place -/

/-- Two paths of one directory. -/
def SameDir (fs : Files) (d d' : FsPath) : Prop :=
  ∃ place, fs.LeadsTo d place ∧ fs.LeadsTo d' place

/-- Two paths of one file: links in it are followed to the same place, and the last name is found in
the same directory. -/
structure SameFile (fs : Files) (p q : FsPath) : Prop where
  resolve : fs.resolve p = fs.resolve q
  lstat : fs.lstat p = fs.lstat q
  found : fs.exists_ q = .ok true

/-- Two paths of one file with the directory part of one kind. -/
structure Twin (fs : Files) (p q : FsPath) : Prop extends SameFile fs p q where
  base : (p.parentPath.isEmpty = true ∧ q.parentPath.isEmpty = true) ∨
    SameDir fs p.parentPath q.parentPath

section Paths

variable {fs : Files} {d d' p q : FsPath} {place : Place} {n : FileName}

/-- Neither path is empty. -/
theorem SameDir.isEmpty (h : SameDir fs d d') : d.isEmpty = false ∧ d'.isEmpty = false := by
  obtain ⟨place, hd, hd'⟩ := h
  exact ⟨FileSystem.nonempty_of_resolve hd.resolves, FileSystem.nonempty_of_resolve hd'.resolves⟩

/-- What a name in a directory is depends on where the directory is, not on its path. -/
theorem lstat_entry (hd : fs.LeadsTo d place) (hn : n.IsEntry) :
    fs.lstat (d.append (.ofName n)) = if fs.isDirectoryAt place then
      (fs.node (place ++ [n])).elim (.error .noent) .ok else .error .notdir := by
  have hfilename : (d.append (.ofName n)).filename = n := by
    rw [FsPath.append_ofName hd.proper hn.1]
    simp [FsPath.filename]
  have hnames : (d.append (.ofName n)).names.dropLast = d.names := by
    rw [FsPath.append_ofName hd.proper hn.1, List.dropLast_concat]
  have hstart : fs.start (d.append (.ofName n)) = fs.start d := by
    rw [FsPath.append_ofName hd.proper hn.1]
    rfl
  rw [FileSystem.lstat, hfilename, if_pos hn, hnames, hstart,
    FileSystem.walk_of_resolve hd.resolves]
  rfl

/-- So does where it leads. -/
theorem resolve_entry (hd : fs.LeadsTo d place) (hn : n.IsEntry) :
    fs.resolve (d.append (.ofName n)) = fs.walk place [n] := by
  rw [FsPath.append_ofName hd.proper hn.1]
  exact FileSystem.resolve_append hd.resolves [n]

theorem parentPath_entry (hd : fs.LeadsTo d place) (hn : n.IsEntry) :
    (d.append (.ofName n)).parentPath = d := by
  rw [FsPath.append_ofName hd.proper hn.1, FsPath.parentPath, List.dropLast_concat]

/-- Paths to one place are regular files together. -/
theorem isRegularFile_congr (h : fs.resolve p = fs.resolve q) :
    fs.isRegularFile p = fs.isRegularFile q := by
  rw [FileSystem.isRegularFile, FileSystem.isRegularFile, FileSystem.status_congr h]

/-- The file exists. -/
theorem SameFile.exists_ (h : SameFile fs p q) : fs.exists_ p = .ok true := by
  rw [← h.found, FileSystem.exists_, FileSystem.exists_, FileSystem.status_congr h.resolve]

/-- Both paths have the same canonical path, by which the file is told from others. -/
theorem SameFile.weaklyCanonical (h : SameFile fs p q) :
    weaklyCanonical fs p = weaklyCanonical fs q := by
  rw [Supervisorcpp.weaklyCanonical, Supervisorcpp.weaklyCanonical,
    FileSystem.weaklyCanonical_of_exists h.exists_, FileSystem.weaklyCanonical_of_exists h.found,
    FileSystem.canonical, FileSystem.canonical, h.resolve]

/-- Both paths open the same text. -/
theorem SameFile.openFile {h : Host} (hsame : SameFile h.fs p q) : openFile h p = openFile h q := by
  rw [Supervisorcpp.openFile, Supervisorcpp.openFile, FileSystem.stat, FileSystem.stat,
    hsame.resolve]

/-- A regular file in a directory, by two paths of the directory. -/
theorem twin_entry (hd : fs.LeadsTo d place) (hd' : fs.LeadsTo d' place) (hn : n.IsEntry)
    (hregular : fs.isRegularFile (d'.append (.ofName n)) = .ok true) :
    Twin fs (d.append (.ofName n)) (d'.append (.ofName n)) where
  resolve := by rw [resolve_entry hd hn, resolve_entry hd' hn]
  lstat := by rw [lstat_entry hd hn, lstat_entry hd' hn]
  found := by
    obtain ⟨node, hstatus, hsome⟩ := Results.map_eq_ok.mp hregular
    rw [FileSystem.exists_, hstatus]
    cases node with
    | none => cases hsome
    | some node => rfl
  base := by
    rw [parentPath_entry hd hn, parentPath_entry hd' hn]
    exact .inr ⟨place, hd, hd'⟩

end Paths

/-! ## Include patterns -/

section Globs

variable {fs : Files} {d d' : FsPath} {place : Place}

/-- A glob finds the same names, if these are regular files together. -/
theorem matchingEntries_congr (fileRegex : Bytes) {names : List FileName}
    (h : ∀ n ∈ names, fs.isRegularFile (d.append (.ofName n)) =
      fs.isRegularFile (d'.append (.ofName n))) :
    matchingEntries fs d fileRegex names = matchingEntries fs d' fileRegex names := by
  induction names with
  | nil => rfl
  | cons n names ih =>
      rw [List.forall_mem_cons] at h
      rw [matchingEntries, matchingEntries, h.1, ih h.2]

/-- Two paths that lead to the same place are searched with the same result. -/
theorem filesIn_agree (fileRegex : Bytes) (hd : .empty ∉ d.names) (hd' : .empty ∉ d'.names)
    (hsame : fs.resolve d = fs.resolve d') :
    Results.Agree (List.Forall₂ (Twin fs)) (filesIn fs d fileRegex) (filesIn fs d' fileRegex) := by
  have hexists : fs.exists_ d = fs.exists_ d' := by
    rw [FileSystem.exists_, FileSystem.exists_, FileSystem.status_congr hsame]
  have hisDir : fs.isDirectory d = fs.isDirectory d' := by
    rw [FileSystem.isDirectory, FileSystem.isDirectory, FileSystem.status_congr hsame]
  unfold filesIn
  rw [hexists, hisDir, hsame]
  refine (Results.Agree.refl _).bind fun found _ hfound => ?_
  subst hfound
  cases found with
  | false => exact .ok .nil
  | true =>
      refine (Results.Agree.refl _).bind fun isDir _ hisDir' => ?_
      subst hisDir'
      cases isDir with
      | false => exact .ok .nil
      | true =>
          cases hplace : fs.resolve d' with
          | error e => exact .error e e
          | ok place =>
              have hleads : fs.LeadsTo d place := ⟨hsame.trans hplace, hd⟩
              have hleads' : fs.LeadsTo d' place := ⟨hplace, hd'⟩
              have hentries : matchingEntries fs d fileRegex (fs.entries place) =
                  matchingEntries fs d' fileRegex (fs.entries place) := by
                refine matchingEntries_congr fileRegex fun n hn => isRegularFile_congr ?_
                have hentry := FileSystem.isEntry_of_mem_entries hn
                rw [resolve_entry hleads hentry, resolve_entry hleads' hentry]
              dsimp only [Except.bind, if_true]
              rw [hentries]
              cases hnames : matchingEntries fs d' fileRegex (fs.entries place) with
              | error e => exact .error e e
              | ok names =>
                  refine .ok ?_
                  rw [List.forall₂_map_left_iff, List.forall₂_map_right_iff, List.forall₂_same]
                  intro n hn
                  obtain ⟨hmem, hregular, -⟩ :=
                    (mem_matchingEntries hnames n).mp ((List.mem_insertionSort _).mp hn)
                  exact twin_entry hleads hleads' (FileSystem.isEntry_of_mem_entries hmem) hregular

/-- A pattern finds the same files from two paths of one directory. -/
theorem expandGlob_agree (pattern : Bytes) (h : SameDir fs d d') :
    Results.Agree (List.Forall₂ (Twin fs)) (expandGlob fs d pattern) (expandGlob fs d' pattern) := by
  obtain ⟨place, hd, hd'⟩ := h
  have hpattern : .empty ∉ (FsPath.ofText pattern).names.dropLast := FsPath.ofText_proper pattern
  unfold expandGlob
  dsimp only
  refine Results.Agree.mapError ?_ _ _
  by_cases habs : pattern.head? = some 47
  · have hsearch : ∀ d, searchPath d pattern = .ofText pattern := fun d => if_pos habs
    rw [hsearch, hsearch]
    exact filesIn_agree _ hpattern hpattern rfl
  · have hsearch : ∀ d, searchPath d pattern = d.append (.ofText pattern) := fun d => if_neg habs
    have hrelative : (FsPath.ofText pattern).absolute = false := decide_eq_false habs
    have hproper : ∀ {d : FsPath}, .empty ∉ d.names →
        .empty ∉ d.names ++ (FsPath.ofText pattern).names.dropLast := by
      intro d hd
      rw [List.mem_append, not_or]
      exact ⟨hd, hpattern⟩
    rw [hsearch, hsearch, FsPath.parentPath_append hd.proper hrelative,
      FsPath.parentPath_append hd'.proper hrelative, FsPath.filename_append hd.proper hrelative,
      FsPath.filename_append hd'.proper hrelative]
    refine filesIn_agree _ (hproper hd.proper) (hproper hd'.proper) ?_
    rw [FileSystem.resolve_append hd.resolves, FileSystem.resolve_append hd'.resolves]

end Globs

/-! ## Runs over the include tree -/

section Runs

variable {h : Host} {p q b b' : FsPath} {depth : Nat} {c : ParsedConfiguration} {tree : Ptree}
  {single single' : FsPath → Nat → ParsedConfiguration → Parse ParsedConfiguration}

/-- From one directory under two paths the same files are included, under paths that are twins
again. -/
theorem parseIncludes_agree (patterns : List Bytes) (c : ParsedConfiguration)
    (hbase : SameDir h.fs b b')
    (hsingle : ∀ p q c, Twin h.fs p q →
      Results.Agree (· = ·) (single p depth c) (single' q depth c)) :
    Results.Agree (· = ·) (parseIncludes h single b patterns depth c)
      (parseIncludes h single' b' patterns depth c) := by
  have hpatterns : List.Forall₂ (· = ·) patterns patterns := List.forall₂_refl patterns
  refine Results.Agree.foldlM (fun c _ pattern _ hc hpattern => ?_) hpatterns rfl
  subst hc hpattern
  refine ((expandGlob_agree pattern hbase).mapError _ _).bind fun files files' hfiles => ?_
  refine Results.Agree.foldlM (fun c _ p q hc htwin => ?_) hfiles rfl
  subst hc
  exact hsingle p q c htwin

/-- The `[include]` section agrees if neither path has a directory part, or both lead to one
directory. -/
theorem parseIncludeSection_agree (tree : Ptree) (c : ParsedConfiguration)
    (hbase : (b.isEmpty = true ∧ b'.isEmpty = true) ∨ SameDir h.fs b b')
    (hsingle : ∀ p q c, Twin h.fs p q →
      Results.Agree (· = ·) (single p (depth + 1) c) (single' q (depth + 1) c)) :
    Results.Agree (· = ·) (parseIncludeSection h single tree b depth c)
      (parseIncludeSection h single' tree b' depth c) := by
  unfold parseIncludeSection
  cases tree.getChildOptional [ascii "include"] with
  | none => exact .ok rfl
  | some section_ =>
      dsimp only
      rcases hbase with ⟨hb, hb'⟩ | hdir
      · simp only [hb, hb', Bool.not_true, Bool.false_eq_true, and_false, if_false]
        exact .ok rfl
      · simp only [hdir.isEmpty.1, hdir.isEmpty.2, Bool.not_false, and_true]
        split
        · exact parseIncludes_agree _ _ hdir hsingle
        · exact .ok rfl

/-- An `[include]` section whose patterns find nothing is as good as none. -/
theorem parseIncludeSection_nothing (hnothing : ∀ section_,
    tree.getChildOptional [ascii "include"] = some section_ → b.isEmpty = false →
      ∀ pattern ∈ includePatterns section_, expandGlob h.fs b pattern = .ok []) :
    parseIncludeSection h single tree b depth c = .ok c := by
  have hloop : ∀ patterns : List Bytes,
      (∀ pattern ∈ patterns, expandGlob h.fs b pattern = .ok []) → ∀ depth,
        parseIncludes h single b patterns depth c = .ok c := by
    intro patterns hglob depth
    induction patterns with
    | nil => rfl
    | cons pattern patterns ih =>
        rw [List.forall_mem_cons] at hglob
        unfold parseIncludes
        rw [List.foldlM_cons, hglob.1]
        exact ih hglob.2
  unfold parseIncludeSection
  cases hsection : tree.getChildOptional [ascii "include"] with
  | none => rfl
  | some section_ =>
      dsimp only
      split
      · next hand => exact hloop _ (hnothing section_ hsection (by simpa using hand.2)) _
      · rfl

/-- The sections of a file agree if its `[include]` section does. -/
theorem parseStream_agree (stream : Option Bytes) (config : ParsedConfiguration)
    (hsection : ∀ contents tree c, stream = some contents → readTree h contents = .ok tree →
      (∃ supervisord, parseSupervisord tree config.supervisord = .ok supervisord) →
      Results.Agree (· = ·) (parseIncludeSection h single tree b depth c)
        (parseIncludeSection h single' tree b' depth c)) :
    Results.Agree (· = ·) (parseStream h single stream b depth config)
      (parseStream h single' stream b' depth config) := by
  unfold parseStream
  cases stream with
  | none => exact Results.Agree.refl _
  | some contents =>
      dsimp only
      split
      · exact Results.Agree.refl _
      · cases htree : readTree h contents with
        | error e => exact .error _ _
        | ok tree =>
            change Results.Agree _ (Except.bind (lift (parseSupervisord tree config.supervisord)) _)
              (Except.bind (lift (parseSupervisord tree config.supervisord)) _)
            cases hparsed : parseSupervisord tree config.supervisord with
            | error e => exact .error _ _
            | ok supervisord =>
                refine (hsection contents tree _ rfl htree ⟨supervisord, hparsed⟩).bind
                  fun c _ hsame => ?_
                subst hsame
                exact Results.Agree.refl _

/-- The messages of the security check name the path; what is accepted does not depend on it. -/
theorem SameFile.security (hsame : SameFile h.fs p q) :
    (∃ e e', validateConfigFileSecurity h.fs h.uid p = .error e ∧
        validateConfigFileSecurity h.fs h.uid q = .error e') ∨
      (validateConfigFileSecurity h.fs h.uid p = .ok () ∧
        validateConfigFileSecurity h.fs h.uid q = .ok ()) := by
  unfold validateConfigFileSecurity
  rw [hsame.exists_, hsame.found, hsame.lstat]
  dsimp only
  split
  · exact .inl ⟨_, _, rfl, rfl⟩
  · split
    · exact .inl ⟨_, _, rfl, rfl⟩
    · split
      · exact .inl ⟨_, _, rfl, rfl⟩
      · exact .inr ⟨rfl, rfl⟩
  · exact .inl ⟨_, _, rfl, rfl⟩

/-- The file passes the security check, and it is read up to its `[include]` section. -/
def ReadsToInclude (h : Host) (file : FsPath) (settings : SupervisordConfig) (tree : Ptree) : Prop :=
  validateConfigFileSecurity h.fs h.uid file = .ok () ∧ fileTree h file = some tree ∧
    ∃ supervisord, parseSupervisord tree settings = .ok supervisord

/-- Two paths of one file are read equally far. -/
theorem ReadsToInclude.congr {settings : SupervisordConfig}
    (hreads : ReadsToInclude h p settings tree) (hsame : SameFile h.fs p q) :
    ReadsToInclude h q settings tree := by
  obtain ⟨hsecure, htree, hparsed⟩ := hreads
  refine ⟨?_, ?_, hparsed⟩
  · rcases hsame.security with ⟨e, _, herr, _⟩ | ⟨_, hok⟩
    · rw [hsecure] at herr
      cases herr
    · exact hok
  · rw [fileTree, ← hsame.openFile]
    exact htree

/-- Two paths of one file are parsed alike where its `[include]` section is. -/
theorem parseSingleFile_agree_of {fuel : Nat} (hsame : SameFile h.fs p q)
    (hsection : ∀ tree config, ReadsToInclude h q c.supervisord tree →
      Results.Agree (· = ·)
        (parseIncludeSection h (parseSingleFile h fuel) tree p.parentPath depth config)
        (parseIncludeSection h (parseSingleFile h fuel) tree q.parentPath depth config)) :
    Results.Agree (· = ·) (parseSingleFile h (fuel + 1) p depth c)
      (parseSingleFile h (fuel + 1) q depth c) := by
  unfold parseSingleFile
  rw [hsame.weaklyCanonical, hsame.openFile]
  refine (Results.Agree.refl (lift (weaklyCanonical h.fs q))).bind fun canonical _ heq => ?_
  subst heq
  split
  · exact .error _ _
  · rcases hsame.security with ⟨e, e', hp, hq⟩ | ⟨hp, hq⟩
    · rw [hp, hq]
      exact .error _ _
    · rw [hp, hq]
      refine (parseStream_agree _ _ fun contents tree config hopen htree hparsed => ?_).mapError _ _
      refine hsection tree config ⟨hq, ?_, hparsed⟩
      rw [fileTree, hopen, Option.bind_some, htree]
      rfl

/-- By induction on the nesting: twins include twins. -/
theorem parseSingleFile_agree {fuel : Nat} (htwin : Twin h.fs p q) :
    Results.Agree (· = ·) (parseSingleFile h fuel p depth c) (parseSingleFile h fuel q depth c) := by
  induction fuel generalizing p q depth c with
  | zero => exact .error _ _
  | succ fuel ih =>
      refine parseSingleFile_agree_of htwin.toSameFile fun tree config _ => ?_
      exact parseIncludeSection_agree tree config htwin.base fun p q c htwin' => ih htwin'

end Runs

/-! ## Spellings -/

/-- The text is a path of the regular file that has this canonical path, and its last name is no
link. -/
structure Spells (fs : Files) (canonical : FsPath) (s : Bytes) : Prop where
  canonical : fs.canonical (.ofText s) = .ok canonical
  regular : ∃ file, fs.lstat (.ofText s) = .ok (.regular file)

/-- The patterns of its `[include]` section find no files, or the main file fails before it comes to
that section. -/
def IncludesNothing (h : Host) (file : FsPath) : Prop :=
  ∀ tree section_, ReadsToInclude h file {} tree →
    tree.getChildOptional [ascii "include"] = some section_ →
      ∀ pattern ∈ includePatterns section_, expandGlob h.fs file.parentPath pattern = .ok []

/-- The settings of the server and of the daemon, and the programs, are the same. -/
def SameData (c c' : ParsedConfiguration) : Prop :=
  c.unixHttpServer = c'.unixHttpServer ∧ c.supervisord = c'.supervisord ∧ c.programs = c'.programs

section Spells

variable {fs : Files} {h : Host} {c : FsPath} {s t : Bytes}

/-- Where a spelling leads: a file in the directory that its directory part leads to. -/
theorem Spells.place (hs : Spells fs c s) : ∃ dir n file, c = ⟨true, dir ++ [n]⟩ ∧
    fs.node (dir ++ [n]) = some (.regular file) ∧ fs.resolve (.ofText s) = .ok (dir ++ [n]) ∧
      fs.lstat (.ofText s) = .ok (.regular file) ∧
        ((FsPath.ofText s).parentPath.isEmpty = false →
          fs.LeadsTo (FsPath.ofText s).parentPath dir) := by
  obtain ⟨place, hplace, hc⟩ := FileSystem.canonical_eq_ok.mp hs.canonical
  obtain ⟨file, hlstat⟩ := hs.regular
  obtain ⟨dir, n, hnames, hn, hdir, rfl, hnode⟩ := FileSystem.exists_of_lstat_regular hlstat hplace
  refine ⟨dir, n, file, hc, hnode, hplace, hlstat, fun hbase => ⟨?_, FsPath.ofText_proper s⟩⟩
  rw [FileSystem.resolve, hbase]
  exact hdir

/-- Two spellings are two paths of one file. -/
theorem Spells.sameFile (hs : Spells fs c s) (ht : Spells fs c t) :
    SameFile fs (.ofText s) (.ofText t) := by
  obtain ⟨dir, n, file, hc, hnode, hplace, hlstat, _⟩ := hs.place
  obtain ⟨dir', n', file', hc', hnode', hplace', hlstat', _⟩ := ht.place
  have hsame : dir ++ [n] = dir' ++ [n'] := congrArg FsPath.names (hc.symm.trans hc')
  rw [hsame] at hnode hplace
  rw [hnode] at hnode'
  obtain rfl := Node.regular.inj (Option.some.inj hnode')
  exact ⟨hplace.trans hplace'.symm, hlstat.trans hlstat'.symm, FileSystem.exists_of_resolve hplace'⟩

/-- Their directory parts, where both have one, lead to one directory. -/
theorem Spells.sameDir (hs : Spells fs c s) (ht : Spells fs c t)
    (hbase : (FsPath.ofText s).parentPath.isEmpty = false)
    (hbase' : (FsPath.ofText t).parentPath.isEmpty = false) :
    SameDir fs (FsPath.ofText s).parentPath (FsPath.ofText t).parentPath := by
  obtain ⟨dir, n, _, hc, _, _, _, hleads⟩ := hs.place
  obtain ⟨dir', n', _, hc', _, _, _, hleads'⟩ := ht.place
  have hsame : dir ++ [n] = dir' ++ [n'] := congrArg FsPath.names (hc.symm.trans hc')
  obtain ⟨rfl, _⟩ := List.append_inj' hsame rfl
  exact ⟨dir, hleads hbase, hleads' hbase'⟩

/-- The text of the canonical path is read back as the canonical path. -/
theorem Spells.ofText_canonical (hs : Spells fs c s) : FsPath.ofText c.text = c := by
  obtain ⟨dir, n, _, rfl, hnode, _⟩ := hs.place
  exact FsPath.ofText_text fun hmem => (FileSystem.isEntry_of_node hnode _ hmem).1 rfl

/-- The canonical path is a spelling itself. -/
theorem Spells.self (hs : Spells fs c s) : Spells fs c c.text := by
  have hread := hs.ofText_canonical
  obtain ⟨dir, n, file, rfl, hnode, _⟩ := hs.place
  have hself : fs.resolve ⟨true, dir ++ [n]⟩ = .ok (dir ++ [n]) :=
    FileSystem.resolve_self ⟨_, hnode, rfl⟩
  constructor
  · rw [hread]
    exact FileSystem.canonical_eq_ok.mpr ⟨_, hself, rfl⟩
  · have hdir := FileSystem.node_parent hnode
    have hfilename : (FsPath.mk true (dir ++ [n])).filename = n := by simp [FsPath.filename]
    have hentry : (FsPath.mk true (dir ++ [n])).filename.IsEntry := by
      rw [hfilename]
      exact FileSystem.isEntry_of_node hnode n (by simp)
    rw [hread]
    refine ⟨file, (FileSystem.lstat_eq_ok_iff hentry).mpr ⟨dir, ?_, hfilename.symm ▸ hnode⟩⟩
    rw [List.dropLast_concat]
    exact FileSystem.walk_self (FileSystem.solid_of_directory hdir)

/-- Under every spelling the patterns find nothing. -/
theorem Spells.nothing (hs : Spells h.fs c s) (hnothing : IncludesNothing h c) {tree : Ptree}
    (hreads : ReadsToInclude h (.ofText s) {} tree) {depth : Nat}
    {single : FsPath → Nat → ParsedConfiguration → Parse ParsedConfiguration}
    (config : ParsedConfiguration) :
    parseIncludeSection h single tree (FsPath.ofText s).parentPath depth config = .ok config := by
  have hread := hs.ofText_canonical
  refine parseIncludeSection_nothing fun section_ hsection hbase pattern hpattern => ?_
  have hcanonical : c.parentPath.isEmpty = false := by
    obtain ⟨dir, n, _, rfl, _⟩ := hs.place
    rfl
  have hsame := hs.sameFile hs.self
  rw [hread] at hsame
  have hglob := hnothing tree section_ (hreads.congr hsame) hsection pattern hpattern
  have hdir := hs.sameDir hs.self hbase (hread.symm ▸ hcanonical)
  have hagree := expandGlob_agree pattern hdir
  rw [hread, hglob] at hagree
  cases hfound : expandGlob h.fs (FsPath.ofText s).parentPath pattern with
  | error e =>
      rw [hfound] at hagree
      cases hagree
  | ok files =>
      rw [hfound] at hagree
      cases hagree with
      | ok hfiles => rw [List.forall₂_nil_right_iff.mp hfiles]

end Spells

section Files

variable {h : Host} {p q c : FsPath} {s t : Bytes}

/-- Two parses agree if those of the main file do: everything before it is the same. -/
theorem parseFile_agree_of (hsame : SameFile h.fs p q)
    (hparse : ∀ config : ParsedConfiguration, config.supervisord = {} →
      Results.Agree (· = ·) (parseSingleFile h (maxDepth + 1) p 0 config)
        (parseSingleFile h (maxDepth + 1) q 0 config)) :
    Results.Agree (· = ·) (parseFile h p) (parseFile h q) := by
  unfold parseFile parseFileWith
  rw [hsame.exists_, hsame.found, hsame.weaklyCanonical]
  refine (Results.Agree.refl (lift (weaklyCanonical h.fs q))).bind fun canonical _ hsame => ?_
  subst hsame
  refine (hparse _ rfl).bind fun config _ hsame => ?_
  subst hsame
  exact Results.Agree.refl _

/-- Spellings that both have a directory part, or both have none, are parsed to one configuration;
so are any two where nothing is included. -/
theorem parseFile_agree (hs : Spells h.fs c s) (ht : Spells h.fs c t)
    (hwhen : (FsPath.ofText s).parentPath.isEmpty = (FsPath.ofText t).parentPath.isEmpty ∨
      IncludesNothing h c) :
    Results.Agree (· = ·) (parseFile h (.ofText s)) (parseFile h (.ofText t)) := by
  have hsame := hs.sameFile ht
  refine parseFile_agree_of hsame fun config hfirst => ?_
  rcases hwhen with hform | hnothing
  · refine parseSingleFile_agree ⟨hsame, ?_⟩
    cases hbase : (FsPath.ofText t).parentPath.isEmpty with
    | true => exact .inl ⟨hform.trans hbase, rfl⟩
    | false => exact .inr (hs.sameDir ht (hform.trans hbase) hbase)
  · refine parseSingleFile_agree_of hsame fun tree config hreads => ?_
    rw [hfirst] at hreads
    rw [hs.nothing hnothing (hreads.congr (ht.sameFile hs)), ht.nothing hnothing hreads]
    exact .ok rfl

/-- **A reload reads what the first load read**: the stored canonical path is parsed like a path with
a directory part. -/
theorem reload_agrees (hs : Spells h.fs c s)
    (hwhen : (FsPath.ofText s).parentPath.isEmpty = false ∨ IncludesNothing h c) :
    Results.Agree (· = ·) (parseFile h (.ofText s)) (parseFile h (.ofText c.text)) := by
  refine parseFile_agree hs hs.self (hwhen.imp_left fun hbase => ?_)
  have hread := hs.ofText_canonical
  obtain ⟨dir, n, _, rfl, _⟩ := hs.place
  rw [hbase, hread]
  rfl

end Files

/-! ## What a bare file name loses -/

/-- Some file at these addresses defines a program. -/
def DefinesProgram (h : Host) (visit : List Nat → Option FsPath) : Prop :=
  ∃ a q, visit a = some q ∧ programsOf h q ≠ []

/-- A parse has added the programs of the included files, which are some where one of the files
defines one, and after them those of the file. -/
def AddedFor (h : Host) (file : FsPath) (c c' : ParsedConfiguration) : Prop :=
  ∃ included own, c'.programs = c.programs ++ included ++ own ∧
    own.map (·.name) = programsOf h file ∧
      (included ≠ [] ↔ DefinesProgram h (visitIn h (followed h file)))

/-- The same for the files of a list. -/
def AddedIn (h : Host) (files : List FsPath) (c c' : ParsedConfiguration) : Prop :=
  ∃ included, c'.programs = c.programs ++ included ∧
    (included ≠ [] ↔ DefinesProgram h (visitIn h files))

section Lost

variable {h : Host} {c c₁ c₂ : ParsedConfiguration} {file : FsPath} {files : List FsPath}
  {s t : Bytes}

theorem definesProgram_nil (h : Host) : ¬ DefinesProgram h (visitIn h []) := by
  rintro ⟨a, q, hvisit, _⟩
  rw [visitIn_nil] at hvisit
  cases hvisit

/-- A program is defined by the first file, by what that includes, or by the others. -/
theorem definesProgram_cons : DefinesProgram h (visitIn h (file :: files)) ↔
    programsOf h file ≠ [] ∨ DefinesProgram h (visitIn h (followed h file)) ∨
      DefinesProgram h (visitIn h files) := by
  constructor
  · rintro ⟨a, q, hvisit, hq⟩
    rcases visitIn_cons hvisit with ⟨b, rfl, hb⟩ | ⟨i, b, rfl, hb⟩
    · cases b with
      | nil =>
          obtain rfl := Option.some.inj hb
          exact .inl hq
      | cons i b => exact .inr (.inl ⟨i :: b, q, hb, hq⟩)
    · exact .inr (.inr ⟨i :: b, q, hb, hq⟩)
  · rintro (hown | ⟨a, q, hvisit, hq⟩ | ⟨a, q, hvisit, hq⟩)
    · exact ⟨[0], file, rfl, hown⟩
    · cases a with
      | nil => cases hvisit
      | cons i b => exact ⟨0 :: i :: b, q, hvisit, hq⟩
    · cases a with
      | nil => cases hvisit
      | cons i b => exact ⟨(i + 1) :: b, q, hvisit, hq⟩

theorem addedIn_cons (hfile : AddedFor h file c c₁) (hfiles : AddedIn h files c₁ c₂) :
    AddedIn h (file :: files) c c₂ := by
  obtain ⟨included, own, hc₁, hown, hincluded⟩ := hfile
  obtain ⟨later, hc₂, hlater⟩ := hfiles
  refine ⟨included ++ own ++ later, by rw [hc₂, hc₁]; simp, ?_⟩
  have hnames : own ≠ [] ↔ programsOf h file ≠ [] := by
    rw [← hown, Ne, Ne, List.map_eq_nil_iff]
  rw [definesProgram_cons, ← hnames, ← hincluded, ← hlater]
  simp only [ne_eq, List.append_eq_nil_iff]
  tauto

/-- What the parse of a file adds to the programs comes from the files it visits. -/
theorem addedFor_of_parse (fuel : Nat) {depth : Nat}
    (hok : parseSingleFile h fuel file depth c = .ok c₁) : AddedFor h file c c₁ := by
  refine parse_induction (P := fun file _ c c' => AddedFor h file c c')
    (Q := fun files _ c c' => AddedIn h files c c') ?_ ?_ ?_ fuel hok
  · intro _ c
    exact ⟨[], by simp, iff_of_false (fun hne => hne rfl) (definesProgram_nil h)⟩
  · intro file files _ c c₁ c₂ hfile hfiles
    exact addedIn_cons hfile hfiles
  · intro file _ c t tree c₁ c₂ progs hopened hfiles hprogs
    obtain ⟨included, hc₂, hincluded⟩ := hfiles
    refine ⟨included, progs, by simp only [hc₂, hopened.programs], ?_, hincluded⟩
    rw [hprogs, programsOf, hopened.tree]

/-- A bare file name is followed nowhere. -/
theorem followed_bare (hbare : file.parentPath.isEmpty = true) : followed h file = [] := by
  unfold followed includedFiles
  split
  · rfl
  · split
    · rfl
    · rw [if_pos hbare]

/-- Where the included files define a program, a bare file name is not parsed like another spelling
of the same file, unless both fail. -/
theorem bare_name_loses_programs {canonical : FsPath} (hs : Spells h.fs canonical s)
    (ht : Spells h.fs canonical t) (hbare : (FsPath.ofText s).parentPath.isEmpty = true)
    (hdefines : DefinesProgram h (visitIn h (followed h (.ofText t))))
    (hagree : Results.Agree SameData (parseFile h (.ofText s)) (parseFile h (.ofText t))) :
    ∃ e e', parseFile h (.ofText s) = .error e ∧ parseFile h (.ofText t) = .error e' := by
  cases hres : parseFile h (.ofText s) with
  | error e =>
      rw [hres] at hagree
      cases hres' : parseFile h (.ofText t) with
      | error e' => exact ⟨e, e', rfl, rfl⟩
      | ok config' =>
          rw [hres'] at hagree
          cases hagree
  | ok config =>
      rw [hres] at hagree
      cases hres' : parseFile h (.ofText t) with
      | error e' =>
          rw [hres'] at hagree
          cases hagree
      | ok config' =>
          rw [hres'] at hagree
          obtain ⟨_, _, _, hparse⟩ := parseFile_eq_ok hres
          obtain ⟨_, _, _, hparse'⟩ := parseFile_eq_ok hres'
          obtain ⟨included, own, hprograms, hown, hincluded⟩ := addedFor_of_parse _ hparse
          obtain ⟨included', own', hprograms', hown', hincluded'⟩ := addedFor_of_parse _ hparse'
          -- the bare name adds its own programs only, and the file has as many by either path
          rw [followed_bare hbare] at hincluded
          have hnone : included = [] := by
            by_contra hne
            exact definesProgram_nil h (hincluded.mp hne)
          have hsame : programsOf h (.ofText s) = programsOf h (.ofText t) := by
            rw [programsOf, programsOf, fileTree, fileTree, (hs.sameFile ht).openFile]
          have hlength : own.length = own'.length := by
            rw [← List.length_map (·.name), hown, hsame, ← hown', List.length_map]
          cases hagree with
          | ok hdata =>
              have hall := congrArg List.length hdata.2.2
              rw [hprograms, hprograms', hnone] at hall
              simp only [List.nil_append, List.append_nil, List.length_append] at hall
              have hempty : included'.length = 0 := by omega
              exact absurd (List.length_eq_zero_iff.mp hempty) (hincluded'.mpr hdefines)

end Lost

/-! ## Independence of the spelling -/

/-- Equal configurations have the same data. -/
theorem sameData_of_agree {x y : Parse ParsedConfiguration} (h : Results.Agree (· = ·) x y) :
    Results.Agree SameData x y := by
  refine h.mono fun c c' hsame => ?_
  subst hsame
  exact ⟨rfl, rfl, rfl⟩

/-- **The configuration depends on the file**, not on the path it is given by, as long as both paths
have a directory part, or neither has, or the file includes nothing; so a reload with the stored
path agrees with the first load if that path had a directory part, or nothing is included. Where one
of the two is a bare file name and some file that the other includes defines a program, the two do
not agree unless both fail. -/
theorem spelling_irrelevant (h : Host) (canonical : FsPath) (s t : Bytes)
    (hs : Spells h.fs canonical s) (ht : Spells h.fs canonical t) :
    ((FsPath.ofText s).parentPath.isEmpty = (FsPath.ofText t).parentPath.isEmpty ∨
        IncludesNothing h canonical →
      Results.Agree SameData (parseFile h (.ofText s)) (parseFile h (.ofText t))) ∧
    ((FsPath.ofText s).parentPath.isEmpty = false ∨ IncludesNothing h canonical →
      Results.Agree SameData (parseFile h (.ofText s)) (parseFile h (.ofText canonical.text))) ∧
    ((FsPath.ofText s).parentPath.isEmpty = true →
      DefinesProgram h (visitIn h (followed h (.ofText t))) →
      Results.Agree SameData (parseFile h (.ofText s)) (parseFile h (.ofText t)) →
      ∃ e e', parseFile h (.ofText s) = .error e ∧ parseFile h (.ofText t) = .error e') :=
  ⟨fun hwhen => sameData_of_agree (parseFile_agree hs ht hwhen),
    fun hwhen => sameData_of_agree (reload_agrees hs hwhen),
    fun hbare hdefines hagree => bare_name_loses_programs hs ht hbare hdefines hagree⟩

theorem dotted_spelling_irrelevant : Results.Agree SameData
    (parseFile twiceHost (.ofText (ascii "/etc/s.ini")))
    (parseFile twiceHost (.ofText (ascii "../etc/./s.ini"))) := by
  refine (spelling_irrelevant twiceHost (.ofText (ascii "/etc/s.ini")) _ _ ⟨?_, ?_⟩ ⟨?_, ?_⟩).1
    (.inl ?_)
  · rfl
  · exact ⟨_, rfl⟩
  · rfl
  · exact ⟨_, rfl⟩
  · decide +kernel

/-- The includes of a bare file name in the working directory are skipped. -/
theorem bare_name_skips_includes : ¬ ∀ (h : Host) (canonical : FsPath) (s t : Bytes),
    Spells h.fs canonical s → Spells h.fs canonical t →
      Results.Agree SameData (parseFile h (.ofText s)) (parseFile h (.ofText t)) := by
  intro hall
  have hbare : (parseFile twiceHost (.ofText (ascii "s.ini"))).toOption.map
      (fun config => config.programs.length) = some 1 := by
    decide +kernel
  obtain ⟨config, hok, hlength⟩ := Option.map_eq_some_iff.mp hbare
  obtain ⟨config', hok', hweb⟩ := twiceHost_parses
  have hagree := hall twiceHost (.ofText (ascii "/etc/s.ini")) (ascii "s.ini")
    (ascii "/etc/s.ini") ⟨rfl, _, rfl⟩ ⟨rfl, _, rfl⟩
  rw [Results.toOption_eq_some.mp hok, hok'] at hagree
  cases hagree with
  | ok hsame =>
      rw [hsame.2.2] at hlength
      have hlength' := congrArg List.length hweb
      rw [List.length_map, hlength] at hlength'
      exact absurd hlength' (by decide)

end Supervisorcpp
