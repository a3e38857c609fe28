/-
# Where validated paths lie

`validate_canonicalize_path` compares texts: it accepts a path when the text of the resolved path
starts with the text of an allowed directory. That is the directory itself and what is below it, and
also every directory beside it whose name goes on where its own name ends. And a path that leads
nowhere is taken to be a name in the directory it is in, also when a link of that name is there.

Both theorems are equivalences. What a validated path may lead to is said in terms of the file
system: the place it names, and, where nothing is there, the place a later open would create a file
at.
-/
import Supervisorcpp.Lib.Results
import Supervisorcpp.Util.Secure

namespace Supervisorcpp

open Bytes (ascii)

/-- The place a path names: where it leads, or, where it leads nowhere, its last name in the directory
that would hold it. -/
inductive Names (fs : Files) (path : FsPath) : FsPath → Prop
  | found {place : Place} : fs.resolve path = .ok place → Names fs path ⟨true, place⟩
  | missing {e : Errno} {dir : Place} : fs.resolve path = .error e →
      fs.walk (fs.start path) path.names.dropLast = .ok dir →
      Names fs path ((FsPath.mk true dir).append (.ofName path.filename))

section Location

variable {fs : Files} {path r : FsPath}

/-- The path that is checked is the one the text names. -/
theorem canonicalLocation_eq_ok : canonicalLocation fs path = .ok r ↔ Names fs path r := by
  unfold canonicalLocation FileSystem.canonical
  simp only [FileSystem.resolve_parent]
  constructor
  · intro h
    cases hres : fs.resolve path with
    | ok place =>
        rw [hres] at h
        obtain rfl := Except.ok.inj h
        exact .found hres
    | error e =>
        rw [hres] at h
        cases hdir : fs.walk (fs.start path) path.names.dropLast with
        | error e' => simp [hdir, Except.map] at h
        | ok dir =>
            rw [hdir] at h
            obtain rfl := Except.ok.inj h
            exact .missing hres hdir
  · rintro (hres | ⟨hres, hdir⟩)
    · rw [hres]
      rfl
    · rw [hres, hdir]
      rfl

theorem Names.absolute (h : Names fs path r) : r.absolute = true := by
  cases h with
  | found _ => rfl
  | missing _ _ => exact FsPath.append_absolute rfl _

/-- The check compares texts: that of the directory has to be a prefix. -/
theorem validateCanonicalizePath_eq_ok {allowed : FsPath} :
    validateCanonicalizePath fs path allowed = .ok r ↔
      Names fs path r ∧ allowed.text <+: r.text := by
  rw [← canonicalLocation_eq_ok, validateCanonicalizePath, Results.bind_eq_ok]
  constructor
  · rintro ⟨loc, hloc, h⟩
    split at h
    · next hfind =>
        obtain rfl := Except.ok.inj h
        exact ⟨hloc, Bytes.find_eq_zero_iff.mp hfind⟩
    · cases h
  · rintro ⟨hloc, hpre⟩
    exact ⟨r, hloc, if_pos (Bytes.find_eq_zero_iff.mpr hpre)⟩

theorem validatePathInAllowedDirs_eq_ok {allowed : List FsPath} {description : Bytes}
    (h : validatePathInAllowedDirs fs path allowed description = .ok r) :
    Names fs path r ∧ ∃ d ∈ allowed, d.text <+: r.text := by
  unfold validatePathInAllowedDirs at h
  split at h
  · next canonical hfind =>
      obtain rfl := Except.ok.inj h
      obtain ⟨d, hd, hvalid⟩ := List.exists_of_findSome?_eq_some hfind
      have hok := Results.toOption_eq_some.mp hvalid
      obtain ⟨hloc, htext⟩ := validateCanonicalizePath_eq_ok.mp hok
      exact ⟨hloc, d, hd, htext⟩
  · cases h

end Location

/-! ## The allowed directories -/

section Allowed

variable {fs : Files} {tmpdir : Option FsPath} {dirs : List FsPath}

/-- The directory for temporary files is there when its path is looked up. -/
theorem exists_of_tempDirectoryPath {p : FsPath} (h : tempDirectoryPath fs tmpdir = .ok p) :
    fs.exists_ p = .ok true := by
  unfold tempDirectoryPath at h
  dsimp only at h
  split at h
  · next hdir =>
      obtain rfl := Except.ok.inj h
      obtain ⟨node, hstatus, hany⟩ := Results.map_eq_ok.mp hdir
      refine Results.map_eq_ok.mpr ⟨node, hstatus, ?_⟩
      cases node with
      | none => cases hany
      | some node => rfl
  · cases h
  · cases h

/-- The allowed directories are absolute paths, and none is the root with a slash after it. -/
theorem allowedDirs_absolute {names : List String}
    (hnames : ∀ name ∈ names, (FsPath.ofText (ascii name)).absolute = true)
    (h : allowedDirs fs tmpdir names = .ok dirs) :
    ∀ d ∈ dirs, d.absolute = true ∧ d.names ≠ [.empty] := by
  obtain ⟨fixed, hfixed, h⟩ := Results.bind_eq_ok.mp h
  obtain ⟨tmp, htmp, rfl⟩ := Results.map_eq_ok.mp h
  intro d hd
  rcases List.mem_append.mp hd with hd | hd
  · obtain ⟨name, hname, hweak⟩ := Results.exists_of_mapM hfixed d hd
    have hweak' := Results.mapError_eq_ok.mp hweak
    exact ⟨FileSystem.weaklyCanonical_absolute (.inl (hnames name hname)) hweak',
      FileSystem.weaklyCanonical_names hweak'⟩
  · obtain rfl := List.mem_singleton.mp hd
    obtain ⟨p, hp, hweak⟩ := Results.bind_eq_ok.mp htmp
    have hweak' := Results.mapError_eq_ok.mp hweak
    exact ⟨FileSystem.weaklyCanonical_absolute (.inr (exists_of_tempDirectoryPath hp)) hweak',
      FileSystem.weaklyCanonical_names hweak'⟩

end Allowed

/-! ## Containment -/

/-- The path names a place beside the allowed directories: where the text of one of them starts the
text of the place, only its last name goes on there. -/
def LeadsBeside (fs : Files) (allowed : List FsPath) (path : FsPath) : Prop :=
  ∃ loc, Names fs path loc ∧ ∀ d ∈ allowed, d.text <+: loc.text → d.Beside loc

section Containment

variable {fs : Files} {allowed : List FsPath} {path r : FsPath}

/-- A text names one path. -/
theorem Names.unique {r' : FsPath} (h : Names fs path r) (h' : Names fs path r') : r = r' :=
  Except.ok.inj ((canonicalLocation_eq_ok.mpr h).symm.trans (canonicalLocation_eq_ok.mpr h'))

/-- An accepted path is inside an allowed directory unless it names a place beside them. -/
theorem allowed_contains_iff (hdirs : ∀ d ∈ allowed, d.absolute = true ∧ d.names ≠ [.empty])
    {description : Bytes} (h : validatePathInAllowedDirs fs path allowed description = .ok r) :
    (∃ d ∈ allowed, d.components <+: r.components) ↔ ¬ LeadsBeside fs allowed path := by
  obtain ⟨hnames, d, hd, htext⟩ := validatePathInAllowedDirs_eq_ok h
  have hr : r.absolute = true := hnames.absolute
  constructor
  · rintro ⟨dir, hdir, hcomponents⟩ ⟨loc, hloc, hbeside⟩
    obtain rfl : r = loc := hnames.unique hloc
    obtain ⟨habs, hne⟩ := hdirs dir hdir
    have habove : dir.names <+: r.names := (FsPath.components_prefix_iff habs hr).mp hcomponents
    have htext' : dir.text <+: r.text := (FsPath.text_prefix_iff habs hr hne).mpr (.inl habove)
    exact FsPath.not_beside_of_above habove (hbeside dir hdir htext')
  · intro hbeside
    by_contra hnone
    -- then the text of every directory that matches is only continued by another name
    refine hbeside ⟨r, hnames, fun dir hdir hmatch => ?_⟩
    obtain ⟨habs, hne⟩ := hdirs dir hdir
    rcases (FsPath.text_prefix_iff habs hr hne).mp hmatch with habove | hbeside
    · exact absurd ⟨dir, hdir, (FsPath.components_prefix_iff habs hr).mpr habove⟩ hnone
    · exact hbeside

/-- The paths that the checks of log and pid files return are inside an allowed directory, component
by component, exactly when the path they were given does not name a place beside one. -/
theorem validated_path_contained_iff (fs₀ fs : Files) (tmpdir : Option FsPath) (allowed : List FsPath)
    (path r : FsPath) :
    (logDirs fs₀ tmpdir = .ok allowed → validateLogPath fs allowed path = .ok r →
      ((∃ d ∈ allowed, d.components <+: r.components) ↔ ¬ LeadsBeside fs allowed path)) ∧
    (pidfileDirs fs₀ tmpdir = .ok allowed → validatePidfilePath fs allowed path = .ok r →
      ((∃ d ∈ allowed, d.components <+: r.components) ↔ ¬ LeadsBeside fs allowed path)) := by
  constructor
  · intro hdirs h
    exact allowed_contains_iff (allowedDirs_absolute (by decide +kernel) hdirs) h
  · intro hdirs h
    unfold validatePidfilePath at h
    split at h
    · exact allowed_contains_iff (allowedDirs_absolute (by decide +kernel) hdirs) h
    · cases h

end Containment

/-- A directory `/var/log2` beside `/var/log`. -/
def twoLogDirs : Files where
  nodes := [([.ofAscii "var"], .directory), ([.ofAscii "var", .ofAscii "log"], .directory),
    ([.ofAscii "var", .ofAscii "log2"], .directory), ([.ofAscii "tmp"], .directory)]
  cwd := []
  distinct := by decide +kernel
  tree := by decide +kernel
  cwdDirectory := by decide +kernel

/-- `/var/log` itself contains what is below it. -/
theorem var_log_app_contained : ∃ allowed, logDirs twoLogDirs none = .ok allowed ∧
    ∃ r, validateLogPath twoLogDirs allowed (.ofText (ascii "/var/log/app.log")) = .ok r ∧
      ((∃ d ∈ allowed, d.components <+: r.components) ↔
        ¬ LeadsBeside twoLogDirs allowed (.ofText (ascii "/var/log/app.log"))) := by
  have hdirs : logDirs twoLogDirs none = .ok ([["var", "log"], ["tmp"], ["tmp"]].map fun ns =>
      ⟨true, ns.map .ofAscii⟩) := by
    decide +kernel
  have hvalid : validateLogPath twoLogDirs ([["var", "log"], ["tmp"], ["tmp"]].map fun ns =>
      ⟨true, ns.map .ofAscii⟩) (.ofText (ascii "/var/log/app.log")) =
        .ok ⟨true, ["var", "log", "app.log"].map .ofAscii⟩ := by
    decide +kernel
  exact ⟨_, hdirs, _, hvalid,
    (validated_path_contained_iff twoLogDirs twoLogDirs none _ _ _).1 hdirs hvalid⟩

/-- `/var/log2/x` is accepted as a log file. -/
theorem var_log2_accepted : ¬ ∀ (fs₀ fs : Files) (tmpdir : Option FsPath) (allowed : List FsPath)
    (path r : FsPath),
    (logDirs fs₀ tmpdir = .ok allowed → validateLogPath fs allowed path = .ok r →
      ∃ d ∈ allowed, d.components <+: r.components) ∧
    (pidfileDirs fs₀ tmpdir = .ok allowed → validatePidfilePath fs allowed path = .ok r →
      ∃ d ∈ allowed, d.components <+: r.components) := by
  intro h
  have hcontained := (h twoLogDirs twoLogDirs none
    ([["var", "log"], ["tmp"], ["tmp"]].map fun ns => ⟨true, ns.map .ofAscii⟩)
    (.ofText (ascii "/var/log2/x")) ⟨true, ["var", "log2", "x"].map .ofAscii⟩).1
    (by decide +kernel) (by decide +kernel)
  revert hcontained
  decide +kernel

/-! ## Resolution -/

/-- No component on the way to a path is a link. -/
def Resolved (fs : Files) (r : FsPath) : Prop :=
  ∀ place node, place <+: r.names → fs.node place = some node → node.isSymlink = false

/-- The path is a link that leads nowhere. -/
def DanglingLink (fs : Files) (path : FsPath) : Prop :=
  (∃ target, fs.lstat path = .ok (.symlink target)) ∧ ∃ e, fs.resolve path = .error e

section Resolution

variable {fs : Files} {path r : FsPath} {dir : Place}

/-- A solid place is its own path's target. -/
theorem resolved_of_solid {place : Place} (h : fs.Solid place) : Resolved fs ⟨true, place⟩ := by
  intro above node hpre hnode
  obtain ⟨node', hnode', hlink⟩ := h.above hpre
  rw [hnode] at hnode'
  rwa [Option.some.inj hnode']

/-- Below a place without links on the way, only the last name can be one. -/
theorem resolved_concat_iff (hdir : fs.Solid dir) (n : FileName) :
    Resolved fs ⟨true, dir ++ [n]⟩ ↔
      ¬ ∃ target, fs.node (dir ++ [n]) = some (.symlink target) := by
  constructor
  · rintro hres ⟨target, hnode⟩
    cases hres _ _ (List.prefix_refl _) hnode
  · intro hnone place node hpre hnode
    rcases List.prefix_concat_iff.mp hpre with rfl | hpre
    · cases node with
      | symlink target => exact absurd ⟨target, hnode⟩ hnone
      | directory => rfl
      | regular file => rfl
      | special => rfl
    · exact resolved_of_solid hdir place node hpre hnode

/-- A name put after the place of a directory. -/
theorem names_append_ofName (hdir : ∀ n ∈ dir, n.IsEntry) (n : FileName) :
    ((FsPath.mk true dir).append (.ofName n)).names =
      if n = .empty then (if dir = [] then [] else dir ++ [.empty]) else dir ++ [n] := by
  have hlast : dir.getLast? ≠ some .empty := by
    intro h
    exact (hdir _ (List.mem_of_getLast? h)).1 rfl
  by_cases hn : n = .empty
  · simp [FsPath.append, FsPath.ofName, hn, hlast]
  · simp [FsPath.append, FsPath.ofName, hn, hlast]

/-- A link that leads nowhere is a proper name in the directory that its path leads to. -/
theorem danglingLink_iff {e : Errno} (hres : fs.resolve path = .error e)
    (hdir : fs.walk (fs.start path) path.names.dropLast = .ok dir) :
    DanglingLink fs path ↔
      ∃ target, fs.node (dir ++ [path.filename]) = some (.symlink target) := by
  constructor
  · rintro ⟨⟨target, hlink⟩, -⟩
    by_cases hentry : path.filename.IsEntry
    · obtain ⟨dir', hdir', hnode⟩ := (FileSystem.lstat_eq_ok_iff hentry).mp hlink
      obtain rfl : dir = dir' := Except.ok.inj (hdir.symm.trans hdir')
      exact ⟨target, hnode⟩
    · rw [FileSystem.lstat, if_neg hentry, FileSystem.stat, hres] at hlink
      cases hlink
  · rintro ⟨target, hnode⟩
    have hentry : path.filename.IsEntry :=
      FileSystem.isEntry_of_node hnode _ (List.mem_append_right _ (List.mem_singleton_self _))
    exact ⟨⟨target, (FileSystem.lstat_eq_ok_iff hentry).mpr ⟨dir, hdir, hnode⟩⟩, e, hres⟩

/-- What is opened at a resolved path is at that path. -/
theorem opened_of_resolved {place : Place} (hr : r.absolute = true)
    (hsolid : fs.Solid r.names.dropLast) (hres : Resolved fs r) (h : fs.opened r = .ok place) :
    place = r.names := by
  unfold FileSystem.opened FileSystem.created at h
  split at h
  · next hentry =>
      have hsplit := FsPath.names_eq_of_entry hentry
      simp only [FileSystem.walk_self hsolid, Except.bind, hsplit] at h
      split at h
      · split at h
        · next target hnode => cases hres r.names _ (List.prefix_refl _) hnode
        · exact (Except.ok.inj h).symm
      · cases h
  · cases h

/-- The way to the place a path names, up to the last name, is there. -/
theorem Names.solid_dropLast (h : Names fs path r) : fs.Solid r.names.dropLast := by
  cases h with
  | found hres => exact (FileSystem.resolve_solid hres).above ( List.dropLast_prefix _)
  | @missing e dir hres hdir =>
      have hsolid : fs.Solid dir := FileSystem.walk_solid (FileSystem.start_solid path) hdir
      obtain ⟨node, hnode, _⟩ := id hsolid
      rw [names_append_ofName (FileSystem.isEntry_of_node hnode)]
      split
      · split
        · exact FileSystem.solid_of_directory rfl
        · rwa [List.dropLast_concat]
      · rwa [List.dropLast_concat]

/-- A path that is not a dangling link names a place without links. -/
theorem Names.resolved_iff (h : Names fs path r) : Resolved fs r ↔ ¬ DanglingLink fs path := by
  cases h with
  | found hres =>
      refine iff_of_true (resolved_of_solid (FileSystem.resolve_solid hres)) ?_
      rintro ⟨_, e, herr⟩
      rw [hres] at herr
      cases herr
  | @missing e dir hres hdir =>
      have hsolid : fs.Solid dir := FileSystem.walk_solid (FileSystem.start_solid path) hdir
      obtain ⟨node, hnode, _⟩ := id hsolid
      have happend := names_append_ofName (FileSystem.isEntry_of_node hnode) path.filename
      rw [danglingLink_iff hres hdir]
      by_cases hroot : path.filename = .empty ∧ dir = []
      · -- a trailing slash after the root is the root
        obtain ⟨hfile, rfl⟩ := hroot
        rw [if_pos hfile, if_pos rfl] at happend
        refine iff_of_true ?_ ?_
        · rw [Resolved, happend]
          exact resolved_of_solid hsolid
        · rintro ⟨target, hlink⟩
          exact (FileSystem.isEntry_of_node hlink _ (List.mem_singleton_self _)).1 hfile
      · have hconcat : ((FsPath.mk true dir).append (.ofName path.filename)).names =
            dir ++ [path.filename] := by
          rw [happend]
          split
          · next hfile => rw [if_neg fun hnil => hroot ⟨hfile, hnil⟩, hfile]
          · rfl
        rw [Resolved, hconcat]
        exact resolved_concat_iff hsolid path.filename

/-- What `validate_canonicalize_path` returns is resolved, and a file opened or created there is the
one at that path and below the allowed prefix, exactly when the path it was given is not a dangling
link. -/
theorem validated_path_resolved_iff (fs : Files) (path allowed r : FsPath)
    (h : validateCanonicalizePath fs path allowed = .ok r) :
    (Resolved fs r ∧ ∀ place, fs.opened r = .ok place →
        place = r.names ∧ allowed.text <+: (FsPath.mk true place).text) ↔
      ¬ DanglingLink fs path := by
  obtain ⟨hnames, htext⟩ := validateCanonicalizePath_eq_ok.mp h
  rw [← hnames.resolved_iff]
  refine ⟨fun hres => hres.1, fun hres => ⟨hres, fun place hplace => ?_⟩⟩
  obtain rfl := opened_of_resolved hnames.absolute hnames.solid_dropLast hres hplace
  refine ⟨rfl, ?_⟩
  have hr : r = ⟨true, r.names⟩ := by
    rw [← hnames.absolute]
  rwa [← hr]

end Resolution

/-- A link `/tmp/x` to `/etc/x`, which is not there. -/
def plantedLink : Files where
  nodes := [([.ofAscii "tmp"], .directory), ([.ofAscii "etc"], .directory),
    ([.ofAscii "tmp", .ofAscii "x"], .symlink (.ofText (ascii "/etc/x")))]
  cwd := []
  distinct := by decide +kernel
  tree := by decide +kernel
  cwdDirectory := by decide +kernel

/-- A name in `/tmp` that is not there yet. -/
theorem tmp_y_resolved :
    validateCanonicalizePath plantedLink (.ofText (ascii "/tmp/y")) (.ofText (ascii "/tmp")) =
      .ok (.ofText (ascii "/tmp/y")) ∧
    ((Resolved plantedLink (.ofText (ascii "/tmp/y")) ∧
        ∀ place, plantedLink.opened (.ofText (ascii "/tmp/y")) = .ok place →
          place = (FsPath.ofText (ascii "/tmp/y")).names ∧
            (FsPath.ofText (ascii "/tmp")).text <+: (FsPath.mk true place).text) ↔
      ¬ DanglingLink plantedLink (.ofText (ascii "/tmp/y"))) := by
  have hvalid : validateCanonicalizePath plantedLink (.ofText (ascii "/tmp/y"))
      (.ofText (ascii "/tmp")) = .ok (.ofText (ascii "/tmp/y")) := by
    decide +kernel
  exact ⟨hvalid, validated_path_resolved_iff _ _ _ _ hvalid⟩

/-- The planted link is accepted as a path in `/tmp`, and the file created through it is `/etc/x`. -/
theorem planted_link_accepted : ¬ ∀ (fs : Files) (path allowed r : FsPath),
    validateCanonicalizePath fs path allowed = .ok r →
      Resolved fs r ∧ ∀ place, fs.opened r = .ok place →
        place = r.names ∧ allowed.text <+: (FsPath.mk true place).text := by
  intro h
  have hopened := (h plantedLink (.ofText (ascii "/tmp/x")) (.ofText (ascii "/tmp"))
    (.ofText (ascii "/tmp/x")) (by decide +kernel)).2 [.ofAscii "etc", .ofAscii "x"]
    (by decide +kernel)
  revert hopened
  decide +kernel

end Supervisorcpp
