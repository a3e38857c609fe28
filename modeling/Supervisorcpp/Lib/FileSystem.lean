/-
# A file system with symbolic links

A tree of directories, regular files and symbolic links, as a process sees it from its working
directory, and the functions of `std::filesystem` that resolve paths in it. A node is identified by
its place, the names that lead to it from the root.

Links are followed however many there are. A link that leads back to itself is found by the nesting:
a link is followed while another one is, and so on, and one that is met again inside itself is met
again without end, so nesting deeper than the number of nodes is a loop. Permissions are not looked
at, and paths hold no NUL bytes.
-/
import Mathlib.Data.List.Infix
import Supervisorcpp.Lib.Path
import Supervisorcpp.Lib.Results

/-- The names that lead to a node from the root. -/
abbrev Place := List FileName

/-- What there is at a place. A regular file carries its data, whatever that is to the reader of the
tree. -/
inductive Node (φ : Type) where
  | directory
  | regular (file : φ)
  | symlink (target : FsPath)
  /-- a device, a socket or a fifo -/
  | special
  deriving DecidableEq

/-- Why a path does not resolve. -/
inductive Errno where
  | noent
  | notdir
  | loop
  deriving DecidableEq, Repr

namespace Node

variable {φ : Type}

/-- The entry is a directory, not a link to one. -/
def isDirectory : Node φ → Bool
  | .directory => true
  | _ => false

/-- The entry is a regular file, not a link to one. -/
def isRegular : Node φ → Bool
  | .regular _ => true
  | _ => false

/-- The entry is a symbolic link, dangling or not. -/
def isSymlink : Node φ → Bool
  | .symlink _ => true
  | _ => false

/-- The node at a place in a list of nodes; the root is always there. -/
def lookup (nodes : List (Place × Node φ)) (place : Place) : Option (Node φ) :=
  if place = [] then some .directory
  else (nodes.find? fun e => e.1 = place).map (·.2)

end Node

/-- A file system and the working directory of a process in it. -/
structure FileSystem (φ : Type) where
  nodes : List (Place × Node φ)
  cwd : Place
  distinct : (nodes.map (·.1)).Nodup
  /-- every node has a proper name and is in a directory -/
  tree : ∀ e ∈ nodes, (∀ n ∈ e.1, n.IsEntry) ∧
    (Node.lookup nodes e.1.dropLast).any Node.isDirectory = true
  cwdDirectory : (Node.lookup nodes cwd).any Node.isDirectory = true

namespace FileSystem

variable {φ : Type} (fs : FileSystem φ)

/-! ## Resolution -/

/-- What is at this place, links not followed. -/
def node (place : Place) : Option (Node φ) := Node.lookup fs.nodes place

/-- There is a directory at this place. -/
def isDirectoryAt (place : Place) : Bool := (fs.node place).any Node.isDirectory

/-- The names in a directory, in no particular order. -/
def entries (place : Place) : List FileName :=
  fs.nodes.filterMap fun e => if e.1.dropLast = place then e.1.getLast? else none

/-- Walk names from a place; `follow` says where a link in a directory leads. -/
def walkWith (follow : Place → FsPath → Except Errno Place) :
    Place → List FileName → Except Errno Place
  | cur, [] => .ok cur
  | cur, n :: ns =>
    if fs.isDirectoryAt cur then
      if n = .empty ∨ n = .dot then walkWith follow cur ns
      else if n = .dotDot then walkWith follow cur.dropLast ns
      else
        match fs.node (cur ++ [n]) with
        | none => .error .noent
        | some (.symlink target) =>
          (follow cur target).bind fun place => walkWith follow place ns
        | some _ => walkWith follow (cur ++ [n]) ns
    else .error .notdir

/-- Where a path of a link in the directory `cur` leads, links in it nested at most so deep. -/
def follow : Nat → Place → FsPath → Except Errno Place
  | 0, _, _ => .error .loop
  | depth + 1, cur, target =>
    if target.isEmpty then .error .noent
    else fs.walkWith (follow depth) (if target.absolute then [] else cur) target.names

/-- The place a path leads to from a directory. No path goes through more links than there are
entries, unless it goes in a circle. -/
def walk : Place → List FileName → Except Errno Place := fs.walkWith (fs.follow fs.nodes.length)

/-- Where the resolution of a path begins. -/
def start (p : FsPath) : Place := if p.absolute then [] else fs.cwd

/-- The place a path leads to, every link of it followed. -/
def resolve (p : FsPath) : Except Errno Place :=
  if p.isEmpty then .error .noent else fs.walk (fs.start p) p.names

/-! ## `std::filesystem` -/

/-- `canonical`. -/
def canonical (p : FsPath) : Except Errno FsPath := (fs.resolve p).map fun place => ⟨true, place⟩

/-- `status`: `none` where nothing is found, an exception for a loop. -/
def status (p : FsPath) : Except Errno (Option (Node φ)) :=
  match fs.resolve p with
  | .ok place => .ok (fs.node place)
  | .error .loop => .error .loop
  | .error _ => .ok none

/-- `exists`. -/
def exists_ (p : FsPath) : Except Errno Bool := (fs.status p).map Option.isSome

/-- `is_directory`. -/
def isDirectory (p : FsPath) : Except Errno Bool := (fs.status p).map (·.any Node.isDirectory)

/-- `is_regular_file`. -/
def isRegularFile (p : FsPath) : Except Errno Bool := (fs.status p).map (·.any Node.isRegular)

/-- `stat`. -/
def stat (p : FsPath) : Except Errno (Node φ) :=
  (fs.resolve p).bind fun place => (fs.node place).elim (.error .noent) .ok

/-- `lstat`: a link as the last name is not followed. -/
def lstat (p : FsPath) : Except Errno (Node φ) :=
  if p.filename.IsEntry then
    (fs.walk (fs.start p) p.names.dropLast).bind fun place =>
      if fs.isDirectoryAt place then (fs.node (place ++ [p.filename])).elim (.error .noent) .ok
      else .error .notdir
  else fs.stat p

/-- `current_path`. -/
def currentPath : FsPath := ⟨true, fs.cwd⟩

/-- The leading names of `weakly_canonical` that exist, and the names after them. -/
def existing (result : FsPath) : List FileName → Except Errno (FsPath × List FileName)
  | [] => .ok (result, [])
  | n :: ns =>
    let tmp := result.append (.ofName n)
    (fs.exists_ tmp).bind fun found => if found then existing tmp ns else .ok (result, n :: ns)

/-- `weakly_canonical`. -/
def weaklyCanonical (p : FsPath) : Except Errno FsPath :=
  (fs.exists_ p).bind fun found =>
    if found then fs.canonical p
    else
      (fs.existing ⟨p.absolute, []⟩ p.names).bind fun r =>
        (if r.1.isEmpty then .ok r.1 else fs.canonical r.1).map fun result =>
          (r.2.foldl (fun p n => p.append (.ofName n)) result).lexicallyNormal

/-- The place of the file that `open` with `O_CREAT` opens or creates for a path in `cur`: a link as
the last name is followed, and where it leads to nothing the file is created there. -/
def created : Nat → Place → FsPath → Except Errno Place
  | 0, _, _ => .error .loop
  | depth + 1, cur, p =>
    if p.filename.IsEntry then
      (fs.walk (if p.absolute then [] else cur) p.names.dropLast).bind fun dir =>
        if fs.isDirectoryAt dir then
          match fs.node (dir ++ [p.filename]) with
          | some (.symlink target) => created depth dir target
          | _ => .ok (dir ++ [p.filename])
        else .error .notdir
    else .error .notdir

/-- The place of the file that opening a path for writing opens or creates. -/
def opened (p : FsPath) : Except Errno Place := fs.created (fs.nodes.length + 1) fs.cwd p

/-! ## Places -/

section Places

variable {fs} {place : Place} {n : FileName}

@[simp] theorem node_root : fs.node [] = some .directory := rfl

theorem isDirectoryAt_iff : fs.isDirectoryAt place = true ↔ fs.node place = some .directory := by
  unfold isDirectoryAt
  cases h : fs.node place with
  | none => simp
  | some node => cases node <;> simp [Node.isDirectory]

theorem mem_nodes {node : Node φ} (h : fs.node (place ++ [n]) = some node) :
    (place ++ [n], node) ∈ fs.nodes := by
  simp only [FileSystem.node, Node.lookup, List.append_eq_nil_iff, List.cons_ne_nil, and_false,
    if_false] at h
  obtain ⟨e, he, rfl⟩ := Option.map_eq_some_iff.mp h
  have hplace : e.1 = place ++ [n] := by simpa using List.find?_some he
  rw [← hplace]
  exact List.mem_of_find?_eq_some he

/-- What holds a node is a directory. -/
theorem node_dropLast {node : Node φ} (h : fs.node place = some node) :
    fs.node place.dropLast = some .directory := by
  rcases List.eq_nil_or_concat place with rfl | ⟨init, n, rfl⟩
  · rfl
  · rw [List.concat_eq_append] at h ⊢
    have hdir := (fs.tree _ (mem_nodes h)).2
    exact isDirectoryAt_iff.mp hdir

/-- What is somewhere is in a directory. -/
theorem node_parent {node : Node φ} (h : fs.node (place ++ [n]) = some node) :
    fs.node place = some .directory := by
  have hdir := node_dropLast h
  rwa [List.dropLast_concat] at hdir

/-- The names on the way to a node are proper. -/
theorem isEntry_of_node {node : Node φ} (h : fs.node place = some node) :
    ∀ n ∈ place, n.IsEntry := by
  rcases List.eq_nil_or_concat place with rfl | ⟨init, n, rfl⟩
  · simp
  · rw [List.concat_eq_append] at h ⊢
    exact (fs.tree _ (mem_nodes h)).1

/-- Something is there, and it is not a link. -/
def Solid (fs : FileSystem φ) (place : Place) : Prop :=
  ∃ node, fs.node place = some node ∧ node.isSymlink = false

/-- The way to a directory leads through directories only. -/
theorem solid_of_directory (h : fs.node place = some .directory) : fs.Solid place :=
  ⟨.directory, h, rfl⟩

/-- No link is on the way to such a place. -/
theorem Solid.above (h : fs.Solid place) {above : Place} (hpre : above <+: place) :
    fs.Solid above := by
  induction place using List.reverseRecOn with
  | nil => rwa [List.prefix_nil.mp hpre]
  | append_singleton place n ih =>
      rcases List.prefix_concat_iff.mp hpre with rfl | hpre
      · exact h
      · obtain ⟨node, hnode, _⟩ := h
        have hdir := node_parent hnode
        exact ih (solid_of_directory hdir) hpre

end Places

/-! ## Walks -/

section Walks

variable {fs} {follow : Place → FsPath → Except Errno Place} {cur place : Place} {n : FileName}

/-- A walk along two pieces is one walk after the other. -/
theorem walkWith_append (ns ms : List FileName) :
    fs.walkWith follow cur (ns ++ ms) =
      (fs.walkWith follow cur ns).bind fun place => fs.walkWith follow place ms := by
  induction ns generalizing cur with
  | nil => rfl
  | cons n ns ih =>
      simp only [List.cons_append, walkWith, ih]
      split
      · split
        · rfl
        · split
          · rfl
          · cases hn : fs.node (cur ++ [n]) with
            | none => rfl
            | some node =>
                cases node with
                | symlink target =>
                    dsimp only
                    cases follow cur target with
                    | error e => rfl
                    | ok next => rfl
                | directory => rfl
                | regular file => rfl
                | special => rfl
      · rfl

/-- Walks begin and end where something is, and links do not remain. -/
theorem walkWith_solid (hfollow : ∀ cur target place, fs.node cur = some .directory →
      follow cur target = .ok place → fs.Solid place) {ns : List FileName} (hcur : fs.Solid cur)
    (h : fs.walkWith follow cur ns = .ok place) : fs.Solid place := by
  induction ns generalizing cur with
  | nil =>
      obtain rfl : cur = place := Except.ok.inj h
      exact hcur
  | cons n ns ih =>
      unfold walkWith at h
      split at h
      · next hdir =>
          rw [isDirectoryAt_iff] at hdir
          split at h
          · exact ih hcur h
          · split at h
            · exact ih (solid_of_directory (node_dropLast hdir)) h
            · split at h
              · cases h
              · next target hn =>
                  obtain ⟨next, hf, h⟩ := Results.bind_eq_ok.mp h
                  exact ih (hfollow cur target next hdir hf) h
              · next node hlink hn =>
                  refine ih ⟨node, hn, ?_⟩ h
                  cases node with
                  | symlink target => exact absurd rfl (hlink target)
                  | directory => rfl
                  | regular file => rfl
                  | special => rfl
      · cases h

/-- A link leads to a solid place. -/
theorem follow_solid (depth : Nat) (target : FsPath) (hcur : fs.node cur = some .directory)
    (h : fs.follow depth cur target = .ok place) : fs.Solid place := by
  induction depth generalizing cur target place with
  | zero => cases h
  | succ depth ih =>
      unfold FileSystem.follow at h
      split at h
      · cases h
      · refine walkWith_solid (fun cur target place hcur hf => ih target hcur hf) ?_ h
        split
        · exact solid_of_directory rfl
        · exact solid_of_directory hcur

/-- So does every path. -/
theorem walk_solid {ns : List FileName} (hcur : fs.Solid cur) (h : fs.walk cur ns = .ok place) :
    fs.Solid place :=
  walkWith_solid (fun _ target _ hcur hf => follow_solid _ target hcur hf) hcur h

theorem node_cwd : fs.node fs.cwd = some .directory := isDirectoryAt_iff.mp fs.cwdDirectory

theorem start_solid (p : FsPath) : fs.Solid (fs.start p) := by
  unfold start
  split
  · exact solid_of_directory rfl
  · exact solid_of_directory node_cwd

/-- A path that leads somewhere leads to a solid place. -/
theorem resolve_solid {p : FsPath} (h : fs.resolve p = .ok place) : fs.Solid place := by
  unfold resolve at h
  split at h
  · cases h
  · exact walk_solid (start_solid p) h

/-- A path is walked piece by piece. -/
theorem walk_append (ns ms : List FileName) :
    fs.walk cur (ns ++ ms) = (fs.walk cur ns).bind fun place => fs.walk place ms :=
  walkWith_append ns ms

/-- One name from a directory. -/
theorem walk_entry (hcur : fs.node cur = some .directory) (hn : n.IsEntry)
    (hsolid : fs.Solid (cur ++ [n])) : fs.walk cur [n] = .ok (cur ++ [n]) := by
  obtain ⟨node, hnode, hlink⟩ := hsolid
  have hdir : fs.isDirectoryAt cur = true := isDirectoryAt_iff.mpr hcur
  simp only [walk, walkWith, hdir, hn.1, hn.2.1, hn.2.2, or_self, if_true, if_false, hnode]
  cases node with
  | symlink target => cases hlink
  | directory => rfl
  | regular file => rfl
  | special => rfl

/-- The names of a place without links on the way lead to it. -/
theorem walk_self (h : fs.Solid place) : fs.walk [] place = .ok place := by
  induction place using List.reverseRecOn with
  | nil => rfl
  | append_singleton place n ih =>
      obtain ⟨node, hnode, _⟩ := id h
      have hdir := node_parent hnode
      rw [walk_append, ih (solid_of_directory hdir)]
      exact walk_entry hdir (isEntry_of_node hnode n (by simp)) h

/-- A solid place is where its own path leads to. -/
theorem resolve_self (h : fs.Solid place) : fs.resolve ⟨true, place⟩ = .ok place := by
  simp only [resolve, FsPath.isEmpty, Bool.not_true, Bool.false_and, Bool.false_eq_true, if_false,
    start, if_true]
  exact walk_self h

/-- The directory a path names a file in, the working directory when it gives none. -/
theorem resolve_parent (p : FsPath) :
    fs.resolve (if p.parentPath.isEmpty then fs.currentPath else p.parentPath) =
      fs.walk (fs.start p) p.names.dropLast := by
  by_cases hempty : p.parentPath.isEmpty = true
  · rw [if_pos hempty, currentPath, resolve_self (solid_of_directory node_cwd)]
    simp only [FsPath.isEmpty, FsPath.parentPath, Bool.and_eq_true, Bool.not_eq_true',
      List.isEmpty_iff] at hempty
    rw [hempty.2, start, hempty.1]
    rfl
  · rw [if_neg hempty, resolve, if_neg hempty]
    rfl

end Walks

/-! ## Paths through a directory -/

/-- The path leads to this place, and has no slash left over. -/
structure LeadsTo (fs : FileSystem φ) (d : FsPath) (place : Place) : Prop where
  resolves : fs.resolve d = .ok place
  proper : .empty ∉ d.names

section LeadsTo

variable {fs} {d p q : FsPath} {place : Place} {n : FileName}

/-- The empty path leads nowhere. -/
theorem nonempty_of_resolve (h : fs.resolve p = .ok place) : p.isEmpty = false := by
  unfold resolve at h
  split at h
  · cases h
  · next hempty => simpa using hempty

theorem walk_of_resolve (h : fs.resolve p = .ok place) :
    fs.walk (fs.start p) p.names = .ok place := by
  rw [resolve, nonempty_of_resolve h] at h
  exact h

/-- Names after a path are walked from where the path leads. -/
theorem resolve_append (h : fs.resolve d = .ok place) (ns : List FileName) :
    fs.resolve { d with names := d.names ++ ns } = fs.walk place ns := by
  have hempty : ({ d with names := d.names ++ ns } : FsPath).isEmpty = false := by
    have hd := nonempty_of_resolve h
    simp only [FsPath.isEmpty, Bool.and_eq_false_iff, Bool.not_eq_false', List.isEmpty_eq_false_iff]
      at hd ⊢
    exact hd.imp_right fun hne => List.append_ne_nil_of_left_ne_nil hne ns
  have hstart : fs.start { d with names := d.names ++ ns } = fs.start d := rfl
  rw [resolve, hempty, hstart]
  simp only [Bool.false_eq_true, if_false]
  rw [walk_append, walk_of_resolve h]
  rfl

/-- What a path is found to be depends on where it leads only. -/
theorem status_congr (h : fs.resolve p = fs.resolve q) : fs.status p = fs.status q := by
  rw [status, status, h]

theorem isEntry_of_mem_entries (h : n ∈ fs.entries place) : n.IsEntry := by
  obtain ⟨e, he, hn⟩ := List.mem_filterMap.mp h
  split at hn
  · exact (fs.tree e he).1 n (List.mem_of_getLast? hn)
  · cases hn

/-- A path that does not end in the name of an entry leads to a directory. -/
theorem directory_of_not_entry (hn : ¬ p.filename.IsEntry) (h : fs.resolve p = .ok place) :
    fs.node place = some .directory := by
  have hwalk := walk_of_resolve h
  rcases List.eq_nil_or_concat p.names with hnil | ⟨ns, n, hnames⟩
  · rw [hnil] at hwalk
    obtain rfl : fs.start p = place := Except.ok.inj hwalk
    unfold start
    split
    · rfl
    · exact node_cwd
  · rw [List.concat_eq_append] at hnames
    have hfilename : p.filename = n := by simp [FsPath.filename, hnames]
    rw [hfilename] at hn
    rw [hnames, walk_append] at hwalk
    obtain ⟨dir, _, hwalk⟩ := Results.bind_eq_ok.mp hwalk
    unfold walk walkWith at hwalk
    split at hwalk
    · next hisDir =>
        rw [isDirectoryAt_iff] at hisDir
        split at hwalk
        · obtain rfl : dir = place := Except.ok.inj hwalk
          exact hisDir
        · next hdot =>
            have hdotDot : n = .dotDot := by
              by_contra hne
              exact hn ⟨fun heq => hdot (.inl heq), fun heq => hdot (.inr heq), hne⟩
            rw [if_pos hdotDot] at hwalk
            obtain rfl : dir.dropLast = place := Except.ok.inj hwalk
            exact node_dropLast hisDir
    · cases hwalk

/-- What is found without following the last name is in the directory of the path. -/
theorem lstat_eq_ok_iff {node : Node φ} (hn : p.filename.IsEntry) : fs.lstat p = .ok node ↔
    ∃ dir, fs.walk (fs.start p) p.names.dropLast = .ok dir ∧
      fs.node (dir ++ [p.filename]) = some node := by
  rw [lstat, if_pos hn, Results.bind_eq_ok]
  constructor
  · rintro ⟨dir, hdir, h⟩
    split at h
    · cases hnode : fs.node (dir ++ [p.filename]) with
      | none => simp [hnode] at h
      | some found =>
          rw [hnode] at h
          exact ⟨dir, hdir, hnode.trans (congrArg some (Except.ok.inj h))⟩
    · cases h
  · rintro ⟨dir, hdir, hnode⟩
    have hparent := node_parent hnode
    refine ⟨dir, hdir, ?_⟩
    rw [if_pos (isDirectoryAt_iff.mpr hparent), hnode]
    rfl

/-- A regular file that is not reached through a link as the last name: the directory it is in. -/
theorem exists_of_lstat_regular {file : φ} (hlstat : fs.lstat p = .ok (.regular file))
    (h : fs.resolve p = .ok place) : ∃ dir n, p.names = p.names.dropLast ++ [n] ∧ n.IsEntry ∧
      fs.walk (fs.start p) p.names.dropLast = .ok dir ∧ place = dir ++ [n] ∧
        fs.node place = some (.regular file) := by
  by_cases hn : p.filename.IsEntry
  · obtain ⟨dir, hdir, hnode⟩ := (lstat_eq_ok_iff hn).mp hlstat
    have hnames := FsPath.names_eq_of_entry hn
    have hparent := node_parent hnode
    have hwalk := walk_of_resolve h
    rw [← hnames, walk_append, hdir] at hwalk
    have hentry := walk_entry hparent hn ⟨_, hnode, rfl⟩
    obtain rfl : dir ++ [p.filename] = place := Except.ok.inj (hentry.symm.trans hwalk)
    exact ⟨dir, p.filename, hnames.symm, hn, hdir, rfl, hnode⟩
  · have hdir := directory_of_not_entry hn h
    rw [lstat, if_neg hn, stat, h] at hlstat
    simp [Except.bind, hdir] at hlstat

end LeadsTo

/-! ## Canonical paths -/

section Canonical

variable {fs} {p d : FsPath}

/-- The canonical path is the absolute path of the place. -/
theorem canonical_eq_ok : fs.canonical p = .ok d ↔ ∃ place, fs.resolve p = .ok place ∧
    d = ⟨true, place⟩ := by
  rw [canonical, Results.map_eq_ok]
  constructor
  · rintro ⟨place, hplace, rfl⟩
    exact ⟨place, hplace, rfl⟩
  · rintro ⟨place, hplace, rfl⟩
    exact ⟨place, hplace, rfl⟩

theorem canonical_names (h : fs.canonical p = .ok d) : d.names ≠ [.empty] := by
  obtain ⟨place, hplace, rfl⟩ := canonical_eq_ok.mp h
  obtain ⟨node, hnode, _⟩ := resolve_solid hplace
  intro heq
  obtain rfl : place = [.empty] := heq
  exact (isEntry_of_node hnode .empty (List.mem_singleton_self _)).1 rfl

/-- A path that leads somewhere exists. -/
theorem exists_of_resolve {place : Place} (h : fs.resolve p = .ok place) :
    fs.exists_ p = .ok true := by
  obtain ⟨node, hnode, _⟩ := resolve_solid h
  simp [exists_, status, h, hnode, Except.map]

/-- A path that leads to something is canonicalised. -/
theorem weaklyCanonical_of_exists (h : fs.exists_ p = .ok true) :
    fs.weaklyCanonical p = fs.canonical p := by
  simp [weaklyCanonical, h, Except.bind]

theorem weaklyCanonical_names (h : fs.weaklyCanonical p = .ok d) : d.names ≠ [.empty] := by
  obtain ⟨found, _, h⟩ := Results.bind_eq_ok.mp h
  split at h
  · exact canonical_names h
  · obtain ⟨r, _, h⟩ := Results.bind_eq_ok.mp h
    obtain ⟨result, _, rfl⟩ := Results.map_eq_ok.mp h
    exact FsPath.lexicallyNormal_names _

theorem existing_absolute {result : FsPath × List FileName} {ns : List FileName}
    (hp : p.absolute = true) (h : fs.existing p ns = .ok result) : result.1.absolute = true := by
  induction ns generalizing p with
  | nil =>
      obtain rfl := Except.ok.inj h
      exact hp
  | cons n ns ih =>
      obtain ⟨found, _, h⟩ := Results.bind_eq_ok.mp h
      split at h
      · exact ih (FsPath.append_absolute hp n) h
      · obtain rfl := Except.ok.inj h
        exact hp

/-- The weakly canonical path of an absolute path, or of one that exists, is absolute. -/
theorem weaklyCanonical_absolute (hp : p.absolute = true ∨ fs.exists_ p = .ok true)
    (h : fs.weaklyCanonical p = .ok d) : d.absolute = true := by
  have hcanonical : ∀ {q : FsPath}, fs.canonical q = .ok d → d.absolute = true := by
    intro q hq
    obtain ⟨place, _, rfl⟩ := canonical_eq_ok.mp hq
    rfl
  rcases hp with hp | hex
  · obtain ⟨found, _, h⟩ := Results.bind_eq_ok.mp h
    split at h
    · exact hcanonical h
    · obtain ⟨r, hr, h⟩ := Results.bind_eq_ok.mp h
      obtain ⟨result, hresult, rfl⟩ := Results.map_eq_ok.mp h
      have habs : r.1.absolute = true := existing_absolute (p := ⟨p.absolute, []⟩) hp hr
      rw [FsPath.isEmpty, habs] at hresult
      obtain ⟨place, _, rfl⟩ := canonical_eq_ok.mp hresult
      rw [FsPath.lexicallyNormal_absolute]
      exact FsPath.foldl_append_absolute rfl r.2
  · rw [weaklyCanonical_of_exists hex] at h
    exact hcanonical h

end Canonical

end FileSystem
