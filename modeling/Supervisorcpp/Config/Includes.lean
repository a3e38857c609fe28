/-
# Included files

What `parse_file` does on a tree of included files, for every graph that the `[include]` sections
draw: it ends, it parses each file once and none deeper than the limit, or it throws. The programs
it collects are those of the files visited, so that their names are distinct only where no two files
define a program of the same name.

The visits are described without the parser (`visitAt`): an address is the list of positions of the
includes that are followed from the main file.

The parser threads one `Configuration` through all files, so what a file adds is described as a step
from one configuration to a later one (`Traversed`, `Collected`), and a list of files is their
composition.
-/
import Supervisorcpp.Config.Parser
import Supervisorcpp.Lib.Results

namespace Supervisorcpp

open Bytes (ascii)

/-! ## Visits -/

/-- The tree of a file, where it can be read. -/
def fileTree (h : Host) (file : FsPath) : Option Ptree :=
  (openFile h file).bind fun contents => (readTree h contents).toOption

/-- The files that a pattern leads to. -/
def globbed (h : Host) (baseDir : FsPath) (pattern : Bytes) : List FsPath :=
  (expandGlob h.fs baseDir pattern).toOption.getD []

/-- The files that the `[include]` section of a tree leads to from a directory. -/
def includedFiles (h : Host) (tree : Ptree) (baseDir : FsPath) : List FsPath :=
  match tree.getChildOptional [ascii "include"] with
  | none => []
  | some section_ =>
    if baseDir.isEmpty then [] else (includePatterns section_).flatMap (globbed h baseDir)

/-- The files that a file includes, in order. -/
def followed (h : Host) (file : FsPath) : List FsPath :=
  match fileTree h file with
  | none => []
  | some tree => includedFiles h tree file.parentPath

/-- The file at an address: follow these includes. -/
def visitAt (h : Host) : List Nat → FsPath → Option FsPath
  | [], file => some file
  | i :: address, file => (followed h file)[i]?.bind (visitAt h address)

/-- The text of the canonical path of a file. -/
def canonicalText (h : Host) (file : FsPath) : Option Bytes :=
  (h.fs.canonical file).toOption.map FsPath.text

/-- The names of the programs a tree defines. -/
def programNames (tree : Ptree) : List String :=
  (tree.children.filter fun child => isProgramKey child.1).map fun child => latin (child.1.drop 8)

/-! ## What a parse has done -/

section Steps

variable {h : Host} {single : FsPath → Nat → ParsedConfiguration → Parse ParsedConfiguration}
  {c c' : ParsedConfiguration} {tree : Ptree} {file baseDir : FsPath} {depth : Nat}

theorem lift_eq_ok {α : Type} {x : Except Exception α} {a : α} : lift x = .ok a ↔ x = .ok a :=
  Results.mapError_eq_ok

/-- A program is named after its section. -/
theorem parseProgram_name (key : Bytes) (value : Ptree) :
    Results.Returns (fun prog => prog.name = latin (key.drop 8)) (parseProgram h key value) := by
  unfold parseProgram
  refine Results.returns_bind fun command => ?_
  dsimp only
  split
  · exact Results.returns_error _
  · repeat refine Results.returns_bind fun _ => ?_
    exact Results.returns_ok rfl

/-- The loop over the sections adds the programs of the tree. -/
theorem foldlM_addProgram {children : List (Bytes × Ptree)}
    (hok : children.foldlM (addProgram h) c = .ok c') :
    ∃ progs, c' = { c with programs := c.programs ++ progs } ∧
      progs.map (·.name) = (children.filter fun child => isProgramKey child.1).map fun child =>
        latin (child.1.drop 8) := by
  induction children generalizing c with
  | nil =>
      obtain rfl := Except.ok.inj hok
      exact ⟨[], by simp, rfl⟩
  | cons child children ih =>
      rw [List.foldlM_cons] at hok
      obtain ⟨c₁, hadd, hok⟩ := Results.bind_eq_ok.mp hok
      obtain ⟨progs, rfl, hnames⟩ := ih hok
      unfold addProgram at hadd
      split at hadd
      · next hkey =>
          obtain ⟨prog, hprog, rfl⟩ := Results.map_eq_ok.mp hadd
          refine ⟨prog :: progs, by simp, ?_⟩
          rw [List.filter_cons, if_pos hkey, List.map_cons, List.map_cons, hnames,
            parseProgram_name child.1 child.2 prog hprog]
      · next hkey =>
          obtain rfl := Except.ok.inj hadd
          exact ⟨progs, rfl, by rw [List.filter_cons, if_neg hkey, hnames]⟩

/-- The two loops of `parse_includes_` are one loop over all files. -/
theorem parseIncludes_eq_ok {patterns : List Bytes}
    (hok : parseIncludes h single baseDir patterns depth c = .ok c') :
    (patterns.flatMap (globbed h baseDir)).foldlM (fun c f => single f depth c) c = .ok c' := by
  induction patterns generalizing c with
  | nil => exact hok
  | cons pattern patterns ih =>
      unfold parseIncludes at hok
      rw [List.foldlM_cons] at hok
      obtain ⟨c₁, hone, hok⟩ := Results.bind_eq_ok.mp hok
      obtain ⟨files, hglob, hfiles⟩ := Results.bind_eq_ok.mp hone
      have hglobbed : globbed h baseDir pattern = files := by
        rw [globbed, lift_eq_ok.mp hglob]
        rfl
      rw [List.flatMap_cons, List.foldlM_append, hglobbed]
      exact Results.bind_eq_ok.mpr ⟨c₁, hfiles, ih hok⟩

/-- Where an `[include]` section parses, all the files it finds have parsed. -/
theorem parseIncludeSection_eq_ok
    (hok : parseIncludeSection h single tree baseDir depth c = .ok c') :
    (includedFiles h tree baseDir).foldlM (fun c f => single f (depth + 1) c) c = .ok c' := by
  unfold parseIncludeSection at hok
  unfold includedFiles
  cases hsection : tree.getChildOptional [ascii "include"] with
  | none =>
      rw [hsection] at hok
      exact hok
  | some section_ =>
      rw [hsection] at hok
      dsimp only at hok ⊢
      by_cases hbase : baseDir.isEmpty = true
      · rw [if_pos hbase]
        rw [if_neg fun hand => by simp [hbase] at hand] at hok
        exact hok
      · rw [if_neg hbase]
        split at hok
        · exact parseIncludes_eq_ok hok
        · next hno =>
            have hnil : includePatterns section_ = [] := by
              by_contra hne
              exact hno ⟨hne, by simpa using hbase⟩
            rw [hnil]
            exact hok

/-- What has happened when the includes of a file are about to be parsed. -/
structure Opened (h : Host) (file : FsPath) (depth : Nat) (c : ParsedConfiguration) (t : Bytes)
    (tree : Ptree) (c₁ : ParsedConfiguration) : Prop where
  canonical : canonicalText h file = some t
  fresh : t ∉ c.included
  below : depth < maxDepth
  tree : fileTree h file = some tree
  included : c₁.included = t :: c.included
  parsed : c₁.parsed = (t, depth) :: c.parsed
  programs : c₁.programs = c.programs

/-- A file that passes the security check exists. -/
theorem exists_of_validateConfigFileSecurity {fs : Files} {uid : Nat}
    (hok : validateConfigFileSecurity fs uid file = .ok ()) : fs.exists_ file = .ok true := by
  unfold validateConfigFileSecurity at hok
  split at hok
  · cases hok
  · cases hok
  · assumption

/-- A stream that was parsed: its tree, the files it includes, and its programs. -/
theorem parseStream_eq_ok {stream : Option Bytes}
    (hok : parseStream h single stream baseDir depth c = .ok c') :
    ∃ contents tree server supervisord c₂ progs, stream = some contents ∧ depth < maxDepth ∧
      readTree h contents = .ok tree ∧
      (includedFiles h tree baseDir).foldlM (fun c f => single f (depth + 1) c)
        { c with unixHttpServer := server, supervisord := supervisord } = .ok c₂ ∧
      c' = { c₂ with programs := c₂.programs ++ progs } ∧
      progs.map (·.name) = programNames tree := by
  unfold parseStream at hok
  split at hok
  · cases hok
  · next contents =>
      split at hok
      · cases hok
      · next hdepth =>
          obtain ⟨tree, htree, hok⟩ := Results.bind_eq_ok.mp hok
          obtain ⟨supervisord, _, hok⟩ := Results.bind_eq_ok.mp hok
          obtain ⟨c₂, hincludes, hok⟩ := Results.bind_eq_ok.mp hok
          obtain ⟨progs, hc', hnames⟩ := foldlM_addProgram (lift_eq_ok.mp hok)
          exact ⟨contents, tree, _, supervisord, c₂, progs, rfl, Nat.not_le.mp hdepth,
            lift_eq_ok.mp htree, parseIncludeSection_eq_ok hincludes, hc', hnames⟩

/-- A file that was parsed: it was opened, the files it includes were parsed in order, and its
programs were added. -/
theorem parseSingleFile_eq_ok {fuel : Nat}
    (hok : parseSingleFile h (fuel + 1) file depth c = .ok c') :
    ∃ t tree c₁ c₂ progs, Opened h file depth c t tree c₁ ∧
      (followed h file).foldlM (fun c f => parseSingleFile h fuel f (depth + 1) c) c₁ = .ok c₂ ∧
      c' = { c₂ with programs := c₂.programs ++ progs } ∧
      progs.map (·.name) = programNames tree := by
  unfold parseSingleFile at hok
  obtain ⟨canonical, hcanonical, hok⟩ := Results.bind_eq_ok.mp hok
  split at hok
  · cases hok
  · next hfresh =>
      obtain ⟨_, hsecure, hok⟩ := Results.bind_eq_ok.mp hok
      have hexists := exists_of_validateConfigFileSecurity
        (Results.mapError_eq_ok.mp (lift_eq_ok.mp hsecure))
      obtain ⟨contents, tree, server, supervisord, c₂, progs, hopen, hdepth, htree, hfiles, hc',
        hnames⟩ := parseStream_eq_ok (Results.mapError_eq_ok.mp hok)
      have hfileTree : fileTree h file = some tree := by
        rw [fileTree, hopen, Option.bind_some, htree]
        rfl
      have hfollowed : followed h file = includedFiles h tree file.parentPath := by
        rw [followed, hfileTree]
      rw [← hfollowed] at hfiles
      refine ⟨canonical.text, tree, _, c₂, progs, ?_, hfiles, hc', hnames⟩
      refine ⟨?_, hfresh, hdepth, hfileTree, rfl, rfl, rfl⟩
      have hweak := Results.mapError_eq_ok.mp (lift_eq_ok.mp hcanonical)
      rw [FileSystem.weaklyCanonical_of_exists hexists] at hweak
      rw [canonicalText, hweak]
      rfl

/-- **Induction over a parse that succeeds**: over the files it parses, and over the lists of files
that they include. -/
theorem parse_induction {P : FsPath → Nat → ParsedConfiguration → ParsedConfiguration → Prop}
    {Q : List FsPath → Nat → ParsedConfiguration → ParsedConfiguration → Prop}
    (hnil : ∀ depth c, Q [] depth c c)
    (hcons : ∀ file files depth c c₁ c₂, P file depth c c₁ → Q files depth c₁ c₂ →
      Q (file :: files) depth c c₂)
    (hfile : ∀ file depth c t tree c₁ c₂ progs, Opened h file depth c t tree c₁ →
      Q (followed h file) (depth + 1) c₁ c₂ → progs.map (·.name) = programNames tree →
        P file depth c { c₂ with programs := c₂.programs ++ progs })
    (fuel : Nat) (hok : parseSingleFile h fuel file depth c = .ok c') : P file depth c c' := by
  induction fuel generalizing file depth c c' with
  | zero => cases hok
  | succ fuel ih =>
      obtain ⟨t, tree, c₁, c₂, progs, hopened, hfiles, rfl, hnames⟩ := parseSingleFile_eq_ok hok
      have hloop : ∀ files c c', files.foldlM
          (fun c f => parseSingleFile h fuel f (depth + 1) c) c = .ok c' →
            Q files (depth + 1) c c' := by
        intro files
        induction files with
        | nil =>
            intro c c' hfold
            obtain rfl := Except.ok.inj hfold
            exact hnil _ _
        | cons f files ihf =>
            intro c c' hfold
            rw [List.foldlM_cons] at hfold
            obtain ⟨c₁, hone, hrest⟩ := Results.bind_eq_ok.mp hfold
            exact hcons _ _ _ _ _ _ (ih hone) (ihf _ _ hrest)
      exact hfile _ _ _ _ _ _ _ _ hopened (hloop _ _ _ hfiles) hnames

end Steps

/-! ## Each file once -/

/-- The file at an address that begins in a list of files. -/
def visitIn (h : Host) (files : List FsPath) : List Nat → Option FsPath
  | [] => none
  | i :: address => files[i]?.bind (visitAt h address)

/-- A parse of the files at the addresses of `visit`: every one of them was new, no two of them are
the same, and they are what the parse has added. -/
structure Traversed (h : Host) (visit : List Nat → Option FsPath) (depthOf : List Nat → Nat)
    (c c' : ParsedConfiguration) : Prop where
  fresh : ∀ a q, visit a = some q → depthOf a < maxDepth ∧
    ∃ t, canonicalText h q = some t ∧ t ∉ c.included ∧ t ∈ c'.included
  kept : c.included ⊆ c'.included
  once : ∀ a a' q q' t, visit a = some q → visit a' = some q' → canonicalText h q = some t →
    canonicalText h q' = some t → a = a'
  parsed : ∀ t d, (t, d) ∈ c'.parsed ↔ (t, d) ∈ c.parsed ∨
    ∃ a q, visit a = some q ∧ canonicalText h q = some t ∧ depthOf a = d
  logged : c.parsed.map (·.1) = c.included → c'.parsed.map (·.1) = c'.included
  nodup : c.included.Nodup → c'.included.Nodup

section Traversed

variable {h : Host} {c c₁ c₂ : ParsedConfiguration} {file : FsPath} {files : List FsPath}
  {depth : Nat}

theorem visitIn_nil (a : List Nat) : visitIn h [] a = none := by
  cases a <;> rfl

/-- An address in a list begins in its head or in its tail. -/
theorem visitIn_cons {a : List Nat} {q : FsPath} (hvisit : visitIn h (file :: files) a = some q) :
    (∃ b, a = 0 :: b ∧ visitAt h b file = some q) ∨
      ∃ i b, a = (i + 1) :: b ∧ visitIn h files (i :: b) = some q := by
  cases a with
  | nil => cases hvisit
  | cons i b =>
      cases i with
      | zero => exact .inl ⟨b, rfl, hvisit⟩
      | succ i => exact .inr ⟨i, b, rfl, hvisit⟩

/-- Nothing is included. -/
theorem traversed_nil (h : Host) (depthOf : List Nat → Nat) (c : ParsedConfiguration) :
    Traversed h (visitIn h []) depthOf c c where
  fresh a q hvisit := by simp [visitIn_nil] at hvisit
  kept := List.Subset.refl _
  once a a' q q' t hvisit := by simp [visitIn_nil] at hvisit
  parsed t d := by simp [visitIn_nil]
  logged := id
  nodup := id

/-- A file, and then the others. -/
theorem traversed_cons
    (hfile : Traversed h (fun a => visitAt h a file) (fun a => depth + a.length) c c₁)
    (hfiles : Traversed h (visitIn h files) (fun a => depth + (a.length - 1)) c₁ c₂) :
    Traversed h (visitIn h (file :: files)) (fun a => depth + (a.length - 1)) c c₂ where
  fresh a q hvisit := by
    rcases visitIn_cons hvisit with ⟨b, rfl, hb⟩ | ⟨i, b, rfl, hb⟩
    · obtain ⟨hdepth, t, ht, hnew, hin⟩ := hfile.fresh b q hb
      exact ⟨hdepth, t, ht, hnew, hfiles.kept hin⟩
    · obtain ⟨hdepth, t, ht, hnew, hin⟩ := hfiles.fresh _ q hb
      exact ⟨hdepth, t, ht, fun hmem => hnew (hfile.kept hmem), hin⟩
  kept := List.Subset.trans hfile.kept hfiles.kept
  once a a' q q' t hvisit hvisit' ht ht' := by
    -- what the head has visited is not new to the tail
    have hacross : ∀ {b b' p p'}, visitAt h b file = some p → visitIn h files b' = some p' →
        canonicalText h p = some t → canonicalText h p' ≠ some t := by
      intro b b' p p' hp hp' hcanonical hcanonical'
      obtain ⟨_, t₁, ht₁, _, hin⟩ := hfile.fresh b p hp
      obtain ⟨_, t₂, ht₂, hnew, _⟩ := hfiles.fresh b' p' hp'
      rw [hcanonical] at ht₁
      rw [hcanonical'] at ht₂
      rw [← Option.some.inj ht₁] at hin
      rw [← Option.some.inj ht₂] at hnew
      exact hnew hin
    rcases visitIn_cons hvisit with ⟨b, rfl, hb⟩ | ⟨i, b, rfl, hb⟩ <;>
      rcases visitIn_cons hvisit' with ⟨b', rfl, hb'⟩ | ⟨i', b', rfl, hb'⟩
    · rw [hfile.once b b' q q' t hb hb' ht ht']
    · exact absurd ht' (hacross hb hb' ht)
    · exact absurd ht (hacross hb' hb ht')
    · obtain ⟨rfl, rfl⟩ := List.cons.inj (hfiles.once _ _ q q' t hb hb' ht ht')
      rfl
  parsed t d := by
    rw [hfiles.parsed, hfile.parsed]
    constructor
    · rintro ((hmem | ⟨b, q, hb, ht, hd⟩) | ⟨b, q, hb, ht, hd⟩)
      · exact .inl hmem
      · exact .inr ⟨0 :: b, q, hb, ht, hd⟩
      · cases b with
        | nil => cases hb
        | cons i b => exact .inr ⟨(i + 1) :: b, q, hb, ht, hd⟩
    · rintro (hmem | ⟨a, q, hvisit, ht, hd⟩)
      · exact .inl (.inl hmem)
      · rcases visitIn_cons hvisit with ⟨b, rfl, hb⟩ | ⟨i, b, rfl, hb⟩
        · exact .inl (.inr ⟨b, q, hb, ht, hd⟩)
        · exact .inr ⟨i :: b, q, hb, ht, hd⟩
  logged hlog := hfiles.logged (hfile.logged hlog)
  nodup hnodup := hfiles.nodup (hfile.nodup hnodup)

/-- A file: it is entered, and then what it includes is. -/
theorem traversed_file {t : Bytes} {tree : Ptree} (hopened : Opened h file depth c t tree c₁)
    (hfiles : Traversed h (visitIn h (followed h file)) (fun a => depth + 1 + (a.length - 1)) c₁ c₂)
    (programs : List ProgramConfig) :
    Traversed h (fun a => visitAt h a file) (fun a => depth + a.length) c
      { c₂ with programs := programs } where
  fresh a q hvisit := by
    cases a with
    | nil =>
        obtain rfl := Option.some.inj hvisit
        refine ⟨hopened.below, t, hopened.canonical, hopened.fresh, hfiles.kept ?_⟩
        rw [hopened.included]
        exact List.mem_cons_self
    | cons i b =>
        obtain ⟨hdepth, t', ht', hnew, hin⟩ := hfiles.fresh (i :: b) q hvisit
        rw [hopened.included, List.mem_cons, not_or] at hnew
        refine ⟨?_, t', ht', hnew.2, hin⟩
        simp only [List.length_cons] at hdepth ⊢
        omega
  kept := by
    intro t' hmem
    apply hfiles.kept
    rw [hopened.included]
    exact List.mem_cons_of_mem _ hmem
  once a a' q q' t' hvisit hvisit' ht ht' := by
    -- the file itself is not new to its includes
    have hbelow : ∀ {i b p}, visitAt h (i :: b) file = some p → canonicalText h p ≠ some t := by
      intro i b p hp hcanonical
      obtain ⟨_, t₁, ht₁, hnew, _⟩ := hfiles.fresh (i :: b) p hp
      rw [hcanonical] at ht₁
      rw [← Option.some.inj ht₁, hopened.included] at hnew
      exact hnew List.mem_cons_self
    cases a with
    | nil =>
        obtain rfl := Option.some.inj hvisit
        obtain rfl := Option.some.inj (hopened.canonical.symm.trans ht)
        cases a' with
        | nil => rfl
        | cons i b => exact absurd ht' (hbelow hvisit')
    | cons i b =>
        cases a' with
        | nil =>
            obtain rfl := Option.some.inj hvisit'
            obtain rfl := Option.some.inj (hopened.canonical.symm.trans ht')
            exact absurd ht (hbelow hvisit)
        | cons i' b' => exact hfiles.once _ _ q q' t' hvisit hvisit' ht ht'
  parsed t' d := by
    show (t', d) ∈ c₂.parsed ↔ _
    rw [hfiles.parsed, hopened.parsed, List.mem_cons]
    constructor
    · rintro ((heq | hmem) | ⟨b, q, hb, ht', hd⟩)
      · obtain ⟨rfl, rfl⟩ := Prod.mk.inj heq
        exact .inr ⟨[], file, rfl, hopened.canonical, rfl⟩
      · exact .inl hmem
      · cases b with
        | nil => cases hb
        | cons i b =>
            refine .inr ⟨i :: b, q, hb, ht', ?_⟩
            simp only [List.length_cons] at hd ⊢
            omega
    · rintro (hmem | ⟨a, q, hvisit, ht', hd⟩)
      · exact .inl (.inr hmem)
      · cases a with
        | nil =>
            obtain rfl := Option.some.inj hvisit
            obtain rfl := Option.some.inj (hopened.canonical.symm.trans ht')
            exact .inl (.inl (by rw [← hd]; rfl))
        | cons i b =>
            refine .inr ⟨i :: b, q, hvisit, ht', ?_⟩
            simp only [List.length_cons] at hd ⊢
            omega
  logged hlog := by
    apply hfiles.logged
    rw [hopened.parsed, hopened.included, List.map_cons, hlog]
  nodup hnodup := by
    apply hfiles.nodup
    rw [hopened.included]
    exact List.nodup_cons.mpr ⟨hopened.fresh, hnodup⟩

/-- What a parse of a file that succeeds has visited. -/
theorem traversed_of_parse {c' : ParsedConfiguration} (fuel : Nat)
    (hok : parseSingleFile h fuel file depth c = .ok c') :
    Traversed h (fun a => visitAt h a file) (fun a => depth + a.length) c c' :=
  parse_induction
    (P := fun file depth c c' =>
      Traversed h (fun a => visitAt h a file) (fun a => depth + a.length) c c')
    (Q := fun files depth c c' =>
      Traversed h (visitIn h files) (fun a => depth + (a.length - 1)) c c')
    (fun _ c => traversed_nil h _ c)
    (fun _ _ _ _ _ _ hfile hfiles => traversed_cons hfile hfiles)
    (fun _ _ _ _ _ _ _ _ hopened hfiles _ => traversed_file hopened hfiles _)
    fuel hok

end Traversed

/-! ## Termination -/

/-- The fuel that a file at this depth needs. -/
def Enough (fuel depth : Nat) : Prop := 0 < fuel ∧ maxDepth < fuel + depth

/-- Fuel that is enough for a file is enough for what it includes. -/
theorem Enough.pred {fuel depth : Nat} (h : Enough (fuel + 1) depth) (hdepth : depth < maxDepth) :
    Enough fuel (depth + 1) := by
  unfold Enough at *
  omega

section Fuel

variable {h : Host} {c : ParsedConfiguration} {file baseDir : FsPath} {depth : Nat} {tree : Ptree}
  {single single' : FsPath → Nat → ParsedConfiguration → Parse ParsedConfiguration}

/-- Only what happens one level deeper counts. -/
theorem parseIncludeSection_congr (h : Host) (tree : Ptree) (baseDir : FsPath)
    (c : ParsedConfiguration)
    (hsingle : ∀ file c, single file (depth + 1) c = single' file (depth + 1) c) :
    parseIncludeSection h single tree baseDir depth c =
      parseIncludeSection h single' tree baseDir depth c := by
  simp only [parseIncludeSection, parseIncludes, hsingle]

/-- Below the limit a stream looks at its includes one level down only, and at the limit not at
all. -/
theorem parseStream_congr (h : Host) (stream : Option Bytes) (baseDir : FsPath)
    (c : ParsedConfiguration) (hsingle : depth < maxDepth →
      ∀ file c, single file (depth + 1) c = single' file (depth + 1) c) :
    parseStream h single stream baseDir depth c = parseStream h single' stream baseDir depth c := by
  unfold parseStream
  split
  · rfl
  · split
    · rfl
    · next hdepth =>
        have hsection := fun tree c =>
          parseIncludeSection_congr h tree baseDir c (hsingle (Nat.not_le.mp hdepth))
        simp only [hsection]

/-- More fuel than enough makes no difference. -/
theorem parseSingleFile_succ {fuel : Nat} (henough : Enough fuel depth) :
    parseSingleFile h (fuel + 1) file depth c = parseSingleFile h fuel file depth c := by
  induction fuel generalizing file depth c with
  | zero => exact absurd henough.1 (Nat.lt_irrefl 0)
  | succ fuel ih =>
      rw [parseSingleFile, parseSingleFile]
      have hstream : ∀ stream c,
          parseStream h (parseSingleFile h (fuel + 1)) stream file.parentPath depth c =
            parseStream h (parseSingleFile h fuel) stream file.parentPath depth c :=
        fun stream c => parseStream_congr h stream file.parentPath c
          fun hdepth _ _ => ih (henough.pred hdepth)
      simp only [hstream]

/-- More fuel than enough makes no difference. -/
theorem parseSingleFile_fuel {fuel fuel' : Nat} (henough : Enough fuel depth) (hle : fuel ≤ fuel') :
    parseSingleFile h fuel' file depth c = parseSingleFile h fuel file depth c := by
  induction fuel', hle using Nat.le_induction with
  | base => rfl
  | succ fuel' hle ih =>
      rw [parseSingleFile_succ ⟨Nat.lt_of_lt_of_le henough.1 hle, ?_⟩, ih]
      exact Nat.lt_of_lt_of_le henough.2 (Nat.add_le_add_right hle depth)

/-- The parser does not run out of fuel here. -/
def Finishes (x : Parse ParsedConfiguration) : Prop := Results.Throws (· ≠ .outOfFuel) x

theorem lift_throws {α : Type} (x : Except Exception α) :
    Results.Throws (· ≠ Stop.outOfFuel) (lift x) := by
  cases x with
  | error e => exact Results.throws_error fun heq => by cases heq
  | ok a => exact Results.throws_ok a

theorem parseIncludeSection_finishes
    (hsingle : ∀ file c, Finishes (single file (depth + 1) c)) :
    Finishes (parseIncludeSection h single tree baseDir depth c) := by
  unfold parseIncludeSection
  split
  · exact Results.throws_ok c
  · split
    · refine Results.Throws.foldlM (fun c pattern => ?_) _ _
      refine (lift_throws _).bind fun files _ => ?_
      exact Results.Throws.foldlM (fun c file => hsingle file c) files c
    · exact Results.throws_ok c

theorem parseStream_finishes (stream : Option Bytes)
    (hsingle : depth < maxDepth → ∀ file c, Finishes (single file (depth + 1) c)) :
    Finishes (parseStream h single stream baseDir depth c) := by
  unfold parseStream
  split
  · exact Results.throws_error fun heq => by cases heq
  · split
    · exact Results.throws_error fun heq => by cases heq
    · next hdepth =>
        refine (lift_throws _).bind fun tree _ => ?_
        refine (lift_throws _).bind fun supervisord _ => ?_
        refine (parseIncludeSection_finishes (hsingle (Nat.not_le.mp hdepth))).bind fun c _ => ?_
        exact lift_throws _

/-- With enough fuel the parse of a file does not run out of it. -/
theorem parseSingleFile_finishes {fuel : Nat} (henough : Enough fuel depth) :
    Finishes (parseSingleFile h fuel file depth c) := by
  induction fuel generalizing file depth c with
  | zero => exact absurd henough.1 (Nat.lt_irrefl 0)
  | succ fuel ih =>
      unfold parseSingleFile
      refine (lift_throws _).bind fun canonical _ => ?_
      split
      · exact Results.throws_error fun heq => by cases heq
      · refine (lift_throws _).bind fun _ _ => ?_
        refine (parseStream_finishes _ fun hdepth file c =>
          ih (henough.pred hdepth)).mapError fun stop hstop => ?_
        unfold fileError
        split <;> simp_all

end Fuel

/-! ## Errors -/

/-- A `ConfigParseError`. -/
def IsParseError (s : Stop) : Prop := ∃ what, s = .thrown (.configParseError what)

section Errors

variable {h : Host} {c : ParsedConfiguration} {file : FsPath} {depth : Nat}

theorem throws_parseError {α : Type} (what : Bytes) :
    Results.Throws IsParseError (throwParseError what : Parse α) :=
  Results.throws_error ⟨what, rfl⟩

/-- What leaves the parse of a file is a parse error. -/
theorem fileError_isParseError {s : Stop} (hs : s ≠ .outOfFuel) :
    IsParseError (fileError file s) := by
  unfold fileError
  split
  · exact absurd rfl hs
  · exact ⟨_, rfl⟩
  · exact ⟨_, rfl⟩
  · exact ⟨_, rfl⟩

/-- The check of a file that is there only throws a `SecurityError`. -/
theorem validateConfigFileSecurity_throws {fs : Files} {uid : Nat}
    (hexists : fs.exists_ file = .ok true) :
    Results.Throws (fun e => ∃ what, e = .securityError what)
      (validateConfigFileSecurity fs uid file) := by
  unfold validateConfigFileSecurity
  rw [hexists]
  dsimp only
  split
  · exact Results.throws_error ⟨_, rfl⟩
  · split
    · exact Results.throws_error ⟨_, rfl⟩
    · split
      · exact Results.throws_error ⟨_, rfl⟩
      · exact Results.throws_ok ()
  · exact Results.throws_error ⟨_, rfl⟩

theorem weaklyCanonical_of_exists (hexists : h.fs.exists_ file = .ok true) :
    ∃ r, weaklyCanonical h.fs file = .ok r := by
  obtain ⟨node, hstatus, hsome⟩ := Results.map_eq_ok.mp hexists
  unfold FileSystem.status at hstatus
  cases hres : h.fs.resolve file with
  | ok place =>
      refine ⟨⟨true, place⟩, Results.mapError_eq_ok.mpr ?_⟩
      rw [FileSystem.weaklyCanonical_of_exists hexists, FileSystem.canonical, hres]
      rfl
  | error e =>
      rw [hres] at hstatus
      cases e with
      | loop => cases hstatus
      | noent =>
          obtain rfl := Except.ok.inj hstatus
          cases hsome
      | notdir =>
          obtain rfl := Except.ok.inj hstatus
          cases hsome

/-- Whatever goes wrong in a file that is there, or in the files it includes, is thrown as a
`ConfigParseError`. -/
theorem parseSingleFile_throws {fuel : Nat} (henough : Enough fuel depth)
    (hexists : h.fs.exists_ file = .ok true) :
    Results.Throws IsParseError (parseSingleFile h fuel file depth c) := by
  obtain ⟨r, hr⟩ := weaklyCanonical_of_exists hexists
  cases fuel with
  | zero => exact absurd henough.1 (Nat.lt_irrefl 0)
  | succ fuel =>
      unfold parseSingleFile
      rw [hr]
      refine Results.Throws.bind (Results.throws_ok r) fun canonical _ => ?_
      split
      · exact throws_parseError _
      · refine Results.Throws.bind ?_ fun _ _ => ?_
        · unfold lift rethrowSecurity
          refine ((validateConfigFileSecurity_throws hexists).mapError
            (Q := fun e => ∃ what, e = .configParseError what) ?_).mapError ?_
          · rintro _ ⟨what, rfl⟩
            exact ⟨_, rfl⟩
          · rintro _ ⟨what, rfl⟩
            exact ⟨what, rfl⟩
        · have hstream : Finishes (parseStream h (parseSingleFile h fuel) (openFile h file)
              file.parentPath depth { c with
                included := canonical.text :: c.included
                parsed := (canonical.text, depth) :: c.parsed }) :=
            parseStream_finishes _ fun hdepth file c => parseSingleFile_finishes (henough.pred hdepth)
          exact hstream.mapError fun s hs => fileError_isParseError hs

/-- What `validate_config_` throws is a parse error. -/
theorem validateConfig_throws (config : ParsedConfiguration) :
    Results.Throws IsParseError (lift (validateConfig config)) := by
  unfold validateConfig
  split
  · exact Results.throws_error ⟨_, rfl⟩
  · split
    · exact Results.throws_error ⟨_, rfl⟩
    · split
      · exact Results.throws_error ⟨_, rfl⟩
      · exact Results.throws_ok ()

theorem enough_maxDepth {fuel : Nat} (hfuel : maxDepth < fuel) : Enough fuel 0 :=
  ⟨Nat.zero_lt_of_lt hfuel, hfuel⟩

/-- Of a file that exists, whatever fails is reported as a parse error. -/
theorem parseFile_throws (hexists : h.fs.exists_ file = .ok true) :
    Results.Throws IsParseError (parseFile h file) := by
  obtain ⟨r, hr⟩ := weaklyCanonical_of_exists hexists
  unfold parseFile parseFileWith
  rw [hexists, hr]
  refine Results.Throws.bind (Results.throws_ok r) fun canonical _ => ?_
  refine (parseSingleFile_throws (enough_maxDepth (Nat.lt_succ_self _)) hexists).bind fun c _ => ?_
  exact (validateConfig_throws c).map _

/-- `parse_file` ends for every file and whatever it includes. -/
theorem parseFile_ne_outOfFuel : parseFile h file ≠ .error .outOfFuel := by
  intro hout
  cases hexists : h.fs.exists_ file with
  | error e => simp [parseFile, parseFileWith, hexists] at hout
  | ok found =>
      cases found with
      | false => simp [parseFile, parseFileWith, hexists, throwParseError] at hout
      | true =>
          obtain ⟨what, heq⟩ := parseFile_throws hexists _ hout
          cases heq

end Errors

/-! ## What a successful parse has parsed -/

section Parsed

variable {h : Host} {file : FsPath} {config : ParsedConfiguration}

/-- What a parse that succeeds has done on the way. -/
theorem parseFile_eq_ok (hok : parseFile h file = .ok config) :
    ∃ canonical, h.fs.exists_ file = .ok true ∧ weaklyCanonical h.fs file = .ok canonical ∧
      parseSingleFile h (maxDepth + 1) file 0
        { configFile := latin canonical.text, programs := [] } = .ok config := by
  unfold parseFile parseFileWith at hok
  split at hok
  · cases hok
  · cases hok
  · next hexists =>
      obtain ⟨canonical, hcanonical, hok⟩ := Results.bind_eq_ok.mp hok
      obtain ⟨c, hparse, hok⟩ := Results.bind_eq_ok.mp hok
      obtain ⟨_, _, rfl⟩ := Results.map_eq_ok.mp hok
      exact ⟨canonical, hexists, lift_eq_ok.mp hcanonical, hparse⟩

/-- Where something is included, the file is there. -/
theorem exists_of_visitAt {a : List Nat} {q : FsPath} (hne : a ≠ [])
    (hvisit : visitAt h a file = some q) : h.fs.exists_ file = .ok true := by
  have htree : fileTree h file ≠ none := by
    intro hnone
    have hnil : followed h file = [] := by rw [followed, hnone]
    cases a with
    | nil => exact hne rfl
    | cons i a => simp [visitAt, hnil] at hvisit
  have hopen : openFile h file ≠ none := by
    intro hnone
    exact htree (by rw [fileTree, hnone]; rfl)
  unfold openFile at hopen
  split at hopen
  · next data hstat =>
      obtain ⟨place, hplace, _⟩ := Results.bind_eq_ok.mp hstat
      exact FileSystem.exists_of_resolve hplace
  · exact absurd rfl hopen

end Parsed

/-- `/etc/s.ini` includes `/etc/a.conf`, and both define the program `web`; `/etc/loop.ini` includes
itself. -/
def twiceHost : Host where
  fs :=
    { nodes := [([.ofAscii "etc"], .directory), ([.ofAscii "bin"], .directory),
        ([.ofAscii "bin", .ofAscii "web"], .regular ⟨0, 0o755, []⟩),
        ([.ofAscii "etc", .ofAscii "s.ini"], .regular ⟨0, 0o644,
          ascii "[include]\nfiles=*.conf\n[program:web]\ncommand=/bin/web\n"⟩),
        ([.ofAscii "etc", .ofAscii "a.conf"], .regular ⟨0, 0o644,
          ascii "[program:web]\ncommand=/bin/web\n"⟩),
        ([.ofAscii "etc", .ofAscii "loop.ini"], .regular ⟨0, 0o644,
          ascii "[include]\nfiles=loop.ini\n"⟩)]
      cwd := [.ofAscii "etc"]
      distinct := by decide +kernel
      tree := by decide +kernel
      cwdDirectory := by decide +kernel }
  uid := 0
  logDirs := .ok []
  readIni text :=
    let web := (ascii "program:web", Ptree.node [] [(ascii "command", .node (ascii "/bin/web") [])])
    let include_ := fun files => (ascii "include", Ptree.node [] [(ascii "files", .node files [])])
    if text = ascii "[program:web]\ncommand=/bin/web\n" then .ok (.node [] [web])
    else if text = ascii "[include]\nfiles=*.conf\n[program:web]\ncommand=/bin/web\n" then
      .ok (.node [] [include_ (ascii "*.conf"), web])
    else if text = ascii "[include]\nfiles=loop.ini\n" then
      .ok (.node [] [include_ (ascii "loop.ini")])
    else .error (1, ascii "'=' character not found in line")

/-- The configuration of `twiceHost` has the program `web` twice. -/
theorem twiceHost_parses : ∃ config,
    parseFile twiceHost (.ofText (ascii "/etc/s.ini")) = .ok config ∧
      config.programs.map (·.name) = ["web", "web"] := by
  have hnames : (parseFile twiceHost (.ofText (ascii "/etc/s.ini"))).toOption.map
      (fun config => config.programs.map (·.name)) = some ["web", "web"] := by
    decide +kernel
  obtain ⟨config, hok, hweb⟩ := Option.map_eq_some_iff.mp hnames
  exact ⟨config, Results.toOption_eq_some.mp hok, hweb⟩

/-- **Every include graph is followed to an end.**  With more fuel than the depth limit asks for a
parse does not depend on it and does not run out of it. A parse that succeeds has parsed exactly the
files that following the includes visits, each once and at a depth below the limit. Where following
the includes visits a file twice, or reaches the limit, it throws a `ConfigParseError`. -/
theorem parseFile_visits_once (h : Host) (file : FsPath) :
    (∀ fuel, maxDepth < fuel →
      parseFileWith h fuel file = parseFile h file ∧ parseFileWith h fuel file ≠ .error .outOfFuel) ∧
    (∀ config, parseFile h file = .ok config →
      (config.parsed.map (·.1)).Nodup ∧ (∀ e ∈ config.parsed, e.2 < maxDepth) ∧
      ∀ t d, (t, d) ∈ config.parsed ↔
        ∃ a q, visitAt h a file = some q ∧ canonicalText h q = some t ∧ a.length = d) ∧
    ((∃ a a' q q' t, a ≠ a' ∧ visitAt h a file = some q ∧ visitAt h a' file = some q' ∧
        canonicalText h q = some t ∧ canonicalText h q' = some t) ∨
      (∃ a q, visitAt h a file = some q ∧ a.length = maxDepth) →
        ∃ what, parseFile h file = .error (.thrown (.configParseError what))) := by
  have htraversed : ∀ {config}, parseFile h file = .ok config → ∃ name,
      Traversed h (fun a => visitAt h a file) (fun a => 0 + a.length)
        { configFile := name, programs := [] } config := by
    intro config hok
    obtain ⟨canonical, _, _, hparse⟩ := parseFile_eq_ok hok
    exact ⟨_, traversed_of_parse _ hparse⟩
  refine ⟨?_, ?_, ?_⟩
  · intro fuel hfuel
    have hsame : parseFileWith h fuel file = parseFile h file := by
      unfold parseFile parseFileWith
      simp only [parseSingleFile_fuel (enough_maxDepth (Nat.lt_succ_self _)) hfuel]
    exact ⟨hsame, hsame ▸ parseFile_ne_outOfFuel⟩
  · intro config hok
    obtain ⟨name, hparse⟩ := htraversed hok
    refine ⟨?_, ?_, ?_⟩
    · rw [hparse.logged rfl]
      exact hparse.nodup List.nodup_nil
    · rintro ⟨t, d⟩ hmem
      rcases (hparse.parsed t d).mp hmem with hnil | ⟨a, q, hvisit, _, hd⟩
      · cases hnil
      · rw [← hd]
        exact (hparse.fresh a q hvisit).1
    · intro t d
      rw [hparse.parsed]
      simp
  · intro hbad
    have hexists : h.fs.exists_ file = .ok true := by
      rcases hbad with ⟨a, a', q, q', t, hne, hq, hq', _⟩ | ⟨a, q, hq, hlen⟩
      · by_cases ha : a = []
        · exact exists_of_visitAt (fun ha' => hne (ha.trans ha'.symm)) hq'
        · exact exists_of_visitAt ha hq
      · exact exists_of_visitAt (fun ha => by simp [ha, maxDepth] at hlen) hq
    cases hres : parseFile h file with
    | error s =>
        obtain ⟨what, rfl⟩ := parseFile_throws hexists s hres
        exact ⟨what, rfl⟩
    | ok config =>
        obtain ⟨name, hparse⟩ := htraversed hres
        rcases hbad with ⟨a, a', q, q', t, hne, hq, hq', ht, ht'⟩ | ⟨a, q, hq, hlen⟩
        · exact absurd (hparse.once a a' q q' t hq hq' ht ht') hne
        · have hdepth := (hparse.fresh a q hq).1
          omega

theorem two_files_parsed_once :
    (∃ config, parseFile twiceHost (.ofText (ascii "/etc/s.ini")) = .ok config ∧
      (config.parsed.map (·.1)).Nodup ∧ ∀ e ∈ config.parsed, e.2 < maxDepth) ∧
    ∃ what, parseFile twiceHost (.ofText (ascii "/etc/loop.ini")) =
      .error (.thrown (.configParseError what)) := by
  constructor
  · obtain ⟨config, hok, _⟩ := twiceHost_parses
    obtain ⟨_, hparsed, _⟩ := parseFile_visits_once twiceHost (.ofText (ascii "/etc/s.ini"))
    obtain ⟨hnodup, hdepth, _⟩ := hparsed config hok
    exact ⟨config, hok, hnodup, hdepth⟩
  · -- the file is found at its own address and at that of its include
    have hself : visitAt twiceHost [0] (.ofText (ascii "/etc/loop.ini")) =
        some (.ofText (ascii "/etc/loop.ini")) := by
      decide +kernel
    have hcanonical : canonicalText twiceHost (.ofText (ascii "/etc/loop.ini")) =
        some (ascii "/etc/loop.ini") := by
      decide +kernel
    exact (parseFile_visits_once twiceHost (.ofText (ascii "/etc/loop.ini"))).2.2
      (.inl ⟨[], [0], _, _, _, by simp, rfl, hself, hcanonical, hcanonical⟩)

/-! ## Program names -/

/-- The names of the programs that a file defines. -/
def programsOf (h : Host) (file : FsPath) : List String :=
  match fileTree h file with
  | none => []
  | some tree => programNames tree

/-- No name is defined at two addresses. -/
def Apart (h : Host) (visit : List Nat → Option FsPath) : Prop :=
  ∀ a a' q q' n, visit a = some q → visit a' = some q' → n ∈ programsOf h q →
    n ∈ programsOf h q' → a = a'

/-- `read_ini` rejects a section name that it has seen before. -/
def DistinctSections (h : Host) : Prop :=
  ∀ text tree, h.readIni text = .ok tree → (tree.children.map (·.1)).Nodup

/-- The names that are defined at the addresses of `visit`. -/
structure NamesOf (h : Host) (visit : List Nat → Option FsPath) (names : List String) : Prop where
  mem : ∀ n, n ∈ names ↔ ∃ a q, visit a = some q ∧ n ∈ programsOf h q
  nodup : names.Nodup ↔ Apart h visit

section Names

variable {h : Host} {file : FsPath}

theorem latin_injective : Function.Injective latin := by
  have hchar : Function.Injective fun b : UInt8 => Char.ofNat b.toNat := by
    intro b b' heq
    have hval : ∀ b : UInt8, (Char.ofNat b.toNat).toNat = b.toNat := by
      intro b
      have hlt := b.toNat_lt
      have hvalid : b.toNat.isValidChar := .inl (by omega)
      rw [Char.ofNat, dif_pos hvalid]
      rfl
    have hnat := congrArg Char.toNat heq
    simp only [hval] at hnat
    exact UInt8.toNat_inj.mp hnat
  intro s t heq
  exact List.map_injective_iff.mpr hchar (String.ofList_injective heq)

/-- Sections of different names are programs of different names. -/
theorem programNames_nodup {tree : Ptree} (hdistinct : (tree.children.map (·.1)).Nodup) :
    (programNames tree).Nodup := by
  have hsub : ((tree.children.filter fun child => isProgramKey child.1).map (·.1)).Nodup :=
    hdistinct.sublist (List.filter_sublist.map _)
  have hmap : programNames tree =
      ((tree.children.filter fun child => isProgramKey child.1).map (·.1)).map fun key =>
        latin (key.drop 8) := by
    rw [programNames, List.map_map]
    rfl
  rw [hmap]
  refine List.Nodup.map_on ?_ hsub
  intro key hkey key' hkey' heq
  have hprefixed : ∀ key ∈ (tree.children.filter fun child => isProgramKey child.1).map (·.1),
      key = ascii "program:" ++ key.drop 8 := by
    intro key hkey
    obtain ⟨child, hchild, rfl⟩ := List.mem_map.mp hkey
    obtain ⟨rest, hrest⟩ := List.isPrefixOf_iff_prefix.mp (List.mem_filter.mp hchild).2
    rw [← hrest]
    rfl
  rw [hprefixed key hkey, hprefixed key' hkey', latin_injective heq]

/-- A file names each of its programs once. -/
theorem programsOf_nodup (hini : DistinctSections h) (file : FsPath) :
    (programsOf h file).Nodup := by
  unfold programsOf
  cases htree : fileTree h file with
  | none => exact List.nodup_nil
  | some tree =>
      obtain ⟨contents, _, hread⟩ := Option.bind_eq_some_iff.mp htree
      cases hini' : readTree h contents with
      | error e => simp [hini', Except.toOption] at hread
      | ok tree' =>
          rw [hini'] at hread
          obtain rfl := Option.some.inj hread
          exact programNames_nodup (hini _ _ (Results.mapError_eq_ok.mp hini'))

/-- The names at the addresses of two parts that do not meet. -/
theorem NamesOf.append {visit v₁ v₂ : List Nat → Option FsPath} {f g : List Nat → List Nat}
    {n₁ n₂ : List String} (hf : Function.Injective f) (hg : Function.Injective g)
    (hsplit : ∀ a q, visit a = some q ↔
      (∃ b, a = f b ∧ v₁ b = some q) ∨ ∃ b, a = g b ∧ v₂ b = some q)
    (hne : ∀ b b' q q', v₁ b = some q → v₂ b' = some q' → f b ≠ g b')
    (h₁ : NamesOf h v₁ n₁) (h₂ : NamesOf h v₂ n₂) : NamesOf h visit (n₁ ++ n₂) where
  mem n := by
    rw [List.mem_append, h₁.mem, h₂.mem]
    constructor
    · rintro (⟨b, q, hb, hn⟩ | ⟨b, q, hb, hn⟩)
      · exact ⟨f b, q, (hsplit _ _).mpr (.inl ⟨b, rfl, hb⟩), hn⟩
      · exact ⟨g b, q, (hsplit _ _).mpr (.inr ⟨b, rfl, hb⟩), hn⟩
    · rintro ⟨a, q, ha, hn⟩
      rcases (hsplit a q).mp ha with ⟨b, rfl, hb⟩ | ⟨b, rfl, hb⟩
      · exact .inl ⟨b, q, hb, hn⟩
      · exact .inr ⟨b, q, hb, hn⟩
  nodup := by
    rw [List.nodup_append, h₁.nodup, h₂.nodup]
    constructor
    · rintro ⟨hapart₁, hapart₂, hdisjoint⟩ a a' q q' n ha ha' hn hn'
      -- a name of both parts would be listed twice
      have hboth : ∀ {b b' p p'}, v₁ b = some p → v₂ b' = some p' → n ∈ programsOf h p →
          n ∉ programsOf h p' := by
        intro b b' p p' hp hp' hin hin'
        exact hdisjoint n ((h₁.mem n).mpr ⟨b, p, hp, hin⟩) n ((h₂.mem n).mpr ⟨b', p', hp', hin'⟩) rfl
      rcases (hsplit a q).mp ha with ⟨b, rfl, hb⟩ | ⟨b, rfl, hb⟩ <;>
        rcases (hsplit a' q').mp ha' with ⟨b', rfl, hb'⟩ | ⟨b', rfl, hb'⟩
      · rw [hapart₁ b b' q q' n hb hb' hn hn']
      · exact absurd hn' (hboth hb hb' hn)
      · exact absurd hn (hboth hb' hb hn')
      · rw [hapart₂ b b' q q' n hb hb' hn hn']
    · intro hapart
      refine ⟨?_, ?_, ?_⟩
      · intro b b' q q' n hb hb' hn hn'
        exact hf (hapart _ _ q q' n ((hsplit _ _).mpr (.inl ⟨b, rfl, hb⟩))
          ((hsplit _ _).mpr (.inl ⟨b', rfl, hb'⟩)) hn hn')
      · intro b b' q q' n hb hb' hn hn'
        exact hg (hapart _ _ q q' n ((hsplit _ _).mpr (.inr ⟨b, rfl, hb⟩))
          ((hsplit _ _).mpr (.inr ⟨b', rfl, hb'⟩)) hn hn')
      · rintro n hn _ hn' rfl
        obtain ⟨b, q, hb, hin⟩ := (h₁.mem n).mp hn
        obtain ⟨b', q', hb', hin'⟩ := (h₂.mem n).mp hn'
        exact hne b b' q q' hb hb' (hapart _ _ q q' n ((hsplit _ _).mpr (.inl ⟨b, rfl, hb⟩))
          ((hsplit _ _).mpr (.inr ⟨b', rfl, hb'⟩)) hin hin')

/-- A parse has added programs with the names at these addresses. -/
def Collected (h : Host) (visit : List Nat → Option FsPath) (c c' : ParsedConfiguration) : Prop :=
  ∃ progs, c'.programs = c.programs ++ progs ∧ NamesOf h visit (progs.map (·.name))

/-- Nothing is included. -/
theorem collected_nil (h : Host) (c : ParsedConfiguration) : Collected h (visitIn h []) c c := by
  refine ⟨[], by simp, ⟨fun n => by simp [visitIn_nil], iff_of_true List.nodup_nil ?_⟩⟩
  intro a a' q q' n hvisit
  simp [visitIn_nil] at hvisit

/-- The position of an address in a list, one further on. -/
def nextAddress : List Nat → List Nat
  | [] => []
  | i :: address => (i + 1) :: address

theorem nextAddress_injective : Function.Injective nextAddress := by
  intro a b heq
  cases a with
  | nil =>
      cases b with
      | nil => rfl
      | cons j b => cases heq
  | cons i a =>
      cases b with
      | nil => cases heq
      | cons j b => simpa [nextAddress] using heq

/-- A file, and then the others. -/
theorem collected_cons {c c₁ c₂ : ParsedConfiguration} {files : List FsPath}
    (hfile : Collected h (fun a => visitAt h a file) c c₁)
    (hfiles : Collected h (visitIn h files) c₁ c₂) :
    Collected h (visitIn h (file :: files)) c c₂ := by
  obtain ⟨p₁, hp₁, hnames₁⟩ := hfile
  obtain ⟨p₂, hp₂, hnames₂⟩ := hfiles
  refine ⟨p₁ ++ p₂, by rw [hp₂, hp₁, List.append_assoc], ?_⟩
  rw [List.map_append]
  refine NamesOf.append (f := List.cons 0) (g := nextAddress) (List.cons_injective)
    nextAddress_injective ?_ ?_ hnames₁ hnames₂
  · intro a q
    constructor
    · intro hvisit
      rcases visitIn_cons hvisit with ⟨b, rfl, hb⟩ | ⟨i, b, rfl, hb⟩
      · exact .inl ⟨b, rfl, hb⟩
      · exact .inr ⟨i :: b, rfl, hb⟩
    · rintro (⟨b, rfl, hb⟩ | ⟨b, rfl, hb⟩)
      · exact hb
      · cases b with
        | nil => cases hb
        | cons i b => exact hb
  · intro b b' q q' _ _ heq
    cases b' <;> cases heq

/-- A file: the programs of what it includes, and then its own. -/
theorem collected_file {c c₁ c₂ : ParsedConfiguration} {t : Bytes} {tree : Ptree} {depth : Nat}
    {progs : List ProgramConfig} (hini : DistinctSections h)
    (hopened : Opened h file depth c t tree c₁)
    (hfiles : Collected h (visitIn h (followed h file)) c₁ c₂)
    (hprogs : progs.map (·.name) = programNames tree) :
    Collected h (fun a => visitAt h a file) c
      { c₂ with programs := c₂.programs ++ progs } := by
  obtain ⟨p, hp, hnames⟩ := hfiles
  refine ⟨p ++ progs, by simp only [hp, hopened.programs, List.append_assoc], ?_⟩
  have hown : progs.map (·.name) = programsOf h file := by
    rw [hprogs, programsOf, hopened.tree]
  -- the file itself, at the empty address
  have hfile : NamesOf h (fun a => if a = [] then some file else none) (progs.map (·.name)) := by
    rw [hown]
    refine ⟨fun n => by simp, iff_of_true (programsOf_nodup hini file) ?_⟩
    intro a a' q q' n ha ha' _ _
    have hempty : ∀ {a : List Nat} {q}, (if a = [] then some file else none) = some q → a = [] := by
      intro a q ha
      by_contra hne
      simp [hne] at ha
    rw [hempty ha, hempty ha']
  rw [List.map_append]
  refine NamesOf.append (f := id) (g := id) Function.injective_id Function.injective_id ?_ ?_
    hnames hfile
  · intro a q
    cases a with
    | nil => simp [visitAt, visitIn]
    | cons i b => simp [visitAt, visitIn]
  · rintro b b' q q' hb hb' rfl
    cases b with
    | nil => cases hb
    | cons i b => simp at hb'

end Names

/-- **Program names are distinct** in the configuration of a file exactly when no two files that
following its includes visits define a program of the same name. -/
theorem program_names_nodup_iff (h : Host) (hini : DistinctSections h) (file : FsPath)
    (config : ParsedConfiguration) (hok : parseFile h file = .ok config) :
    (config.programs.map (·.name)).Nodup ↔ Apart h fun a => visitAt h a file := by
  obtain ⟨canonical, _, _, hparse⟩ := parseFile_eq_ok hok
  have hcollected : Collected h (fun a => visitAt h a file)
      { configFile := latin canonical.text, programs := [] } config :=
    parse_induction
      (P := fun file _ c c' => Collected h (fun a => visitAt h a file) c c')
      (Q := fun files _ c c' => Collected h (visitIn h files) c c')
      (fun _ c => collected_nil h c)
      (fun _ _ _ _ _ _ hfile hfiles => collected_cons hfile hfiles)
      (fun _ _ _ _ _ _ _ _ hopened hfiles hprogs => collected_file hini hopened hfiles hprogs)
      _ hparse
  obtain ⟨progs, hprogs, hnames⟩ := hcollected
  rw [hprogs, List.nil_append]
  exact hnames.nodup

theorem twiceHost_distinctSections : DistinctSections twiceHost := by
  intro text tree htree
  unfold twiceHost at htree
  dsimp only at htree
  split at htree
  · obtain rfl := Except.ok.inj htree
    decide
  · split at htree
    · obtain rfl := Except.ok.inj htree
      decide
    · split at htree
      · obtain rfl := Except.ok.inj htree
        decide
      · cases htree

theorem web_twice_not_apart :
    (¬ Apart twiceHost fun a => visitAt twiceHost a (.ofText (ascii "/etc/s.ini"))) ∧
      Apart twiceHost fun a => visitAt twiceHost a (.ofText (ascii "/etc/a.conf")) := by
  constructor
  · obtain ⟨config, hok, hweb⟩ := twiceHost_parses
    rw [← program_names_nodup_iff twiceHost twiceHost_distinctSections _ config hok, hweb]
    decide
  · have hnames : (parseFile twiceHost (.ofText (ascii "/etc/a.conf"))).toOption.map
        (fun config => config.programs.map (·.name)) = some ["web"] := by
      decide +kernel
    obtain ⟨config, hok, hweb⟩ := Option.map_eq_some_iff.mp hnames
    rw [← program_names_nodup_iff twiceHost twiceHost_distinctSections _ config
      (Results.toOption_eq_some.mp hok), hweb]
    decide

/-- A file and a file that it includes may define a program of the same name. -/
theorem included_duplicate_accepted : ¬ ∀ (h : Host) (file : FsPath) (config : ParsedConfiguration),
    DistinctSections h → parseFile h file = .ok config →
      (config.programs.map (·.name)).Nodup := by
  intro hall
  obtain ⟨config, hok, hweb⟩ := twiceHost_parses
  have hnodup := hall twiceHost _ config twiceHost_distinctSections hok
  rw [hweb] at hnodup
  exact absurd hnodup (by decide)

end Supervisorcpp
