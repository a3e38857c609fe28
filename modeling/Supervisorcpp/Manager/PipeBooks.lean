/-
# Nothing leaks through a spawn

Two things hold in every run of `Manager.Pipes`. The daemon leaks no descriptor: every end of a pipe
in its table is the read end that one open stream holds. And no program holds a pipe that is not its
own, so that the end of its output is seen as soon as it and its descendants have closed it.

The books of `Lib.Descriptors` carry both: the ends of a new pipe are loose until `spawn_` has closed
them or handed the read end to a stream, and it returns with nothing loose, whichever call fails.

The books say of every descriptor that is an end of a pipe who holds it. They are kept as an
invariant of the table alone, so the two sides of a spawn can be followed one after the other.
-/
import Mathlib.Data.List.Pairwise
import Mathlib.Data.Set.Lattice
import Mathlib.Order.CompletePartialOrder
import Supervisorcpp.Manager.Pipes

namespace Supervisorcpp

/-! ## The invariant -/

/-- A read end, marked close-on-exec: what a stream descriptor holds. -/
def KeptRead (slot : Descriptors.Slot OpenFile) : Prop := ∃ id, slot = ⟨.readEnd id, true⟩

/-- The pipes of a table, held or loose. -/
abbrev Books (fds : Fds) (held : ObjId × Fd → Option Nat) (loose : Set Nat) : Prop :=
  Descriptors.Accounted (fun slot => slot.file.isPipe = true) KeptRead fds held loose

/-- The daemon was started with its standard descriptors, and keeps them. -/
def Std (fds : Fds) : Prop := ∀ fd < 3, ∃ id, fds fd = some ⟨.other id, false⟩

/-- It has no pipe open but the write ends of its own. -/
def Program.Clean (prog : Program) : Prop :=
  ∀ fd slot, prog.fds fd = some slot →
    (∀ id, slot.file ≠ .readEnd id) ∧ ∀ id, slot.file = .writeEnd id → id ∈ prog.pipes

/-- No two programs have a pipe in common. -/
def Program.Apart (a b : Program) : Prop := ∀ id ∈ a.pipes, id ∉ b.pipes

section Tables

variable {fds : Fds} {held : ObjId × Fd → Option Nat} {loose : Set Nat}

theorem Std.isSome (h : Std fds) : ∀ fd < 3, (fds fd).isSome := by
  intro fd hfd
  obtain ⟨id, hid⟩ := h fd hfd
  rw [hid]
  rfl

theorem Std.install (h : Std fds) {fd : Nat} (hfree : fds fd = none) (slot) :
    Std (fds.install fd slot) := by
  intro fd' hfd'
  obtain ⟨id, hid⟩ := h fd' hfd'
  exact ⟨id, Descriptors.Accounted.install_keeps hfree hid⟩

theorem Std.close (h : Std fds) {fd : Nat} (hfd : 3 ≤ fd) : Std (fds.close fd) := by
  intro fd' hfd'
  obtain ⟨id, hid⟩ := h fd' hfd'
  exact ⟨id, by rw [Descriptors.Table.close_of_ne (by omega), hid]⟩

/-- A pipe is not a standard descriptor. -/
theorem Std.pipe_ge (h : Std fds) {fd : Nat} {slot : Descriptors.Slot OpenFile}
    (hopen : fds fd = some slot) (hpipe : slot.file.isPipe = true) : 3 ≤ fd := by
  by_contra hlt
  obtain ⟨id, hid⟩ := h fd (by omega)
  rw [hopen] at hid
  rw [Option.some.inj hid] at hpipe
  cases hpipe

/-- A new pipe has two loose ends. -/
theorem Books.installPipe (h : Books fds held loose) (hstd : Std fds) {p : PipeFds}
    (hfree : p.Free fds) (id : Nat) :
    Books (Supervisorcpp.installPipe id p fds) held (insert p.write (insert p.read loose)) ∧
      Std (Supervisorcpp.installPipe id p fds) := by
  have hwrite : fds.install p.read ⟨.readEnd id, true⟩ p.write = none := by
    rw [Descriptors.Table.install_of_ne hfree.ne.symm, hfree.write]
  exact ⟨(h.openLoose hfree.read rfl).openLoose hwrite rfl,
    (hstd.install hfree.read _).install hwrite _⟩

/-- One end of a pipe that may have been made. -/
def endSet (end_ : PipeFds → Nat) (pipe : Option PipeFds) : Set Nat := { fd | ∃ p ∈ pipe, fd = end_ p }

@[simp] theorem endSet_none (end_ : PipeFds → Nat) : endSet end_ none = ∅ := by simp [endSet]

@[simp] theorem endSet_some (end_ : PipeFds → Nat) (p : PipeFds) : endSet end_ (some p) = {end_ p} := by
  ext fd
  simp [endSet]

/-- An end without an owner is closed. -/
theorem Books.closeEnd (h : Books fds held loose) (hstd : Std fds) (end_ : PipeFds → Nat)
    {pipe : Option PipeFds} (hends : ∀ p ∈ pipe, 3 ≤ end_ p ∧ ∀ x, held x ≠ some (end_ p)) :
    Books (closeEnd end_ pipe fds) held (loose \ endSet end_ pipe) ∧
      Std (Supervisorcpp.closeEnd end_ pipe fds) := by
  cases pipe with
  | none =>
      rw [endSet_none, Set.sdiff_empty]
      exact ⟨h, hstd⟩
  | some p =>
      obtain ⟨hge, hno⟩ := hends p rfl
      rw [endSet_some]
      exact ⟨h.closeUnowned hno, hstd.close hge⟩

end Tables

namespace PipeSys

/-- The books balance: the standard descriptors are the daemon's own, the open ends are those held by
streams, and no program has a pipe that is not its own. -/
structure Sound (s : PipeSys) : Prop where
  std : Std s.fds
  books : Books s.fds s.held ∅
  clean : ∀ prog ∈ s.programs, prog.Clean
  known : ∀ prog ∈ s.programs, ∀ id ∈ prog.pipes, id < s.nextPipe
  apart : s.programs.Pairwise Program.Apart

variable {config : ObjId → ProgramConfig} {daemon : Task} {s s' : PipeSys} {o : ObjId}
  {fds : Fds} {held : ObjId × Fd → Option Nat} {loose : Set Nat}

/-! ## One `spawn_` -/

/-- What `pipe2` did: nothing, or a pipe of two descriptors that were free. -/
structure Opens (wanted : Bool) (opened : OpenedPipe) (s s' : PipeSys) : Prop where
  fds : s'.fds = withPipe opened.pipe s.fds
  free : ∀ p ∈ opened.pipe, p.2.Free s.fds ∧ p.1 = s.nextPipe ∧ s'.nextPipe = s.nextPipe + 1
  wanted : opened ≠ .failed → wanted = opened.pipe.isSome
  nextPipe : s.nextPipe ≤ s'.nextPipe
  streams : s'.streams = s.streams
  handle : s'.handle = s.handle
  programs : s'.programs = s.programs

/-- What `openPipe` did. -/
theorem opens_of_openPipe {wanted : Bool} {answer : Option PipeFds} {opened : OpenedPipe}
    (h : openPipe wanted answer s = some (opened, s')) : Opens wanted opened s s' := by
  unfold openPipe at h
  split at h
  · obtain ⟨rfl, rfl⟩ := Prod.mk.inj (Option.some.inj h)
    exact ⟨rfl, by simp [OpenedPipe.pipe], fun _ => rfl, le_refl _, rfl, rfl, rfl⟩
  · obtain ⟨rfl, rfl⟩ := Prod.mk.inj (Option.some.inj h)
    exact ⟨rfl, by simp [OpenedPipe.pipe], fun hno => absurd rfl hno, le_refl _, rfl, rfl, rfl⟩
  · next p =>
      split at h
      · next hfree =>
          obtain ⟨rfl, rfl⟩ := Prod.mk.inj (Option.some.inj h)
          refine ⟨rfl, ?_, fun _ => rfl, Nat.le_succ _, rfl, rfl, rfl⟩
          rintro q hq
          obtain rfl : (s.nextPipe, p) = q := Option.some.inj hq
          exact ⟨⟨hfree.1, hfree.2.1, hfree.2.2⟩, rfl, rfl⟩
      · cases h

/-- The ends of a new pipe are loose. -/
theorem Opens.books {wanted : Bool} {opened : OpenedPipe} (h : Opens wanted opened s s')
    (hbooks : Books s.fds held loose) (hstd : Std s.fds) :
    Books s'.fds held
        (endSet PipeFds.write opened.fds ∪ (endSet PipeFds.read opened.fds ∪ loose)) ∧
      Std s'.fds := by
  rw [h.fds]
  unfold OpenedPipe.fds
  have hfree := h.free
  revert hfree
  cases opened.pipe with
  | none =>
      intro _
      simpa [withPipe] using And.intro hbooks hstd
  | some p =>
      intro hfree
      rw [Option.map_some, endSet_some, endSet_some, Set.singleton_union, Set.singleton_union]
      exact hbooks.installPipe hstd (hfree p rfl).1 p.1

/-- What a channel holds after `takeOver`. -/
def heldAfter (x : ObjId × Fd) (setUp : Bool) (opened : OpenedPipe) (held : ObjId × Fd → Option Nat) :
    ObjId × Fd → Option Nat :=
  match opened.fds with
  | none => held
  | some p => if setUp then Function.update held x (some p.read) else held

/-- A read end is handed to a channel, which closes what it held, or it is closed itself. -/
theorem Books.takeOver (h : Books fds held loose) (hstd : Std fds) (x : ObjId × Fd) (setUp : Bool)
    {opened : OpenedPipe} (hheld : s.held x = held x)
    (hread : ∀ p ∈ opened.pipe, p.2.read ∈ loose ∧ fds p.2.read = some ⟨.readEnd p.1, true⟩) :
    Books (s.takeOver x setUp opened fds) (heldAfter x setUp opened held)
        (loose \ endSet PipeFds.read opened.fds) ∧
      Std (s.takeOver x setUp opened fds) := by
  unfold PipeSys.takeOver heldAfter OpenedPipe.fds
  cases hpipe : opened.pipe with
  | none =>
      rw [Option.map_none, endSet_none, Set.sdiff_empty]
      exact ⟨h, hstd⟩
  | some p =>
      obtain ⟨hin, hopen⟩ := hread p hpipe
      rw [Option.map_some, endSet_some]
      dsimp only
      cases setUp with
      | false => exact ⟨h.closeUnowned (h.unowned_of_loose hin), hstd.close (hstd.pipe_ge hopen rfl)⟩
      | true =>
          simp only [if_true, hheld]
          cases hx : held x with
          | none => exact ⟨h.handOver hx hin hopen ⟨p.1, rfl⟩, hstd⟩
          | some old =>
              obtain ⟨⟨slot, hold, id, rfl⟩, hnot⟩ := h.owned x old hx
              have hne : p.2.read ≠ old := fun heq => hnot (heq ▸ hin)
              have hopen' : fds.close old p.2.read = some ⟨.readEnd p.1, true⟩ := by
                rw [Descriptors.Table.close_of_ne hne, hopen]
              have hover := (h.closeHeld hx).handOver (Function.update_self ..) hin hopen' ⟨p.1, rfl⟩
              rw [Function.update_idem] at hover
              exact ⟨hover, hstd.close (hstd.pipe_ge hold rfl)⟩

/-- The ends of a new pipe are beyond the standard descriptors, and nobody holds them. -/
theorem Opens.ends {wanted : Bool} {opened : OpenedPipe} (h : Opens wanted opened s s')
    (hbooks : Books s.fds held loose) (hstd : Std s.fds) (end_ : PipeFds → Nat)
    (hend : end_ = PipeFds.read ∨ end_ = PipeFds.write) :
    ∀ p ∈ opened.fds, 3 ≤ end_ p ∧ ∀ x, held x ≠ some (end_ p) := by
  intro p hp
  obtain ⟨q, hq, rfl⟩ := Option.mem_map.mp hp
  have hfree := (h.free q hq).1
  obtain ⟨hread, hwrite⟩ := hfree.std hstd.isSome
  obtain rfl | rfl := hend
  · exact ⟨hread, hbooks.unowned_of_free hfree.read⟩
  · exact ⟨hwrite, hbooks.unowned_of_free hfree.write⟩

/-- A pipe that is given up leaves nothing loose. -/
theorem Books.closeBoth {opened : OpenedPipe} (h : Books s.fds held loose) (hstd : Std s.fds)
    (hends : ∀ end_, end_ = PipeFds.read ∨ end_ = PipeFds.write →
      ∀ p ∈ opened.fds, 3 ≤ end_ p ∧ ∀ x, held x ≠ some (end_ p)) :
    Books (closeBoth opened s).fds held
        ((loose \ endSet PipeFds.read opened.fds) \ endSet PipeFds.write opened.fds) ∧
      Std (closeBoth opened s).fds := by
  obtain ⟨h', hstd'⟩ := Books.closeEnd h hstd PipeFds.read (hends _ (.inl rfl))
  exact Books.closeEnd h' hstd' PipeFds.write (hends _ (.inr rfl))

/-- Both pipes of a `spawn_` that goes on to `fork`. -/
structure BothOpened (config : ProgramConfig) (out err : OpenedPipe) (s s₁ s₂ : PipeSys) : Prop where
  first : Opens (Streams.captured config .stdout) out s s₁
  second : Opens (Streams.captured config .stderr) err s₁ s₂
  first_ne : out ≠ .failed
  second_ne : err ≠ .failed

/-- How a `spawn_` can go. -/
theorem spawn_cases {cfg : ProgramConfig} {a : SpawnAnswers} (h : spawn cfg daemon o a s = some s') :
    (∃ s₁, Opens (Streams.captured cfg .stdout) .failed s s₁ ∧ s' = s₁) ∨
    (∃ out s₁ s₂, Opens (Streams.captured cfg .stdout) out s s₁ ∧
      Opens (Streams.captured cfg .stderr) .failed s₁ s₂ ∧ s' = closeBoth out s₂) ∨
    ∃ out err s₁ s₂, BothOpened cfg out err s s₁ s₂ ∧
      (s' = closeBoth err (closeBoth out s₂) ∨
        s' = parentSide cfg o a out err (childSide cfg daemon o a.kernel out err s₂)) := by
  obtain ⟨⟨out, s₁⟩, hout, h⟩ := Option.bind_eq_some_iff.mp h
  have hout' := opens_of_openPipe hout
  dsimp only at h
  split at h
  · next hfail =>
      subst hfail
      exact .inl ⟨s₁, hout', (Option.some.inj h).symm⟩
  · next hne =>
      obtain ⟨⟨err, s₂⟩, herr, h⟩ := Option.bind_eq_some_iff.mp h
      have herr' := opens_of_openPipe herr
      dsimp only at h
      split at h
      · next hfail =>
          subst hfail
          exact .inr (.inl ⟨out, s₁, s₂, hout', herr', (Option.some.inj h).symm⟩)
      · next hne' =>
          refine .inr (.inr ⟨out, err, s₁, s₂, ⟨hout', herr', hne, hne'⟩, ?_⟩)
          split at h
          · exact .inr (Option.some.inj h).symm
          · exact .inl (Option.some.inj h).symm

namespace BothOpened

variable {cfg : ProgramConfig} {out err : OpenedPipe} {s₁ s₂ : PipeSys}

theorem table (h : BothOpened cfg out err s s₁ s₂) :
    s₂.fds = withPipe err.pipe (withPipe out.pipe s.fds) := by
  rw [h.second.fds, h.first.fds]

/-- With stderr redirected there is no second pipe. -/
theorem one (h : BothOpened cfg out err s s₁ s₂) (hredirect : cfg.redirectStderr = true) :
    err.pipe = none := by
  have hwanted := h.second.wanted h.second_ne
  rw [Streams.captured, hredirect] at hwanted
  simpa using hwanted.symm

theorem free (h : BothOpened cfg out err s s₁ s₂) :
    (∀ p ∈ out.pipe, p.2.Free s.fds) ∧ ∀ p ∈ err.pipe, p.2.Free (withPipe out.pipe s.fds) :=
  ⟨fun p hp => (h.first.free p hp).1, fun p hp => h.first.fds ▸ (h.second.free p hp).1⟩

/-- What the program of this `spawn_` has open, from the table before it. -/
theorem program_fds (h : BothOpened cfg out err s s₁ s₂) (hstd : Std s.fds) {k : Kernel}
    {argv : List Bytes} {t : Task}
    (hrun : runChild k cfg out.fds err.fds { daemon with fds := s₂.fds } = .program argv t) (fd : Nat)
    (slot : Descriptors.Slot OpenFile) : t.fds fd = some slot ↔
      ¬ Swept k.fdLimit fd ∧ slot.cloexec = false ∧ redirected out.id
        (if cfg.redirectStderr then out.id else err.id) s.fds fd = some slot := by
  obtain ⟨directory, creds, file, -, -, rfl⟩ := runChild_eq_program hrun
  obtain ⟨hout, herr⟩ := h.free
  have hfds : (programTask k cfg (out.pipe.map Prod.snd) (err.pipe.map Prod.snd)
      { daemon with fds := s₂.fds } directory
        (creds.exec (k.setIds file).1 (k.setIds file).2)).fds fd = some slot ↔ _ :=
    programTask_fds_eq_some h.table hstd.isSome hout herr h.one
  rw [apply_ite (Option.map Prod.fst)] at hfds
  exact hfds

/-- The pipes of the program are new. -/
theorem new_pipes (h : BothOpened cfg out err s s₁ s₂) (fds : Fds) :
    ∀ id ∈ (Program.mk o out.id err.id fds).pipes, s.nextPipe ≤ id ∧ id < s₂.nextPipe := by
  intro id hid
  have hle := h.first.nextPipe
  have hle' := h.second.nextPipe
  obtain hid | hid := List.mem_append.mp hid
  · obtain ⟨p, hp, rfl⟩ := Option.mem_map.mp (Option.mem_toList.mp hid)
    obtain ⟨-, hp', hnext⟩ := h.first.free p hp
    omega
  · obtain ⟨p, hp, rfl⟩ := Option.mem_map.mp (Option.mem_toList.mp hid)
    obtain ⟨-, hp', hnext⟩ := h.second.free p hp
    omega

/-- It has no pipe but its own. -/
theorem program_clean (h : BothOpened cfg out err s s₁ s₂) (hs : s.Sound) {k : Kernel}
    {argv : List Bytes} {t : Task}
    (hrun : runChild k cfg out.fds err.fds { daemon with fds := s₂.fds } = .program argv t) :
    (Program.mk o out.id err.id t.fds).Clean := by
  intro fd slot hopen
  obtain ⟨-, hmark, hopen⟩ := (h.program_fds hs.std hrun fd slot).mp hopen
  -- it is on a pipe of its own, or it is what the daemon has there
  have hcases : (∃ id ∈ out.id.toList ++ err.id.toList, slot = ⟨.writeEnd id, false⟩) ∨
      s.fds fd = some slot := by
    unfold redirected at hopen
    split at hopen
    · next h1 =>
        cases hid : out.id with
        | none => exact .inr (by simpa [hid, h1] using hopen)
        | some id => exact .inl ⟨id, by simp, by simpa [hid] using hopen.symm⟩
    · split at hopen
      · next h2 =>
          split at hopen
          · cases hid : out.id with
            | none => exact .inr (by simpa [hid, h2] using hopen)
            | some id => exact .inl ⟨id, by simp, by simpa [hid] using hopen.symm⟩
          · cases hid : err.id with
            | none => exact .inr (by simpa [hid, h2] using hopen)
            | some id => exact .inl ⟨id, by simp, by simpa [hid] using hopen.symm⟩
      · exact .inr hopen
  obtain ⟨id, hid, rfl⟩ | hdaemon := hcases
  · refine ⟨by simp, ?_⟩
    rintro id' heq
    obtain rfl : id = id' := OpenFile.writeEnd.inj heq
    exact hid
  · -- the daemon's pipes are marked
    have hnot : slot.file.isPipe = false := by
      by_contra hpipe
      obtain ⟨⟨id, rfl⟩, -⟩ := hs.books.unique_owner hdaemon (by simpa using hpipe)
      cases hmark
    refine ⟨fun id heq => ?_, fun id heq => ?_⟩
    · rw [heq] at hnot
      cases hnot
    · rw [heq] at hnot
      cases hnot

end BothOpened

/-- The child has become its program, with what it had open then, or has ended. -/
theorem childSide_cases (cfg : ProgramConfig) (daemon : Task) (o : ObjId) (k : Kernel)
    (out err : OpenedPipe) (s : PipeSys) :
    childSide cfg daemon o k out err s = s ∨
    ∃ argv t, runChild k cfg out.fds err.fds { daemon with fds := s.fds } = .program argv t ∧
      childSide cfg daemon o k out err s =
        { s with programs := s.programs ++ [⟨o, out.id, err.id, t.fds⟩] } := by
  unfold childSide
  split
  · next argv t hrun => exact .inr ⟨argv, t, hrun, rfl⟩
  · exact .inl rfl

/-- What the channels of the object hold after the parent's side. -/
theorem held_parentSide {cfg : ProgramConfig} {a : SpawnAnswers} {out err : OpenedPipe}
    (hout : Streams.captured cfg .stdout = out.pipe.isSome)
    (herr : Streams.captured cfg .stderr = err.pipe.isSome) :
    (parentSide cfg o a out err s).held =
      heldAfter (o, .stderr) a.stderrSetUp err (heldAfter (o, .stdout) a.stdoutSetUp out s.held) := by
  funext ⟨o', fd⟩
  by_cases ho : o' = o
  · subst ho
    have hholds := Streams.holds_spawn cfg (s.streams o') a.stdoutSetUp a.stderrSetUp fd
    simp only [held, parentSide, Function.update_self, hholds]
    unfold heldAfter setHandle OpenedPipe.fds
    cases fd with
    | stdout =>
        rw [hout]
        cases out.pipe <;> cases err.pipe <;> cases a.stdoutSetUp <;> cases a.stderrSetUp <;>
          simp [Streams.setUpFlag, held]
    | stderr =>
        rw [herr]
        cases out.pipe <;> cases err.pipe <;> cases a.stdoutSetUp <;> cases a.stderrSetUp <;>
          simp [Streams.setUpFlag, held]
  · have hne : ∀ fd', (o', fd) ≠ (o, fd') := fun fd' heq => ho (congrArg Prod.fst heq)
    unfold heldAfter
    simp only [held, parentSide, Function.update_of_ne ho]
    unfold setHandle
    cases out.fds <;> cases err.fds <;> cases a.stdoutSetUp <;> cases a.stderrSetUp <;>
      simp [Function.update_of_ne (hne _), held]

theorem closeEnd_of_ne {end_ : PipeFds → Nat} {pipe : Option PipeFds} {fd : Nat}
    (h : fd ∉ endSet end_ pipe) : closeEnd end_ pipe fds fd = fds fd := by
  cases pipe with
  | none => rfl
  | some p => exact Descriptors.Table.close_of_ne (by simpa using h)

theorem takeOver_of_ne {x : ObjId × Fd} {setUp : Bool} {opened : OpenedPipe} {fd : Nat}
    (h : fd ∉ endSet PipeFds.read opened.fds) (hheld : s.held x ≠ some fd) :
    s.takeOver x setUp opened fds fd = fds fd := by
  unfold takeOver
  cases hfds : opened.fds with
  | none => rfl
  | some p =>
      dsimp only
      rw [hfds, endSet_some] at h
      cases setUp with
      | false => exact Descriptors.Table.close_of_ne h
      | true =>
          cases hx : s.held x with
          | none => rfl
          | some old =>
              have hne : fd ≠ old := fun heq => hheld (heq ▸ hx)
              exact Descriptors.Table.close_of_ne hne

namespace BothOpened

variable {cfg : ProgramConfig} {out err : OpenedPipe} {s₁ s₂ : PipeSys}

/-- The four ends are four descriptors. -/
theorem distinct (h : BothOpened cfg out err s s₁ s₂) :
    Disjoint (endSet PipeFds.read out.fds) (endSet PipeFds.write out.fds) ∧
    Disjoint (endSet PipeFds.read err.fds) (endSet PipeFds.write err.fds) ∧
    Disjoint (endSet PipeFds.read out.fds) (endSet PipeFds.write err.fds) ∧
    Disjoint (endSet PipeFds.read err.fds) (endSet PipeFds.write out.fds) ∧
    Disjoint (endSet PipeFds.read err.fds) (endSet PipeFds.read out.fds) := by
  obtain ⟨hout, herr⟩ := h.free
  unfold OpenedPipe.fds
  cases hp : out.pipe with
  | none =>
      cases hq : err.pipe with
      | none => simp
      | some q => simpa using (herr q hq).ne
  | some p =>
      have hne := (hout p hp).ne
      cases hq : err.pipe with
      | none => simpa using hne
      | some q =>
          have hfree := herr q hq
          rw [hp] at hfree
          obtain ⟨hfree', ⟨hrr, hrw⟩, hwr, hww⟩ := PipeFds.Free.of_installPipe hfree
          simp [hne, hfree'.ne, hwr.symm, hrw, hrr]

theorem readEnds (h : BothOpened cfg out err s s₁ s₂) :
    (∀ p ∈ out.pipe, s₂.fds p.2.read = some ⟨.readEnd p.1, true⟩) ∧
    ∀ p ∈ err.pipe, s₂.fds p.2.read = some ⟨.readEnd p.1, true⟩ := by
  obtain ⟨hout, herr⟩ := h.free
  have hown : ∀ {p : Nat × PipeFds} {fds : Fds}, p.2.Free fds →
      installPipe p.1 p.2 fds p.2.read = some ⟨.readEnd p.1, true⟩ := by
    intro p fds hfree
    rw [installPipe, Descriptors.Table.install_of_ne hfree.ne, Descriptors.Table.install_self]
  rw [h.table]
  constructor
  · intro p hp
    have hfirst := hown (hout p hp)
    rw [hp]
    cases hq : err.pipe with
    | none => exact hfirst
    | some q =>
        have hfree := herr q hq
        rw [hp] at hfree
        obtain ⟨-, ⟨hrr, -⟩, hwr, -⟩ := PipeFds.Free.of_installPipe hfree
        show installPipe q.1 q.2 (installPipe p.1 p.2 s.fds) p.2.read = _
        rw [installPipe, Descriptors.Table.install_of_ne hwr.symm,
          Descriptors.Table.install_of_ne hrr.symm, hfirst]
  · intro q hq
    rw [hq]
    exact hown (herr q hq)

/-- After both pipes are made their ends are loose. -/
theorem books (h : BothOpened cfg out err s s₁ s₂) (hs : s.Sound) :
    Books s₂.fds s.held (endSet PipeFds.write err.fds ∪ (endSet PipeFds.read err.fds ∪
        (endSet PipeFds.write out.fds ∪ (endSet PipeFds.read out.fds ∪ ∅)))) ∧ Std s₂.fds := by
  obtain ⟨hbooks, hstd⟩ := h.first.books hs.books hs.std
  exact h.second.books hbooks hstd

theorem ends (h : BothOpened cfg out err s s₁ s₂) (hs : s.Sound) (end_ : PipeFds → Nat)
    (hend : end_ = PipeFds.read ∨ end_ = PipeFds.write) :
    (∀ p ∈ out.fds, 3 ≤ end_ p ∧ ∀ x, s.held x ≠ some (end_ p)) ∧
    ∀ p ∈ err.fds, 3 ≤ end_ p ∧ ∀ x, s.held x ≠ some (end_ p) := by
  obtain ⟨hbooks, hstd⟩ := h.first.books hs.books hs.std
  exact ⟨h.first.ends hs.books hs.std end_ hend, h.second.ends hbooks hstd end_ hend⟩

/-- The parent's side leaves nothing loose. -/
theorem parentSide_books (h : BothOpened cfg out err s s₁ s₂) (hs : s.Sound) (a : SpawnAnswers)
    (s₃ : PipeSys) (hfds : s₃.fds = s₂.fds) (hheld : s₃.held = s.held) :
    Books (parentSide cfg o a out err s₃).fds (parentSide cfg o a out err s₃).held ∅ ∧
      Std (parentSide cfg o a out err s₃).fds := by
  obtain ⟨hbooks, hstd⟩ := h.books hs
  obtain ⟨hread, hread'⟩ := h.readEnds
  obtain ⟨d₁, d₂, d₃, d₄, d₅⟩ := h.distinct
  obtain ⟨hwout, hwerr⟩ := h.ends hs PipeFds.write (.inr rfl)
  have hmem : ∀ {opened : OpenedPipe} {p : Nat × PipeFds}, p ∈ opened.pipe →
      p.2.read ∈ endSet PipeFds.read opened.fds := fun hp => ⟨_, Option.mem_map_of_mem _ hp, rfl⟩
  rw [← hheld] at hbooks hwout hwerr
  rw [held_parentSide (h.first.wanted h.first_ne) (h.second.wanted h.second_ne)]
  -- the write ends are closed
  obtain ⟨hbooks, hstd⟩ := Books.closeEnd hbooks hstd PipeFds.write hwout
  obtain ⟨hbooks, hstd⟩ := Books.closeEnd hbooks hstd PipeFds.write hwerr
  have hclosed : ∀ {fd}, fd ∉ endSet PipeFds.write out.fds → fd ∉ endSet PipeFds.write err.fds →
      closeEnd PipeFds.write err.fds (closeEnd PipeFds.write out.fds s₂.fds) fd = s₂.fds fd :=
    fun ho he => by rw [closeEnd_of_ne he, closeEnd_of_ne ho]
  have hopen : ∀ p ∈ out.pipe, p.2.read ∉ endSet PipeFds.write out.fds ∧
      p.2.read ∉ endSet PipeFds.write err.fds :=
    fun p hp => ⟨Set.disjoint_left.mp d₁ (hmem hp), Set.disjoint_left.mp d₃ (hmem hp)⟩
  have hopen' : ∀ p ∈ err.pipe, p.2.read ∉ endSet PipeFds.write out.fds ∧
      p.2.read ∉ endSet PipeFds.write err.fds :=
    fun p hp => ⟨Set.disjoint_left.mp d₄ (hmem hp), Set.disjoint_left.mp d₂ (hmem hp)⟩
  -- the read ends go to the two channels
  obtain ⟨hbooks, hstd⟩ := Books.takeOver (s := s₃) hbooks hstd (o, .stdout) a.stdoutSetUp
    rfl fun p hp => by
      obtain ⟨ho, he⟩ := hopen p hp
      exact ⟨⟨⟨.inr (.inr (.inr (.inl (hmem hp)))), ho⟩, he⟩, (hclosed ho he).trans (hread p hp)⟩
  have hstderr : heldAfter (o, .stdout) a.stdoutSetUp out s₃.held (o, .stderr) =
      s₃.held (o, .stderr) := by
    unfold heldAfter
    cases out.fds with
    | none => rfl
    | some p => cases a.stdoutSetUp <;> simp
  obtain ⟨hbooks, hstd⟩ := Books.takeOver (s := s₃) hbooks hstd (o, .stderr) a.stderrSetUp
    hstderr.symm fun p hp => by
      obtain ⟨ho, he⟩ := hopen' p hp
      have hnot : p.2.read ∉ endSet PipeFds.read out.fds := Set.disjoint_left.mp d₅ (hmem hp)
      have hno : s₃.held (o, .stdout) ≠ some p.2.read := by
        rw [hheld]
        exact (h.ends hs PipeFds.read (.inl rfl)).2 p.2 (Option.mem_map_of_mem _ hp) |>.2 _
      refine ⟨⟨⟨⟨.inr (.inl (hmem hp)), ho⟩, he⟩, hnot⟩, ?_⟩
      rw [takeOver_of_ne hnot hno, hclosed ho he, hread' p hp]
  unfold parentSide
  rw [hfds]
  refine ⟨?_, hstd⟩
  convert hbooks using 1
  ext fd
  simp only [Set.mem_sdiff, Set.mem_union, Set.mem_empty_iff_false]
  tauto

end BothOpened

/-- Closing both pipes again leaves nothing loose. -/
theorem BothOpened.closeBoth_books {cfg : ProgramConfig} {out err : OpenedPipe} {s₁ s₂ : PipeSys}
    (h : BothOpened cfg out err s s₁ s₂) (hs : s.Sound) :
    Books (closeBoth err (closeBoth out s₂)).fds s.held ∅ ∧
      Std (closeBoth err (closeBoth out s₂)).fds := by
  obtain ⟨hbooks, hstd⟩ := h.books hs
  obtain ⟨hbooks, hstd⟩ := Books.closeBoth hbooks hstd fun end_ hend => (h.ends hs end_ hend).1
  obtain ⟨hbooks, hstd⟩ := Books.closeBoth hbooks hstd fun end_ hend => (h.ends hs end_ hend).2
  refine ⟨?_, hstd⟩
  convert hbooks using 1
  ext fd
  simp only [Set.mem_sdiff, Set.mem_union, Set.mem_empty_iff_false]
  tauto

/-- The programs stay apart when one of new pipes joins them. -/
theorem Sound.addProgram (hs : s.Sound) {prog : Program} (hclean : prog.Clean) {n : Nat}
    (hnew : ∀ id ∈ prog.pipes, s.nextPipe ≤ id ∧ id < n) (hle : s.nextPipe ≤ n) :
    (∀ prog' ∈ s.programs ++ [prog], prog'.Clean) ∧
    (∀ prog' ∈ s.programs ++ [prog], ∀ id ∈ prog'.pipes, id < n) ∧
    (s.programs ++ [prog]).Pairwise Program.Apart := by
  refine ⟨fun prog' hprog => ?_, fun prog' hprog id hid => ?_, ?_⟩
  · obtain hprog | hprog := List.mem_append.mp hprog
    · exact hs.clean prog' hprog
    · rw [List.mem_singleton.mp hprog]
      exact hclean
  · obtain hprog | hprog := List.mem_append.mp hprog
    · exact Nat.lt_of_lt_of_le (hs.known prog' hprog id hid) hle
    · rw [List.mem_singleton.mp hprog] at hid
      exact (hnew id hid).2
  · rw [List.pairwise_append]
    refine ⟨hs.apart, List.pairwise_singleton _ _, fun a ha b hb id hid hid' => ?_⟩
    rw [List.mem_singleton.mp hb] at hid'
    exact absurd (hs.known a ha id hid) (Nat.not_lt.mpr (hnew id hid').1)

/-- No program was added, and the books still balance. -/
theorem Sound.keep (hs : s.Sound) (hprogs : s'.programs = s.programs) (hle : s.nextPipe ≤ s'.nextPipe)
    (h : Books s'.fds s'.held ∅ ∧ Std s'.fds) : s'.Sound where
  std := h.2
  books := h.1
  clean := hprogs ▸ hs.clean
  known := fun prog hprog id hid =>
    Nat.lt_of_lt_of_le (hs.known prog (hprogs ▸ hprog) id hid) hle
  apart := hprogs ▸ hs.apart

theorem held_congr (hstreams : s'.streams = s.streams) (hhandle : s'.handle = s.handle) :
    s'.held = s.held := by
  unfold held
  rw [hstreams, hhandle]

/-- A spawn, whatever fails in it. -/
theorem Sound.spawn (hs : s.Sound) {cfg : ProgramConfig} {a : SpawnAnswers}
    (h : spawn cfg daemon o a s = some s') : s'.Sound := by
  obtain ⟨s₁, hfail, rfl⟩ | ⟨out, s₁, s₂, hout, hfail, rfl⟩ |
    ⟨out, err, s₁, s₂, hboth, hend⟩ := spawn_cases h
  · -- no pipe for stdout
    have hfds : s'.fds = s.fds := hfail.fds
    have hheld : s'.held = s.held := held_congr hfail.streams hfail.handle
    refine hs.keep hfail.programs hfail.nextPipe ?_
    rw [hfds, hheld]
    exact ⟨hs.books, hs.std⟩
  · -- no pipe for stderr: the one for stdout is closed
    have hfds : s₂.fds = s₁.fds := hfail.fds
    have hheld : (closeBoth out s₂).held = s.held :=
      held_congr (hfail.streams.trans hout.streams) (hfail.handle.trans hout.handle)
    obtain ⟨hbooks, hstd⟩ := hout.books hs.books hs.std
    rw [← hfds] at hbooks hstd
    obtain ⟨hbooks, hstd⟩ := Books.closeBoth hbooks hstd fun end_ hend =>
      hout.ends hs.books hs.std end_ hend
    refine hs.keep (hfail.programs.trans hout.programs) (hout.nextPipe.trans hfail.nextPipe)
      ⟨?_, hstd⟩
    rw [hheld]
    convert hbooks using 1
    ext fd
    simp only [Set.mem_sdiff, Set.mem_union, Set.mem_empty_iff_false]
    tauto
  · have hprogs : s₂.programs = s.programs := hboth.second.programs.trans hboth.first.programs
    have hle : s.nextPipe ≤ s₂.nextPipe := hboth.first.nextPipe.trans hboth.second.nextPipe
    have hheld : s₂.held = s.held :=
      held_congr (hboth.second.streams.trans hboth.first.streams)
        (hboth.second.handle.trans hboth.first.handle)
    obtain rfl | rfl := hend
    · -- no fork: both are closed
      exact hs.keep hprogs hle (hheld ▸ hboth.closeBoth_books hs)
    · obtain hchild | ⟨argv, t, hrun, hchild⟩ := childSide_cases cfg daemon o a.kernel out err s₂
      · rw [hchild]
        exact hs.keep hprogs hle (hboth.parentSide_books hs a _ rfl hheld)
      · -- a child that became its program
        rw [hchild, hprogs]
        obtain ⟨hbooks, hstd⟩ := hboth.parentSide_books (o := o) hs a
          { s₂ with programs := s.programs ++ [⟨o, out.id, err.id, t.fds⟩] } rfl hheld
        obtain ⟨hclean, hknown, hapart⟩ := hs.addProgram (hboth.program_clean (o := o) hs hrun)
          (hboth.new_pipes t.fds) hle
        exact ⟨hstd, hbooks, hclean, hknown, hapart⟩

/-! ## The other steps -/

/-- A channel that no longer holds its stream closes the descriptor. -/
theorem Books.settle (h : Books fds held loose) (hstd : Std fds) (x : ObjId × Fd) (after : Streams)
    (hheld : s.held x = held x) :
    Books (s.settle x after fds)
        (if (after.channel x.2).holds then held else Function.update held x none) loose ∧
      Std (s.settle x after fds) := by
  unfold PipeSys.settle
  rw [hheld]
  split
  · exact ⟨h, hstd⟩
  · cases hx : held x with
    | none =>
        have hsame : Function.update held x none = held := by
          rw [← hx, Function.update_eq_self]
        rw [hsame]
        exact ⟨h, hstd⟩
    | some fd =>
        obtain ⟨⟨slot, hopen, id, rfl⟩, -⟩ := h.owned x fd hx
        exact ⟨h.closeHeld hx, hstd.close (hstd.pipe_ge hopen rfl)⟩

/-- Streams that are closed close their descriptors. -/
theorem Sound.advance (hs : s.Sound) {after : Streams}
    (hmono : ∀ fd, (after.channel fd).holds = true → ((s.streams o).channel fd).holds = true) :
    (s.advance o after).Sound := by
  obtain ⟨hbooks, hstd⟩ := Books.settle hs.books hs.std (o, .stdout) after rfl
  have hstderr : s.held (o, .stderr) = (if (after.channel .stdout).holds then s.held
      else Function.update s.held (o, .stdout) none) (o, .stderr) := by
    split
    · rfl
    · rw [Function.update_of_ne (by simp)]
  obtain ⟨hbooks, hstd⟩ := Books.settle hbooks hstd (o, .stderr) after hstderr
  have hheld : (s.advance o after).held = if (after.channel .stderr).holds then
      if (after.channel .stdout).holds then s.held else Function.update s.held (o, .stdout) none
      else Function.update (if (after.channel .stdout).holds then s.held
        else Function.update s.held (o, .stdout) none) (o, .stderr) none := by
    funext ⟨o', fd⟩
    by_cases ho : o' = o
    · subst ho
      simp only [held, PipeSys.advance, Function.update_self]
      have hfd := hmono fd
      cases hout : (after.channel .stdout).holds <;> cases herr : (after.channel .stderr).holds <;>
        cases fd <;> simp_all [held]
    · have hne : ∀ fd', (o', fd) ≠ (o, fd') := fun fd' heq => ho (congrArg Prod.fst heq)
      simp only [held, PipeSys.advance, Function.update_of_ne ho]
      cases (after.channel .stdout).holds <;> cases (after.channel .stderr).holds <;>
        simp [Function.update_of_ne (hne _), held]
  exact hs.keep rfl (le_refl _) ⟨hheld ▸ hbooks, hstd⟩

/-- Every step leaves the books balanced. -/
theorem Sound.step (hs : s.Sound) {i : PipeInput} (h : step config daemon s i = some s') :
    s'.Sound := by
  cases i with
  | spawn o a =>
      simp only [PipeSys.step] at h
      split at h
      · exact hs.spawn h
      · cases h
  | stream o i =>
      have hspawn : ∀ out err, i ≠ .spawn out err := by
        rintro out err rfl
        cases h
      have h' : (Streams.step (config o) (s.streams o) i).map (s.advance o) = some s' := by
        cases i with
        | spawn out err => exact absurd rfl (hspawn out err)
        | complete | deliver | destroy => exact h
      obtain ⟨after, hstep, rfl⟩ := Option.map_eq_some_iff.mp h'
      exact hs.advance fun fd => Streams.holds_step hstep hspawn fd
  | openFile fd id cloexec =>
      simp only [PipeSys.step] at h
      split at h
      · next hfree =>
          obtain rfl := Option.some.inj h
          exact hs.keep rfl (le_refl _)
            ⟨hs.books.openOther hfree (by simp [OpenFile.isPipe]), hs.std.install hfree _⟩
      · cases h
  | closeFile fd =>
      simp only [PipeSys.step] at h
      split at h
      · next id cloexec hopen =>
          split at h
          · next hge =>
              obtain rfl := Option.some.inj h
              have hno := hs.books.unowned_of_not_tracked (by rintro slot ⟨id, rfl⟩; rfl) hopen
                (by simp [OpenFile.isPipe])
              have hbooks := hs.books.closeUnowned hno
              rw [Set.empty_sdiff] at hbooks
              exact hs.keep rfl (le_refl _) ⟨hbooks, hs.std.close hge⟩
          · cases h
      · cases h

/-- They balance at the start. -/
theorem Sound.initial (h : Initial s) : s.Sound := by
  have hnone : ∀ x, s.held x = none := by
    rintro ⟨o, fd⟩
    unfold held
    rw [h.streams o]
    cases fd <;> rfl
  refine ⟨h.std, ⟨fun x fd hx => ?_, fun x y fd hx => ?_, fun fd hfd => absurd hfd (Set.notMem_empty fd),
    fun fd slot hopen hpipe => ?_⟩, ?_, ?_, ?_⟩
  · rw [hnone] at hx
    cases hx
  · rw [hnone] at hx
    cases hx
  · rw [h.files fd slot hopen] at hpipe
    cases hpipe
  · simp [h.programs]
  · simp [h.programs]
  · simp [h.programs]

/-- So they do in every reachable state. -/
theorem Sound.reach (h : Machine.Reach (PipeSys.step config daemon) Machine.anyStep Initial s) : s.Sound :=
  h.invariant (fun _ hinit => Sound.initial hinit) fun _ _ _ hs _ hstep => hs.step hstep

end PipeSys

/-! ## Every run -/

variable {config : ObjId → ProgramConfig} {daemon : Task} {s s' : PipeSys}

/-- **No descriptor leaks.**  In every state the daemon reaches, each end of a pipe in its table is a
read end marked close-on-exec that exactly one open stream holds; no program ever had open the read
end of a pipe, or a write end but of its own pipes; and no two programs share a pipe. -/
theorem pipes_accounted_for
    (h : Machine.Reach (PipeSys.step config daemon) Machine.anyStep PipeSys.Initial s) :
    (∀ fd slot, s.fds fd = some slot → slot.file.isPipe = true →
      KeptRead slot ∧ ∃! x, s.held x = some fd) ∧
    (∀ prog ∈ s.programs, prog.Clean) ∧ s.programs.Pairwise Program.Apart := by
  have hs := PipeSys.Sound.reach h
  exact ⟨fun fd slot hopen hpipe => hs.books.unique_owner hopen hpipe, hs.clean, hs.apart⟩

/-- A program that logs both streams to one file. -/
def loggedWeb : ProgramConfig :=
  { webProgram with stdoutLog := { file := some "/var/log/web.log" }, redirectStderr := true }

/-- The daemon at the start of its run. -/
def firstPipes : PipeSys := ⟨rootTask.fds, fun _ => Streams.init, fun _ => 0, [], 0⟩

theorem initial_firstPipes : PipeSys.Initial firstPipes where
  std := fun fd hfd => ⟨fd, if_pos hfd⟩
  files := by
    intro fd slot hopen
    simp only [firstPipes, rootTask] at hopen
    split at hopen
    · obtain rfl := Option.some.inj hopen
      rfl
    · cases hopen
  streams := fun _ => rfl
  programs := rfl

/-- The daemon opens a log, which is not close-on-exec, and spawns. -/
def webSpawn : List PipeInput :=
  [.openFile 3 9 false,
    .spawn 0 ⟨some ⟨4, 5⟩, none, true, true, true, plainKernel⟩]

theorem pipes_accounted_for_web : ∃ s,
    Machine.Reach (PipeSys.step (fun _ => loggedWeb) rootTask) Machine.anyStep PipeSys.Initial s ∧
    s.fds 4 = some ⟨.readEnd 0, true⟩ ∧ s.fds 5 = none ∧ (∃! x, s.held x = some 4) ∧
    s.programs.length = 1 ∧ ∀ prog ∈ s.programs, prog.Clean := by
  have hrun : Machine.Reach (PipeSys.step (fun _ => loggedWeb) rootTask) Machine.anyStep
      PipeSys.Initial _ := .of_run (.init initial_firstPipes)
    (show Machine.run (PipeSys.step (fun _ => loggedWeb) rootTask) firstPipes webSpawn = some _ from
      rfl)
  obtain ⟨hbooks, hclean, -⟩ := pipes_accounted_for hrun
  exact ⟨_, hrun, rfl, rfl, (hbooks 4 _ rfl rfl).2, rfl, hclean⟩

end Supervisorcpp
