/-
# What a command reports

The exit code of a command and its messages, against the faults the handlers have answered with while
it ran. A log beside the daemon keeps these faults. A command stops at the first fault, prints it and
fails; the one fault that is passed over is that of a restart whose process was not running.

The commands call the handlers directly here, so every exception is made of a fault, or of an answer
that cannot be read; failures of the socket are in `Ctl.Retries`.
-/
import Supervisorcpp.Ctl.Commands

namespace Supervisorcpp

namespace CtlClient

open Bytes (ascii)
open Programs (Ends Program run)

/-! ## The log -/

/-- A call that was answered with a fault: its method, and the text. -/
structure Fault where
  method : Bytes
  what : Bytes
  deriving DecidableEq, Repr

/-- The daemon with the faults it has answered with, in order. -/
def logFaults {σ : Type} (server : Server σ) : Server (σ × List Fault) := fun s method params =>
  match server s.1 method params with
  | (.ok answer, s') => (.ok answer, (s', s.2))
  | (.error what, s') => (.error what, (s', s.2 ++ [⟨method, what⟩]))

/-- The fault a command passes over. -/
def Tolerated (method : Bytes) (f : Fault) : Prop :=
  method = ascii "restart" ∧ f.method = ascii "supervisor.stopProcess" ∧
    ascii "NOT_RUNNING: " <+: f.what

/-- What a command that was called in `s` has done by the time it is in `s'`: output, no error, faults
it passes over, and then these. -/
structure Since {σ : Type} (method : Bytes) (s s' : Session (σ × List Fault)) (last : List Fault) :
    Prop where
  out : s.out <+: s'.out
  err : s'.err = s.err
  faults : ∃ tolerated, (∀ f ∈ tolerated, Tolerated method f) ∧
    s'.daemon.2 = s.daemon.2 ++ tolerated ++ last

/-- An exception comes with the fault it was made of, or with none. -/
def Thrown {σ : Type} (method : Bytes) (s : Session (σ × List Fault)) (e : Error)
    (s' : Session (σ × List Fault)) : Prop :=
  Since method s s' [] ∨ ∃ f, Since method s s' [f] ∧ e = thrownFor f.what

section Since

variable {σ : Type} {method : Bytes} {s s' : Session (σ × List Fault)} {last : List Fault}

theorem Since.refl (method : Bytes) (s : Session (σ × List Fault)) : Since method s s [] :=
  ⟨List.prefix_rfl, rfl, [], List.forall_mem_nil _, by simp⟩

theorem Since.put (h : Since method s s' last) (text : Bytes) : Since method s (s'.put text) last :=
  ⟨h.out.trans (List.prefix_append _ _), h.err, h.faults⟩

/-- A fault that is passed over. -/
theorem Since.tolerate {f : Fault} (h : Since method s s' [f]) (hf : Tolerated method f) :
    Since method s s' [] := by
  obtain ⟨tolerated, hall, hfaults⟩ := h.faults
  refine ⟨h.out, h.err, tolerated ++ [f], ?_, by simpa using hfaults⟩
  intro g hg
  rcases List.mem_append.mp hg with hg | hg
  · exact hall g hg
  · rw [List.mem_singleton.mp hg]
    exact hf

end Since

/-! ## The parts of a command -/

section Parts

variable {σ : Type} {server : Server σ} {method : Bytes} {s₀ s : Session (σ × List Fault)}

/-- Printing adds to the output. -/
theorem ends_print (h : Since method s₀ s []) (text : Bytes) :
    Ends s (print text) (fun _ s' => Since method s₀ s' []) (Thrown method s₀) :=
  h.put text

/-- A call: what it throws is made of the one fault it has logged. -/
theorem ends_fetch_fault (h : Since method s₀ s []) (call : Bytes) (params : List Bytes) :
    Ends s ((direct (logFaults server)).fetch call params) (fun _ s' => Since method s₀ s' [])
      fun e s' => ∃ what, Since method s₀ s' [⟨call, what⟩] ∧ e = thrownFor what := by
  obtain ⟨tolerated, hall, hfaults⟩ := h.faults
  have hrun : run ((direct (logFaults server)).fetch call params) s =
      ((logFaults server s.daemon call params).1.mapError thrownFor,
        { s with daemon := (logFaults server s.daemon call params).2 }) := rfl
  unfold Ends
  rw [hrun, logFaults]
  rcases server s.daemon.1 call params with ⟨answer, t⟩
  cases answer with
  | ok answer => exact ⟨h.out, h.err, tolerated, hall, hfaults⟩
  | error what =>
      refine ⟨what, ⟨h.out, h.err, tolerated, hall, ?_⟩, rfl⟩
      show s.daemon.2 ++ [⟨call, what⟩] = _
      rw [hfaults, List.append_nil]

/-- A call: what it throws comes with the fault it is made of. -/
theorem ends_fetch (h : Since method s₀ s []) (call : Bytes) (params : List Bytes) :
    Ends s ((direct (logFaults server)).fetch call params) (fun _ s' => Since method s₀ s' [])
      (Thrown method s₀) :=
  (ends_fetch_fault h call params).mono (fun _ _ h => h) fun _ _ ⟨what, hsince, he⟩ =>
    .inr ⟨⟨call, what⟩, hsince, he⟩

theorem ends_call (h : Since method s₀ s []) (call : Bytes) (params : List Bytes) :
    Ends s ((direct (logFaults server)).call call params) (fun _ s' => Since method s₀ s' [])
      (Thrown method s₀) :=
  (ends_fetch h call params).bind fun _ _ h => Ends.pure h

/-- Reading an answer may throw, and no fault is behind that. -/
theorem ends_parsed {α : Type} (h : Since method s₀ s []) (result : Except Bytes α) :
    Ends s (parsed result) (fun _ s' => Since method s₀ s' []) (Thrown method s₀) := by
  cases result with
  | ok a => exact h
  | error what => exact .inl h

/-- An exception with a code is made of a fault that starts with it. -/
theorem prefix_of_thrownFor {what code name message : Bytes}
    (h : thrownFor what = .xmlRpcError code name message) : code ++ ascii ": " <+: what := by
  unfold thrownFor faultError at h
  cases hfound : translations.findSome? fun t => translate what t.1 t.2 with
  | none =>
      rw [hfound] at h
      cases h
  | some e =>
      obtain ⟨t, -, ht⟩ := List.exists_of_findSome?_eq_some hfound
      unfold translate at ht
      simp only at ht
      split at ht
      · next hprefix =>
          obtain rfl := Option.some.inj ht
          rw [hfound] at h
          obtain ⟨rfl, -, -⟩ := Error.xmlRpcError.inj h
          exact List.isPrefixOf_iff_prefix.mp hprefix
      · cases ht

/-- The stop of a restart: `NOT_RUNNING` is passed over, and nothing else is. -/
theorem ends_tolerated (h : Since (ascii "restart") s₀ s []) (name : Bytes) :
    Ends s (tryCatch ((direct (logFaults server)).call (ascii "supervisor.stopProcess") [name])
        tolerateNotRunning)
      (fun _ s' => Since (ascii "restart") s₀ s' []) (Thrown (ascii "restart") s₀) := by
  have hcall : Ends s ((direct (logFaults server)).call (ascii "supervisor.stopProcess") [name])
      (fun _ s' => Since (ascii "restart") s₀ s' []) fun e s' => ∃ what,
        Since (ascii "restart") s₀ s' [⟨ascii "supervisor.stopProcess", what⟩] ∧
          e = thrownFor what :=
    (ends_fetch_fault h _ _).bind fun _ _ h => Ends.pure h
  refine hcall.tryCatch ?_
  rintro e s' ⟨what, hsince, rfl⟩
  cases hthrown : thrownFor what with
  | runtimeError text => exact .inr ⟨_, hsince, hthrown.symm⟩
  | xmlRpcError code name message =>
      by_cases hcode : code = ascii "NOT_RUNNING"
      · simp only [tolerateNotRunning, if_pos hcode]
        have hprefix := prefix_of_thrownFor hthrown
        rw [hcode] at hprefix
        exact hsince.tolerate ⟨rfl, rfl, hprefix⟩
      · simp only [tolerateNotRunning, if_neg hcode]
        exact .inr ⟨_, hsince, hthrown.symm⟩

end Parts

/-! ## The commands -/

/-- How a member function ends that does not throw: without a name where one is needed, or done, and
then its exit code is `done`. -/
def Exits {σ : Type} (method : Bytes) (done : Int) (args : List Bytes)
    (s : Session (σ × List Fault)) (code : Int) (s' : Session (σ × List Fault)) : Prop :=
  (code = 1 ∧ done = 0 ∧ args = [] ∧ s' = s.putErr (ascii "Error: process name required\n")) ∨
    (code = done ∧ Since method s s' [])

section Commands

variable {σ : Type} {server : Server σ} {method : Bytes} {s₀ s : Session (σ × List Fault)}

/-- A command that is done returns 0. -/
theorem ends_return (h : Since method s₀ s []) (args : List Bytes) :
    Ends s (pure 0 : Command (σ × List Fault) Int) (Exits method 0 args s₀) (Thrown method s₀) :=
  Ends.pure (.inr ⟨rfl, h⟩)

/-- A command on one process or on all. -/
theorem ends_withName {all : Command (σ × List Fault) PUnit}
    {one : Bytes → Command (σ × List Fault) PUnit} (args : List Bytes)
    (hall : Ends s all (fun _ s' => Since method s s' []) (Thrown method s))
    (hone : ∀ name, Ends s (one name) (fun _ s' => Since method s s' []) (Thrown method s)) :
    Ends s (withName args all one) (Exits method 0 args s) (Thrown method s) := by
  cases args with
  | nil => exact .inl ⟨rfl, rfl, rfl, rfl⟩
  | cons name rest =>
      unfold withName
      by_cases hname : name = ascii "all"
      · simp only [if_pos hname]
        exact hall.bind fun _ s' h => ends_return h _
      · simp only [if_neg hname]
        exact (hone name).bind fun _ s' h => ends_return h _

/-- A call, and the message that it is done. -/
theorem ends_callPrint (h : Since method s₀ s []) (call : Bytes) (params : List Bytes)
    (text : Bytes) :
    Ends s ((direct (logFaults server)).call call params >>= fun _ => print text)
      (fun _ s' => Since method s₀ s' []) (Thrown method s₀) :=
  (ends_call h call params).bind fun _ _ h => ends_print h text

theorem ends_allStatus (h : Since method s s []) (args : List Bytes) :
    Ends s (allStatus (direct (logFaults server))) (Exits method 0 args s) (Thrown method s) := by
  refine (ends_fetch h _ _).bind fun answer s₁ h₁ => ?_
  refine (ends_parsed h₁ _).bind fun infos s₂ h₂ => ?_
  have hprint : Ends s₂ (printProcessInfos infos) (fun _ s' => Since method s s' [])
      (Thrown method s) := Ends.forM (fun info _ h => ends_print h (infoLine info)) h₂
  exact hprint.bind fun _ _ h => ends_return h args

theorem ends_oneStatus (h : Since method s s []) (name : Bytes) (args : List Bytes) :
    Ends s (oneStatus (direct (logFaults server)) name) (Exits method 0 args s)
      (Thrown method s) := by
  refine (ends_fetch h _ _).bind fun answer s₁ h₁ => ?_
  refine (ends_parsed h₁ _).bind fun info s₂ h₂ => ?_
  exact (ends_print h₂ _).bind fun _ _ h => ends_return h args

theorem ends_cmdStatus (h : Since method s s []) (args : List Bytes) :
    Ends s (cmdStatus (direct (logFaults server)) args) (Exits method 0 args s)
      (Thrown method s) := by
  cases args with
  | nil => exact ends_allStatus h []
  | cons name rest =>
      by_cases hname : name = ascii "all"
      · simp only [cmdStatus, if_pos hname]
        exact ends_allStatus h _
      · simp only [cmdStatus, if_neg hname]
        exact ends_oneStatus h name _

/-- The restart, whose stop passes one fault over. -/
theorem ends_cmdRestart (h : Since (ascii "restart") s s []) (args : List Bytes) :
    Ends s (cmdRestart (direct (logFaults server)) args) (Exits (ascii "restart") 0 args s)
      (Thrown (ascii "restart") s) := by
  refine ends_withName args ?_ fun name => ?_
  · exact (ends_call h _ _).bind fun _ _ h => ends_callPrint h _ _ _
  · exact (ends_tolerated h name).bind fun _ _ h => ends_callPrint h _ _ _

/-- The exit code of a command that is done. -/
def CommandFunc.done (func : CommandFunc) : Int := if func = .exit then -1 else 0

/-- Every member function, under the name it has in the table. -/
theorem ends_run {cmd : CommandInfo} (hcmd : cmd ∈ commands) (args : List Bytes)
    (s : Session (σ × List Fault)) :
    Ends s (cmd.func.run (direct (logFaults server)) args)
      (Exits cmd.method cmd.func.done args s) (Thrown cmd.method s) := by
  have h : ∀ method, Since method s s [] := fun method => .refl method s
  simp only [commands, List.mem_cons, List.not_mem_nil, or_false] at hcmd
  rcases hcmd with rfl | rfl | rfl | rfl | rfl | rfl | rfl | rfl | rfl
  · exact ends_cmdStatus (h _) args
  · exact ends_withName args (ends_callPrint (h _) _ _ _) fun name => ends_callPrint (h _) _ _ _
  · exact ends_withName args (ends_callPrint (h _) _ _ _) fun name => ends_callPrint (h _) _ _ _
  · exact ends_cmdRestart (h _) args
  -- shutdown, reload and help print before they do anything
  · refine (ends_print (h _) _).bind fun _ _ h => ?_
    exact (ends_call h _ _).bind fun _ _ h => ends_return h args
  · refine (ends_print (h _) _).bind fun _ _ h => ?_
    refine (ends_call h _ _).bind fun _ _ h => ?_
    exact (ends_print h _).bind fun _ _ h => ends_return h args
  · refine (ends_print (h _) _).bind fun _ _ h => ?_
    refine Ends.bind (Ends.forM (fun cmd _ h => ends_print h (helpLine cmd)) h) fun _ _ h => ?_
    exact ends_return h args
  · exact .inr ⟨rfl, h _⟩
  · exact .inr ⟨rfl, h _⟩

end Commands

/-! ## Exit codes -/

/-- What a command has done, by its exit code. -/
structure Reports {σ : Type} (method : Bytes) (s : Session (σ × List Fault)) (code : Int)
    (s' : Session (σ × List Fault)) : Prop where
  range : code = 0 ∨ code = 1 ∨ code = -1
  out : s.out <+: s'.out
  exit : code = -1 ↔ method = ascii "exit" ∨ method = ascii "quit"
  /-- nothing has gone wrong but what is passed over -/
  done : code ≠ 1 → s'.err = s.err ∧ ∃ tolerated, (∀ f ∈ tolerated, Tolerated method f) ∧
    s'.daemon.2 = s.daemon.2 ++ tolerated
  /-- an error is printed; a fault that is not passed over is the last one, and is what is printed -/
  failed : code = 1 → ∃ text tolerated last, s'.err = s.err ++ (ascii "Error: " ++ text) ∧
    (∀ f ∈ tolerated, Tolerated method f) ∧ s'.daemon.2 = s.daemon.2 ++ tolerated ++ last ∧
    ∀ f ∈ last, last = [f] ∧ text = (thrownFor f.what).what ++ ascii "\n"

section Reports

variable {σ : Type} {method : Bytes} {s s' : Session (σ × List Fault)}

/-- Only `exit` and `quit` end with -1. -/
theorem commands_exit : ∀ cmd ∈ commands,
    (cmd.func.done = -1 ↔ cmd.method = ascii "exit" ∨ cmd.method = ascii "quit") ∧
      (cmd.func.done = 0 ∨ cmd.func.done = -1) := by
  decide

/-- A member function that returns. -/
theorem Exits.reports {cmd : CommandInfo} {args : List Bytes} {code : Int} (hcmd : cmd ∈ commands)
    (h : Exits cmd.method cmd.func.done args s code s') : Reports cmd.method s code s' := by
  obtain ⟨hexit, hdone⟩ := commands_exit cmd hcmd
  rcases h with ⟨rfl, hzero, rfl, rfl⟩ | ⟨rfl, hsince⟩
  · refine ⟨.inr (.inl rfl), List.prefix_rfl, ?_, fun h => absurd rfl h, fun _ => ?_⟩
    · rw [← hexit, hzero]
      decide
    · exact ⟨ascii "process name required\n", [], [], rfl, List.forall_mem_nil _, by
        simp [Session.putErr], List.forall_mem_nil _⟩
  · refine ⟨?_, hsince.out, hexit, fun _ => ⟨hsince.err, ?_⟩, fun hone => ?_⟩
    · exact hdone.imp_right .inr
    · obtain ⟨tolerated, hall, hfaults⟩ := hsince.faults
      exact ⟨tolerated, hall, by simpa using hfaults⟩
    · rcases hdone with h | h
      · rw [h] at hone
        cases hone
      · rw [h] at hone
        cases hone

/-- One that throws: `execute_command` prints the exception. -/
theorem Thrown.reports {e : Error} (h : Thrown method s e s')
    (hexit : ¬(method = ascii "exit" ∨ method = ascii "quit")) :
    Reports method s 1 (s'.putErr (ascii "Error: " ++ e.what ++ ascii "\n")) := by
  have hcode : (1 : Int) = -1 ↔ method = ascii "exit" ∨ method = ascii "quit" :=
    iff_of_false (by decide) hexit
  rcases h with hsince | ⟨f, hsince, rfl⟩
  · obtain ⟨tolerated, hall, hfaults⟩ := hsince.faults
    refine ⟨.inr (.inl rfl), hsince.out, hcode, fun h => absurd rfl h, fun _ => ?_⟩
    refine ⟨e.what ++ ascii "\n", tolerated, [], ?_, hall, hfaults, List.forall_mem_nil _⟩
    simp [Session.putErr, hsince.err]
  · obtain ⟨tolerated, hall, hfaults⟩ := hsince.faults
    refine ⟨.inr (.inl rfl), hsince.out, hcode, fun h => absurd rfl h, fun _ => ?_⟩
    refine ⟨(thrownFor f.what).what ++ ascii "\n", tolerated, [f], ?_, hall, hfaults, ?_⟩
    · simp [Session.putErr, hsince.err]
    · exact List.forall_mem_singleton.mpr ⟨rfl, rfl⟩

/-- Leaving the program is not something that throws. -/
theorem ends_exit {server : Server σ} {cmd : CommandInfo} (hcmd : cmd ∈ commands)
    (args : List Bytes) (s : Session (σ × List Fault)) :
    Ends s (cmd.func.run (direct (logFaults server)) args)
      (Exits cmd.method cmd.func.done args s)
      fun e s' => Thrown cmd.method s e s' ∧ cmd.func ≠ .exit := by
  by_cases hfunc : cmd.func = .exit
  · rw [hfunc]
    exact .inr ⟨rfl, .refl _ s⟩
  · exact (ends_run hcmd args s).mono (fun _ _ h => h) fun _ _ h => ⟨h, hfunc⟩

/-- **What a command reports.**  A command never throws, and its exit code is 0, 1 or -1: -1 exactly for
`exit` and `quit`. Unless it is 1, no call was answered with a fault, but for `NOT_RUNNING` in the stop
of a restart, and nothing is written to the error stream. If it is 1, an error is printed, which is the
text of the fault when there was one, and then no call was made after that. There need not have been
one: a name may be missing, the command unknown, an answer unreadable. -/
theorem exit_code_reports (server : Server σ) (method : Bytes) (args : List Bytes)
    (s : Session (σ × List Fault)) :
    ∃ code s', run (executeCommand (direct (logFaults server)) method args) s = (.ok code, s') ∧
      Reports method s code s' := by
  have hends : Ends s (executeCommand (direct (logFaults server)) method args)
      (Reports method s) fun _ _ => False := by
    unfold executeCommand
    by_cases hempty : method = []
    · subst hempty
      rw [if_pos rfl]
      refine Ends.pure ⟨.inl rfl, List.prefix_rfl, by decide, fun _ => ⟨rfl, [], ?_, ?_⟩, nofun⟩
      · exact List.forall_mem_nil _
      · simp
    rw [if_neg hempty]
    cases hfind : commands.find? fun cmd => cmd.method = method with
    | none =>
        have hexit : ¬(method = ascii "exit" ∨ method = ascii "quit") := by
          rintro (rfl | rfl)
          · exact absurd hfind (by decide)
          · exact absurd hfind (by decide)
        have hunknown : Reports method s 1
            ((s.putErr (ascii "Error: unknown command '" ++ method ++ ascii "'\n")).putErr
              (ascii "Use 'help' for available commands\n")) := by
          refine ⟨.inr (.inl rfl), List.prefix_rfl, iff_of_false (by decide) hexit,
            fun h => absurd rfl h, fun _ => ?_⟩
          refine ⟨ascii "unknown command '" ++ method ++ ascii "'\n" ++
            ascii "Use 'help' for available commands\n", [], [], ?_, List.forall_mem_nil _, ?_,
            List.forall_mem_nil _⟩
          · simp [Session.putErr, ascii]
          · simp [Session.putErr]
        exact Ends.tryCatch hunknown fun _ _ h => False.elim h
    | some cmd =>
        have hcmd := List.mem_of_find?_eq_some hfind
        obtain rfl : cmd.method = method := by simpa using List.find?_some hfind
        refine Ends.tryCatch
          ((ends_exit hcmd args s).mono (fun _ _ h => h.reports hcmd) fun _ _ h => h) ?_
        rintro e s' ⟨hthrown, hfunc⟩
        refine hthrown.reports ?_
        rw [← (commands_exit cmd hcmd).1]
        simp [CommandFunc.done, hfunc]
  unfold Ends at hends
  rcases hrun : run (executeCommand (direct (logFaults server)) method args) s with ⟨r, s'⟩
  rw [hrun] at hends
  cases r with
  | ok code => exact ⟨code, s', rfl, hends⟩
  | error e => exact hends.elim

/-- The handler refuses: the fault is logged, and what is printed says the same in other words. -/
example : run (executeCommand (direct (logFaults fun (n : Nat) _ _ =>
      (.error (ascii "NOT_RUNNING: web"), n + 1))) (ascii "stop") [ascii "web"])
      ⟨[], [], (0, [])⟩ =
    (.ok 1, ⟨[], ascii "Error: web - not running\n",
      (1, [⟨ascii "supervisor.stopProcess", ascii "NOT_RUNNING: web"⟩])⟩) := by
  rfl

end Reports

end CtlClient

end Supervisorcpp
