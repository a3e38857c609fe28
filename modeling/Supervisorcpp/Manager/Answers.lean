/-
# Requests are answered once, innermost first

A request whose handler waits is answered after the requests that were served during its wait, and
an exception that leaves the event loop is reported to the request whose handler was running it.
The record of requests and answers is nested: every answer goes to the request that was asked last
and has not been answered yet, and what is open is what the frames on the stack still have to answer.

The property is that of balanced parentheses, so the library of nested activities does the counting.
The daemon's part is that no statement answers twice, that the one that answers is the innermost
that is still open, and that an exception unwinds to the request it belongs to.
-/
import Supervisorcpp.Lib.Nesting
import Supervisorcpp.Manager.Invariant

namespace Supervisorcpp

open Nesting (Mark replay)

/-! ## What is asked and answered -/

/-- The request this frame will answer. -/
def Frame.owes : Frame → Option Request
  | .rpcStartProcess params => some (.startProcess params)
  | .rpcStopProcess params => some (.stopProcess params)
  | .answer request => some request
  | .fault request _ => some request
  | _ => none

/-- The request this event is the answer of. -/
def Event.request? : Event → Option Request
  | .answered request _ => some request
  | _ => none

/-- The request this event dispatches. -/
def Ready.request? : Ready → Option Request
  | .rpc request => some request
  | _ => none

/-- The answers in the trace, newest first. -/
def World.answers (w : World) : List Request := w.trace.filterMap Event.request?

/-- The requests the stack has to answer, innermost first. -/
def pending (stack : List Frame) : List Request := stack.filterMap Frame.owes

/-- The answers given between two worlds, oldest first. -/
def newAnswers (w w' : World) : List Request :=
  (w'.answers.take (w'.answers.length - w.answers.length)).reverse

/-- What a step adds to the record: the request it takes in, or the answers it gives. -/
def exchanges (s : Sys) : Input → List (Mark Request)
  | .dispatch ready => ready.request?.toList.map .opened
  | i => ((step s i).map fun s' => (newAnswers s.world s'.world).map Mark.closed).getD []

/-! ## Effects on the answers -/

section Effects

variable {L : Limits} {env : Env} {w w' : World}

@[simp] theorem note_answers (w : World) (ev : Event) :
    (w.note ev).answers = ev.request?.toList ++ w.answers := by
  unfold World.answers
  rw [World.note_trace, List.filterMap_cons]
  cases ev.request? <;> rfl

/-- The answers are read off the trace. -/
theorem answers_of_trace (h : w'.trace = w.trace) : w'.answers = w.answers := by
  unfold World.answers
  rw [h]

/-- Reaping answers nothing. -/
theorem reapAll_answers (w : World) (zs : List (Child × WaitStatus)) :
    (zs.foldl (fun w z => w.reap z.1 z.2) w).answers = w.answers := by
  induction zs generalizing w with
  | nil => rfl
  | cons z zs ih =>
      rw [List.foldl_cons, ih]
      unfold World.reap
      dsimp only
      split
      · rfl
      · split <;> rfl

/-- Within limits that admit no answer, no answer is given. -/
theorem Effect.answers_eq (h : Effect L env w w')
    (hsilent : ∀ v ev, L.remark v ev → ev.request? = none) : w'.answers = w.answers := by
  induction h with
  | same w => rfl
  | remark _ hlim =>
      rw [note_answers, hsilent _ _ hlim]
      rfl
  | start _ _ h =>
      obtain ⟨p, _, ⟨_, _, rfl⟩ | ⟨_, _, q, _, _, _, rfl⟩ | ⟨_, _, q, pid, _, _, _, _, rfl⟩⟩ :=
        World.callStart_cases h <;> rfl
  | stop _ _ h =>
      obtain ⟨p, _, ⟨_, _, rfl⟩ | ⟨_, _, _, q, _, _, _, _, rfl⟩⟩ := World.callStop_cases h <;> rfl
  | update _ _ h =>
      obtain ⟨p, _, rfl | ⟨_, q, _, _, _, rfl⟩ | ⟨_, _, rfl⟩ | ⟨_, q, _, _, _, rfl⟩ |
        ⟨_, q, pid, _, _, _, _, rfl⟩⟩ := World.callUpdate_cases h <;> rfl
  | kill _ _ _ => rfl
  | finishKill _ h =>
      obtain ⟨p, _, ⟨_, rfl⟩ | ⟨c, _, _, rfl⟩⟩ := World.finishKill_cases h <;> rfl
  | reap _ => exact reapAll_answers _ _
  | add _ => exact answers_of_trace (World.addProcess_trace _ _)
  | leave _ h =>
      obtain ⟨e, _, _, _, rfl⟩ := World.eraseNode_cases h
      rfl
  | destroy _ _ => rfl
  | trans _ _ ih ih' => exact ih'.trans ih

theorem callStart_answers {o : ObjId} {r : Bool} (h : w.callStart o env = some (w', r)) :
    w'.answers = w.answers := by
  obtain ⟨p, _, ⟨_, _, rfl⟩ | ⟨_, _, q, _, _, _, rfl⟩ | ⟨_, _, q, pid, _, _, _, _, rfl⟩⟩ :=
    World.callStart_cases h <;> rfl

theorem callStop_answers {o : ObjId} {r : Bool} (h : w.callStop o env = some (w', r)) :
    w'.answers = w.answers := by
  obtain ⟨p, _, ⟨_, _, rfl⟩ | ⟨_, _, _, q, _, _, _, _, rfl⟩⟩ := World.callStop_cases h <;> rfl

end Effects

/-! ## Statements

A statement answers the innermost open request, or the open requests stay as they are. -/

/-- What a statement does to the requests that are open and to the answers. -/
inductive Turn : List Request → List Request → List Request → List Request → Prop
  | idle {open_ answers : List Request} : Turn open_ answers open_ answers
  | answer {open_ answers : List Request} (request : Request) :
      Turn (request :: open_) answers open_ (request :: answers)

section Statements

variable {env : Answers} {rest frames : List Frame} {w w' : World} {c c' : Ctl} {frame : Frame}

@[simp] theorem pending_cons (frame : Frame) (stack : List Frame) :
    pending (frame :: stack) = frame.owes.toList ++ pending stack := by
  unfold pending
  rw [List.filterMap_cons]
  cases frame.owes <;> rfl

@[simp] theorem pending_append (stack stack' : List Frame) :
    pending (stack ++ stack') = pending stack ++ pending stack' := by
  unfold pending
  rw [List.filterMap_append]

/-- Frames that owe nothing are no pending requests. -/
theorem pending_eq_nil {stack : List Frame} (h : ∀ f ∈ stack, f.owes = none) :
    pending stack = [] :=
  List.filterMap_eq_nil_iff.mpr h

/-- Only a stop request leaves a frame behind that owes an answer. -/
theorem owes_of_pushed {env : Env} {f : Frame} (h : Pushed env w w' frame f)
    (hstop : ∀ params, frame ≠ .rpcStopProcess params) : f.owes = none := by
  cases h with
  | plain hf => cases f <;> first | rfl | cases hf
  | stopAnswer _ _ _ => exact absurd rfl (hstop _)
  | _ => rfl

/-- The requests a remark can answer are those its statement owes. -/
theorem Remarks.request_eq {env : Env} {v : World} {ev : Event} (h : Remarks env w frame v ev)
    (howes : frame.owes = none) : ev.request? = none := by
  cases h <;> first | rfl | cases howes

/-- `supervisor.startProcess` is answered in the statement that handles it. -/
theorem rpcStartProcess_answers {params : List String}
    (h : rpcStartProcess w params env = some w') :
    w'.answers = .startProcess params :: w.answers := by
  cases params with
  | nil =>
      obtain rfl := Option.some.inj h
      exact note_answers _ _
  | cons name params =>
      simp only [rpcStartProcess] at h
      cases hf : w.find name with
      | none =>
          simp only [hf] at h
          obtain rfl := Option.some.inj h
          exact note_answers _ _
      | some e =>
          simp only [hf] at h
          obtain ⟨p, hp, h⟩ := Option.bind_eq_some_iff.mp h
          split at h
          · obtain rfl := Option.some.inj h
            exact note_answers _ _
          · obtain ⟨⟨v, r⟩, hv, h⟩ := Option.bind_eq_some_iff.mp h
            dsimp only at h
            rw [← callStart_answers hv]
            split at h
            · obtain rfl := Option.some.inj h
              exact note_answers _ _
            · obtain rfl := Option.some.inj h
              exact note_answers _ _

/-- `supervisor.stopProcess` is answered at once, or by the frame behind its wait. -/
theorem rpcStopProcess_answers {params : List String}
    (h : rpcStopProcess w params env = some (w', frames)) :
    w'.answers = .stopProcess params :: w.answers ∧ frames = [] ∨
      w'.answers = w.answers ∧ ∃ o deadline,
        frames = [.waitStop o deadline .check .return_, .answer (.stopProcess params)] := by
  cases params with
  | nil =>
      obtain ⟨rfl, rfl⟩ := Prod.mk.inj (Option.some.inj h)
      exact .inl ⟨note_answers _ _, rfl⟩
  | cons name params =>
      simp only [rpcStopProcess] at h
      cases hf : w.find name with
      | none =>
          simp only [hf] at h
          obtain ⟨rfl, rfl⟩ := Prod.mk.inj (Option.some.inj h)
          exact .inl ⟨note_answers _ _, rfl⟩
      | some e =>
          simp only [hf] at h
          obtain ⟨p, hp, h⟩ := Option.bind_eq_some_iff.mp h
          split at h
          · obtain ⟨rfl, rfl⟩ := Prod.mk.inj (Option.some.inj h)
            exact .inl ⟨note_answers _ _, rfl⟩
          · obtain ⟨⟨v, r⟩, hv, h⟩ := Option.bind_eq_some_iff.mp h
            have hsame := callStop_answers hv
            cases r with
            | true =>
                obtain ⟨rfl, rfl⟩ := Prod.mk.inj (Option.some.inj h)
                exact .inr ⟨hsame, _, _, rfl⟩
            | false =>
                obtain ⟨rfl, rfl⟩ := Prod.mk.inj (Option.some.inj h)
                exact .inl ⟨by rw [← hsame]; exact note_answers _ _, rfl⟩

/-- **One statement, at most one answer**, and it goes to the innermost open request. -/
theorem execFrame_turn (hin : Within {} env.toEnv w frame)
    (h : execFrame env rest w c frame = some (w', c', frames)) :
    Turn (pending (frame :: rest)) w.answers (pending (frames ++ rest)) w'.answers := by
  rw [pending_cons, pending_append]
  cases howes : frame.owes with
  | none =>
      have hstop : ∀ params, frame ≠ .rpcStopProcess params := by
        rintro params rfl
        cases howes
      have hframes : pending frames = [] :=
        pending_eq_nil fun f hf => owes_of_pushed (execFrame_pushed h hf) hstop
      have hsilent : Within { remark := fun _ ev => ev.request? = none } env.toEnv w frame :=
        { hin with remark := fun v ev hrem => hrem.request_eq howes }
      rw [hframes, (execFrame_effect hsilent h).answers_eq fun _ _ hlim => hlim]
      exact .idle
  | some request =>
      cases frame with
      | rpcStartProcess params =>
          obtain rfl := Option.some.inj howes
          obtain ⟨v, hv, h⟩ := Option.map_eq_some_iff.mp h
          obtain ⟨rfl, rfl, rfl⟩ := by simpa using h
          rw [rpcStartProcess_answers hv]
          exact .answer _
      | rpcStopProcess params =>
          obtain rfl := Option.some.inj howes
          obtain ⟨⟨v, fs⟩, hv, h⟩ := Option.map_eq_some_iff.mp h
          obtain ⟨rfl, rfl, rfl⟩ := by simpa using h
          rcases rpcStopProcess_answers hv with ⟨hanswers, rfl⟩ | ⟨hanswers, o, deadline, rfl⟩
          · rw [hanswers]
            exact .answer _
          · rw [hanswers]
            exact .idle
      | answer request =>
          obtain rfl := Option.some.inj howes
          obtain ⟨rfl, _, rfl⟩ := by simpa [execFrame] using h
          rw [note_answers]
          exact .answer _
      | fault request what =>
          obtain rfl := Option.some.inj howes
          obtain ⟨rfl, _, rfl⟩ := by simpa [execFrame] using h
          rw [note_answers]
          exact .answer _
      | _ => cases howes

end Statements

/-! ## Events

An event is taken while an event loop runs, and below a loop no frame answers without being the
`answer` that waits for its handler. An exception therefore passes no request over. -/

/-- Frames that owe an answer and are executed before the event loop runs again. -/
def Frame.immediate : Frame → Bool
  | .rpcStartProcess _ => true
  | .rpcStopProcess _ => true
  | .fault _ _ => true
  | _ => false

/-- Frames that drop a reference, in which no event loop runs. -/
def Frame.drops : Frame → Bool
  | .release _ => true
  | .destructorWait _ => true
  | _ => false

/-- Above a frame that is executed before the event loop runs again, references are dropped and
nothing else. -/
def Prompt (stack : List Frame) : Prop :=
  stack.Pairwise fun above f => f.immediate = true → above.drops = true

section Events

variable {env : Answers} {rest frames stack stack' : List Frame} {w w' : World} {c c' : Ctl}
  {frame : Frame} {now : Int} {ready : Ready}

theorem Prompt.of_none (h : ∀ f ∈ stack, f.immediate = false) : Prompt stack := by
  refine List.Pairwise.imp_of_mem ?_ (List.pairwise_of_forall fun _ _ => trivial)
  intro above f _ hf _ himm
  rw [h f hf] at himm
  cases himm

/-- Frames that owe nothing at once, on top of a stack. -/
theorem Prompt.push (h : Prompt rest) (hframes : ∀ f ∈ frames, f.immediate = false)
    (hcross : ∀ f ∈ frames, ∀ g ∈ rest, g.immediate = true → f.drops = true) :
    Prompt (frames ++ rest) :=
  List.pairwise_append.mpr ⟨Prompt.of_none hframes, h, hcross⟩

/-- No frame that a statement pushes has to be next: only answers and faults do, and they are on the
stack already. -/
theorem pushed_immediate {env : Env} {f : Frame} (h : Pushed env w w' frame f) :
    f.immediate = false := by
  cases h with
  | plain hf => cases f <;> first | rfl | cases hf
  | _ => rfl

/-- The reference was not the last one or the object is gone; or the object goes at once; or it goes
when its child, which has been sent `SIGKILL`, has exited. -/
theorem releaseProcess_cases {o : ObjId} (h : releaseProcess w o rest env = some (w', frames)) :
    (frames = [] ∧ w' = w ∧
      ((w.mapped o || rest.any (Frame.holds o)) = true ∨ w.objs o = none)) ∨
    (frames = [] ∧ w' = w.destroy o) ∨
    ∃ p, w.objs o = some p ∧ 0 < p.pid ∧ w.callKill o .destructor env.toEnv = some w' ∧
      frames = [.destructorWait o] := by
  unfold releaseProcess at h
  split at h
  · next hheld =>
      obtain ⟨rfl, rfl⟩ := Prod.mk.inj (Option.some.inj h)
      exact .inl ⟨rfl, rfl, .inl hheld⟩
  · cases hp : w.objs o with
    | none =>
        simp only [hp] at h
        obtain ⟨rfl, rfl⟩ := Prod.mk.inj (Option.some.inj h)
        exact .inl ⟨rfl, rfl, .inr rfl⟩
    | some p =>
        simp only [hp] at h
        split at h
        · next hpos =>
            obtain ⟨v, hv, h⟩ := Option.map_eq_some_iff.mp h
            obtain ⟨rfl, rfl⟩ := Prod.mk.inj h
            exact .inr (.inr ⟨p, rfl, hpos, hv, rfl⟩)
        · obtain ⟨rfl, rfl⟩ := Prod.mk.inj (Option.some.inj h)
          exact .inr (.inl ⟨rfl, rfl⟩)

/-- A frame that drops a reference leaves at most another such frame behind. -/
theorem drops_of_drops {f : Frame} (h : execFrame env rest w c frame = some (w', c', frames))
    (hdrops : frame.drops = true) (hf : f ∈ frames) : f.drops = true := by
  cases frame with
  | release o =>
      obtain ⟨⟨v, fs⟩, hv, h⟩ := Option.map_eq_some_iff.mp h
      obtain ⟨rfl, rfl, rfl⟩ := by simpa using h
      rcases releaseProcess_cases hv with ⟨rfl, _⟩ | ⟨rfl, _⟩ | ⟨_, _, _, _, rfl⟩
      · cases hf
      · cases hf
      · obtain rfl := List.mem_singleton.mp hf
        rfl
  | destructorWait o =>
      obtain ⟨v, _, h⟩ := Option.map_eq_some_iff.mp h
      obtain ⟨_, _, rfl⟩ := by simpa using h
      cases hf
  | _ => cases hdrops

/-- A statement that is executed leaves those that have to be next on top. -/
theorem Prompt.exec (hprompt : Prompt (frame :: rest))
    (h : execFrame env rest w c frame = some (w', c', frames)) : Prompt (frames ++ rest) := by
  obtain ⟨htop, hrest⟩ := List.pairwise_cons.mp hprompt
  refine Prompt.push hrest (fun f hf => pushed_immediate (execFrame_pushed h hf)) ?_
  intro f hf g hg himm
  exact drops_of_drops h (htop g hg himm) hf

/-- While an event loop runs, no frame of the stack is executed before it runs again. -/
theorem Prompt.none_immediate (h : Prompt stack) (hloop : looping now stack = true) :
    ∀ f ∈ stack, f.immediate = false := by
  cases stack with
  | nil => cases hloop
  | cons frame rest =>
      obtain ⟨htop, _⟩ := List.pairwise_cons.mp h
      have hdrops : frame.drops = false ∧ frame.immediate = false := by
        cases frame <;> first | exact ⟨rfl, rfl⟩ | cases hloop
      intro f hf
      rcases List.mem_cons.mp hf with rfl | hf
      · exact hdrops.2
      · cases himm : f.immediate with
        | false => rfl
        | true =>
            have hcontra := htop f hf himm
            rw [hdrops.1] at hcontra
            cases hcontra

/-- An exception passes no request over. -/
theorem unwind_pending (what : String) (h : ∀ f ∈ stack, f.immediate = false) :
    pending (unwind what stack) = pending stack ∧ Prompt (unwind what stack) := by
  induction stack with
  | nil => exact ⟨rfl, List.Pairwise.nil⟩
  | cons frame rest ih =>
      obtain ⟨hframe, hrest⟩ := List.forall_mem_cons.mp h
      obtain ⟨hpending, hprompt⟩ := ih hrest
      cases frame with
      | waitStop o deadline phase next =>
          exact ⟨hpending, List.pairwise_cons.mpr ⟨fun _ _ _ => rfl, hprompt⟩⟩
      | release o => exact ⟨hpending, List.pairwise_cons.mpr ⟨fun _ _ _ => rfl, hprompt⟩⟩
      | answer request =>
          refine ⟨rfl, List.pairwise_cons.mpr ⟨?_, Prompt.of_none hrest⟩⟩
          intro f hf himm
          rw [hrest f hf] at himm
          cases himm
      | reloadDone config =>
          exact ⟨rfl, Prompt.of_none (List.forall_mem_cons.mpr ⟨rfl, hrest⟩)⟩
      | run => exact ⟨rfl, Prompt.of_none hrest⟩
      | rpcStartProcess params => cases hframe
      | rpcStopProcess params => cases hframe
      | fault request what => cases hframe
      | _ => exact ⟨hpending, hprompt⟩

/-- An event opens the request it brings, and no other. -/
theorem dispatch_pending (hprompt : Prompt stack) (hloop : looping now stack = true)
    (h : dispatch now c stack ready = some (c', stack')) :
    pending stack' = ready.request?.toList ++ pending stack ∧ Prompt stack' := by
  have hnone := hprompt.none_immediate hloop
  -- a handler on top of the loop
  have hpush : ∀ (first : Frame) (more : List Frame), (∀ f ∈ more, f.immediate = false) →
      Prompt (first :: more ++ stack) := by
    intro first more hmore
    refine List.pairwise_cons.mpr ⟨?_, hprompt.push hmore ?_⟩
    · intro f hf himm
      rcases List.mem_append.mp hf with hf | hf
      · rw [hmore f hf] at himm
        cases himm
      · rw [hnone f hf] at himm
        cases himm
    · intro _ _ g hg himm
      rw [hnone g hg] at himm
      cases himm
  cases ready with
  | sigchld =>
      obtain ⟨_, rfl⟩ := Prod.mk.inj (Option.some.inj h)
      exact ⟨rfl, hpush _ [] (by simp)⟩
  | timer =>
      simp only [dispatch] at h
      split at h
      · obtain ⟨_, rfl⟩ := Prod.mk.inj (Option.some.inj h)
        exact ⟨rfl, hpush _ [] (by simp)⟩
      · cases h
  | rpc request =>
      simp only [dispatch] at h
      split at h
      · obtain ⟨_, rfl⟩ := Prod.mk.inj (Option.some.inj h)
        rw [pending_append]
        cases request with
        | startProcess params => exact ⟨rfl, hpush _ [] (by simp)⟩
        | stopProcess params => exact ⟨rfl, hpush _ [] (by simp)⟩
        | shutdown => exact ⟨rfl, hpush _ [] (by simp)⟩
        | startAllProcesses => exact ⟨rfl, hpush _ [_] (by simp [Frame.immediate])⟩
        | stopAllProcesses => exact ⟨rfl, hpush _ [_] (by simp [Frame.immediate])⟩
        | reloadConfig => exact ⟨rfl, hpush _ [_] (by simp [Frame.immediate])⟩
      · cases h
  | posted =>
      simp only [dispatch] at h
      split at h
      · obtain ⟨_, rfl⟩ := Prod.mk.inj (Option.some.inj h)
        exact ⟨rfl, hpush _ [.ioStop] (by simp [Frame.immediate])⟩
      · cases h
  | sigterm =>
      simp only [dispatch] at h
      split at h
      · obtain ⟨_, rfl⟩ := Prod.mk.inj (Option.some.inj h)
        exact ⟨rfl, hpush _ [.ioStop] (by simp [Frame.immediate])⟩
      · cases h
  | sighup =>
      simp only [dispatch] at h
      split at h
      · obtain ⟨_, rfl⟩ := Prod.mk.inj (Option.some.inj h)
        exact ⟨rfl, hpush _ [.rearmSighup] (by simp [Frame.immediate])⟩
      · cases h
  | throwingRead what =>
      simp only [dispatch] at h
      split at h
      · obtain ⟨_, rfl⟩ := Prod.mk.inj (Option.some.inj h)
        exact unwind_pending what hnone
      · cases h

end Events

/-! ## Runs -/

/-- The daemon with the record of its requests and answers. -/
def recordedStep : Sys × List (Mark Request) → Input → Option (Sys × List (Mark Request)) :=
  Machine.logged step exchanges

/-- The recorded daemon at its start: nothing has been dispatched or answered. -/
def RecordedBoot (s : Sys × List (Mark Request)) : Prop := Boot s.1 ∧ s.2 = []

/-- The record is nested, the stack owes what is open, and the trace holds what was closed. -/
structure Recorded (s : Sys × List (Mark Request)) : Prop where
  wf : s.1.Wf
  prompt : Prompt s.1.stack
  nested : replay [] s.2 = some (pending s.1.stack)
  answers : s.2.filterMap Mark.closed? = s.1.world.answers.reverse

section Runs

variable {s : Sys} {t t' : Sys × List (Mark Request)} {i : Input}

theorem newAnswers_of_eq {w w' : World} (h : w'.answers = w.answers) : newAnswers w w' = [] := by
  simp [newAnswers, h]

/-- A turn as the record sees it. -/
theorem Turn.recorded {w w' : World} {open_ open' : List Request}
    (h : Turn open_ w.answers open' w'.answers) :
    replay open_ ((newAnswers w w').map .closed) = some open' ∧
      w.answers.reverse ++ newAnswers w w' = w'.answers.reverse := by
  generalize hnew : w'.answers = answers' at h
  generalize hold : w.answers = answers at h
  cases h with
  | idle =>
      rw [newAnswers_of_eq (hnew.trans hold.symm)]
      exact ⟨rfl, List.append_nil _⟩
  | answer request =>
      have hone : newAnswers w w' = [request] := by
        have hlength : answers.length + 1 - answers.length = 1 := by omega
        simp [newAnswers, hnew, hold, hlength]
      rw [hone, List.map_singleton, replay, if_pos rfl]
      exact ⟨rfl, List.reverse_cons.symm⟩

/-- At the start nothing is pending and nothing recorded. -/
theorem recorded_boot (h : RecordedBoot t) : Recorded t := by
  obtain ⟨hboot, hlog⟩ := h
  have hnone : ∀ f ∈ t.1.stack, f.owes = none ∧ f.immediate = false := by
    intro f hf
    rcases Sys.Wf.boot_frames hboot f hf with ⟨o, rfl⟩ | rfl | rfl | rfl | rfl | rfl <;>
      exact ⟨rfl, rfl⟩
  refine ⟨Sys.Wf.boot hboot, Prompt.of_none fun f hf => (hnone f hf).2, ?_, ?_⟩
  · rw [hlog, pending_eq_nil fun f hf => (hnone f hf).1]
    rfl
  · rw [hlog, World.answers, boot_trace hboot]
    rfl

/-- Every step keeps record and stack together. -/
theorem recorded_step (h : Recorded t) (hstep : recordedStep t i = some t') : Recorded t' := by
  obtain ⟨hs, hlog⟩ := Machine.logged_eq_some hstep
  rcases step_cases hs with ⟨env, frame, rest, frames, rfl, hstack, hstack', hexec⟩ |
      ⟨ready, rfl, hworld, hloop, _, hdisp⟩ | ⟨⟨hne, hnd⟩, hout, hstack, _⟩
  · have hprompt : Prompt (frame :: rest) := hstack ▸ h.prompt
    have hturn := execFrame_turn (h.wf.within hstack) hexec
    have hnested := h.nested
    have hemit : exchanges t.1 (.exec env) =
        (newAnswers t.1.world t'.1.world).map Mark.closed := by
      simp only [exchanges, hs, Option.map_some, Option.getD_some]
    obtain ⟨hreplay, hanswers⟩ := hturn.recorded
    refine ⟨h.wf.step hs, hstack' ▸ hprompt.exec hexec, ?_, ?_⟩
    · rw [hlog, hemit, Nesting.replay_append, hnested, hstack, hstack', Option.bind_some]
      exact hreplay
    · rw [hlog, hemit, List.filterMap_append, h.answers, Nesting.closed_map_closed]
      exact hanswers
  · obtain ⟨hpending, hprompt⟩ := dispatch_pending h.prompt hloop hdisp
    have hemit : exchanges t.1 (.dispatch ready) = ready.request?.toList.map .opened := rfl
    refine ⟨h.wf.step hs, hprompt, ?_, ?_⟩
    · rw [hlog, hemit, Nesting.replay_append, h.nested, Option.bind_some, hpending]
      cases ready.request? <;> rfl
    · rw [hlog, hemit, List.filterMap_append, h.answers, hworld, Nesting.closed_map_opened,
        List.append_nil]
  · have hsame : t'.1.world.answers = t.1.world.answers := answers_of_trace hout.trace_eq
    have hemit : exchanges t.1 i = [] := by
      cases i with
      | exec env => exact absurd rfl (hne env)
      | dispatch ready => exact absurd rfl (hnd ready)
      | _ => simp only [exchanges, hs, Option.map_some, Option.getD_some, newAnswers_of_eq hsame,
          List.map_nil]
    refine ⟨h.wf.step hs, hstack ▸ h.prompt, ?_, ?_⟩
    · rw [hlog, hemit, List.append_nil, hstack]
      exact h.nested
    · rw [hlog, hemit, List.append_nil, hsame]
      exact h.answers

/-- **Every request is answered once, innermost first.**  In every run each answer goes to the
request asked last among those still open, the open requests are those the stack has to answer, and
when the stack is empty every request has had its one answer. -/
theorem answered_once_innermost_first
    (h : Machine.Reach recordedStep Machine.anyStep RecordedBoot t) :
    replay [] t.2 = some (pending t.1.stack) ∧
      t.2.filterMap Mark.closed? = t.1.world.answers.reverse ∧
      (t.1.stack = [] → (t.2.filterMap Mark.opened?).Perm t.1.world.answers) := by
  have hrec : Recorded t :=
    h.invariant (fun _ => recorded_boot) fun _ _ _ hrec _ hstep => recorded_step hrec hstep
  refine ⟨hrec.nested, hrec.answers, ?_⟩
  intro hempty
  have hperm := Nesting.replay_perm hrec.nested
  rw [hempty, hrec.answers, List.append_nil] at hperm
  have hnil : pending [] = [] := rfl
  rw [hnil, List.append_nil] at hperm
  exact hperm.trans (List.reverse_perm _)

/-- While `stopProcess` waits for its child, another request is asked and answered. -/
def Input.askedMeanwhile : List Input :=
  [.forking ⟨500, by decide⟩, .next, .request (.stopProcess ["web"]), .next, .next,
    .request (.startProcess ["db"]), .next, .childExit 0 (.exited 0), .clock 10000000, .next, .next,
    .next, .next, .next]

theorem answered_once_innermost_first_meanwhile : ∃ t : Sys × List (Mark Request),
    t.2 = [.opened (.stopProcess ["web"]), .opened (.startProcess ["db"]),
      .closed (.startProcess ["db"]), .closed (.stopProcess ["web"])] ∧
      replay [] t.2 = some (pending t.1.stack) ∧
      t.2.filterMap Mark.closed? = t.1.world.answers.reverse := by
  have hinit : Machine.Reach recordedStep Machine.anyStep RecordedBoot
      (bootSimple ["web"], []) := .init ⟨boot_bootSimple ["web"], rfl⟩
  obtain ⟨t, hreach, hlog⟩ := Machine.Reach.exists_of_run
    (p := fun t : Sys × List (Mark Request) =>
      decide (t.2 = [.opened (.stopProcess ["web"]), .opened (.startProcess ["db"]),
        .closed (.startProcess ["db"]), .closed (.stopProcess ["web"])])) hinit
    (show (Machine.run recordedStep (bootSimple ["web"], []) Input.askedMeanwhile).any _ = true by
      decide)
  obtain ⟨hnested, hanswers, _⟩ := answered_once_innermost_first hreach
  exact ⟨t, of_decide_eq_true hlog, hnested, hanswers⟩

end Runs

end Supervisorcpp
