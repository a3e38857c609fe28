/-
# Where the daemon can block

A statement of the daemon is held up in two ways. `run_for` waits for the time to pass, and the
`waitpid` of `Process::kill` waits for one child. The latter is entered only on top of the stack, for
an object that is still there and has just been sent `SIGKILL`; every other statement can be executed
whatever the world looks like.

A signal that interrupts the `waitpid` ends the wait as well, so a blocked daemon goes on once the
child has exited or a handler has run. Which of the two it was matters to those who count children,
not here.
-/
import Supervisorcpp.Manager.Answers
import Supervisorcpp.Manager.Nested

namespace Supervisorcpp

theorem Outside.processMap_eq {w w' : World} (h : Outside w w') : w'.processMap = w.processMap := by
  cases h <;> rfl

theorem Outside.now_le {w w' : World} (h : Outside w w') : w.now ≤ w'.now := by
  cases h with
  | clock nanos => exact Int.le_add_of_nonneg_right (Int.natCast_nonneg nanos)
  | _ => exact Int.le_refl _

/-! ## The blocking `waitpid` -/

/-- The last thing `o` did was to send `SIGKILL` to its positive pid. -/
structure World.Killing (w : World) (o : ObjId) : Prop where
  live : ∃ p, w.objs o = some p ∧ 0 < p.pid ∧ ∃ record, w.trace.head? = some (.signaled record) ∧
    record.obj = o ∧ record.pid = p.pid ∧ record.sig = .kill

/-- `waitpid` blocks only on top of the stack, right after the signal. -/
structure BlocksOnTop (w : World) (stack : List Frame) : Prop where
  top : ∀ frame rest o, stack = frame :: rest → frame.blocksOn = some o → w.Killing o
  below : ∀ frame ∈ stack.tail, frame.blocksOn = none

section Blocking

variable {env : Answers} {w w' : World} {c c' : Ctl} {frame : Frame} {rest frames stack : List Frame}
  {o : ObjId}

theorem BlocksOnTop.of_none (h : ∀ f ∈ stack, f.blocksOn = none) : BlocksOnTop w stack where
  top := by
    rintro frame rest o rfl ho
    rw [h frame List.mem_cons_self] at ho
    cases ho
  below := fun f hf => h f (List.mem_of_mem_tail hf)

/-- The frames on top of those that do not block. -/
theorem BlocksOnTop.append (h : BlocksOnTop w frames) (hrest : ∀ f ∈ rest, f.blocksOn = none) :
    BlocksOnTop w (frames ++ rest) := by
  cases frames with
  | nil => exact .of_none hrest
  | cons frame frames =>
      refine ⟨?_, ?_⟩
      · rintro f fs o heq ho
        obtain ⟨rfl, _⟩ := List.cons.inj heq
        exact h.top _ _ _ rfl ho
      · intro f hf
        rcases List.mem_append.mp hf with hf | hf
        · exact h.below f hf
        · exact hrest f hf

/-- Behind `kill` the child has got `SIGKILL`, and its process waits for it. -/
theorem killing_callKill {sender : Sender} {env : Env} {p : Process} (hp : w.objs o = some p)
    (hpos : 0 < p.pid) (h : w.callKill o sender env = some w') : w'.Killing o := by
  obtain ⟨q, hq, rfl⟩ := Option.map_eq_some_iff.mp h
  obtain rfl := Option.some.inj (hp.symm.trans hq)
  exact ⟨p, hp, hpos, _, rfl, rfl, rfl, rfl⟩

/-- A destructor waits only behind its own kill. -/
theorem releaseProcess_blocks (h : releaseProcess w o rest env = some (w', frames)) :
    BlocksOnTop w' frames := by
  rcases releaseProcess_cases h with ⟨rfl, _⟩ | ⟨rfl, _⟩ | ⟨p, hp, hpos, hkill, rfl⟩
  · exact .of_none (by simp)
  · exact .of_none (by simp)
  · refine ⟨?_, by simp⟩
    rintro f fs o' heq ho
    obtain ⟨rfl, _⟩ := List.cons.inj heq
    obtain rfl := Option.some.inj ho
    exact killing_callKill hp hpos hkill

/-- The loop of `stop_all` waits only behind a kill of its own. -/
theorem stopAllKill_blocks {after : Option String}
    (h : execFrame env rest w c (.stopAllKill after) = some (w', c', frames)) :
    BlocksOnTop w' frames := by
  simp only [execFrame] at h
  cases he : w.nextEntry after with
  | none =>
      simp only [he] at h
      obtain ⟨_, _, rfl⟩ := by simpa using h
      exact .of_none (by simp [Frame.blocksOn])
  | some e =>
      simp only [he] at h
      split at h
      · next hpos =>
          obtain ⟨v, hv, h⟩ := Option.map_eq_some_iff.mp h
          obtain ⟨rfl, _, rfl⟩ := by simpa using h
          obtain ⟨p, hp, _⟩ := Option.map_eq_some_iff.mp hv
          refine ⟨?_, by simp [Frame.blocksOn]⟩
          rintro f fs o' heq ho
          obtain ⟨rfl, _⟩ := List.cons.inj heq
          obtain rfl := Option.some.inj ho
          exact killing_callKill hp (World.pidOf_eq hp ▸ hpos) hv
      · obtain ⟨_, _, rfl⟩ := by simpa using h
        exact .of_none (by simp [Frame.blocksOn])

/-- Only the force-kill loop and the end of an object go into `waitpid`. -/
theorem pushed_blocksOn {env : Env} {f : Frame} (h : Pushed env w w' frame f)
    (hkill : ∀ after, frame ≠ .stopAllKill after) (hrelease : ∀ o, frame ≠ .release o) :
    f.blocksOn = none := by
  cases h with
  | plain hf => cases f <;> first | rfl | cases hf
  | killWait _ => exact absurd rfl (hkill _)
  | destructorWait _ _ => exact absurd rfl (hrelease _)
  | killNext => rfl
  | _ => rfl

/-- No other statement begins such a wait. -/
theorem execFrame_blocks (h : execFrame env rest w c frame = some (w', c', frames)) :
    BlocksOnTop w' frames := by
  by_cases hkill : ∃ after, frame = .stopAllKill after
  · obtain ⟨after, rfl⟩ := hkill
    exact stopAllKill_blocks h
  · by_cases hrelease : ∃ o, frame = .release o
    · obtain ⟨o, rfl⟩ := hrelease
      obtain ⟨⟨v, fs⟩, hv, h⟩ := Option.map_eq_some_iff.mp h
      obtain ⟨rfl, _, rfl⟩ := by simpa using h
      exact releaseProcess_blocks hv
    · refine .of_none fun f hf => pushed_blocksOn (execFrame_pushed h hf) ?_ ?_
      · exact fun after heq => hkill ⟨after, heq⟩
      · exact fun o heq => hrelease ⟨o, heq⟩

theorem entry_blocksOn {f : Frame} (h : f.IsEntry) : f.blocksOn = none := by
  cases f <;> first | rfl | cases h

/-- Where an event loop runs, no frame blocks. -/
theorem BlocksOnTop.of_looping {now : Int} (h : BlocksOnTop w stack)
    (hloop : looping now stack = true) : ∀ f ∈ stack, f.blocksOn = none := by
  cases stack with
  | nil => cases hloop
  | cons frame rest =>
      have htop : frame.blocksOn = none := by
        cases frame <;> first | rfl | cases hloop
      exact List.forall_mem_cons.mpr ⟨htop, h.below⟩

/-- Only the frame on top waits in a blocking call. -/
theorem BlocksOnTop.step {s s' : Sys} {i : Input} (h : BlocksOnTop s.world s.stack)
    (hstep : step s i = some s') : BlocksOnTop s'.world s'.stack := by
  rcases step_cases hstep with ⟨env, frame, rest, frames, rfl, hs, hs', hexec⟩ |
      ⟨ready, rfl, hw, hloop, _, hdisp⟩ | ⟨_, hout, hs', _⟩
  · rw [hs']
    have hbelow := h.below
    rw [hs] at hbelow
    exact (execFrame_blocks hexec).append hbelow
  · have hnone := h.of_looping hloop
    rcases dispatch_stack hdisp with ⟨pushed, hs', hpushed, _⟩ | ⟨what, hs', _⟩
    · rw [hs']
      refine .of_none fun f hf => ?_
      rcases List.mem_append.mp hf with hf | hf
      · exact entry_blocksOn (hpushed f hf)
      · exact hnone f hf
    · rw [hs']
      refine .of_none fun f hf => ?_
      rcases unwound_of_mem hf with hf | ⟨_, _, _, _, rfl, _⟩ | ⟨_, rfl, _⟩ | rfl
      · exact hnone f hf
      all_goals rfl
  · rw [hs']
    refine ⟨?_, h.below⟩
    intro frame rest o heq ho
    obtain ⟨p, hp, hpos, hrec⟩ := (h.top frame rest o heq ho).live
    exact ⟨p, hout.objs_eq ▸ hp, hpos, hout.trace_eq ▸ hrec⟩

theorem BlocksOnTop.boot {s : Sys} (h : Boot s) : BlocksOnTop s.world s.stack := by
  refine .of_none fun f hf => ?_
  rcases Sys.Wf.boot_frames h f hf with ⟨o, rfl⟩ | rfl | rfl | rfl | rfl | rfl <;> rfl

/-- In every reachable state. -/
theorem BlocksOnTop.reach {guard : Sys → Input → Prop} {s : Sys}
    (h : Machine.Reach Supervisorcpp.step guard Boot s) : BlocksOnTop s.world s.stack :=
  h.invariant (P := fun s => BlocksOnTop s.world s.stack) (fun _ => .boot)
    fun _ _ _ hb _ hstep => hb.step hstep

end Blocking

/-! ## Statements that can be executed -/

/-- This statement never waits for anything. -/
def Frame.ready : Frame → Bool
  | .run => false
  | .waitAll _ (.runFor _) => false
  | .waitStop _ _ (.runFor _) _ => false
  | .killWait _ => false
  | .destructorWait _ => false
  | .undefined => false
  | _ => true

section Ready

variable {w : World} {c : Ctl} {frame : Frame} {rest : List Frame} {o : ObjId} {p : Process}

/-- Calls without a fork can always be carried out. -/
theorem applyCalls_isSome {config : ProgramConfig} {cause : Cause} {sender : Sender} {ok : Bool}
    {calls : List Call} (h : ∀ pid, Call.fork pid ∉ calls) :
    (w.applyCalls o config cause sender ok calls).isSome := by
  induction calls generalizing w with
  | nil => rfl
  | cons call calls ih =>
      have hrest : ∀ pid, Call.fork pid ∉ calls := fun pid hin =>
        h pid (List.mem_cons_of_mem _ hin)
      cases call with
      | fork pid => exact absurd List.mem_cons_self (h pid)
      | kill pid sig => exact ih hrest
      | waitpid pid => exact ih hrest

/-- A `fork` that fails is always an answer. -/
theorem spawn_of_no_fork (config : ProgramConfig) (pid : ChildPid) :
    Process.spawn config {} ≠ .ok pid := by
  unfold Process.spawn
  split
  · simp
  · split <;> simp

theorem start_no_fork (p : Process) (now : Int) (pid : ChildPid) :
    Call.fork pid ∉ (p.start now {}).calls := by
  rcases Process.start_cases p now {} with ⟨_, hout⟩ | ⟨_, hcalls, _⟩ | ⟨_, pid', hspawn, _⟩
  · simp [hout]
  · simp [hcalls]
  · exact absurd hspawn (spawn_of_no_fork p.config pid')

theorem callStart_isSome (hp : w.objs o = some p) : (w.callStart o {}).isSome := by
  simp only [World.callStart, hp, Option.bind_some, Option.isSome_map]
  exact applyCalls_isSome (start_no_fork p w.now)

theorem callStop_isSome (hp : w.objs o = some p) : (w.callStop o {}).isSome := by
  simp only [World.callStop, hp, Option.bind_some, Option.isSome_map]
  apply applyCalls_isSome
  intro pid
  rcases Process.stop_cases p w.now {} with ⟨_, hout⟩ | ⟨_, _, _, hcalls, _⟩
  · simp [hout]
  · simp [hcalls]

theorem callUpdate_isSome (hp : w.objs o = some p) : (w.callUpdate o {}).isSome := by
  simp only [World.callUpdate, hp, Option.bind_some, Option.isSome_map]
  apply applyCalls_isSome
  intro pid
  rcases Process.update_cases p w.now {} with hout | ⟨_, hcalls, _⟩ | ⟨_, _, hout⟩ |
      ⟨_, _, _, hcalls⟩
  · simp [hout]
  · simp [hcalls]
  · simp [hout]
  · rw [hcalls]
    exact start_no_fork p w.now pid

theorem callKill_isSome {sender : Sender} (hp : w.objs o = some p) :
    (w.callKill o sender {}).isSome := by
  simp [World.callKill, hp]

/-- **Only the waits wait.**  Any other statement can be executed: if nothing else, `fork` fails. -/
theorem execFrame_isSome (hwf : w.Wf) (hready : frame.ready = true) :
    (execFrame {} rest w c frame).isSome := by
  have hentry : ∀ {after e}, w.nextEntry after = some e → ∃ p, w.objs e.obj = some p := by
    intro after e he
    obtain ⟨p, hp, _⟩ := hwf.live e (World.nextEntry_mem he)
    exact ⟨p, hp⟩
  have hfind : ∀ {name e}, w.find name = some e → ∃ p, w.objs e.obj = some p := by
    intro name e he
    obtain ⟨p, hp, _⟩ := hwf.live e (World.find_mem he).1
    exact ⟨p, hp⟩
  cases frame with
  | startAll after =>
      simp only [execFrame]
      split
      · rfl
      · next e he =>
          obtain ⟨p, hp⟩ := hentry he
          rw [Option.isSome_map]
          exact callStart_isSome hp
  | onTimer after =>
      simp only [execFrame]
      split
      · rfl
      · next e he =>
          obtain ⟨p, hp⟩ := hentry he
          rw [Option.isSome_map]
          exact callUpdate_isSome hp
  | stopAll =>
      simp only [execFrame]
      split <;> rfl
  | stopAllSignal after signaled =>
      simp only [execFrame]
      split
      · next e he =>
          obtain ⟨p, hp⟩ := hentry he
          split
          · rw [Option.isSome_map]
            exact callStop_isSome hp
          · rfl
      · split <;> rfl
  | waitAll deadline phase =>
      cases phase with
      | check =>
          simp only [execFrame]
          split
          · split <;> rfl
          · rfl
      | runFor until_ => cases hready
  | stopAllKill after =>
      simp only [execFrame]
      split
      · rfl
      · next e he =>
          obtain ⟨p, hp⟩ := hentry he
          split
          · rw [Option.isSome_map]
            exact callKill_isSome hp
          · rfl
  | waitStop o deadline phase next =>
      cases phase with
      | check =>
          simp only [execFrame]
          split
          · split <;> rfl
          · rfl
      | runFor until_ => cases hready
  | release o =>
      simp only [execFrame, Option.isSome_map, releaseProcess]
      split
      · rfl
      · split
        · rfl
        · next p hp =>
            split
            · rw [Option.isSome_map]
              exact callKill_isSome hp
            · rfl
  | startProcess name =>
      simp only [execFrame]
      split
      · rfl
      · next e he =>
          obtain ⟨p, hp⟩ := hfind he
          rw [Option.isSome_map]
          exact callStart_isSome hp
  | removeProcess name =>
      simp only [execFrame, Option.isSome_map, removeProcess]
      split
      · rfl
      · next e he =>
          obtain ⟨p, hp⟩ := hfind he
          simp only [hp, Option.bind_some]
          split
          · rw [Option.isSome_map]
            exact callStop_isSome hp
          · rfl
  | syncRemove it newPrograms =>
      cases it with
      | none => rfl
      | some it =>
          simp only [execFrame]
          split
          · rfl
          · split <;> rfl
  | syncAdd newPrograms =>
      cases newPrograms with
      | nil => rfl
      | cons prog progs =>
          simp only [execFrame]
          split
          · rfl
          · next e he =>
              obtain ⟨p, hp⟩ := hfind he
              simp [hp]
  | reloadConfig =>
      simp only [execFrame]
      split
      · rfl
      · split
        · rfl
        · rfl
  | clearMap =>
      simp only [execFrame]
      split <;> rfl
  | rpcStartProcess params =>
      simp only [execFrame, Option.isSome_map]
      cases params with
      | nil => rfl
      | cons name params =>
          simp only [rpcStartProcess]
          split
          · rfl
          · next e he =>
              obtain ⟨p, hp⟩ := hfind he
              simp only [hp, Option.bind_some]
              split
              · rfl
              · obtain ⟨r, hr⟩ := Option.isSome_iff_exists.mp (callStart_isSome hp)
                simp only [hr, Option.bind_some]
                split <;> rfl
  | rpcStopProcess params =>
      simp only [execFrame, Option.isSome_map]
      cases params with
      | nil => rfl
      | cons name params =>
          simp only [rpcStopProcess]
          split
          · rfl
          · next e he =>
              obtain ⟨p, hp⟩ := hfind he
              simp only [hp, Option.bind_some]
              split
              · rfl
              · obtain ⟨r, hr⟩ := Option.isSome_iff_exists.mp (callStop_isSome hp)
                simp only [hr, Option.bind_some]
                split <;> rfl
  | run => cases hready
  | killWait o => cases hready
  | destructorWait o => cases hready
  | undefined => cases hready
  | _ => rfl

end Ready

end Supervisorcpp
