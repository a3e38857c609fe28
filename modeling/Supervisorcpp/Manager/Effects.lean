/-
# What one statement can do to the world

Every statement of the daemon is one call of a `Process` member function, one reap, or one change of
`process_map_`, possibly followed by a remark in the trace. `Effect` lists these, with room for
what a run is assumed to avoid (`Limits`), and `execFrame_effect` is the only place where the
statements are taken apart: an invariant of the world is proved against `Effect`.

The limits are predicates on the world in which an effect takes place: who may be started, stopped
or killed, when exits may be reaped, which wait may be cut short. A guarantee that needs a condition
on the run instantiates them with its own, and one that needs none takes the default, which admits
everything.
-/
import Supervisorcpp.Manager.Daemon

namespace Supervisorcpp

/-! ## The small operations -/

namespace Child

variable (cid : Nat) (status : WaitStatus) (c : Child)

@[simp] theorem exit_cid : (c.exit cid status).cid = c.cid := by
  unfold Child.exit
  split <;> rfl

@[simp] theorem exit_pid : (c.exit cid status).pid = c.pid := by
  unfold Child.exit
  split <;> rfl

@[simp] theorem exit_obj : (c.exit cid status).obj = c.obj := by
  unfold Child.exit
  split <;> rfl

@[simp] theorem exit_name : (c.exit cid status).name = c.name := by
  unfold Child.exit
  split <;> rfl

end Child

namespace World

variable {w w' : World} {o o' : ObjId} {p p' : Process}

@[simp] theorem setObj_objs : (w.setObj o p).objs = Function.update w.objs o (some p) := rfl
@[simp] theorem setObj_nextObj : (w.setObj o p).nextObj = w.nextObj := rfl
@[simp] theorem setObj_processMap : (w.setObj o p).processMap = w.processMap := rfl
@[simp] theorem setObj_nextNode : (w.setObj o p).nextNode = w.nextNode := rfl
@[simp] theorem setObj_children : (w.setObj o p).children = w.children := rfl
@[simp] theorem setObj_nextCid : (w.setObj o p).nextCid = w.nextCid := rfl
@[simp] theorem setObj_now : (w.setObj o p).now = w.now := rfl
@[simp] theorem setObj_trace : (w.setObj o p).trace = w.trace := rfl

@[simp] theorem note_objs (ev : Event) : (w.note ev).objs = w.objs := rfl
@[simp] theorem note_nextObj (ev : Event) : (w.note ev).nextObj = w.nextObj := rfl
@[simp] theorem note_processMap (ev : Event) : (w.note ev).processMap = w.processMap := rfl
@[simp] theorem note_nextNode (ev : Event) : (w.note ev).nextNode = w.nextNode := rfl
@[simp] theorem note_children (ev : Event) : (w.note ev).children = w.children := rfl
@[simp] theorem note_nextCid (ev : Event) : (w.note ev).nextCid = w.nextCid := rfl
@[simp] theorem note_now (ev : Event) : (w.note ev).now = w.now := rfl
@[simp] theorem note_trace (ev : Event) : (w.note ev).trace = ev :: w.trace := rfl

@[simp] theorem addChild_objs (c : Child) (k : Cause) : (w.addChild c k).objs = w.objs := rfl
@[simp] theorem addChild_nextObj (c : Child) (k : Cause) :
    (w.addChild c k).nextObj = w.nextObj := rfl
@[simp] theorem addChild_processMap (c : Child) (k : Cause) :
    (w.addChild c k).processMap = w.processMap := rfl
@[simp] theorem addChild_nextNode (c : Child) (k : Cause) :
    (w.addChild c k).nextNode = w.nextNode := rfl
@[simp] theorem addChild_children (c : Child) (k : Cause) :
    (w.addChild c k).children = c :: w.children := rfl
@[simp] theorem addChild_nextCid (c : Child) (k : Cause) :
    (w.addChild c k).nextCid = w.nextCid + 1 := rfl
@[simp] theorem addChild_now (c : Child) (k : Cause) : (w.addChild c k).now = w.now := rfl
@[simp] theorem addChild_trace (c : Child) (k : Cause) :
    (w.addChild c k).trace = .forked c k :: w.trace := rfl

/-- Putting an object where it is changes nothing. -/
theorem setObj_self (h : w.objs o = some p) : w.setObj o p = w := by
  have : Function.update w.objs o (some p) = w.objs := by
    rw [← h]
    exact Function.update_eq_self o w.objs
  unfold setObj
  rw [this]

/-- The pid of a live object. -/
theorem pidOf_eq (h : w.objs o = some p) : w.pidOf o = p.pid := by
  simp [pidOf, h]

theorem pidOf_setObj : (w.setObj o p).pidOf o' = if o' = o then p.pid else w.pidOf o' := by
  by_cases h : o' = o
  · subst h
    simp [pidOf]
  · simp [pidOf, h]

/-- The map refers to an object by one of its entries. -/
theorem mapped_iff : w.mapped o = true ↔ ∃ e ∈ w.processMap, e.obj = o := by
  simp [mapped]

/-- What is found is an entry of that name. -/
theorem find_mem {name : String} {e : Entry} (h : w.find name = some e) :
    e ∈ w.processMap ∧ e.name = name := by
  refine ⟨List.mem_of_find?_eq_some h, ?_⟩
  simpa using List.find?_some h

theorem nextEntry_mem {after : Option String} {e : Entry} (h : w.nextEntry after = some e) :
    e ∈ w.processMap :=
  List.mem_of_find?_eq_some h

/-- What is found is a child of that pid. -/
theorem childOf_mem {pid : Int} {c : Child} (h : w.childOf pid = some c) :
    c ∈ w.children ∧ c.pid = pid := by
  refine ⟨List.mem_of_find?_eq_some h, ?_⟩
  simpa using List.find?_some h

/-! ## Calls of member functions -/

/-- The object is already up, or nothing was forked, or a child with an unused pid was. -/
theorem callStart_cases {env : Env} {r : Bool} (h : w.callStart o env = some (w', r)) :
    ∃ p, w.objs o = some p ∧
      (((p.state = .running ∨ p.state = .starting) ∧ r = true ∧
          w' = w.note (.startCalled o p.config.name)) ∨
        ((p.state ≠ .running ∧ p.state ≠ .starting) ∧ r = false ∧
          ∃ q : Process, q.pid = p.pid ∧ q.config = p.config ∧
            (q.state = .fatal ∨ q.state = .backoff) ∧
            w' = (w.note (.startCalled o p.config.name)).setObj o q) ∨
        ((p.state ≠ .running ∧ p.state ≠ .starting) ∧ r = true ∧
          ∃ (q : Process) (pid : ChildPid), (∀ c ∈ w.children, c.pid ≠ pid.val) ∧
            q.pid = pid.val ∧ q.config = p.config ∧ q.state = .starting ∧
            w' = ((w.note (.startCalled o p.config.name)).addChild
              ⟨w.nextCid, pid.val, o, p.config.name, none⟩ .explicit).setObj o q)) := by
  obtain ⟨p, hp, h⟩ := Option.bind_eq_some_iff.mp h
  refine ⟨p, hp, ?_⟩
  obtain ⟨v, hv, hr⟩ := Option.map_eq_some_iff.mp h
  obtain ⟨rfl, rfl⟩ := Prod.mk.inj hr
  rcases Process.start_cases p w.now env with ⟨hup, hout⟩ | ⟨hup, hcalls, hres, hpid, hcfg, hst⟩ |
      ⟨hup, pid, _, hcalls, hres, hpid, hcfg, hst⟩
  · left
    rw [hout] at hv ⊢
    obtain rfl : w.note (.startCalled o p.config.name) = v := by simpa [applyCalls] using hv
    exact ⟨hup, rfl, setObj_self hp⟩
  · right; left
    rw [hcalls] at hv
    obtain rfl : w.note (.startCalled o p.config.name) = v := by simpa [applyCalls] using hv
    exact ⟨hup, hres, _, hpid, hcfg, hst, rfl⟩
  · right; right
    rw [hcalls] at hv
    simp only [applyCalls] at hv
    split at hv
    · cases hv
    · next hfresh =>
        refine ⟨hup, hres, _, pid, ?_, hpid, hcfg, hst, ?_⟩
        · simpa using hfresh
        · rw [← Option.some.inj hv]
          rfl

/-- A stop is refused, or the object enters `stopping` and its pid is signalled. -/
theorem callStop_cases {env : Env} {r : Bool} (h : w.callStop o env = some (w', r)) :
    ∃ p, w.objs o = some p ∧
      (((p.pid ≤ 0 ∨ p.state = .stopped) ∧ r = false ∧ w' = w.note (.stopCalled o)) ∨
        (0 < p.pid ∧ p.state ≠ .stopped ∧ r = env.killOk ∧
          ∃ q : Process, q.pid = p.pid ∧ q.config = p.config ∧ q.state = .stopping ∧
            q.stateChangeTime = (if p.state = .stopping then p.stateChangeTime else w.now) ∧
            w' = ((w.note (.stopCalled o)).signal o p.config p.pid (Process.stopSignal p.config)
              .stop env.killOk).setObj o q)) := by
  obtain ⟨p, hp, h⟩ := Option.bind_eq_some_iff.mp h
  refine ⟨p, hp, ?_⟩
  obtain ⟨v, hv, hr⟩ := Option.map_eq_some_iff.mp h
  obtain ⟨rfl, rfl⟩ := Prod.mk.inj hr
  rcases Process.stop_cases p w.now env with ⟨hno, hout⟩ |
      ⟨hpos, hst, hres, hcalls, hpid, hcfg, hst', htime⟩
  · left
    rw [hout] at hv ⊢
    obtain rfl : w.note (.stopCalled o) = v := by simpa [applyCalls] using hv
    exact ⟨hno, rfl, setObj_self (w := w.note _) hp⟩
  · right
    rw [hcalls] at hv
    obtain rfl := Option.some.inj hv
    exact ⟨hpos, hst, hres, _, hpid, hcfg, hst', htime, rfl⟩

/-- A tick does nothing, promotes the object, sends the late `SIGKILL`, or starts it again. -/
theorem callUpdate_cases {env : Env} (h : w.callUpdate o env = some w') :
    ∃ p, w.objs o = some p ∧
      (w' = w ∨
        (p.state = .starting ∧ ∃ q : Process, q.pid = p.pid ∧ q.config = p.config ∧
          q.state = .running ∧ w' = w.setObj o q) ∨
        (p.state = .stopping ∧ p.config.stopwaitsecs.toInt ≤ p.elapsed w.now ∧
          w' = w.signal o p.config p.pid .kill .update env.killOk) ∨
        ((p.state = .backoff ∧ (p.backoffDelay env).toInt ≤ p.elapsed w.now) ∧
          ∃ q : Process, q.pid = p.pid ∧ q.config = p.config ∧
            (q.state = .fatal ∨ q.state = .backoff) ∧ w' = w.setObj o q) ∨
        ((p.state = .backoff ∧ (p.backoffDelay env).toInt ≤ p.elapsed w.now) ∧
          ∃ (q : Process) (pid : ChildPid), (∀ c ∈ w.children, c.pid ≠ pid.val) ∧
            q.pid = pid.val ∧ q.config = p.config ∧ q.state = .starting ∧
            w' = (w.addChild ⟨w.nextCid, pid.val, o, p.config.name, none⟩ .update).setObj o q)) := by
  obtain ⟨p, hp, h⟩ := Option.bind_eq_some_iff.mp h
  refine ⟨p, hp, ?_⟩
  obtain ⟨v, hv, rfl⟩ := Option.map_eq_some_iff.mp h
  rcases Process.update_cases p w.now env with hout | ⟨hst, hcalls, hpid, hcfg, hst'⟩ |
      ⟨hst, hel, hout⟩ | ⟨hst, hel, hproc, hcalls⟩
  · left
    rw [hout] at hv ⊢
    obtain rfl : w = v := by simpa [applyCalls] using hv
    exact setObj_self hp
  · right; left
    rw [hcalls] at hv
    obtain rfl : w = v := by simpa [applyCalls] using hv
    exact ⟨hst, _, hpid, hcfg, hst', rfl⟩
  · right; right; left
    rw [hout] at hv ⊢
    obtain rfl := Option.some.inj hv
    exact ⟨hst, hel, setObj_self hp⟩
  · right; right; right
    rw [hcalls] at hv
    rw [hproc]
    rcases Process.start_cases p w.now env with ⟨hup, _⟩ | ⟨_, hcalls', _, hpid, hcfg, hst'⟩ |
        ⟨_, pid, _, hcalls', _, hpid, hcfg, hst'⟩
    · simp [hst] at hup
    · left
      rw [hcalls'] at hv
      obtain rfl : w = v := by simpa [applyCalls] using hv
      exact ⟨⟨hst, hel⟩, _, hpid, hcfg, hst', rfl⟩
    · right
      rw [hcalls'] at hv
      simp only [applyCalls] at hv
      split at hv
      · cases hv
      · next hfresh =>
          refine ⟨⟨hst, hel⟩, _, pid, by simpa using hfresh, hpid, hcfg, hst', ?_⟩
          rw [← Option.some.inj hv]

/-- The wait of `kill` found no such child or was interrupted, or it reaped the child. -/
theorem finishKill_cases {env : Env} (h : w.finishKill o env = some w') :
    ∃ p, w.objs o = some p ∧
      (((w.childOf p.pid = none ∨ w.waitCut o env = true) ∧ w' = w.setObj o (p.killed w.now)) ∨
        (∃ c, w.childOf p.pid = some c ∧ c.status.isSome ∧
          w' = { w with children := w.children.erase c }.setObj o (p.killed w.now))) := by
  obtain ⟨p, hp, h⟩ := Option.bind_eq_some_iff.mp h
  refine ⟨p, hp, ?_⟩
  cases hc : w.childOf p.pid with
  | none =>
      simp only [hc] at h
      exact .inl ⟨.inl rfl, (Option.some.inj h).symm⟩
  | some c =>
      simp only [hc] at h
      cases hs : c.status with
      | none =>
          simp only [hs] at h
          split at h
          · next hcut =>
              have hwait : w.waitCut o env = true := by
                simp [waitCut, hcut, pidOf_eq hp, hc, hs]
              exact .inl ⟨.inr hwait, (Option.some.inj h).symm⟩
          · cases h
      | some status =>
          simp only [hs] at h
          exact .inr ⟨c, rfl, Option.isSome_iff_exists.mpr ⟨_, hs⟩, (Option.some.inj h).symm⟩

/-- Erasing takes one entry out and leaves its object for the caller. -/
theorem eraseNode_cases {node : NodeId} (h : w.eraseNode node = some (w', o)) :
    ∃ e ∈ w.processMap, e.node = node ∧ e.obj = o ∧
      w' = { w with processMap := w.processMap.filter fun e' => e'.node ≠ node } := by
  obtain ⟨e, he, hr⟩ := Option.map_eq_some_iff.mp h
  obtain ⟨rfl, rfl⟩ := Prod.mk.inj hr
  refine ⟨e, List.mem_of_find?_eq_some he, ?_, rfl, rfl⟩
  simpa using List.find?_some he

end World

/-- Nothing happened to `process_map_`, the set of objects or the clock. -/
structure World.SameMap (w w' : World) : Prop where
  processMap : w'.processMap = w.processMap
  nextObj : w'.nextObj = w.nextObj
  now : w'.now = w.now

namespace World.SameMap

variable {w w' w'' : World} {o : ObjId} {env : Env} {r : Bool}

theorem refl (w : World) : w.SameMap w := ⟨rfl, rfl, rfl⟩

theorem symm (h : w.SameMap w') : w'.SameMap w :=
  ⟨h.processMap.symm, h.nextObj.symm, h.now.symm⟩

theorem trans (h : w.SameMap w') (h' : w'.SameMap w'') : w.SameMap w'' :=
  ⟨h'.processMap.trans h.processMap, h'.nextObj.trans h.nextObj, h'.now.trans h.now⟩

/-- The same map refers to the same objects. -/
theorem mapped_eq (h : w.SameMap w') : w'.mapped o = w.mapped o := by
  unfold mapped
  rw [h.processMap]

theorem note (w : World) (ev : Event) : w.SameMap (w.note ev) := ⟨rfl, rfl, rfl⟩

theorem callStart (h : w.callStart o env = some (w', r)) : w.SameMap w' := by
  obtain ⟨p, _, ⟨_, _, rfl⟩ | ⟨_, _, q, _, _, _, rfl⟩ | ⟨_, _, q, pid, _, _, _, _, rfl⟩⟩ :=
    callStart_cases h <;> exact ⟨rfl, rfl, rfl⟩

theorem callStop (h : w.callStop o env = some (w', r)) : w.SameMap w' := by
  obtain ⟨p, _, ⟨_, _, rfl⟩ | ⟨_, _, _, q, _, _, _, _, rfl⟩⟩ := callStop_cases h <;>
    exact ⟨rfl, rfl, rfl⟩

theorem callUpdate (h : w.callUpdate o env = some w') : w.SameMap w' := by
  obtain ⟨p, _, rfl | ⟨_, q, _, _, _, rfl⟩ | ⟨_, _, rfl⟩ | ⟨_, q, _, _, _, rfl⟩ |
    ⟨_, q, pid, _, _, _, _, rfl⟩⟩ := callUpdate_cases h <;> exact ⟨rfl, rfl, rfl⟩

theorem callKill {sender : Sender} (h : w.callKill o sender env = some w') : w.SameMap w' := by
  obtain ⟨p, _, rfl⟩ := Option.map_eq_some_iff.mp h
  exact ⟨rfl, rfl, rfl⟩

theorem destroy (w : World) (o : ObjId) : w.SameMap (w.destroy o) := ⟨rfl, rfl, rfl⟩

theorem finishKill (h : w.finishKill o env = some w') : w.SameMap w' := by
  obtain ⟨p, _, ⟨_, rfl⟩ | ⟨c, _, _, rfl⟩⟩ := finishKill_cases h <;> exact ⟨rfl, rfl, rfl⟩

theorem reap (w : World) (c : Child) (status : WaitStatus) : w.SameMap (w.reap c status) := by
  unfold World.reap
  dsimp only
  split
  · exact ⟨rfl, rfl, rfl⟩
  · split <;> exact ⟨rfl, rfl, rfl⟩

theorem reapAll (w : World) (zs : List (Child × WaitStatus)) :
    w.SameMap (zs.foldl (fun w z => w.reap z.1 z.2) w) := by
  induction zs generalizing w with
  | nil => exact refl w
  | cons z zs ih => exact (reap w z.1 z.2).trans (ih _)

theorem handleSigchld (w : World) : w.SameMap w.handleSigchld.1 := reapAll w _

end World.SameMap

/-! ## What the next statement is about to do -/

/-- The object on which this statement calls `start`, if the call is going to spawn. -/
def spawnTarget (env : Env) (w : World) : Frame → Option ObjId
  | .startAll after => (w.nextEntry after).bind fun e => notUp e.obj
  | .startProcess name => (w.find name).bind fun e => notUp e.obj
  | .rpcStartProcess (name :: _) => (w.find name).bind fun e => notUp e.obj
  | .onTimer after =>
    (w.nextEntry after).bind fun e => (w.objs e.obj).bind fun p =>
      if p.state = .backoff ∧ (p.backoffDelay env).toInt ≤ p.elapsed w.now then some e.obj else none
  | _ => none
where
  notUp (o : ObjId) : Option ObjId :=
    (w.objs o).bind fun p => if p.state = .running ∨ p.state = .starting then none else some o

/-- The object that leaves `process_map_` in this statement. -/
def leaveTarget (env : Env) (w : World) : Frame → Option ObjId
  | .waitStop o deadline .check (.erase node) =>
    if 0 < w.pidOf o ∧ w.now < deadline then none
    else (w.eraseNode node).map (·.2)
  | .removeProcess name =>
    (w.find name).bind fun e =>
      if 0 < w.pidOf e.obj ∧ (w.callStop e.obj env).any (·.2) then none
      else (w.eraseNode e.node).map (·.2)
  | .addProcess config => (w.find config.name).map (·.obj)
  | .clearMap => w.processMap.head?.map (·.obj)
  | _ => none

/-- This statement calls `handle_sigchld_`. -/
def reaps (w : World) : Frame → Bool
  | .handleSigchld => true
  | .waitAll deadline .check => w.hasRunningProcesses && decide (w.now < deadline)
  | .waitStop o deadline .check _ => decide (0 < w.pidOf o ∧ w.now < deadline)
  | _ => false

/-- The object this frame waits for in `waitpid`. -/
def Frame.blocksOn : Frame → Option ObjId
  | .killWait o => some o
  | .destructorWait o => some o
  | _ => none

/-- The statements that call `stop`. -/
def Frame.callsStop : Frame → Bool
  | .stopAllSignal _ _ => true
  | .removeProcess _ => true
  | .rpcStopProcess _ => true
  | _ => false

/-- Between two worlds nothing was forked for `o`: it has the child it had, or none. -/
structure Kept (o : ObjId) (w v : World) : Prop where
  objs : ∀ q, v.objs o = some q → 0 < q.pid →
    ∃ p, w.objs o = some p ∧ q.config = p.config ∧ q.pid = p.pid
  children : ∀ c ∈ v.children, c.obj = o →
    ∃ c' ∈ w.children, c'.cid = c.cid ∧ c'.pid = c.pid ∧ c'.obj = o
  trace : w.trace <:+ v.trace
  now : w.now ≤ v.now

namespace Kept

variable {o o' : ObjId} {w v u : World}

theorem refl (o : ObjId) (w : World) : Kept o w w where
  objs := fun q hq _ => ⟨q, hq, rfl, rfl⟩
  children := fun c hc ho => ⟨c, hc, rfl, rfl, ho⟩
  trace := List.suffix_rfl
  now := Int.le_refl _

theorem trans (h : Kept o w v) (h' : Kept o v u) : Kept o w u where
  objs := by
    intro q hq hpos
    obtain ⟨p, hp, hcfg, hpid⟩ := h'.objs q hq hpos
    obtain ⟨p', hp', hcfg', hpid'⟩ := h.objs p hp (hpid ▸ hpos)
    exact ⟨p', hp', hcfg.trans hcfg', hpid.trans hpid'⟩
  children := by
    intro c hc ho
    obtain ⟨c', hc', hcid, hpid, ho'⟩ := h'.children c hc ho
    obtain ⟨c'', hc'', hcid', hpid', ho''⟩ := h.children c' hc' ho'
    exact ⟨c'', hc'', hcid'.trans hcid, hpid'.trans hpid, ho''⟩
  trace := h.trace.trans h'.trace
  now := Int.le_trans h.now h'.now

theorem note (o : ObjId) (w : World) (ev : Event) : Kept o w (w.note ev) :=
  { refl o w with trace := List.suffix_cons ev w.trace }

/-- Writing an object back with the pid it had, or with none. -/
theorem setObj {p q : Process} (o : ObjId) (hp : w.objs o' = some p) (hcfg : q.config = p.config)
    (hpid : q.pid = p.pid ∨ q.pid ≤ 0) : Kept o w (w.setObj o' q) :=
  { refl o w with
    objs := by
      intro q' hq' hpos
      by_cases heq : o = o'
      · subst heq
        obtain rfl : q = q' := by simpa using hq'
        exact ⟨p, hp, hcfg, by omega⟩
      · exact ⟨q', by simpa [heq] using hq', rfl, rfl⟩ }

theorem eraseChild (o : ObjId) (w : World) (c : Child) :
    Kept o w { w with children := w.children.erase c } :=
  { refl o w with
    children := fun c' hc' ho => ⟨c', List.mem_of_mem_erase hc', rfl, rfl, ho⟩ }

/-- Another object forks. -/
theorem fork {c : Child} {cause : Cause} {q : Process} (hne : o ≠ c.obj) :
    Kept o w ((w.addChild c cause).setObj c.obj q) where
  objs := fun q' hq' _ => ⟨q', by simpa [hne] using hq', rfl, rfl⟩
  children := by
    intro c' hc' ho
    rcases List.mem_cons.mp hc' with rfl | hc'
    · exact absurd ho.symm hne
    · exact ⟨c', hc', rfl, rfl, ho⟩
  trace := List.suffix_cons _ _
  now := Int.le_refl _

theorem callStop {env : Env} {r : Bool} (o : ObjId) (h : w.callStop o' env = some (v, r)) :
    Kept o w v := by
  obtain ⟨p, hp, ⟨_, _, rfl⟩ | ⟨_, _, _, q, hpid, hcfg, _, _, rfl⟩⟩ := World.callStop_cases h
  · exact note o w _
  · exact ((note o w _).trans (note o _ _)).trans (setObj o hp hcfg (.inl hpid))

end Kept

/-- What a run may be assumed to avoid: a spawn, a stop whose signal fails, a forced kill, an end of
its wait, a reap, an object leaving the map, a remark in the trace. -/
structure Limits where
  spawn : World → ObjId → Prop := fun _ _ => True
  stop : Env → Prop := fun _ => True
  forceKill : World → ObjId → Prop := fun _ _ => True
  wait : World → ObjId → Env → Prop := fun _ _ _ => True
  reap : World → Prop := fun _ => True
  leave : World → ObjId → Prop := fun _ _ => True
  remark : World → Event → Prop := fun _ _ => True

/-- Trace entries that are not the effect of a system call. -/
def Event.IsRemark : Event → Prop
  | .stopReturned _ _ => True
  | .stopAllReturned => True
  | .answered _ _ => True
  | _ => False

/-- The effects of one statement, within the limits `L`. -/
inductive Effect (L : Limits) (env : Env) : World → World → Prop
  | same (w : World) : Effect L env w w
  | remark {w : World} {ev : Event} : ev.IsRemark → L.remark w ev → Effect L env w (w.note ev)
  | start {w w' : World} {e : Entry} {r : Bool} : e ∈ w.processMap →
      (∀ p, w.objs e.obj = some p → p.state ≠ .running ∧ p.state ≠ .starting → L.spawn w e.obj) →
      w.callStart e.obj env = some (w', r) → Effect L env w w'
  | stop {w w' : World} {e : Entry} {r : Bool} : e ∈ w.processMap → L.stop env →
      w.callStop e.obj env = some (w', r) → Effect L env w w'
  | update {w w' : World} {e : Entry} : e ∈ w.processMap →
      (∀ p, w.objs e.obj = some p → p.state = .backoff ∧
        (p.backoffDelay env).toInt ≤ p.elapsed w.now → L.spawn w e.obj) →
      w.callUpdate e.obj env = some w' → Effect L env w w'
  | kill {w : World} {o : ObjId} {p : Process} {sender : Sender} : w.objs o = some p → 0 < p.pid →
      sender = .forceKill ∧ L.forceKill w o ∨ sender = .destructor ∧ w.mapped o = false →
      Effect L env w (w.signal o p.config p.pid .kill sender env.killOk)
  | finishKill {w w' : World} {o : ObjId} : L.wait w o env → w.finishKill o env = some w' →
      Effect L env w w'
  | reap {w : World} : L.reap w → Effect L env w w.handleSigchld.1
  | add {w : World} {config : ProgramConfig} :
      (∀ e, w.find config.name = some e → L.leave w e.obj) →
      Effect L env w (w.addProcess config).1
  | leave {w w' : World} {node : NodeId} {o : ObjId} : L.leave w o →
      w.eraseNode node = some (w', o) → Effect L env w w'
  | destroy {w : World} {o : ObjId} : w.mapped o = false → w.pidOf o ≤ 0 →
      Effect L env w (w.destroy o)
  | trans {w v w' : World} : Effect L env w v → Effect L env v w' → Effect L env w w'

/-- The remark a statement makes, and the world it is made in. -/
inductive Remarks (env : Env) (w : World) : Frame → World → Event → Prop
  | stopAllDone :
      Remarks env w .stopAllDone w .stopAllReturned
  | waitStop {o : ObjId} {deadline : Int} {next : AfterStop} :
      ¬ (0 < w.pidOf o ∧ w.now < deadline) →
      Remarks env w (.waitStop o deadline .check next) w (.stopReturned o (w.pidOf o))
  | rpcStart {params : List String} {v : World} {fault : Option String} :
      Remarks env w (.rpcStartProcess params) v (.answered (.startProcess params) fault)
  | rpcStopNoName :
      Remarks env w (.rpcStopProcess []) w (.answered (.stopProcess []) (some nameRequired))
  | rpcStopBadName {name : String} {params : List String} : w.find name = none →
      Remarks env w (.rpcStopProcess (name :: params)) w
        (.answered (.stopProcess (name :: params)) (some ("BAD_NAME: " ++ name)))
  | rpcStopNotRunning {name : String} {params : List String} {e : Entry} {p : Process} :
      w.find name = some e → w.objs e.obj = some p →
      p.state = .stopped ∨ p.state = .exited ∨ p.state = .fatal →
      Remarks env w (.rpcStopProcess (name :: params)) w
        (.answered (.stopProcess (name :: params)) (some ("NOT_RUNNING: " ++ name)))
  | rpcStopRefused {name : String} {params : List String} {e : Entry} {p : Process} {v : World} :
      w.find name = some e → w.objs e.obj = some p →
      ¬ (p.state = .stopped ∨ p.state = .exited ∨ p.state = .fatal) →
      w.callStop e.obj env = some (v, false) →
      Remarks env w (.rpcStopProcess (name :: params)) v
        (.answered (.stopProcess (name :: params)) (some ("NOT_RUNNING: " ++ name)))
  | answer {request : Request} : Remarks env w (.answer request) w (.answered request none)
  | fault {request : Request} {what : String} :
      Remarks env w (.fault request what) w (.answered request (some what))

/-! ## The statements, taken apart -/

/-- A statement meets the limits `L`. -/
structure Within (L : Limits) (env : Env) (w : World) (frame : Frame) : Prop where
  spawn : ∀ o, spawnTarget env w frame = some o → L.spawn w o
  stop : frame.callsStop = true → L.stop env
  forceKill : ∀ after e, frame = .stopAllKill after → w.nextEntry after = some e →
    L.forceKill w e.obj
  wait : ∀ o, frame.blocksOn = some o → L.wait w o env
  reap : reaps w frame = true → L.reap w
  leave : ∀ v o, leaveTarget env w frame = some o → Kept o w v → L.leave v o
  remark : ∀ v ev, Remarks env w frame v ev → L.remark v ev
  destroy : ∀ o, frame = .destructorWait o → w.mapped o = false

section Taken

variable {L : Limits} {env : Answers} {w w' : World} {frame : Frame}

/-- A statement that returns the world it was given. -/
theorem Effect.of_unchanged {α : Type} {x y : α} (h : some (w, x) = some (w', y)) :
    Effect L env.toEnv w w' := by
  obtain ⟨rfl, _⟩ := Prod.mk.inj (Option.some.inj h)
  exact .same w

/-- A process that is not up is one to be spawned. -/
theorem notUp_eq_some {e : Entry} {p : Process} (hp : w.objs e.obj = some p)
    (hup : p.state ≠ .running ∧ p.state ≠ .starting) :
    spawnTarget.notUp w e.obj = some e.obj := by
  simp [spawnTarget.notUp, hp, hup]

/-- Erasing a node that exists is a `leave`; with a dangling iterator nothing happens any more. -/
theorem eraseFrames_effect {node : NodeId} {held : List Frame}
    (hleave : ∀ o, (w.eraseNode node).map (·.2) = some o → L.leave w o) :
    Effect L env.toEnv w (w.eraseFrames node held).1 := by
  unfold World.eraseFrames
  cases h : w.eraseNode node with
  | none => exact .same w
  | some r =>
      obtain ⟨v, o⟩ := r
      exact .leave (hleave o (by simp [h])) h

/-- Behind the wait of `kill` the object has no pid, whatever has become of its child. -/
theorem finishKill_pidOf {o : ObjId} {env : Env} (h : w.finishKill o env = some w') : w'.pidOf o = -1 := by
  obtain ⟨p, hp, ⟨_, rfl⟩ | ⟨c, _, _, rfl⟩⟩ := World.finishKill_cases h <;>
    simp [World.pidOf_setObj]

theorem rpcStartProcess_effect {params : List String}
    (hin : Within L env.toEnv w (.rpcStartProcess params))
    (h : rpcStartProcess w params env = some w') : Effect L env.toEnv w w' := by
  have hremark : ∀ v fault, L.remark v (.answered (.startProcess params) fault) :=
    fun v fault => hin.remark v _ .rpcStart
  cases params with
  | nil =>
      obtain rfl := Option.some.inj h
      exact .remark trivial (hremark _ _)
  | cons name params =>
      simp only [rpcStartProcess] at h
      cases hf : w.find name with
      | none =>
          simp only [hf] at h
          obtain rfl := Option.some.inj h
          exact .remark trivial (hremark _ _)
      | some e =>
          simp only [hf] at h
          obtain ⟨p, hp, h⟩ := Option.bind_eq_some_iff.mp h
          split at h
          · obtain rfl := Option.some.inj h
            exact .remark trivial (hremark _ _)
          · obtain ⟨⟨v, r⟩, hv, h⟩ := Option.bind_eq_some_iff.mp h
            have hstart : Effect L env.toEnv w v := by
              refine .start (World.find_mem hf).1 ?_ hv
              intro q hq hup
              apply hin.spawn e.obj
              simp only [spawnTarget, hf, Option.bind_some]
              exact notUp_eq_some hq hup
            dsimp only at h
            split at h
            · obtain rfl := Option.some.inj h
              exact .trans hstart (.remark trivial (hremark _ _))
            · obtain rfl := Option.some.inj h
              exact .trans hstart (.remark trivial (hremark _ _))

theorem rpcStopProcess_effect {params : List String} {frames : List Frame}
    (hin : Within L env.toEnv w (.rpcStopProcess params))
    (h : rpcStopProcess w params env = some (w', frames)) : Effect L env.toEnv w w' := by
  cases params with
  | nil =>
      obtain ⟨rfl, _⟩ := Prod.mk.inj (Option.some.inj h)
      exact .remark trivial (hin.remark _ _ .rpcStopNoName)
  | cons name params =>
      simp only [rpcStopProcess] at h
      cases hf : w.find name with
      | none =>
          simp only [hf] at h
          obtain ⟨rfl, _⟩ := Prod.mk.inj (Option.some.inj h)
          exact .remark trivial (hin.remark _ _ (.rpcStopBadName hf))
      | some e =>
          simp only [hf] at h
          obtain ⟨p, hp, h⟩ := Option.bind_eq_some_iff.mp h
          split at h
          · next hst =>
              obtain ⟨rfl, _⟩ := Prod.mk.inj (Option.some.inj h)
              exact .remark trivial (hin.remark _ _ (.rpcStopNotRunning hf hp hst))
          · next hst =>
              obtain ⟨⟨v, r⟩, hv, h⟩ := Option.bind_eq_some_iff.mp h
              have hstop : Effect L env.toEnv w v := .stop (World.find_mem hf).1 (hin.stop rfl) hv
              cases r with
              | true =>
                  obtain ⟨rfl, _⟩ := Prod.mk.inj (Option.some.inj h)
                  exact hstop
              | false =>
                  obtain ⟨rfl, _⟩ := Prod.mk.inj (Option.some.inj h)
                  exact .trans hstop
                    (.remark trivial (hin.remark _ _ (.rpcStopRefused hf hp hst hv)))

theorem eraseNode_snd {v : World} (hmap : v.processMap = w.processMap) (node : NodeId) :
    (v.eraseNode node).map (·.2) = (w.eraseNode node).map (·.2) := by
  simp only [World.eraseNode, hmap, Option.map_map]
  rfl

theorem removeProcess_effect {name : String} {frames : List Frame}
    (hin : Within L env.toEnv w (.removeProcess name))
    (h : removeProcess w name env = some (w', frames)) : Effect L env.toEnv w w' := by
  unfold removeProcess at h
  cases hf : w.find name with
  | none =>
      simp only [hf] at h
      exact .of_unchanged h
  | some e =>
      simp only [hf] at h
      obtain ⟨p, hp, h⟩ := Option.bind_eq_some_iff.mp h
      split at h
      · next hpos =>
          obtain ⟨⟨v, r⟩, hv, h⟩ := Option.map_eq_some_iff.mp h
          have hstop : Effect L env.toEnv w v := .stop (World.find_mem hf).1 (hin.stop rfl) hv
          cases r with
          | true =>
              obtain ⟨rfl, _⟩ := Prod.mk.inj h
              exact hstop
          | false =>
              have hw : (v.eraseFrames e.node []).1 = w' := congrArg Prod.fst h
              subst hw
              refine .trans hstop (eraseFrames_effect ?_)
              intro o ho
              rw [eraseNode_snd (World.SameMap.callStop hv).processMap] at ho
              refine hin.leave v o ?_ (.callStop o hv)
              simpa [leaveTarget, hf, hv] using ho
      · next hpos =>
          have hw : (w.eraseFrames e.node []).1 = w' := congrArg Prod.fst (Option.some.inj h)
          subst hw
          apply eraseFrames_effect
          intro o ho
          refine hin.leave w o ?_ (.refl o w)
          simpa [leaveTarget, hf, World.pidOf_eq hp, hpos] using ho

theorem stopProcessReturns_effect {o : ObjId} {deadline : Int} {next : AfterStop}
    (hin : Within L env.toEnv w (.waitStop o deadline .check next))
    (hend : ¬ (0 < w.pidOf o ∧ w.now < deadline)) :
    Effect L env.toEnv w (stopProcessReturns w o next).1 := by
  have hnote : Effect L env.toEnv w (w.note (.stopReturned o (w.pidOf o))) :=
    .remark trivial (hin.remark _ _ (.waitStop hend))
  cases next with
  | return_ => exact hnote
  | erase node =>
      refine .trans hnote (eraseFrames_effect ?_)
      intro o' ho'
      refine hin.leave _ o' ?_ (.note o' w _)
      rw [eraseNode_snd (World.note_processMap (w := w) _)] at ho'
      simpa only [leaveTarget, hend, if_false] using ho'

theorem releaseProcess_effect {o : ObjId} {rest frames : List Frame}
    (h : releaseProcess w o rest env = some (w', frames)) : Effect L env.toEnv w w' := by
  unfold releaseProcess at h
  split at h
  · exact .of_unchanged h
  · next hlast =>
      have hunmapped : w.mapped o = false := by
        cases hm : w.mapped o <;> simp_all
      cases hp : w.objs o with
      | none =>
          simp only [hp] at h
          exact .of_unchanged h
      | some p =>
          simp only [hp] at h
          split at h
          · next hpos =>
              simp only [World.callKill, hp, Option.map_some, Option.some.injEq] at h
              obtain ⟨rfl, _⟩ := Prod.mk.inj h
              exact .kill hp hpos (.inr ⟨rfl, hunmapped⟩)
          · next hnone =>
              obtain ⟨rfl, _⟩ := Prod.mk.inj (Option.some.inj h)
              exact .destroy hunmapped (by rw [World.pidOf_eq hp]; omega)

/-! ## Statement by statement

The loops and waits one lemma each; what is left is assembled in `execFrame_effect`. -/

variable {rest frames : List Frame} {c c' : Ctl}

attribute [local simp] execFrame

theorem startAll_effect {after : Option String}
    (hin : Within L env.toEnv w (.startAll after))
    (h : execFrame env rest w c (.startAll after) = some (w', c', frames)) :
    Effect L env.toEnv w w' := by
  simp only [execFrame] at h
  cases he : w.nextEntry after with
  | none =>
      simp only [he] at h
      exact .of_unchanged h
  | some e =>
      simp only [he] at h
      obtain ⟨⟨v, r⟩, hv, h⟩ := Option.map_eq_some_iff.mp h
      obtain ⟨rfl, _⟩ := Prod.mk.inj h
      refine .start (World.nextEntry_mem he) ?_ hv
      intro p hp hup
      apply hin.spawn e.obj
      simp only [spawnTarget, he, Option.bind_some]
      exact notUp_eq_some hp hup

theorem onTimer_effect {after : Option String}
    (hin : Within L env.toEnv w (.onTimer after))
    (h : execFrame env rest w c (.onTimer after) = some (w', c', frames)) :
    Effect L env.toEnv w w' := by
  simp only [execFrame] at h
  cases he : w.nextEntry after with
  | none =>
      simp only [he] at h
      exact .of_unchanged h
  | some e =>
      simp only [he] at h
      obtain ⟨v, hv, h⟩ := Option.map_eq_some_iff.mp h
      obtain ⟨rfl, _⟩ := Prod.mk.inj h
      refine .update (World.nextEntry_mem he) ?_ hv
      intro p hp hdue
      apply hin.spawn e.obj
      simp [spawnTarget, he, hp, hdue]

theorem stopAllSignal_effect {after : Option String} {signaled : Nat}
    (hin : Within L env.toEnv w (.stopAllSignal after signaled))
    (h : execFrame env rest w c (.stopAllSignal after signaled) = some (w', c', frames)) :
    Effect L env.toEnv w w' := by
  simp only [execFrame] at h
  cases he : w.nextEntry after with
  | none =>
      simp only [he] at h
      split at h <;> exact .of_unchanged h
  | some e =>
      simp only [he] at h
      split at h
      · obtain ⟨⟨v, r⟩, hv, h⟩ := Option.map_eq_some_iff.mp h
        obtain ⟨rfl, _⟩ := Prod.mk.inj h
        exact .stop (World.nextEntry_mem he) (hin.stop rfl) hv
      · exact .of_unchanged h

theorem waitAll_effect {deadline : Int} {phase : Phase}
    (hin : Within L env.toEnv w (.waitAll deadline phase))
    (h : execFrame env rest w c (.waitAll deadline phase) = some (w', c', frames)) :
    Effect L env.toEnv w w' := by
  cases phase with
  | check =>
      simp only [execFrame] at h
      split at h
      · next hkeep =>
          have hreap : Effect L env.toEnv w w.handleSigchld.1 := .reap (hin.reap hkeep)
          split at h <;>
            (obtain ⟨rfl, _⟩ := Prod.mk.inj (Option.some.inj h); exact hreap)
      · exact .of_unchanged h
  | runFor until_ =>
      simp only [execFrame] at h
      split at h
      · exact .of_unchanged h
      · cases h

theorem stopAllKill_effect {after : Option String}
    (hin : Within L env.toEnv w (.stopAllKill after))
    (h : execFrame env rest w c (.stopAllKill after) = some (w', c', frames)) :
    Effect L env.toEnv w w' := by
  simp only [execFrame] at h
  cases he : w.nextEntry after with
  | none =>
      simp only [he] at h
      exact .of_unchanged h
  | some e =>
      simp only [he] at h
      split at h
      · next hpos =>
          obtain ⟨v, hv, h⟩ := Option.map_eq_some_iff.mp h
          obtain ⟨rfl, _⟩ := Prod.mk.inj h
          obtain ⟨p, hp, rfl⟩ := Option.map_eq_some_iff.mp hv
          rw [World.pidOf_eq hp] at hpos
          exact .kill hp hpos (.inl ⟨rfl, hin.forceKill after e rfl he⟩)
      · exact .of_unchanged h

theorem waitStop_effect {o : ObjId} {deadline : Int} {phase : Phase} {next : AfterStop}
    (hin : Within L env.toEnv w (.waitStop o deadline phase next))
    (h : execFrame env rest w c (.waitStop o deadline phase next) = some (w', c', frames)) :
    Effect L env.toEnv w w' := by
  cases phase with
  | check =>
      simp only [execFrame] at h
      split at h
      · next hkeep =>
          have hreap : Effect L env.toEnv w w.handleSigchld.1 :=
            .reap (hin.reap (decide_eq_true hkeep))
          split at h <;>
            (obtain ⟨rfl, _⟩ := Prod.mk.inj (Option.some.inj h); exact hreap)
      · next hend =>
          obtain ⟨rfl, _⟩ := Prod.mk.inj (Option.some.inj h)
          exact stopProcessReturns_effect hin hend
  | runFor until_ =>
      simp only [execFrame] at h
      split at h
      · exact .of_unchanged h
      · cases h

theorem startProcess_effect {name : String}
    (hin : Within L env.toEnv w (.startProcess name))
    (h : execFrame env rest w c (.startProcess name) = some (w', c', frames)) :
    Effect L env.toEnv w w' := by
  simp only [execFrame] at h
  cases hf : w.find name with
  | none =>
      simp only [hf] at h
      exact .of_unchanged h
  | some e =>
      simp only [hf] at h
      obtain ⟨⟨v, r⟩, hv, h⟩ := Option.map_eq_some_iff.mp h
      obtain ⟨rfl, _⟩ := Prod.mk.inj h
      refine .start (World.find_mem hf).1 ?_ hv
      intro p hp hup
      apply hin.spawn e.obj
      simp only [spawnTarget, hf, Option.bind_some]
      exact notUp_eq_some hp hup

theorem clearMap_effect
    (hin : Within L env.toEnv w .clearMap)
    (h : execFrame env rest w c .clearMap = some (w', c', frames)) :
    Effect L env.toEnv w w' := by
  simp only [execFrame] at h
  split at h
  · exact .of_unchanged h
  · next e es hmap =>
      obtain ⟨rfl, _⟩ := Prod.mk.inj (Option.some.inj h)
      apply eraseFrames_effect
      intro o ho
      refine hin.leave w o ?_ (.refl o w)
      simpa [leaveTarget, World.eraseNode, hmap] using ho

/-- **One statement has one effect.**  Whatever statement is executed, within the limits it meets,
the world changes as `Effect` says. -/
theorem execFrame_effect
    (hin : Within L env.toEnv w frame)
    (h : execFrame env rest w c frame = some (w', c', frames)) : Effect L env.toEnv w w' := by
  cases frame with
  | startAll after => exact startAll_effect hin h
  | onTimer after => exact onTimer_effect hin h
  | stopAllSignal after signaled => exact stopAllSignal_effect hin h
  | waitAll deadline phase => exact waitAll_effect hin h
  | stopAllKill after => exact stopAllKill_effect hin h
  | stopAllDone =>
      obtain ⟨rfl, _⟩ := Prod.mk.inj (Option.some.inj h)
      exact .remark trivial (hin.remark _ _ .stopAllDone)
  | waitStop o deadline phase next => exact waitStop_effect hin h
  | killWait o =>
      obtain ⟨v, hv, h⟩ := Option.map_eq_some_iff.mp h
      obtain ⟨rfl, _⟩ := Prod.mk.inj h
      exact .finishKill (hin.wait o rfl) hv
  | release o =>
      obtain ⟨⟨v, fs⟩, hv, h⟩ := Option.map_eq_some_iff.mp h
      obtain ⟨rfl, _⟩ := Prod.mk.inj h
      exact releaseProcess_effect hv
  | destructorWait o =>
      obtain ⟨v, hv, h⟩ := Option.map_eq_some_iff.mp h
      obtain ⟨rfl, _⟩ := Prod.mk.inj h
      refine .trans (.finishKill (hin.wait o rfl) hv) (.destroy ?_ ?_)
      · rw [(World.SameMap.finishKill hv).mapped_eq]
        exact hin.destroy o rfl
      · rw [finishKill_pidOf hv]
        omega
  | handleSigchld =>
      obtain ⟨rfl, _⟩ := Prod.mk.inj (Option.some.inj h)
      exact .reap (hin.reap rfl)
  | startProcess name => exact startProcess_effect hin h
  | removeProcess name =>
      obtain ⟨⟨v, fs⟩, hv, h⟩ := Option.map_eq_some_iff.mp h
      obtain ⟨rfl, _⟩ := Prod.mk.inj h
      exact removeProcess_effect hin hv
  | addProcess config =>
      obtain ⟨rfl, _⟩ := Prod.mk.inj (Option.some.inj h)
      refine .add ?_
      intro e he
      exact hin.leave w e.obj (by simp [leaveTarget, he]) (.refl _ w)
  | syncRemove it newPrograms =>
      cases it with
      | none =>
          exact .of_unchanged h
      | some it =>
          simp only [execFrame] at h
          split at h
          · exact .of_unchanged h
          · split at h <;> exact .of_unchanged h
  | syncAdd newPrograms =>
      cases newPrograms with
      | nil =>
          exact .of_unchanged h
      | cons prog progs =>
          simp only [execFrame] at h
          split at h
          · exact .of_unchanged h
          · obtain ⟨p, hp, h⟩ := Option.map_eq_some_iff.mp h
            split at h <;> (obtain ⟨rfl, _⟩ := Prod.mk.inj h; exact .same w)
  | reloadConfig =>
      simp only [execFrame] at h
      split at h
      · exact .of_unchanged h
      · split at h
        · exact .of_unchanged h
        · split at h <;> exact .of_unchanged h
  | clearMap => exact clearMap_effect hin h
  | rpcStartProcess params =>
      obtain ⟨v, hv, h⟩ := Option.map_eq_some_iff.mp h
      obtain ⟨rfl, _⟩ := Prod.mk.inj h
      exact rpcStartProcess_effect hin hv
  | rpcStopProcess params =>
      obtain ⟨⟨v, fs⟩, hv, h⟩ := Option.map_eq_some_iff.mp h
      obtain ⟨rfl, _⟩ := Prod.mk.inj h
      exact rpcStopProcess_effect hin hv
  | answer request =>
      obtain ⟨rfl, _⟩ := Prod.mk.inj (Option.some.inj h)
      exact .remark trivial (hin.remark _ _ .answer)
  | fault request what =>
      obtain ⟨rfl, _⟩ := Prod.mk.inj (Option.some.inj h)
      exact .remark trivial (hin.remark _ _ .fault)
  | run =>
      simp only [execFrame] at h
      split at h
      · exact .of_unchanged h
      · cases h
  | stopAll =>
      simp only [execFrame] at h
      split at h <;> exact .of_unchanged h
  | undefined => cases h
  | _ =>
      exact .of_unchanged h

end Taken

end Supervisorcpp
