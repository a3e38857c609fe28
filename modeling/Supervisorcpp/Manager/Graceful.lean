/-
# Graceful stops

Three pieces of code send `SIGKILL`: the tick of a process that has been `STOPPING` for too long,
the loop at the end of `stop_all`, and `~Process` of an object that `remove_process` has erased.
None of them should reach a child that has not been asked to stop, or not been given its
`stopwaitsecs`.

They do so because the deadlines say nothing about which child is there: a start served in the
nested event loop puts a new child under an old deadline; a stop signal that could not be sent ends
`remove_process` at once; `stopwaitsecs + 1` overflows; a stale pid names somebody else's child. The
runs that avoid these are graceful.

A child counts as asked to stop from the moment a stop signal was sent to it, and as due once its
`stopwaitsecs` have passed since then. The invariant has a part about the world, who may be killed
now, and a part about the waits on the stack, whose deadlines promise that their children are due by
then.
-/
import Supervisorcpp.Manager.Ownership

namespace Supervisorcpp

/-! ## The property -/

/-- The time a program is given to stop. -/
def ProgramConfig.grace (config : ProgramConfig) : Int := config.stopwaitsecs.toInt * nanosPerSec

/-- A stop signal reached the child `cid` no later than `t`. -/
def Event.warns (cid : Nat) (t : Int) : Event → Bool
  | .signaled r =>
    decide (r.sender = .stop) && decide (r.sig = Process.stopSignal r.config) && r.ok &&
      decide (r.target.map (·.cid) = some cid) && decide (r.time ≤ t)
  | _ => false

/-- Whoever was sent `SIGKILL` other than as its stop signal had been sent the stop signal before,
and its time had passed. -/
def graceful : List Event → Bool
  | [] => true
  | .signaled r :: trace =>
    (match r.sender, r.target with
      | .stop, _ => true
      | _, none => true
      | _, some c => trace.any (Event.warns c.cid (r.time - r.config.grace))) && graceful trace
  | _ :: trace => graceful trace

/-! ## The condition -/

/-- The frames behind which a `SIGKILL` for the child of `o` may be waiting. -/
def Frame.expects (o : ObjId) : Frame → Bool
  | .waitStop o' _ _ (.erase _) => o' = o
  | .stopAllSignal _ _ => true
  | .waitAll _ _ => true
  | .stopAllKill _ => true
  | _ => false

/-- The wait of a `remove_process` for `o`. -/
def Frame.removes (o : ObjId) : Frame → Bool
  | .waitStop o' _ .check (.erase _) => o' = o
  | _ => false

/-- The largest `int`, to which 1 cannot be added. -/
def stopwaitsecsMax : Int32 := 2147483647

/-- The deadline this statement computes does not overflow. -/
def deadlineFits (w : World) : Frame → Bool
  | .removeProcess name =>
    (w.find name).all fun e => (w.objs e.obj).all fun p =>
      decide (p.config.stopwaitsecs ≠ stopwaitsecsMax)
  | .stopAllSignal _ _ => decide (w.maxWait ≠ stopwaitsecsMax)
  | _ => true

/-- The statement about to be executed reaps only what can be delivered; if it calls `stop`, its
`::kill` succeeds; it spawns nothing for which a `SIGKILL` may be waiting; it takes an object with a
pid out of the map only at the end of the wait for it; and its deadline does not overflow. -/
def stopsGracefully (s : Sys) (i : Input) : Bool :=
  match i, s.stack with
  | .exec env, frame :: rest =>
    (!reaps s.world frame || s.world.exitsDeliverable) &&
      (!frame.callsStop || env.killOk) &&
      (spawnTarget env.toEnv s.world frame).all
        (fun o => !(frame :: rest).any (Frame.expects o)) &&
      (leaveTarget env.toEnv s.world frame).all
        (fun o => decide (s.world.pidOf o ≤ 0) || frame.removes o) &&
      deadlineFits s.world frame
  | _, _ => true

/-! ## Children that have been asked to stop -/

/-- A warning stays one as time passes. -/
theorem Event.warns_mono {cid : Nat} {t t' : Int} {ev : Event} (h : ev.warns cid t = true)
    (hle : t ≤ t') : ev.warns cid t' = true := by
  cases ev with
  | signaled r =>
      simp only [Event.warns, Bool.and_eq_true, decide_eq_true_eq] at h ⊢
      exact ⟨h.1, by omega⟩
  | _ => cases h

namespace World

variable {w w' : World} {o : ObjId} {p q : Process} {t t' : Int}

/-- The child that `o` has, if it has one, was sent its stop signal by the time `t`. -/
def WarnedBy (w : World) (o : ObjId) (t : Int) : Prop :=
  ∀ p c, w.objs o = some p → c ∈ w.children → c.pid = p.pid → c.obj = o →
    ∃ ev ∈ w.trace, ev.warns c.cid t = true

/-- The child that `o` has, if it has one, was sent its stop signal early enough for a `SIGKILL` at
the time `t`. -/
def Due (w : World) (o : ObjId) (t : Int) : Prop :=
  ∀ p, w.objs o = some p → w.WarnedBy o (t - p.config.grace)

theorem WarnedBy.mono (h : w.WarnedBy o t) (hle : t ≤ t') : w.WarnedBy o t' := by
  intro p c hp hc hpid hobj
  obtain ⟨ev, hev, hwarn⟩ := h p c hp hc hpid hobj
  exact ⟨ev, hev, Event.warns_mono hwarn hle⟩

/-- Who has no child needs no warning. -/
theorem WarnedBy.of_no_child (hwf : w.Wf) (h : w.pidOf o ≤ 0) : w.WarnedBy o t := by
  intro p c hp hc hpid _
  have hpos := hwf.pidPos c hc
  rw [pidOf_eq hp] at h
  omega

/-- Being warned outlives every change that forks nothing for `o`. -/
theorem WarnedBy.kept (h : w.WarnedBy o t) (hwf : w.Wf) (hkept : Kept o w w') :
    w'.WarnedBy o t := by
  intro q c hq hc hpid hobj
  obtain ⟨c', hc', hcid, hpid', hobj'⟩ := hkept.children c hc hobj
  have hpos := hwf.pidPos c' hc'
  obtain ⟨p, hp, _, hsame⟩ := hkept.objs q hq (by omega)
  obtain ⟨ev, hev, hwarn⟩ := h p c' hp hc' (by omega) hobj'
  exact ⟨ev, hkept.trace.subset hev, hcid ▸ hwarn⟩

theorem Due.mono (h : w.Due o t) (hle : t ≤ t') : w.Due o t' := by
  intro p hp
  exact (h p hp).mono (by omega)

/-- Who has no child has none that is due. -/
theorem Due.of_no_child (hwf : w.Wf) (h : w.pidOf o ≤ 0) : w.Due o t :=
  fun _ _ => .of_no_child hwf h

/-- A process that is due stays so while nobody touches it. -/
theorem Due.kept (h : w.Due o t) (hwf : w.Wf) (hkept : Kept o w w') : w'.Due o t := by
  intro q hq r c hr hc hpid hobj
  obtain rfl : q = r := Option.some.inj (hq.symm.trans hr)
  obtain ⟨c', hc', _, hpid', _⟩ := hkept.children c hc hobj
  have hpos := hwf.pidPos c' hc'
  obtain ⟨p, hp, hcfg, _⟩ := hkept.objs q hq (by omega)
  rw [hcfg]
  exact (h p hp).kept hwf hkept q c hq hc hpid hobj

/-- After a `stop` whose signal was sent, the child has been warned. -/
theorem warnedBy_of_callStop {env : Env} {r : Bool} (hwf : w.Wf) (hpos : 0 < w.pidOf o)
    (hok : env.killOk = true) (hcall : w.callStop o env = some (w', r)) : w'.WarnedBy o w.now := by
  obtain ⟨p, hp, ⟨hno, _, _⟩ | ⟨_, _, _, q, hpid, hcfg, _, _, rfl⟩⟩ := callStop_cases hcall
  · rw [pidOf_eq hp] at hpos
    rcases hno with hle | hst
    · omega
    · have := (hwf.coherent o p hp).ended (.inl hst)
      omega
  · intro q' c hq' hc hcpid _
    obtain rfl : q = q' := by simpa using hq'
    have htarget : (w.note (.stopCalled o)).childOf p.pid = some c := by
      rw [← hpid, ← hcpid]
      exact hwf.childOf_eq hc
    refine ⟨_, List.mem_cons_self, ?_⟩
    simp [Event.warns, htarget, hok]

end World

/-! ## The invariant of the world -/

/-- Stopping processes have been warned, objects that have left the map are due, and every
`SIGKILL` so far was graceful. -/
structure World.Polite (w : World) : Prop where
  stopping : ∀ o p, w.objs o = some p → p.state = .stopping →
    p.stateChangeTime ≤ w.now ∧ w.WarnedBy o p.stateChangeTime
  erased : ∀ o, w.Gone o → w.Due o w.now
  kills : graceful w.trace = true

namespace World.Polite

variable {w w' : World} {o : ObjId} {e : Entry} {env : Env} {r : Bool}

/-- How the invariant passes to a later world: what is stopping or erased there was so before, with
the same child, or is accounted for anew. -/
theorem next (h : w.Polite) (hwf : w.Wf) (hnow : w.now ≤ w'.now)
    (hstop : ∀ o p, w'.objs o = some p → p.state = .stopping →
      (w.objs o = some p ∧ Kept o w w') ∨
        (p.stateChangeTime ≤ w'.now ∧ w'.WarnedBy o p.stateChangeTime))
    (herased : ∀ o, w'.Gone o → (w.Gone o ∧ Kept o w w') ∨ w'.Due o w'.now)
    (hkills : graceful w'.trace = true) : w'.Polite where
  stopping := by
    intro o p hp hst
    rcases hstop o p hp hst with ⟨hold, hkept⟩ | hnew
    · obtain ⟨hle, hwarn⟩ := h.stopping o p hold hst
      exact ⟨by omega, hwarn.kept hwf hkept⟩
    · exact hnew
  erased := by
    intro o hgone
    rcases herased o hgone with ⟨hold, hkept⟩ | hnew
    · exact ((h.erased o hold).mono hnow).kept hwf hkept
    · exact hnew
  kills := hkills

/-- The same when the map has not changed and `o'` is the only object written. -/
theorem write (h : w.Polite) (hwf : w.Wf) (hsame : w.SameMap w') (o' : ObjId)
    (hobjs : ∀ o, o ≠ o' → w'.objs o = w.objs o) (hkept : ∀ o, o ≠ o' ∨ w.Gone o → Kept o w w')
    (hstop : ∀ p, w'.objs o' = some p → p.state = .stopping →
      (w.objs o' = some p ∧ Kept o' w w') ∨
        (p.stateChangeTime ≤ w'.now ∧ w'.WarnedBy o' p.stateChangeTime))
    (hkills : graceful w'.trace = true) : w'.Polite := by
  refine h.next hwf (Int.le_of_eq hsame.now.symm) ?_ ?_ hkills
  · intro o p hp hst
    by_cases heq : o = o'
    · subst heq
      exact hstop p hp hst
    · exact .inl ⟨hobjs o heq ▸ hp, hkept o (.inl heq)⟩
  · intro o hgone
    have hold : w.Gone o := hgone.of_sameMap hsame.symm
    exact .inl ⟨hold, hkept o (.inr hold)⟩

/-- A trace entry that is no signal. -/
theorem note (h : w.Polite) (hwf : w.Wf) {ev : Event} (hev : ∀ r, ev ≠ .signaled r) :
    (w.note ev).Polite := by
  refine h.next hwf (Int.le_refl _) (fun o p hp _ => .inl ⟨hp, .note o w ev⟩)
    (fun o hgone => .inl ⟨⟨hgone.unmapped, hgone.lt⟩, .note o w ev⟩) ?_
  cases ev with
  | signaled r => exact absurd rfl (hev r)
  | _ => exact h.kills

/-- An object that writes itself back in another state than `stopping`, with its pid or with none. -/
theorem setObj {p q : Process} (h : w.Polite) (hwf : w.Wf) (hp : w.objs o = some p)
    (hcfg : q.config = p.config) (hpid : q.pid = p.pid ∨ q.pid ≤ 0) (hst : q.state ≠ .stopping) :
    (w.setObj o q).Polite := by
  refine h.write hwf ⟨rfl, rfl, rfl⟩ o ?_ (fun o' _ => .setObj o' hp hcfg hpid) ?_ h.kills
  · intro o' hne
    simp [hne]
  · intro p' hp' hst'
    obtain rfl : q = p' := by simpa using hp'
    exact absurd hst' hst

/-- A fork by an object of the map. -/
theorem fork (h : w.Polite) (hwf : w.Wf) {c : Child} {cause : Cause} {q : Process}
    (hm : w.mapped c.obj = true) (hst : q.state ≠ .stopping) :
    ((w.addChild c cause).setObj c.obj q).Polite := by
  refine h.write hwf ⟨rfl, rfl, rfl⟩ c.obj ?_ ?_ ?_ h.kills
  · intro o' hne
    simp [hne]
  · rintro o' (hne | hgone)
    · exact .fork hne
    · refine .fork ?_
      rintro rfl
      rw [hgone.unmapped] at hm
      cases hm
  · intro p' hp' hst'
    obtain rfl : q = p' := by simpa using hp'
    exact absurd hst' hst

/-- A `SIGKILL` for a child whose time has passed. -/
theorem kill (h : w.Polite) (hwf : w.Wf) (hown : w.Owned) {p : Process} (hp : w.objs o = some p)
    (hpos : 0 < p.pid) (hdue : w.Due o w.now) (sender : Sender) (ok : Bool) :
    (w.signal o p.config p.pid .kill sender ok).Polite := by
  refine h.next hwf (Int.le_refl _) (fun o p hp _ => .inl ⟨hp, .note o w _⟩)
    (fun o hgone => .inl ⟨⟨hgone.unmapped, hgone.lt⟩, .note o w _⟩) ?_
  obtain ⟨c, hc, hobj⟩ := hown.childOf hwf hp hpos
  obtain ⟨hin, hpid⟩ := World.childOf_mem hc
  obtain ⟨ev, hev, hwarn⟩ := hdue p hp p c hp hin hpid hobj
  -- the stop signal that was sent in time is in the trace
  have hany : w.trace.any (Event.warns c.cid (w.now - p.config.grace)) = true :=
    List.any_eq_true.mpr ⟨ev, hev, hwarn⟩
  show graceful (.signaled ⟨o, p.config, p.pid, .kill, w.childOf p.pid, w.now, sender, ok⟩ ::
    w.trace) = true
  rw [hc]
  cases sender <;> simp [graceful, hany, h.kills]

theorem callStart (h : w.Polite) (hwf : w.Wf) (he : e ∈ w.processMap)
    (hcall : w.callStart e.obj env = some (w', r)) : w'.Polite := by
  have hm : w.mapped e.obj = true := mapped_iff.mpr ⟨e, he, rfl⟩
  obtain ⟨p, hp, ⟨_, _, rfl⟩ | ⟨_, _, q, hpid, hcfg, hst, rfl⟩ |
    ⟨_, _, q, pid, _, _, _, hst, rfl⟩⟩ := callStart_cases hcall
  · exact h.note hwf (by simp)
  · apply (h.note hwf (by simp)).setObj (hwf.note _) hp hcfg (.inl hpid)
    rcases hst with hst | hst <;> simp [hst]
  · exact (h.note hwf (by simp)).fork (hwf.note (.startCalled e.obj p.config.name)) hm (by simp [hst])

theorem callStop (h : w.Polite) (hwf : w.Wf) (hok : env.killOk = true)
    (hcall : w.callStop o env = some (w', r)) : w'.Polite := by
  have hwarned := fun hpos => warnedBy_of_callStop hwf hpos hok hcall
  have hkept : ∀ o', Kept o' w w' := fun o' => .callStop o' hcall
  obtain ⟨p, hp, ⟨_, _, rfl⟩ | ⟨hpos, _, _, q, hpid, hcfg, hst, htime, rfl⟩⟩ :=
    callStop_cases hcall
  · exact h.note hwf (by simp)
  · refine h.write hwf ⟨rfl, rfl, rfl⟩ o ?_ (fun o' _ => hkept o') ?_ h.kills
    · intro o' hne
      simp [hne, World.signal]
    · intro p' hp' _
      obtain rfl : q = p' := by simpa using hp'
      right
      -- a second stop keeps the time of the first, which has been warned already
      by_cases hold : p.state = .stopping
      · obtain ⟨hle, hwarn⟩ := h.stopping o p hp hold
        rw [htime, if_pos hold]
        exact ⟨hle, hwarn.kept hwf (hkept o)⟩
      · rw [htime, if_neg hold]
        exact ⟨Int.le_refl _, hwarned (by rw [pidOf_eq hp]; exact hpos)⟩

/-- The tick that finds `stopwaitsecs` over. -/
theorem due_of_elapsed (h : w.Polite) {p : Process} (hp : w.objs o = some p)
    (hst : p.state = .stopping) (hel : p.config.stopwaitsecs.toInt ≤ p.elapsed w.now) :
    w.Due o w.now := by
  intro p' hp'
  obtain rfl : p = p' := Option.some.inj (hp.symm.trans hp')
  obtain ⟨hle, hwarn⟩ := h.stopping o p hp hst
  apply hwarn.mono
  -- whole seconds, rounded down, so the time that has really passed is no less
  have hdiv : p.elapsed w.now = (w.now - p.stateChangeTime) / nanosPerSec := by
    unfold Process.elapsed
    exact Int.tdiv_eq_ediv_of_nonneg (by omega)
  have hns : (0 : Int) < nanosPerSec := by decide
  have hmul : p.config.stopwaitsecs.toInt * nanosPerSec ≤ w.now - p.stateChangeTime := by
    rw [hdiv] at hel
    exact (Int.le_ediv_iff_mul_le hns).mp hel
  unfold ProgramConfig.grace
  omega

theorem callUpdate (h : w.Polite) (hwf : w.Wf) (hown : w.Owned) (he : e ∈ w.processMap)
    (hcall : w.callUpdate e.obj env = some w') : w'.Polite := by
  have hm : w.mapped e.obj = true := mapped_iff.mpr ⟨e, he, rfl⟩
  obtain ⟨p, hp, rfl | ⟨_, q, hpid, hcfg, hst', rfl⟩ | ⟨hst, hel, rfl⟩ |
    ⟨_, q, hpid, hcfg, hst', rfl⟩ | ⟨_, q, pid, _, _, _, hst', rfl⟩⟩ := callUpdate_cases hcall
  · exact h
  · exact h.setObj hwf hp hcfg (.inl hpid) (by simp [hst'])
  · have hpos : 0 < p.pid := (hwf.coherent _ p hp).active (.inr (.inr hst))
    exact h.kill hwf hown hp hpos (h.due_of_elapsed hp hst hel) .update env.killOk
  · apply h.setObj hwf hp hcfg (.inl hpid)
    rcases hst' with hst' | hst' <;> simp [hst']
  · exact h.fork hwf hm (by simp [hst'])

theorem eraseChild (h : w.Polite) (hwf : w.Wf) (c : Child) :
    { w with children := w.children.erase c }.Polite :=
  h.next hwf (Int.le_refl _) (fun o _ hp _ => .inl ⟨hp, .eraseChild o w c⟩)
    (fun o hgone => .inl ⟨⟨hgone.unmapped, hgone.lt⟩, .eraseChild o w c⟩) h.kills

theorem finishKill (h : w.Polite) (hwf : w.Wf) (hkill : w.finishKill o env = some w') : w'.Polite := by
  obtain ⟨p, hp, ⟨_, rfl⟩ | ⟨c, _, _, rfl⟩⟩ := finishKill_cases hkill
  · exact h.setObj hwf hp (Process.killed_config p _) (.inr (by simp)) (by simp)
  · exact (h.eraseChild hwf c).setObj (hwf.eraseChild c) hp (Process.killed_config p _)
      (.inr (by simp)) (by simp)

theorem reap (h : w.Polite) (hwf : w.Wf) (c : Child) (status : WaitStatus) :
    (w.reap c status).Polite := by
  have hwf' := hwf.reap c status
  rcases reap_cases hwf c status with ⟨_, heq⟩ | ⟨e, _, p, hp, _, heq⟩
  · rw [heq]
    exact h.eraseChild hwf c
  · rw [heq] at hwf' ⊢
    refine note ((h.eraseChild hwf c).setObj (hwf.eraseChild c) hp (Process.onExit_config p _ _)
      (.inr (by simp)) ?_) { hwf' with } (by simp)
    intro hst
    exact Process.onExit_not_active p w.now status (.inr (.inr hst))

/-- Objects leave the map in one place: the node that is written over. -/
theorem gone_of_addProcess (hwf : w.Wf) {config : ProgramConfig}
    (hgone : (w.addProcess config).1.Gone o) :
    w.Gone o ∨ ∃ e, w.find config.name = some e ∧ e.obj = o := by
  have hstay : ∀ e ∈ (w.addProcess config).1.processMap, e.obj ≠ o := by
    intro e he heq
    have hin := mapped_iff.mpr ⟨e, he, heq⟩
    rw [hgone.unmapped] at hin
    cases hin
  have hlt : o < w.nextObj + 1 := addProcess_nextObj w config ▸ hgone.lt
  unfold World.addProcess at hstay
  dsimp only at hstay
  cases hf : w.find config.name with
  | none =>
      left
      simp only [hf, mem_insertEntry] at hstay
      have hne : w.nextObj ≠ o := hstay _ (.inl rfl)
      refine ⟨?_, Nat.lt_of_le_of_ne (Nat.le_of_lt_succ hlt) (Ne.symm hne)⟩
      simp only [mapped, List.any_eq_false, decide_eq_true_eq]
      exact fun e he => hstay e (.inr he)
  | some e₀ =>
      simp only [hf, List.mem_map] at hstay
      have he₀ := (find_mem hf).1
      have hne : w.nextObj ≠ o := by
        have := hstay _ ⟨e₀, he₀, rfl⟩
        simpa using this
      cases hm : w.mapped o with
      | false => exact .inl ⟨hm, Nat.lt_of_le_of_ne (Nat.le_of_lt_succ hlt) (Ne.symm hne)⟩
      | true =>
          right
          obtain ⟨e, he, rfl⟩ := mapped_iff.mp hm
          have hnode : e.node = e₀.node := by
            by_contra hnode
            exact hstay _ ⟨e, he, rfl⟩ (by simp [hnode])
          exact ⟨e₀, rfl, by rw [hwf.entry_ext_node he he₀ hnode]⟩

theorem gone_of_eraseNode (hwf : w.Wf) {node : NodeId} {o' : ObjId}
    (herase : w.eraseNode node = some (w', o')) (hgone : w'.Gone o) : w.Gone o ∨ o = o' := by
  obtain ⟨e₀, he₀, hnode₀, rfl, rfl⟩ := eraseNode_cases herase
  cases hm : w.mapped o with
  | false => exact .inl ⟨hm, hgone.lt⟩
  | true =>
      right
      obtain ⟨e, he, rfl⟩ := mapped_iff.mp hm
      have hnode : e.node = node := by
        by_contra hnode
        have hkeep : e ∈ w.processMap.filter fun e' => e'.node ≠ node :=
          List.mem_filter.mpr ⟨he, by simpa using hnode⟩
        have hnot : ∀ e' ∈ w.processMap.filter fun e' => e'.node ≠ node, e'.obj ≠ e.obj := by
          simpa [mapped] using hgone.unmapped
        exact hnot e hkeep rfl
      rw [hwf.entry_ext_node he he₀ (hnode.trans hnode₀.symm)]

theorem addProcess (h : w.Polite) (hwf : w.Wf) {config : ProgramConfig}
    (hleave : ∀ e, w.find config.name = some e → w.Due e.obj w.now) :
    (w.addProcess config).1.Polite := by
  have hkept := fun o => addProcess_kept o w config
  refine h.next hwf (Int.le_of_eq (addProcess_now w config).symm) ?_ ?_ ?_
  · intro o p hp hst
    by_cases heq : o = w.nextObj
    · rw [heq, addProcess_objs_new] at hp
      obtain rfl := Option.some.inj hp
      cases hst
    · rw [addProcess_objs heq] at hp
      exact .inl ⟨hp, hkept o⟩
  · intro o hgone
    rcases gone_of_addProcess hwf hgone with hold | ⟨e, he, rfl⟩
    · exact .inl ⟨hold, hkept o⟩
    · right
      rw [addProcess_now]
      exact (hleave e he).kept hwf (hkept _)
  · rw [addProcess_trace]
    exact h.kills

theorem eraseNode (h : w.Polite) (hwf : w.Wf) {node : NodeId}
    (herase : w.eraseNode node = some (w', o)) (hleave : w.Due o w.now) : w'.Polite := by
  have hkept : ∀ o', Kept o' w w' := fun o' => eraseNode_kept herase
  have hsame : w'.objs = w.objs ∧ w'.now = w.now ∧ w'.trace = w.trace := by
    obtain ⟨e, _, _, _, rfl⟩ := eraseNode_cases herase
    exact ⟨rfl, rfl, rfl⟩
  refine h.next hwf (Int.le_of_eq hsame.2.1.symm) ?_ ?_ ?_
  · intro o' p hp _
    rw [hsame.1] at hp
    exact .inl ⟨hp, hkept o'⟩
  · intro o' hgone
    rcases gone_of_eraseNode hwf herase hgone with hold | rfl
    · exact .inl ⟨hold, hkept o'⟩
    · right
      rw [hsame.2.1]
      exact hleave.kept hwf (hkept o')
  · rw [hsame.2.2]
    exact h.kills

theorem destroy (h : w.Polite) (hwf : w.Wf) (o : ObjId) : (w.destroy o).Polite := by
  refine h.next hwf (Int.le_refl _) ?_
    (fun o' hgone => .inl ⟨⟨hgone.unmapped, hgone.lt⟩, destroy_kept o' w o⟩) h.kills
  intro o' p hp _
  refine .inl ⟨?_, destroy_kept o' w o⟩
  by_cases heq : o' = o
  · simp [World.destroy, heq] at hp
  · simpa [World.destroy, heq] using hp

end World.Polite

/-- What statements do within these limits is polite. -/
theorem Effect.polite {L : Limits} {env : Env} {w w' : World} (h : Effect L env w w')
    (hstop : L.stop env → env.killOk = true) (hforce : ∀ v o, L.forceKill v o → v.Due o v.now)
    (hreap : ∀ v, L.reap v → v.Deliverable) (hleave : ∀ v o, L.leave v o → v.Due o v.now)
    (hwf : w.Wf) (hown : w.Ownership) (hpol : w.Polite) : w'.Polite := by
  induction h with
  | same w => exact hpol
  | remark hev _ =>
      apply hpol.note hwf
      rintro r rfl
      cases hev
  | start he _ h => exact hpol.callStart hwf he h
  | stop _ hlim h => exact hpol.callStop hwf (hstop hlim) h
  | update he _ h => exact hpol.callUpdate hwf hown.owned he h
  | @kill w o p sender hp hpos hsender =>
      have hdue : w.Due o w.now := by
        -- `stop_all` meets its limit; the destructor kills only what has left the map
        rcases hsender with ⟨_, hlim⟩ | ⟨_, hun⟩
        · exact hforce w o hlim
        · exact hpol.erased o ⟨hun, hwf.objLt o p hp⟩
      exact hpol.kill hwf hown.owned hp hpos hdue sender env.killOk
  | finishKill _ h => exact hpol.finishKill hwf h
  | reap _ =>
      exact World.handleSigchld_induction hwf hpol fun v c status hv hpol _ _ =>
        hpol.reap hv c status
  | add hlim => exact hpol.addProcess hwf fun e he => hleave _ _ (hlim e he)
  | leave hlim h => exact hpol.eraseNode hwf h (hleave _ _ hlim)
  | destroy _ _ => exact hpol.destroy hwf _
  | trans h _ ih ih' => exact ih' (h.wf hwf) (h.ownership hreap hwf hown) (ih hwf hown hpol)

/-- What the environment does is polite. -/
theorem Outside.polite {w w' : World} (h : Outside w w') (hwf : w.Wf) (hpol : w.Polite) :
    w'.Polite := by
  have hkept : ∀ o, Kept o w w' := fun o => h.kept
  refine hpol.next hwf (hkept 0).now ?_ ?_ (h.trace_eq ▸ hpol.kills)
  · intro o p hp _
    exact .inl ⟨h.objs_eq ▸ hp, hkept o⟩
  · intro o hgone
    exact .inl ⟨h.gone_iff.mp hgone, hkept o⟩

/-! ## Deadlines -/

theorem toInt_max (a b : Int32) : (max a b).toInt = max a.toInt b.toInt := by
  rw [show max a b = if a ≤ b then b else a from rfl]
  split
  · next h =>
      rw [Int32.le_iff_toInt_le] at h
      omega
  · next h =>
      rw [Int32.le_iff_toInt_le] at h
      omega

/-- One second more does not wrap below the largest value. -/
theorem toInt_add_one {a : Int32} (h : a ≠ stopwaitsecsMax) : (a + 1).toInt = a.toInt + 1 := by
  have hlt : a.toInt < 2147483647 := by
    have hle := Int32.toInt_lt a
    have hne : a.toInt ≠ 2147483647 := by
      intro heq
      exact h (Int32.toInt_inj.mp heq)
    omega
  have hge := Int32.le_toInt a
  rw [Int32.toInt_add]
  exact Int.bmod_eq_of_le_mul_two (by simp; omega) (by simp; omega)

/-- A deadline one second behind `n`, when the addition does not overflow. -/
theorem deadlineIn_add_one {n : Int32} (h : n ≠ stopwaitsecsMax) (now : Int) :
    deadlineIn now (n + 1) = now + n.toInt * nanosPerSec + nanosPerSec := by
  unfold deadlineIn
  rw [toInt_add_one h, Int.add_mul, Int.one_mul, Int.add_assoc]

/-- One turn never shortens the wait, and covers the process it looks at. -/
theorem longerWait_spec (w : World) (acc : Int32) (e : Entry) :
    acc.toInt ≤ (w.longerWait acc e).toInt ∧
      ∀ p, w.objs e.obj = some p → 0 < p.pid →
        p.config.stopwaitsecs.toInt ≤ (w.longerWait acc e).toInt := by
  unfold World.longerWait
  cases hp : w.objs e.obj with
  | none => exact ⟨Int.le_refl _, by simp⟩
  | some p =>
      by_cases hpos : 0 < p.pid
      · simp only [hpos, if_true, toInt_max]
        refine ⟨by omega, ?_⟩
        intro p' hp' _
        obtain rfl := Option.some.inj hp'
        omega
      · simp only [hpos, if_false]
        refine ⟨Int.le_refl _, ?_⟩
        intro p' hp' hpos'
        obtain rfl := Option.some.inj hp'
        exact absurd hpos' hpos

/-- `max_wait` is not negative, and no process with a pid is given more time. -/
theorem maxWait_spec (w : World) : 0 ≤ w.maxWait.toInt ∧
    ∀ e ∈ w.processMap, ∀ p, w.objs e.obj = some p → 0 < p.pid →
      p.config.stopwaitsecs.toInt ≤ w.maxWait.toInt := by
  suffices h : ∀ (es : List Entry) (acc : Int32), acc.toInt ≤ (es.foldl w.longerWait acc).toInt ∧
      ∀ e ∈ es, ∀ p, w.objs e.obj = some p → 0 < p.pid →
        p.config.stopwaitsecs.toInt ≤ (es.foldl w.longerWait acc).toInt from h w.processMap 0
  intro es
  induction es with
  | nil => exact fun acc => ⟨Int.le_refl _, by simp⟩
  | cons e es ih =>
      intro acc
      obtain ⟨hacc, he⟩ := longerWait_spec w acc e
      obtain ⟨hrest, hes⟩ := ih (w.longerWait acc e)
      rw [List.foldl_cons, List.forall_mem_cons]
      refine ⟨Int.le_trans hacc hrest, ?_, hes⟩
      intro p hp hpos
      exact Int.le_trans (he p hp hpos) hrest

/-! ## Frames -/

/-- What a waiting frame may rely on when its time has come. -/
def Frame.Armed (w : World) : Frame → Prop
  | .waitStop o deadline _ (.erase _) => w.Due o deadline
  | .stopAllSignal after _ => ∀ e ∈ w.processMap, Behind after e.name → w.WarnedBy e.obj w.now
  | .waitAll deadline _ => ∀ o, w.Due o deadline
  | .stopAllKill _ => ∀ o, w.Due o w.now
  | _ => True

/-- The parts of the condition, for the statement on top. -/
structure GracefulStep (env : Answers) (w : World) (frame : Frame) (stack : List Frame) :
    Prop where
  reaps : reaps w frame = true → w.exitsDeliverable = true
  stops : frame.callsStop = true → env.killOk = true
  spawns : ∀ o, spawnTarget env.toEnv w frame = some o → ∀ f ∈ stack, f.expects o = false
  leaves : ∀ o, leaveTarget env.toEnv w frame = some o → w.pidOf o ≤ 0 ∨ frame.removes o = true
  fits : deadlineFits w frame = true

section Steps

variable {s s' : Sys} {i : Input} {env : Answers} {frame : Frame} {rest : List Frame}

theorem stopsGracefully_exec (h : stopsGracefully s (.exec env) = true)
    (hs : s.stack = frame :: rest) : GracefulStep env s.world frame s.stack := by
  simp only [stopsGracefully, hs, Bool.and_eq_true] at h
  obtain ⟨⟨⟨⟨hreap, hstop⟩, hspawn⟩, hleave⟩, hfits⟩ := h
  refine ⟨?_, ?_, ?_, ?_, hfits⟩
  · intro hr
    simpa [hr] using hreap
  · intro hc
    simpa [hc] using hstop
  · intro o ho f hf
    rw [ho, Option.all_some, Bool.not_eq_true'] at hspawn
    have := List.any_eq_false.mp hspawn f (hs ▸ hf)
    simpa using this
  · intro o ho
    rw [ho, Option.all_some] at hleave
    simpa using hleave

/-- While a frame expects the child of `o`, nothing is forked for `o`. -/
theorem kept_of_expects (hwf : s.Wf) (hguard : stopsGracefully s i = true)
    (h : step s i = some s') {f : Frame} (hf : f ∈ s.stack) {o : ObjId}
    (ho : f.expects o = true) : Kept o s.world s'.world := by
  rcases Sys.Wf.step_world h with ⟨env, frame, rest, rfl, hs, heff⟩ | hw | hout
  · let L : Limits := { spawn := fun _ o' => o' ≠ o }
    have hin : Within L env.toEnv s.world frame :=
      { hwf.within hs with
        spawn := by
          rintro o' ho' rfl
          have hno := (stopsGracefully_exec hguard hs).spawns o' ho' f hf
          rw [ho] at hno
          cases hno }
    exact (heff L hin).kept (.inr fun v hne => hne rfl)
  · rw [hw]
    exact .refl o _
  · exact hout.kept

/-- A wait that is set up stays set up. -/
theorem armed_keep (hwf : s.Wf) (hguard : stopsGracefully s i = true) (h : step s i = some s')
    {f : Frame} (hf : f ∈ s.stack) (harmed : f.Armed s.world) : f.Armed s'.world := by
  have hwf' : s'.Wf := hwf.step h
  have hkept := fun o (ho : f.expects o = true) => kept_of_expects hwf hguard h hf ho
  cases f with
  | waitStop o deadline phase next =>
      cases next with
      | return_ => trivial
      | erase node => exact harmed.kept hwf.world (hkept o (decide_eq_true rfl))
  | waitAll deadline phase => exact fun o => (harmed o).kept hwf.world (hkept o rfl)
  | stopAllKill after =>
      exact fun o => ((harmed o).kept hwf.world (hkept o rfl)).mono (hkept o rfl).now
  | stopAllSignal after signaled =>
      intro e' he' hbehind q c hq hc hpid hobj
      have hpos := hwf'.world.pidPos c hc
      have hk := hkept e'.obj rfl
      obtain ⟨p, hp, hcfg, _⟩ := hk.objs q hq (by omega)
      -- the entry was in the map before, under the same name
      have hm : s.world.mapped e'.obj = true := by
        cases hm : s.world.mapped e'.obj with
        | true => rfl
        | false =>
            have hgone := hwf.step_gone h ⟨hm, hwf.world.objLt _ p hp⟩
            have hin : s'.world.mapped e'.obj = true := World.mapped_iff.mpr ⟨e', he', rfl⟩
            rw [hgone.unmapped] at hin
            cases hin
      obtain ⟨e, he, hobj'⟩ := World.mapped_iff.mp hm
      have hname : e.name = e'.name := by
        rw [← hwf.world.config_name he (hobj' ▸ hp), ← hwf'.world.config_name he' hq, hcfg]
      have hwarn := harmed e he (hname ▸ hbehind)
      rw [hobj'] at hwarn
      exact ((hwarn.kept hwf.world hk).mono hk.now) q c hq hc hpid hobj
  | _ => trivial

theorem nanosPerSec_pos : (0 : Int) < nanosPerSec := by decide

/-- The wait of `remove_process` begins: the signal has been sent, and the deadline is one second
behind its time. -/
theorem armed_removeWait {w w' : World} {e : Entry} {p : Process} {env : Env} (hwf : w.Wf)
    (hwf' : w'.Wf) (hok : env.killOk = true) (hfit : p.config.stopwaitsecs ≠ stopwaitsecsMax)
    (hp : w.objs e.obj = some p) (hpos : 0 < p.pid)
    (hcall : w.callStop e.obj env = some (w', true)) :
    w'.Due e.obj (deadlineIn w'.now (p.config.stopwaitsecs + 1)) := by
  have hns := nanosPerSec_pos
  have hwarn := World.warnedBy_of_callStop hwf (by rw [World.pidOf_eq hp]; exact hpos) hok hcall
  intro q hq r c hr hc hpid hobj
  obtain rfl : q = r := Option.some.inj (hq.symm.trans hr)
  have hcpos := hwf'.pidPos c hc
  obtain ⟨p', hp', hcfg, _⟩ := (Kept.callStop e.obj hcall).objs q hq (by omega)
  obtain rfl : p = p' := Option.some.inj (hp.symm.trans hp')
  refine (hwarn.mono ?_) q c hq hc hpid hobj
  rw [deadlineIn_add_one hfit, (World.SameMap.callStop hcall).now, hcfg]
  unfold ProgramConfig.grace
  omega

/-- The wait of `stop_all` begins: everybody in the map has been signalled, and nobody is given more
time than the common deadline. -/
theorem armed_waitAll {w : World} {after : Option String} {signaled : Nat} (hwf : w.Wf)
    (hpol : w.Polite) (hfit : w.maxWait ≠ stopwaitsecsMax)
    (hframe : (Frame.stopAllSignal after signaled).Armed w) (hend : w.nextEntry after = none)
    (o : ObjId) : w.Due o (deadlineIn w.now (w.maxWait + 1)) := by
  have hns := nanosPerSec_pos
  obtain ⟨hnonneg, hmax⟩ := maxWait_spec w
  have hwait : 0 ≤ w.maxWait.toInt * nanosPerSec := Int.mul_nonneg hnonneg (by omega)
  rw [deadlineIn_add_one hfit]
  intro p hp
  cases hm : w.mapped o with
  | false =>
      exact hpol.erased o ⟨hm, hwf.objLt o p hp⟩ |>.mono (by omega) p hp
  | true =>
      obtain ⟨e, he, rfl⟩ := World.mapped_iff.mp hm
      by_cases hpos : 0 < p.pid
      · have hle := hmax e he p hp hpos
        have hmul : p.config.stopwaitsecs.toInt * nanosPerSec ≤ w.maxWait.toInt * nanosPerSec :=
          Int.mul_le_mul_of_nonneg_right hle (by omega)
        apply (hframe e he (World.behind_of_nextEntry_none hend e he)).mono
        unfold ProgramConfig.grace
        omega
      · exact .of_no_child hwf (by rw [World.pidOf_eq hp]; omega)

/-- The wait of `stop_all` ends: nobody has a child, or the deadline has passed. -/
theorem armed_stopAllKill {w : World} {deadline : Int} (hwf : w.Wf) (hpol : w.Polite)
    (hframe : ∀ o, w.Due o deadline)
    (hend : ¬ (w.hasRunningProcesses = true ∧ w.now < deadline)) (o : ObjId) : w.Due o w.now := by
  by_cases hlate : deadline ≤ w.now
  · exact (hframe o).mono hlate
  · have hidle : w.hasRunningProcesses = false := by
      cases hr : w.hasRunningProcesses with
      | false => rfl
      | true => exact absurd ⟨hr, by omega⟩ hend
    intro p hp
    cases hm : w.mapped o with
    | false => exact hpol.erased o ⟨hm, hwf.objLt o p hp⟩ p hp
    | true =>
        obtain ⟨e, he, rfl⟩ := World.mapped_iff.mp hm
        have hnot := List.any_eq_false.mp hidle e he
        exact .of_no_child hwf (by simpa using hnot)

/-- A wait that begins is set up: its deadline lies behind the `stopwaitsecs` of its process. -/
theorem armed_push (hwf : s.Wf) (hpol : s.world.Polite) (h : step s (.exec env) = some s')
    (hguard : GracefulStep env s.world frame s.stack)
    (hframe : frame.Armed s.world) (hkeep : frame.Armed s'.world) {f : Frame}
    (hpush : Pushed env.toEnv s.world s'.world frame f) : f.Armed s'.world := by
  have hwf' := (hwf.step h).world
  cases hpush with
  | plain hf => cases f <;> trivial
  | removeWait hfind hp hpos hcall =>
      refine armed_removeWait hwf.world hwf' (hguard.stops rfl) ?_ hp hpos hcall
      simpa [deadlineFits, hfind, hp] using hguard.fits
  | @waitOn o deadline phase phase' next => cases next <;> exact hkeep
  | stopAllBegin hw =>
      rintro e _ ⟨k, hk, _⟩
      cases hk
  | @stopAllStop _ _ e _ he hpos hcall =>
      have hsame := World.SameMap.callStop hcall
      rintro e' hin ⟨k, hk, hle⟩
      obtain rfl := Option.some.inj hk
      rw [hsame.now]
      rcases World.behind_of_nextEntry_some hwf.world he e' (hsame.processMap ▸ hin) hle with
        rfl | hbehind
      · exact World.warnedBy_of_callStop hwf.world hpos (hguard.stops rfl) hcall
      · exact (hframe e' (hsame.processMap ▸ hin) hbehind).kept hwf.world (.callStop _ hcall)
  | @stopAllSkip _ _ e he hnone hw =>
      rintro e' hin ⟨k, hk, hle⟩
      obtain rfl := Option.some.inj hk
      rw [hw] at hin hwf' ⊢
      rcases World.behind_of_nextEntry_some hwf.world he e' hin hle with rfl | hbehind
      · exact .of_no_child hwf' hnone
      · exact hframe e' hin hbehind
  | stopAllWait hend hw =>
      rw [hw]
      exact armed_waitAll hwf.world hpol (by simpa [deadlineFits] using hguard.fits) hframe hend
  | @waitAllOn deadline phase phase' => exact hkeep
  | waitAllEnd hend hw =>
      rw [hw]
      exact armed_stopAllKill hwf.world hpol hframe hend
  | killNext => exact hkeep
  | _ => trivial

/-- The invariant of graceful runs. -/
structure Sys.Polite (s : Sys) : Prop where
  wf : s.Wf
  own : s.world.Ownership
  world : s.world.Polite
  frames : ∀ f ∈ s.stack, f.Armed s.world

/-- What a graceful statement may be assumed to respect. -/
def gracefulLimits : Limits where
  stop := fun env => env.killOk = true
  forceKill := fun w o => w.Due o w.now
  reap := World.Deliverable
  leave := fun w o => w.Due o w.now

/-- The wait of `remove_process` is over: its process has no child, or the deadline has passed. -/
theorem due_of_removes {w : World} {env : Env} {o : ObjId} (hwf : w.Wf) (hframe : frame.Armed w)
    (hleave : leaveTarget env w frame = some o) (hrem : frame.removes o = true) :
    w.Due o w.now := by
  cases frame with
  | waitStop o' deadline phase next =>
      cases phase with
      | runFor until_ => cases hrem
      | check =>
          cases next with
          | return_ => cases hrem
          | erase node =>
              obtain rfl : o' = o := of_decide_eq_true hrem
              have hdue : w.Due o' deadline := hframe
              by_cases hwait : 0 < w.pidOf o' ∧ w.now < deadline
              · simp [leaveTarget, hwait] at hleave
              · by_cases hpos : 0 < w.pidOf o'
                · exact hdue.mono (by omega)
                · exact .of_no_child hwf (by omega)
  | _ => cases hrem

theorem Sys.Polite.within (hinv : s.Polite) (hs : s.stack = frame :: rest)
    (hguard : GracefulStep env s.world frame s.stack) :
    Within gracefulLimits env.toEnv s.world frame :=
  have hframe : frame.Armed s.world := hinv.frames frame (hs ▸ List.mem_cons_self)
  { spawn := fun _ _ => trivial
    stop := hguard.stops
    forceKill := by
      rintro after e rfl _
      exact hframe e.obj
    wait := fun _ _ => trivial
    reap := fun hr => World.deliverable_of_exitsDeliverable (hguard.reaps hr) hinv.wf.world
    leave := by
      intro v o ho hkept
      suffices hdue : s.world.Due o s.world.now from
        (hdue.kept hinv.wf.world hkept).mono hkept.now
      rcases hguard.leaves o ho with hnone | hrem
      · exact .of_no_child hinv.wf.world hnone
      · exact due_of_removes hinv.wf.world hframe ho hrem
    remark := fun _ _ _ => trivial
    destroy := (hinv.wf.within hs : Within {} env.toEnv s.world frame).destroy }

/-- Every step that keeps to the condition keeps the daemon polite. -/
theorem Sys.Polite.step (hinv : s.Polite) (hguard : stopsGracefully s i = true)
    (h : step s i = some s') : s'.Polite where
  wf := hinv.wf.step h
  own := by
    refine ownership_step hinv.wf hinv.own ?_ h
    cases i with
    | exec env =>
        cases hs : s.stack with
        | nil => simp [reapsDeliver, hs]
        | cons frame rest =>
            have hreap := (stopsGracefully_exec hguard hs).reaps
            cases hr : reaps s.world frame <;> simp_all [reapsDeliver]
    | _ => rfl
  world := by
    rcases Sys.Wf.step_world h with ⟨env, frame, rest, rfl, hs, heff⟩ | hw | hout
    · have hin := hinv.within hs (stopsGracefully_exec hguard hs)
      exact (heff _ hin).polite id (fun _ _ h => h) (fun _ h => h) (fun _ _ h => h) hinv.wf.world
        hinv.own hinv.world
    · rw [hw]
      exact hinv.world
    · exact hout.polite hinv.wf.world hinv.world
  frames := by
    refine step_frames (P := fun w f => f.Armed w) h hinv.frames ?_ ?_ ?_ ?_
    · exact fun f hf harmed => armed_keep hinv.wf hguard h hf harmed
    · rintro env frame rest f rfl hs hpush
      have hin : frame ∈ s.stack := hs ▸ List.mem_cons_self
      have hframe := hinv.frames frame hin
      exact armed_push hinv.wf hinv.world h (stopsGracefully_exec hguard hs)
        hframe (armed_keep hinv.wf hguard h hin hframe) hpush
    · intro f hf
      cases f <;> trivial
    · rintro what f (hf | ⟨o, deadline, phase, next, rfl, _⟩ | ⟨request, rfl, _⟩ | rfl)
      · exact hinv.frames f hf
      all_goals trivial

end Steps

/-- Nothing has been signaled at the start. -/
theorem boot_polite {s : Sys} (h : Boot s) : s.Polite where
  wf := Sys.Wf.boot h
  own := boot_ownership h
  world :=
    { stopping := by
        intro o p hp hst
        have hpos := ((Sys.Wf.boot h).world.coherent o p hp).active (.inr (.inr hst))
        have hle := boot_pidOf h o
        rw [World.pidOf_eq hp] at hle
        omega
      erased := fun o _ => .of_no_child (Sys.Wf.boot h).world (boot_pidOf h o)
      kills := by rw [boot_trace h]; rfl }
  frames := by
    intro f hf
    rcases Sys.Wf.boot_frames h f hf with ⟨o, rfl⟩ | rfl | rfl | rfl | rfl | rfl <;> trivial

/-- **Stops are graceful.**  In every run in which exits can be delivered, stop signals can be sent,
nothing is spawned while a `SIGKILL` for it may be waiting, an object with a child is only removed at
the end of the wait for it, and no deadline overflows, every child that is sent `SIGKILL` by a tick,
by `stop_all` or by a destructor was sent its stop signal at least `stopwaitsecs` seconds before. -/
theorem kills_are_graceful {s : Sys}
    (h : Machine.Reach step (fun s i => stopsGracefully s i = true) Boot s) :
    graceful s.world.trace = true :=
  (h.invariant (P := Sys.Polite) (fun _ => boot_polite)
    fun _ _ _ hinv hg hstep => hinv.step hg hstep).world.kills

/-- `stop_all` waits for a child that ignores `SIGTERM` and kills it eleven seconds later. -/
theorem kills_are_graceful_stop_all : ∃ s,
    Machine.Reach step (fun s i => stopsGracefully s i = true) Boot s ∧
      (s.world.trace.any fun ev => match ev with
        | .signaled r => decide (r.sender = .forceKill)
        | _ => false) = true ∧
      graceful s.world.trace = true := by
  obtain ⟨s, hreach, hkill⟩ := Machine.Reach.exists_of_guardedRun
    (p := fun s : Sys => s.world.trace.any fun ev => match ev with
      | .signaled r => decide (r.sender = .forceKill)
      | _ => false) (fun _ _ h => h)
    (.init (boot_bootSimple ["web"]))
    (show (Machine.guardedRun step stopsGracefully (bootSimple ["web"])
      [.forking ⟨100, by decide⟩, .next, .request .stopAllProcesses, .next, .next, .next, .next,
        .seconds 11, .next, .next, .next]).any _ = true by decide)
  exact ⟨s, hreach, hkill, kills_are_graceful hreach⟩

/-- A start request served while `stop_all` waits: the new child is killed without having been asked
to stop. -/
theorem stop_all_kills_new_child : ∃ s,
    Machine.Reach step Machine.anyStep Boot s ∧ graceful s.world.trace = false := by
  obtain ⟨s, hreach, hkill⟩ := Machine.Reach.exists_of_run
    (p := fun s : Sys => !graceful s.world.trace)
    (.init (boot_bootSimple ["web"]))
    (show (Machine.run step (bootSimple ["web"])
      [.forking ⟨100, by decide⟩, .next, .request .stopAllProcesses, .next, .next, .next, .next,
        .request (.startProcess ["web"]), .forking ⟨101, by decide⟩, .seconds 11, .next, .next,
        .next]).any _ = true by decide)
  exact ⟨s, hreach, by simpa using hkill⟩


end Supervisorcpp
