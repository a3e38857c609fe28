/-
# Rejected stop requests

`supervisor.stopProcess` can be refused by the handler, by `stop_process` and by `Process::stop`.
The last one enters `stopping` before it sends the signal, so where `::kill` fails the request is
answered with a fault and the process stays `stopping`.

Each of the three ways leaves a different trace. The theorem says of every state in which exactly
the request changes nothing: wherever it is refused, unless a stop signal was lost on the way.
-/
import Supervisorcpp.Lib.Machine
import Supervisorcpp.Manager.Effects

namespace Supervisorcpp

/-- What a client can see of an object: `state_`, `pid_` and `state_change_time_`. -/
def World.standing (w : World) (o : ObjId) : Option (State × Int × Int) :=
  (w.objs o).map fun p => (p.state, p.pid, p.stateChangeTime)

/-- The program of the request has a child, is not being stopped yet, and the signal to it fails. -/
def SignalLost (w : World) (params : List String) (env : Answers) : Prop :=
  ∃ name e p, params.head? = some name ∧ w.find name = some e ∧ w.objs e.obj = some p ∧ 0 < p.pid ∧
    (p.state = .starting ∨ p.state = .running ∨ p.state = .backoff) ∧ env.killOk = false

section Rejection

variable {w w' : World} {params : List String} {env : Answers} {frames : List Frame}

@[simp] theorem World.standing_note (w : World) (ev : Event) (o : ObjId) :
    (w.note ev).standing o = w.standing o := rfl

/-- What the handler does up to the wait: it refuses without touching anything, or it signals the
child of a process, and the answer depends on whether that succeeded. -/
theorem rpcStopProcess_cases (h : rpcStopProcess w params env = some (w', frames)) :
    (∃ (v : World) (what : String), (∀ o, v.standing o = w.standing o) ∧
      w' = v.note (.answered (.stopProcess params) (some what)) ∧ ¬ SignalLost w params env) ∨
    ∃ name e p q record, params.head? = some name ∧ w.find name = some e ∧
      w.objs e.obj = some p ∧ 0 < p.pid ∧
      (p.state ≠ .stopped ∧ p.state ≠ .exited ∧ p.state ≠ .fatal) ∧
      q.state = .stopping ∧ q.pid = p.pid ∧
      q.stateChangeTime = (if p.state = .stopping then p.stateChangeTime else w.now) ∧
      ((env.killOk = true ∧
          w' = ((w.note (.stopCalled e.obj)).note (.signaled record)).setObj e.obj q) ∨
        (env.killOk = false ∧
          w' = (((w.note (.stopCalled e.obj)).note (.signaled record)).setObj e.obj q).note
            (.answered (.stopProcess params) (some ("NOT_RUNNING: " ++ name))))) := by
  cases params with
  | nil =>
      obtain ⟨rfl, _⟩ := Prod.mk.inj (Option.some.inj h)
      refine .inl ⟨w, _, fun _ => rfl, rfl, ?_⟩
      rintro ⟨_, _, _, hhead, _⟩
      cases hhead
  | cons name params =>
      simp only [rpcStopProcess] at h
      cases hf : w.find name with
      | none =>
          simp only [hf] at h
          obtain ⟨rfl, _⟩ := Prod.mk.inj (Option.some.inj h)
          refine .inl ⟨w, _, fun _ => rfl, rfl, ?_⟩
          rintro ⟨_, e, _, hhead, hfind, _⟩
          obtain rfl := Option.some.inj hhead
          rw [hf] at hfind
          cases hfind
      | some e =>
          simp only [hf] at h
          obtain ⟨p, hp, h⟩ := Option.bind_eq_some_iff.mp h
          -- the target of a lost signal is this object
          have htarget : SignalLost w (name :: params) env → 0 < p.pid ∧
              (p.state = .starting ∨ p.state = .running ∨ p.state = .backoff) := by
            rintro ⟨_, e', p', hhead, hfind, hp', hpid, hst, _⟩
            obtain rfl := Option.some.inj hhead
            obtain rfl : e = e' := Option.some.inj (hf.symm.trans hfind)
            obtain rfl : p = p' := Option.some.inj (hp.symm.trans hp')
            exact ⟨hpid, hst⟩
          split at h
          · next hst =>
              obtain ⟨rfl, _⟩ := Prod.mk.inj (Option.some.inj h)
              refine .inl ⟨w, _, fun _ => rfl, rfl, fun hlost => ?_⟩
              rcases hst with hst | hst | hst <;> simpa [hst] using (htarget hlost).2
          · next hst =>
              obtain ⟨⟨v, r⟩, hv, hanswer⟩ := Option.bind_eq_some_iff.mp h
              obtain ⟨p', hp', hcase⟩ := World.callStop_cases hv
              obtain rfl : p = p' := Option.some.inj (hp.symm.trans hp')
              rcases hcase with ⟨hno, rfl, rfl⟩ | ⟨hpos, _, hr, q, hpid, _, hq, htime, rfl⟩
              · obtain ⟨rfl, _⟩ := Prod.mk.inj (Option.some.inj hanswer)
                refine .inl ⟨_, _, World.standing_note w _, rfl, fun hlost => ?_⟩
                rcases hno with hle | hstop
                · have hpos := (htarget hlost).1
                  omega
                · exact hst (.inl hstop)
              · rw [not_or, not_or] at hst
                refine .inr ⟨name, e, p, q, ⟨e.obj, p.config, p.pid, Process.stopSignal p.config,
                  w.childOf p.pid, w.now, .stop, env.killOk⟩, rfl, hf, hp, hpos, hst, hq, hpid,
                  htime, ?_⟩
                cases hok : env.killOk with
                | true =>
                    obtain rfl : r = true := hr.trans hok
                    obtain ⟨rfl, _⟩ := Prod.mk.inj (Option.some.inj hanswer)
                    exact .inl ⟨rfl, hok ▸ rfl⟩
                | false =>
                    obtain rfl : r = false := hr.trans hok
                    obtain ⟨rfl, _⟩ := Prod.mk.inj (Option.some.inj hanswer)
                    exact .inr ⟨rfl, hok ▸ rfl⟩

end Rejection

/-- **A rejected stop changes nothing** of any process exactly when it is not rejected because the
signal to a child failed. -/
theorem rejected_stop_changes_nothing_iff {s s' : Sys} {params : List String} {rest : List Frame}
    {env : Answers} {what : String} (hstack : s.stack = .rpcStopProcess params :: rest)
    (hstep : step s (.exec env) = some s')
    (hrejected : s'.world.trace.head? = some (.answered (.stopProcess params) (some what))) :
    (∀ o, s'.world.standing o = s.world.standing o) ↔ ¬ SignalLost s.world params env := by
  simp only [step, hstack, execFrame] at hstep
  obtain ⟨_, hexec, rfl⟩ := Option.map_eq_some_iff.mp hstep
  obtain ⟨⟨w', frames⟩, hstop, rfl⟩ := Option.map_eq_some_iff.mp hexec
  rcases rpcStopProcess_cases hstop with ⟨v, what', hsame, rfl, hno⟩ |
      ⟨name, e, p, q, record, hhead, hfind, hp, hpos, hst, hq, hpid, htime, hanswer⟩
  · exact iff_of_true hsame hno
  · rcases hanswer with ⟨_, rfl⟩ | ⟨hfail, rfl⟩
    · cases hrejected
    · have hchanged : ∀ o, ((((s.world.note (.stopCalled e.obj)).note (.signaled record)).setObj
          e.obj q).note (.answered (.stopProcess params)
            (some ("NOT_RUNNING: " ++ name)))).standing o =
            if o = e.obj then some (.stopping, p.pid, q.stateChangeTime)
            else s.world.standing o := by
        intro o
        by_cases ho : o = e.obj
        · simp [World.standing, ho, hq, hpid]
        · simp [World.standing, ho, World.note]
      constructor
      · rintro hsame ⟨_, e', p', hhead', hfind', hp', _, hst', _⟩
        obtain rfl := Option.some.inj (hhead.symm.trans hhead')
        obtain rfl := Option.some.inj (hfind.symm.trans hfind')
        obtain rfl := Option.some.inj (hp.symm.trans hp')
        have hstate := (hchanged e.obj).symm.trans (hsame e.obj)
        simp only [if_true, World.standing, hp, Option.map_some, Option.some.injEq,
          Prod.mk.injEq] at hstate
        rcases hst' with hst' | hst' | hst' <;> simp [hst'] at hstate
      · intro hlost o
        have hstop : p.state = .stopping := by
          by_contra hne
          refine hlost ⟨name, e, p, hhead, hfind, hp, hpos, ?_, hfail⟩
          cases hp' : p.state <;> simp_all
        rw [if_pos hstop] at htime
        rw [hchanged]
        split
        · next ho => rw [ho, World.standing, hp, Option.map_some, hstop, htime]
        · rfl

/-- A request for an unknown program is rejected and changes nothing. -/
theorem rejected_unknown_program : ∃ s s',
    Machine.Reach step Machine.anyStep Boot s ∧ step s .next = some s' ∧
      s'.world.trace.head? =
        some (.answered (.stopProcess ["nope"]) (some "BAD_NAME: nope")) ∧
      ((∀ o, s'.world.standing o = s.world.standing o) ↔ ¬ SignalLost s.world ["nope"] {}) := by
  obtain ⟨s, hreach, htest⟩ := Machine.Reach.exists_of_run
    (p := fun s : Sys => decide (s.stack.head? = some (.rpcStopProcess ["nope"])) &&
      (step s .next).any fun s' : Sys => decide (s'.world.trace.head? =
        some (.answered (.stopProcess ["nope"]) (some "BAD_NAME: nope"))))
    (.init (boot_bootSimple ["web"]))
    (show (Machine.run step (bootSimple ["web"])
      [.forking ⟨300, by decide⟩, .next, .request (.stopProcess ["nope"])]).any _ = true by decide)
  obtain ⟨hhead, hany⟩ := Bool.and_eq_true_iff.mp htest
  obtain ⟨s', hstep, hrejected⟩ := (Option.any_eq_true _ _).mp hany
  obtain ⟨rest, hstack⟩ := List.head?_eq_some_iff.mp (of_decide_eq_true hhead)
  have hrejected := of_decide_eq_true hrejected
  exact ⟨s, s', hreach, hstep, hrejected,
    rejected_stop_changes_nothing_iff hstack hstep hrejected⟩

/-- A stop whose signal fails is answered with `NOT_RUNNING`, and the process is `stopping`. -/
theorem failed_signal_leaves_stopping : ¬ ∀ (s s' : Sys) (params : List String)
    (rest : List Frame) (env : Answers) (what : String),
    Machine.Reach step Machine.anyStep Boot s → s.stack = .rpcStopProcess params :: rest →
      step s (.exec env) = some s' →
      s'.world.trace.head? = some (.answered (.stopProcess params) (some what)) →
        ∀ o, s'.world.standing o = s.world.standing o := by
  intro h
  obtain ⟨s, hreach, htest⟩ := Machine.Reach.exists_of_run
    (p := fun s : Sys => decide (s.stack.head? = some (.rpcStopProcess ["web"])) &&
      (step s (.exec { killOk := false })).any fun s' : Sys => decide (s'.world.trace.head? =
        some (.answered (.stopProcess ["web"]) (some "NOT_RUNNING: web"))) &&
          decide (s'.world.standing 0 ≠ s.world.standing 0))
    (.init (boot_bootSimple ["web"]))
    (show (Machine.run step (bootSimple ["web"])
      [.forking ⟨301, by decide⟩, .next, .request (.stopProcess ["web"])]).any _ = true by decide)
  obtain ⟨hhead, hany⟩ := Bool.and_eq_true_iff.mp htest
  obtain ⟨s', hstep, hs'⟩ := (Option.any_eq_true _ _).mp hany
  obtain ⟨hrejected, hchanged⟩ := Bool.and_eq_true_iff.mp hs'
  obtain ⟨rest, hstack⟩ := List.head?_eq_some_iff.mp (of_decide_eq_true hhead)
  exact of_decide_eq_true hchanged
    (h s s' ["web"] rest _ _ hreach hstack hstep (of_decide_eq_true hrejected) 0)

end Supervisorcpp
