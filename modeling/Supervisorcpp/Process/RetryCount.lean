/-
# The retry counter

`retry_count_` counts the failed attempts of one episode. It is the exponent of the delay in
`backoff`, and an attempt that brings it to `startretries` is the last one. Nothing bounds it where
it is shifted by, and only two of the ways an episode ends set it back: the process came up, or the
exit of its child completed a stop.

Everything here is derived from one account of what a call can do to the state, the counter and the
pid (`perform_moves`).

The exact delay is `2 ^ n` seconds for the `n`-th failure, at most a minute, as long as the shift
stays within an `int`. For `n = 31` the shift reaches the sign, and from `n = 32` on it is undefined.
-/
import Supervisorcpp.Process.Restarts

namespace Supervisorcpp

namespace Process

/-! ## What a call does to the counter -/

/-- Whether the call adds one to `retry_count_`. -/
def counts (p : Process) : Op → Bool
  | .onExit now status => p.fails (.onExit now status) && p.config.autorestart
  | op => p.fails op

/-- Whether the call sets `retry_count_` back. -/
def resets (p : Process) : Op → Bool
  | .update now _ => decide (p.state = .starting ∧ p.config.startsecs.toInt ≤ p.elapsed now)
  | .onExit _ _ => decide (p.state = .stopping)
  | .start _ _ | .stop _ _ | .kill _ _ => false

/-- The ways a call takes one object to another. -/
inductive Moves (p : Process) (op : Op) (q : Process) : Prop
  | failed (hcounts : p.counts op = true) (h : Failed p q op.now)
  | idle (hst : q.state = p.state) (hr : q.retryCount = p.retryCount) (hpid : q.pid = p.pid)
  | forked (hst : q.state = .starting) (hr : q.retryCount = p.retryCount)
  | up (hresets : p.resets op = true) (hst : q.state = .running) (hr : q.retryCount = 0)
  | stopping (hst : q.state = .stopping) (hr : q.retryCount = p.retryCount)
  | stopped (hresets : p.resets op = true) (hst : q.state = .stopped) (hr : q.retryCount = 0)
      (hpid : q.pid = -1)
  | killed (now : Int) (env : Env) (hop : op = .kill now env) (hpos : 0 < p.pid)
      (hst : q.state = .stopped)
      (hr : q.retryCount = p.retryCount) (hpid : q.pid = -1)
  | exited (now : Int) (status : WaitStatus) (hop : op = .onExit now status)
      (hstop : p.state ≠ .stopping) (hauto : p.shouldAutorestart = false)
      (hst : q.state = .exited) (hr : q.retryCount = p.retryCount) (hpid : q.pid = -1)
  | crashed (now : Int) (status : WaitStatus) (hop : op = .onExit now status)
      (hstop : p.state ≠ .stopping) (hstart : p.state ≠ .starting)
      (hauto : p.shouldAutorestart = true) (hst : q.state = .backoff)
      (hr : q.retryCount = p.retryCount)

section Moves

variable {p : Process} {op : Op}

theorem Moves.same (p : Process) (op : Op) : Moves p op p := .idle rfl rfl rfl

/-- An attempt fails or forks, whoever makes it. -/
theorem moves_of_attempt {now : Int} {env : Env} (hup : p.state ≠ .running ∧ p.state ≠ .starting)
    (hnow : op.now = now) (hcounts : (spawn p.config env).isOk = false → p.counts op = true) :
    Moves p op (p.start now env).process := by
  cases hok : (spawn p.config env).isOk with
  | false => exact .failed (hcounts hok) (hnow ▸ start_failed hup hok)
  | true =>
      obtain ⟨hst, hr, _⟩ := start_forked now hup hok
      exact .forked hst hr

/-- What an exit can do to the count. -/
theorem moves_onExit (p : Process) (now : Int) (status : WaitStatus) :
    Moves p (.onExit now status) (p.onExit now status) := by
  by_cases hstop : p.state = .stopping
  · exact .stopped (by simp [resets, hstop]) (by simp [onExit, hstop]) (by simp [onExit, hstop])
      (onExit_pid p now status)
  · cases hauto : p.shouldAutorestart with
    | false =>
        have hauto' : (p.config.autorestart && decide (p.state ≠ .fatal)) = false := hauto
        refine .exited now status rfl hstop hauto ?_ ?_ (onExit_pid p now status)
        · simp only [onExit, hstop, if_false, shouldAutorestart, hauto', Bool.false_eq_true,
            setState_state]
        · simp only [onExit, hstop, if_false, shouldAutorestart, hauto', Bool.false_eq_true,
            setState_retryCount]
    | true =>
        have hauto' : (p.config.autorestart && decide (p.state ≠ .fatal)) = true := hauto
        have hconf : p.config.autorestart = true := (Bool.and_eq_true_iff.mp hauto').1
        by_cases hstart : p.state = .starting
        · exact .failed (by simp [counts, fails, hstart, hconf]) (onExit_failed hstart hconf status)
        · refine .crashed now status rfl hstop hstart hauto ?_ ?_
          · simp only [onExit, hstop, hstart, if_false, shouldAutorestart, hauto', if_true,
              setState_state]
          · simp only [onExit, hstop, hstart, if_false, shouldAutorestart, hauto', if_true,
              setState_retryCount]

/-- **What a call can do** to the state, the counter and the pid. -/
theorem perform_moves (p : Process) (op : Op) : Moves p op (p.perform op).1 := by
  cases op with
  | start now env =>
      show Moves p (.start now env) (p.start now env).process
      cases hat : p.attempts (.start now env) with
      | true =>
          refine moves_of_attempt (of_decide_eq_true hat) rfl fun hfail => ?_
          simp [counts, fails, hat, hfail]
      | false =>
          rw [start_of_not_attempts hat]
          exact .same p _
  | stop now env =>
      show Moves p (.stop now env) (p.stop now env).process
      unfold stop
      split
      · exact .same p _
      · exact .stopping (by simp) (by simp)
  | kill now env =>
      show Moves p (.kill now env) (p.kill now env).process
      unfold kill
      split
      · exact .same p _
      · next hpid =>
          exact .killed now env rfl (by omega) (by simp) (by simp [Process.killed]) (by simp)
  | onExit now status => exact moves_onExit p now status
  | update now env =>
      show Moves p (.update now env) (p.update now env).process
      cases hat : p.attempts (.update now env) with
      | true =>
          obtain ⟨hq, hup⟩ := update_of_attempts hat
          rw [hq]
          refine moves_of_attempt hup rfl fun hfail => ?_
          simp [counts, fails, hat, hfail]
      | false =>
          cases hst : p.state with
          | starting =>
              by_cases hdue : p.config.startsecs.toInt ≤ p.elapsed now
              · exact .up (by simp [resets, hst, hdue]) (by simp [update, hst, hdue])
                  (by simp [update, hst, hdue])
              · have hq : (p.update now env).process = p := by simp [update, hst, hdue]
                rw [hq]
                exact .same p _
          | stopping =>
              have hq : (p.update now env).process = p := by
                simp only [update, hst]
                split <;> rfl
              rw [hq]
              exact .same p _
          | backoff =>
              rw [update_of_not_attempts hst hat]
              exact .same p _
          | stopped | running | exited | fatal =>
              have hq : (p.update now env).process = p := by simp [update, hst]
              rw [hq]
              exact .same p _

end Moves

/-! ## The delay of `backoff` -/

/-- `on_exit` is called with the status of the child that the process has. -/
def ownExit (p : Process) : Op → Bool
  | .onExit _ _ => decide (0 < p.pid)
  | _ => true

/-- A failed attempt that the counter and the shift have room for, or that is the last one. -/
def countsInRange (p : Process) (op : Op) : Bool :=
  !p.counts op || (decide (p.retryCount.toInt < 2147483647) &&
    (decide (p.retryCount.toInt < 30) || decide (p.config.startretries ≤ p.retryCount + 1)))

/-- In `backoff` the shift is defined, and the delay is the one it is meant to be. -/
def DelayExact (p : Process) : Prop :=
  p.state = .backoff → (0 ≤ p.retryCount.toInt ∧ p.retryCount.toInt < 32) ∧
    ∀ env, (p.backoffDelay env).toInt = spacing p.retryCount ∧ 1 ≤ (p.backoffDelay env).toInt

/-- From one failure to a later one with no reset between, the delay does not get shorter. -/
def DelaysGrow (p : Process) (ops : List Op) : Prop :=
  ∀ pre fail mid next post, ops = pre ++ fail :: (mid ++ next :: post) →
    (p.performAll pre).1.fails fail = true →
    (p.performAll (pre ++ [fail])).1.state = .backoff →
    Along (fun p op => p.resets op = false) (p.performAll (pre ++ [fail])).1 mid →
    (p.performAll (pre ++ fail :: mid)).1.fails next = true →
    (p.performAll (pre ++ fail :: (mid ++ [next]))).1.state = .backoff →
    ∀ env env', ((p.performAll (pre ++ [fail])).1.backoffDelay env).toInt ≤
      ((p.performAll (pre ++ fail :: (mid ++ [next]))).1.backoffDelay env').toInt

section Delay

variable {p : Process} {op : Op}

/-- What bounds the shift: the counter is small in `backoff`, and a process without a child is not
in a state that an exit takes to `backoff` with the counter as it is. -/
structure CountInRange (p : Process) : Prop where
  nonneg : 0 ≤ p.retryCount.toInt
  backoff : p.state = .backoff → p.retryCount.toInt ≤ 30
  running : p.state = .running → p.retryCount = 0
  ended : p.state = .stopped ∨ p.state = .exited → p.pid ≤ 0

theorem countInRange_create (config : ProgramConfig) (created : Int) :
    CountInRange (create config created) where
  nonneg := by simp [create]
  backoff h := by cases h
  running h := by cases h
  ended _ := by simp [create]

/-- A failed attempt in range. -/
theorem CountInRange.of_failed {q : Process} {now : Int} (h : CountInRange p)
    (hcounts : p.counts op = true) (hin : p.countsInRange op = true) (hq : Failed p q now) :
    CountInRange q ∧ p.retryCount.toInt < q.retryCount.toInt := by
  simp only [countsInRange, hcounts, Bool.not_true, Bool.false_or, Bool.and_eq_true,
    Bool.or_eq_true, decide_eq_true_eq] at hin
  have hsucc : q.retryCount.toInt = p.retryCount.toInt + 1 := by
    rw [hq.retryCount, toInt_succ hin.1]
  have hnonneg := h.nonneg
  have hstate := hq.state
  unfold afterFailure at hstate
  refine ⟨⟨by omega, ?_, ?_, ?_⟩, by omega⟩
  · intro hback
    split at hstate
    · rw [hback] at hstate
      cases hstate
    · next hbelow =>
        have hlow := hin.2.resolve_right hbelow
        omega
  · intro hrun
    split at hstate <;> simp [hrun] at hstate
  · intro hend
    split at hstate <;> simp [hstate] at hend

/-- A call keeps the count in range. -/
theorem countInRange_perform (h : CountInRange p) (hown : p.ownExit op = true)
    (hin : p.countsInRange op = true) : CountInRange (p.perform op).1 := by
  have hnonneg := h.nonneg
  cases perform_moves p op with
  | failed hcounts hq => exact (h.of_failed hcounts hin hq).1
  | idle hst hr hpid =>
      refine ⟨by rwa [hr], ?_, ?_, ?_⟩
      · rw [hst, hr]
        exact h.backoff
      · rw [hst, hr]
        exact h.running
      · rw [hst, hpid]
        exact h.ended
  | forked hst hr => exact ⟨by rwa [hr], by simp [hst], by simp [hst], by simp [hst]⟩
  | up _ hst hr => exact ⟨by simp [hr], by simp [hst], fun _ => hr, by simp [hst]⟩
  | stopping hst hr => exact ⟨by rwa [hr], by simp [hst], by simp [hst], by simp [hst]⟩
  | stopped _ hst hr hpid =>
      exact ⟨by simp [hr], by simp [hst], by simp [hst], fun _ => by simp [hpid]⟩
  | killed _ _ _ _ hst hr hpid =>
      exact ⟨by rwa [hr], by simp [hst], by simp [hst], fun _ => by simp [hpid]⟩
  | exited _ _ _ _ _ hst hr hpid =>
      exact ⟨by rwa [hr], by simp [hst], by simp [hst], fun _ => by simp [hpid]⟩
  | crashed now status hop hstop hstart hauto hst hr =>
      refine ⟨by rwa [hr], fun _ => ?_, by simp [hst], by simp [hst]⟩
      rw [hr]
      have hpid : 0 < p.pid := by
        rw [hop] at hown
        exact of_decide_eq_true hown
      -- only a process that was up, or is in `backoff` already, has a child here
      cases hp : p.state with
      | stopped => exact absurd (h.ended (.inl hp)) (by omega)
      | exited => exact absurd (h.ended (.inr hp)) (by omega)
      | starting => exact absurd hp hstart
      | stopping => exact absurd hp hstop
      | fatal => simp [shouldAutorestart, hp] at hauto
      | running => simp [h.running hp]
      | backoff => exact h.backoff hp

/-- So does a run. -/
theorem countInRange_performAll {ops : List Op} (h : CountInRange p)
    (hops : Along (fun p op => p.ownExit op = true ∧ p.countsInRange op = true) p ops) :
    CountInRange (p.performAll ops).1 :=
  hops.invariant (fun _ _ h hop => countInRange_perform h hop.1 hop.2) h

/-- In range the delay is exact. -/
theorem CountInRange.delayExact (h : CountInRange p) : DelayExact p := by
  intro hback
  have hlow := h.nonneg
  have hhigh := h.backoff hback
  refine ⟨⟨hlow, by omega⟩, fun env => ?_⟩
  have hdelay := backoffDelay_toInt env hlow hhigh
  have hpos := spacing_pos p.retryCount
  exact ⟨hdelay, by omega⟩

/-- Where nothing sets it back, the counter only grows. -/
theorem retryCount_le_perform (h : CountInRange p) (hin : p.countsInRange op = true)
    (hno : p.resets op = false) : p.retryCount.toInt ≤ (p.perform op).1.retryCount.toInt := by
  cases perform_moves p op with
  | failed hcounts hq => exact Int.le_of_lt (h.of_failed hcounts hin hq).2
  | idle _ hr _ | forked _ hr | stopping _ hr => rw [hr]
  | up hresets _ _ | stopped hresets _ _ _ => simp [hno] at hresets
  | killed _ _ _ _ _ hr _ => rw [hr]
  | exited _ _ _ _ _ _ hr _ => rw [hr]
  | crashed _ _ _ _ _ _ _ hr => rw [hr]

/-- Between resets the count does not go down. -/
theorem retryCount_le_performAll {ops : List Op} (h : CountInRange p)
    (hops : Along (fun p op => p.ownExit op = true ∧ p.countsInRange op = true) p ops)
    (hno : Along (fun p op => p.resets op = false) p ops) :
    p.retryCount.toInt ≤ (p.performAll ops).1.retryCount.toInt := by
  induction ops generalizing p with
  | nil => exact le_rfl
  | cons op ops ih =>
      obtain ⟨⟨hown, hin⟩, hops⟩ := hops
      have hone := retryCount_le_perform h hin hno.1
      exact Int.le_trans hone (ih (countInRange_perform h hown hin) hops hno.2)

/-- More failures, longer waits. -/
theorem spacing_mono {r r' : Int32} (h : r.toInt ≤ r'.toInt) : spacing r ≤ spacing r' := by
  have hpow : (2 : Int) ^ r.toInt.toNat ≤ 2 ^ r'.toInt.toNat := by
    exact_mod_cast Nat.pow_le_pow_right (n := 2) (by decide) (by omega)
  unfold spacing
  omega

theorem not_resets_of_fails (h : p.fails op = true) : p.resets op = false := by
  cases op with
  | update now env =>
      obtain ⟨hat, -⟩ := Bool.and_eq_true_iff.mp h
      obtain ⟨hst, -⟩ := of_decide_eq_true hat
      simp [resets, hst]
  | onExit now status =>
      have hst : p.state = .starting := of_decide_eq_true h
      simp [resets, hst]
  | start _ _ => rfl
  | stop _ _ => rfl
  | kill _ _ => rfl

end Delay

/-- **The delay is exponential.**  In every run in which no attempt fails for the 31st time in an
episode unless it is the last one (and the counter does not overflow), every state in `backoff` has a
defined shift and a delay of `min(2^r, 60)` seconds, at least one, and the delay does not get shorter
from one failure of an episode to a later one. -/
theorem backoff_delay_exact (config : ProgramConfig) (created : Int) (ops : List Op)
    (hops : Along (fun p op => p.ownExit op = true ∧ p.countsInRange op = true)
      (create config created) ops) :
    DelayExact ((create config created).performAll ops).1 ∧
      DelaysGrow (create config created) ops := by
  have hcreate := countInRange_create config created
  refine ⟨(countInRange_performAll hcreate hops).delayExact, ?_⟩
  intro pre fail mid next post hsplit hfail hback hmid hnext hback' env env'
  have hlist : ops = (pre ++ [fail]) ++ ((mid ++ [next]) ++ post) := by simp [hsplit]
  rw [hlist] at hops
  obtain ⟨hpre, hrest⟩ := hops.append
  obtain ⟨hrun, -⟩ := hrest.append
  have hfirst := countInRange_performAll hcreate hpre
  have hlast : ((create config created).performAll (pre ++ fail :: mid)).1 =
      (((create config created).performAll (pre ++ [fail])).1.performAll mid).1 := by
    rw [← performAll_append, List.append_assoc]
    rfl
  have hlast' : ((create config created).performAll (pre ++ fail :: (mid ++ [next]))).1 =
      (((create config created).performAll (pre ++ [fail])).1.performAll (mid ++ [next])).1 := by
    rw [← performAll_append, List.append_assoc]
    rfl
  rw [hlast] at hnext
  rw [hlast'] at hback' ⊢
  have hgrow := retryCount_le_performAll hfirst hrun (hmid.concat (not_resets_of_fails hnext))
  rw [((hfirst.delayExact hback).2 env).1,
    (((countInRange_performAll hfirst hrun).delayExact hback').2 env').1]
  exact spacing_mono hgrow

/-- Two forks fail, and the process waits four seconds. -/
theorem backoff_delay_exact_two :
    (((create { name := "web", command := "web" } 0).performAll
      [.start 0 {}, .update 2000000000 {}]).1.backoffDelay {}).toInt = 4 := by
  have h := (backoff_delay_exact { name := "web", command := "web" } 0
    [.start 0 {}, .update 2000000000 {}] ⟨by decide, by decide, trivial⟩).1 (by decide)
  rw [(h.2 {}).1]
  decide

/-- With `startretries=40` the 31st failure makes the delay `1 << 31`, which is negative. -/
theorem backoff_delay_negative : ¬ ∀ (config : ProgramConfig) (created : Int) (ops : List Op),
    Along (fun p op => p.ownExit op = true) (create config created) ops →
      DelayExact ((create config created).performAll ops).1 ∧
        DelaysGrow (create config created) ops := by
  intro h
  have hown : ∀ (ops : List Op) (p : Process), (∀ op ∈ ops, op.isTick = true → op.isUpdate = true) →
      Along (fun p op => p.ownExit op = true) p ops := by
    intro ops
    induction ops with
    | nil => exact fun _ _ => trivial
    | cons op ops ih =>
        intro p hops
        obtain ⟨hop, hops⟩ := List.forall_mem_cons.mp hops
        refine ⟨?_, ih _ hops⟩
        cases op with
        | onExit now status => cases hop rfl
        | _ => rfl
  have hexact := (h { name := "web", command := "web", startretries := 40 } 0
    (.start 0 {} :: (List.range 30).map fun i : Nat => .update ((i + 1) * 100000000000) {})
    (hown _ _ (by decide +kernel))).1 (by decide +kernel)
  have hpos := (hexact.2 {}).2
  revert hpos
  decide +kernel

/-! ## The budget of an explicit start -/

/-- The states in which no attempt is under way. -/
def Settled (st : State) : Prop := st = .stopped ∨ st = .exited ∨ st = .fatal ∨ st = .running

/-- The call does not settle the process with failures counted: no attempt is the last one that
`startretries` allows, and an exit that is not followed by a restart or a kill finds none. -/
def settlesFresh (p : Process) : Op → Bool
  | .start now env =>
    !p.counts (.start now env) || !decide (p.config.startretries ≤ p.retryCount + 1)
  | .update now env =>
    !p.counts (.update now env) || !decide (p.config.startretries ≤ p.retryCount + 1)
  | .onExit now status =>
    if p.state = .stopping then true
    else if p.shouldAutorestart then
      !p.counts (.onExit now status) || !decide (p.config.startretries ≤ p.retryCount + 1)
    else decide (p.retryCount = 0)
  | .kill _ _ => decide (p.pid ≤ 0) || decide (p.retryCount = 0)
  | .stop _ _ => true

section Fresh

variable {p : Process} {op : Op}

/-- A counted failure that settles nothing leads to `backoff`. -/
theorem afterFailure_of_settlesFresh (hcounts : p.counts op = true)
    (h : p.settlesFresh op = true) : p.afterFailure = .backoff := by
  have hbelow : ¬ p.config.startretries ≤ p.retryCount + 1 := by
    cases op with
    | start now env => simpa [settlesFresh, hcounts] using h
    | update now env => simpa [settlesFresh, hcounts] using h
    | onExit now status =>
        obtain ⟨hf, hauto⟩ := Bool.and_eq_true_iff.mp hcounts
        have hst : p.state = .starting := of_decide_eq_true hf
        simpa [settlesFresh, hcounts, hst, shouldAutorestart, hauto] using h
    | stop now env => cases hcounts
    | kill now env => cases hcounts
  simp [afterFailure, hbelow]

/-- No failure is counted in a settled state, and the process is not given up. -/
structure Fresh (p : Process) : Prop where
  notFatal : p.state ≠ .fatal
  settled : Settled p.state → p.retryCount = 0

/-- A call keeps the budget fresh in settled states. -/
theorem fresh_perform (h : Fresh p) (hop : p.settlesFresh op = true) :
    Fresh (p.perform op).1 := by
  cases perform_moves p op with
  | failed hcounts hq =>
      have hst := hq.state.trans (afterFailure_of_settlesFresh hcounts hop)
      exact ⟨by simp [hst], by simp [Settled, hst]⟩
  | idle hst hr _ =>
      refine ⟨hst ▸ h.notFatal, fun hsettled => ?_⟩
      rw [hr]
      exact h.settled (hst ▸ hsettled)
  | forked hst _ | stopping hst _ => exact ⟨by simp [hst], by simp [Settled, hst]⟩
  | up _ hst hr | stopped _ hst hr _ => exact ⟨by simp [hst], fun _ => hr⟩
  | killed now env hkill hpos hst hr _ =>
      refine ⟨by simp [hst], fun _ => ?_⟩
      rw [hkill] at hop
      have hor : p.pid ≤ 0 ∨ p.retryCount = 0 := by simpa [settlesFresh] using hop
      rw [hr]
      exact hor.resolve_left (by omega)
  | exited now status hexit hstop hauto hst hr _ =>
      refine ⟨by simp [hst], fun _ => ?_⟩
      rw [hexit] at hop
      rw [hr]
      simpa [settlesFresh, hstop, hauto] using hop
  | crashed _ _ _ _ _ _ hst _ => exact ⟨by simp [hst], by simp [Settled, hst]⟩

/-- A process that is not given up, and whose counter is no larger than the failures it has made. -/
structure WithinBudget (p : Process) (n : Int) : Prop where
  notFatal : p.state ≠ .fatal
  nonneg : 0 ≤ p.retryCount.toInt
  failures : p.retryCount.toInt ≤ n
  below : p.retryCount.toInt < retryBudget p.config

theorem fails_of_counts (h : p.counts op = true) : p.fails op = true := by
  cases op with
  | onExit now status => exact (Bool.and_eq_true_iff.mp h).1
  | start _ _ => exact h
  | update _ _ => exact h
  | stop _ _ => exact h
  | kill _ => exact h

theorem WithinBudget.of_same {q : Process} {n m : Int} (h : WithinBudget p n)
    (hconfig : q.config = p.config) (hst : q.state ≠ .fatal) (hr : q.retryCount = p.retryCount)
    (hnm : n ≤ m) : WithinBudget q m :=
  ⟨hst, hr ▸ h.nonneg, by rw [hr]; exact Int.le_trans h.failures hnm, by
    rw [hr, hconfig]
    exact h.below⟩

theorem WithinBudget.of_reset {q : Process} {n m : Int} (h : WithinBudget p n)
    (hst : q.state ≠ .fatal) (hr : q.retryCount = 0) (hnm : n ≤ m) : WithinBudget q m := by
  have hnonneg := h.nonneg
  have hfailures := h.failures
  refine ⟨hst, by simp [hr], ?_, ?_⟩
  · rw [hr, Int32.toInt_zero]
    omega
  · rw [hr, Int32.toInt_zero, retryBudget]
    omega

/-- A counted failure is the last one, or stays within the budget. -/
theorem WithinBudget.of_failed {q : Process} {n now : Int} (h : WithinBudget p n)
    (hq : Failed p q now) :
    WithinBudget q (n + 1) ∨ (q.state = .fatal ∧ retryBudget p.config ≤ n + 1) := by
  have hnonneg := h.nonneg
  have hfailures := h.failures
  have hbelow := h.below
  have hmax : p.config.startretries.toInt < 2147483648 := p.config.startretries.toInt_lt
  unfold retryBudget at hbelow
  have hsucc : (p.retryCount + 1).toInt = p.retryCount.toInt + 1 := toInt_succ (by omega)
  have hstate := hq.state
  unfold afterFailure at hstate
  simp only [Int32.le_iff_toInt_le, hsucc] at hstate
  split at hstate
  · right
    refine ⟨hstate, ?_⟩
    unfold retryBudget
    omega
  · left
    refine ⟨by simp [hstate], ?_, ?_, ?_⟩
    · rw [hq.retryCount, hsucc]
      omega
    · rw [hq.retryCount, hsucc]
      omega
    · rw [hq.retryCount, hsucc, hq.config, retryBudget]
      omega

/-- A call uses up the budget with its failure, or stays within it. -/
theorem WithinBudget.perform {n : Int} (h : WithinBudget p n) (op : Op) :
    WithinBudget (p.perform op).1 (n + if p.fails op then 1 else 0) ∨
      ((p.perform op).1.state = .fatal ∧
        retryBudget p.config ≤ n + if p.fails op then 1 else 0) := by
  have hconfig := perform_config p op
  have hmore : n ≤ n + if p.fails op then 1 else 0 := by
    split <;> omega
  cases perform_moves p op with
  | failed hcounts hq =>
      rw [if_pos (fails_of_counts hcounts)]
      exact h.of_failed hq
  | idle hst hr _ => exact .inl (h.of_same hconfig (hst ▸ h.notFatal) hr hmore)
  | forked hst hr | stopping hst hr => exact .inl (h.of_same hconfig (by simp [hst]) hr hmore)
  | up _ hst hr | stopped _ hst hr _ => exact .inl (h.of_reset (by simp [hst]) hr hmore)
  | killed _ _ _ _ hst hr _ => exact .inl (h.of_same hconfig (by simp [hst]) hr hmore)
  | exited _ _ _ _ _ hst hr _ => exact .inl (h.of_same hconfig (by simp [hst]) hr hmore)
  | crashed _ _ _ _ _ _ hst hr => exact .inl (h.of_same hconfig (by simp [hst]) hr hmore)

/-- A run gives up only after failures that fill the budget. -/
theorem WithinBudget.budget_of_fatal {n : Int} {ops : List Op} (h : WithinBudget p n)
    (hfatal : .fatal ∈ p.states ops) : retryBudget p.config ≤ n + p.failures ops := by
  induction ops generalizing p n with
  | nil =>
      have hst : State.fatal = p.state := by simpa [states] using hfatal
      exact absurd hst.symm h.notFatal
  | cons op ops ih =>
      have hrest : .fatal ∈ (p.perform op).1.states ops := by
        rcases List.mem_cons.mp hfatal with hst | hrest
        · exact absurd hst.symm h.notFatal
        · exact hrest
      have hsum : ((p.failures (op :: ops) : Nat) : Int) =
          (if p.fails op then 1 else 0) + (p.perform op).1.failures ops := by
        simp only [Process.failures, Nat.cast_add]
        split <;> rfl
      rw [hsum]
      rcases h.perform op with hnext | ⟨_, hbudget⟩
      · have hih := ih hnext hrest
        rw [perform_config] at hih
        omega
      · omega

end Fresh

/-- **A fresh budget for every explicit start.**  In every run whose calls settle the process with
no failures counted, the counter is zero in every settled state, and an explicit start from there
leads to `fatal` only after `max(1, startretries)` failed attempts. -/
theorem fresh_budget_on_start (config : ProgramConfig) (created : Int) (ops : List Op)
    (hops : Along (fun p op => p.settlesFresh op = true) (create config created) ops) (p : Process)
    (hp : p = ((create config created).performAll ops).1) (hsettled : Settled p.state) :
    p.retryCount = 0 ∧ ∀ now env more, .fatal ∈ p.states (.start now env :: more) →
      retryBudget p.config ≤ p.failures (.start now env :: more) := by
  have hfresh : Fresh p := by
    rw [hp]
    exact hops.invariant (fun _ _ h hop => fresh_perform h hop) ⟨by simp [create], fun _ => rfl⟩
  have hcount := hfresh.settled hsettled
  refine ⟨hcount, fun now env more hfatal => ?_⟩
  have hwithin : WithinBudget p 0 := by
    refine ⟨hfresh.notFatal, ?_, ?_, ?_⟩
    · rw [hcount]
      decide
    · rw [hcount]
      decide
    · rw [hcount, retryBudget, Int32.toInt_zero]
      omega
  have hbudget := hwithin.budget_of_fatal hfatal
  omega

/-- A program that comes up, is stopped and is started again has both of its attempts. -/
theorem fresh_budget_on_start_again :
    retryBudget { name := "web", command := "web", startretries := 2 } ≤
      ((create { name := "web", command := "web", startretries := 2 } 0).performAll
        [.start 0 { fork := .ok ⟨200, by decide⟩ }, .stop 5000000000 {},
          .onExit 6000000000 (.exited 0)]).1.failures [.start 7000000000 {}, .update 9000000000 {}] :=
  (fresh_budget_on_start { name := "web", command := "web", startretries := 2 } 0
    [.start 0 { fork := .ok ⟨200, by decide⟩ }, .stop 5000000000 {}, .onExit 6000000000 (.exited 0)]
    ⟨by decide, by decide, by decide, trivial⟩ _ rfl (.inl (by decide))).2 7000000000 {}
    [.update 9000000000 {}] (by decide)

/-- Once it has given up, a program is given up again at the first failure of an explicit start. -/
theorem given_up_keeps_count : ¬ ∀ (config : ProgramConfig) (created : Int) (ops : List Op)
    (p : Process), p = ((create config created).performAll ops).1 → Settled p.state →
      p.retryCount = 0 ∧ ∀ now env more, .fatal ∈ p.states (.start now env :: more) →
        retryBudget p.config ≤ p.failures (.start now env :: more) := by
  intro h
  have hcount := (h { name := "web", command := "web" } 0
    [.start 0 {}, .update 2000000000 {}, .update 4000000000 {}] _ rfl
    (.inr (.inr (.inl (by decide))))).1
  revert hcount
  decide

end Process

end Supervisorcpp
