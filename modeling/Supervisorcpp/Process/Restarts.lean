/-
# Retries, backoff and restarts

What a process does with failed start attempts, over whole sequences of calls: how far apart the
attempts out of `backoff` are, after how many failures it gives up, and that without `autorestart`
an exit leads to no new child.

An attempt is a call of `spawn_`, made by `start` or by `update` out of `backoff`. It fails when
`spawn_` fails, or later, when the child exits while the process is still `starting`.

A run is a list of calls with their clock readings and answers. Conditions on a run are checked
along it (`Along`), each on the state before the call, and the properties are about every prefix, so
they hold in between as well.

The three results are independent: the spacing of attempts counts the delay from the failed attempt,
the budget counts failed attempts up to `FATAL`, and the last one counts forks against explicit
starts.
-/
import Mathlib.Algebra.Ring.Int.Defs
import Mathlib.Algebra.Ring.Nat
import Mathlib.Data.Int.Order.Basic
import Mathlib.Data.List.Count
import Supervisorcpp.Process.Signals

namespace Supervisorcpp

namespace Process

/-! ## Attempts and failures -/

/-- An explicit call of `start`. -/
def Op.isStart : Op → Bool
  | .start _ _ => true
  | _ => false

/-- A call of `update` or `on_exit`. -/
def Op.isTick : Op → Bool
  | .update _ _ | .onExit _ _ => true
  | _ => false

/-- A call of `update`. -/
def Op.isUpdate : Op → Bool
  | .update _ _ => true
  | _ => false

/-- The clock reading of a call. -/
def Op.now : Op → Int
  | .start now _ | .stop now _ | .kill now _ | .onExit now _ | .update now _ => now

/-- Whether the call reaches `spawn_`. -/
def attempts (p : Process) : Op → Bool
  | .start _ _ => decide (p.state ≠ .running ∧ p.state ≠ .starting)
  | .update now env =>
    decide (p.state = .backoff ∧ (p.backoffDelay env).toInt ≤ p.elapsed now)
  | .stop _ _ | .kill _ _ | .onExit _ _ => false

/-- Whether the call ends an attempt in failure. -/
def fails (p : Process) : Op → Bool
  | .start now env => p.attempts (.start now env) && !(spawn p.config env).isOk
  | .update now env => p.attempts (.update now env) && !(spawn p.config env).isOk
  | .onExit _ _ => decide (p.state = .starting)
  | .stop _ _ | .kill _ _ => false

/-- The states of a run, the first one included. -/
def states (p : Process) : List Op → List State
  | [] => [p.state]
  | op :: ops => p.state :: (p.perform op).1.states ops

/-- How many attempts fail in a run. -/
def failures (p : Process) : List Op → Nat
  | [] => 0
  | op :: ops => (if p.fails op then 1 else 0) + (p.perform op).1.failures ops

/-- Every call of a run meets `P` in the state it is made in. -/
def Along (P : Process → Op → Prop) (p : Process) : List Op → Prop
  | [] => True
  | op :: ops => P p op ∧ Along P (p.perform op).1 ops

section Runs

variable {p : Process} {op : Op}

/-- A run goes on where its first part ends. -/
theorem performAll_append (p : Process) (pre ops : List Op) :
    (p.performAll (pre ++ ops)).1 = ((p.performAll pre).1.performAll ops).1 := by
  induction pre generalizing p with
  | nil => rfl
  | cons op pre ih => exact ih (p.perform op).1

theorem states_concat (p : Process) (pre : List Op) (op : Op) :
    p.states (pre ++ [op]) = p.states pre ++ [(p.performAll (pre ++ [op])).1.state] := by
  induction pre generalizing p with
  | nil => rfl
  | cons op' pre ih =>
      show p.state :: (p.perform op').1.states (pre ++ [op]) = _
      rw [ih]
      rfl

theorem failures_concat (p : Process) (pre : List Op) (op : Op) :
    p.failures (pre ++ [op]) =
      p.failures pre + if (p.performAll pre).1.fails op then 1 else 0 := by
  induction pre generalizing p with
  | nil =>
      show (if p.fails op then 1 else 0) + 0 = 0 + if p.fails op then 1 else 0
      omega
  | cons op' pre ih =>
      show (if p.fails op' then 1 else 0) + (p.perform op').1.failures (pre ++ [op]) = _
      rw [ih, ← Nat.add_assoc]
      rfl

/-- A run visits its prefix's states first. -/
theorem mem_states_of_append {st : State} {pre ops : List Op} (h : st ∈ p.states pre) :
    st ∈ p.states (pre ++ ops) := by
  induction pre generalizing p with
  | nil =>
      have hst : st = p.state := by simpa [states] using h
      subst hst
      cases ops <;> simp [states]
  | cons op pre ih =>
      rcases List.mem_cons.mp h with h | h
      · exact List.mem_cons.mpr (.inl h)
      · exact List.mem_cons.mpr (.inr (ih h))

/-- A condition along a run holds along both of its parts. -/
theorem Along.append {P : Process → Op → Prop} {pre ops : List Op}
    (h : Along P p (pre ++ ops)) : Along P p pre ∧ Along P (p.performAll pre).1 ops := by
  induction pre generalizing p with
  | nil => exact ⟨trivial, h⟩
  | cons op pre ih => exact ⟨⟨h.1, (ih h.2).1⟩, (ih h.2).2⟩

theorem Along.concat {P : Process → Op → Prop} {pre : List Op} (h : Along P p pre)
    (hop : P (p.performAll pre).1 op) : Along P p (pre ++ [op]) := by
  induction pre generalizing p with
  | nil => exact ⟨hop, trivial⟩
  | cons op' pre ih => exact ⟨h.1, ih h.2 hop⟩

theorem start_config (p : Process) (now : Int) (env : Env) :
    (p.start now env).process.config = p.config := by
  rcases start_cases p now env with ⟨_, h⟩ | ⟨_, _, _, _, h, _⟩ | ⟨_, _, _, _, _, _, h, _⟩
  · rw [h]
  · exact h
  · exact h

theorem perform_config (p : Process) (op : Op) : (p.perform op).1.config = p.config := by
  cases op with
  | start now env => exact start_config p now env
  | stop now env =>
      rcases stop_cases p now env with ⟨_, h⟩ | ⟨_, _, _, _, _, h, _, _⟩
      · simp [perform, h]
      · exact h
  | kill now env =>
      show (p.kill now env).process.config = p.config
      unfold kill
      split <;> simp
  | onExit now status => exact onExit_config p now status
  | update now env =>
      rcases update_cases p now env with h | ⟨_, _, _, h, _⟩ | ⟨_, _, h⟩ | ⟨_, _, h, _⟩
      · simp [perform, h]
      · exact h
      · simp [perform, h]
      · show (p.update now env).process.config = p.config
        rw [h]
        exact start_config p now env

/-- No call changes the configuration. -/
theorem performAll_config (p : Process) (ops : List Op) :
    (p.performAll ops).1.config = p.config := by
  induction ops generalizing p with
  | nil => rfl
  | cons op ops ih => exact (ih (p.perform op).1).trans (perform_config p op)

/-- What every call keeps holds at the end of a run. -/
theorem Along.invariant {P : Process → Op → Prop} {Q : Process → Prop} {ops : List Op}
    (hstep : ∀ p op, Q p → P p op → Q (p.perform op).1) (hp : Q p) (h : Along P p ops) :
    Q (p.performAll ops).1 := by
  induction ops generalizing p with
  | nil => exact hp
  | cons op ops ih => exact ih (hstep p op hp h.1) h.2

end Runs

/-! ## What an attempt does -/

section Attempts

variable {p : Process} {op : Op} {now : Int} {env : Env}

/-- The state a failed attempt leads to. -/
def afterFailure (p : Process) : State :=
  if p.config.startretries ≤ p.retryCount + 1 then .fatal else .backoff

theorem toInt_succ {r : Int32} (h : r.toInt < 2147483647) : (r + 1).toInt = r.toInt + 1 := by
  have hlow := r.le_toInt
  rw [Int32.toInt_add]
  show (r.toInt + 1).bmod (2 ^ 32) = r.toInt + 1
  exact Int.bmod_eq_of_le (by omega) (by omega)

/-- Setting the state that is there already changes nothing, the time least of all. -/
theorem setState_stateChangeTime (p : Process) (st : State) (now : Int) :
    (p.setState st now).stateChangeTime = if st = p.state then p.stateChangeTime else now := by
  unfold setState
  split <;> rfl

/-- What a failed attempt leaves behind: one failure more, and `state_change_time_` moved only when
the state is a new one. -/
structure Failed (p q : Process) (now : Int) : Prop where
  state : q.state = p.afterFailure
  retryCount : q.retryCount = p.retryCount + 1
  config : q.config = p.config
  changed : q.stateChangeTime = if p.afterFailure = p.state then p.stateChangeTime else now

/-- A start whose spawn fails. -/
theorem start_failed (hup : p.state ≠ .running ∧ p.state ≠ .starting)
    (hs : (spawn p.config env).isOk = false) : Failed p (p.start now env).process now := by
  have hnot : ¬ (p.state = .running ∨ p.state = .starting) := not_or.mpr hup
  cases hsp : spawn p.config env with
  | ok pid =>
      rw [hsp] at hs
      cases hs
  | error err =>
      have hq : (p.start now env).process =
          { p with spawnError := err, retryCount := p.retryCount + 1 }.setState
            p.afterFailure now := by
        simp only [start, hnot, hsp, if_false, afterFailure]
        split <;> rfl
      rw [hq]
      exact ⟨setState_state _ _ _, setState_retryCount _ _ _, setState_config _ _ _,
        setState_stateChangeTime _ _ _⟩

/-- A start whose spawn succeeds. -/
theorem start_forked (now : Int) (hup : p.state ≠ .running ∧ p.state ≠ .starting)
    (hs : (spawn p.config env).isOk = true) :
    (p.start now env).process.state = .starting ∧
      (p.start now env).process.retryCount = p.retryCount ∧
      (p.start now env).process.config = p.config := by
  have hnot : ¬ (p.state = .running ∨ p.state = .starting) := not_or.mpr hup
  cases hsp : spawn p.config env with
  | ok pid => simp [start, hnot, hsp]
  | error err =>
      rw [hsp] at hs
      cases hs

/-- A start that is refused does nothing. -/
theorem start_of_not_attempts (h : p.attempts (.start now env) = false) :
    (p.start now env).process = p := by
  have hup : p.state = .running ∨ p.state = .starting := by
    by_contra hno
    exact of_decide_eq_false h (not_or.mp hno)
  simp [start, hup]

/-- An update either attempts, and is a start then, or leaves `backoff` as it is. -/
theorem update_of_attempts (h : p.attempts (.update now env) = true) :
    (p.update now env).process = (p.start now env).process ∧
      (p.state ≠ .running ∧ p.state ≠ .starting) := by
  obtain ⟨hst, hdue⟩ := of_decide_eq_true h
  refine ⟨?_, by simp [hst]⟩
  simp [update, hst, hdue]

/-- An update before the delay has elapsed does nothing. -/
theorem update_of_not_attempts (hst : p.state = .backoff)
    (h : p.attempts (.update now env) = false) : (p.update now env).process = p := by
  have hdue : ¬ (p.backoffDelay env).toInt ≤ p.elapsed now := by
    intro hdue
    exact of_decide_eq_false h ⟨hst, hdue⟩
  simp [update, hst, hdue]

/-- An exit from `starting` counts as a failure where the program is restarted at all. -/
theorem onExit_failed (hst : p.state = .starting) (hauto : p.config.autorestart = true)
    (status : WaitStatus) : Failed p (p.onExit now status) now := by
  have hq : p.onExit now status =
      { p with exitstatus := exitCode status, pid := -1, retryCount := p.retryCount + 1 }.setState
        p.afterFailure now := by
    simp only [onExit, shouldAutorestart, hst, hauto, afterFailure]
    simp only [reduceCtorEq, if_false, ne_eq, not_false_eq_true, decide_true, Bool.and_self,
      if_true]
    split <;> rfl
  rw [hq]
  exact ⟨setState_state _ _ _, setState_retryCount _ _ _, setState_config _ _ _,
    setState_stateChangeTime _ _ _⟩

/-- **What a failed attempt does**, whichever of the three ways it failed: it is counted, or it is
the exit of a program that is not restarted. -/
theorem perform_of_fails (hf : p.fails op = true) :
    Failed p (p.perform op).1 op.now ∨
      (p.config.autorestart = false ∧ (p.perform op).1.state = .exited ∧
        (p.perform op).1.retryCount = p.retryCount) := by
  cases op with
  | start now env =>
      left
      obtain ⟨hat, hs⟩ := Bool.and_eq_true_iff.mp hf
      exact start_failed (of_decide_eq_true hat) (by simpa using hs)
  | update now env =>
      left
      obtain ⟨hat, hs⟩ := Bool.and_eq_true_iff.mp hf
      obtain ⟨hq, hup⟩ := update_of_attempts hat
      show Failed p (p.update now env).process now
      rw [hq]
      exact start_failed hup (by simpa using hs)
  | onExit now status =>
      have hst : p.state = .starting := of_decide_eq_true hf
      cases hauto : p.config.autorestart with
      | true => exact .inl (onExit_failed hst hauto status)
      | false =>
          right
          show _ ∧ (p.onExit now status).state = .exited ∧ (p.onExit now status).retryCount = _
          simp [onExit, shouldAutorestart, hst, hauto]
  | stop now env => cases hf
  | kill now env => cases hf

end Attempts

/-! ## The spacing of attempts -/

/-- The seconds between a failure that makes the count `r` and the next attempt. -/
def spacing (r : Int32) : Int := min (2 ^ r.toInt.toNat) 60

/-- After every failed attempt that leaves the process in `backoff`, the next attempt an update
makes comes no earlier than the spacing asks. -/
def BackoffSpaced (p : Process) (ops : List Op) : Prop :=
  ∀ pre fail mid next post, ops = pre ++ fail :: (mid ++ next :: post) →
    (p.performAll pre).1.fails fail = true →
    (p.performAll (pre ++ [fail])).1.state = .backoff →
    Along (fun p op => p.attempts op = false) (p.performAll (pre ++ [fail])).1 mid →
    next.isUpdate = true →
    (p.performAll (pre ++ fail :: mid)).1.attempts next = true →
    fail.now + spacing (p.performAll (pre ++ [fail])).1.retryCount * nanosPerSec ≤ next.now

/-- A failed attempt out of `backoff` is the last one, so `state_change_time_` is the time of the
last failure; and the count does not overflow. -/
def refreshes (p : Process) (op : Op) : Bool :=
  !p.fails op || (decide (p.retryCount.toInt < 2147483647) &&
    (decide (p.state ≠ .backoff) || decide (p.config.startretries ≤ p.retryCount + 1)))

section Spacing

variable {p : Process} {op : Op}

theorem spacing_pos (r : Int32) : 0 < spacing r := by
  have hpow : (0 : Int) < 2 ^ r.toInt.toNat := Int.pow_pos (by decide)
  unfold spacing
  omega

/-- As long as the shift stays in range, the delay is the power of two, or a minute. -/
theorem backoffDelay_toInt (env : Env) (hlow : 0 ≤ p.retryCount.toInt)
    (hhigh : p.retryCount.toInt ≤ 30) :
    (p.backoffDelay env).toInt = spacing p.retryCount := by
  have htable : ∀ k < 31, (min (1 <<< Int32.ofNat k) 60 : Int32).toInt = min (2 ^ k) 60 := by
    decide
  have hk : p.retryCount = Int32.ofNat p.retryCount.toInt.toNat := by
    rw [← Int32.toInt_inj, Int32.toInt_ofNat_of_lt (by omega)]
    omega
  have hshl : oneShl p.retryCount env.undefShift = 1 <<< p.retryCount := by
    unfold oneShl
    exact if_pos ⟨hlow, by omega⟩
  unfold backoffDelay spacing
  rw [hshl]
  conv_lhs => rw [hk]
  exact htable _ (by omega)

/-- Where the delay has elapsed since `state_change_time_`, in whole seconds. -/
theorem le_of_elapsed {d now : Int} (hd : 0 < d) (h : d ≤ p.elapsed now) :
    p.stateChangeTime + d * nanosPerSec ≤ now := by
  unfold elapsed at h
  have hpos : (0 : Int) < nanosPerSec := by decide
  have hnonneg : 0 ≤ now - p.stateChangeTime := by
    by_contra hneg
    have hle := Int.tdiv_nonneg (a := -(now - p.stateChangeTime)) (by omega) (Int.le_of_lt hpos)
    rw [Int.neg_tdiv] at hle
    omega
  rw [Int.tdiv_eq_ediv_of_nonneg hnonneg] at h
  have hmul := (Int.le_ediv_iff_mul_le hpos).mp h
  omega

/-- A call that fails no attempt keeps the count or starts it anew. -/
theorem retryCount_of_not_fails (hf : p.fails op = false) :
    (p.perform op).1.retryCount = p.retryCount ∨ (p.perform op).1.retryCount = 0 := by
  cases op with
  | start now env =>
      left
      show (p.start now env).process.retryCount = p.retryCount
      cases hat : p.attempts (.start now env) with
      | true => exact (start_forked now (of_decide_eq_true hat) (by simpa [fails, hat] using hf)).2.1
      | false => rw [start_of_not_attempts hat]
  | update now env =>
      show (p.update now env).process.retryCount = _ ∨ (p.update now env).process.retryCount = 0
      cases hat : p.attempts (.update now env) with
      | true =>
          obtain ⟨hq, hup⟩ := update_of_attempts hat
          rw [hq]
          exact .inl (start_forked now hup (by simpa [fails, hat] using hf)).2.1
      | false =>
          have hdue : ¬ (p.state = .backoff ∧ (p.backoffDelay env).toInt ≤ p.elapsed now) :=
            of_decide_eq_false hat
          unfold update
          split
          · split
            · exact .inr rfl
            · exact .inl rfl
          · split <;> exact .inl rfl
          · next hb => simp [hb] at hdue; simp [Int.not_le.mpr hdue]
          · exact .inl rfl
  | onExit now status =>
      show (p.onExit now status).retryCount = _ ∨ (p.onExit now status).retryCount = 0
      have hst : p.state ≠ .starting := of_decide_eq_false hf
      simp only [onExit, hst, if_false]
      split_ifs <;> simp
  | stop now env =>
      left
      show (p.stop now env).process.retryCount = p.retryCount
      unfold stop
      split <;> simp
  | kill now env =>
      left
      show (p.kill now env).process.retryCount = p.retryCount
      unfold kill killed
      split <;> simp

/-- The count does not become negative. -/
theorem retryCount_nonneg (h0 : 0 ≤ p.retryCount.toInt) (hr : p.refreshes op = true) :
    0 ≤ (p.perform op).1.retryCount.toInt := by
  cases hf : p.fails op with
  | false =>
      rcases retryCount_of_not_fails hf with hq | hq
      · rw [hq]
        exact h0
      · rw [hq]
        decide
  | true =>
      simp only [refreshes, hf, Bool.not_true, Bool.false_or, Bool.and_eq_true,
        decide_eq_true_eq] at hr
      rcases perform_of_fails hf with hfailed | ⟨_, _, hq⟩
      · rw [hfailed.retryCount, toInt_succ hr.1]
        omega
      · rw [hq]
        exact h0

/-- Waiting for the next attempt since time `t` with `r` failures counted, or out of `backoff` for
good. -/
def Waiting (t : Int) (r : Int32) (p : Process) : Prop :=
  (p.state = .backoff ∧ p.stateChangeTime = t ∧ p.retryCount = r) ∨
    (p.state = .exited ∧ p.config.autorestart = false)

/-- A call that makes no attempt leaves the clock of `backoff` alone. -/
theorem waiting_perform {t : Int} {r : Int32} (h : Waiting t r p) (htick : op.isTick = true)
    (hno : p.attempts op = false) : Waiting t r (p.perform op).1 := by
  cases op with
  | update now env =>
      have hq : (p.update now env).process = p := by
        rcases h with ⟨hst, _⟩ | ⟨hst, _⟩
        · exact update_of_not_attempts hst hno
        · simp [update, hst]
      show Waiting t r (p.update now env).process
      rw [hq]
      exact h
  | onExit now status =>
      show Waiting t r (p.onExit now status)
      rcases h with ⟨hst, ht, hr⟩ | ⟨hst, hauto⟩
      · cases hauto : p.config.autorestart with
        | true =>
            left
            simp [onExit, shouldAutorestart, hst, hauto, setState, ht, hr]
        | false =>
            right
            simp [onExit, shouldAutorestart, hst, hauto]
      · right
        simp [onExit, shouldAutorestart, hst, hauto]
  | start now env => cases htick
  | stop now env => cases htick
  | kill now env => cases htick

/-- Ticks that attempt nothing leave the process waiting. -/
theorem waiting_performAll {t : Int} {r : Int32} {ops : List Op} (h : Waiting t r p)
    (hops : ∀ op ∈ ops, op.isTick = true)
    (hno : Along (fun p op => p.attempts op = false) p ops) : Waiting t r (p.performAll ops).1 := by
  induction ops generalizing p with
  | nil => exact h
  | cons op ops ih =>
      obtain ⟨htick, hops⟩ := List.forall_mem_cons.mp hops
      exact ih (waiting_perform h htick hno.1) hops hno.2

/-- A failure that leaves a refreshed process in `backoff` starts its clock. -/
theorem waiting_of_fails (hretries : p.config.startretries.toInt ≤ 30)
    (h0 : 0 ≤ p.retryCount.toInt) (hr : p.refreshes op = true) (hf : p.fails op = true)
    (hst : (p.perform op).1.state = .backoff) :
    Waiting op.now (p.perform op).1.retryCount (p.perform op).1 ∧
      0 ≤ (p.perform op).1.retryCount.toInt ∧ (p.perform op).1.retryCount.toInt < 30 := by
  rcases perform_of_fails hf with hfailed | ⟨_, hexit, _⟩
  · have hnonneg := retryCount_nonneg h0 hr
    have hback : p.afterFailure = .backoff := hfailed.state.symm.trans hst
    have hbelow : ¬ p.config.startretries ≤ p.retryCount + 1 := by
      intro hle
      simp [afterFailure, hle] at hback
    have hne : p.state ≠ .backoff := by
      simp only [refreshes, hf, Bool.not_true, Bool.false_or, Bool.and_eq_true, Bool.or_eq_true,
        decide_eq_true_eq] at hr
      exact hr.2.resolve_right hbelow
    refine ⟨.inl ⟨hst, ?_, rfl⟩, hnonneg, ?_⟩
    · rw [hfailed.changed, hback, if_neg hne.symm]
    · rw [hfailed.retryCount]
      rw [Int32.le_iff_toInt_le] at hbelow
      omega
  · rw [hst] at hexit
    cases hexit

end Spacing

/-- **Exponential backoff.**  With at most 30 retries, in every run that begins with `start` and goes
on with updates and exits: if no attempt out of `backoff` fails other than for the last time, then
after each failure the next attempt of an update waits `min(2^r, 60)` seconds. -/
theorem backoff_spaced (config : ProgramConfig) (hretries : config.startretries ≤ 30)
    (created now : Int) (env : Env) (ops : List Op) (hops : ∀ op ∈ ops, op.isTick = true)
    (hruns : Along (fun p op => p.refreshes op = true) (create config created)
      (.start now env :: ops)) :
    BackoffSpaced (create config created) (.start now env :: ops) := by
  intro pre fail mid next post hsplit hf hst hmid hnext hat
  rw [hsplit] at hruns
  obtain ⟨hpre, hfail, -⟩ := hruns.append
  have h0 : 0 ≤ ((create config created).performAll pre).1.retryCount.toInt :=
    hpre.invariant (Q := fun p => 0 ≤ p.retryCount.toInt) (fun _ _ h hr => retryCount_nonneg h hr)
      (by simp [create])
  have hcfg : ((create config created).performAll pre).1.config = config :=
    performAll_config (create config created) pre
  have hlimit : ((create config created).performAll pre).1.config.startretries.toInt ≤ 30 := by
    rw [hcfg]
    exact Int32.le_iff_toInt_le.mp hretries
  have hticks : ∀ op ∈ mid, op.isTick = true := by
    intro op hop
    apply hops op
    cases pre with
    | nil =>
        rw [(List.cons.inj hsplit).2]
        simp [hop]
    | cons first pre =>
        rw [(List.cons.inj hsplit).2]
        simp [hop]
  have hq : ((create config created).performAll (pre ++ [fail])).1 =
      (((create config created).performAll pre).1.perform fail).1 := performAll_append _ _ _
  have hlast : ((create config created).performAll (pre ++ fail :: mid)).1 =
      ((((create config created).performAll pre).1.perform fail).1.performAll mid).1 :=
    performAll_append _ _ _
  rw [hq] at hst hmid ⊢
  rw [hlast] at hat
  obtain ⟨hwait, hlow, hhigh⟩ := waiting_of_fails hlimit h0 hfail hf hst
  cases next with
  | update later env' =>
      obtain ⟨hback, hdue⟩ := of_decide_eq_true hat
      rcases waiting_performAll hwait hticks hmid with ⟨_, htime, hcount⟩ | ⟨hexit, _⟩
      · rw [backoffDelay_toInt env' (by rw [hcount]; exact hlow) (by rw [hcount]; omega),
          hcount] at hdue
        have hle := le_of_elapsed (spacing_pos _) hdue
        rw [htime] at hle
        exact hle
      · rw [hback] at hexit
        cases hexit
  | _ => cases hnext

/-- The child exits 2 s after the start, the next attempt is made at 4 s. -/
theorem backoff_spaced_early_exit :
    2000000000 + spacing 1 * nanosPerSec ≤ 4000000000 := by
  have h := backoff_spaced { name := "web", command := "web" } (by decide) 0 0
    { fork := .ok ⟨100, by decide⟩ }
    [.onExit 2000000000 (.exited 1), .update 4000000000 { fork := .ok ⟨101, by decide⟩ }]
    (by decide) ⟨by decide, by decide, by decide, trivial⟩
  exact h [.start 0 { fork := .ok ⟨100, by decide⟩ }] (.onExit 2000000000 (.exited 1)) []
    (.update 4000000000 { fork := .ok ⟨101, by decide⟩ }) [] rfl (by decide) (by decide) trivial
    rfl (by decide)

/-- Forks that fail at 0 s, 2 s and 4 s: the third attempt comes 2 s after the second failure, which
asks for 4 s. -/
theorem failure_in_backoff_keeps_the_clock : ∃ (config : ProgramConfig) (created now : Int)
    (env : Env) (ops : List Op), config.startretries ≤ 30 ∧ (∀ op ∈ ops, op.isTick = true) ∧
      ¬ BackoffSpaced (create config created) (.start now env :: ops) := by
  refine ⟨{ name := "web", command := "web", startretries := 5 }, 0, 0, {},
    [.update 2000000000 {}, .update 4000000000 {}], by decide, by decide, ?_⟩
  intro hspaced
  have hlate := hspaced [.start 0 {}] (.update 2000000000 {}) [] (.update 4000000000 {}) [] rfl
    (by decide) (by decide) trivial rfl (by decide)
  exact absurd hlate (by decide)

/-! ## The retry budget -/

/-- The number of failed attempts a process may make. -/
def retryBudget (config : ProgramConfig) : Int := max 1 config.startretries.toInt

/-- Every spawn of the call succeeds, and an exit finds the process up. -/
def healthy (p : Process) : Op → Bool
  | .start now env => !p.attempts (.start now env) || (spawn p.config env).isOk
  | .update now env => !p.attempts (.update now env) || (spawn p.config env).isOk
  | .onExit _ _ => decide (p.state = .running)
  | .stop _ _ | .kill _ _ => true

section Budget

variable {p : Process} {op : Op} {n : Int}

/-- A process that has made `n` failed attempts, none of them the last one it may make. -/
structure Trying (p : Process) (n : Int) : Prop where
  auto : p.config.autorestart = true
  state : p.state = .stopped ∨ p.state = .starting ∨ p.state = .backoff
  count : p.retryCount.toInt = n
  nonneg : 0 ≤ n
  below : n < retryBudget p.config

/-- Within the budget the count does not wrap. -/
theorem Trying.count_succ (h : Trying p n) : (p.retryCount + 1).toInt = n + 1 := by
  have hmax : p.config.startretries.toInt < 2147483648 := p.config.startretries.toInt_lt
  have hbelow := h.below
  unfold retryBudget at hbelow
  rw [toInt_succ (by rw [h.count]; omega), h.count]

/-- A failure uses up the budget or leaves the process trying. -/
theorem Trying.fail (h : Trying p n) (hf : p.fails op = true) :
    ((p.perform op).1.state = .fatal ∧ n + 1 = retryBudget p.config) ∨
      Trying (p.perform op).1 (n + 1) := by
  have hfailed : Failed p (p.perform op).1 op.now := by
    rcases perform_of_fails hf with hfailed | ⟨hmanual, _⟩
    · exact hfailed
    · rw [h.auto] at hmanual
      cases hmanual
  have hnonneg := h.nonneg
  have hbelow := h.below
  have hstate := hfailed.state
  unfold afterFailure at hstate
  simp only [Int32.le_iff_toInt_le, h.count_succ] at hstate
  split at hstate
  · left
    refine ⟨hstate, ?_⟩
    unfold retryBudget at hbelow ⊢
    omega
  · right
    refine ⟨hfailed.config ▸ h.auto, .inr (.inr hstate), ?_, by omega, ?_⟩
    · rw [hfailed.retryCount]
      exact h.count_succ
    · rw [hfailed.config]
      unfold retryBudget
      omega

theorem Trying.of_same {q : Process} (h : Trying p n) (hconfig : q.config = p.config)
    (hcount : q.retryCount = p.retryCount)
    (hstate : q.state = .stopped ∨ q.state = .starting ∨ q.state = .backoff) : Trying q n :=
  ⟨hconfig ▸ h.auto, hstate, hcount ▸ h.count, h.nonneg, hconfig ▸ h.below⟩

/-- A spawn that succeeds leaves the count as it is. -/
theorem Trying.forked {env : Env} (h : Trying p n) (now : Int)
    (hup : p.state ≠ .running ∧ p.state ≠ .starting) (hok : (spawn p.config env).isOk = true) :
    Trying (p.start now env).process n := by
  obtain ⟨hstate, hcount, hconfig⟩ := start_forked now hup hok
  exact h.of_same hconfig hcount (.inr (.inl hstate))

/-- No child is left to exit in the other two states: a stray exit leads to `backoff` uncounted. -/
theorem Trying.stray_exit (h : Trying p n) (now : Int) (status : WaitStatus)
    (hne : p.state ≠ .starting) : Trying (p.onExit now status) n := by
  have hstop : p.state ≠ .stopping ∧ p.state ≠ .fatal := by
    rcases h.state with hst | hst | hst <;> simp [hst]
  have hq : p.onExit now status =
      { p with exitstatus := exitCode status, pid := -1 }.setState .backoff now := by
    have hauto : (p.config.autorestart && decide (p.state ≠ .fatal)) = true := by
      simp [h.auto, hstop.2]
    simp only [onExit, shouldAutorestart, hauto, hne, hstop.1, if_false, if_true]
  rw [hq]
  exact h.of_same (by simp) (by simp) (.inr (.inr (by simp)))

/-- A call that fails no attempt ends in `running` or leaves the count as it is. -/
theorem Trying.keep (h : Trying p n) (hop : op.isStart = true ∨ op.isTick = true)
    (hf : p.fails op = false) :
    (p.perform op).1.state = .running ∨ Trying (p.perform op).1 n := by
  cases op with
  | start now env =>
      right
      show Trying (p.start now env).process n
      cases hat : p.attempts (.start now env) with
      | true =>
          have hok : (spawn p.config env).isOk = true := by simpa [fails, hat] using hf
          exact h.forked now (of_decide_eq_true hat) hok
      | false =>
          rw [start_of_not_attempts hat]
          exact h
  | update now env =>
      show (p.update now env).process.state = .running ∨ Trying (p.update now env).process n
      rcases h.state with hst | hst | hst
      · right
        have hq : (p.update now env).process = p := by simp [update, hst]
        rw [hq]
        exact h
      · simp only [update, hst]
        split
        · exact .inl (by simp)
        · exact .inr h
      · right
        cases hat : p.attempts (.update now env) with
        | true =>
            have hok : (spawn p.config env).isOk = true := by simpa [fails, hat] using hf
            obtain ⟨hq, hup⟩ := update_of_attempts hat
            rw [hq]
            exact h.forked now hup hok
        | false =>
            rw [update_of_not_attempts hst hat]
            exact h
  | onExit now status => exact .inr (h.stray_exit now status (of_decide_eq_false hf))
  | stop now env => simp [Op.isStart, Op.isTick] at hop
  | kill now env => simp [Op.isStart, Op.isTick] at hop

/-- A run that never gets to `running` has given up exactly when its failures fill the budget. -/
theorem Trying.fatal_mem_iff (h : Trying p n) (ops : List Op)
    (hops : ∀ op ∈ ops, op.isStart = true ∨ op.isTick = true) (hrun : .running ∉ p.states ops) :
    .fatal ∈ p.states ops ↔ retryBudget p.config ≤ n + p.failures ops := by
  induction ops generalizing p n with
  | nil =>
      have hbelow := h.below
      have hne : .fatal ≠ p.state := by
        rcases h.state with hst | hst | hst <;> simp [hst]
      simp only [states, List.mem_singleton, hne, failures, false_iff]
      omega
  | cons op ops ih =>
      obtain ⟨hop, hops⟩ := List.forall_mem_cons.mp hops
      obtain ⟨-, hrun⟩ := List.ne_and_not_mem_of_not_mem_cons hrun
      have hne : .fatal ≠ p.state := by
        rcases h.state with hst | hst | hst <;> simp [hst]
      have hhead : ∀ st, (p.perform op).1.state = st → st ∈ (p.perform op).1.states ops := by
        rintro st rfl
        cases ops <;> simp [states]
      have hcfg : (p.perform op).1.config = p.config := perform_config p op
      simp only [states, List.mem_cons, hne, false_or, failures]
      cases hf : p.fails op with
      | true =>
          simp only [if_true]
          rcases h.fail hf with ⟨hfatal, hlast⟩ | hnext
          · have hmem := hhead _ hfatal
            simp only [hmem, true_iff]
            omega
          · rw [ih hnext hops hrun, hcfg]
            omega
      | false =>
          simp only [Bool.false_eq_true, if_false]
          rcases h.keep hop hf with hup | hnext
          · exact absurd (hhead _ hup) hrun
          · rw [ih hnext hops hrun, hcfg]
            omega

/-- Only a failed attempt leads to `fatal`. -/
theorem not_fatal_of_healthy (hst : p.state ≠ .fatal) (hh : p.healthy op = true) :
    (p.perform op).1.state ≠ .fatal := by
  cases op with
  | start now env =>
      show (p.start now env).process.state ≠ .fatal
      cases hat : p.attempts (.start now env) with
      | true =>
          have hok : (spawn p.config env).isOk = true := by simpa [healthy, hat] using hh
          simp [(start_forked now (of_decide_eq_true hat) hok).1]
      | false =>
          rw [start_of_not_attempts hat]
          exact hst
  | update now env =>
      show (p.update now env).process.state ≠ .fatal
      rcases update_cases p now env with hout | ⟨_, _, _, _, hrun⟩ | ⟨_, _, hout⟩ |
          ⟨hb, hdue, hproc, _⟩
      · rw [hout]
        exact hst
      · simp [hrun]
      · rw [hout]
        exact hst
      · have hok : (spawn p.config env).isOk = true := by simpa [healthy, attempts, hb, hdue] using hh
        rw [hproc, (start_forked now (by simp [hb]) hok).1]
        exact State.noConfusion
  | onExit now status =>
      have hrun : p.state = .running := of_decide_eq_true hh
      show (p.onExit now status).state ≠ .fatal
      simp only [onExit, hrun, reduceCtorEq, if_false]
      split <;> simp
  | stop now env =>
      show (p.stop now env).process.state ≠ .fatal
      rcases stop_cases p now env with ⟨_, hout⟩ | ⟨_, _, _, _, _, _, hstop, _⟩
      · rw [hout]
        exact hst
      · simp [hstop]
  | kill now env =>
      show (p.kill now env).process.state ≠ .fatal
      unfold kill
      split
      · exact hst
      · simp

/-- Without the last failed attempt there is no `FATAL`. -/
theorem fatal_not_mem_of_healthy {ops : List Op} (hst : p.state ≠ .fatal)
    (h : Along (fun p op => p.healthy op = true) p ops) : .fatal ∉ p.states ops := by
  induction ops generalizing p with
  | nil => simpa [states] using hst.symm
  | cons op ops ih =>
      intro hmem
      rcases List.mem_cons.mp hmem with hmem | hmem
      · exact hst hmem.symm
      · exact ih (not_fatal_of_healthy hst h.1) h.2 hmem

end Budget

/-- **The retry budget.**  In every run from a stopped process with no failures counted that begins
with `start` and goes on with updates and exits: if the process never gets to `running`, it enters
`fatal` with the failed attempt that is the `max(1, startretries)`-th, and with no other call; and if
every spawn succeeds and every exit finds the process running, it never enters `fatal`. -/
theorem fatal_at_retry_budget {p : Process} (hst : p.state = .stopped) (hcount : p.retryCount = 0)
    (hauto : p.config.autorestart = true) (now : Int) (env : Env) (ops : List Op)
    (hops : ∀ op ∈ ops, op.isTick = true) :
    (.running ∉ p.states (.start now env :: ops) →
      ∀ pre op post, .start now env :: ops = pre ++ op :: post →
        ((.fatal ∉ p.states pre ∧ (p.performAll (pre ++ [op])).1.state = .fatal) ↔
          ((p.performAll pre).1.fails op = true ∧
            (p.failures (pre ++ [op]) : Int) = retryBudget p.config))) ∧
    (Along (fun p op => p.healthy op = true) p (.start now env :: ops) →
      .fatal ∉ p.states (.start now env :: ops)) := by
  constructor
  · intro hrun pre op post hsplit
    have htry : Trying p 0 := by
      refine ⟨hauto, .inl hst, by simp [hcount], by omega, ?_⟩
      unfold retryBudget
      omega
    have hall : ∀ o ∈ pre ++ op :: post, o.isStart = true ∨ o.isTick = true := by
      rw [← hsplit]
      exact List.forall_mem_cons.mpr ⟨.inl rfl, fun o ho => .inr (hops o ho)⟩
    have hsplit' : pre ++ op :: post = (pre ++ [op]) ++ post := by simp
    rw [hsplit] at hrun
    have hpre := htry.fatal_mem_iff pre
      (fun o ho => hall o (List.mem_append_left _ ho)) (fun h => hrun (mem_states_of_append h))
    have hnext := htry.fatal_mem_iff (pre ++ [op])
      (fun o ho => hall o (hsplit' ▸ List.mem_append_left _ ho))
      (fun h => hrun (hsplit' ▸ mem_states_of_append h))
    rw [states_concat, List.mem_append, List.mem_singleton] at hnext
    rw [failures_concat] at hnext ⊢
    by_cases hf : (p.performAll pre).1.fails op = true
    · simp only [hf, if_true, true_and] at hnext ⊢
      constructor
      · rintro ⟨hnot, hfatal⟩
        have hlow : ¬ retryBudget p.config ≤ 0 + p.failures pre := fun h => hnot (hpre.mpr h)
        have hhigh := hnext.mp (.inr hfatal.symm)
        omega
      · intro heq
        have hnot : .fatal ∉ p.states pre := fun h => by
          have hlow := hpre.mp h
          omega
        refine ⟨hnot, ?_⟩
        rcases hnext.mpr (by omega) with h | h
        · exact absurd h hnot
        · exact h.symm
    · simp only [hf, if_false, false_and, iff_false, Bool.false_eq_true] at hnext ⊢
      rintro ⟨hnot, hfatal⟩
      have hhigh := hnext.mp (.inr hfatal.symm)
      exact hnot (hpre.mpr (by omega))
  · intro hhealthy
    exact fatal_not_mem_of_healthy (by simp [hst]) hhealthy

/-- With `startretries=2` the second failed fork is the last one. -/
theorem fatal_at_retry_budget_two :
    (((create { name := "web", command := "web", startretries := 2 } 0).performAll
      [.start 0 {}, .update 2000000000 {}]).1.state = .fatal) := by
  have hbudget := (fatal_at_retry_budget
    (p := create { name := "web", command := "web", startretries := 2 } 0) rfl rfl rfl 0 {}
    [.update 2000000000 {}] (by decide)).1 (by decide) [.start 0 {}] (.update 2000000000 {}) [] rfl
  exact (hbudget.mpr ⟨by decide, by decide⟩).2

/-! ## Without `autorestart` -/

/-- The successful spawns among these system calls. -/
def forks (calls : List Call) : Nat :=
  calls.countP fun c => match c with
    | .fork _ => true
    | .kill _ _ | .waitpid _ _ => false

section NoRestart

variable {p : Process} {op : Op}

/-- The one spawn a process in `backoff` may still make on its own. -/
def owed (p : Process) : Nat := if p.state = .backoff then 1 else 0

/-- A start forks at most once, and owes no restart then. -/
theorem start_forks (p : Process) (now : Int) (env : Env) :
    forks (p.start now env).calls + (p.start now env).process.owed ≤ 1 + p.owed := by
  rcases start_cases p now env with ⟨_, hout⟩ | ⟨_, hcalls, _, _, _, hst⟩ |
      ⟨_, pid, _, hcalls, _, _, _, hst⟩
  · simp only [hout, forks, List.countP_nil]
    omega
  · simp only [hcalls, forks, List.countP_nil, owed]
    split_ifs <;> omega
  · simp [hcalls, forks, owed, hst]

/-- An update spends what `backoff` owes and owes nothing new. -/
theorem update_forks (p : Process) (now : Int) (env : Env) :
    forks (p.update now env).calls + (p.update now env).process.owed ≤ p.owed := by
  rcases update_cases p now env with hout | ⟨_, hcalls, _, _, hrun⟩ | ⟨_, _, hout⟩ |
      ⟨hb, _, hproc, hcalls⟩
  · simp [hout, forks]
  · simp [hcalls, forks, owed, hrun]
  · simp [hout, forks]
  · rw [hproc, hcalls]
    rcases start_cases p now env with ⟨hup, _⟩ | ⟨_, hnone, _, _, _, hst⟩ |
        ⟨_, pid, _, hone, _, _, _, hst⟩
    · simp [hb] at hup
    · simp only [hnone, forks, List.countP_nil, owed, hb, if_true]
      split_ifs <;> omega
    · simp [hone, forks, owed, hst, hb]

/-- Without `autorestart` no exit leads to `backoff`. -/
theorem onExit_owed (hauto : p.config.autorestart = false) (now : Int) (status : WaitStatus) :
    (p.onExit now status).owed = 0 := by
  have hno : p.shouldAutorestart = false := by simp [shouldAutorestart, hauto]
  rcases onExit_state p now status with ⟨_, hst⟩ | ⟨_, hyes, _⟩ | ⟨_, _, hst⟩
  · simp [owed, hst]
  · rw [hno] at hyes
    cases hyes
  · simp [owed, hst]

/-- Without autorestart, a call forks for an explicit start or for a retry that is owed. -/
theorem perform_forks (hauto : p.config.autorestart = false) (op : Op) :
    forks (p.perform op).2 + (p.perform op).1.owed ≤
      (if op.isStart then 1 else 0) + p.owed := by
  cases op with
  | start now env => exact start_forks p now env
  | update now env =>
      have h := update_forks p now env
      simpa [perform, Op.isStart] using h
  | onExit now status => simp [perform, forks, onExit_owed hauto]
  | stop now env =>
      rcases stop_cases p now env with ⟨_, hout⟩ | ⟨_, _, _, hcalls, _, _, hst, _⟩
      · simp [perform, hout, forks]
      · simp [perform, hcalls, forks, owed, hst]
  | kill now env =>
      show forks (p.kill now env).calls + (p.kill now env).process.owed ≤ 0 + p.owed
      unfold kill
      split
      · simp [forks]
      · simp [forks, owed]

/-- In a run, forks and retries still owed are at most the explicit starts. -/
theorem performAll_forks (hauto : p.config.autorestart = false) (ops : List Op) :
    forks (p.performAll ops).2 + (p.performAll ops).1.owed ≤ ops.countP Op.isStart + p.owed := by
  induction ops generalizing p with
  | nil => simp [performAll, forks]
  | cons op ops ih =>
      have hone := perform_forks hauto op
      have hrest := ih (p := (p.perform op).1) (by rw [perform_config]; exact hauto)
      have hsum : forks (p.performAll (op :: ops)).2 =
          forks (p.perform op).2 + forks ((p.perform op).1.performAll ops).2 :=
        List.countP_append
      show forks (p.performAll (op :: ops)).2 + ((p.perform op).1.performAll ops).1.owed ≤ _
      rw [hsum, List.countP_cons]
      omega

end NoRestart

/-- **No restart without `autorestart`.**  In every run of a program with `autorestart=false` there
are at most as many successful spawns as explicit calls of `start`. -/
theorem spawns_le_explicit_starts (config : ProgramConfig) (hauto : config.autorestart = false)
    (created : Int) (ops : List Op) :
    forks ((create config created).performAll ops).2 ≤ ops.countP Op.isStart := by
  have h := performAll_forks (p := create config created) hauto ops
  have howed : (create config created).owed = 0 := rfl
  omega

/-- A fork that fails is tried again, and the exit of the child that follows ends the program. -/
theorem spawns_le_explicit_starts_once :
    forks ((create { name := "job", command := "job", autorestart := false } 0).performAll
      [.start 0 {}, .update 2000000000 { fork := .ok ⟨100, by decide⟩ },
        .onExit 9000000000 (.exited 1), .update 99000000000 { fork := .ok ⟨101, by decide⟩ }]).2 = 1 ∧
    1 ≤ [Op.start 0 {}, .update 2000000000 { fork := .ok ⟨100, by decide⟩ },
        .onExit 9000000000 (.exited 1),
        .update 99000000000 { fork := .ok ⟨101, by decide⟩ }].countP Op.isStart := by
  have h := spawns_le_explicit_starts
    { name := "job", command := "job", autorestart := false } rfl 0
    [.start 0 {}, .update 2000000000 { fork := .ok ⟨100, by decide⟩ },
      .onExit 9000000000 (.exited 1), .update 99000000000 { fork := .ok ⟨101, by decide⟩ }]
  have hone : forks ((create { name := "job", command := "job", autorestart := false } 0).performAll
      [.start 0 {}, .update 2000000000 { fork := .ok ⟨100, by decide⟩ },
        .onExit 9000000000 (.exited 1),
        .update 99000000000 { fork := .ok ⟨101, by decide⟩ }]).2 = 1 := by decide
  exact ⟨hone, hone ▸ h⟩

end Process

end Supervisorcpp
