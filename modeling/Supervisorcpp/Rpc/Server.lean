/-
# The socket of the RPC server

`RpcServer::start` and `stop` of every daemon that is given one socket path, over a file system in
which the path leads to a socket inode and a connection needs a process that listens on that inode.
Each system call is one step, so any number of daemons, of clients that connect and of other users
who meddle in the directory interleave freely; what a call returns beyond what the state decides is
part of the input.

An inode number is never used twice, and clients use the path. Who may change the directory is up to
its owner and mode: root and its owner may, its group or everybody else where the mode says so.
`validate_socket_directory` looks at the last of these permissions only, so the guarantees are about
strangers: users whom owner, group and root do not cover. The messages on an accepted connection are in
`Rpc.Connection`.
-/
import Supervisorcpp.Lib.Machine
import Supervisorcpp.Util.Secure

namespace Supervisorcpp

namespace RpcServer

open Bytes (ascii)

/-- The number of a socket file; never used twice. -/
abbrev Inode := Nat

/-- The number of a daemon. -/
abbrev Daemon := Nat

/-! ## Data -/

/-- `S_IWOTH` of a mode. -/
def othersWrite (mode : Nat) : Bool := mode.testBit 1

/-- What `stat` says of the directory of the socket: its owner and its mode. -/
inductive SocketDir where
  | missing
  | notDirectory
  | directory (owner mode : Nat)
  deriving DecidableEq, Repr

/-- A user, and whether he is in the group of the directory. -/
structure User where
  uid : Nat
  inGroup : Bool

/-- The directory lets everybody change it. -/
def SocketDir.isOpen : SocketDir → Bool
  | .directory _ mode => othersWrite mode
  | _ => false

/-- This user may change the directory. Its owner can give himself the permission. -/
def SocketDir.changeable (dir : SocketDir) (who : User) : Bool :=
  match dir with
  | .directory owner mode =>
    who.uid = 0 || who.uid = owner || (if who.inGroup then mode.testBit 4 else othersWrite mode)
  | _ => false

/-- Root, the owner of the directory, and its group where the mode lets the group write. -/
def SocketDir.trusts (dir : SocketDir) (who : User) : Bool :=
  match dir with
  | .directory owner mode => who.uid = 0 || who.uid = owner || (who.inGroup && mode.testBit 4)
  | _ => false

/-- A stranger may do what everybody may. -/
theorem SocketDir.isOpen_of_changeable {dir : SocketDir} {who : User} (htrust : dir.trusts who = false)
    (hmay : dir.changeable who = true) : dir.isOpen = true := by
  cases dir with
  | directory owner mode =>
      simp only [trusts, changeable, isOpen] at htrust hmay ⊢
      cases hgroup : who.inGroup <;> simp_all
  | missing => cases hmay
  | notDirectory => cases hmay

/-- What stays the same: the users and umasks the daemons run with, and the directory of their socket. -/
structure Host where
  uid : Daemon → Nat
  umask : Daemon → Nat
  dirPath : Bytes
  dir : SocketDir

/-- Where a daemon is in `start` or `stop`; `i` is the inode its acceptor is bound to. -/
inductive Phase where
  | idle
  /-- The directory has been validated. -/
  | checked
  /-- The path exists: `probe` is about to connect. -/
  | probing
  /-- Nobody answers there. -/
  | clear
  | unlinked
  | bound (i : Inode)
  /-- The permissions are set. -/
  | secured (i : Inode)
  | listening (i : Inode)
  /-- `stop` has closed the acceptor and is about to unlink. -/
  | closed
  /-- Stopped, or `start` threw, or the process is dead. -/
  | over
  deriving DecidableEq, Repr

/-- The inode of the acceptor. -/
def Phase.acceptor : Phase → Option Inode
  | .bound i | .secured i | .listening i => some i
  | _ => none

/-- Whoever may listen on a socket. -/
inductive Party where
  | daemon (d : Daemon)
  | stranger
  deriving DecidableEq, Repr

/-- A process that connects: its user, and whether it is in the group of an inode. -/
structure Client where
  uid : Nat
  inGroup : Inode → Bool

/-- The path and its sockets, as the kernel has them, and how far each daemon is. -/
structure State where
  /-- the socket the path leads to -/
  path : Option Inode := none
  nextInode : Inode := 0
  owner : Inode → Nat := fun _ => 0
  mode : Inode → Nat := fun _ => 0
  /-- who listens on an inode -/
  listener : Inode → Option Party := fun _ => none
  phase : Daemon → Phase := fun _ => .idle
  /-- the connections that reached a daemon, with the user at the other end -/
  connections : List (Daemon × Nat) := []

/-- No daemon has started and nobody listens; the path may lead to what a crash left. -/
structure Initial (s : State) : Prop where
  idle : ∀ d, s.phase d = .idle
  silent : ∀ i, s.listener i = none
  pathLt : ∀ i, s.path = some i → i < s.nextInode
  none : s.connections = []

/-! ## The system calls -/

/-- `validate_socket_directory`. -/
def validateSocketDirectory (dirPath : Bytes) : SocketDir → Except Exception Unit
  | .missing => .error (.securityError (ascii "Socket directory does not exist: " ++ dirPath))
  | .notDirectory =>
    .error (.securityError (ascii "Socket path parent is not a directory: " ++ dirPath))
  | .directory _ mode =>
    if othersWrite mode then
      .error (.securityError (ascii "Socket directory must not be world-writable: " ++ dirPath))
    else .ok ()

/-- Write permission on a socket, which `connect` needs. -/
def State.mayWrite (s : State) (c : Client) (i : Inode) : Bool :=
  if c.uid = 0 then true
  else if c.uid = s.owner i then (s.mode i).testBit 7
  else if c.inGroup i then (s.mode i).testBit 4
  else othersWrite (s.mode i)

/-- Whom a client reaches that connects to the path. -/
def State.reaches (s : State) (c : Client) : Option Party :=
  s.path.bind fun i => if s.mayWrite c i then s.listener i else none

/-- The calls of `start` and `stop`, `ok := false` where the kernel refuses for a reason of its own. -/
inductive Call where
  | checkDir
  | exists_
  /-- `probe.connect`; which groups the daemon is in, and whether the call can be made at all -/
  | probe (inGroup : Inode → Bool) (ok : Bool)
  | unlink (ok : Bool)
  | bind (ok : Bool)
  | chmod (ok : Bool)
  | listen (ok : Bool)
  | close
  | remove (ok : Bool)
  /-- the process is killed -/
  | die

/-- One system call: of a daemon, of a client, or of somebody else in the directory. -/
inductive Input where
  | call (d : Daemon) (c : Call)
  | connect (c : Client)
  /-- somebody makes a socket at the path and listens on it -/
  | plant (who : User) (mode : Nat)
  /-- somebody removes what is at the path, or has the path lead to a socket he has kept a name of -/
  | meddle (who : User) (target : Option Inode)

/-- The daemon goes on to this point of its program. -/
def State.goto (s : State) (d : Daemon) (ph : Phase) : State :=
  { s with phase := Function.update s.phase d ph }

/-- `acceptor_.bind`: a new inode, with the permissions the umask leaves. -/
def State.bind (h : Host) (s : State) (d : Daemon) : State :=
  { s with
    path := some s.nextInode
    nextInode := s.nextInode + 1
    owner := Function.update s.owner s.nextInode (h.uid d)
    mode := Function.update s.mode s.nextInode (0o777 &&& (h.umask d ^^^ 0o777))
    listener := Function.update s.listener s.nextInode none }.goto d (.bound s.nextInode)

/-- The process no longer listens on the inode of its acceptor. -/
def State.hangUp (s : State) (d : Daemon) (next : Phase) : State :=
  { s with
    listener := fun i => if s.listener i = some (Party.daemon d) then none else s.listener i }.goto d next

/-- The mode `set_socket_permissions` sets. -/
def ownerOnly : Nat := 0o600

/-- The next call of daemon `d`; `none` when it is not at that call. -/
def callStep (h : Host) (s : State) (d : Daemon) : Call → Option State
  | .checkDir =>
    match s.phase d, validateSocketDirectory h.dirPath h.dir with
    | .idle, .ok _ => some (s.goto d .checked)
    | .idle, .error _ => some (s.goto d .over)
    | _, _ => none
  | .exists_ =>
    if s.phase d = .checked then some (s.goto d (if s.path.isSome then .probing else .clear)) else none
  | .probe inGroup ok =>
    -- whatever the error is, the socket counts as stale
    if s.phase d = .probing then
      some (s.goto d (if ok && (s.reaches ⟨h.uid d, inGroup⟩).isSome then .over else .clear))
    else none
  | .unlink ok =>
    if s.phase d = .clear then some ({ s with path := if ok then none else s.path }.goto d .unlinked)
    else none
  | .bind ok =>
    if s.phase d = .unlinked then
      some (if s.path.isNone && ok then s.bind h d else s.goto d .over)
    else none
  | .chmod ok =>
    match s.phase d, s.path, ok with
    | .bound i, some k, true =>
      some ({ s with mode := Function.update s.mode k ownerOnly }.goto d (.secured i))
    | .bound _, _, _ => some (s.goto d .over)
    | _, _, _ => none
  | .listen ok =>
    match s.phase d with
    | .secured i =>
      if ok then
        some ({ s with listener := Function.update s.listener i (some (.daemon d)) }.goto d
          (.listening i))
      else some (s.goto d .over)
    | _ => none
  | .close =>
    match s.phase d with
    | .listening _ => some (s.hangUp d .closed)
    | _ => none
  | .remove ok =>
    if s.phase d = .closed then some ({ s with path := if ok then none else s.path }.goto d .over)
    else none
  | .die => some (s.hangUp d .over)

/-- What one system call does; `none` when it is not one of the next calls, or is not permitted. -/
def step (h : Host) (s : State) : Input → Option State
  | .call d c => callStep h s d c
  | .connect c =>
    some (match s.reaches c with
      | some (.daemon d) => { s with connections := s.connections ++ [(d, c.uid)] }
      | _ => s)
  | .plant who mode =>
    if h.dir.changeable who && s.path.isNone then
      some { s with
        path := some s.nextInode
        nextInode := s.nextInode + 1
        owner := Function.update s.owner s.nextInode who.uid
        mode := Function.update s.mode s.nextInode mode
        listener := Function.update s.listener s.nextInode (some .stranger) }
    else none
  | .meddle who target =>
    if h.dir.changeable who && target.all (· < s.nextInode) then some { s with path := target }
    else none

/-- Those who meddle are strangers. -/
def Input.byStranger (h : Host) : Input → Bool
  | .plant who _ | .meddle who _ => !h.dir.trusts who
  | _ => true

/-! ## The invariant -/

/-- The permissions of the inode have been set. -/
def Phase.isPrivate : Phase → Option Inode
  | .secured i | .listening i => some i
  | _ => none

/-- `start` has passed the check of the directory, or will not go on. -/
def Phase.vetted : Phase → Bool
  | .idle | .over => false
  | _ => true

/-- What the phase `ph` of daemon `d` relies on. -/
structure PhaseSound (h : Host) (s : State) (d : Daemon) (ph : Phase) : Prop where
  acceptor : ∀ i, ph.acceptor = some i → i < s.nextInode ∧ s.owner i = h.uid d
  alone : ∀ i, ph.acceptor = some i → ∀ e, (s.phase e).acceptor = some i → e = d
  isPrivate : ∀ i, ph.isPrivate = some i → s.path = some i → s.mode i = ownerOnly
  vetted : ph.vetted = true → h.dir.isOpen = false

/-- What holds whatever is interleaved: inodes are new, listeners are those the daemons have, and
only a directory that is open to others has a listener of a stranger. -/
structure Sound (h : Host) (s : State) : Prop where
  pathLt : ∀ i, s.path = some i → i < s.nextInode
  phases : ∀ d, PhaseSound h s d (s.phase d)
  listenerLt : ∀ i p, s.listener i = some p → i < s.nextInode
  daemons : ∀ i d, s.listener i = some (.daemon d) → s.phase d = .listening i
  strangers : ∀ i, s.listener i = some .stranger → h.dir.isOpen = true
  connections : ∀ x ∈ s.connections, x.2 = 0 ∨ x.2 = h.uid x.1

variable {h : Host} {s s' t : State} {d e : Daemon} {i : Inode} {c : Client}

/-- A daemon without an acceptor relies on nothing but the check of the directory. -/
theorem PhaseSound.of_none {ph : Phase} (hacc : ph.acceptor = none) (hpriv : ph.isPrivate = none)
    (hvetted : ph.vetted = true → h.dir.isOpen = false) : PhaseSound h s d ph where
  acceptor := fun i hi => by rw [hacc] at hi; cases hi
  alone := fun i hi => by rw [hacc] at hi; cases hi
  isPrivate := fun i hi => by rw [hpriv] at hi; cases hi
  vetted := hvetted

theorem Phase.acceptor_of_isPrivate {ph : Phase} (hpriv : ph.isPrivate = some i) :
    ph.acceptor = some i := by
  cases ph <;> simp_all [Phase.isPrivate, Phase.acceptor]

theorem phase_goto (s : State) (d : Daemon) (ph : Phase) (e : Daemon) :
    (s.goto d ph).phase e = if e = d then ph else s.phase e :=
  Function.update_apply ..

/-- One daemon moves on and leaves the sockets alone. -/
theorem Sound.move {p : Phase} (hs : Sound h s) (hself : PhaseSound h s d p)
    (hlistens : ∀ i, s.listener i = some (.daemon d) → p = .listening i) :
    Sound h (s.goto d p) := by
  refine ⟨hs.pathLt, fun e => ?_, hs.listenerLt, fun i e he => ?_, hs.strangers, hs.connections⟩
  · rw [phase_goto]
    split
    · next heq =>
        subst heq
        refine ⟨hself.acceptor, fun i hi f hf => ?_, hself.isPrivate, hself.vetted⟩
        rw [phase_goto] at hf
        split at hf
        · assumption
        · exact hself.alone i hi f hf
    · next hne =>
        have he := hs.phases e
        refine ⟨he.acceptor, fun i hi f hf => ?_, he.isPrivate, he.vetted⟩
        rw [phase_goto] at hf
        split at hf
        · exact absurd (hself.alone i hf e hi) hne
        · exact he.alone i hi f hf
  · rw [phase_goto]
    split
    · next heq =>
        subst heq
        exact hlistens i he
    · exact hs.daemons i e he

/-- A daemon that is not listening does not appear as a listener. -/
theorem Sound.not_listener (hs : Sound h s) (hph : ∀ i, s.phase d ≠ .listening i) :
    ∀ i, s.listener i ≠ some (.daemon d) := fun i hi => hph i (hs.daemons i d hi)

/-- The path is removed. -/
theorem Sound.unlink (hs : Sound h s) (ok : Bool) :
    Sound h { s with path := if ok then none else s.path } := by
  have hpath : ∀ i, (if ok then none else s.path) = some i → s.path = some i := by
    intro i hi
    cases ok with
    | true => cases hi
    | false => exact hi
  exact ⟨fun i hi => hs.pathLt i (hpath i hi),
    fun e => ⟨(hs.phases e).acceptor, (hs.phases e).alone,
      fun i hi hp => (hs.phases e).isPrivate i hi (hpath i hp), (hs.phases e).vetted⟩,
    hs.listenerLt, hs.daemons, hs.strangers, hs.connections⟩

/-- Where everybody may change the directory, no daemon gets past the check of it. -/
theorem Sound.no_acceptor (hs : Sound h s) (hopen : h.dir.isOpen = true) (d : Daemon) :
    (s.phase d).acceptor = none := by
  have hvetted := (hs.phases d).vetted
  cases hph : s.phase d <;> simp_all [Phase.vetted, Phase.acceptor]

/-- The path is made to lead elsewhere while no daemon is past the check. -/
theorem Sound.relink (hs : Sound h s) (hopen : h.dir.isOpen = true) {target : Option Inode}
    (hlt : ∀ i, target = some i → i < s.nextInode) : Sound h { s with path := target } := by
  refine ⟨hlt, fun e => ⟨(hs.phases e).acceptor, (hs.phases e).alone, fun i hi _ => ?_,
    (hs.phases e).vetted⟩, hs.listenerLt, hs.daemons, hs.strangers, hs.connections⟩
  have hacc := Phase.acceptor_of_isPrivate hi
  rw [hs.no_acceptor hopen e] at hacc
  cases hacc

/-- The permissions at the path are set. -/
theorem Sound.chmod (hs : Sound h s) (k : Inode) :
    Sound h { s with mode := Function.update s.mode k ownerOnly } := by
  refine ⟨hs.pathLt, fun e => ⟨(hs.phases e).acceptor, (hs.phases e).alone, fun i hi hp => ?_,
    (hs.phases e).vetted⟩, hs.listenerLt, hs.daemons, hs.strangers, hs.connections⟩
  show Function.update s.mode k ownerOnly i = ownerOnly
  by_cases hik : i = k
  · rw [hik, Function.update_self]
  · rw [Function.update_of_ne hik]
    exact (hs.phases e).isPrivate i hi hp

/-- A new socket at the path, on which nobody but a stranger listens yet. -/
theorem Sound.newSocket (hs : Sound h s) (uid mode : Nat) (listener : Option Party)
    (hparty : ∀ d, listener ≠ some (.daemon d))
    (hopen : listener = some .stranger → h.dir.isOpen = true) :
    Sound h { s with
      path := some s.nextInode
      nextInode := s.nextInode + 1
      owner := Function.update s.owner s.nextInode uid
      mode := Function.update s.mode s.nextInode mode
      listener := Function.update s.listener s.nextInode listener } := by
  have hlisten : ∀ i p, Function.update s.listener s.nextInode listener i = some p →
      i = s.nextInode ∧ listener = some p ∨ i < s.nextInode ∧ s.listener i = some p := by
    intro i p hp
    by_cases hi : i = s.nextInode
    · rw [hi, Function.update_self] at hp
      exact .inl ⟨hi, hp⟩
    · rw [Function.update_of_ne hi] at hp
      exact .inr ⟨hs.listenerLt i p hp, hp⟩
  refine ⟨?_, fun e => ⟨fun i hi => ?_, (hs.phases e).alone, fun i hi hp => ?_, (hs.phases e).vetted⟩,
    fun i p hp => ?_, fun i e he => ?_, fun i hi => ?_, hs.connections⟩
  · rintro i hi
    obtain rfl : s.nextInode = i := Option.some.inj hi
    exact Nat.lt_succ_self _
  · obtain ⟨hlt, how⟩ := (hs.phases e).acceptor i hi
    refine ⟨Nat.lt_succ_of_lt hlt, ?_⟩
    show Function.update s.owner s.nextInode uid i = h.uid e
    rw [Function.update_of_ne (Nat.ne_of_lt hlt), how]
  · have hlt := ((hs.phases e).acceptor i (Phase.acceptor_of_isPrivate hi)).1
    obtain rfl : s.nextInode = i := Option.some.inj hp
    exact absurd hlt (Nat.lt_irrefl _)
  · obtain ⟨rfl, -⟩ | ⟨hlt, -⟩ := hlisten i p hp
    · exact Nat.lt_succ_self _
    · exact Nat.lt_succ_of_lt hlt
  · obtain ⟨-, hp⟩ | ⟨-, hp⟩ := hlisten i _ he
    · exact absurd hp (hparty e)
    · exact hs.daemons i e hp
  · obtain ⟨-, hp⟩ | ⟨-, hp⟩ := hlisten i _ hi
    · exact hopen hp
    · exact hs.strangers i hp

/-- A daemon whose permissions are set listens. -/
theorem Sound.listen (hs : Sound h s) (hd : s.phase d = .listening i) :
    Sound h { s with listener := Function.update s.listener i (some (.daemon d)) } := by
  have hlt := ((hs.phases d).acceptor i (by rw [hd]; rfl)).1
  have hlisten : ∀ j p, Function.update s.listener i (some (Party.daemon d)) j = some p →
      j = i ∧ p = .daemon d ∨ s.listener j = some p := by
    intro j p hp
    by_cases hj : j = i
    · rw [hj, Function.update_self] at hp
      exact .inl ⟨hj, (Option.some.inj hp).symm⟩
    · rw [Function.update_of_ne hj] at hp
      exact .inr hp
  refine ⟨hs.pathLt,
    fun e => ⟨(hs.phases e).acceptor, (hs.phases e).alone, (hs.phases e).isPrivate,
      (hs.phases e).vetted⟩,
    fun j p hp => ?_, fun j e he => ?_, fun j hj => ?_, hs.connections⟩
  · obtain ⟨rfl, -⟩ | hp := hlisten j p hp
    · exact hlt
    · exact hs.listenerLt j p hp
  · obtain ⟨rfl, heq⟩ | he := hlisten j _ he
    · rw [Party.daemon.inj heq]
      exact hd
    · exact hs.daemons j e he
  · obtain ⟨-, heq⟩ | hj := hlisten j _ hj
    · cases heq
    · exact hs.strangers j hj

/-- A daemon closes its sockets, or dies. -/
theorem Sound.hangUp (hs : Sound h s) {next : Phase} (hacc : next.acceptor = none)
    (hpriv : next.isPrivate = none) (hvetted : next.vetted = true → h.dir.isOpen = false) :
    Sound h (s.hangUp d next) := by
  have hlisten : ∀ j p, (if s.listener j = some (Party.daemon d) then none else s.listener j) = some p →
      s.listener j = some p ∧ p ≠ .daemon d := by
    intro j p hp
    split at hp
    · cases hp
    · next hne => exact ⟨hp, fun heq => hne (heq ▸ hp)⟩
  refine Sound.move (s := { s with listener := _ })
    ⟨hs.pathLt, fun e => ⟨(hs.phases e).acceptor, (hs.phases e).alone, (hs.phases e).isPrivate,
      (hs.phases e).vetted⟩, fun j p hp => hs.listenerLt j p (hlisten j p hp).1,
      fun j e he => hs.daemons j e (hlisten j _ he).1,
      fun j hj => hs.strangers j (hlisten j _ hj).1, hs.connections⟩
    (.of_none hacc hpriv hvetted) fun j hj => absurd rfl (hlisten j _ hj).2

/-! ## Steps -/

/-- What one call of a daemon can do; the phases without an acceptor need nothing of the sockets. -/
theorem Sound.call (hs : Sound h s) {k : Call} (hstep : callStep h s d k = some s') : Sound h s' := by
  have hvetted : ∀ {ph}, s.phase d = ph → ph.vetted = true → h.dir.isOpen = false := by
    rintro ph rfl hv
    exact (hs.phases d).vetted hv
  have quiet : ∀ {ph next : Phase}, s.phase d = ph → (∀ i, ph ≠ .listening i) →
      next.acceptor = none → next.isPrivate = none → (next.vetted = true → h.dir.isOpen = false) →
      Sound h (s.goto d next) := by
    rintro ph next rfl hph hacc hpriv hv
    exact hs.move (.of_none hacc hpriv hv) fun i hi => absurd hi (hs.not_listener hph i)
  cases k with
  | checkDir =>
      simp only [callStep] at hstep
      split at hstep
      · next hd hdir =>
          obtain rfl := Option.some.inj hstep
          refine quiet hd (by simp) rfl rfl fun _ => ?_
          unfold validateSocketDirectory at hdir
          split at hdir
          · cases hdir
          · cases hdir
          · next mode heq =>
              split at hdir
              · cases hdir
              · next hno => simpa [SocketDir.isOpen, heq] using hno
      · next hd hdir =>
          obtain rfl := Option.some.inj hstep
          exact quiet hd (by simp) rfl rfl (by simp [Phase.vetted])
      · cases hstep
  | exists_ =>
      simp only [callStep] at hstep
      split at hstep
      · next hd =>
          obtain rfl := Option.some.inj hstep
          split
          · exact quiet hd (by simp) rfl rfl fun _ => hvetted hd rfl
          · exact quiet hd (by simp) rfl rfl fun _ => hvetted hd rfl
      · cases hstep
  | probe inGroup ok =>
      simp only [callStep] at hstep
      split at hstep
      · next hd =>
          obtain rfl := Option.some.inj hstep
          split
          · exact quiet hd (by simp) rfl rfl fun _ => hvetted hd rfl
          · exact quiet hd (by simp) rfl rfl fun _ => hvetted hd rfl
      · cases hstep
  | unlink ok =>
      simp only [callStep] at hstep
      split at hstep
      · next hd =>
          obtain rfl := Option.some.inj hstep
          have hs' := hs.unlink ok
          exact hs'.move (.of_none rfl rfl fun _ => hvetted hd rfl) fun i hi =>
            absurd hi (hs.not_listener (by simp [hd]) i)
      · cases hstep
  | bind ok =>
      simp only [callStep] at hstep
      split at hstep
      · next hd =>
          obtain rfl := Option.some.inj hstep
          split
          · have hs' := hs.newSocket (h.uid d) (0o777 &&& (h.umask d ^^^ 0o777)) none
              (by simp) (by simp)
            refine hs'.move ⟨fun i hi => ?_, fun i hi e he => ?_, by simp [Phase.isPrivate],
              fun _ => hvetted hd rfl⟩ fun i hi => ?_
            · obtain rfl : s.nextInode = i := Option.some.inj hi
              exact ⟨Nat.lt_succ_self _, Function.update_self ..⟩
            · obtain rfl : s.nextInode = i := Option.some.inj hi
              exact absurd ((hs.phases e).acceptor _ he).1 (Nat.lt_irrefl _)
            · have hphase := hs'.daemons i d hi
              rw [hd] at hphase
              cases hphase
          · exact quiet hd (by simp) rfl rfl (by simp [Phase.vetted])
      · cases hstep
  | chmod ok =>
      simp only [callStep] at hstep
      split at hstep
      · next i k hd hpath =>
          obtain rfl := Option.some.inj hstep
          have hs' := hs.chmod k
          have hd' := hs'.phases d
          rw [show _ = Phase.bound i from hd] at hd'
          refine hs'.move ⟨hd'.acceptor, hd'.alone, fun j hj hp => ?_, hd'.vetted⟩ fun j hj =>
            absurd hj (hs.not_listener (by simp [hd]) j)
          obtain rfl : k = j := Option.some.inj (hpath.symm.trans hp)
          exact Function.update_self ..
      · next i hd _ =>
          obtain rfl := Option.some.inj hstep
          exact quiet hd (by simp) rfl rfl (by simp [Phase.vetted])
      · cases hstep
  | listen ok =>
      simp only [callStep] at hstep
      split at hstep
      · next i hd =>
          split at hstep
          · obtain rfl := Option.some.inj hstep
            have hd' := hs.phases d
            rw [hd] at hd'
            have hs' := hs.move (p := .listening i)
              ⟨hd'.acceptor, hd'.alone, hd'.isPrivate, hd'.vetted⟩ fun j hj =>
                absurd hj (hs.not_listener (by simp [hd]) j)
            exact hs'.listen (Function.update_self ..)
          · obtain rfl := Option.some.inj hstep
            exact quiet hd (by simp) rfl rfl (by simp [Phase.vetted])
      · cases hstep
  | close =>
      simp only [callStep] at hstep
      split at hstep
      · next i hd =>
          obtain rfl := Option.some.inj hstep
          exact hs.hangUp rfl rfl fun _ => hvetted hd rfl
      · cases hstep
  | remove ok =>
      simp only [callStep] at hstep
      split at hstep
      · next hd =>
          obtain rfl := Option.some.inj hstep
          have hs' := hs.unlink ok
          exact hs'.move (.of_none rfl rfl (by simp [Phase.vetted])) fun i hi =>
            absurd hi (hs.not_listener (by simp [hd]) i)
      · cases hstep
  | die =>
      obtain rfl := Option.some.inj hstep
      exact hs.hangUp rfl rfl (by simp [Phase.vetted])

/-- Who reaches a daemon may: the permissions are set before it listens. -/
theorem Sound.reached (hs : Sound h s) (hreach : s.reaches c = some (.daemon d)) :
    c.uid = 0 ∨ c.uid = h.uid d := by
  obtain ⟨i, hpath, hwrite⟩ := Option.bind_eq_some_iff.mp hreach
  split at hwrite
  · next hmay =>
      have hd := hs.daemons i d hwrite
      have hmode := (hs.phases d).isPrivate i (by rw [hd]; rfl) hpath
      have howner := ((hs.phases d).acceptor i (by rw [hd]; rfl)).2
      unfold State.mayWrite at hmay
      rw [hmode, howner] at hmay
      split at hmay
      · next hroot => exact .inl hroot
      · split at hmay
        · next hown => exact .inr hown
        · split at hmay
          · cases hmay
          · cases hmay
  · cases hwrite

/-- Who changes the directory, if anybody does. -/
def Input.meddler : Input → Option User
  | .plant who _ | .meddle who _ => some who
  | _ => none

/-- A stranger changes the directory only where everybody may. -/
theorem isOpen_of_meddler {input : Input} {who : User} (hwho : input.byStranger h = true)
    (hmeddler : input.meddler = some who) (hstep : step h s input = some s') :
    h.dir.isOpen = true := by
  have hmay : h.dir.trusts who = false ∧ h.dir.changeable who = true := by
    cases input with
    | call d k => cases hmeddler
    | connect c => cases hmeddler
    | plant who mode =>
        obtain rfl := Option.some.inj hmeddler
        simp only [RpcServer.step] at hstep
        split at hstep
        · next hmay => exact ⟨by simpa [Input.byStranger] using hwho, (Bool.and_eq_true_iff.mp hmay).1⟩
        · cases hstep
    | meddle who target =>
        obtain rfl := Option.some.inj hmeddler
        simp only [RpcServer.step] at hstep
        split at hstep
        · next hmay => exact ⟨by simpa [Input.byStranger] using hwho, (Bool.and_eq_true_iff.mp hmay).1⟩
        · cases hstep
  exact SocketDir.isOpen_of_changeable hmay.1 hmay.2

/-- Every call, every connection and every stranger keeps the state sound. -/
theorem Sound.step (hs : Sound h s) {input : Input} (hwho : input.byStranger h = true)
    (hstep : step h s input = some s') : Sound h s' := by
  cases input with
  | call d k => exact hs.call hstep
  | connect c =>
      obtain rfl := Option.some.inj hstep
      split
      · next d hreach =>
          refine ⟨hs.pathLt, fun e => ⟨(hs.phases e).acceptor, (hs.phases e).alone,
            (hs.phases e).isPrivate, (hs.phases e).vetted⟩, hs.listenerLt, hs.daemons, hs.strangers,
            fun x hx => ?_⟩
          obtain hx | hx := List.mem_append.mp hx
          · exact hs.connections x hx
          · rw [List.mem_singleton.mp hx]
            exact hs.reached hreach
      · exact hs
  | plant who mode =>
      have hopen := isOpen_of_meddler hwho rfl hstep
      simp only [RpcServer.step] at hstep
      split at hstep
      · obtain rfl := Option.some.inj hstep
        exact hs.newSocket who.uid mode _ (by simp) fun _ => hopen
      · cases hstep
  | meddle who target =>
      have hopen := isOpen_of_meddler hwho rfl hstep
      simp only [RpcServer.step] at hstep
      split at hstep
      · next hmay =>
          obtain rfl := Option.some.inj hstep
          refine hs.relink hopen fun i hi => ?_
          simpa [hi] using (Bool.and_eq_true_iff.mp hmay).2
      · cases hstep

/-- Before any daemon has started it is. -/
theorem Sound.initial (hinit : Initial s) : Sound h s := by
  refine ⟨hinit.pathLt, fun d => ?_, fun i p hp => ?_, fun i d hd => ?_, fun i hi => ?_, ?_⟩
  · rw [hinit.idle d]
    exact .of_none rfl rfl (by simp [Phase.vetted])
  · rw [hinit.silent i] at hp
    cases hp
  · rw [hinit.silent i] at hd
    cases hd
  · rw [hinit.silent i] at hi
    cases hi
  · simp [hinit.none]

/-- The states that daemons, clients and strangers can reach. -/
def Reachable (h : Host) (s : State) : Prop :=
  Machine.Reach (RpcServer.step h) (fun _ input => input.byStranger h = true) Initial s

/-- Every state that can be reached is sound. -/
theorem Sound.reach (hreach : Reachable h s) : Sound h s :=
  hreach.invariant (fun _ hinit => Sound.initial hinit) fun _ _ _ hs hwho hstep => hs.step hwho hstep

/-- **Only the owner is let in.**  Whatever the daemons that share a path do, in any order, whatever
strangers do in the directory as far as its mode lets them, and whenever clients try to connect: a
connection that reaches a daemon comes from root or from the daemon's own user, and while some daemon
is past the check of the directory no stranger answers at the path. -/
theorem only_owner_connects (hreach : Reachable h s) :
    (∀ x ∈ s.connections, x.2 = 0 ∨ x.2 = h.uid x.1) ∧
    ∀ d, (s.phase d).vetted = true → ∀ c, s.reaches c ≠ some .stranger := by
  have hs := Sound.reach hreach
  refine ⟨hs.connections, fun d hd c hc => ?_⟩
  obtain ⟨i, -, hwrite⟩ := Option.bind_eq_some_iff.mp hc
  have hclosed := (hs.phases d).vetted hd
  split at hwrite
  · rw [hs.strangers i hwrite] at hclosed
    cases hclosed
  · cases hwrite

/-- Two daemons of user 7 with no umask, in a directory of their own. -/
def twoDaemons : Host := ⟨fun _ => 7, fun _ => 0, [], .directory 7 0o755⟩

/-- A user who is in no group. -/
def user (uid : Nat) : Client := ⟨uid, fun _ => false⟩

/-- Daemon 1 starts on a path a crash left; before its `chmod` and after its `listen` user 8 and user 7
try to connect. -/
def startUp : List Input :=
  [.call 1 .checkDir, .call 1 .exists_, .call 1 (.probe (fun _ => false) true),
    .call 1 (.unlink true), .call 1 (.bind true), .connect (user 8), .call 1 (.chmod true),
    .call 1 (.listen true), .connect (user 8), .connect (user 7)]

/-- A path that a crash left. -/
def crashed : State := { path := some 0, nextInode := 1, mode := fun _ => 0o755 }

theorem initial_crashed : Initial crashed :=
  ⟨fun _ => rfl, fun _ => rfl, fun i hi => by cases hi; decide, rfl⟩

theorem only_owner_connects_startUp : ∃ s,
    Reachable twoDaemons s ∧ s.connections = [(1, 7)] ∧
      (∀ x ∈ s.connections, x.2 = 0 ∨ x.2 = 7) ∧ s.reaches (user 8) ≠ some .stranger := by
  have hrun : Reachable twoDaemons _ := .of_guardedRun (fun _ _ hwho => hwho) (.init initial_crashed)
    (show Machine.guardedRun (step twoDaemons) (fun _ input => input.byStranger twoDaemons) crashed
      startUp = some _ from rfl)
  obtain ⟨hconn, hstranger⟩ := only_owner_connects hrun
  exact ⟨_, hrun, rfl, hconn, hstranger 1 rfl (user 8)⟩

/-- A member of the group of a directory that the group may change is no stranger: he puts a socket of
his own in the place of a daemon's. -/
example : let h : Host := { twoDaemons with dir := .directory 0 0o775 }
    (Machine.run (step h) crashed (startUp ++ [.meddle ⟨8, true⟩ none, .plant ⟨8, true⟩ 0o777])).map
      (fun s => decide (s.reaches (user 7) = some .stranger)) = some true := by
  decide

/-! ## A daemon that is up -/

/-- Not past the probe, or out. -/
def Phase.waiting : Phase → Bool
  | .idle | .checked | .probing | .over => true
  | _ => false

/-- Daemon `d` answers at the path, and no other daemon is past its probe. -/
structure Up (d : Daemon) (i : Inode) (s : State) : Prop where
  live : s.phase d = .listening i
  path : s.path = some i
  listener : s.listener i = some (.daemon d)
  others : ∀ e, e ≠ d → (s.phase e).waiting = true

/-- Its own user and root reach it. -/
theorem Up.reaches (hup : Up d i s) (hs : Sound h s) (hc : c.uid = 0 ∨ c.uid = h.uid d) :
    s.reaches c = some (.daemon d) := by
  have hmode := (hs.phases d).isPrivate i (by rw [hup.live]; rfl) hup.path
  have howner := ((hs.phases d).acceptor i (by rw [hup.live]; rfl)).2
  have hmay : s.mayWrite c i = true := by
    unfold State.mayWrite
    rw [hmode, howner]
    by_cases h0 : c.uid = 0
    · rw [if_pos h0]
    · rw [if_neg h0, if_pos (hc.resolve_left h0)]
      rfl
  unfold State.reaches
  rw [hup.path, Option.bind_some, hmay, if_pos rfl, hup.listener]

/-- Another daemon moves to a phase before its probe, or gives up. -/
theorem Up.move (hup : Up d i s) (he : e ≠ d) {p : Phase} (hwaiting : p.waiting = true) :
    Up d i (s.goto e p) := by
  refine ⟨?_, hup.path, hup.listener, fun f hf => ?_⟩
  · rw [phase_goto, if_neg he.symm]
    exact hup.live
  · rw [phase_goto]
    split
    · exact hwaiting
    · exact hup.others f hf

/-- **One call of another daemon.**  It finds the path taken, and its probe is answered. -/
theorem Up.call (hup : Up d i s) (hs : Sound h s) (he : e ≠ d)
    (huser : h.uid e = 0 ∨ h.uid e = h.uid d) {k : Call}
    (hprobe : ∀ inGroup ok, k = .probe inGroup ok → ok = true) (hstep : callStep h s e k = some s') :
    Up d i s' := by
  have hwait := hup.others e he
  cases k with
  | checkDir =>
      simp only [callStep] at hstep
      split at hstep
      · obtain rfl := Option.some.inj hstep
        exact hup.move he rfl
      · obtain rfl := Option.some.inj hstep
        exact hup.move he rfl
      · cases hstep
  | exists_ =>
      simp only [callStep, hup.path] at hstep
      split at hstep
      · obtain rfl := Option.some.inj hstep
        exact hup.move he rfl
      · cases hstep
  | probe inGroup ok =>
      obtain rfl : ok = true := hprobe inGroup ok rfl
      simp only [callStep, hup.reaches hs (c := ⟨h.uid e, inGroup⟩) huser] at hstep
      split at hstep
      · obtain rfl := Option.some.inj hstep
        exact hup.move he rfl
      · cases hstep
  | die =>
      obtain rfl := Option.some.inj hstep
      have hup' := hup.move he (p := .over) rfl
      refine ⟨hup'.live, hup'.path, ?_, hup'.others⟩
      have hne : s.listener i ≠ some (.daemon e) := by
        rw [hup.listener]
        exact fun heq => he (Party.daemon.inj (Option.some.inj heq)).symm
      show (if s.listener i = some (.daemon e) then none else s.listener i) = _
      rw [if_neg hne, hup.listener]
  | unlink | bind | chmod | listen | close | remove =>
      -- it is not at any of these calls
      cases hph : s.phase e <;> simp_all [callStep, Phase.waiting]

/-- Not a call of daemon `d`, nor a probe that fails for a reason of its own; others who meddle are
strangers. -/
def Input.besides (h : Host) (d : Daemon) : Input → Bool
  | .call e (.probe _ ok) => e ≠ d && ok
  | .call e _ => e ≠ d
  | input => input.byStranger h

/-- What others do beside a daemon that is up leaves it up. -/
theorem Up.step (hup : Up d i s) (hs : Sound h s) (husers : ∀ e, h.uid e = 0 ∨ h.uid e = h.uid d)
    {input : Input} (hbeside : input.besides h d = true)
    (hstep : RpcServer.step h s input = some s') : Up d i s' ∧ Sound h s' := by
  have hwho : input.byStranger h = true := by
    cases input <;> first | rfl | exact hbeside
  refine ⟨?_, hs.step hwho hstep⟩
  have hclosed : h.dir.isOpen = false := (hs.phases d).vetted (by rw [hup.live]; rfl)
  cases input with
  | call e k =>
      have hother : e ≠ d ∧ ∀ inGroup ok, k = .probe inGroup ok → ok = true := by
        cases k <;> simp_all [Input.besides]
      exact hup.call hs hother.1 (husers e) hother.2 hstep
  | connect c =>
      obtain rfl := Option.some.inj hstep
      split
      · exact ⟨hup.live, hup.path, hup.listener, hup.others⟩
      · exact hup
  | plant who mode =>
      rw [isOpen_of_meddler hwho rfl hstep] at hclosed
      cases hclosed
  | meddle who target =>
      rw [isOpen_of_meddler hwho rfl hstep] at hclosed
      cases hclosed

/-- Nothing they do in a run takes it down. -/
theorem Up.run (hup : Up d i s) (hs : Sound h s) (husers : ∀ e, h.uid e = 0 ∨ h.uid e = h.uid d)
    {inputs : List Input} (hbeside : ∀ x ∈ inputs, x.besides h d = true)
    (hrun : Machine.run (RpcServer.step h) s inputs = some s') : Up d i s' ∧ Sound h s' := by
  induction inputs generalizing s with
  | nil =>
      obtain rfl : s = s' := by simpa [Machine.run] using hrun
      exact ⟨hup, hs⟩
  | cons x inputs ih =>
      obtain ⟨t, ht, hrest⟩ := Option.bind_eq_some_iff.mp hrun
      obtain ⟨hup', hs'⟩ := hup.step hs husers (hbeside x List.mem_cons_self) ht
      exact ih hup' hs' (fun y hy => hbeside y (List.mem_cons_of_mem x hy)) hrest

/-- **A daemon that is up stays up.**  In every reachable state in which some client reaches daemon
`d` and no other daemon is past its probe, whatever other daemons of root or of the same user, clients
and strangers do from then on, as long as no probe fails for a reason of its own: no other daemon ever
binds a socket, and root and the daemon's user go on reaching `d`. -/
theorem daemon_up_undisturbed (hreach : Reachable h s)
    (hanswers : s.reaches c = some (.daemon d))
    (hothers : ∀ e, e ≠ d → (s.phase e).waiting = true)
    (husers : ∀ e, h.uid e = 0 ∨ h.uid e = h.uid d)
    (inputs : List Input) (hbeside : ∀ x ∈ inputs, x.besides h d = true)
    (hrun : Machine.run (RpcServer.step h) s inputs = some s') :
    (∀ e, e ≠ d → (s'.phase e).acceptor = none) ∧
    ∀ c' : Client, c'.uid = 0 ∨ c'.uid = h.uid d → s'.reaches c' = some (.daemon d) := by
  have hs := Sound.reach hreach
  obtain ⟨i, hpath, hwrite⟩ := Option.bind_eq_some_iff.mp hanswers
  have hlistener : s.listener i = some (.daemon d) := by
    split at hwrite
    · exact hwrite
    · cases hwrite
  have hup : Up d i s := ⟨hs.daemons i d hlistener, hpath, hlistener, hothers⟩
  obtain ⟨hup', hs'⟩ := hup.run hs husers hbeside hrun
  refine ⟨fun e he => ?_, fun c' hc => hup'.reaches hs' hc⟩
  have hwait := hup'.others e he
  cases hph : s'.phase e <;> simp_all [Phase.waiting, Phase.acceptor]

/-- Daemon 2 starts while daemon 1 is up. -/
def lateStart : List Input :=
  [.call 2 .checkDir, .call 2 .exists_, .connect (user 8), .call 2 (.probe (fun _ => false) true),
    .call 2 .die]

theorem daemon_up_undisturbed_lateStart : ∃ s s',
    Reachable twoDaemons s ∧
      Machine.run (step twoDaemons) s lateStart = some s' ∧ (s'.phase 2).acceptor = none ∧
      s'.reaches (user 7) = some (.daemon 1) := by
  have hrun : Reachable twoDaemons _ := .of_guardedRun (fun _ _ hwho => hwho) (.init initial_crashed)
    (show Machine.guardedRun (step twoDaemons) (fun _ input => input.byStranger twoDaemons) crashed
      startUp = some _ from rfl)
  have hothers : ∀ e, e ≠ 1 → (Function.update (Function.update (Function.update (Function.update
      (Function.update (Function.update (Function.update (fun _ => Phase.idle) 1 .checked) 1 .probing)
        1 .clear) 1 .unlinked) 1 (.bound 1)) 1 (.secured 1)) 1 (.listening 1) e).waiting = true := by
    intro e he
    simp [Function.update_of_ne he, Phase.waiting]
  obtain ⟨hnone, hreaches⟩ := daemon_up_undisturbed (d := 1) (c := user 7) hrun rfl hothers
    (fun _ => .inr rfl) lateStart (by decide) rfl
  exact ⟨_, _, hrun, rfl, hnone 2 (by decide), hreaches (user 7) (.inr rfl)⟩

/-- A probe that cannot be made counts as nobody answering: daemon 2 takes the path away. -/
example : (Machine.run (step twoDaemons) crashed (startUp ++ [.call 2 .checkDir, .call 2 .exists_,
    .call 2 (.probe (fun _ => false) false), .call 2 (.unlink true)])).map (fun s =>
      decide (s.reaches (user 7) = none)) = some true := by
  decide

end RpcServer

end Supervisorcpp
